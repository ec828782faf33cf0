import CacheShfs.Cli.SshConfig
import Mathlib.Data.List.Forall2

/-!
# Host patterns

`glob_match` of `crates/cacheshfs-cli/src/ssh_config.rs` calls itself once or twice.  On a `*` it
goes on with the rest of the pattern, and then with the whole pattern on the rest of the text, so
neither the pattern nor the text gets shorter in every call; both together do.

What it finds is a way to cut the text into one piece for each character of the pattern, and it
finds one if there is any (`globMatch_exact`).
-/

namespace CacheShfs

namespace SshConfig

/-- A piece of a text that a character of a pattern stands for. -/
def Takes (c : Char) (piece : Str) : Prop :=
  c ≠ '*' → if c = '?' then piece.length = 1 else piece = [c]

/-- `matches`, whose calls are nested at most so deep.  It answers nothing if it would have to go
deeper. -/
def matchesWithin : ℕ → Str → Str → Option Bool
  | 0, _, _ => none
  | _ + 1, [], text => some (text = [])
  | depth + 1, c :: pattern, text =>
      if c = '*' then
        match matchesWithin depth pattern text with
        | none => none
        | some true => some true
        | some false =>
            match text with
            | [] => some false
            | _ :: rest => matchesWithin depth (c :: pattern) rest
      else
        match text with
        | [] => some false
        | d :: rest => if c = '?' ∨ d = c then matchesWithin depth pattern rest else some false

lemma takes_star (piece : Str) : Takes '*' piece := fun h => absurd rfl h

lemma Glob.pieces {pattern text : Str} (h : Glob pattern text) :
    ∃ pieces, List.Forall₂ Takes pattern pieces ∧ pieces.flatten = text := by
  induction h with
  | nil => exact ⟨[], .nil, rfl⟩
  | star run _ ih =>
      obtain ⟨pieces, htakes, rfl⟩ := ih
      exact ⟨run :: pieces, .cons (takes_star run) htakes, rfl⟩
  | question c _ ih =>
      obtain ⟨pieces, htakes, rfl⟩ := ih
      exact ⟨[c] :: pieces, .cons (fun _ => rfl) htakes, rfl⟩
  | @char c _ _ _ hquestion _ ih =>
      obtain ⟨pieces, htakes, rfl⟩ := ih
      exact ⟨[c] :: pieces, .cons (fun _ => by rw [if_neg hquestion]) htakes, rfl⟩

lemma glob_of_pieces {pattern : Str} {pieces : List Str} (h : List.Forall₂ Takes pattern pieces) :
    Glob pattern pieces.flatten := by
  induction h with
  | nil => exact .nil
  | @cons c piece pattern pieces htakes _ ih =>
      rw [List.flatten_cons]
      by_cases hstar : c = '*'
      · rw [hstar]
        exact .star piece ih
      · have hpiece := htakes hstar
        by_cases hquestion : c = '?'
        · rw [if_pos hquestion] at hpiece
          obtain ⟨d, rfl⟩ := List.length_eq_one_iff.mp hpiece
          rw [hquestion]
          exact .question d ih
        · rw [if_neg hquestion] at hpiece
          rw [hpiece]
          exact .char hstar hquestion ih

/-- A call lowers the length of pattern and text together, so the calls nest no deeper than it. -/
lemma matchesWithin_eq {depth : ℕ} {pattern text : Str} (h : pattern.length + text.length < depth) :
    matchesWithin depth pattern text = some (globMatch pattern text) := by
  induction depth generalizing pattern text with
  | zero => omega
  | succ depth ih =>
      cases pattern with
      | nil => rw [matchesWithin, globMatch]
      | cons c pattern =>
          rw [List.length_cons] at h
          have hpattern : pattern.length + text.length < depth := by omega
          rw [matchesWithin.eq_def, globMatch.eq_def]
          by_cases hstar : c = '*'
          · simp only [if_pos hstar, ih hpattern]
            cases hfound : globMatch pattern text with
            | true => rfl
            | false =>
                cases text with
                | nil => rfl
                | cons d rest =>
                    rw [List.length_cons] at h
                    have hrest : (c :: pattern).length + rest.length < depth := by
                      rw [List.length_cons]
                      omega
                    simp [ih hrest]
          · simp only [if_neg hstar]
            cases text with
            | nil => rfl
            | cons d rest =>
                rw [List.length_cons] at h
                have hrest : pattern.length + rest.length < depth := by omega
                by_cases hd : c = '?' ∨ d = c
                · simp [hd, ih hrest]
                · simp [hd]

/-- **Pattern matching is exact, and comes to an end.**  A pattern matches a text if and only if
the text is made of pieces, one for each character of the pattern: any for `*`, one character for
`?`, and the character itself for every other.  The calls nest no deeper than pattern and text are
long together. -/
theorem globMatch_exact (pattern text : Str) :
    (globMatch pattern text = true ↔
      ∃ pieces, List.Forall₂ Takes pattern pieces ∧ pieces.flatten = text) ∧
    ∀ depth, pattern.length + text.length < depth →
      matchesWithin depth pattern text = some (globMatch pattern text) := by
  refine ⟨?_, fun depth => matchesWithin_eq⟩
  rw [globMatch_iff]
  constructor
  · exact Glob.pieces
  · rintro ⟨pieces, htakes, rfl⟩
    exact glob_of_pieces htakes

end SshConfig

end CacheShfs
