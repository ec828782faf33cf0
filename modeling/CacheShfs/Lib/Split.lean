import Mathlib.Data.List.Basic

/-!
# Splitting a sequence at a separator

A sequence is split once, at the first or at the last occurrence of a separator.  The two parts
are what stands on either side, and the side that is searched has no separator in it; that
determines them (`splitOnce_eq_some`, `rsplitOnce_eq_some`).
-/

namespace Split

variable {α : Type*} [DecidableEq α] {sep : α} {l a b : List α}

/-- The parts before and after the first separator. -/
def splitOnce (sep : α) : List α → Option (List α × List α)
  | [] => none
  | x :: l =>
      if x = sep then some ([], l)
      else (splitOnce sep l).map fun parts => (x :: parts.1, parts.2)

/-- The parts before and after the last separator. -/
def rsplitOnce (sep : α) (l : List α) : Option (List α × List α) :=
  (splitOnce sep l.reverse).map fun parts => (parts.2.reverse, parts.1.reverse)

lemma splitOnce_eq_some : splitOnce sep l = some (a, b) ↔ l = a ++ sep :: b ∧ sep ∉ a := by
  induction l generalizing a with
  | nil => simp [splitOnce]
  | cons x l ih =>
      rw [splitOnce]
      by_cases hx : x = sep
      · rw [if_pos hx, hx]
        cases a with
        | nil => simp
        | cons y a =>
            refine iff_of_false (by simp) fun ⟨h, hsep⟩ => hsep ?_
            rw [(List.cons.inj h).1]
            exact List.mem_cons_self
      · rw [if_neg hx, Option.map_eq_some_iff]
        constructor
        · rintro ⟨⟨a', b'⟩, hparts, h⟩
          obtain ⟨rfl, rfl⟩ := Prod.mk.inj h
          obtain ⟨rfl, hsep⟩ := ih.mp hparts
          exact ⟨rfl, List.not_mem_cons_of_ne_of_not_mem (Ne.symm hx) hsep⟩
        · rintro ⟨h, hsep⟩
          cases a with
          | nil => exact absurd (List.cons.inj h).1 hx
          | cons y a =>
              obtain ⟨rfl, rfl⟩ := List.cons.inj h
              exact ⟨(a, b), ih.mpr ⟨rfl, List.not_mem_of_not_mem_cons hsep⟩, rfl⟩

lemma splitOnce_eq_none : splitOnce sep l = none ↔ sep ∉ l := by
  induction l with
  | nil => simp [splitOnce]
  | cons x l ih =>
      rw [splitOnce]
      by_cases hx : x = sep
      · simp [hx]
      · simp [hx, Ne.symm hx, ih]

lemma rsplitOnce_eq_some : rsplitOnce sep l = some (a, b) ↔ l = a ++ sep :: b ∧ sep ∉ b := by
  have hreverse : l = a ++ sep :: b ↔ l.reverse = b.reverse ++ sep :: a.reverse := by
    rw [← List.reverse_inj]
    simp
  rw [rsplitOnce, Option.map_eq_some_iff, hreverse]
  constructor
  · rintro ⟨⟨b', a'⟩, hparts, h⟩
    obtain ⟨rfl, rfl⟩ := Prod.mk.inj h
    simpa using splitOnce_eq_some.mp hparts
  · rintro ⟨h, hsep⟩
    refine ⟨(b.reverse, a.reverse), splitOnce_eq_some.mpr ⟨h, ?_⟩, by simp⟩
    simpa using hsep

lemma rsplitOnce_eq_none : rsplitOnce sep l = none ↔ sep ∉ l := by
  rw [rsplitOnce, Option.map_eq_none_iff, splitOnce_eq_none, List.mem_reverse]

end Split
