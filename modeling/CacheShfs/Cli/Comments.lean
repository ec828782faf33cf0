import CacheShfs.Cli.SshConfig
import CacheShfs.Lib.Split

/-!
# Comments in an ssh config

`strip_comment` of `crates/cacheshfs-cli/src/ssh_config.rs`.  A comment begins with a `#` at the
start of the line or after white space, and the line is what stands before the first such `#`
(`LongestPlain`).

The code looks at the first `#` of the line and at no other.  Where this one is part of a token, a
comment that follows is not seen, and becomes part of what the line sets (`stripComment_longest`).
-/

namespace CacheShfs

namespace SshConfig

/-- No `#` of the line begins a comment. -/
def NoComment (line : Str) : Prop :=
  ∀ before rest, line = before ++ '#' :: rest → opensComment before = false

/-- The longest first part of a line in which no comment begins. -/
structure LongestPlain (line kept : Str) : Prop where
  starts : kept <+: line
  plain : NoComment kept
  longest : ∀ other, other <+: line → NoComment other → other.length ≤ kept.length

/-- The first `#` of the line begins a comment, or no `#` does. -/
def FirstDecides (line : Str) : Prop :=
  ∀ before rest, line = before ++ '#' :: rest → '#' ∉ before →
    opensComment before ∨ NoComment line

/-- One line in place of the other makes no difference to any config, for any host. -/
def TreatedAlike (line line' : Str) : Prop :=
  ∀ env hostAlias before after, (∀ l ∈ before ++ after, '\n' ∉ l) →
    resolve env (ofLines (before ++ line :: after)) hostAlias =
      resolve env (ofLines (before ++ line' :: after)) hostAlias

/-- Words that are added to the value change nothing: it is no name, user or identity file, and if
it is the patterns of a `Host` block, the added ones make no difference. -/
def Setting.Unaffected (s : Setting) (comment : Str) : Prop :=
  s.keyword ≠ .hostname ∧ s.keyword ≠ .user ∧ s.keyword ≠ .identityFile ∧
    (s.keyword = .host → ∀ hostAlias,
      hostPatternsMatch (s.value ++ ' ' :: '#' :: comment) hostAlias =
        hostPatternsMatch s.value hostAlias)

/-- What the line sets, if anything, is not changed by the words of the comment. -/
def Unaffected (line comment : Str) : Prop :=
  ∀ keyword value, splitKeyword (trim line) = some (keyword, value) →
    (Setting.mk (Keyword.ofText keyword) value).Unaffected comment

/-! ## What is kept of a line -/

lemma noComment_of_not_mem {line : Str} (h : '#' ∉ line) : NoComment line := by
  rintro before rest rfl
  exact absurd (by simp) h

/-- What stands before the first `#` is the same however it is found. -/
lemma first_mark_unique {before before' rest rest' : Str} (h : '#' ∉ before) (h' : '#' ∉ before')
    (heq : before ++ '#' :: rest = before' ++ '#' :: rest') : before = before' := by
  have hsplit := Split.splitOnce_eq_some.mpr ⟨Eq.refl (before ++ '#' :: rest), h⟩
  have hsplit' := Split.splitOnce_eq_some.mpr ⟨heq, h'⟩
  rw [hsplit] at hsplit'
  exact (Prod.mk.inj (Option.some.inj hsplit')).1

/-- A line whose only `#` begins no comment. -/
lemma noComment_of_one_mark {first last : Str} (hfirst : '#' ∉ first) (hlast : '#' ∉ last)
    (hopens : opensComment first = false) : NoComment (first ++ '#' :: last) := by
  intro before rest heq
  by_cases hmark : '#' ∈ before
  · obtain ⟨before, more, rfl, hbefore⟩ := List.eq_append_cons_of_mem hmark
    rw [List.append_assoc, List.cons_append] at heq
    obtain rfl := first_mark_unique hfirst hbefore heq
    obtain rfl := List.cons_injective (List.append_cancel_left heq)
    exact absurd (by simp) hlast
  · rwa [← first_mark_unique hfirst hmark heq]

lemma stripComment_of_noComment {line : Str} (h : NoComment line) : stripComment line = line := by
  by_cases hmark : '#' ∈ line
  · obtain ⟨before, rest, rfl, hbefore⟩ := List.eq_append_cons_of_mem hmark
    rw [stripComment_mark hbefore, h before rest rfl, if_neg Bool.false_ne_true]
  · exact stripComment_of_not_mem hmark

/-- A line without a comment is kept as it is. -/
lemma longestPlain_self {line : Str} : LongestPlain line line ↔ NoComment line :=
  ⟨fun h => h.plain, fun h => ⟨List.prefix_rfl, h, fun _ hother _ => hother.length_le⟩⟩

/-- Before the first `#`, if it begins a comment, nothing more can be kept. -/
lemma longestPlain_before {before : Str} (h : '#' ∉ before) (hopens : opensComment before = true)
    (rest : Str) : LongestPlain (before ++ '#' :: rest) before := by
  refine ⟨List.prefix_append _ _, noComment_of_not_mem h, ?_⟩
  rintro other hother hplain
  by_contra hlonger
  have hbefore : before ++ ['#'] <+: other := by
    refine List.prefix_of_prefix_length_le ?_ hother ?_
    · exact ⟨rest, by simp⟩
    · rw [List.length_append, List.length_singleton]
      omega
  obtain ⟨more, rfl⟩ := hbefore
  have hcloses := hplain before more (by simp)
  rw [hopens] at hcloses
  cases hcloses

lemma stripComment_longest_iff (line : Str) :
    LongestPlain line (stripComment line) ↔ FirstDecides line := by
  by_cases hmark : '#' ∈ line
  · obtain ⟨before, rest, rfl, hbefore⟩ := List.eq_append_cons_of_mem hmark
    have hfirst : FirstDecides (before ++ '#' :: rest) ↔
        opensComment before ∨ NoComment (before ++ '#' :: rest) := by
      refine ⟨fun h => h before rest rfl hbefore, fun h before' rest' heq hbefore' => ?_⟩
      rwa [← first_mark_unique hbefore hbefore' heq]
    rw [hfirst, stripComment_mark hbefore]
    by_cases hopens : opensComment before = true
    · rw [if_pos hopens]
      exact iff_of_true (longestPlain_before hbefore hopens rest) (.inl hopens)
    · rw [if_neg hopens, longestPlain_self]
      exact (or_iff_right hopens).symm
  · rw [stripComment_of_not_mem hmark, longestPlain_self]
    refine iff_of_true (noComment_of_not_mem hmark) ?_
    rintro before rest rfl
    exact absurd (by simp) hmark

/-! ## What a line sets -/

/-- No keyword that is known has a `#` in it. -/
lemma ofText_mark {text : Str} (h : '#' ∈ text) : Keyword.ofText text = .other := by
  have hlower : '#' ∈ text.map Char.toLower := List.mem_map.mpr ⟨'#', h, by decide⟩
  have hne : ∀ word : Str, '#' ∉ word → text.map Char.toLower ≠ word := by
    rintro word hword rfl
    exact hword hlower
  simp [Keyword.ofText, hne _]

section Separator

variable {line keyword value : Str} {c : Char}

lemma keyword_eq (h : splitKeyword line = some (keyword, value)) :
    keyword = line.takeWhile (!isSeparator ·) := by
  rw [splitKeyword] at h
  split at h
  · cases h
  · split at h
    · cases h
    · exact (Prod.mk.inj (Option.some.inj h)).1.symm

/-- The first separator of a text. -/
lemma exists_separator (h : ¬ ∀ d ∈ line, (!isSeparator d) = true) :
    ∃ keyword c value, line = keyword ++ c :: value ∧ (∀ d ∈ keyword, (!isSeparator d) = true) ∧
      isSeparator c = true := by
  have hne : line.dropWhile (!isSeparator ·) ≠ [] := fun hnil =>
    h (List.dropWhile_eq_nil_iff.mp hnil)
  have hhead := List.head_dropWhile_not (!isSeparator ·) hne
  obtain ⟨c, value, hrest⟩ := List.exists_cons_of_ne_nil hne
  simp only [hrest, List.head_cons, Bool.not_eq_false'] at hhead
  refine ⟨line.takeWhile (!isSeparator ·), c, value, ?_, fun d => List.mem_takeWhile_imp, hhead⟩
  rw [← hrest, List.takeWhile_append_dropWhile]

lemma splitKeyword_append (hne : keyword ≠ []) (hkeyword : ∀ d ∈ keyword, (!isSeparator d) = true)
    (hc : isSeparator c = true) :
    splitKeyword (keyword ++ c :: value) = some (keyword, trim (value.dropWhile isSeparator)) := by
  have htake : (keyword ++ c :: value).takeWhile (!isSeparator ·) = keyword := by
    rw [List.takeWhile_append_of_pos hkeyword, List.takeWhile_cons_of_neg (by simpa using hc),
      List.append_nil]
  have hdrop : (keyword ++ c :: value).dropWhile (!isSeparator ·) = c :: value := by
    rw [List.dropWhile_append_of_pos hkeyword, List.dropWhile_cons_of_neg (by simpa using hc)]
  simp [splitKeyword, htake, hdrop, hne, hc]

lemma splitKeyword_separator (hc : isSeparator c = true) : splitKeyword (c :: value) = none := by
  simp [splitKeyword, hc]

end Separator

/-- A `#` that does not begin a comment stays in the line, as part of the keyword or of the value,
and so does what follows. -/
lemma readLine_mark {before : Str} (hmark : '#' ∉ before) (hopens : opensComment before = false) :
    (∀ rest s, readLine (before ++ '#' :: rest) = some s → s.keyword = .other) ∨
      ∃ keyword value, ∀ rest, readLine (before ++ '#' :: rest) =
        some ⟨keyword, (value ++ '#' :: rest).rdropWhile isWhitespace⟩ := by
  obtain ⟨body, hbody⟩ : ∃ body : Str, ∀ rest, trim (stripComment (before ++ '#' :: rest)) =
      body ++ '#' :: rest.rdropWhile isWhitespace := by
    refine ⟨before.dropWhile isWhitespace, fun rest => ?_⟩
    rw [stripComment_mark hmark, hopens, if_neg Bool.false_ne_true,
      trim_append_cons before (by decide)]
  by_cases hsep : ∀ d ∈ body, (!isSeparator d) = true
  · -- the `#` is part of the keyword
    refine .inl fun rest s hs => ?_
    rw [readLine, hbody] at hs
    obtain ⟨⟨keyword, value⟩, hsplit, rfl⟩ := Option.map_eq_some_iff.mp hs
    apply ofText_mark
    rw [keyword_eq hsplit, List.takeWhile_append_of_pos hsep,
      List.takeWhile_cons_of_pos (by decide)]
    simp
  · -- the keyword ends before it
    obtain ⟨keyword, c, value, rfl, hkeyword, hc⟩ := exists_separator hsep
    by_cases hempty : keyword = []
    · refine .inl fun rest s hs => ?_
      rw [readLine, hbody, hempty, List.nil_append, List.cons_append,
        splitKeyword_separator hc] at hs
      cases hs
    · refine .inr ⟨Keyword.ofText keyword,
        (value.dropWhile isSeparator).dropWhile isWhitespace, fun rest => ?_⟩
      rw [readLine, hbody, List.append_assoc, List.cons_append,
        splitKeyword_append hempty hkeyword hc, dropWhile_append_cons value (by decide),
        trim_append_cons _ (by decide), rdropWhile_append_cons _ (by decide),
        List.rdropWhile_idempotent]
      rfl

/-! ## What a longer value changes -/

lemma length_unquote (value : Str) :
    (unquote value).length ≤ (trim value).length ∧
      (trim value).length ≤ (unquote value).length + 2 := by
  rw [unquote]
  split
  · rw [List.length_dropLast, List.length_tail]
    omega
  · omega

lemma unquote_of_last {value : Str} {c : Char} (hlast : (trim value).getLast? = some c)
    (hc : c ≠ '"') : unquote value = trim value := by
  rw [unquote]
  apply if_neg
  rintro ⟨-, -, hquote⟩
  rw [hlast] at hquote
  exact hc (Option.some.inj hquote)

/-- A value that a comment is left in is longer than without it, also after the quotes are
dropped. -/
lemma unquote_ne (value rest comment : Str) :
    unquote ((value ++ '#' :: rest).rdropWhile isWhitespace) ≠
      unquote ((value ++ '#' :: (rest ++ ' ' :: '#' :: comment)).rdropWhile isWhitespace) := by
  have htrim : ∀ more, trim ((value ++ '#' :: more).rdropWhile isWhitespace) =
      value.dropWhile isWhitespace ++ '#' :: more.rdropWhile isWhitespace := by
    intro more
    rw [rdropWhile_append_cons value (by decide), trim_append_cons value (by decide),
      List.rdropWhile_idempotent]
  have hmore : (rest ++ ' ' :: '#' :: comment).rdropWhile isWhitespace =
      rest ++ ' ' :: '#' :: comment.rdropWhile isWhitespace := by
    have hkept := rdropWhile_append_cons (p := isWhitespace) (c := '#') (rest ++ [' ']) (by decide)
      comment
    simpa using hkept
  have hrest := (List.rdropWhile_prefix isWhitespace (l := rest)).length_le
  intro heq
  have hshort := (length_unquote ((value ++ '#' :: rest).rdropWhile isWhitespace)).1
  have hlong := length_unquote
    ((value ++ '#' :: (rest ++ ' ' :: '#' :: comment)).rdropWhile isWhitespace)
  rw [heq, htrim] at hshort
  rw [htrim, hmore] at hlong
  by_cases hcomment : comment.rdropWhile isWhitespace = []
  · -- the longer value ends with a `#`, so it has no quotes to drop
    have hlast : (trim ((value ++ '#' :: (rest ++ ' ' :: '#' :: comment)).rdropWhile
        isWhitespace)).getLast? = some '#' := by
      simp [htrim, hmore, hcomment, List.getLast?_cons]
    rw [unquote_of_last hlast (by decide), htrim, hmore] at hshort
    simp only [List.length_append, List.length_cons] at hshort
    omega
  · have hpos := List.length_pos_iff.mpr hcomment
    simp only [List.length_append, List.length_cons] at hshort hlong
    omega

/-- The words of a comment that is left in a value come after the words of the value. -/
lemma splitWhitespace_left (value rest comment : Str) :
    splitWhitespace ((value ++ '#' :: (rest ++ ' ' :: '#' :: comment)).rdropWhile isWhitespace) =
      splitWhitespace
        ((value ++ '#' :: rest).rdropWhile isWhitespace ++ ' ' :: '#' :: comment) := by
  rw [splitWhitespace_append_cons _ (by decide), splitWhitespace_rdropWhile,
    splitWhitespace_rdropWhile, ← List.cons_append, ← List.append_assoc,
    splitWhitespace_append_cons _ (by decide)]

lemma mem_unquote {value : Str} {c : Char} (hc : c ≠ '"') (h : c ∈ trim value) :
    c ∈ unquote value := by
  rw [unquote]
  split
  · next hquotes =>
      obtain ⟨hlength, hhead, hlast⟩ := hquotes
      obtain ⟨inner, hinner⟩ := List.getLast?_eq_some_iff.mp hlast
      rw [hinner] at h hlength hhead ⊢
      rcases inner with _ | ⟨d, inner⟩
      · simp at hlength
      · obtain rfl : d = '"' := Option.some.inj hhead
        simpa [hc] using h
  · exact h

/-- A value with a `#` in it is no port. -/
lemma parseU16_mark (value rest : Str) :
    parseU16 (unquote ((value ++ '#' :: rest).rdropWhile isWhitespace)) = none := by
  by_contra hport
  obtain ⟨port, hport⟩ := Option.ne_none_iff_exists'.mp hport
  refine not_mem_of_parseU16 hport (c := '#') (by decide) (by decide) (mem_unquote (by decide) ?_)
  rw [rdropWhile_append_cons value (by decide), trim_append_cons value (by decide)]
  simp

lemma expandTilde_of_no_home (path : Str) : expandTilde ⟨none, none⟩ path = path := by
  unfold expandTilde
  split <;> rfl

/-! ## The pass over the lines -/

section Pass

variable {env : HomeEnv} {hostAlias line line' comment : Str} {before after : List Str}

/-- A config of these lines is read line by line. -/
lemma resolve_ofLines {ls : List Str} (hne : ls ≠ []) (h : ∀ l ∈ ls, '\n' ∉ l) :
    resolve env (ofLines ls) hostAlias = (ls.foldl (resolveLine env hostAlias) ({}, true)).1 := by
  obtain ⟨before, last, rfl⟩ := (List.eq_nil_or_concat' ls).resolve_left hne
  rw [resolve, lines_ofLines h, List.foldl_append, List.foldl_append, List.foldl_map]
  simp only [resolveLine_dropReturn]
  by_cases hempty : last = []
  · rw [hempty]
    rfl
  · rw [List.filter_cons_of_pos (by simpa using hempty)]
    rfl

lemma resolve_line (h : ∀ l ∈ before ++ after, '\n' ∉ l) (hline : '\n' ∉ line) :
    resolve env (ofLines (before ++ line :: after)) hostAlias =
      (after.foldl (resolveLine env hostAlias) (resolveLine env hostAlias
        (before.foldl (resolveLine env hostAlias) ({}, true)) line)).1 := by
  rw [resolve_ofLines (by simp), List.foldl_append, List.foldl_cons]
  intro l hl
  rcases List.mem_append.mp hl with hl | hl
  · exact h l (List.mem_append_left _ hl)
  · rcases List.mem_cons.mp hl with rfl | hl
    · exact hline
    · exact h l (List.mem_append_right _ hl)

/-- Lines that do the same to every state of the pass make no difference. -/
lemma treatedAlike_of_same (hline : '\n' ∉ line) (hline' : '\n' ∉ line')
    (h : ∀ env hostAlias state,
      resolveLine env hostAlias state line = resolveLine env hostAlias state line') :
    TreatedAlike line line' := by
  intro env hostAlias before after hlines
  rw [resolve_line hlines hline, resolve_line hlines hline', h]

/-- Lines that make no difference do the same at the start of a config. -/
lemma TreatedAlike.setting {s s' : Setting} (h : TreatedAlike line line') (hline : '\n' ∉ line)
    (hline' : '\n' ∉ line') (hs : readLine line = some s) (hs' : readLine line' = some s')
    (env : HomeEnv) (hostAlias : Str) {after : List Str} (hafter : ∀ l ∈ after, '\n' ∉ l) :
    (after.foldl (resolveLine env hostAlias)
      (setting env hostAlias s.keyword s.value ({}, true))).1 =
    (after.foldl (resolveLine env hostAlias)
      (setting env hostAlias s'.keyword s'.value ({}, true))).1 := by
  have hsame := h env hostAlias [] after hafter
  rw [resolve_line hafter hline, resolve_line hafter hline', List.foldl_nil, resolveLine_eq,
    resolveLine_eq, hs, hs'] at hsame
  exact hsame

/-- After a line without a `#`, the comment is dropped. -/
lemma readLine_comment (h : '#' ∉ line) (comment : Str) :
    readLine (line ++ ' ' :: '#' :: comment) = readLine line := by
  have hmark : '#' ∉ line ++ [' '] := by simpa using h
  have hopens : opensComment (line ++ [' ']) = true := opensComment_concat line ' '
  have hstrip : stripComment (line ++ ' ' :: '#' :: comment) = line ++ [' '] := by
    have hstrip := stripComment_mark hmark comment
    rw [hopens, if_pos rfl, List.append_assoc] at hstrip
    exact hstrip
  rw [readLine, hstrip, trim_concat line (by decide), readLine, stripComment_of_not_mem h]

/-- Whether a `Host` block applies shows in what a line of the block sets. -/
lemma user_after (matched : Bool) :
    (resolveLine env hostAlias ({}, matched) ['U', 's', 'e', 'r', ' ', 'x']).1.user =
      if matched then some ['x'] else none := by
  have hread : readLine ['U', 's', 'e', 'r', ' ', 'x'] = some ⟨.user, ['x']⟩ := rfl
  rw [resolveLine_eq, hread]
  cases matched <;> rfl

/-- A line with a keyword that is not known does nothing. -/
lemma resolveLine_other (h : ∀ s, readLine line = some s → s.keyword = .other)
    (state : SshHostConfig × Bool) : resolveLine env hostAlias state line = state := by
  rw [resolveLine_eq]
  cases hread : readLine line with
  | none => rfl
  | some s =>
      simp only [h s hread, setting]
      split <;> rfl

section Left

variable {keyword : Keyword} {value rest : Str}
  (hread : readLine line = some ⟨keyword, (value ++ '#' :: rest).rdropWhile isWhitespace⟩)
  (hread' : readLine line' = some
    ⟨keyword, (value ++ '#' :: (rest ++ ' ' :: '#' :: comment)).rdropWhile isWhitespace⟩)

include hread hread'

/-- A comment that is left in the value shows, if the line sets something that it changes. -/
lemma unaffected_of_alike (hline : '\n' ∉ line) (hline' : '\n' ∉ line')
    (h : TreatedAlike line line') :
    (Setting.mk keyword ((value ++ '#' :: rest).rdropWhile isWhitespace)).Unaffected comment := by
  have hne := unquote_ne value rest comment
  have hempty : ∀ l ∈ ([] : List Str), '\n' ∉ l := by simp
  have hfirst := h.setting hline hline' hread hread' ⟨none, none⟩ [] hempty
  refine ⟨?_, ?_, ?_, ?_⟩
  · rintro rfl
    exact hne (Option.some.inj (congrArg SshHostConfig.hostname hfirst))
  · rintro rfl
    exact hne (Option.some.inj (congrArg SshHostConfig.user hfirst))
  · rintro rfl
    have hfile := List.singleton_inj.mp (congrArg SshHostConfig.identityFiles hfirst)
    rw [expandTilde_of_no_home, expandTilde_of_no_home] at hfile
    exact hne hfile
  · rintro rfl hostAlias
    have huser : ∀ l ∈ [['U', 's', 'e', 'r', ' ', 'x']], '\n' ∉ l := by simp
    have hblock := congrArg SshHostConfig.user
      (h.setting hline hline' hread hread' ⟨none, none⟩ hostAlias huser)
    simp only [SshConfig.setting, List.foldl_cons, List.foldl_nil, user_after] at hblock
    have hflag : ∀ m m' : Bool, (if m then some ['x'] else none) =
        (if m' then some ['x'] else none) → m' = m := by decide
    rw [hostPatternsMatch, ← splitWhitespace_left, ← hostPatternsMatch]
    exact hflag _ _ hblock

/-- Otherwise it makes no difference. -/
lemma same_of_unaffected
    (h : (Setting.mk keyword ((value ++ '#' :: rest).rdropWhile isWhitespace)).Unaffected comment)
    (state : SshHostConfig × Bool) :
    resolveLine env hostAlias state line = resolveLine env hostAlias state line' := by
  obtain ⟨hhostname, huser, hfile, hhost⟩ := h
  rw [resolveLine_eq, resolveLine_eq, hread, hread']
  cases keyword with
  | host =>
      have hmatch := hhost rfl hostAlias
      rw [hostPatternsMatch, ← splitWhitespace_left, ← hostPatternsMatch] at hmatch
      simp only [setting, hmatch]
  | matchBlock => rfl
  | hostname => exact absurd rfl hhostname
  | user => exact absurd rfl huser
  | port => simp only [setting, parseU16_mark]
  | identityFile => exact absurd rfl hfile
  | other => rfl

end Left

end Pass

section Alike

variable {line comment : Str}

lemma unaffected_iff (h : NoComment line) :
    Unaffected line comment ↔ ∀ s, readLine line = some s → s.Unaffected comment := by
  constructor
  · intro hline s hs
    rw [readLine, stripComment_of_noComment h] at hs
    obtain ⟨⟨keyword, value⟩, hsplit, rfl⟩ := Option.map_eq_some_iff.mp hs
    exact hline keyword value hsplit
  · intro hline keyword value hsplit
    apply hline
    rw [readLine, stripComment_of_noComment h, hsplit]
    rfl

/-- A comment that follows makes no difference if there is no `#` before it, or if nothing is set
that it changes. -/
lemma treatedAlike_iff (hline : '\n' ∉ line) (hcomment : '\n' ∉ comment) (hplain : NoComment line) :
    TreatedAlike line (line ++ ' ' :: '#' :: comment) ↔ '#' ∉ line ∨ Unaffected line comment := by
  have hline' : '\n' ∉ line ++ ' ' :: '#' :: comment := by simp [hline, hcomment]
  rw [unaffected_iff hplain]
  by_cases hmark : '#' ∈ line
  · rw [or_iff_right (not_not.mpr hmark)]
    obtain ⟨before, rest, rfl, hbefore⟩ := List.eq_append_cons_of_mem hmark
    have hopens := hplain before rest rfl
    rw [List.append_assoc, List.cons_append] at hline' ⊢
    rcases readLine_mark hbefore hopens with hother | ⟨keyword, value, hread⟩
    · -- the `#` is in the keyword, and neither line does anything
      refine iff_of_true (treatedAlike_of_same hline hline' fun env hostAlias state => ?_) ?_
      · rw [resolveLine_other (hother _), resolveLine_other (hother _)]
      · intro s hs
        rw [Setting.Unaffected, hother rest s hs]
        exact ⟨by decide, by decide, by decide, fun h => by cases h⟩
    · -- the `#` is in the value, and the comment becomes part of it
      constructor
      · intro halike s hs
        rw [hread rest] at hs
        obtain rfl := Option.some.inj hs
        exact unaffected_of_alike (hread _) (hread _) hline hline' halike
      · intro h
        refine treatedAlike_of_same hline hline' fun env hostAlias state => ?_
        exact same_of_unaffected (hread _) (hread _) (h _ (hread rest)) state
  · refine iff_of_true ?_ (.inl hmark)
    refine treatedAlike_of_same hline hline' fun env hostAlias state => ?_
    rw [resolveLine_eq, resolveLine_eq, readLine_comment hmark]

end Alike

/-- **When comments are taken out, and when they are not.**  What is kept of a line is the longest
first part without a comment if and only if the first `#` begins a comment or none does.  A comment
after a line that has none makes no difference, to any config and for any host, if and only if the
line has no `#`, or does not set anything that the words of the comment change. -/
theorem stripComment_longest (line comment : Str) :
    (LongestPlain line (stripComment line) ↔ FirstDecides line) ∧
    ('\n' ∉ line → '\n' ∉ comment → NoComment line →
      (TreatedAlike line (line ++ ' ' :: '#' :: comment) ↔
        '#' ∉ line ∨ Unaffected line comment)) :=
  ⟨stripComment_longest_iff line, treatedAlike_iff⟩

/-- After a name with a `#` in it, the comment is not taken out, and becomes part of the name. -/
theorem stripComment_missed :
    ¬ LongestPlain ['U', 's', 'e', 'r', ' ', 'a', '#', 'b', ' ', '#', 'c']
        (stripComment ['U', 's', 'e', 'r', ' ', 'a', '#', 'b', ' ', '#', 'c']) ∧
      NoComment ['U', 's', 'e', 'r', ' ', 'a', '#', 'b'] ∧
      ¬ TreatedAlike ['U', 's', 'e', 'r', ' ', 'a', '#', 'b']
        ['U', 's', 'e', 'r', ' ', 'a', '#', 'b', ' ', '#', 'c'] := by
  refine ⟨fun h => ?_, ?_, fun h => ?_⟩
  · have hcloses := h.plain ['U', 's', 'e', 'r', ' ', 'a', '#', 'b', ' '] ['c'] rfl
    cases hcloses
  · exact @noComment_of_one_mark ['U', 's', 'e', 'r', ' ', 'a'] ['b'] (by simp) (by simp) rfl
  · have huser := congrArg SshHostConfig.user (h ⟨none, none⟩ [] [] [] (by simp))
    have hsame : some ['a', '#', 'b'] = some ['a', '#', 'b', ' ', '#', 'c'] := huser
    cases hsame

end SshConfig

end CacheShfs
