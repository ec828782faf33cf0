import CacheShfs.Core.Text

/-!
# The ssh config

`crates/cacheshfs-cli/src/ssh_config.rs`: what a client config says about a host alias.  `resolve`
is one pass over the lines, which carries whether the settings of the current block apply and what
has been found so far.

What the pass finds is given without it: a line that counts is active if no block has started, or
the last block that has started is a `Host` block whose patterns match (`Active`), and the result
consists of the first or of all values of the active lines (`resolve_eq`).  Whether the patterns
match depends on which patterns there are and not on their order (`HostLineMatches`).
-/

namespace CacheShfs

namespace SshConfig

/-- `struct SshHostConfig`. -/
structure SshHostConfig where
  hostname : Option Str := none
  user : Option Str := none
  port : Option UInt16 := none
  identityFiles : List Str := []
  deriving DecidableEq

/-! ## The text of a line -/

/-- `strip_comment`.  Only the first `#` is looked at. -/
def stripComment (line : Str) : Str :=
  let before := line.takeWhile (· ≠ '#')
  if before.length = line.length then line
  else
    match before.getLast? with
    | none => []
    | some c => if isAsciiWhitespace c then before else line

/-- What separates a keyword from its value. -/
def isSeparator (c : Char) : Bool := c = '=' || isWhitespace c

/-- `split_keyword`. -/
def splitKeyword (line : Str) : Option (Str × Str) :=
  let keyword := line.takeWhile (!isSeparator ·)
  let rest := line.dropWhile (!isSeparator ·)
  if rest = [] then none
  else if keyword = [] then none
  else some (keyword, trim (rest.dropWhile isSeparator))

/-- `unquote`. -/
def unquote (value : Str) : Str :=
  let value := trim value
  if 2 ≤ value.length ∧ value.head? = some '"' ∧ value.getLast? = some '"' then
    value.tail.dropLast
  else value

/-- `expand_tilde`. -/
def expandTilde (env : HomeEnv) (path : Str) : Str :=
  match path with
  | ['~'] => (homeDir env).getD path
  | '~' :: '/' :: rest =>
      match homeDir env with
      | some home => pushPath home rest
      | none => path
  | _ => path

/-- The keywords that `resolve` knows. -/
inductive Keyword
  | host
  | matchBlock
  | hostname
  | user
  | port
  | identityFile
  | other
  deriving DecidableEq

/-- A keyword, in any case. -/
def Keyword.ofText (text : Str) : Keyword :=
  let text := text.map Char.toLower
  if text = ['h', 'o', 's', 't'] then .host
  else if text = ['m', 'a', 't', 'c', 'h'] then .matchBlock
  else if text = ['h', 'o', 's', 't', 'n', 'a', 'm', 'e'] then .hostname
  else if text = ['u', 's', 'e', 'r'] then .user
  else if text = ['p', 'o', 'r', 't'] then .port
  else if text = ['i', 'd', 'e', 'n', 't', 'i', 't', 'y', 'f', 'i', 'l', 'e'] then .identityFile
  else .other

/-! ## Patterns -/

/-- `glob_match`. -/
def globMatch : Str → Str → Bool
  | [], text => text = []
  | c :: pattern, text =>
      if c = '*' then
        globMatch pattern text ||
          match text with
          | [] => false
          | _ :: rest => globMatch (c :: pattern) rest
      else
        match text with
        | [] => false
        | d :: rest => (c = '?' || d = c) && globMatch pattern rest
  termination_by pattern text => pattern.length + text.length

/-- The loop of `host_patterns_match`. -/
def patternsMatch (hostAlias : Str) : List Str → Bool → Bool
  | [], matched => matched
  | ('!' :: negated) :: rest, matched =>
      if globMatch negated hostAlias then false else patternsMatch hostAlias rest matched
  | pattern :: rest, matched =>
      patternsMatch hostAlias rest (if globMatch pattern hostAlias then true else matched)

/-- `host_patterns_match`. -/
def hostPatternsMatch (patterns hostAlias : Str) : Bool :=
  patternsMatch hostAlias (splitWhitespace patterns) false

/-! ## The pass -/

/-- What a line does to the result, and to whether the settings apply. -/
def setting (env : HomeEnv) (hostAlias : Str) (keyword : Keyword) (value : Str) :
    SshHostConfig × Bool → SshHostConfig × Bool
  | (result, active) =>
      match keyword with
      | .host => (result, hostPatternsMatch value hostAlias)
      | .matchBlock => (result, false)
      | keyword =>
          if active = false then (result, active)
          else
            match keyword with
            | .hostname =>
                if result.hostname = none then
                  ({ result with hostname := some (unquote value) }, active)
                else (result, active)
            | .user =>
                if result.user = none then ({ result with user := some (unquote value) }, active)
                else (result, active)
            | .port =>
                if result.port = none then
                  match parseU16 (unquote value) with
                  | some port => ({ result with port := some port }, active)
                  | none => (result, active)
                else (result, active)
            | .identityFile =>
                ({ result with
                  identityFiles := result.identityFiles ++ [expandTilde env (unquote value)] },
                  active)
            | _ => (result, active)

/-- The body of the loop of `resolve`. -/
def resolveLine (env : HomeEnv) (hostAlias : Str) (state : SshHostConfig × Bool) (raw : Str) :
    SshHostConfig × Bool :=
  let line := trim (stripComment raw)
  if line = [] then state
  else
    match splitKeyword line with
    | none => state
    | some (keyword, value) => setting env hostAlias (Keyword.ofText keyword) value state

/-- `default_config_path`. -/
def defaultConfigPath (env : HomeEnv) : Option Str :=
  (homeDir env).map fun home =>
    pushPath (pushPath home ['.', 's', 's', 'h']) ['c', 'o', 'n', 'f', 'i', 'g']

/-- `resolve`. -/
def resolve (env : HomeEnv) (config hostAlias : Str) : SshHostConfig :=
  ((lines config).foldl (resolveLine env hostAlias) ({}, true)).1

/-! ## What the patterns of a line mean -/

/-- A pattern matches a text: `*` stands for any run of characters, `?` for any character, and
every other character for itself. -/
inductive Glob : Str → Str → Prop
  | nil : Glob [] []
  | star (run : Str) {pattern text : Str} : Glob pattern text → Glob ('*' :: pattern) (run ++ text)
  | question (c : Char) {pattern text : Str} :
      Glob pattern text → Glob ('?' :: pattern) (c :: text)
  | char {c : Char} {pattern text : Str} (hstar : c ≠ '*') (hquestion : c ≠ '?') :
      Glob pattern text → Glob (c :: pattern) (c :: text)

lemma glob_nil {text : Str} : Glob [] text ↔ text = [] := by
  constructor
  · intro h
    cases h
    rfl
  · rintro rfl
    exact .nil

lemma glob_star {pattern text : Str} :
    Glob ('*' :: pattern) text ↔ ∃ run rest, text = run ++ rest ∧ Glob pattern rest := by
  constructor
  · intro h
    cases h with
    | star run h => exact ⟨run, _, rfl, h⟩
    | char hstar _ _ => exact absurd rfl hstar
  · rintro ⟨run, rest, rfl, h⟩
    exact .star run h

lemma glob_cons {c : Char} {pattern text : Str} (hc : c ≠ '*') :
    Glob (c :: pattern) text ↔
      ∃ d rest, text = d :: rest ∧ (c = '?' ∨ d = c) ∧ Glob pattern rest := by
  constructor
  · intro h
    cases h with
    | star run _ => exact absurd rfl hc
    | question d h => exact ⟨d, _, rfl, .inl rfl, h⟩
    | char _ _ h => exact ⟨c, _, rfl, .inr rfl, h⟩
  · rintro ⟨d, rest, rfl, hd, h⟩
    by_cases hquestion : c = '?'
    · rw [hquestion]
      exact .question d h
    · rw [hd.resolve_left hquestion]
      exact .char hc hquestion h

/-- The matcher finds a way to match if there is one. -/
lemma globMatch_iff (pattern text : Str) : globMatch pattern text = true ↔ Glob pattern text := by
  induction pattern, text using globMatch.induct with
  | case1 text => simp [globMatch, glob_nil]
  | case2 pattern text ih ihRest =>
      rw [globMatch.eq_def]
      simp only [if_true, Bool.or_eq_true, ih, glob_star]
      -- the run is empty, or takes the first character
      cases text with
      | nil => simp
      | cons c rest =>
          have ihRest : globMatch ('*' :: pattern) rest = true ↔ Glob ('*' :: pattern) rest :=
            ihRest
          simp only [ihRest, glob_star]
          constructor
          · rintro (h | ⟨run, rest', rfl, h⟩)
            · exact ⟨[], c :: rest, rfl, h⟩
            · exact ⟨c :: run, rest', rfl, h⟩
          · rintro ⟨run, rest', heq, h⟩
            cases run with
            | nil =>
                obtain rfl : c :: rest = rest' := heq
                exact .inl h
            | cons d run => exact .inr ⟨run, rest', (List.cons.inj heq).2, h⟩
  | case3 c pattern hc => simp [globMatch, hc, glob_cons hc]
  | case4 c pattern hc d rest ih =>
      rw [globMatch, if_neg hc, glob_cons hc]
      simp [ih]

/-- What a `Host` line means: a pattern matches, and no negated one does. -/
def HostLineMatches (value hostAlias : Str) : Prop :=
  (∃ pattern ∈ splitWhitespace value, pattern.head? ≠ some '!' ∧ Glob pattern hostAlias) ∧
    ∀ negated, '!' :: negated ∈ splitWhitespace value → ¬ Glob negated hostAlias

lemma patternsMatch_iff (hostAlias : Str) (patterns : List Str) (matched : Bool) :
    patternsMatch hostAlias patterns matched = true ↔
      (matched = true ∨ ∃ pattern ∈ patterns, pattern.head? ≠ some '!' ∧ Glob pattern hostAlias) ∧
        ∀ negated, '!' :: negated ∈ patterns → ¬ Glob negated hostAlias := by
  induction patterns generalizing matched with
  | nil => simp [patternsMatch]
  | cons pattern rest ih =>
      by_cases hnegated : ∃ negated, pattern = '!' :: negated
      · obtain ⟨negated, rfl⟩ := hnegated
        rw [patternsMatch]
        by_cases hglob : Glob negated hostAlias
        · rw [if_pos ((globMatch_iff _ _).mpr hglob)]
          refine iff_of_false (by simp) fun h => ?_
          exact h.2 negated List.mem_cons_self hglob
        · rw [if_neg fun h => hglob ((globMatch_iff _ _).mp h), ih]
          simp only [List.mem_cons, List.cons.injEq, true_and, or_imp, forall_and, forall_eq,
            exists_eq_or_imp, List.head?_cons, ne_eq, not_true, false_and, false_or, hglob,
            not_false_eq_true]
      · have hpositive : pattern.head? ≠ some '!' := by
          intro hhead
          cases pattern with
          | nil => cases hhead
          | cons c negated =>
              obtain rfl := Option.some.inj hhead
              exact hnegated ⟨negated, rfl⟩
        have hother : ∀ negated, '!' :: negated ∈ pattern :: rest ↔ '!' :: negated ∈ rest := by
          intro negated
          rw [List.mem_cons]
          exact or_iff_right fun h => hnegated ⟨negated, h.symm⟩
        rw [patternsMatch.eq_3 _ _ _ _ fun negated h => hnegated ⟨negated, h⟩, ih]
        simp only [hother, List.mem_cons, exists_eq_or_imp, hpositive, ne_eq, not_false_eq_true,
          true_and]
        by_cases hglob : Glob pattern hostAlias
        · simp [(globMatch_iff _ _).mpr hglob, hglob]
        · simp [globMatch_iff, hglob]

lemma hostPatternsMatch_iff (value hostAlias : Str) :
    hostPatternsMatch value hostAlias = true ↔ HostLineMatches value hostAlias := by
  rw [hostPatternsMatch, patternsMatch_iff]
  simp [HostLineMatches]

/-! ## What a config means -/

/-- A line that counts. -/
structure Setting where
  keyword : Keyword
  value : Str

/-- The setting on a line, if the line counts: without its comment and trimmed, it has a keyword
and a separator. -/
def readLine (raw : Str) : Option Setting :=
  (splitKeyword (trim (stripComment raw))).map fun line => ⟨Keyword.ofText line.1, line.2⟩

/-- The lines of a config that count. -/
def settings (config : Str) : List Setting := (lines config).filterMap readLine

/-- A `Host` or `Match` line. -/
def Setting.StartsBlock (s : Setting) : Prop := s.keyword = .host ∨ s.keyword = .matchBlock

/-- Settings apply after these lines: no block has started, or the last one that has started is a
`Host` block whose patterns match. -/
def Active (hostAlias : Str) (before : List Setting) : Prop :=
  (∀ s ∈ before, ¬ s.StartsBlock) ∨
    ∃ outer value inner, before = outer ++ ⟨.host, value⟩ :: inner ∧
      (∀ s ∈ inner, ¬ s.StartsBlock) ∧ HostLineMatches value hostAlias

section Active

variable {hostAlias : Str} {before : List Setting} {s : Setting}

lemma active_nil : Active hostAlias [] := .inl (by simp)

/-- A line that starts no block leaves the settings as active as they were. -/
lemma active_snoc (hs : ¬ s.StartsBlock) :
    Active hostAlias (before ++ [s]) ↔ Active hostAlias before := by
  constructor
  · rintro (hnone | ⟨outer, value, inner, heq, hinner, hmatch⟩)
    · exact .inl fun s' hs' => hnone s' (List.mem_append_left _ hs')
    · rcases List.eq_nil_or_concat' inner with rfl | ⟨inner, s', rfl⟩
      · obtain ⟨-, hlast⟩ := List.append_inj' heq rfl
        exact absurd (.inl (by rw [List.singleton_inj.mp hlast])) hs
      · rw [← List.cons_append, ← List.append_assoc] at heq
        obtain ⟨hbefore, -⟩ := List.append_inj' heq rfl
        exact .inr ⟨outer, value, inner, hbefore,
          fun x hx => hinner x (List.mem_append_left _ hx), hmatch⟩
  · have hsnoc : ∀ {inner : List Setting}, (∀ x ∈ inner, ¬ x.StartsBlock) →
        ∀ x ∈ inner ++ [s], ¬ x.StartsBlock := by
      intro inner hinner x hx
      rcases List.mem_append.mp hx with hx | hx
      · exact hinner x hx
      · rwa [List.mem_singleton.mp hx]
    rintro (hnone | ⟨outer, value, inner, rfl, hinner, hmatch⟩)
    · exact .inl (hsnoc hnone)
    · exact .inr ⟨outer, value, inner ++ [s], by simp, hsnoc hinner, hmatch⟩

/-- After a line that starts a block, it is up to this line. -/
lemma active_snoc_block (hs : s.StartsBlock) :
    Active hostAlias (before ++ [s]) ↔ s.keyword = .host ∧ HostLineMatches s.value hostAlias := by
  constructor
  · rintro (hnone | ⟨outer, value, inner, heq, hinner, hmatch⟩)
    · exact absurd hs (hnone s (by simp))
    · rcases List.eq_nil_or_concat' inner with rfl | ⟨inner, s', rfl⟩
      · obtain ⟨-, hlast⟩ := List.append_inj' heq rfl
        rw [List.singleton_inj.mp hlast]
        exact ⟨rfl, hmatch⟩
      · rw [← List.cons_append, ← List.append_assoc] at heq
        obtain ⟨-, hlast⟩ := List.append_inj' heq rfl
        rw [List.singleton_inj.mp hlast] at hs
        exact absurd hs (hinner s' (by simp))
  · rintro ⟨hkeyword, hmatch⟩
    refine .inr ⟨before, s.value, [], ?_, by simp, hmatch⟩
    rw [← hkeyword]

/-- The flag of the pass. -/
def isActive (hostAlias : Str) (before : List Setting) : Bool :=
  before.foldl (fun active s =>
    match s.keyword with
    | .host => hostPatternsMatch s.value hostAlias
    | .matchBlock => false
    | _ => active) true

lemma isActive_iff (hostAlias : Str) (before : List Setting) :
    isActive hostAlias before = true ↔ Active hostAlias before := by
  induction before using List.reverseRecOn with
  | nil => exact iff_of_true rfl active_nil
  | append_singleton before s ih =>
      rw [isActive, List.foldl_append] at *
      obtain ⟨keyword, value⟩ := s
      by_cases hs : (⟨keyword, value⟩ : Setting).StartsBlock
      · rw [active_snoc_block hs]
        rcases hs with hhost | hmatch
        · obtain rfl : keyword = .host := hhost
          simpa using hostPatternsMatch_iff value hostAlias
        · obtain rfl : keyword = .matchBlock := hmatch
          simp
      · rw [active_snoc hs, ← ih]
        obtain ⟨hhost, hmatch⟩ := not_or.mp hs
        cases keyword <;> first | exact absurd rfl hhost | exact absurd rfl hmatch | rfl

instance decidableActive : Decidable (Active hostAlias before) :=
  decidable_of_iff _ (isActive_iff hostAlias before)

end Active

/-- The values that active lines give to a keyword, in order. -/
def activeValues (hostAlias : Str) (keyword : Keyword) (config : List Setting) : List Str :=
  (config.zipIdx.filter fun line =>
    line.1.keyword = keyword ∧ Active hostAlias (config.take line.2)).map fun line => line.1.value

/-- What a config says about a host: the first name, user and valid port of the active lines, and
all their identity files. -/
def meaning (env : HomeEnv) (hostAlias : Str) (config : List Setting) : SshHostConfig where
  hostname := (activeValues hostAlias .hostname config).head?.map unquote
  user := (activeValues hostAlias .user config).head?.map unquote
  port := (activeValues hostAlias .port config).findSome? fun value => parseU16 (unquote value)
  identityFiles :=
    (activeValues hostAlias .identityFile config).map fun value => expandTilde env (unquote value)

/-! ## The pass finds what the config means -/

section Pass

variable {env : HomeEnv} {hostAlias : Str}

/-- A further line adds its value, if the settings apply. -/
lemma activeValues_snoc (keyword : Keyword) (config : List Setting) (s : Setting) :
    activeValues hostAlias keyword (config ++ [s]) = activeValues hostAlias keyword config ++
      if s.keyword = keyword ∧ isActive hostAlias config then [s.value] else [] := by
  have hbefore : ∀ line ∈ config.zipIdx, (config ++ [s]).take line.2 = config.take line.2 := by
    intro line hline
    have hlt := List.snd_lt_of_mem_zipIdx hline
    exact List.take_append_of_le_length (by omega)
  have hconfig : (config.zipIdx.filter fun line => decide (line.1.keyword = keyword ∧
      Active hostAlias ((config ++ [s]).take line.2))) = config.zipIdx.filter fun line =>
        decide (line.1.keyword = keyword ∧ Active hostAlias (config.take line.2)) :=
    List.filter_congr fun line hline => by rw [hbefore line hline]
  rw [activeValues, List.zipIdx_append, List.filter_append, List.map_append, hconfig, activeValues]
  congr 1
  by_cases hs : s.keyword = keyword ∧ isActive hostAlias config
  · simp [hs, (isActive_iff hostAlias config).mp hs.2]
  · rw [if_neg hs]
    rw [isActive_iff] at hs
    simp [hs]

lemma isActive_snoc (config : List Setting) (s : Setting) :
    isActive hostAlias (config ++ [s]) =
      match s.keyword with
      | .host => hostPatternsMatch s.value hostAlias
      | .matchBlock => false
      | _ => isActive hostAlias config := by
  simp [isActive]

/-- One line: what has been found before becomes what has been found with it. -/
lemma setting_meaning (config : List Setting) (s : Setting) :
    setting env hostAlias s.keyword s.value
        (meaning env hostAlias config, isActive hostAlias config)
      = (meaning env hostAlias (config ++ [s]), isActive hostAlias (config ++ [s])) := by
  obtain ⟨keyword, value⟩ := s
  simp only [meaning, activeValues_snoc, isActive_snoc]
  by_cases hactive : isActive hostAlias config = true
  · cases keyword with
    | host => simp [setting]
    | matchBlock => simp [setting]
    | hostname =>
        cases hvalues : activeValues hostAlias .hostname config <;> simp [setting, hactive]
    | user => cases hvalues : activeValues hostAlias .user config <;> simp [setting, hactive]
    | port =>
        cases hport : (activeValues hostAlias .port config).findSome?
          fun value => parseU16 (unquote value) <;>
          cases hvalue : parseU16 (unquote value) <;>
          simp [setting, hactive, hport, hvalue, List.findSome?_append]
    | identityFile => simp [setting, hactive]
    | other => simp [setting, hactive]
  · have hactive := Bool.eq_false_iff.mpr hactive
    cases keyword <;> simp [setting, hactive]

lemma resolveLine_eq (state : SshHostConfig × Bool) (raw : Str) :
    resolveLine env hostAlias state raw =
      match readLine raw with
      | none => state
      | some s => setting env hostAlias s.keyword s.value state := by
  rw [resolveLine, readLine]
  by_cases hempty : trim (stripComment raw) = []
  · rw [hempty]
    rfl
  · rw [if_neg hempty]
    cases splitKeyword (trim (stripComment raw)) <;> rfl

/-- Only the lines that count do anything. -/
lemma resolve_settings (config : Str) :
    resolve env config hostAlias = ((settings config).foldl
      (fun state s => setting env hostAlias s.keyword s.value state) ({}, true)).1 := by
  rw [resolve, settings, List.foldl_filterMap]
  congr 2
  funext state raw
  rw [resolveLine_eq]
  cases readLine raw <;> rfl

/-- The whole pass. -/
lemma foldl_setting (config : List Setting) :
    config.foldl (fun state s => setting env hostAlias s.keyword s.value state) ({}, true) =
      (meaning env hostAlias config, isActive hostAlias config) := by
  induction config using List.reverseRecOn with
  | nil => rfl
  | append_singleton config s ih => rw [List.foldl_append, ih, List.foldl_cons, List.foldl_nil,
      setting_meaning]

/-! ## Further lines -/

/-- What has been set stays, and identity files are only added at the end. -/
structure SshHostConfig.ExtendedBy (result result' : SshHostConfig) : Prop where
  hostname : ∀ name, result.hostname = some name → result'.hostname = some name
  user : ∀ name, result.user = some name → result'.user = some name
  port : ∀ port, result.port = some port → result'.port = some port
  identityFiles : result.identityFiles <+: result'.identityFiles

lemma SshHostConfig.ExtendedBy.refl (result : SshHostConfig) : result.ExtendedBy result :=
  ⟨fun _ h => h, fun _ h => h, fun _ h => h, List.prefix_rfl⟩

lemma SshHostConfig.ExtendedBy.trans {result result' result'' : SshHostConfig}
    (h : result.ExtendedBy result') (h' : result'.ExtendedBy result'') :
    result.ExtendedBy result'' :=
  ⟨fun name hname => h'.hostname name (h.hostname name hname),
    fun name hname => h'.user name (h.user name hname),
    fun port hport => h'.port port (h.port port hport),
    h.identityFiles.trans h'.identityFiles⟩

lemma setting_extends (keyword : Keyword) (value : Str) (state : SshHostConfig × Bool) :
    state.1.ExtendedBy (setting env hostAlias keyword value state).1 := by
  obtain ⟨result, active⟩ := state
  have hrefl := SshHostConfig.ExtendedBy.refl result
  cases active with
  | false => cases keyword <;> exact hrefl
  | true =>
      cases keyword with
      | host => exact hrefl
      | matchBlock => exact hrefl
      | other => exact hrefl
      | hostname =>
          by_cases hnone : result.hostname = none
          · simp only [setting, hnone, if_true]
            exact { hrefl with hostname := fun name h => by rw [hnone] at h; cases h }
          · simpa [setting, hnone] using hrefl
      | user =>
          by_cases hnone : result.user = none
          · simp only [setting, hnone, if_true]
            exact { hrefl with user := fun name h => by rw [hnone] at h; cases h }
          · simpa [setting, hnone] using hrefl
      | port =>
          by_cases hnone : result.port = none
          · cases hport : parseU16 (unquote value) with
            | none => simpa [setting, hnone, hport] using hrefl
            | some port =>
                simp only [setting, hnone, if_true, hport]
                exact { hrefl with port := fun name h => by rw [hnone] at h; cases h }
          · simpa [setting, hnone] using hrefl
      | identityFile => exact { hrefl with identityFiles := List.prefix_append _ _ }

lemma resolveLine_extends (state : SshHostConfig × Bool) (raw : Str) :
    state.1.ExtendedBy (resolveLine env hostAlias state raw).1 := by
  rw [resolveLine_eq]
  cases readLine raw with
  | none => exact .refl _
  | some s => exact setting_extends s.keyword s.value state

lemma foldl_extends (more : List Str) (state : SshHostConfig × Bool) :
    state.1.ExtendedBy (more.foldl (resolveLine env hostAlias) state).1 := by
  induction more generalizing state with
  | nil => exact .refl _
  | cons raw more ih => exact (resolveLine_extends state raw).trans (ih _)

lemma stripComment_of_not_mem {line : Str} (h : '#' ∉ line) : stripComment line = line := by
  have hself : line.takeWhile (· ≠ '#') = line := by
    refine List.takeWhile_eq_self_iff.mpr fun c hc => ?_
    have hne : c ≠ '#' := fun hmark => h (hmark ▸ hc)
    simpa using hne
  simp only [stripComment, hself, if_true]

/-- A `#` with this before it begins a comment. -/
def opensComment (before : Str) : Bool := before.getLast?.all isAsciiWhitespace

lemma opensComment_concat (before : Str) (c : Char) :
    opensComment (before ++ [c]) = isAsciiWhitespace c := by
  rw [opensComment, List.getLast?_concat]
  rfl

/-- It is up to the first `#` whether there is a comment. -/
lemma stripComment_mark {before : Str} (h : '#' ∉ before) (rest : Str) :
    stripComment (before ++ '#' :: rest) =
      if opensComment before then before else before ++ '#' :: rest := by
  have htake : (before ++ '#' :: rest).takeWhile (· ≠ '#') = before := by
    rw [List.takeWhile_append_of_pos]
    · simp
    · intro c hc
      have hne : c ≠ '#' := fun hmark => h (hmark ▸ hc)
      simpa using hne
  have hlength : before.length ≠ (before ++ '#' :: rest).length := by simp
  simp only [stripComment, htake, if_neg hlength]
  rcases List.eq_nil_or_concat' before with rfl | ⟨before, c, rfl⟩
  · rfl
  · rw [opensComment_concat, List.getLast?_concat]

/-- A carriage return at the end of a line means nothing. -/
lemma trim_stripComment_concat (line : Str) :
    trim (stripComment (line ++ ['\r'])) = trim (stripComment line) := by
  have htrim : trim (line ++ ['\r']) = trim line := trim_concat line (by decide)
  by_cases hmark : '#' ∈ line
  · obtain ⟨before, rest, rfl, hbefore⟩ := List.eq_append_cons_of_mem hmark
    rw [stripComment_mark hbefore, List.append_assoc, List.cons_append, stripComment_mark hbefore]
    by_cases hopens : opensComment before = true
    · rw [if_pos hopens, if_pos hopens]
    · rw [if_neg hopens, if_neg hopens, ← htrim]
      simp
  · rw [stripComment_of_not_mem hmark, stripComment_of_not_mem (by simpa using hmark), htrim]

lemma readLine_dropReturn (raw : Str) : readLine (dropReturn raw) = readLine raw := by
  rw [dropReturn]
  by_cases hreturn : raw.getLast? = some '\r'
  · obtain ⟨line, rfl⟩ := List.getLast?_eq_some_iff.mp hreturn
    rw [if_pos hreturn, List.dropLast_concat, readLine, readLine, trim_stripComment_concat]
  · rw [if_neg hreturn]

lemma resolveLine_dropReturn (state : SshHostConfig × Bool) (raw : Str) :
    resolveLine env hostAlias state (dropReturn raw) = resolveLine env hostAlias state raw := by
  rw [resolveLine_eq, resolveLine_eq, readLine_dropReturn]

/-- A line feed at the end changes nothing. -/
lemma resolve_newline (env : HomeEnv) (config hostAlias : Str) :
    resolve env (config ++ ['\n']) hostAlias = resolve env config hostAlias := by
  obtain ⟨before, last, hlines, hcomplete⟩ := lines_newline config
  rw [resolve, resolve, hlines, hcomplete, List.foldl_append, List.foldl_append]
  by_cases hempty : last = []
  · rw [hempty]
    rfl
  · rw [List.filter_cons_of_pos (by simpa using hempty)]
    simp [resolveLine_dropReturn]

lemma resolve_meaning (env : HomeEnv) (config hostAlias : Str) :
    resolve env config hostAlias = meaning env hostAlias (settings config) := by
  rw [resolve_settings, foldl_setting]

/-- **The resolution of a config is its meaning.**  For every config and alias, the result has the
first name, the first user and the first valid port of the active lines, and all their identity
files in order.  Whether the last line ends with a line feed makes no difference, and lines that
are appended change no value that is set and only add identity files. -/
theorem resolve_eq (env : HomeEnv) (config hostAlias : Str) :
    resolve env config hostAlias = meaning env hostAlias (settings config) ∧
    resolve env (config ++ ['\n']) hostAlias = resolve env config hostAlias ∧
    ∀ more, (resolve env config hostAlias).ExtendedBy
      (resolve env (config ++ '\n' :: more) hostAlias) := by
  refine ⟨resolve_meaning env config hostAlias, resolve_newline env config hostAlias,
    fun more => ?_⟩
  rw [← resolve_newline env config, resolve, resolve, lines_append config more, List.foldl_append]
  exact foldl_extends (lines more) _

end Pass

end SshConfig

end CacheShfs
