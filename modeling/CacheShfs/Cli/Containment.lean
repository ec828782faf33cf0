import CacheShfs.Cli.Config

/-!
# The cache directory lies outside the mount

The check of `Cli::to_mount_config` against a cache directory below the mountpoint, compared with
containment of the paths that are meant: made absolute against the current directory, and with
`..` taken back (`lexical`).

`normalize` is a lexical comparison of the paths as they are written.  It keeps `..` as if it were
a name, and knows no current directory.  So the check is exact for two absolute or two relative
paths up to `..`, and exact altogether where they have no `..`.
-/

namespace CacheShfs

namespace Cli

/-- The message of the check. -/
def containmentError (cacheDir mountpoint : Str) : String :=
  "cache directory " ++ quoted cacheDir ++ " must not be inside the mountpoint " ++
    quoted mountpoint

/-- The cache directory of the command line or the environment. -/
def cacheDirectory (cli : Cli) (env : Env) : Str := cli.cacheDir.getD (defaultCacheDir env)

/-- The configuration is rejected for containment. -/
def RejectsContainment (cli : Cli) (env : Env) : Prop :=
  cli.toMountConfig env = .error (containmentError (cli.cacheDirectory env) cli.mountpoint)

/-! ## The paths that are meant -/

/-- The stack of components without its top; the root stays. -/
def parent (stack : List Str) : List Str := if stack = [['/']] then stack else stack.dropLast

/-- One more component: `..` takes the last one back. -/
def pushComponent (stack : List Str) (component : Str) : List Str :=
  if component = ['.', '.'] then parent stack else stack ++ [component]

/-- The components of a path after `.` and `..` have been resolved. -/
def lexical (path : Str) : List Str := (normalize path).foldl pushComponent []

/-- The path has no `..` component. -/
def NoParents (path : Str) : Prop := ['.', '.'] ∉ path.splitOn '/'

/-- Both paths are absolute, or both are relative. -/
def SameKind (a b : Str) : Prop := a.head? = some '/' ↔ b.head? = some '/'

instance decidableNoParents (path : Str) : Decidable (NoParents path) :=
  inferInstanceAs (Decidable (¬ _))

instance decidableSameKind (a b : Str) : Decidable (SameKind a b) :=
  inferInstanceAs (Decidable (_ ↔ _))

lemma foldl_pushComponent {components : List Str} (h : ['.', '.'] ∉ components)
    (stack : List Str) : components.foldl pushComponent stack = stack ++ components := by
  induction components generalizing stack with
  | nil => simp
  | cons c components ih =>
      have hc : c ≠ ['.', '.'] := fun heq => h (heq ▸ List.mem_cons_self)
      rw [List.foldl_cons, pushComponent, if_neg hc, ih (List.not_mem_of_not_mem_cons h)]
      simp

lemma NoParents.normalize {path : Str} (h : NoParents path) : ['.', '.'] ∉ normalize path := by
  intro hmem
  rcases List.mem_append.mp hmem with hroot | hcomponent
  · split at hroot
    · simp at hroot
    · cases hroot
  · exact h (List.mem_of_mem_filter hcomponent)

/-! ## The current directory -/

lemma normalize_of_relative {path : Str} (h : path.head? ≠ some '/') :
    normalize path =
      (path.splitOn '/').filter fun component => component ≠ [] ∧ component ≠ ['.'] := by
  rw [normalize, if_neg h, List.nil_append]

lemma normalize_slash (base rest : Str) :
    normalize (base ++ '/' :: rest) = normalize (base ++ ['/']) ++
      (rest.splitOn '/').filter fun component => component ≠ [] ∧ component ≠ ['.'] := by
  have hhead : (base ++ '/' :: rest).head? = (base ++ ['/']).head? := by cases base <;> rfl
  rw [normalize, normalize, hhead, List.splitOn_append_cons_self, List.splitOn_append_cons_self,
    List.filter_append, List.filter_append, List.append_assoc, List.append_assoc]
  rfl

/-- A separator at the end means nothing. -/
lemma normalize_trailing {base : Str} (h : base ≠ []) :
    normalize (base ++ ['/']) = normalize base := by
  rw [normalize, normalize, List.splitOn_append_cons_self, List.filter_append,
    List.head?_append_of_ne_nil _ h]
  simp

/-- A relative path continues the current directory. -/
lemma normalize_pushPath {path : Str} (h : path.head? ≠ some '/') (cwd : Str) :
    normalize (pushPath cwd path) = normalize cwd ++ normalize path := by
  rw [pushPath, if_neg h, normalize_of_relative h]
  by_cases hempty : cwd = []
  · subst hempty
    rw [joinPath, if_pos (.inl rfl), List.nil_append, normalize_of_relative h]
    rfl
  · by_cases hslash : cwd.getLast? = some '/'
    · obtain ⟨base, rfl⟩ := List.getLast?_eq_some_iff.mp hslash
      rw [joinPath, if_pos (.inr hslash), List.append_assoc, List.singleton_append,
        normalize_slash]
    · rw [joinPath, if_neg (not_or.mpr ⟨hempty, hslash⟩), normalize_slash,
        normalize_trailing hempty]

/-- A path without `..` is its components. -/
lemma lexical_of_noParents {path : Str} (h : NoParents path) : lexical path = normalize path := by
  rw [lexical, foldl_pushComponent h.normalize, List.nil_append]

/-- Without `..`, a relative path continues what the current directory resolves to. -/
lemma lexical_pushPath {path : Str} (h : path.head? ≠ some '/') (hparents : NoParents path)
    (cwd : Str) : lexical (pushPath cwd path) = lexical cwd ++ normalize path := by
  rw [lexical, normalize_pushPath h, List.foldl_append, foldl_pushComponent hparents.normalize]
  rfl

/-! ## The check -/

/-- What a text begins with. -/
lemma head_append (text : String) (rest : String) {c : Char} (h : text.toList.head? = some c) :
    (text ++ rest).toList.head? = some c := by
  rw [String.toList_append]
  cases hlist : text.toList with
  | nil => simp [hlist] at h
  | cons d chars =>
      rw [hlist] at h
      exact h

lemma head_containmentError (cacheDir mountpoint : Str) :
    (containmentError cacheDir mountpoint).toList.head? = some 'c' :=
  head_append _ _ (head_append _ _ (head_append _ _ rfl))

lemma parseByteSize_error {text : Str} {e : String} (h : parseByteSize text = .error e) :
    e.toList.head? = some 'b' ∨ e.toList.head? = some 'i' := by
  unfold parseByteSize at h
  simp only at h
  split at h
  · rw [← Except.error.inj h]
    exact .inl rfl
  · split at h
    · rw [← Except.error.inj h]
      exact .inr (head_append _ _ rfl)
    · split at h
      · rw [← Except.error.inj h]
        exact .inr (head_append _ _ rfl)
      · split at h
        · rw [← Except.error.inj h]
          exact .inl rfl
        · split at h
          · rw [← Except.error.inj h]
            exact .inr (head_append _ _ rfl)
          · split at h
            · cases h
            · rw [← Except.error.inj h]
              exact .inl (head_append _ _ (head_append _ _ rfl))

/-- The check rejects what it finds inside, and no other error has its message. -/
lemma rejects_iff {cli : Cli} (env : Env) {remote : RemoteConfig}
    (hremote : parseRemote cli.remote = .ok remote) :
    cli.RejectsContainment env ↔
      normalize cli.mountpoint <+: normalize (cli.cacheDirectory env) := by
  rw [← List.isPrefixOf_iff_prefix]
  change _ ↔ isInside (cli.cacheDirectory env) cli.mountpoint = true
  unfold RejectsContainment toMountConfig
  simp only [hremote]
  by_cases hinside : isInside (cli.cacheDirectory env) cli.mountpoint = true
  · refine iff_of_true ?_ hinside
    rw [cacheDirectory] at hinside
    rw [if_pos hinside]
    rfl
  · refine iff_of_false (fun h => ?_) hinside
    rw [cacheDirectory] at hinside
    rw [if_neg hinside] at h
    -- what fails after the check is the chunk size
    have hhead := head_containmentError (cli.cacheDirectory env) cli.mountpoint
    cases hsize : cli.cacheChunkSize with
    | none => simp [hsize] at h
    | some text =>
        cases hparse : parseByteSize text with
        | ok size => simp [hsize, hparse] at h
        | error e =>
            simp only [hsize, hparse, Except.error.injEq] at h
            rw [← h] at hhead
            rcases parseByteSize_error hparse with hb | hi
            · rw [hb] at hhead
              cases hhead
            · rw [hi] at hhead
              cases hhead

/-- **The check compares paths of one kind exactly, up to `..`.**  For every current directory,
mountpoint and cache directory that are both absolute or both relative, a configuration with a
valid remote is rejected for containment if and only if the cache directory is the mountpoint or
lies below it, after both have been made absolute and normalized with `..` as a name.  If they
have no `..`, this is containment with `..` resolved. -/
theorem containment_iff {cli : Cli} (env : Env) {remote : RemoteConfig}
    (hremote : parseRemote cli.remote = .ok remote)
    (hkind : SameKind cli.mountpoint (cli.cacheDirectory env)) (cwd : Str) :
    (cli.RejectsContainment env ↔ normalize (pushPath cwd cli.mountpoint) <+:
      normalize (pushPath cwd (cli.cacheDirectory env))) ∧
    (NoParents cli.mountpoint ∧ NoParents (cli.cacheDirectory env) →
      (cli.RejectsContainment env ↔ lexical (pushPath cwd cli.mountpoint) <+:
        lexical (pushPath cwd (cli.cacheDirectory env)))) := by
  rw [rejects_iff env hremote]
  by_cases hmount : cli.mountpoint.head? = some '/'
  · have hcache := hkind.mp hmount
    rw [pushPath, pushPath, if_pos hmount, if_pos hcache]
    refine ⟨Iff.rfl, fun ⟨hm, hc⟩ => ?_⟩
    rw [lexical_of_noParents hm, lexical_of_noParents hc]
  · have hcache := fun h => hmount (hkind.mpr h)
    refine ⟨?_, fun ⟨hm, hc⟩ => ?_⟩
    · rw [normalize_pushPath hmount, normalize_pushPath hcache, List.prefix_append_right_inj]
    · rw [lexical_pushPath hmount hm, lexical_pushPath hcache hc, List.prefix_append_right_inj]

/-- A mount of `h:/` on `/m`, with a cache directory. -/
def mountM (cacheDir : Str) : Cli where
  remote := ['h', ':', '/']
  mountpoint := ['/', 'm']
  cacheDir := some cacheDir

/-- No variables. -/
def noEnv : Env := ⟨none, none, none⟩

theorem containment_iff_mountM :
    ((mountM ['/', 'm', '/', 'c']).RejectsContainment noEnv ↔
      normalize (pushPath ['/', 'w'] ['/', 'm']) <+:
        normalize (pushPath ['/', 'w'] ['/', 'm', '/', 'c'])) ∧
    (NoParents ['/', 'm'] ∧ NoParents ['/', 'm', '/', 'c'] →
      ((mountM ['/', 'm', '/', 'c']).RejectsContainment noEnv ↔
        lexical (pushPath ['/', 'w'] ['/', 'm']) <+:
          lexical (pushPath ['/', 'w'] ['/', 'm', '/', 'c']))) :=
  containment_iff noEnv rfl (by decide) ['/', 'w']

/-- The cache directory `/w/../m/c` lies below `/m` when `..` is resolved, and is accepted. -/
theorem parent_accepted :
    lexical (pushPath ['/'] ['/', 'm']) <+:
      lexical (pushPath ['/'] ['/', 'w', '/', '.', '.', '/', 'm', '/', 'c']) ∧
    ¬ (mountM ['/', 'w', '/', '.', '.', '/', 'm', '/', 'c']).RejectsContainment noEnv := by
  have hremote : ∀ cacheDir, parseRemote (mountM cacheDir).remote = .ok ⟨['h'], ['/']⟩ :=
    fun _ => rfl
  refine ⟨by decide, fun h => ?_⟩
  exact absurd ((rejects_iff noEnv (hremote _)).mp h) (by decide)

end Cli

end CacheShfs
