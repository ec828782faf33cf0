import CacheShfs.Core.Types
import Mathlib.Data.List.DropRight

/-!
# Remote paths

`RemotePath` of `crates/cacheshfs-core/src/lib.rs`: a string that is absolute and has no `..`
component.  The check of `RemotePath::new` is the structure's own field, so a path that fails
it cannot be built.

The cache keys its index by the path's string, and a directory's children by `join`.  The two
facts the rest of the development needs about strings are here: `join` is total on valid
components (`join_eq_ok`), and the key of a child determines its directory and its name
(`childKey_inj`).  `Below` is the prefix test by which the index finds the descendants of a
renamed directory.
-/

namespace CacheShfs

/-- What `RemotePath::new` checks: non-empty, absolute, no `..` component. -/
def ValidPath (path : Str) : Prop :=
  path ≠ [] ∧ path.head? = some '/' ∧ ['.', '.'] ∉ path.splitOn '/'

instance (path : Str) : Decidable (ValidPath path) :=
  inferInstanceAs (Decidable (_ ∧ _ ∧ _))

/-- `struct RemotePath(String)`. -/
structure RemotePath where
  asStr : Str
  valid : ValidPath asStr
  deriving DecidableEq

@[ext] lemma RemotePath.ext {p q : RemotePath} (h : p.asStr = q.asStr) : p = q := by
  cases p
  cases q
  simp_all

/-- `RemotePath::root`. -/
def RemotePath.root : RemotePath := ⟨['/'], by decide⟩

/-- `RemotePath::new`. -/
def RemotePath.new (path : Str) : Except Error RemotePath :=
  if h : ValidPath path then .ok ⟨path, h⟩
  else .error (.invalidInput "remote paths must be absolute and must not contain '..'")

/-- The single path components `RemotePath::join` accepts. -/
def ValidComponent (name : Str) : Prop :=
  name ≠ [] ∧ name ≠ ['.'] ∧ name ≠ ['.', '.'] ∧ '/' ∉ name ∧ '\\' ∉ name

instance (name : Str) : Decidable (ValidComponent name) :=
  inferInstanceAs (Decidable (_ ∧ _ ∧ _ ∧ _ ∧ _))

/-- `trim_end_matches('/')`. -/
def trimEndSlashes (path : Str) : Str := path.rdropWhile (· = '/')

/-- The string of the child `name` of the directory at `path`. -/
def childKey (path name : Str) : Str := trimEndSlashes path ++ '/' :: name

/-- `RemotePath::join`. -/
def RemotePath.join (path : RemotePath) (name : Str) : Except Error RemotePath :=
  if ValidComponent name then RemotePath.new (childKey path.asStr name)
  else .error (.invalidInput ("'" ++ String.ofList name ++ "' is not a valid path component"))

/-- `key.starts_with(&format!("{path}/"))`: the key lies strictly below `path`. -/
def Below (path key : Str) : Prop := path ++ ['/'] <+: key

instance (path key : Str) : Decidable (Below path key) :=
  inferInstanceAs (Decidable (_ <+: _))

/-! ## Trailing slashes -/

lemma trimEndSlashes_append (path : Str) :
    ∃ slashes : Str, (∀ c ∈ slashes, c = '/') ∧ trimEndSlashes path ++ slashes = path := by
  refine ⟨path.rtakeWhile (· = '/'), fun c hc => ?_, ?_⟩
  · simpa using List.mem_rtakeWhile_imp hc
  · rw [trimEndSlashes, List.rdropWhile, List.rtakeWhile, ← List.reverse_append,
      List.takeWhile_append_dropWhile, List.reverse_reverse]

/-- A key built by `childKey` has no trailing slash to trim. -/
lemma trimEndSlashes_childKey {path name : Str} (h : ValidComponent name) :
    trimEndSlashes (childKey path name) = childKey path name := by
  rw [trimEndSlashes, List.rdropWhile_eq_self_iff]
  intro hne
  have hname : name ≠ [] := h.1
  have hlast : (childKey path name).getLast hne = name.getLast hname := by
    simp only [childKey]
    rw [List.getLast_append_of_ne_nil _ (List.cons_ne_nil _ _), List.getLast_cons hname]
  rw [hlast]
  simp only [decide_eq_true_eq]
  intro hslash
  exact h.2.2.2.1 (hslash ▸ List.getLast_mem hname)

/-! ## Joining -/

/-- The child of a valid path under a valid component is a valid path. -/
lemma validPath_childKey {path name : Str} (hp : ValidPath path) (hn : ValidComponent name) :
    ValidPath (childKey path name) := by
  obtain ⟨slashes, hslashes, happ⟩ := trimEndSlashes_append path
  refine ⟨by simp [childKey], ?_, ?_⟩
  · -- the first character is the slash of the parent, or the one `join` puts in
    cases htrim : trimEndSlashes path with
    | nil => simp [childKey, htrim]
    | cons c rest =>
        have hhead := hp.2.1
        rw [← happ, htrim] at hhead
        simpa [childKey, htrim] using hhead
  · rw [childKey, List.splitOn_append_cons_self, List.splitOn_eq_singleton hn.2.2.2.1,
      List.mem_append, List.mem_singleton]
    rintro (hmem | heq)
    · apply hp.2.2
      cases hsl : slashes with
      | nil => rwa [← happ, hsl, List.append_nil]
      | cons c rest =>
          have hc : c = '/' := hslashes c (by simp [hsl])
          rw [← happ, hsl, hc, List.splitOn_append_cons_self]
          exact List.mem_append_left _ hmem
    · exact hn.2.2.1 heq.symm

/-- The child path under a valid component. -/
def RemotePath.child (path : RemotePath) (name : Str) (h : ValidComponent name) : RemotePath :=
  ⟨childKey path.asStr name, validPath_childKey path.valid h⟩

/-- `join` succeeds on every valid component. -/
lemma RemotePath.join_eq_ok (path : RemotePath) {name : Str} (h : ValidComponent name) :
    path.join name = .ok (path.child name h) := by
  rw [RemotePath.join, if_pos h, RemotePath.new, dif_pos (validPath_childKey path.valid h)]
  rfl

/-- `join` succeeds on nothing else, and its result has the child's key. -/
lemma RemotePath.join_ok_iff {path child : RemotePath} {name : Str} :
    path.join name = .ok child ↔ ValidComponent name ∧ child.asStr = childKey path.asStr name := by
  by_cases h : ValidComponent name
  · rw [path.join_eq_ok h]
    simp only [Except.ok.injEq, h, true_and]
    constructor
    · rintro rfl
      rfl
    · intro hkey
      exact RemotePath.ext hkey.symm
  · simp [RemotePath.join, h]

/-- A failed `join` is an invalid component, and says so. -/
lemma RemotePath.join_error_iff {path : RemotePath} {name : Str} {e : Error} :
    path.join name = .error e ↔ ¬ ValidComponent name ∧
      e = .invalidInput ("'" ++ String.ofList name ++ "' is not a valid path component") := by
  by_cases h : ValidComponent name
  · simp [path.join_eq_ok h, h]
  · simp [RemotePath.join, h, eq_comm]

/-! ## Keys of children -/

/-- The last slash of a string is determined by the string. -/
lemma append_slash_inj {xs ys a b : Str} (ha : '/' ∉ a) (hb : '/' ∉ b)
    (h : xs ++ '/' :: a = ys ++ '/' :: b) : xs = ys ∧ a = b := by
  have hrev := congrArg (List.splitOn '/') h
  rw [List.splitOn_append_cons_self, List.splitOn_append_cons_self,
    List.splitOn_eq_singleton ha, List.splitOn_eq_singleton hb] at hrev
  have hab : a = b := by
    have hlast := List.append_inj_right' hrev rfl
    simpa using hlast
  subst hab
  exact ⟨List.append_cancel_right h, rfl⟩

/-- The key of a child determines its directory (up to trailing slashes) and its name. -/
lemma childKey_inj {p q a b : Str} (ha : ValidComponent a) (hb : ValidComponent b)
    (h : childKey p a = childKey q b) : trimEndSlashes p = trimEndSlashes q ∧ a = b :=
  append_slash_inj ha.2.2.2.1 hb.2.2.2.1 h

lemma childKey_right_inj {p a b : Str} (h : childKey p a = childKey p b) : a = b := by
  simpa [childKey] using h

/-- A child is never its own directory. -/
lemma childKey_ne (p name : Str) (h : ValidComponent name) : childKey p name ≠ p := by
  intro heq
  have htrim : trimEndSlashes p = p := by
    rw [← heq, trimEndSlashes_childKey h]
  rw [childKey, htrim] at heq
  have hlen := congrArg List.length heq
  simp at hlen

/-- A child of a path without trailing slash lies below it. -/
lemma below_childKey {p : Str} (hp : trimEndSlashes p = p) (name : Str) :
    Below p (childKey p name) := by
  rw [Below, childKey, hp]
  exact ⟨name, by simp⟩

lemma not_below_self (p : Str) : ¬ Below p p := by
  intro h
  have hlen := h.length_le
  rw [List.length_append, List.length_singleton] at hlen
  omega

/-- What lies below `p` with a child of `q` in it lies at or above `q`. -/
lemma below_childKey_cases {p q name : Str} (hname : '/' ∉ name) (h : Below p (childKey q name)) :
    p = trimEndSlashes q ∨ Below p (trimEndSlashes q) := by
  obtain ⟨rest, hrest⟩ := h
  rw [childKey, List.append_assoc, List.append_eq_append_iff] at hrest
  rcases hrest with ⟨mid, hp, hmid⟩ | ⟨mid, hq, hmid⟩
  · cases mid with
    | nil => exact .inl (by simpa using hp.symm)
    | cons c cs =>
        simp only [List.cons_append, List.cons.injEq] at hmid
        refine .inr ⟨cs, ?_⟩
        rw [hp, ← hmid.1]
        simp
  · cases mid with
    | nil => exact .inl (by simpa using hq)
    | cons c cs =>
        -- the slash after `p` would be one of the name
        simp only [List.cons_append, List.cons.injEq] at hmid
        exact absurd (by rw [hmid.2]; simp) hname

lemma Below.of_trimEndSlashes {p q : Str} (h : Below p (trimEndSlashes q)) : Below p q := by
  obtain ⟨slashes, -, happ⟩ := trimEndSlashes_append q
  rw [← happ]
  exact h.trans (List.prefix_append _ _)

/-! ## The paths of a mount -/

/-- The paths that a mount of `root` can have nodes for: the root as it was configured, and
paths below it without trailing slash. -/
def UnderRoot (root key : Str) : Prop :=
  key = root ∨ (trimEndSlashes key = key ∧ Below (trimEndSlashes root) key)

namespace UnderRoot

variable {root p q : Str}

lemma below_childKey (h : UnderRoot root p) (name : Str) :
    Below (trimEndSlashes root) (CacheShfs.childKey p name) := by
  rcases h with rfl | ⟨htrim, hbelow⟩
  · exact ⟨name, by simp [CacheShfs.childKey]⟩
  · rw [CacheShfs.childKey, htrim]
    exact hbelow.trans (List.prefix_append _ _)

lemma childKey (h : UnderRoot root p) {name : Str} (hname : ValidComponent name) :
    UnderRoot root (CacheShfs.childKey p name) :=
  .inr ⟨trimEndSlashes_childKey hname, h.below_childKey name⟩

/-- No child is the root, however the root is written. -/
lemma childKey_ne_root (h : UnderRoot root p) {name : Str} (hname : ValidComponent name) :
    CacheShfs.childKey p name ≠ root := by
  rintro rfl
  have hbelow := h.below_childKey name
  rw [trimEndSlashes_childKey hname] at hbelow
  exact not_below_self _ hbelow

/-- Two of these paths differ in more than trailing slashes. -/
lemma eq_of_trim_eq (hp : UnderRoot root p) (hq : UnderRoot root q)
    (h : trimEndSlashes p = trimEndSlashes q) : p = q := by
  rcases hp with rfl | ⟨htp, hbp⟩
  · rcases hq with rfl | ⟨htq, hbq⟩
    · rfl
    · rw [htq] at h
      exact absurd (h ▸ hbq) (not_below_self _)
  · rcases hq with rfl | ⟨htq, hbq⟩
    · rw [htp] at h
      exact absurd (h ▸ hbp) (not_below_self _)
    · rw [htp, htq] at h
      exact h

/-- A path of a mount is a child of one of them only. -/
lemma eq_of_childKey_eq (hp : UnderRoot root p) (hq : UnderRoot root q) {a b : Str}
    (ha : ValidComponent a) (hb : ValidComponent b)
    (h : CacheShfs.childKey p a = CacheShfs.childKey q b) : p = q :=
  hp.eq_of_trim_eq hq (childKey_inj ha hb h).1

end UnderRoot

/-- The paths that a mount of `root` reaches: the root, and what is joined to one of them.  The
paths under the root have these among them, and strings with empty or dot components besides. -/
inductive Descends (root : Str) : Str → Prop
  | root : Descends root root
  | child {p name : Str} (h : Descends root p) (hname : ValidComponent name) :
      Descends root (childKey p name)

namespace Descends

variable {root : Str}

lemma underRoot {key : Str} (h : Descends root key) : UnderRoot root key := by
  induction h with
  | root => exact .inl rfl
  | child _ hname ih => exact ih.childKey hname

lemma join {path child : RemotePath} {name : Str} (h : Descends root path.asStr)
    (hjoin : path.join name = .ok child) : Descends root child.asStr := by
  obtain ⟨hname, hkey⟩ := RemotePath.join_ok_iff.mp hjoin
  rw [hkey]
  exact h.child hname

lemma join_ne_root {path child : RemotePath} {name : Str} (h : Descends root path.asStr)
    (hjoin : path.join name = .ok child) : child.asStr ≠ root := by
  obtain ⟨hname, hkey⟩ := RemotePath.join_ok_iff.mp hjoin
  rw [hkey]
  exact h.underRoot.childKey_ne_root hname

/-- The root does not lie below what is joined to one of its paths. -/
lemma not_below_root {path child : RemotePath} {name : Str} (h : Descends root path.asStr)
    (hjoin : path.join name = .ok child) : ¬ Below child.asStr root := by
  obtain ⟨hname, hkey⟩ := RemotePath.join_ok_iff.mp hjoin
  intro hbelow
  obtain ⟨rest, hrest⟩ := h.underRoot.below_childKey name
  obtain ⟨slashes, hslashes, happ⟩ := trimEndSlashes_append root
  -- the child would be the trimmed root and slashes only, but it has none at its end
  rw [Below, hkey, ← hrest] at hbelow
  nth_rewrite 2 [← happ] at hbelow
  rw [List.append_assoc, List.append_assoc, List.prefix_append_right_inj] at hbelow
  have hslash : ∀ c ∈ ['/'] ++ rest, c = '/' := fun c hc =>
    hslashes c (hbelow.subset (by
      rw [← List.append_assoc]
      exact List.mem_append_left _ hc))
  have hlast : ∀ (key : Str) (hne : key ≠ []), trimEndSlashes root ++ ['/'] ++ rest = key →
      key.getLast hne = '/' := by
    rintro _ hne rfl
    simp only [List.append_assoc]
    rw [List.getLast_append_of_ne_nil _ (by simp)]
    exact hslash _ (List.getLast_mem _)
  have htrim : trimEndSlashes (childKey path.asStr name) = childKey path.asStr name :=
    trimEndSlashes_childKey hname
  rw [trimEndSlashes, List.rdropWhile_eq_self_iff] at htrim
  have hne : childKey path.asStr name ≠ [] := by simp [childKey]
  exact htrim hne (by simpa using hlast _ hne hrest)

end Descends

/-! ## Roots that lie apart -/

/-- The keys at a root and below it, however the root is written. -/
def AtOrBelow (root key : Str) : Prop :=
  key = trimEndSlashes root ∨ Below (trimEndSlashes root) key

instance (root key : Str) : Decidable (AtOrBelow root key) :=
  inferInstanceAs (Decidable (_ ∨ _))

/-- Neither root lies at the other one or below it. -/
def Apart (root root' : Str) : Prop :=
  ¬ AtOrBelow root (trimEndSlashes root') ∧ ¬ AtOrBelow root' (trimEndSlashes root)

instance (root root' : Str) : Decidable (Apart root root') :=
  inferInstanceAs (Decidable (_ ∧ _))

lemma UnderRoot.atOrBelow {root key : Str} (h : UnderRoot root key) : AtOrBelow root key := by
  rcases h with rfl | ⟨-, hbelow⟩
  · obtain ⟨slashes, hslashes, happ⟩ := trimEndSlashes_append key
    cases slashes with
    | nil => exact .inl (by simpa using happ.symm)
    | cons c cs =>
        obtain rfl := hslashes c List.mem_cons_self
        exact .inr ⟨cs, by simpa using happ⟩
  · exact .inr hbelow

lemma AtOrBelow.of_below {root p key : Str} (hp : AtOrBelow root p) (h : Below p key) :
    AtOrBelow root key := by
  rcases hp with rfl | hp
  · exact .inr h
  · exact .inr (hp.trans ((List.prefix_append _ _).trans h))

/-- Roots that lie apart have no key in common. -/
lemma Apart.not_atOrBelow {root root' key : Str} (h : Apart root root')
    (hkey : AtOrBelow root key) : ¬ AtOrBelow root' key := by
  intro hkey'
  rcases hkey with rfl | hbelow
  · exact h.2 hkey'
  · rcases hkey' with rfl | hbelow'
    · exact h.1 (.inr hbelow)
    · rcases List.prefix_or_prefix_of_prefix hbelow hbelow' with hpre | hpre
      · rcases List.prefix_concat_iff.mp hpre with heq | hpre
        · exact h.1 (.inl (List.append_cancel_right heq).symm)
        · exact h.1 (.inr hpre)
      · rcases List.prefix_concat_iff.mp hpre with heq | hpre
        · exact h.2 (.inl (List.append_cancel_right heq).symm)
        · exact h.2 (.inr hpre)

end CacheShfs
