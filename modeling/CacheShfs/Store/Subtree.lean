import CacheShfs.Store.Ops

/-!
# What is left of a subtree

The two maps of the index keep a tree under flat keys, so an operation on a directory has to find
the keys below it by their prefix.  `rename` sweeps the entries below its source, and with each of
them the listing under the same key; `remove` sweeps nothing but the path itself, and neither of
the two looks below the target.  The conditions under which nothing is left behind are on the
index before the call (`subtree_evicted_iff`).
-/

namespace CacheShfs

namespace Store

/-- The index has nothing strictly below a path. -/
def NothingBelow (path : Str) (s : Store) : Prop :=
  ∀ key, Below path key → s.entry key = none ∧ s.listing key = none

/-- The index has nothing at a path or below it. -/
def NothingAtOrBelow (path : Str) (s : Store) : Prop :=
  ∀ key, key = path ∨ Below path key → s.entry key = none ∧ s.listing key = none

/-- Two paths of which neither is the other one or lies below it. -/
structure Incomparable (p q : Str) : Prop where
  ne : p ≠ q
  left : ¬ Below p q
  right : ¬ Below q p

/-- The listing under `q` is still there after a rename: under the target, if it is the one of the
source. -/
def ListingKept (src dst : RemotePath) (q : Str) (names : List Str) (s : Store) : Prop :=
  s.listing q = some names ∧
    (s.rename src dst).listing (if q = src.asStr then dst.asStr else q) = some names

/-- The entry under a key is evicted by a rename: it lies below the source. -/
def Evicted (src : RemotePath) (key : Str) (s : Store) : Prop :=
  Below src.asStr key ∧ s.entry key ≠ none

/-- **A rename in the index**: nothing is left at the source, below it or below the target; the
target has the entry that the source had, or none; no listing is kept of which a child has been
evicted; and everything else is as it was. -/
structure RenamesSubtree (src dst : RemotePath) (s : Store) : Prop where
  source : (s.rename src dst).NothingAtOrBelow src.asStr
  below_target : (s.rename src dst).NothingBelow dst.asStr
  target : (s.rename src dst).entry dst.asStr = s.entry src.asStr
  listings : ∀ q names, s.ListingKept src dst q names → ∀ name ∈ names, ValidComponent name →
    ¬ s.Evicted src (childKey q name)
  rest : ∀ key, key ≠ src.asStr → key ≠ dst.asStr → ¬ Below src.asStr key →
    ¬ Below dst.asStr key → (s.rename src dst).entry key = s.entry key ∧
      (s.rename src dst).listing key = s.listing key

/-- The index before a rename that leaves nothing behind: there is an entry to move, or none to
replace; nothing lies below the target; below the source there are listings only where there are
entries; and no child of the source that its listing names has an entry below it. -/
structure CleanFor (src dst : RemotePath) (s : Store) : Prop where
  entry : s.entry src.asStr = none → s.entry dst.asStr = none
  below_target : s.NothingBelow dst.asStr
  below_source : ∀ key, Below src.asStr key → s.entry key = none → s.listing key = none
  listing : ∀ names, s.listing src.asStr = some names → ∀ name ∈ names, ValidComponent name →
    ¬ s.Evicted src (childKey src.asStr name)

variable {s : Store}

/-- `remove` leaves nothing behind exactly if there was nothing below. -/
lemma remove_nothingAtOrBelow_iff (path : RemotePath) :
    (s.remove path).NothingAtOrBelow path.asStr ↔ s.NothingBelow path.asStr := by
  constructor
  · intro h key hbelow
    have hne : key ≠ path.asStr := by
      rintro rfl
      exact not_below_self _ hbelow
    have hkey := h key (.inr hbelow)
    rwa [entry_remove, listing_remove, if_neg hne, if_neg hne] at hkey
  · rintro h key hkey
    rw [entry_remove, listing_remove]
    rcases hkey with rfl | hbelow
    · simp
    · split
      · exact ⟨rfl, rfl⟩
      · exact h key hbelow

/-- A child of `q` below the source: `q` is the source, or lies below it. -/
lemma below_of_child {src : RemotePath} {q name : Str} (hname : ValidComponent name)
    (hbelow : Below src.asStr (childKey q name)) : q = src.asStr ∨ Below src.asStr q := by
  rcases below_childKey_cases hname.2.2.2.1 hbelow with heq | hb
  · obtain ⟨slashes, hslashes, happ⟩ := trimEndSlashes_append q
    cases slashes with
    | nil =>
        rw [heq]
        exact .inl (by simpa using happ.symm)
    | cons c cs =>
        obtain rfl := hslashes c List.mem_cons_self
        refine .inr ⟨cs, ?_⟩
        rw [heq]
        simpa using happ
  · exact .inr hb.of_trimEndSlashes

/-- A key other than the two paths. -/
lemma rename_other {src dst : RemotePath} {key : Str} (hs : key ≠ src.asStr)
    (hd : key ≠ dst.asStr) :
    (s.rename src dst).entry key = (if Below src.asStr key then none else s.entry key) ∧
      (s.rename src dst).listing key =
        (if Below src.asStr key ∧ s.entry key ≠ none then none else s.listing key) := by
  rw [entry_rename, listing_rename, if_neg hs, if_neg hd, if_neg hd, if_neg hs]
  simp [Option.isSome_iff_ne_none]

section Rename

variable {src dst : RemotePath} (h : Incomparable src.asStr dst.asStr)
include h

lemma entry_rename_dst : (s.rename src dst).entry dst.asStr =
    (s.entry src.asStr).or (s.entry dst.asStr) := by
  rw [entry_rename, if_neg h.left, if_pos rfl]

lemma listing_rename_dst : (s.rename src dst).listing dst.asStr =
    (s.listing src.asStr).or (s.listing dst.asStr) := by
  rw [listing_rename, if_neg fun hb => h.left hb.1, if_pos rfl]

lemma rename_src : (s.rename src dst).entry src.asStr = none ∧
    (s.rename src dst).listing src.asStr = none := by
  have hself : ¬ Below src.asStr src.asStr := not_below_self _
  rw [entry_rename, listing_rename]
  simp [hself, h.ne]

/-- No key lies below both paths. -/
lemma not_below_both {key : Str} (hs : Below src.asStr key) : ¬ Below dst.asStr key := by
  intro hd
  rcases List.prefix_or_prefix_of_prefix hs hd with hpre | hpre
  · rcases List.prefix_concat_iff.mp hpre with heq | hpre
    · exact h.ne (List.append_cancel_right heq)
    · exact h.left hpre
  · rcases List.prefix_concat_iff.mp hpre with heq | hpre
    · exact h.ne (List.append_cancel_right heq).symm
    · exact h.right hpre

/-- A key below the target, which a rename does not look at. -/
lemma rename_below_target {key : Str} (hb : Below dst.asStr key) :
    (s.rename src dst).entry key = s.entry key ∧
      (s.rename src dst).listing key = s.listing key := by
  have hs : key ≠ src.asStr := fun heq => h.right (heq ▸ hb)
  have hd : key ≠ dst.asStr := fun heq => not_below_self _ (heq ▸ hb)
  have hnot : ¬ Below src.asStr key := fun hsrc => not_below_both h hsrc hb
  obtain ⟨hentry, hlisting⟩ := rename_other (s := s) hs hd
  exact ⟨by rw [hentry, if_neg hnot], by rw [hlisting, if_neg fun x => hnot x.1]⟩

lemma cleanFor_of_renamesSubtree (hr : s.RenamesSubtree src dst) : s.CleanFor src dst where
  entry hnone := by
    have htarget := hr.target
    rwa [entry_rename_dst h, hnone, Option.none_or] at htarget
  below_target key hb := by
    have hkey := hr.below_target key hb
    rwa [(rename_below_target h hb).1, (rename_below_target h hb).2] at hkey
  below_source key hb hnone := by
    have hs : key ≠ src.asStr := fun heq => not_below_self _ (heq ▸ hb)
    have hd : key ≠ dst.asStr := fun heq => h.left (heq ▸ hb)
    have hlisting := (hr.source key (.inr hb)).2
    rwa [(rename_other hs hd).2, if_neg fun x => x.2 hnone] at hlisting
  listing names hnames := by
    refine hr.listings src.asStr names ⟨hnames, ?_⟩
    rw [if_pos rfl, listing_rename_dst h, hnames, Option.some_or]

lemma renamesSubtree_of_cleanFor (hc : s.CleanFor src dst) : s.RenamesSubtree src dst := by
  have hsource : (s.rename src dst).NothingAtOrBelow src.asStr := by
    rintro key (rfl | hb)
    · exact rename_src h
    · have hs : key ≠ src.asStr := fun heq => not_below_self _ (heq ▸ hb)
      have hd : key ≠ dst.asStr := fun heq => h.left (heq ▸ hb)
      obtain ⟨hentry, hlisting⟩ := rename_other (s := s) hs hd
      rw [hentry, hlisting, if_pos hb]
      refine ⟨rfl, ?_⟩
      split
      · rfl
      · next hno =>
          -- a listing without an entry under the same key is not swept
          exact hc.below_source key hb (not_not.mp fun hsome => hno ⟨hb, hsome⟩)
  refine ⟨hsource, fun key hb => ?_, ?_, fun q names hkept name hmem hname hev => ?_,
    fun key hs hd hbs hbd => ?_⟩
  · obtain ⟨hentry, hlisting⟩ := rename_below_target (s := s) h hb
    rw [hentry, hlisting]
    exact hc.below_target key hb
  · rw [entry_rename_dst h]
    cases hsrc : s.entry src.asStr with
    | none => exact hc.entry hsrc
    | some e => rfl
  · rcases below_of_child hname hev.1 with rfl | hb
    · exact hc.listing names hkept.1 name hmem hname hev
    · have hq : q ≠ src.asStr := fun heq => not_below_self _ (heq ▸ hb)
      have hlisting := hkept.2
      rw [if_neg hq, (hsource q (.inr hb)).2] at hlisting
      cases hlisting
  · obtain ⟨hentry, hlisting⟩ := rename_other (s := s) hs hd
    exact ⟨by rw [hentry, if_neg hbs], by rw [hlisting, if_neg fun x => hbs x.1]⟩

end Rename

/-- **Subtrees are evicted exactly where there is nothing that is not swept.**  `remove` leaves no
key at or below its path exactly if no key was below it.  `rename`, between paths neither of which
is the other or below it, leaves the index as a rename should exactly if the index was clean for
it. -/
theorem subtree_evicted_iff (s : Store) :
    (∀ path : RemotePath, (s.remove path).NothingAtOrBelow path.asStr ↔
      s.NothingBelow path.asStr) ∧
    ∀ src dst : RemotePath, Incomparable src.asStr dst.asStr →
      (s.RenamesSubtree src dst ↔ s.CleanFor src dst) :=
  ⟨fun path => remove_nothingAtOrBelow_iff path, fun _ _ h =>
    ⟨cleanFor_of_renamesSubtree h, renamesSubtree_of_cleanFor h⟩⟩

/-! The directory `/d` with the entry `/d/x`, and a directory that is renamed onto an old one. -/

def dirD : RemotePath := ⟨['/', 'd'], by decide⟩

def dirE : RemotePath := ⟨['/', 'e'], by decide⟩

def someEntry : Entry := ⟨⟨0, 0, 0, 0, 0, none, none, none⟩, none⟩

/-- A store whose index has entries, and no listings. -/
def withEntries (entries : FMap Str Entry) : Store :=
  (Store.new Disk.empty 4).setIndex ⟨0, entries, ∅⟩

/-- `remove` of `/d` leaves `/d/x`. -/
theorem remove_leaves_descendant :
    ¬ ((withEntries (AList.insert ['/', 'd', '/', 'x'] someEntry
      (AList.insert ['/', 'd'] someEntry ∅))).remove dirD).NothingAtOrBelow dirD.asStr := by
  intro h
  have hx := (h ['/', 'd', '/', 'x'] (.inr (by decide))).1
  revert hx
  decide

/-- The directories `/d` and `/d/x`, and a listing of the second. -/
def withChild : Store :=
  (Store.new Disk.empty 4).setIndex
    ⟨0, AList.insert ['/', 'd', '/', 'x'] someEntry (AList.insert ['/', 'd'] someEntry ∅),
      AList.insert ['/', 'd', '/', 'x'] [['y']] ∅⟩

lemma entry_withChild (key : Str) : withChild.entry key =
    if key = ['/', 'd', '/', 'x'] then some someEntry
    else if key = ['/', 'd'] then some someEntry else none := by
  show AList.lookup key (AList.insert _ _ _) = _
  rw [FMap.lookup_insert_eq_ite, FMap.lookup_insert_eq_ite]
  rfl

lemma listing_withChild (key : Str) : withChild.listing key =
    if key = ['/', 'd', '/', 'x'] then some [['y']] else none :=
  FMap.lookup_insert_eq_ite _ _ _ _

/-- Renaming `/d` to `/e` sweeps `/d/x` and its listing. -/
theorem subtree_evicted_iff_moved :
    withChild.entry ['/', 'd', '/', 'x'] ≠ none ∧ withChild.RenamesSubtree dirD dirE := by
  have hbelow : ∀ key, Below dirE.asStr key → key ≠ ['/', 'd', '/', 'x'] ∧ key ≠ ['/', 'd'] :=
    fun key hb => ⟨fun heq => absurd (heq ▸ hb) (by decide),
      fun heq => absurd (heq ▸ hb) (by decide)⟩
  have hclean : withChild.CleanFor dirD dirE := by
    refine ⟨fun hnone => ?_, fun key hb => ?_, fun key hb hnone => ?_, fun names hnames => ?_⟩
    · rw [entry_withChild] at hnone
      cases hnone
    · obtain ⟨hx, hd⟩ := hbelow key hb
      rw [entry_withChild, listing_withChild, if_neg hx, if_neg hd, if_neg hx]
      exact ⟨rfl, rfl⟩
    · rw [listing_withChild, if_neg]
      rintro rfl
      rw [entry_withChild, if_pos rfl] at hnone
      cases hnone
    · rw [listing_withChild] at hnames
      cases hnames
  exact ⟨by decide,
    ((subtree_evicted_iff _).2 dirD dirE ⟨by decide, by decide, by decide⟩).mpr hclean⟩

end Store

end CacheShfs
