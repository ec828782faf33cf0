import CacheShfs.Vfs.Exclusive

/-!
# Listings under exclusive access

A mount whose remote is changed by nobody else, and directories whose names are all path
components.  A cached listing then should name exactly the children the directory has
(`ListsExactly`), and since `readdir_from_cache` skips a name without cached attributes, each of
them must have an entry too.

`rename` breaks this.  It moves the listing of a directory to the new path
but evicts the entries of its children, it leaves a listing of the target in place when the
source has none, and it leaves the listing of a path below the source behind when that path has
no entry of its own.  So does a mutation that fails after it has changed the names of a directory
with a cached listing: it returns before it touches the cache.  In every run without either, over a
remote that shows no links, `readdir` is exact (`listing_transparent`).
-/

namespace CacheShfs

open Machine

/-- A list of names is the listing of the directory at a key. -/
structure ListsExactly (t : Tree) (key : Str) (names : List Str) : Prop where
  dir : t key = some .dir
  nodup : names.Nodup
  mem : ∀ name, name ∈ names ↔ ValidComponent name ∧ t (childKey key name) ≠ none

lemma ListsExactly.mono {t t' : Tree} {key : Str} {names : List Str}
    (h : ListsExactly t key names) (hdir : t' key = some .dir)
    (hchild : ∀ name, ValidComponent name →
      (t' (childKey key name) = none ↔ t (childKey key name) = none)) :
    ListsExactly t' key names where
  dir := hdir
  nodup := h.nodup
  mem name := by
    rw [h.mem]
    exact and_congr_right fun hname => (not_congr (hchild name hname)).symm

/-- The listing of an empty directory. -/
lemma listsExactly_nil {t : Tree} {key : Str} (hdir : t key = some .dir)
    (hempty : ∀ name, ValidComponent name → t (childKey key name) = none) :
    ListsExactly t key [] where
  dir := hdir
  nodup := List.nodup_nil
  mem name := by
    simp only [List.not_mem_nil, false_iff, not_and, ne_eq, not_not]
    exact hempty name

/-- What `read_dir` answers is the listing of the directory, once the dots are dropped. -/
lemma listsExactly_readDir {ρ : Type} {R : RemoteFilesystem ρ} {view : ρ → Tree}
    (hL : ListsChildren R view) {path : RemotePath} {r : ρ} (hlist : ListsAsFound R view path r)
    {entries : List RemoteDirectoryEntry} (h : (R.readDir path r).1 = .ok entries) :
    ListsExactly (view r) path.asStr ((World.realChildren entries).map Prod.fst) where
  dir := (hlist entries h).1
  nodup := by
    have hnodup := hL.names_nodup path r entries h
    rw [List.filter_map] at hnodup
    simpa [World.realChildren, Function.comp_def] using hnodup
  mem name := by
    constructor
    · intro hmem
      obtain ⟨c, hc, rfl⟩ := List.mem_map.mp hmem
      obtain ⟨e, he, rfl⟩ := List.mem_map.mp hc
      obtain ⟨hmem', hdots⟩ := List.mem_filter.mp he
      simp only [decide_eq_true_eq] at hdots
      have hvalid := hL.names_valid path r entries h e hmem' hdots.1 hdots.2
      obtain ⟨node, hnode, -⟩ := (hlist entries h).2 e hmem' hvalid
      exact ⟨hvalid, by simp [hnode]⟩
    · rintro ⟨hvalid, hsome⟩
      obtain ⟨e, he, rfl⟩ := List.mem_map.mp (hL.names_complete path r entries h name hvalid hsome)
      refine List.mem_map.mpr ⟨(e.name, e.attributes), List.mem_map.mpr ⟨e, ?_, rfl⟩, rfl⟩
      exact List.mem_filter.mpr ⟨he, by simp [hvalid.2.1, hvalid.2.2.1]⟩

namespace World

variable {ρ : Type} {R : RemoteFilesystem ρ} {view : ρ → Tree}

/-- Every cached listing is exact, and every name in it has an entry. -/
def ListingsMatch (root : Str) (t : Tree) (s : Store) : Prop :=
  ∀ key names, s.listing key = some names → UnderRoot root key ∧ ListsExactly t key names ∧
    ∀ name ∈ names, s.entry (childKey key name) ≠ none

/-- **The invariant of the listings** of a mount with exclusive access. -/
structure ListingsCoherent (view : ρ → Tree) (w : World ρ) : Prop where
  online : w.offline = false
  nodes : NodesUnderRoot w
  listings : ListingsMatch w.config.root.asStr (view w.conn.remote) w.store

/-! ## What keeps the listings exact -/

section

variable {root : Str} {t t' : Tree} {s s' : Store}

/-- A call after which the same paths exist, that loses no entry of any of them. -/
lemma ListingsMatch.keep (h : ListingsMatch root t s)
    (hlist : ∀ key names, s'.listing key = some names → s.listing key = some names)
    (hdir : ∀ key, t key = some .dir → t' key = some .dir)
    (hnone : ∀ key, t' key = none ↔ t key = none)
    (hentry : ∀ key, t key ≠ none → s.entry key ≠ none → s'.entry key ≠ none) :
    ListingsMatch root t' s' := by
  intro key names hnames
  obtain ⟨hroot, hexact, hentries⟩ := h key names (hlist key names hnames)
  refine ⟨hroot, hexact.mono (hdir key hexact.dir) fun name _ => hnone _, fun name hname => ?_⟩
  exact hentry _ ((hexact.mem name).mp hname).2 (hentries name hname)

/-- A call that changes one path and forgets the listings of the path and of its directory. -/
lemma ListingsMatch.change (h : ListingsMatch root t s) {parent : RemotePath} {child : Str}
    {name : Str} (hparent : UnderRoot root parent.asStr) (hname : ValidComponent name)
    (hchild : child = childKey parent.asStr name)
    (hlist : ∀ key names, s'.listing key = some names →
      s.listing key = some names ∧ key ≠ parent.asStr ∧ key ≠ child)
    (htree : ∀ key, key ≠ child → t' key = t key)
    (hentry : ∀ key, key ≠ child → s.entry key ≠ none → s'.entry key ≠ none) :
    ListingsMatch root t' s' := by
  intro key names hnames
  obtain ⟨hold, hkp, hkc⟩ := hlist key names hnames
  obtain ⟨hroot, hexact, hentries⟩ := h key names hold
  -- the path is a child of its own directory only
  have hoff : ∀ x, ValidComponent x → childKey key x ≠ child := by
    rintro x hx heq
    rw [hchild] at heq
    exact hkp (hroot.eq_of_childKey_eq hparent hx hname heq)
  refine ⟨hroot, hexact.mono ((htree key hkc).trans hexact.dir) fun x hx => ?_, fun x hx => ?_⟩
  · rw [htree _ (hoff x hx)]
  · have hvalid := ((hexact.mem x).mp hx).1
    exact hentry _ (hoff x hvalid) (hentries x hx)

end

/-- A path is created and its directory's listing is forgotten. -/
lemma listings_made {root : Str} {t : Tree} {s : Store} (h : ListingsMatch root t s)
    {parent child : RemotePath} {name : Str} (hparent : UnderRoot root parent.asStr)
    (hjoin : parent.join name = .ok child) (hnone : t child.asStr = none) (node : RemoteNode)
    (attributes : FileAttributes) :
    ListingsMatch root (Function.update t child.asStr (some node))
      ((s.putAttrs child attributes).invalidateChildren parent) := by
  obtain ⟨hname, hkey⟩ := RemotePath.join_ok_iff.mp hjoin
  refine h.change hparent hname hkey (fun key names hnames => ?_)
    (fun key hk => Function.update_of_ne hk _ _) (fun key hk he => ?_)
  · rw [Store.listing_invalidateChildren, Option.ite_none_left_eq_some] at hnames
    obtain ⟨hkp, hold⟩ := hnames
    rw [Store.listing_putAttrs] at hold
    refine ⟨hold, hkp, ?_⟩
    -- nothing was listed where nothing was
    rintro rfl
    have hdir := (h _ names hold).2.1.dir
    rw [hnone] at hdir
    cases hdir
  · rw [Store.entry_invalidateChildren, Store.entry_putAttrs, if_neg hk]
    exact he

/-- A path is deleted and its directory's listing is forgotten. -/
lemma listings_forgotten {root : Str} {t : Tree} {s : Store} (h : ListingsMatch root t s)
    {parent child : RemotePath} {name : Str} (hparent : UnderRoot root parent.asStr)
    (hjoin : parent.join name = .ok child) :
    ListingsMatch root (Function.update t child.asStr none)
      ((s.remove child).invalidateChildren parent) := by
  obtain ⟨hname, hkey⟩ := RemotePath.join_ok_iff.mp hjoin
  refine h.change hparent hname hkey (fun key names hnames => ?_)
    (fun key hk => Function.update_of_ne hk _ _) (fun key hk he => ?_)
  · rw [Store.listing_invalidateChildren, Option.ite_none_left_eq_some] at hnames
    obtain ⟨hkp, hold⟩ := hnames
    rw [Store.listing_remove, Option.ite_none_left_eq_some] at hold
    exact ⟨hold.2, hkp, hold.1⟩
  · rw [Store.entry_invalidateChildren, Store.entry_remove, if_neg hk]
    exact he

/-- A listing is recorded with its children. -/
lemma listings_recorded {root : Str} {t : Tree} {s : Store} (h : ListingsMatch root t s)
    {path : RemotePath} (hpath : UnderRoot root path.asStr)
    {children : List (Str × FileAttributes)}
    (hexact : ListsExactly t path.asStr (children.map Prod.fst)) :
    ListingsMatch root t (s.recordListing path children) := by
  have hkept : ∀ key, s.entry key ≠ none → (s.recordListing path children).entry key ≠ none := by
    intro key he
    rcases Store.entry_recordListing path children s key with
      ⟨_, _, _, -, -, -, hnew⟩ | ⟨-, hold⟩
    · simp [hnew]
    · rw [hold]
      exact he
  intro key names hnames
  rw [Store.listing_recordListing] at hnames
  split at hnames
  · next hkey =>
      cases hnames
      subst hkey
      refine ⟨hpath, hexact, fun name hname => ?_⟩
      have hvalid := ((hexact.mem name).mp hname).1
      obtain ⟨c, hc, rfl⟩ := List.mem_map.mp hname
      rcases Store.entry_recordListing path children s (childKey path.asStr c.1) with
        ⟨_, _, _, -, -, -, hnew⟩ | ⟨hno, -⟩
      · simp [hnew]
      · exact absurd rfl (hno c.1 c.2 hc hvalid)
  · obtain ⟨hroot, hold, hentries⟩ := h key names hnames
    exact ⟨hroot, hold, fun name hname => hkept _ (hentries name hname)⟩

/-! ## Renames -/

/-- What a rename must find for the listings to stay exact. -/
structure RenameListings (t : Tree) (s : Store) (src dst : RemotePath) : Prop where
  /-- The listing that moves is empty: the entries of its children do not move with it. -/
  moved : ∀ names, s.listing src.asStr = some names → names = []
  /-- A listing of the target that stays there is that of the source. -/
  kept : s.listing src.asStr = none → s.listing dst.asStr ≠ none →
    t src.asStr = some .dir ∧ ∀ name, ValidComponent name → t (childKey src.asStr name) = none
  /-- The listings below the source are evicted. -/
  below : ∀ key, Below src.asStr key → s.listing key ≠ none → s.entry key ≠ none

section Rename

variable {root : Str} {t : Tree} {s : Store} {src dst : RemotePath}

/-- A listing that is not at or below the source has no child there. -/
lemma not_below_child (hsrc : UnderRoot root src.asStr)
    (htrim : trimEndSlashes src.asStr = src.asStr) {key name : Str} (hkey : UnderRoot root key)
    (hne : key ≠ src.asStr) (hbelow : ¬ Below src.asStr key) (hname : ValidComponent name) :
    ¬ Below src.asStr (childKey key name) := by
  intro h
  rcases below_childKey_cases hname.2.2.2.1 h with heq | hb
  · exact hne (hkey.eq_of_trim_eq hsrc (heq.symm.trans htrim.symm))
  · exact hbelow hb.of_trimEndSlashes

lemma entry_rename_ne_none {key : Str} (hbelow : ¬ Below src.asStr key) (hsrc : key ≠ src.asStr)
    (he : s.entry key ≠ none) : (s.rename src dst).entry key ≠ none := by
  rw [Store.entry_rename, if_neg hbelow, if_neg hsrc]
  split
  · next hd =>
      rw [hd] at he
      cases s.entry src.asStr with
      | some e => simp
      | none => simpa using he
  · exact he

/-- The listings after a rename: the one that is now at the target, and those that were not at
or below the source. -/
lemma listing_renamed (hr : RenameListings t s src dst) {key : Str} {names : List Str}
    (h : (s.rename src dst).listing key = some names) :
    (key = dst.asStr ∧ (s.listing src.asStr = some names ∨
        (s.listing src.asStr = none ∧ s.listing dst.asStr = some names))) ∨
      (key ≠ dst.asStr ∧ key ≠ src.asStr ∧ ¬ Below src.asStr key ∧
        s.listing key = some names) := by
  rw [Store.listing_rename, Option.ite_none_left_eq_some] at h
  obtain ⟨hevict, h⟩ := h
  split at h
  · next hd =>
      refine .inl ⟨hd, ?_⟩
      cases hs : s.listing src.asStr with
      | some ns =>
          rw [hs] at h
          exact .inl h
      | none =>
          rw [hs] at h
          exact .inr ⟨rfl, h⟩
  · next hd =>
      rw [Option.ite_none_left_eq_some] at h
      obtain ⟨hs, h⟩ := h
      refine .inr ⟨hd, hs, fun hb => hevict ⟨hb, ?_⟩, h⟩
      rw [if_neg hd, if_neg hs, Option.isSome_iff_ne_none]
      exact hr.below key hb (by simp [h])

/-- A rename of a path to itself. -/
lemma listings_renamed_self (h : ListingsMatch root t s) (hsrc : UnderRoot root src.asStr)
    (htrim : trimEndSlashes src.asStr = src.asStr) (hr : RenameListings t s src src) :
    ListingsMatch root t (s.rename src src) := by
  intro key names hnames
  rcases listing_renamed hr hnames with ⟨rfl, hold | ⟨hno, hold⟩⟩ | ⟨-, hks, hkb, hold⟩
  · obtain ⟨hroot, hexact, -⟩ := h _ names hold
    obtain rfl := hr.moved names hold
    exact ⟨hroot, hexact, by simp⟩
  · rw [hno] at hold
    cases hold
  · obtain ⟨hroot, hexact, hentries⟩ := h key names hold
    refine ⟨hroot, hexact, fun name hname => ?_⟩
    have hvalid := ((hexact.mem name).mp hname).1
    have hb := not_below_child hsrc htrim hroot hks hkb hvalid
    by_cases hc : childKey key name = src.asStr
    · -- the renamed path keeps its own entry
      rw [Store.entry_rename, if_neg hb, if_pos hc]
      have he := hentries name hname
      rw [hc] at he
      simpa using he
    · exact entry_rename_ne_none hb hc (hentries name hname)

/-- A rename to another path; the listings of the two directories are forgotten. -/
lemma listings_renamed (h : ListingsMatch root t s) {srcParent dstParent : RemotePath}
    {name newName : Str} (hsrcParent : UnderRoot root srcParent.asStr)
    (hdstParent : UnderRoot root dstParent.asStr) (hjoin : srcParent.join name = .ok src)
    (hjoin' : dstParent.join newName = .ok dst)
    (hbelow : ∀ q, Below dst.asStr q → t q = none) (hr : RenameListings t s src dst) :
    ListingsMatch root (t.rename src.asStr dst.asStr)
      (((s.rename src dst).invalidateChildren srcParent).invalidateChildren dstParent) := by
  obtain ⟨hvalid, hsrc⟩ := RemotePath.join_ok_iff.mp hjoin
  obtain ⟨hvalid', hdst⟩ := RemotePath.join_ok_iff.mp hjoin'
  have htrim : trimEndSlashes src.asStr = src.asStr := hsrc ▸ trimEndSlashes_childKey hvalid
  have htrim' : trimEndSlashes dst.asStr = dst.asStr := hdst ▸ trimEndSlashes_childKey hvalid'
  have hsrcRoot : UnderRoot root src.asStr := hsrc ▸ hsrcParent.childKey hvalid
  have hdstRoot : UnderRoot root dst.asStr := hdst ▸ hdstParent.childKey hvalid'
  -- the children of the source become those of the target
  have hmoved : ∀ x, t.rename src.asStr dst.asStr (childKey dst.asStr x) =
      if childKey dst.asStr x = dst.asStr then t src.asStr else t (childKey src.asStr x) := by
    intro x
    unfold Tree.rename
    split
    · rfl
    · rw [if_pos (below_childKey htrim' x)]
      congr 1
      rw [childKey, childKey, htrim, htrim', List.drop_left]
  have hempty : t src.asStr = some .dir →
      (∀ x, ValidComponent x → t (childKey src.asStr x) = none) →
      ListsExactly (t.rename src.asStr dst.asStr) dst.asStr [] := by
    intro hdir hnone
    refine listsExactly_nil (by rw [rename_dst]; exact hdir) fun x hx => ?_
    rw [hmoved, if_neg (childKey_ne _ _ hx)]
    exact hnone x hx
  intro key names hnames
  rw [Store.listing_invalidateChildren, Option.ite_none_left_eq_some,
    Store.listing_invalidateChildren, Option.ite_none_left_eq_some] at hnames
  obtain ⟨hkd, hks, hnames⟩ := hnames
  simp only [Store.entry_invalidateChildren]
  rcases listing_renamed hr hnames with ⟨rfl, hold | ⟨hno, hold⟩⟩ | ⟨hkd', hks', hkb, hold⟩
  · obtain ⟨-, hexact, -⟩ := h _ names hold
    obtain rfl := hr.moved names hold
    refine ⟨hdstRoot, hempty hexact.dir fun x hx => ?_, by simp⟩
    by_contra hsome
    exact absurd ((hexact.mem x).mpr ⟨hx, hsome⟩) (by simp)
  · -- the target was an empty directory, and so is the source
    obtain ⟨-, hexact, -⟩ := h _ names hold
    obtain ⟨hdir, hnone⟩ := hr.kept hno (by simp [hold])
    obtain rfl : names = [] := by
      refine List.eq_nil_iff_forall_not_mem.mpr fun x hx => ?_
      exact ((hexact.mem x).mp hx).2 (hbelow _ (below_childKey htrim' x))
    exact ⟨hdstRoot, hempty hdir hnone, by simp⟩
  · obtain ⟨hroot, hexact, hentries⟩ := h key names hold
    have hkdb : ¬ Below dst.asStr key := fun hb => by
      have hdir := hexact.dir
      rw [hbelow key hb] at hdir
      cases hdir
    -- a child of this directory is neither of the two paths, nor below one of them
    have hchild : ∀ x, ValidComponent x →
        childKey key x ≠ src.asStr ∧ childKey key x ≠ dst.asStr ∧
          ¬ Below src.asStr (childKey key x) ∧ ¬ Below dst.asStr (childKey key x) := by
      intro x hx
      refine ⟨fun heq => hks ?_, fun heq => hkd ?_,
        not_below_child hsrcRoot htrim hroot hks' hkb hx,
        not_below_child hdstRoot htrim' hroot hkd' hkdb hx⟩
      · exact hroot.eq_of_childKey_eq hsrcParent hx hvalid (heq.trans hsrc)
      · exact hroot.eq_of_childKey_eq hdstParent hx hvalid' (heq.trans hdst)
    refine ⟨hroot, hexact.mono (rename_other hexact.dir hbelow hkd' hks' hkb) fun x hx => ?_,
      fun x hx => ?_⟩
    · obtain ⟨hcs, hcd, hsb, hdb⟩ := hchild x hx
      rw [Tree.rename, if_neg hcd, if_neg hdb, if_neg (by simp [hcs, hsb])]
    · obtain ⟨hcs, -, hsb, -⟩ := hchild x ((hexact.mem x).mp hx).1
      exact entry_rename_ne_none hsb hcs (hentries x hx)

end Rename

/-! ## Runs -/

/-- The renames after which the listings stay exact. -/
def ListingsCareful (R : RemoteFilesystem ρ) (view : ρ → Tree) (w : World ρ) : Event ρ → Prop
  | .call (.rename parent name newParent newName) => ∀ srcParent dstParent src dst,
      w.resolveRename parent name newParent newName = .ok (srcParent, dstParent, src, dst) →
      (R.rename src dst w.conn.remote).1 = .ok () →
      RenameListings (view w.conn.remote) w.store src dst
  | _ => True

/-- A change of a file, or of the attributes of a directory, concerns no listing. -/
lemma listings_touched {root : Str} {t : Tree} {s s' : Store} (h : ListingsMatch root t s)
    {p : Str} {node node' : RemoteNode} (hnode : t p = some node)
    (hkind : node'.kind = node.kind) (hlist : ∀ key, s'.listing key = s.listing key)
    (hentry : ∀ key, s.entry key ≠ none → s'.entry key ≠ none) :
    ListingsMatch root (Function.update t p (some node')) s' := by
  refine h.keep (fun key names hn => (hlist key).symm.trans hn) (fun key hdir => ?_)
    (fun key => ?_) (fun key _ => hentry key)
  · by_cases hk : key = p
    · subst hk
      rw [hnode] at hdir
      cases hdir
      rw [Function.update_self]
      cases node' with
      | dir => rfl
      | file f m => cases hkind
    · rw [Function.update_of_ne hk]
      exact hdir
  · by_cases hk : key = p
    · subst hk
      simp [hnode]
    · rw [Function.update_of_ne hk]

lemma entry_putAttrs_ne_none {path : RemotePath} {attributes : FileAttributes} {s : Store}
    {key : Str} (he : s.entry key ≠ none) : (s.putAttrs path attributes).entry key ≠ none := by
  rw [Store.entry_putAttrs]
  split
  · simp
  · exact he

lemma entry_invalidateContent_ne_none {path : RemotePath} {s : Store} {key : Str}
    (he : s.entry key ≠ none) : (s.invalidateContent path).entry key ≠ none := by
  rw [Store.entry_invalidateContent]
  split
  · next hk =>
      rw [hk] at he
      simpa using he
  · exact he

/-- Another tree in which the cached listings are as right as before. -/
def UnseenListings (s : Store) (t t' : Tree) : Prop :=
  ∀ key names, s.listing key = some names → t' key = t key ∧ ∀ name, ValidComponent name →
    (t' (childKey key name) = none ↔ t (childKey key name) = none)

/-- A request that fails changes no directory with a cached listing. -/
def FailsUnlisted (R : RemoteFilesystem ρ) (view : ρ → Tree) (w : World ρ) : Event ρ → Prop
  | .call call => w.config.readOnly = false → ∀ m, w.Asks call m → ∀ error,
      (m.run R w.conn.remote).1 = .error error →
      UnseenListings w.store (view w.conn.remote) (view (m.run R w.conn.remote).2)
  | _ => True

lemma failsUnlisted_of_mutates (hM : Mutates R view) (w : World ρ) (e : Event ρ) :
    w.FailsUnlisted R view e := by
  cases e with
  | call call =>
      intro _ m _ error herror
      rw [hM.refuses m _ error herror]
      exact fun _ _ _ => ⟨rfl, fun _ _ => Iff.rfl⟩
  | _ => trivial

section Outcome

variable {w : World ρ} {p : RemotePath} {conn : Conn ρ}

/-- A call that leaves the tree and the listings alone, and drops entries only of missing paths. -/
lemma ListingsCoherent.same (hc : ListingsCoherent view w) {store : Store}
    (hview : view conn.remote = view w.conn.remote)
    (hlist : ∀ key names, store.listing key = some names → w.store.listing key = some names)
    (hentry : ∀ key, view w.conn.remote key ≠ none → w.store.entry key ≠ none →
      store.entry key ≠ none) :
    ListingsMatch w.config.root.asStr (view conn.remote) store := by
  rw [hview]
  exact hc.listings.keep hlist (fun _ => id) (fun _ => Iff.rfl) hentry

lemma ListingsCoherent.failed (hA : StatsTree R view) (hc : ListingsCoherent view w) {call : Call}
    (hfail : Failed R w call conn) (hwritable : call.Mutates → w.config.readOnly = false)
    (hunlisted : w.FailsUnlisted R view (.call call)) :
    ListingsMatch w.config.root.asStr (view conn.remote) w.store := by
  cases hfail with
  | stat hstat =>
      rw [(Conn.stat_eq hstat).2]
      exact hc.same (hA.view_stat _ _) (fun _ _ => id) (fun _ _ => id)
  | readDir hread =>
      rw [(Conn.readDir_eq hread).2]
      exact hc.same (hA.view_readDir _ _) (fun _ _ => id) (fun _ _ => id)
  | asked hasks hanswer =>
      intro key names hnames
      obtain ⟨hroot, hexact, hentries⟩ := hc.listings key names hnames
      obtain ⟨hdir, hchild⟩ :=
        hunlisted (hwritable (mutates_of_asks hasks)) _ hasks _ hanswer key names hnames
      exact ⟨hroot, hexact.mono (hdir.trans hexact.dir) hchild, hentries⟩

/-- What `stat` finds is stored. -/
lemma ListingsCoherent.found (hA : StatsTree R view) (hc : ListingsCoherent view w)
    {attributes : FileAttributes} (hstat : w.conn.stat R p = (.ok attributes, conn)) :
    ListingsMatch w.config.root.asStr (view conn.remote) (w.store.putAttrs p attributes) :=
  hc.same (stat_found hA hstat).1 (fun _ _ => by simp) (fun _ _ => entry_putAttrs_ne_none)

/-- What `stat` does not find is dropped. -/
lemma ListingsCoherent.missing (hA : StatsTree R view) (hc : ListingsCoherent view w)
    (hstat : w.conn.stat R p = (.error .notFound, conn)) :
    ListingsMatch w.config.root.asStr (view conn.remote) (w.store.remove p) := by
  obtain ⟨hview, hnone, -⟩ := stat_missing hA hstat
  refine hc.same hview (fun _ _ => listing_of_remove) fun key hkey he => ?_
  have hne : key ≠ p.asStr := by
    rintro rfl
    exact hkey hnone
  rw [Store.entry_remove, if_neg hne]
  exact he

lemma ListingsCoherent.listed (hA : StatsTree R view) (hL : ListsChildren R view)
    (hc : ListingsCoherent view w) {node : NodeId} (hpath : w.state.path node = some p)
    (hlist : ListsAsFound R view p w.conn.remote) {entries : List RemoteDirectoryEntry}
    (hread : w.conn.readDir R p = (.ok entries, conn)) :
    ListingsMatch w.config.root.asStr (view conn.remote)
      (w.store.recordListing p (realChildren entries)) := by
  obtain ⟨hans, rfl⟩ := Conn.readDir_eq hread
  rw [Conn.record_remote, hA.view_readDir]
  exact listings_recorded hc.listings (hc.nodes _ _ hpath) (listsExactly_readDir hL hlist hans)

/-- A read of content keeps the entries and the listings. -/
lemma ListingsMatch.content (hA : StatsTree R view) {root : Str}
    (h : ListingsMatch root (view w.conn.remote) w.store) (path : RemotePath)
    (attributes : FileAttributes) (offset : UInt64) (size : UInt32) :
    ListingsMatch root (view (w.store.read R path attributes offset size w.conn).2.2.remote)
      (w.store.read R path attributes offset size w.conn).2.1 := by
  obtain ⟨hframe, hreads⟩ :=
    Store.read_frame (R := R) path attributes offset size w.store w.conn
  rw [hreads.view hA.toHonestReads]
  refine h.keep (fun key names hn => (hframe.listing key).symm.trans hn)
    (fun _ => id) (fun _ => Iff.rfl) (fun key _ he => ?_)
  by_cases hk : key = path.asStr
  · subst hk
    obtain ⟨e, he⟩ := Option.ne_none_iff_exists'.mp he
    obtain ⟨e', he', -⟩ := hframe.attrs_kept e he
    simp [he']
  · rw [hframe.entry_ne key hk]
    exact he

/-- A rename after which the listings stay exact. -/
lemma ListingsCoherent.renamed (hc : ListingsCoherent view w) {parent newParent : NodeId}
    {name newName : Str} {srcParent dstParent src dst : RemotePath}
    (hdoes : (Mutation.rename src dst).Does R view w.conn.remote)
    (hres : w.resolveRename parent name newParent newName = .ok (srcParent, dstParent, src, dst))
    (hrename : w.conn.rename R src dst = (.ok (), conn))
    (hr : RenameListings (view w.conn.remote) w.store src dst) :
    ListingsMatch w.config.root.asStr (view conn.remote)
      (((w.store.rename src dst).invalidateChildren srcParent).invalidateChildren dstParent) := by
  obtain ⟨hpath, hpath', hjoin, hjoin'⟩ := resolveRename_ok hres
  obtain ⟨hans, rfl⟩ := Conn.rename_eq hrename
  obtain ⟨-, -, hfree, hview⟩ := hdoes hans
  rw [Conn.record_remote, hview]
  split
  · next hsame =>
      subst hsame
      obtain ⟨hvalid, hsrc⟩ := RemotePath.join_ok_iff.mp hjoin
      have hroot := (hc.nodes _ _ hpath).childKey hvalid
      rw [← hsrc] at hroot
      have hself := listings_renamed_self hc.listings hroot
        (by rw [hsrc]; exact trimEndSlashes_childKey hvalid) hr
      refine hself.keep (fun key names hn => ?_) (fun _ => id) (fun _ => Iff.rfl)
        (fun key _ he => by simpa using he)
      exact listing_of_invalidateChildren (listing_of_invalidateChildren hn)
  · next hne =>
      exact listings_renamed hc.listings (hc.nodes _ _ hpath) (hc.nodes _ _ hpath') hjoin
        hjoin' (hfree hne) hr

end Outcome

lemma listings_outcome (hA : StatsTree R view) (hL : ListsChildren R view) {w w' : World ρ}
    {call : Call} (h : Outcome R w call w')
    (hwritable : call.Mutates → w.config.readOnly = false) (hord : w.Orderly R view (.call call))
    (hunlisted : w.FailsUnlisted R view (.call call))
    (hcare : w.ListingsCareful R view (.call call)) (hc : ListingsCoherent view w) :
    ListingsMatch w.config.root.asStr (view w'.conn.remote) w'.store := by
  induction h with
  | known hst => exact hc.listings
  | failed hfail hst => exact hc.failed hA hfail hwritable hunlisted
  | lookupFound _ _ _ _ hstat => exact hc.found hA hstat
  | lookupMissing _ _ hstat => exact hc.missing hA hstat
  | getattrFound _ _ _ hstat => exact hc.found hA hstat
  | getattrMissing _ _ hstat => exact hc.missing hA hstat
  | listed _ hpath hcache hread _ => exact hc.listed hA hL hpath (hord _ hpath hcache) hread
  | listedPartly _ hpath hcache hread _ => exact hc.listed hA hL hpath (hord _ hpath hcache) hread
  | opened _ => exact hc.listings
  | truncated htruncate hpath hset =>
      obtain ⟨hans, rfl⟩ := Conn.setattr_eq hset
      obtain ⟨node, node', hnode, hto, -, hview⟩ :=
        hord (hwritable htruncate) _ ⟨htruncate, _, hpath, rfl⟩ _ hans
      rw [Conn.record_remote, hview]
      exact listings_touched hc.listings hnode (SetTo.kind_eq hto) (by simp)
        (fun _ => entry_invalidateContent_ne_none)
  | readThrough _ _ => exact hc.same (hA.view_read _ _ _ _) (fun _ _ => id) (fun _ _ => id)
  | readRejected _ _ _ ih =>
      exact ih False.elim (fun _ _ => False.elim) (fun _ _ => False.elim) trivial
  | readContent _ _ _ _ ih =>
      have hmid := ih False.elim (fun _ _ => False.elim) (fun _ _ => False.elim) trivial
      exact hmid.content hA _ _ _ _
  | wrote hfile hwrite =>
      obtain ⟨hans, rfl⟩ := Conn.write_eq hwrite
      obtain ⟨f, m, f', m', hnode, hview⟩ := hord (hwritable trivial) _ ⟨_, hfile, rfl⟩ _ hans
      rw [Conn.record_remote, hview]
      exact listings_touched hc.listings hnode rfl (by simp)
        (fun _ => entry_invalidateContent_ne_none)
  | released => exact hc.listings
  | created hres hcreate _ =>
      obtain ⟨hpath, hjoin⟩ := resolve_ok hres
      obtain ⟨hans, rfl⟩ := Conn.create_eq hcreate
      obtain ⟨f, m, hnone, -, hview⟩ :=
        hord (hwritable trivial) _ ⟨_, childPath_of_resolve hres, rfl⟩ _ hans
      rw [Conn.record_remote, hview]
      exact listings_made hc.listings (hc.nodes _ _ hpath) hjoin hnone _ _
  | madeDir hres hmkdir =>
      obtain ⟨hpath, hjoin⟩ := resolve_ok hres
      obtain ⟨hans, rfl⟩ := Conn.mkdir_eq hmkdir
      obtain ⟨hnone, -, hview⟩ :=
        hord (hwritable trivial) _ ⟨_, childPath_of_resolve hres, rfl⟩ _ hans
      rw [Conn.record_remote, hview]
      exact listings_made hc.listings (hc.nodes _ _ hpath) hjoin hnone _ _
  | unlinked hres hunlink =>
      obtain ⟨hpath, hjoin⟩ := resolve_ok hres
      obtain ⟨hans, rfl⟩ := Conn.unlink_eq hunlink
      obtain ⟨f, m, -, hview⟩ :=
        hord (hwritable trivial) _ ⟨_, childPath_of_resolve hres, rfl⟩ hans
      simp only [forget, Conn.record_remote, hview]
      exact listings_forgotten hc.listings (hc.nodes _ _ hpath) hjoin
  | removedDir hres hrmdir =>
      obtain ⟨hpath, hjoin⟩ := resolve_ok hres
      obtain ⟨hans, rfl⟩ := Conn.rmdir_eq hrmdir
      obtain ⟨-, -, hview⟩ := hord (hwritable trivial) _ ⟨_, childPath_of_resolve hres, rfl⟩ hans
      simp only [forget, Conn.record_remote, hview]
      exact listings_forgotten hc.listings (hc.nodes _ _ hpath) hjoin
  | renamed hres hrename =>
      obtain ⟨hsrc, hdst⟩ := childPath_of_resolveRename hres
      exact hc.renamed (hord (hwritable trivial) _ ⟨_, _, hsrc, hdst, rfl⟩) hres hrename
        (hcare _ _ _ _ hres (Conn.rename_eq hrename).1)
  | setattrDone _ hpath hset =>
      obtain ⟨hans, rfl⟩ := Conn.setattr_eq hset
      obtain ⟨node, node', hnode, hto, -, hview⟩ :=
        hord (hwritable trivial) _ ⟨_, hpath, rfl⟩ _ hans
      rw [Conn.record_remote, hview]
      exact listings_touched hc.listings hnode (SetTo.kind_eq hto) (by simp)
        (fun _ => entry_putAttrs_ne_none)

/-- The condition on the steps of a run. -/
structure ListingsSheltered (R : RemoteFilesystem ρ) (view : ρ → Tree) (w : World ρ)
    (e : Event ρ) : Prop where
  exclusive : Exclusive e
  orderly : w.Orderly R view e
  failsUnlisted : w.FailsUnlisted R view e
  careful : w.ListingsCareful R view e

lemma listingsCoherent_step (hA : StatsTree R view) (hL : ListsChildren R view) (w : World ρ)
    (e : Event ρ) (hcond : w.ListingsSheltered R view e) (h : ListingsCoherent view w) :
    ListingsCoherent view (w.step R e) := by
  cases e with
  | call call =>
      by_cases hdenied : call.Mutates ∧ w.config.readOnly = true
      · show ListingsCoherent view (w.exec R call)
        rw [exec_of_readOnly R hdenied.2 hdenied.1]
        exact h
      · have hwritable : call.Mutates → w.config.readOnly = false := fun hmut =>
          Bool.eq_false_iff.mpr fun hro => hdenied ⟨hmut, hro⟩
        have hout := outcome_exec R w call
        have hconfig := (grows_outcome hout).2
        refine ⟨?_, nodesUnderRoot_outcome hout h.nodes, ?_⟩
        · have honline := h.online
          simp only [offline, step, hconfig] at honline ⊢
          exact honline
        · simp only [step, hconfig]
          exact listings_outcome hA hL hout hwritable hcond.orderly hcond.failsUnlisted
            hcond.careful h
  | tick d => exact ⟨h.online, h.nodes, h.listings⟩
  | external remote => exact hcond.exclusive.elim
  | restart config => exact hcond.exclusive.elim

lemma listingsCoherent_new {config : Config} (honline : config.cacheMode ≠ .offline)
    (conn : Conn ρ) : ListingsCoherent view (World.new config Disk.empty conn) where
  online := decide_eq_false honline
  nodes := nodesUnderRoot_new config Disk.empty conn
  listings := fun key names h => by cases h

/-! ## Exact listings -/

/-- If all cached names have entries, none is skipped. -/
lemma cachedChildren_all {path : RemotePath} {s : Store} {names : List Str}
    {children : List (Str × RemotePath × FileAttributes)}
    (hentries : ∀ name ∈ names, s.entry (childKey path.asStr name) ≠ none)
    (h : cachedChildren path s names = some children) : children.map Prod.fst = names := by
  induction names generalizing children with
  | nil =>
      cases h
      rfl
  | cons name names ih =>
      unfold cachedChildren at h
      split at h
      · cases h
      · next child hjoin =>
          split at h
          · cases h
          · next rest hrest =>
              have hnames := ih (fun x hx => hentries x (List.mem_cons_of_mem _ hx)) hrest
              split at h
              · cases h
                rw [List.map_cons, hnames]
              · next hno =>
                  obtain ⟨-, hkey⟩ := RemotePath.join_ok_iff.mp hjoin
                  rw [Store.getAttrs_eq, Option.map_eq_none_iff, hkey] at hno
                  exact absurd hno (hentries name List.mem_cons_self)

/-- `readdir` lists exactly the names that the directory at the node's path has. -/
def ListingTransparent (R : RemoteFilesystem ρ) (view : ρ → Tree) (w : World ρ) :
    Event ρ → Prop
  | .call (.readdir node) => ∀ result, (w.readdir R node).1 = .ok result →
      ∃ path, w.state.path node = some path ∧
        ListsExactly (view w.conn.remote) path.asStr (result.map DirectoryEntry.name)
  | _ => True

lemma ListingsCoherent.transparent (hA : StatsTree R view) (hL : ListsChildren R view)
    {w : World ρ} (h : ListingsCoherent view w) (e : Event ρ) (hord : w.Orderly R view e) :
    w.ListingTransparent R view e := by
  cases e with
  | call call =>
      cases call with
      | readdir node =>
          intro result hok
          obtain ⟨path, hpath, ⟨-, w', hcache, -⟩ | ⟨hcache, entries, hans, -, hresult, -⟩⟩ :=
            readdir_ok (fun p r m => hA.readDir_reachable p r m) h.online hok
          · refine ⟨path, hpath, ?_⟩
            obtain ⟨names, children, hnames, hchildren, rfl, -⟩ := readdirFromCache_ok hcache
            obtain ⟨-, hexact, hentries⟩ := h.listings _ names hnames
            rw [internChildren_names, cachedChildren_all hentries hchildren]
            exact hexact
          · refine ⟨path, hpath, ?_⟩
            have hnames := congrArg (List.map Prod.fst) hresult
            rw [List.map_map] at hnames
            have hexact := listsExactly_readDir hL (hord path hpath hcache) hans
            rwa [← hnames] at hexact
      | _ => trivial
  | _ => trivial

/-- **Listings are transparent** in every run of an online mount that starts with an empty cache
and has the remote to itself, at every TTL, if every step meets the conditions. -/
theorem listing_transparent (hA : StatsTree R view) (hL : ListsChildren R view) (config : Config)
    (honline : config.cacheMode ≠ .offline) (conn : Conn ρ) (es : List (Event ρ))
    (hsheltered : AllSteps (step R) (ListingsSheltered R view)
      (World.new config Disk.empty conn) es) :
    AllSteps (step R) (ListingTransparent R view) (World.new config Disk.empty conn) es :=
  allSteps_of_invariant (listingsCoherent_step hA hL)
    (fun _ e hcond h => h.transparent hA hL e hcond.orderly) (listingsCoherent_new honline conn)
    hsheltered

/-- A directory is made, renamed while nothing is known of its content, filled and listed. -/
def renameThenList : List (Event Memory) :=
  [.call (.mkdir .root ['d'] 0), .call (.rename .root ['d'] .root ['e']),
    .call (.create ⟨2⟩ ['x'] 0 {}), .call (.readdir ⟨2⟩), .call (.readdir ⟨2⟩)]

theorem listing_transparent_renameThenList :
    AllSteps (step Memory.filesystem) (ListingTransparent Memory.filesystem Memory.tree)
      (mount sampleTree 100) renameThenList := by
  have hsheltered : ∀ {w : World Memory} {e : Event Memory}, Exclusive e →
      w.ListingsCareful Memory.filesystem Memory.tree e →
      w.ListingsSheltered Memory.filesystem Memory.tree e :=
    fun hexclusive hcareful => ⟨hexclusive, orderly_of_mutates Memory.answers Memory.mutates _ _,
      failsUnlisted_of_mutates Memory.mutates _ _, hcareful⟩
  refine listing_transparent Memory.statsTree Memory.listsChildren _ (by decide) _ _
    ⟨hsheltered trivial trivial, hsheltered trivial ?_, hsheltered trivial trivial,
      hsheltered trivial trivial, hsheltered trivial trivial, trivial⟩
  intro srcParent dstParent src dst hres hok
  exact ⟨fun names h => (by cases h), fun _ h => absurd rfl h, fun key _ h => absurd rfl h⟩

/-- A directory with a file in it is listed, renamed, and looked up at its new name. -/
def listThenRename : List (Event Memory) :=
  [.call (.mkdir .root ['d'] 0), .call (.create ⟨2⟩ ['x'] 0 {}), .call (.readdir ⟨2⟩),
    .call (.rename .root ['d'] .root ['e']), .call (.lookup .root ['e'])]

/-- The listing moves with the directory, the entries of its children do not, and a name without
an entry is skipped: `readdir` returns nothing where the remote has a file. -/
theorem rename_empties_listing :
    (∀ e ∈ listThenRename, Exclusive e) ∧
    ¬ ListingTransparent Memory.filesystem Memory.tree
      (run (step Memory.filesystem) (mount sampleTree 100) listThenRename)
      (.call (.readdir ⟨2⟩)) := by
  constructor
  · simp [listThenRename, Exclusive]
  · intro h
    obtain ⟨path, hpath, hexact⟩ := h [] (by decide)
    have hroot : (run (step Memory.filesystem) (mount sampleTree 100)
        listThenRename).state.path ⟨2⟩ = some ⟨['/', 'e'], by decide⟩ := by decide
    rw [hroot] at hpath
    cases hpath
    exact absurd ((hexact.mem ['x']).mpr (by decide)) (by simp)

end World

end CacheShfs
