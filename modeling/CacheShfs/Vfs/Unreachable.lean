import CacheShfs.Store.Offline
import CacheShfs.Vfs.Run

/-!
# A mount without its remote

What `lookup`, `getattr`, `readdir` and `read` answer when every call to the remote fails.  An
online mount asks the remote first and falls back to the store if the error says that it is
unreachable; an offline mount goes to the store at once.  The two agree (`degrades_offline`): the
online mount fails only where the offline one does, and leaves the cache as it is.
-/

namespace CacheShfs

/-- An answer beside that of an offline mount: both succeed, and with the same, or the first one
reports that the remote is unreachable. -/
def Degrades {α β : Type} (same : α → β → Prop) : Except Error α → Except Error β → Prop
  | .ok a, .ok b => same a b
  | .error e, .error _ => isUnreachable e = true
  | _, _ => False

lemma Degrades.eq_ok {α : Type} {x : Except Error α} {d : α} (h : Degrades Eq x (.ok d)) :
    x = .ok d := by
  cases x with
  | ok a => exact congrArg Except.ok h
  | error e => exact h.elim

/-- A directory entry without the node, which is the mount's own. -/
def DirectoryEntry.shown (e : DirectoryEntry) : Str × FileAttributes :=
  (e.name, e.metadata.attributes)

namespace World

open Machine

variable {ρ : Type} {R : RemoteFilesystem ρ} {w : World ρ}

/-! ## What the store alone answers -/

/-- The listing that the store has for a directory. -/
def cachedListing (path : RemotePath) (s : Store) : Option (List (Str × FileAttributes)) :=
  ((s.getChildren path).bind (cachedChildren path s)).map fun children =>
    children.map fun c => (c.1, c.2.2)

lemma cachedChildren_congr {s s' : Store} {path : RemotePath}
    (h : ∀ name child, path.join name = .ok child → s'.getAttrs child = s.getAttrs child)
    (names : List Str) : cachedChildren path s' names = cachedChildren path s names := by
  induction names with
  | nil => rfl
  | cons name names ih =>
      unfold cachedChildren
      split
      · rfl
      · next child hjoin => rw [ih, h name child hjoin]

lemma cachedListing_congr {s s' : Store} (h : s.SameCache s') (path : RemotePath) :
    cachedListing path s' = cachedListing path s := by
  have hchildren : cachedChildren path s' = cachedChildren path s :=
    funext (cachedChildren_congr fun _ child _ => h.getAttrs child)
  rw [cachedListing, Store.getChildren_eq, h.listing, hchildren]
  rfl

lemma internChildren_shown (children : List (Str × RemotePath × FileAttributes)) (st : State) :
    (internChildren children st).1.map DirectoryEntry.shown =
      children.map fun c => (c.1, c.2.2) := by
  induction children generalizing st with
  | nil => rfl
  | cons c rest ih =>
      obtain ⟨name, child, attributes⟩ := c
      have hrest := ih (st.intern child).2
      simp only [internChildren, List.map_cons, hrest]
      rfl

/-- A listing from the cache shows what the store has, and changes the registry only. -/
lemma readdirFromCache_cases (w : World ρ) (path : RemotePath) :
    (w.readdirFromCache path = none ∧ cachedListing path w.store = none) ∨
      ∃ entries st, w.readdirFromCache path = some (entries, { w with state := st }) ∧
        cachedListing path w.store = some (entries.map DirectoryEntry.shown) := by
  unfold readdirFromCache cachedListing
  cases hnames : w.store.getChildren path with
  | none => exact .inl ⟨rfl, rfl⟩
  | some names =>
      cases hchildren : cachedChildren path w.store names with
      | none => exact .inl ⟨by simp [hchildren], by simp [hchildren]⟩
      | some children =>
          refine .inr ⟨(internChildren children w.state).1, (internChildren children w.state).2,
            by simp [hchildren], ?_⟩
          rw [internChildren_shown]
          simp [hchildren]

/-! ## One call -/

section Online
variable (hR : R.Fails fun e => isUnreachable e = true) (hmode : w.config.cacheMode = .onDemand)
include hR hmode

/-- A metadata answer without the remote: what the store has, or the remote's error. -/
lemma lookup_unreachable {n : NodeId} {name : Str} {child : RemotePath}
    (hchild : w.childPath n name = .ok child) (hneg : w.freshNegative n name = false) :
    (w.lookup R n name).2.store = w.store ∧
      ((∃ m, (w.lookup R n name).1 = .ok m ∧ w.store.getAttrs child = some m.attributes) ∨
        (∃ e, isUnreachable e = true ∧ (w.lookup R n name).1 = .error e) ∧
          w.store.getAttrs child = none) := by
  have honline : w.offline = false := by simp [offline, hmode]
  obtain ⟨e, he, hstat⟩ := hR.stat child w.conn.remote
  have hanswer : w.conn.stat R child = (.error e, (w.conn.stat R child).2) := Prod.ext hstat rfl
  simp only [lookup, hchild, hneg, Bool.false_eq_true, if_false]
  cases hfresh : w.freshAttrs child with
  | some attributes =>
      exact ⟨rfl, .inl ⟨_, rfl, (freshAttrs_eq_some.mp hfresh).2⟩⟩
  | none =>
      simp only [honline, Bool.false_eq_true, if_false, lookupRemote]
      rw [hanswer]
      cases e <;> simp only [isUnreachable, Bool.false_eq_true] at he
      cases hattrs : w.store.getAttrs child with
      | some attributes => exact ⟨rfl, .inl ⟨_, rfl, rfl⟩⟩
      | none => exact ⟨rfl, .inr ⟨⟨_, rfl, rfl⟩, rfl⟩⟩

lemma getattr_unreachable {n : NodeId} {path : RemotePath} (hpath : w.state.path n = some path) :
    (w.getattr R n).2.store = w.store ∧
      ((∃ a, (w.getattr R n).1 = .ok ⟨n, a⟩ ∧ w.store.getAttrs path = some a) ∨
        (∃ e, isUnreachable e = true ∧ (w.getattr R n).1 = .error e) ∧
          w.store.getAttrs path = none) := by
  have honline : w.offline = false := by simp [offline, hmode]
  obtain ⟨e, he, hstat⟩ := hR.stat path w.conn.remote
  have hanswer : w.conn.stat R path = (.error e, (w.conn.stat R path).2) := Prod.ext hstat rfl
  simp only [getattr, State.pathOf_ok.mpr hpath]
  cases hfresh : w.freshAttrs path with
  | some attributes =>
      exact ⟨rfl, .inl ⟨_, rfl, (freshAttrs_eq_some.mp hfresh).2⟩⟩
  | none =>
      simp only [honline, Bool.false_eq_true, if_false, getattrRemote]
      rw [hanswer]
      cases e <;> simp only [isUnreachable, Bool.false_eq_true] at he
      cases hattrs : w.store.getAttrs path with
      | some attributes => exact ⟨rfl, .inl ⟨_, rfl, rfl⟩⟩
      | none => exact ⟨rfl, .inr ⟨⟨_, rfl, rfl⟩, rfl⟩⟩

lemma readdir_unreachable {n : NodeId} {path : RemotePath} (hpath : w.state.path n = some path) :
    (w.readdir R n).2.store = w.store ∧
      ((∃ entries, (w.readdir R n).1 = .ok entries ∧
          cachedListing path w.store = some (entries.map DirectoryEntry.shown)) ∨
        (∃ e, isUnreachable e = true ∧ (w.readdir R n).1 = .error e) ∧
          cachedListing path w.store = none) := by
  have honline : w.offline = false := by simp [offline, hmode]
  obtain ⟨e, he, hread⟩ := hR.readDir path w.conn.remote
  have hanswer : w.conn.readDir R path = (.error e, (w.conn.readDir R path).2) :=
    Prod.ext hread rfl
  simp only [readdir, State.pathOf_ok.mpr hpath]
  cases hcache : (if w.metadataFresh path then w.readdirFromCache path else none) with
  | some x =>
      split at hcache
      · rcases readdirFromCache_cases w path with ⟨hnone, -⟩ | ⟨entries, st, hsome, hlist⟩
        · rw [hnone] at hcache
          cases hcache
        · rw [hsome] at hcache
          cases hcache
          exact ⟨rfl, .inl ⟨entries, rfl, hlist⟩⟩
      · cases hcache
  | none =>
      -- the cache is asked again after the remote has failed, whether the listing is fresh or not
      simp only [honline, Bool.false_eq_true, if_false, readdirRemote]
      rw [hanswer]
      simp only [he, if_true]
      rcases readdirFromCache_cases { w with conn := (w.conn.readDir R path).2 } path with
        ⟨hnone, hlist⟩ | ⟨entries, st, hsome, hlist⟩
      · rw [hnone]
        exact ⟨rfl, .inr ⟨⟨e, he, rfl⟩, hlist⟩⟩
      · rw [hsome]
        exact ⟨rfl, .inl ⟨entries, rfl, hlist⟩⟩

lemma read_unreachable (hlabel : w.store.Labelled) (hobjects : w.store.ObjectsExist)
    {handle : FileHandle} {n : NodeId} {path : RemotePath} (hpath : w.state.path n = some path)
    (hfile : w.state.file handle = some ⟨n, path⟩) {offset : UInt64} {size : UInt32}
    (hsize : size ≠ 0) (hinside : ∀ a, w.store.getAttrs path = some a → offset < a.size) :
    w.store.SameCache (w.read R handle offset size).2.store ∧
      ((∃ d, (w.read R handle offset size).1 = .ok d ∧
          w.store.readCached path offset size = .ok d) ∨
        (∃ e, isUnreachable e = true ∧ (w.read R handle offset size).1 = .error e) ∧
          w.store.readCached path offset size = .error notCached) := by
  simp only [World.read, hfile, hmode, World.readContent]
  obtain ⟨hstore, ⟨a, hget, hattrs⟩ | ⟨⟨e, he, hget⟩, hattrs⟩⟩ := getattr_unreachable hR hmode hpath
  · rw [show w.getattr R n = (.ok ⟨n, a⟩, (w.getattr R n).2) from Prod.ext hget rfl]
    simp only
    rw [hstore]
    refine Store.read_refused hobjects (fun o n => hR.read path o n _) (fun content hcontent => ?_)
      hsize (hinside a hattrs)
    -- the attributes are those of the entry that has the content
    obtain ⟨entry, hentry, hc⟩ := Option.bind_eq_some_iff.mp hcontent
    rw [Store.getAttrs_eq, hentry] at hattrs
    cases hattrs
    exact hlabel path.asStr entry content hentry hc
  · rw [show w.getattr R n = (.error e, (w.getattr R n).2) from Prod.ext hget rfl]
    simp only
    rw [hstore]
    refine ⟨.refl _, .inr ⟨⟨e, he, rfl⟩, ?_⟩⟩
    have hnone : w.store.entry path.asStr = none := by
      rw [Store.getAttrs_eq, Option.map_eq_none_iff] at hattrs
      exact hattrs
    simp [Store.readCached, Store.content, hnone]

end Online

/-! ## The offline mount -/

section Offline
variable {v : World ρ} (hmode : v.config.cacheMode = .offline)
include hmode

lemma lookup_offline {n : NodeId} {name : Str} {child : RemotePath}
    (hchild : v.childPath n name = .ok child) (hneg : v.freshNegative n name = false) :
    (∃ m, (v.lookup R n name).1 = .ok m ∧ v.store.getAttrs child = some m.attributes) ∨
      (∃ e, (v.lookup R n name).1 = .error e) ∧ v.store.getAttrs child = none := by
  have hoff : v.offline = true := by simp [offline, hmode]
  have hfresh : v.freshAttrs child = v.store.getAttrs child := by
    simp [freshAttrs, metadataFresh, hoff]
  simp only [lookup, hchild, hneg, Bool.false_eq_true, if_false, hfresh]
  cases hattrs : v.store.getAttrs child with
  | some attributes => exact .inl ⟨_, rfl, rfl⟩
  | none => exact .inr ⟨⟨.notFound, by simp [hoff]⟩, rfl⟩

lemma getattr_offline {n : NodeId} {path : RemotePath} (hpath : v.state.path n = some path) :
    (∃ a, (v.getattr R n).1 = .ok ⟨n, a⟩ ∧ v.store.getAttrs path = some a) ∨
      (∃ e, (v.getattr R n).1 = .error e) ∧ v.store.getAttrs path = none := by
  have hoff : v.offline = true := by simp [offline, hmode]
  have hfresh : v.freshAttrs path = v.store.getAttrs path := by
    simp [freshAttrs, metadataFresh, hoff]
  simp only [getattr, State.pathOf_ok.mpr hpath, hfresh]
  cases hattrs : v.store.getAttrs path with
  | some attributes => exact .inl ⟨_, rfl, rfl⟩
  | none => exact .inr ⟨⟨.notFound, by simp [hoff]⟩, rfl⟩

lemma readdir_offline {n : NodeId} {path : RemotePath} (hpath : v.state.path n = some path) :
    (∃ entries, (v.readdir R n).1 = .ok entries ∧
        cachedListing path v.store = some (entries.map DirectoryEntry.shown)) ∨
      (∃ e, (v.readdir R n).1 = .error e) ∧ cachedListing path v.store = none := by
  have hoff : v.offline = true := by simp [offline, hmode]
  have hfresh : v.metadataFresh path = true := by simp [metadataFresh, hoff]
  simp only [readdir, State.pathOf_ok.mpr hpath, hfresh, if_true]
  rcases readdirFromCache_cases v path with ⟨hnone, hlist⟩ | ⟨entries, st, hsome, hlist⟩
  · rw [hnone]
    exact .inr ⟨⟨.notFound, by simp [hoff]⟩, hlist⟩
  · rw [hsome]
    exact .inl ⟨entries, rfl, hlist⟩

lemma read_offline {handle : FileHandle} {file : OpenFile}
    (hfile : v.state.file handle = some file) (offset : UInt64) (size : UInt32) :
    (v.read R handle offset size).1 = v.store.readCached file.path offset size := by
  simp only [World.read, hfile, hmode]

end Offline

/-! ## The same view -/

/-- Two answers that are both what the store has, in the sense of `shown`. -/
lemma degrades_of_shown {α β γ : Type} {same : α → β → Prop} {f : α → γ} {g : β → γ}
    (hsame : ∀ a b, f a = g b → same a b) {x y : Option γ} (hxy : y = x)
    {online : Except Error α} {offline : Except Error β}
    (honline : (∃ a, online = .ok a ∧ x = some (f a)) ∨
      (∃ e, isUnreachable e = true ∧ online = .error e) ∧ x = none)
    (hoffline : (∃ b, offline = .ok b ∧ y = some (g b)) ∨
      (∃ e, offline = .error e) ∧ y = none) : Degrades same online offline := by
  subst hxy
  rcases honline with ⟨a, rfl, ha⟩ | ⟨⟨e, he, rfl⟩, hx⟩ <;>
    rcases hoffline with ⟨b, rfl, hb⟩ | ⟨⟨e', rfl⟩, hy⟩
  · refine hsame a b ?_
    rw [ha] at hb
    exact Option.some.inj hb
  · rw [ha] at hy
    cases hy
  · rw [hx] at hb
    cases hb
  · exact he

/-- **An unreachable mount degrades to the offline one.**  Over a store whose content references
have the versions of their entries and whose objects exist, an on-demand mount all of whose calls
to the remote fail as unreachable answers `lookup`, `getattr`, `readdir` and reads inside the file
as an offline mount of the same store does, whatever its clock, its freshness stamps and its
registry are; where the offline mount fails, it reports the remote's error; and the entries, the
listings and the objects stay as they are. -/
theorem degrades_offline {ρ' : Type} (R' : RemoteFilesystem ρ') {v : World ρ'}
    (hR : R.Fails fun e => isUnreachable e = true) (hmode : w.config.cacheMode = .onDemand)
    (hoffline : v.config.cacheMode = .offline) (hstore : w.store.SameCache v.store)
    (hlabel : w.store.Labelled) (hobjects : w.store.ObjectsExist) {n m : NodeId}
    {path : RemotePath} (hn : w.state.path n = some path) (hm : v.state.path m = some path) :
    (∀ name, ValidComponent name → w.freshNegative n name = false →
      v.freshNegative m name = false →
      Degrades (fun a b => a.attributes = b.attributes) (w.lookup R n name).1
          (v.lookup R' m name).1 ∧
        w.store.SameCache (w.lookup R n name).2.store) ∧
    (Degrades (fun a b => a.attributes = b.attributes) (w.getattr R n).1 (v.getattr R' m).1 ∧
      w.store.SameCache (w.getattr R n).2.store) ∧
    (Degrades (fun a b => a.map DirectoryEntry.shown = b.map DirectoryEntry.shown)
        (w.readdir R n).1 (v.readdir R' m).1 ∧
      w.store.SameCache (w.readdir R n).2.store) ∧
    ∀ h g offset size, w.state.file h = some ⟨n, path⟩ → v.state.file g = some ⟨m, path⟩ →
      size ≠ 0 → (∀ a, w.store.getAttrs path = some a → offset < a.size) →
      Degrades Eq (w.read R h offset size).1 (v.read R' g offset size).1 ∧
        w.store.SameCache (w.read R h offset size).2.store := by
  have hattrs := hstore.getAttrs
  refine ⟨fun name hname hneg hneg' => ?_, ?_, ?_, fun h g offset size hh hg hsize hinside => ?_⟩
  · have hchild : w.childPath n name = .ok (path.child name hname) :=
      childPath_ok.mpr ⟨path, hn, path.join_eq_ok hname⟩
    have hchild' : v.childPath m name = .ok (path.child name hname) :=
      childPath_ok.mpr ⟨path, hm, path.join_eq_ok hname⟩
    obtain ⟨hkept, hlookup⟩ := lookup_unreachable hR hmode hchild hneg
    refine ⟨degrades_of_shown (fun _ _ => id) (hattrs _) hlookup
      (lookup_offline hoffline hchild' hneg'), ?_⟩
    rw [hkept]
    exact .refl _
  · obtain ⟨hkept, hget⟩ := getattr_unreachable hR hmode hn
    have hoff := getattr_offline (R := R') hoffline hm
    refine ⟨degrades_of_shown (f := FileMetadata.attributes) (g := FileMetadata.attributes)
      (fun _ _ => id) (hattrs path) ?_ ?_, by rw [hkept]; exact .refl _⟩
    · exact hget.imp_left fun ⟨a, h₁, h₂⟩ => ⟨⟨n, a⟩, h₁, h₂⟩
    · exact hoff.imp_left fun ⟨a, h₁, h₂⟩ => ⟨⟨m, a⟩, h₁, h₂⟩
  · obtain ⟨hkept, hread⟩ := readdir_unreachable hR hmode hn
    refine ⟨degrades_of_shown (fun _ _ => id) (cachedListing_congr hstore path) hread
      (readdir_offline hoffline hm), ?_⟩
    rw [hkept]
    exact .refl _
  · obtain ⟨hkept, hread⟩ := read_unreachable hR hmode hlabel hobjects hn hh hsize hinside
    refine ⟨?_, hkept⟩
    rw [read_offline hoffline hg, hstore.readCached]
    rcases hread with ⟨d, hd, hcached⟩ | ⟨⟨e, he, herr⟩, hcached⟩
    · rw [hd, hcached]
      rfl
    · rw [herr, hcached]
      exact he

/-! A directory in which `/a` is hydrated, mounted on-demand and offline without a remote. -/

def hydratedAttrs : FileAttributes := ⟨.file, 3, 0o644, 0, 0, none, none, none⟩

def hydratedDisk : Disk where
  index := some ⟨1, AList.insert ['/', 'a'] ⟨.ofAttributes hydratedAttrs,
    some ⟨3, none, 4, AList.insert 0 0 ∅, none⟩⟩ ∅, ∅⟩
  objects := AList.insert 0 [1, 2, 3] ∅
  temps := ∅

/-- The mount after `/a` has been looked up and opened. -/
def hydratedMount (mode : CacheMode) : World Unit :=
  run (step (disconnectedRemote Unit))
    (World.new ⟨.root, false, mode, 0, 4⟩ hydratedDisk ⟨(), 0, []⟩)
    [.call (.lookup .root ['a']), .call (.openFile ⟨2⟩ { read := true })]

lemma disconnectedRemote_fails (ρ : Type) :
    (disconnectedRemote ρ).Fails fun e => isUnreachable e = true where
  stat _ _ := ⟨disconnected, rfl, rfl⟩
  readDir _ _ := ⟨disconnected, rfl, rfl⟩
  read _ _ _ _ := ⟨disconnected, rfl, rfl⟩

lemma hydratedMount_entry (key : Str) :
    (hydratedMount .onDemand).store.entry key =
      if key = ['/', 'a'] then some ⟨.ofAttributes hydratedAttrs,
        some ⟨3, none, 4, AList.insert 0 0 ∅, none⟩⟩ else none :=
  FMap.lookup_insert_eq_ite _ _ _ _

theorem degrades_offline_hydrated :
    ((hydratedMount .onDemand).read (disconnectedRemote Unit) ⟨1⟩ 1 9).1 = .ok [2, 3] := by
  have hlabel : (hydratedMount .onDemand).store.Labelled := by
    intro key e c he hc
    rw [hydratedMount_entry] at he
    split at he
    · cases he
      cases hc
      exact ⟨rfl, rfl⟩
    · cases he
  have hobjects : (hydratedMount .onDemand).store.ObjectsExist := by
    intro key c o hc ho
    rw [Store.content, hydratedMount_entry] at hc
    split at hc
    · cases hc
      have hzero : o = 0 := by simpa [contentObjects, FMap.values] using ho
      rw [hzero]
      exact Option.some_ne_none [1, 2, 3]
    · cases hc
  have hn : (hydratedMount .onDemand).state.path ⟨2⟩ = some pathA := rfl
  have hm : (hydratedMount .offline).state.path ⟨2⟩ = some pathA := rfl
  have hdegrades := (degrades_offline (disconnectedRemote Unit) (w := hydratedMount .onDemand)
    (v := hydratedMount .offline) (disconnectedRemote_fails Unit) rfl rfl
    ⟨rfl, fun _ => rfl, fun _ => rfl, fun _ => rfl⟩ hlabel hobjects hn hm).2.2.2
      ⟨1⟩ ⟨1⟩ 1 9 rfl rfl (by decide) ?_
  · have hoff : ((hydratedMount .offline).read (disconnectedRemote Unit) ⟨1⟩ 1 9).1 =
        .ok [2, 3] := by decide
    rw [hoff] at hdegrades
    exact hdegrades.1.eq_ok
  · intro a ha
    cases ha
    decide

end World

end CacheShfs
