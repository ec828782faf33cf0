import CacheShfs.Store.Shown
import CacheShfs.Vfs.Hydrate

/-!
# What a mount takes from its cache directory

Two mounts of one root with the same configuration, the same connection and the same calls differ
only in their cache directories.  While the two directories show the same for the paths of the
mount, every call answers the same and leaves two directories of which this is true again
(`Alike`); so the two mounts answer alike over every run (`replies_eq_of_sameBelow`).

There is one lemma for each call.  Most calls use the store only to change it.
-/

namespace CacheShfs

open Machine

/-- What a `lookup` or `getattr`, a `readdir` or a `read` returns. -/
inductive Reply
  | metadata (result : Except Error FileMetadata)
  | entries (result : Except Error (List DirectoryEntry))
  | data (result : Except Error Bytes)
  deriving DecidableEq

namespace World

variable {ρ : Type} {R : RemoteFilesystem ρ} {w w' : World ρ}

/-- The results of an event that are compared. -/
def reply (R : RemoteFilesystem ρ) (w : World ρ) : Event ρ → List Reply
  | .call (.lookup parent name) => [.metadata (w.lookup R parent name).1]
  | .call (.getattr node) => [.metadata (w.getattr R node).1]
  | .call (.readdir node) => [.entries (w.readdir R node).1]
  | .call (.read handle offset size) => [.data (w.read R handle offset size).1]
  | _ => []

/-- The results over a run. -/
def replies (R : RemoteFilesystem ρ) (w : World ρ) (es : List (Event ρ)) : List Reply :=
  outputs (step R) (reply R) w es

/-! ## The paths of a mount -/

/-- The nodes and the handles of a mount have paths that it reaches. -/
structure Within (w : World ρ) : Prop where
  nodes : ∀ n p, w.state.path n = some p → Descends w.config.root.asStr p.asStr
  files : ∀ h f, w.state.file h = some f → Descends w.config.root.asStr f.path.asStr

lemma within_new (config : Config) (disk : Disk) (conn : Conn ρ) :
    Within (World.new config disk conn) where
  nodes n p hp := by
    simp only [World.new, State.path, State.new, FMap.lookup_insert_eq_ite] at hp
    split at hp
    · cases hp
      exact .root
    · cases hp
  files h f hf := by cases hf

/-- A handle is opened at the path of a node. -/
lemma file_outcome {call : Call} (h : Outcome R w call w') {handle : FileHandle} {f : OpenFile}
    (hf : w'.state.file handle = some f) :
    w.state.file handle = some f ∨ (∃ n, w.state.path n = some f.path) ∨
      w.state.HasChild f.path := by
  induction h with
  | known hst => exact .inl ((hst.file handle).symm.trans hf)
  | failed _ hst => exact .inl ((hst.file handle).symm.trans hf)
  | lookupFound _ _ _ _ _ =>
      rw [State.file_intern] at hf
      exact .inl hf
  | listed _ _ _ _ hst => exact .inl (((stampedBy_of_eq hst).file handle).symm.trans hf)
  | listedPartly _ _ _ _ hst => exact .inl (((stampedBy_of_eq hst).file handle).symm.trans hf)
  | opened hpath =>
      rw [State.file_openHandle] at hf
      split at hf
      · cases hf
        exact .inr (.inl ⟨_, hpath⟩)
      · exact .inl hf
  | truncated _ hpath _ =>
      rw [State.file_openHandle] at hf
      split at hf
      · cases hf
        exact .inr (.inl ⟨_, hpath⟩)
      · exact .inl hf
  | readRejected _ _ _ ih => exact ih hf
  | readContent _ _ _ _ ih => exact ih hf
  | released =>
      rw [State.file_close] at hf
      split at hf
      · cases hf
      · exact .inl hf
  | created hres _ hst =>
      obtain ⟨hpath, hjoin⟩ := resolve_ok hres
      have hsame := congrArg (fun x => x.2.file handle) hst
      rw [State.file_openHandle] at hf
      split at hf
      · cases hf
        exact .inr (.inr ⟨_, _, _, hpath, hjoin⟩)
      · simp only [State.file_intern] at hsame
        exact .inl (hsame.trans hf)
  | madeDir _ _ =>
      rw [State.file_intern] at hf
      exact .inl hf
  | renamed _ _ =>
      simp only [State.file_unnegate, State.file_negate, State.file_unstamp,
        State.file_renamePath] at hf
      exact .inl hf
  | _ => exact .inl hf

lemma within_outcome {call : Call} (h : Outcome R w call w') (hw : Within w) : Within w' := by
  have hchild : ∀ {p : RemotePath}, w.state.HasChild p → Descends w.config.root.asStr p.asStr := by
    rintro p ⟨n, q, name, hq, hjoin⟩
    exact (hw.nodes n q hq).join hjoin
  refine ⟨fun n p hp => ?_, fun handle f hf => ?_⟩
  · rw [(grows_outcome h).2]
    rcases path_outcome h hp with hold | hnew
    · exact hw.nodes n p hold
    · exact hchild hnew
  · rw [(grows_outcome h).2]
    rcases file_outcome h hf with hold | ⟨n, hnode⟩ | hnew
    · exact hw.files handle f hold
    · exact hw.nodes n f.path hnode
    · exact hchild hnew

/-! ## Two mounts -/

/-- The same mount over another store. -/
def withStore (store : Store) (w : World ρ) : World ρ := { w with store := store }

section
variable (s : Store) (w : World ρ)

@[simp] lemma withStore_config : (w.withStore s).config = w.config := rfl
@[simp] lemma withStore_store : (w.withStore s).store = s := rfl
@[simp] lemma withStore_state : (w.withStore s).state = w.state := rfl
@[simp] lemma withStore_conn : (w.withStore s).conn = w.conn := rfl
@[simp] lemma withStore_offline : (w.withStore s).offline = w.offline := rfl
@[simp] lemma withStore_ensureWritable : (w.withStore s).ensureWritable = w.ensureWritable := rfl

@[simp] lemma withStore_metadataFresh (path : RemotePath) :
    (w.withStore s).metadataFresh path = w.metadataFresh path := rfl

@[simp] lemma withStore_freshNegative (parent : NodeId) (name : Str) :
    (w.withStore s).freshNegative parent name = w.freshNegative parent name := rfl

@[simp] lemma withStore_childPath (parent : NodeId) (name : Str) :
    (w.withStore s).childPath parent name = w.childPath parent name := rfl

@[simp] lemma withStore_resolve (parent : NodeId) (name : Str) :
    (w.withStore s).resolve parent name = w.resolve parent name := rfl

@[simp] lemma withStore_resolveRename (parent : NodeId) (name : Str) (newParent : NodeId)
    (newName : Str) : (w.withStore s).resolveRename parent name newParent newName =
      w.resolveRename parent name newParent newName := rfl

end

/-- Two mounts that differ in their stores only, and the stores show the same for the paths of
the mount. -/
def Alike (w w' : World ρ) : Prop :=
  ∃ s', w' = w.withStore s' ∧
    Store.Agree (Descends w.config.root.asStr) w.config.root.asStr w.store s'

/-- The same answer, and two mounts that are alike. -/
def SameResult {α : Type} (x y : α × World ρ) : Prop := y.1 = x.1 ∧ Alike x.2 y.2

/-- Two mounts that are alike, with what is true of every mount. -/
structure Twins (w w' : World ρ) : Prop where
  alike : Alike w w'
  within : Within w
  durable : w.store.Durable
  durable' : w'.store.Durable

section
variable {s' : Store}
  (hs : Store.Agree (Descends w.config.root.asStr) w.config.root.asStr w.store s')
include hs

lemma freshAttrs_withStore {path : RemotePath} (hp : Descends w.config.root.asStr path.asStr) :
    (w.withStore s').freshAttrs path = w.freshAttrs path := by
  simp only [freshAttrs, withStore_metadataFresh, withStore_store, hs.getAttrs hp]

lemma sameResult_answerAs (path : RemotePath) (attributes : FileAttributes) :
    SameResult (answerAs path attributes w) (answerAs path attributes (w.withStore s')) :=
  ⟨rfl, s', rfl, hs⟩

/-- The answer of a call that has changed neither store. -/
lemma sameResult_same {α : Type} (answer : α) : SameResult (answer, w) (answer, w.withStore s') :=
  ⟨rfl, s', rfl, hs⟩

end

/-- A listing with a name that is no path component is not served. -/
lemma cachedChildren_usable (path : RemotePath) (s : Store) (names : Option (List Str)) :
    names.bind (cachedChildren path s) = (usable names).bind (cachedChildren path s) := by
  cases names with
  | none => rfl
  | some list =>
      rw [usable, Option.filter_some]
      split
      · rfl
      · next hall =>
          rw [Option.bind_some, Option.bind_none, Option.eq_none_iff_forall_ne_some]
          intro children hchildren
          exact hall (by simpa using cachedChildren_valid hchildren)

/-- A listing that one mount serves from its cache is one that the other serves. -/
lemma readdirFromCache_withStore {s' : Store}
    (hs : Store.Agree (Descends w.config.root.asStr) w.config.root.asStr w.store s')
    {path : RemotePath} (hp : Descends w.config.root.asStr path.asStr) (asked : Bool) :
    ((if asked then w.readdirFromCache path else none) = none ∧
        (if asked then (w.withStore s').readdirFromCache path else none) = none) ∨
      ∃ entries st,
        (if asked then w.readdirFromCache path else none) =
          some (entries, { w with state := st }) ∧
        (if asked then (w.withStore s').readdirFromCache path else none) =
          some (entries, withStore s' { w with state := st }) := by
  have heq : ∀ v : World ρ, v.readdirFromCache path =
      ((v.store.getChildren path).bind (cachedChildren path v.store)).map fun children =>
        ((internChildren children v.state).1,
          { v with state := (internChildren children v.state).2 }) := fun v => by
    unfold readdirFromCache
    cases v.store.getChildren path with
    | none => rfl
    | some names =>
        simp only [Option.bind_some]
        cases cachedChildren path v.store names <;> rfl
  have hsame : (s'.getChildren path).bind (cachedChildren path s') =
      (w.store.getChildren path).bind (cachedChildren path w.store) := by
    rw [cachedChildren_usable, cachedChildren_usable path w.store]
    have hlist : usable (s'.getChildren path) = usable (w.store.getChildren path) :=
      hs.usable_listing hp
    rw [hlist]
    congr 1
    exact funext (cachedChildren_congr fun name child hjoin => hs.getAttrs (hp.join hjoin))
  cases asked with
  | false => exact .inl ⟨rfl, rfl⟩
  | true =>
      rw [heq, heq, withStore_store, hsame]
      cases (w.store.getChildren path).bind (cachedChildren path w.store) with
      | none => exact .inl ⟨rfl, rfl⟩
      | some children => exact .inr ⟨_, _, rfl, rfl⟩

namespace Twins

section
variable (h : Twins w w')
include h

lemma lookup (parent : NodeId) (name : Str) :
    SameResult (w.lookup R parent name) (w'.lookup R parent name) := by
  obtain ⟨⟨s', rfl, hs⟩, hw, hd, hd'⟩ := h
  unfold World.lookup
  rw [withStore_childPath]
  cases hchild : w.childPath parent name with
  | error e => exact sameResult_same hs _
  | ok child =>
      obtain ⟨q, hq, hjoin⟩ := childPath_ok.mp hchild
      have hp := (hw.nodes parent q hq).join hjoin
      simp only
      rw [withStore_freshNegative, freshAttrs_withStore hs hp, withStore_offline]
      split
      · exact sameResult_same hs _
      · split
        · exact sameResult_answerAs hs _ _
        · split
          · exact sameResult_same hs _
          · unfold lookupRemote
            simp only [withStore_conn, withStore_store, withStore_state, hs.getAttrs hp]
            split
            · next attributes conn _ =>
                exact ⟨rfl, _, rfl, hs.putAttrs hd.1 hd'.1 hp attributes⟩
            · exact ⟨rfl, _, rfl, hs.remove hd.1 hd'.1⟩
            · split
              · split
                · exact ⟨rfl, _, rfl, hs⟩
                · exact ⟨rfl, _, rfl, hs⟩
              · exact ⟨rfl, _, rfl, hs⟩

lemma getattr (node : NodeId) : SameResult (w.getattr R node) (w'.getattr R node) := by
  obtain ⟨⟨s', rfl, hs⟩, hw, hd, hd'⟩ := h
  unfold World.getattr
  rw [withStore_state]
  cases hpath : w.state.pathOf node with
  | error e => exact sameResult_same hs _
  | ok path =>
      have hp := hw.nodes node path (State.pathOf_ok.mp hpath)
      simp only
      rw [freshAttrs_withStore hs hp, withStore_offline]
      split
      · exact sameResult_same hs _
      · split
        · exact sameResult_same hs _
        · unfold getattrRemote
          simp only [withStore_conn, withStore_store, withStore_state, hs.getAttrs hp]
          split
          · next attributes conn _ =>
              exact ⟨rfl, _, rfl, hs.putAttrs hd.1 hd'.1 hp attributes⟩
          · exact ⟨rfl, _, rfl, hs.remove hd.1 hd'.1⟩
          · split
            · split
              · exact ⟨rfl, _, rfl, hs⟩
              · exact ⟨rfl, _, rfl, hs⟩
            · exact ⟨rfl, _, rfl, hs⟩

lemma readdirRemote {path : RemotePath} (hp : Descends w.config.root.asStr path.asStr) :
    SameResult (w.readdirRemote R path) (w'.readdirRemote R path) := by
  obtain ⟨⟨s', rfl, hs⟩, hw, hd, hd'⟩ := h
  unfold World.readdirRemote
  rw [withStore_conn]
  split
  · next e conn _ =>
      have hcached := readdirFromCache_withStore (w := { w with conn := conn }) hs hp
        (isUnreachable e)
      simp only [withStore] at hcached ⊢
      rcases hcached with ⟨hnone, hnone'⟩ | ⟨entries, st, hsome, hsome'⟩
      · rw [hnone, hnone']
        exact ⟨rfl, s', rfl, hs⟩
      · rw [hsome, hsome']
        exact ⟨rfl, s', rfl, hs⟩
  · next entries conn _ =>
      have hrecorded := hs.recordListing hd.1 hd'.1 (fun name hname => hp.child hname)
        (realChildren entries)
      simp only [withStore_state, withStore_store]
      split
      · exact ⟨rfl, _, rfl, hrecorded⟩
      · exact ⟨rfl, _, rfl, hrecorded⟩

lemma readdir (node : NodeId) : SameResult (w.readdir R node) (w'.readdir R node) := by
  have hremote : ∀ path : RemotePath, Descends w.config.root.asStr path.asStr →
      SameResult (w.readdirRemote R path) (w'.readdirRemote R path) :=
    fun _ => h.readdirRemote
  obtain ⟨⟨s', rfl, hs⟩, hw, hd, hd'⟩ := h
  unfold World.readdir
  rw [withStore_state]
  cases hpath : w.state.pathOf node with
  | error e => exact sameResult_same hs _
  | ok path =>
      have hp := hw.nodes node path (State.pathOf_ok.mp hpath)
      simp only
      rw [withStore_metadataFresh, withStore_offline]
      rcases readdirFromCache_withStore hs hp (w.metadataFresh path) with
        ⟨hnone, hnone'⟩ | ⟨entries, st, hsome, hsome'⟩
      · rw [hnone, hnone']
        simp only
        split
        · exact sameResult_same hs _
        · exact hremote path hp
      · rw [hsome, hsome']
        exact ⟨rfl, s', rfl, hs⟩

lemma openFile (node : NodeId) (flags : OpenFlags) :
    SameResult (w.openFile R node flags) (w'.openFile R node flags) := by
  obtain ⟨⟨s', rfl, hs⟩, hw, hd, hd'⟩ := h
  unfold World.openFile
  rw [withStore_ensureWritable, withStore_state, withStore_conn]
  split
  · exact sameResult_same hs _
  · cases hpath : w.state.pathOf node with
    | error e => exact sameResult_same hs _
    | ok path =>
        have hp := hw.nodes node path (State.pathOf_ok.mp hpath)
        simp only
        split
        · split
          · exact ⟨rfl, s', rfl, hs⟩
          · exact ⟨rfl, _, rfl, hs.invalidateContent hd.1 hd'.1 hp⟩
        · exact ⟨rfl, s', rfl, hs⟩

lemma readContent {file : OpenFile} (hp : Descends w.config.root.asStr file.path.asStr)
    (offset : UInt64) (size : UInt32) :
    SameResult (w.readContent R file offset size) (w'.readContent R file offset size) := by
  have hattr := h.getattr (R := R) file.node
  have hd := durable_outcome (outcome_getattr R w file.node) h.durable
  have hd' := durable_outcome (outcome_getattr R w' file.node) h.durable'
  have hconfig := (grows_outcome (outcome_getattr R w file.node)).2
  unfold World.readContent
  generalize w.getattr R file.node = x at hattr hd hconfig ⊢
  generalize w'.getattr R file.node = y at hattr hd' ⊢
  obtain ⟨answer, v⟩ := x
  obtain ⟨answer', v'⟩ := y
  obtain ⟨hanswer, s', hv', hs⟩ := hattr
  simp only at hanswer hv' hs hd hd' hconfig
  subst hanswer hv'
  cases answer' with
  | error e => exact sameResult_same hs _
  | ok metadata =>
      rw [← hconfig] at hp
      obtain ⟨hanswer, hconn, hread⟩ := hs.read (R := R) hd.1 hd'.1 hp metadata.attributes offset
        size v.conn
      simp only [withStore_store, withStore_conn]
      exact ⟨hanswer, _, by simp only [withStore, hconn], hread⟩

lemma read (handle : FileHandle) (offset : UInt64) (size : UInt32) :
    SameResult (w.read R handle offset size) (w'.read R handle offset size) := by
  have hcontent : ∀ file, w.state.file handle = some file →
      SameResult (w.readContent R file offset size) (w'.readContent R file offset size) :=
    fun file hfile => h.readContent (h.within.files handle file hfile) offset size
  obtain ⟨⟨s', rfl, hs⟩, hw, hd, hd'⟩ := h
  unfold World.read
  rw [withStore_state]
  cases hfile : w.state.file handle with
  | none => exact sameResult_same hs _
  | some file =>
      have hp := hw.files handle file hfile
      simp only [withStore_config, withStore_conn, withStore_store]
      split
      · exact ⟨rfl, s', rfl, hs⟩
      · exact ⟨hs.readCached hd.1 hd'.1 hp offset size, s', rfl, hs⟩
      · exact hcontent file hfile
      · exact hcontent file hfile

lemma write (handle : FileHandle) (offset : UInt64) (data : Bytes) :
    SameResult (w.write R handle offset data) (w'.write R handle offset data) := by
  obtain ⟨⟨s', rfl, hs⟩, hw, hd, hd'⟩ := h
  unfold World.write
  rw [withStore_ensureWritable, withStore_state, withStore_conn]
  split
  · exact sameResult_same hs _
  · cases hfile : w.state.file handle with
    | none => exact sameResult_same hs _
    | some file =>
        simp only
        split
        · exact ⟨rfl, s', rfl, hs⟩
        · exact ⟨rfl, _, rfl, hs.invalidateContent hd.1 hd'.1 (hw.files handle file hfile)⟩

/-- What `create` and `mkdir` do to the store. -/
lemma putChild (parent : NodeId) (name : Str) (parentPath child : RemotePath)
    (hres : w.resolve parent name = .ok (parentPath, child)) (attributes : FileAttributes) :
    Store.Agree (Descends w.config.root.asStr) w.config.root.asStr
      ((w.store.putAttrs child attributes).invalidateChildren parentPath)
      ((w'.store.putAttrs child attributes).invalidateChildren parentPath) := by
  obtain ⟨⟨s', rfl, hs⟩, hw, hd, hd'⟩ := h
  obtain ⟨hparent, hjoin⟩ := resolve_ok hres
  have hp := (hw.nodes parent parentPath hparent).join hjoin
  exact (hs.putAttrs hd.1 hd'.1 hp attributes).invalidateChildren (hd.1.putAttrs child attributes)
    (hd'.1.putAttrs child attributes)

lemma create (parent : NodeId) (name : Str) (mode : UInt32) (flags : OpenFlags) :
    SameResult (w.create R parent name mode flags) (w'.create R parent name mode flags) := by
  have hput := h.putChild parent name
  obtain ⟨⟨s', rfl, hs⟩, hw, hd, hd'⟩ := h
  unfold World.create
  rw [withStore_resolve]
  cases hres : w.resolve parent name with
  | error e => exact sameResult_same hs _
  | ok paths =>
      obtain ⟨parentPath, child⟩ := paths
      simp only [withStore_conn]
      split
      · exact ⟨rfl, s', rfl, hs⟩
      · exact ⟨rfl, _, rfl, hput parentPath child hres _⟩

lemma mkdir (parent : NodeId) (name : Str) (mode : UInt32) :
    SameResult (w.mkdir R parent name mode) (w'.mkdir R parent name mode) := by
  have hput := h.putChild parent name
  obtain ⟨⟨s', rfl, hs⟩, hw, hd, hd'⟩ := h
  unfold World.mkdir
  rw [withStore_resolve]
  cases hres : w.resolve parent name with
  | error e => exact sameResult_same hs _
  | ok paths =>
      obtain ⟨parentPath, child⟩ := paths
      simp only [withStore_conn]
      split
      · exact ⟨rfl, s', rfl, hs⟩
      · exact ⟨rfl, _, rfl, hput parentPath child hres _⟩

/-- What `unlink` and `rmdir` do to the store. -/
lemma forget (parentPath child : RemotePath) :
    Store.Agree (Descends w.config.root.asStr) w.config.root.asStr
      ((w.store.remove child).invalidateChildren parentPath)
      ((w'.store.remove child).invalidateChildren parentPath) := by
  obtain ⟨⟨s', rfl, hs⟩, hw, hd, hd'⟩ := h
  exact (hs.remove hd.1 hd'.1).invalidateChildren (hd.1.remove child) (hd'.1.remove child)

lemma unlink (parent : NodeId) (name : Str) :
    SameResult (w.unlink R parent name) (w'.unlink R parent name) := by
  have hforget := h.forget
  obtain ⟨⟨s', rfl, hs⟩, hw, hd, hd'⟩ := h
  unfold World.unlink
  rw [withStore_resolve]
  cases hres : w.resolve parent name with
  | error e => exact sameResult_same hs _
  | ok paths =>
      obtain ⟨parentPath, child⟩ := paths
      simp only [withStore_conn]
      split
      · exact ⟨rfl, s', rfl, hs⟩
      · exact ⟨rfl, _, rfl, hforget parentPath child⟩

lemma rmdir (parent : NodeId) (name : Str) :
    SameResult (w.rmdir R parent name) (w'.rmdir R parent name) := by
  have hforget := h.forget
  obtain ⟨⟨s', rfl, hs⟩, hw, hd, hd'⟩ := h
  unfold World.rmdir
  rw [withStore_resolve]
  cases hres : w.resolve parent name with
  | error e => exact sameResult_same hs _
  | ok paths =>
      obtain ⟨parentPath, child⟩ := paths
      simp only [withStore_conn]
      split
      · exact ⟨rfl, s', rfl, hs⟩
      · exact ⟨rfl, _, rfl, hforget parentPath child⟩

lemma rename (parent : NodeId) (name : Str) (newParent : NodeId) (newName : Str) :
    SameResult (w.rename R parent name newParent newName)
      (w'.rename R parent name newParent newName) := by
  obtain ⟨⟨s', rfl, hs⟩, hw, hd, hd'⟩ := h
  unfold World.rename
  rw [withStore_resolveRename]
  cases hres : w.resolveRename parent name newParent newName with
  | error e => exact sameResult_same hs _
  | ok paths =>
      obtain ⟨srcParent, dstParent, src, dst⟩ := paths
      obtain ⟨hsrcParent, hdstParent, hsrc, hdst⟩ := resolveRename_ok hres
      have hp := hw.nodes parent srcParent hsrcParent
      have hq := hw.nodes newParent dstParent hdstParent
      have hmoved := hs.rename hd.1 hd'.1 (hp.join hsrc) (hq.join hdst) (hp.not_below_root hsrc)
        (hp.join_ne_root hsrc) (hq.join_ne_root hdst)
      have hkept := Store.kept_rename hd.1 src dst
      have hkept' := Store.kept_rename hd'.1 src dst
      simp only [withStore_conn]
      split
      · exact ⟨rfl, s', rfl, hs⟩
      · refine ⟨rfl, _, rfl, ?_⟩
        exact (hmoved.invalidateChildren hkept hkept').invalidateChildren
          (hkept.invalidateChildren srcParent) (hkept'.invalidateChildren srcParent)

lemma setattr (node : NodeId) (set : SetAttributes) :
    SameResult (w.setattr R node set) (w'.setattr R node set) := by
  obtain ⟨⟨s', rfl, hs⟩, hw, hd, hd'⟩ := h
  unfold World.setattr
  rw [withStore_ensureWritable, withStore_state, withStore_conn]
  split
  · exact sameResult_same hs _
  · cases hpath : w.state.pathOf node with
    | error e => exact sameResult_same hs _
    | ok path =>
        simp only
        split
        · exact ⟨rfl, s', rfl, hs⟩
        · exact ⟨rfl, _, rfl,
            hs.putAttrs hd.1 hd'.1 (hw.nodes node path (State.pathOf_ok.mp hpath)) _⟩

/-- **One call of two mounts.** -/
lemma exec (call : Call) :
    w'.reply R (.call call) = w.reply R (.call call) ∧ Alike (w.exec R call) (w'.exec R call) := by
  cases call with
  | lookup parent name =>
      obtain ⟨hanswer, halike⟩ := h.lookup (R := R) parent name
      exact ⟨by simp only [reply, hanswer], halike⟩
  | getattr node =>
      obtain ⟨hanswer, halike⟩ := h.getattr (R := R) node
      exact ⟨by simp only [reply, hanswer], halike⟩
  | readdir node =>
      obtain ⟨hanswer, halike⟩ := h.readdir (R := R) node
      exact ⟨by simp only [reply, hanswer], halike⟩
  | openFile node flags => exact ⟨rfl, (h.openFile node flags).2⟩
  | read handle offset size =>
      obtain ⟨hanswer, halike⟩ := h.read (R := R) handle offset size
      exact ⟨by simp only [reply, hanswer], halike⟩
  | write handle offset data => exact ⟨rfl, (h.write handle offset data).2⟩
  | flush handle => exact ⟨rfl, h.alike⟩
  | release handle =>
      obtain ⟨s', rfl, hs⟩ := h.alike
      exact ⟨rfl, s', rfl, hs⟩
  | create parent name mode flags => exact ⟨rfl, (h.create parent name mode flags).2⟩
  | mkdir parent name mode => exact ⟨rfl, (h.mkdir parent name mode).2⟩
  | unlink parent name => exact ⟨rfl, (h.unlink parent name).2⟩
  | rmdir parent name => exact ⟨rfl, (h.rmdir parent name).2⟩
  | rename parent name newParent newName =>
      exact ⟨rfl, (h.rename parent name newParent newName).2⟩
  | setattr node set => exact ⟨rfl, (h.setattr node set).2⟩

/-- **One event of two mounts.** -/
lemma step (e : Event ρ) (he : InSession e) :
    w'.reply R e = w.reply R e ∧ Twins (w.step R e) (w'.step R e) := by
  cases e with
  | call call =>
      obtain ⟨hreply, halike⟩ := h.exec (R := R) call
      exact ⟨hreply, halike, within_outcome (outcome_exec R w call) h.within,
        durable_outcome (outcome_exec R w call) h.durable,
        durable_outcome (outcome_exec R w' call) h.durable'⟩
  | tick d =>
      obtain ⟨⟨s', rfl, hs⟩, hw, hd, hd'⟩ := h
      exact ⟨rfl, ⟨s', rfl, hs⟩, ⟨hw.nodes, hw.files⟩, hd, hd'⟩
  | external remote =>
      obtain ⟨⟨s', rfl, hs⟩, hw, hd, hd'⟩ := h
      exact ⟨rfl, ⟨s', rfl, hs⟩, ⟨hw.nodes, hw.files⟩, hd, hd'⟩
  | restart config => cases he

lemma replies {es : List (Event ρ)} (hes : ∀ e ∈ es, InSession e) :
    w'.replies R es = w.replies R es :=
  outputs_eq InSession Twins (fun _ _ e he hrel => hrel.step e he) h hes

end

end Twins

end World

/-! ## Directories -/

/-- A mount keeps a directory that it could open. -/
lemma World.kept_run_of_reopens {ρ : Type} {R : RemoteFilesystem ρ} {d : Disk}
    (hd : Store.Reopens (fun _ _ _ _ => True) d) (config : Config) (conn : Conn ρ)
    (es : List (Event ρ)) : World.Kept (run (World.step R) (World.new config d conn) es) := by
  have hstart : World.Kept (World.new config d conn) := ⟨hd config.cacheChunkSize, rfl⟩
  exact invariant_of_step World.kept_step hstart es

namespace Disk

/-- The index of a directory, as a store reads it. -/
def stored (d : Disk) : Index := d.index.getD Index.empty

/-- What a directory has under a key: attributes, and the label and the bytes of the content. -/
def shows (d : Disk) (key : Str) : Option (StoredAttrs × Option (Label × (ℕ → Option Bytes))) :=
  (d.stored.entries.lookup key).map (Entry.shows d.objects.lookup)

/-- The listing that a directory has under a key. -/
def listing (d : Disk) (key : Str) : Option (List Str) := d.stored.listings.lookup key

/-- Two directories have the same for the paths that a mount of `root` reaches.  A listing of the
root itself that has a name which is no path component does not count: no mount serves it, and no
mount moves it. -/
structure SameBelow (root : Str) (d d' : Disk) : Prop where
  shows : ∀ key, Descends root key → d'.shows key = d.shows key
  listing : ∀ key, Descends root key → key ≠ root → d'.listing key = d.listing key
  rootListing : usable (d'.listing root) = usable (d.listing root)

/-- The directory has nothing for the paths that a mount of `root` reaches. -/
structure Bare (root : Str) (d : Disk) : Prop where
  entry : ∀ key, Descends root key → d.stored.entries.lookup key = none
  listing : ∀ key, Descends root key → key ≠ root → d.listing key = none
  rootListing : usable (d.listing root) = none

lemma SameBelow.bare {root : Str} {d d' : Disk} (h : SameBelow root d d') (hd : Bare root d) :
    Bare root d' where
  entry key hkey := by
    have hshows := h.shows key hkey
    rw [Disk.shows, Disk.shows, hd.entry key hkey, Option.map_none] at hshows
    exact Option.map_eq_none_iff.mp hshows
  listing key hkey hne := by rw [h.listing key hkey hne, hd.listing key hkey hne]
  rootListing := by rw [h.rootListing, hd.rootListing]

lemma Bare.sameBelow {root : Str} {d d' : Disk} (hd : Bare root d) (hd' : Bare root d') :
    SameBelow root d d' where
  shows key hkey := by
    rw [Disk.shows, Disk.shows, hd.entry key hkey, hd'.entry key hkey]
    rfl
  listing key hkey hne := by rw [hd.listing key hkey hne, hd'.listing key hkey hne]
  rootListing := by rw [hd.rootListing, hd'.rootListing]

lemma bare_empty (root : Str) : Bare root Disk.empty :=
  ⟨fun _ _ => rfl, fun _ _ _ => rfl, rfl⟩

/-- A directory that nothing but mounts has written. -/
inductive Left : Disk → Prop
  | empty : Left Disk.empty
  | mounted {ρ : Type} {R : RemoteFilesystem ρ} {d : Disk} (h : Left d) (config : Config)
      (conn : Conn ρ) (es : List (Event ρ)) :
      Left (run (World.step R) (World.new config d conn) es).store.disk

lemma Left.reopens {d : Disk} (h : Left d) : Store.Reopens (fun _ _ _ _ => True) d := by
  induction h with
  | empty =>
      exact fun chunkSize => ⟨Store.sound_new_empty chunkSize, Store.synced_new_empty chunkSize⟩
  | @mounted ρ R d _ config conn es ih =>
      have hend := World.kept_run_of_reopens (R := R) ih config conn es
      exact hend.1.2.reopens hend.1.1

end Disk

namespace World

variable {ρ : Type} {R : RemoteFilesystem ρ}

/-- **A mount answers by what its directory has for its own paths.** -/
theorem replies_eq_of_sameBelow (config : Config) {d d' : Disk} (hd : d.Left) (hd' : d'.Left)
    (h : Disk.SameBelow config.root.asStr d d') (conn : Conn ρ) {es : List (Event ρ)}
    (hes : ∀ e ∈ es, InSession e) :
    (World.new config d' conn).replies R es = (World.new config d conn).replies R es := by
  have htwins : Twins (World.new config d conn) (World.new config d' conn) := by
    refine ⟨⟨Store.new d' config.cacheChunkSize, rfl, ?_⟩, within_new config d conn,
      hd.reopens config.cacheChunkSize, hd'.reopens config.cacheChunkSize⟩
    exact ⟨rfl, h.shows, h.listing, h.rootListing⟩
  exact htwins.replies hes

end World

end CacheShfs
