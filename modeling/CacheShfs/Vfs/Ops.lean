import CacheShfs.Store.Content
import CacheShfs.Vfs.State

/-!
# The calls of the virtual filesystem

`CacheVfs` of `crates/cacheshfs-core/src/vfs.rs`, call by call.  A `World` is one mounted
session: the configuration it was opened with, its store and session state, and the connection
to the remote.  A call takes the world and returns its answer with the world afterwards.

A call runs at one instant: the clock of the connection advances between calls only.

`DisconnectedRemote` is here too; it is the remote of a session opened by `new_offline`.
-/

namespace CacheShfs

/-- `NEGATIVE_TTL_CAP`: one second. -/
def negativeTtlCap : ℕ := 10 ^ 9

/-- The arguments of `CacheVfs::new` other than the remote and the cache directory. -/
structure Config where
  root : RemotePath
  readOnly : Bool
  cacheMode : CacheMode
  metadataTtl : ℕ
  cacheChunkSize : UInt64

/-- The `negative_ttl` field. -/
def Config.negativeTtl (config : Config) : ℕ := min config.metadataTtl negativeTtlCap

/-- `struct CacheVfs`, with the remote it is connected to. -/
structure World (ρ : Type) where
  config : Config
  store : Store
  state : State
  conn : Conn ρ

/-- `is_unreachable`. -/
def isUnreachable : Error → Bool
  | .unavailable _ => true
  | _ => false

/-- `disconnected`. -/
def disconnected : Error :=
  .unavailable "the mount is offline; the remote is not connected"

/-- `struct DisconnectedRemote`. -/
def disconnectedRemote (ρ : Type) : RemoteFilesystem ρ where
  stat _ r := (.error disconnected, r)
  readDir _ r := (.error disconnected, r)
  read _ _ _ r := (.error disconnected, r)
  write _ _ _ r := (.error disconnected, r)
  create _ _ r := (.error disconnected, r)
  mkdir _ _ r := (.error disconnected, r)
  unlink _ r := (.error disconnected, r)
  rmdir _ r := (.error disconnected, r)
  rename _ _ r := (.error disconnected, r)
  setattr _ _ r := (.error disconnected, r)

/-- The error of a call on a handle that is not open. -/
def unknownHandle : Error := .invalidInput "unknown file handle"

namespace World

variable {ρ : Type}

/-- `CacheVfs::new` on the cache directory `disk`. -/
def new (config : Config) (disk : Disk) (conn : Conn ρ) : World ρ :=
  ⟨config, Store.new disk config.cacheChunkSize, State.new config.root, conn⟩

/-- `CacheVfs::offline`. -/
def offline (w : World ρ) : Bool := w.config.cacheMode = .offline

/-- `CacheVfs::metadata_fresh`. -/
def metadataFresh (path : RemotePath) (w : World ρ) : Bool :=
  w.offline || (w.state.validatedAt path).any fun t => w.conn.now - t < w.config.metadataTtl

/-- `CacheVfs::fresh_negative`, asked of the entry under a key. -/
def freshNegative (parent : NodeId) (name : Str) (w : World ρ) : Bool :=
  (w.state.negativeAt (parent, name)).any fun t =>
    w.offline || decide (w.conn.now - t < w.config.negativeTtl)

/-- `CacheVfs::ensure_writable`. -/
def ensureWritable (w : World ρ) : Except Error Unit :=
  if w.config.readOnly then .error .permissionDenied else .ok ()

/-- `CacheVfs::child_path`. -/
def childPath (parent : NodeId) (name : Str) (w : World ρ) : Except Error RemotePath := do
  (← w.state.pathOf parent).join name

/-- Metadata that is served without asking the remote. -/
def freshAttrs (path : RemotePath) (w : World ρ) : Option FileAttributes :=
  if w.metadataFresh path then w.store.getAttrs path else none

/-- Answer with attributes of `path`, giving it a node. -/
def answerAs (path : RemotePath) (attributes : FileAttributes) (w : World ρ) :
    Except Error FileMetadata × World ρ :=
  let (node, state) := w.state.intern path
  (.ok ⟨node, attributes⟩, { w with state := state })

/-! ## Metadata -/

section
variable (R : RemoteFilesystem ρ)

/-- The part of `lookup` that asks the remote. -/
def lookupRemote (parent : NodeId) (name : Str) (child : RemotePath) (w : World ρ) :
    Except Error FileMetadata × World ρ :=
  match w.conn.stat R child with
  | (.ok attributes, conn) =>
      let state := (w.state.stamp child conn.now).unnegate parent name
      answerAs child attributes
        { w with conn := conn, store := w.store.putAttrs child attributes, state := state }
  | (.error .notFound, conn) =>
      (.error .notFound,
        { w with
          conn := conn
          store := w.store.remove child
          state := w.state.negate parent name conn.now })
  | (.error e, conn) =>
      match w.store.getAttrs child with
      | some attributes =>
          if isUnreachable e then answerAs child attributes { w with conn := conn }
          else (.error e, { w with conn := conn })
      | none => (.error e, { w with conn := conn })

/-- `CacheVfs::lookup`. -/
def lookup (parent : NodeId) (name : Str) (w : World ρ) : Except Error FileMetadata × World ρ :=
  match w.childPath parent name with
  | .error e => (.error e, w)
  | .ok child =>
      if w.freshNegative parent name then (.error .notFound, w)
      else
        match w.freshAttrs child with
        | some attributes => answerAs child attributes w
        | none =>
            if w.offline then (.error .notFound, w) else w.lookupRemote R parent name child

/-- The part of `getattr` that asks the remote. -/
def getattrRemote (node : NodeId) (path : RemotePath) (w : World ρ) :
    Except Error FileMetadata × World ρ :=
  match w.conn.stat R path with
  | (.ok attributes, conn) =>
      (.ok ⟨node, attributes⟩,
        { w with
          conn := conn
          store := w.store.putAttrs path attributes
          state := w.state.stamp path conn.now })
  | (.error .notFound, conn) =>
      (.error .notFound, { w with conn := conn, store := w.store.remove path })
  | (.error e, conn) =>
      match w.store.getAttrs path with
      | some attributes =>
          if isUnreachable e then (.ok ⟨node, attributes⟩, { w with conn := conn })
          else (.error e, { w with conn := conn })
      | none => (.error e, { w with conn := conn })

/-- `CacheVfs::getattr`. -/
def getattr (node : NodeId) (w : World ρ) : Except Error FileMetadata × World ρ :=
  match w.state.pathOf node with
  | .error e => (.error e, w)
  | .ok path =>
      match w.freshAttrs path with
      | some attributes => (.ok ⟨node, attributes⟩, w)
      | none => if w.offline then (.error .notFound, w) else w.getattrRemote R node path

/-! ## Directory listings -/

/-- The children of a cached listing whose attributes are cached too.  A name that is no path
component makes the whole listing unusable. -/
def cachedChildren (path : RemotePath) (s : Store) :
    List Str → Option (List (Str × RemotePath × FileAttributes))
  | [] => some []
  | name :: names =>
      match path.join name with
      | .error _ => none
      | .ok child =>
          match cachedChildren path s names with
          | none => none
          | some rest =>
              match s.getAttrs child with
              | some attributes => some ((name, child, attributes) :: rest)
              | none => some rest

/-- Give every child a node. -/
def internChildren : List (Str × RemotePath × FileAttributes) → State →
    List DirectoryEntry × State
  | [], st => ([], st)
  | (name, child, attributes) :: rest, st =>
      let (node, st) := st.intern child
      let (entries, st) := internChildren rest st
      (⟨name, ⟨node, attributes⟩⟩ :: entries, st)

/-- `CacheVfs::readdir_from_cache`. -/
def readdirFromCache (path : RemotePath) (w : World ρ) :
    Option (List DirectoryEntry × World ρ) :=
  match w.store.getChildren path with
  | none => none
  | some names =>
      match cachedChildren path w.store names with
      | none => none
      | some children =>
          let (entries, state) := internChildren children w.state
          some (entries, { w with state := state })

/-- The listing without the dot entries. -/
def realChildren (entries : List RemoteDirectoryEntry) : List (Str × FileAttributes) :=
  (entries.filter fun e => e.name ≠ ['.'] ∧ e.name ≠ ['.', '.']).map fun e =>
    (e.name, e.attributes)

/-- The loop of `readdir` over the children: each is stamped and given a node.  A name that is
no path component ends it, and what was done before stays. -/
def stampChildren (path : RemotePath) (now : ℕ) : List (Str × FileAttributes) → State →
    Except Error (List DirectoryEntry) × State
  | [], st => (.ok [], st)
  | (name, attributes) :: rest, st =>
      match path.join name with
      | .error e => (.error e, st)
      | .ok child =>
          let (node, st) := (st.stamp child now).intern child
          match stampChildren path now rest st with
          | (.ok entries, st) => (.ok (⟨name, ⟨node, attributes⟩⟩ :: entries), st)
          | (.error e, st) => (.error e, st)

/-- The part of `readdir` that asks the remote. -/
def readdirRemote (path : RemotePath) (w : World ρ) :
    Except Error (List DirectoryEntry) × World ρ :=
  match w.conn.readDir R path with
  | (.error e, conn) =>
      match (if isUnreachable e then readdirFromCache path { w with conn := conn } else none) with
      | some (entries, w) => (.ok entries, w)
      | none => (.error e, { w with conn := conn })
  | (.ok entries, conn) =>
      let children := realChildren entries
      let store := w.store.recordListing path children
      match stampChildren path conn.now children w.state with
      | (.ok result, state) =>
          (.ok result,
            { w with conn := conn, store := store, state := state.stamp path conn.now })
      | (.error e, state) => (.error e, { w with conn := conn, store := store, state := state })

/-- `CacheVfs::readdir`. -/
def readdir (node : NodeId) (w : World ρ) : Except Error (List DirectoryEntry) × World ρ :=
  match w.state.pathOf node with
  | .error e => (.error e, w)
  | .ok path =>
      match (if w.metadataFresh path then w.readdirFromCache path else none) with
      | some (entries, w) => (.ok entries, w)
      | none => if w.offline then (.error .notFound, w) else w.readdirRemote R path

/-! ## Handles and content -/

/-- `CacheVfs::open`. -/
def openFile (node : NodeId) (flags : OpenFlags) (w : World ρ) :
    Except Error FileHandle × World ρ :=
  match (if flags.write || flags.append || flags.truncate then w.ensureWritable else .ok ()) with
  | .error e => (.error e, w)
  | .ok () =>
      match w.state.pathOf node with
      | .error e => (.error e, w)
      | .ok path =>
          if flags.truncate then
            match w.conn.setattr R path { size := some 0 } with
            | (.error e, conn) => (.error e, { w with conn := conn })
            | (.ok _, conn) =>
                let (handle, state) := (w.state.unstamp path).openHandle node path
                (.ok handle,
                  { w with
                    conn := conn
                    store := w.store.invalidateContent path
                    state := state })
          else
            let (handle, state) := w.state.openHandle node path
            (.ok handle, { w with state := state })

/-- The read of an online caching session: revalidate, then read through the chunk cache.  The
attributes are those of the handle's node, the bytes those at the handle's path. -/
def readContent (file : OpenFile) (offset : UInt64) (size : UInt32) (w : World ρ) :
    Except Error Bytes × World ρ :=
  match w.getattr R file.node with
  | (.error e, w) => (.error e, w)
  | (.ok metadata, w) =>
      let (answer, store, conn) := w.store.read R file.path metadata.attributes offset size w.conn
      (answer, { w with store := store, conn := conn })

/-- `CacheVfs::read`. -/
def read (handle : FileHandle) (offset : UInt64) (size : UInt32) (w : World ρ) :
    Except Error Bytes × World ρ :=
  match w.state.file handle with
  | none => (.error unknownHandle, w)
  | some file =>
      match w.config.cacheMode with
      | .remote =>
          let (answer, conn) := w.conn.read R file.path offset.toNat size.toNat
          (answer, { w with conn := conn })
      | .offline => (w.store.readCached file.path offset size, w)
      | .onDemand => w.readContent R file offset size
      | .pinned => w.readContent R file offset size

/-- `CacheVfs::write`. -/
def write (handle : FileHandle) (offset : UInt64) (data : Bytes) (w : World ρ) :
    Except Error UInt32 × World ρ :=
  match w.ensureWritable with
  | .error e => (.error e, w)
  | .ok () =>
      match w.state.file handle with
      | none => (.error unknownHandle, w)
      | some file =>
          match w.conn.write R file.path offset data with
          | (.error e, conn) => (.error e, { w with conn := conn })
          | (.ok written, conn) =>
              (.ok written,
                { w with
                  conn := conn
                  store := w.store.invalidateContent file.path
                  state := w.state.unstamp file.path })

/-- `CacheVfs::flush`: nothing is buffered. -/
def flush (_handle : FileHandle) (w : World ρ) : Except Error Unit × World ρ := (.ok (), w)

/-- `CacheVfs::release`. -/
def release (handle : FileHandle) (w : World ρ) : Except Error Unit × World ρ :=
  (.ok (), { w with state := w.state.close handle })

/-! ## Mutations of the tree -/

/-- The writability check, then the paths of a directory and of a name in it. -/
def resolve (parent : NodeId) (name : Str) (w : World ρ) :
    Except Error (RemotePath × RemotePath) := do
  w.ensureWritable
  let parentPath ← w.state.pathOf parent
  let childPath ← parentPath.join name
  return (parentPath, childPath)

/-- `CacheVfs::create`. -/
def create (parent : NodeId) (name : Str) (mode : UInt32) (_flags : OpenFlags) (w : World ρ) :
    Except Error CreatedFile × World ρ :=
  match w.resolve parent name with
  | .error e => (.error e, w)
  | .ok (parentPath, child) =>
      match w.conn.create R child mode with
      | (.error e, conn) => (.error e, { w with conn := conn })
      | (.ok attributes, conn) =>
          let store := (w.store.putAttrs child attributes).invalidateChildren parentPath
          let (node, state) := ((w.state.stamp child conn.now).unnegate parent name).intern child
          let (handle, state) := state.openHandle node child
          (.ok ⟨⟨node, attributes⟩, handle⟩,
            { w with conn := conn, store := store, state := state })

/-- `CacheVfs::mkdir`. -/
def mkdir (parent : NodeId) (name : Str) (mode : UInt32) (w : World ρ) :
    Except Error FileMetadata × World ρ :=
  match w.resolve parent name with
  | .error e => (.error e, w)
  | .ok (parentPath, child) =>
      match w.conn.mkdir R child mode with
      | (.error e, conn) => (.error e, { w with conn := conn })
      | (.ok attributes, conn) =>
          let store := (w.store.putAttrs child attributes).invalidateChildren parentPath
          let state := (w.state.stamp child conn.now).unnegate parent name
          answerAs child attributes { w with conn := conn, store := store, state := state }

/-- What `unlink` and `rmdir` do once the remote has deleted `child`. -/
def forget (parent : NodeId) (name : Str) (parentPath child : RemotePath) (conn : Conn ρ)
    (w : World ρ) : World ρ :=
  { w with
    conn := conn
    store := (w.store.remove child).invalidateChildren parentPath
    state := w.state.negate parent name conn.now }

/-- `CacheVfs::unlink`. -/
def unlink (parent : NodeId) (name : Str) (w : World ρ) : Except Error Unit × World ρ :=
  match w.resolve parent name with
  | .error e => (.error e, w)
  | .ok (parentPath, child) =>
      match w.conn.unlink R child with
      | (.error e, conn) => (.error e, { w with conn := conn })
      | (.ok (), conn) => (.ok (), w.forget parent name parentPath child conn)

/-- `CacheVfs::rmdir`. -/
def rmdir (parent : NodeId) (name : Str) (w : World ρ) : Except Error Unit × World ρ :=
  match w.resolve parent name with
  | .error e => (.error e, w)
  | .ok (parentPath, child) =>
      match w.conn.rmdir R child with
      | (.error e, conn) => (.error e, { w with conn := conn })
      | (.ok (), conn) => (.ok (), w.forget parent name parentPath child conn)

/-- The paths `rename` works on: the two directories, then source and target. -/
def resolveRename (parent : NodeId) (name : Str) (newParent : NodeId) (newName : Str)
    (w : World ρ) : Except Error (RemotePath × RemotePath × RemotePath × RemotePath) := do
  w.ensureWritable
  let srcParent ← w.state.pathOf parent
  let dstParent ← w.state.pathOf newParent
  let src ← srcParent.join name
  let dst ← dstParent.join newName
  return (srcParent, dstParent, src, dst)

/-- `CacheVfs::rename`. -/
def rename (parent : NodeId) (name : Str) (newParent : NodeId) (newName : Str) (w : World ρ) :
    Except Error Unit × World ρ :=
  match w.resolveRename parent name newParent newName with
  | .error e => (.error e, w)
  | .ok (srcParent, dstParent, src, dst) =>
      match w.conn.rename R src dst with
      | (.error e, conn) => (.error e, { w with conn := conn })
      | (.ok (), conn) =>
          let store :=
            ((w.store.rename src dst).invalidateChildren srcParent).invalidateChildren dstParent
          let state := (((w.state.renamePath src dst).unstamp src).negate parent name
            conn.now).unnegate newParent newName
          (.ok (), { w with conn := conn, store := store, state := state })

/-- `CacheVfs::setattr`. -/
def setattr (node : NodeId) (attributes : SetAttributes) (w : World ρ) :
    Except Error FileMetadata × World ρ :=
  match w.ensureWritable with
  | .error e => (.error e, w)
  | .ok () =>
      match w.state.pathOf node with
      | .error e => (.error e, w)
      | .ok path =>
          match w.conn.setattr R path attributes with
          | (.error e, conn) => (.error e, { w with conn := conn })
          | (.ok attributes, conn) =>
              (.ok ⟨node, attributes⟩,
                { w with
                  conn := conn
                  store := w.store.putAttrs path attributes
                  state := w.state.stamp path conn.now })

end

/-! ## Resolving names -/

lemma childPath_ok {w : World ρ} {parent : NodeId} {name : Str} {child : RemotePath} :
    w.childPath parent name = .ok child ↔
      ∃ p, w.state.path parent = some p ∧ p.join name = .ok child := by
  unfold childPath
  cases hp : w.state.pathOf parent with
  | ok p => simp [bind, Except.bind, State.pathOf_ok.mp hp]
  | error e =>
      have hnone : ∀ p, w.state.path parent ≠ some p := fun p h => by
        rw [State.pathOf_ok.mpr h] at hp
        cases hp
      simp [bind, Except.bind, hnone]

lemma resolve_ok {w : World ρ} {parent : NodeId} {name : Str} {parentPath child : RemotePath}
    (h : w.resolve parent name = .ok (parentPath, child)) :
    w.state.path parent = some parentPath ∧ parentPath.join name = .ok child := by
  unfold resolve at h
  cases hw : w.ensureWritable with
  | error e => simp [hw, bind, Except.bind] at h
  | ok _ =>
      cases hp : w.state.pathOf parent with
      | error e => simp [hw, hp, bind, Except.bind] at h
      | ok p =>
          cases hj : p.join name with
          | error e => simp [hw, hp, hj, bind, Except.bind] at h
          | ok c =>
              simp only [hw, hp, hj, bind, Except.bind, pure, Except.pure, Except.ok.injEq,
                Prod.mk.injEq] at h
              obtain ⟨rfl, rfl⟩ := h
              exact ⟨State.pathOf_ok.mp hp, hj⟩

lemma resolveRename_ok {w : World ρ} {parent newParent : NodeId} {name newName : Str}
    {srcParent dstParent src dst : RemotePath}
    (h : w.resolveRename parent name newParent newName = .ok (srcParent, dstParent, src, dst)) :
    w.state.path parent = some srcParent ∧ w.state.path newParent = some dstParent ∧
      srcParent.join name = .ok src ∧ dstParent.join newName = .ok dst := by
  unfold resolveRename at h
  cases hw : w.ensureWritable with
  | error e => simp [hw, bind, Except.bind] at h
  | ok _ =>
      cases hp : w.state.pathOf parent with
      | error e => simp [hw, hp, bind, Except.bind] at h
      | ok p =>
          cases hq : w.state.pathOf newParent with
          | error e => simp [hw, hp, hq, bind, Except.bind] at h
          | ok q =>
              cases hj : p.join name with
              | error e => simp [hw, hp, hq, hj, bind, Except.bind] at h
              | ok c =>
                  cases hk : q.join newName with
                  | error e => simp [hw, hp, hq, hj, hk, bind, Except.bind] at h
                  | ok d =>
                      simp only [hw, hp, hq, hj, hk, bind, Except.bind, pure, Except.pure,
                        Except.ok.injEq, Prod.mk.injEq] at h
                      obtain ⟨rfl, rfl, rfl, rfl⟩ := h
                      exact ⟨State.pathOf_ok.mp hp, State.pathOf_ok.mp hq, hj, hk⟩

lemma childPath_of_resolve {w : World ρ} {parent : NodeId} {name : Str}
    {x : RemotePath × RemotePath} (h : w.resolve parent name = .ok x) :
    w.childPath parent name = .ok x.2 :=
  childPath_ok.mpr ⟨x.1, (resolve_ok h).1, (resolve_ok h).2⟩

lemma childPath_of_resolveRename {w : World ρ} {parent newParent : NodeId} {name newName : Str}
    {srcParent dstParent src dst : RemotePath}
    (h : w.resolveRename parent name newParent newName = .ok (srcParent, dstParent, src, dst)) :
    w.childPath parent name = .ok src ∧ w.childPath newParent newName = .ok dst := by
  obtain ⟨hp, hq, hsrc, hdst⟩ := resolveRename_ok h
  exact ⟨childPath_ok.mpr ⟨srcParent, hp, hsrc⟩, childPath_ok.mpr ⟨dstParent, hq, hdst⟩⟩

/-! ## Freshness -/

/-- Online, metadata is fresh within the TTL of its last confirmation. -/
lemma metadataFresh_iff {w : World ρ} (honline : w.offline = false) {path : RemotePath} :
    w.metadataFresh path = true ↔
      ∃ t, w.state.validatedAt path = some t ∧ w.conn.now - t < w.config.metadataTtl := by
  rw [metadataFresh, honline, Bool.false_or]
  cases w.state.validatedAt path <;> simp

lemma freshAttrs_eq_some {w : World ρ} {path : RemotePath} {attributes : FileAttributes} :
    w.freshAttrs path = some attributes ↔
      w.metadataFresh path = true ∧ w.store.getAttrs path = some attributes := by
  unfold freshAttrs
  split
  · next h => simp [h]
  · next h => simp [h]

/-- Online, a not-found answer is fresh within the negative TTL. -/
lemma freshNegative_iff {w : World ρ} (honline : w.offline = false) {parent : NodeId}
    {name : Str} :
    w.freshNegative parent name = true ↔
      ∃ t, w.state.negativeAt (parent, name) = some t ∧
        w.conn.now - t < w.config.negativeTtl := by
  rw [freshNegative, honline]
  cases w.state.negativeAt (parent, name) <;> simp

end World

end CacheShfs
