import CacheShfs.Vfs.Tasks

/-!
# The calls on the tree, step by step

The calls that `Vfs.Tasks` leaves out, as tasks that interleave: `readdir`, `open`, `release`,
`flush`, `create`, `mkdir`, `rmdir`, `rename` and `setattr`.  One step is again one section under
the lock of the state or of the store, or one call of the remote.

Two sections look at more than one path: `readdir` gives all the nodes of a listing under one
lock, and `rename` resolves both of its names under one lock.  A cached listing, in contrast, is
read name by name, and the cache may change between two names.

A task that runs alone does what the sequential call does (`TreePc.runs_readdir` and the others).
-/

namespace CacheShfs

/-- What a call on the tree returns. -/
inductive TreeAnswer
  | entries (result : Except Error (List DirectoryEntry))
  | opened (result : Except Error FileHandle)
  | created (result : Except Error CreatedFile)
  | metadata (result : Except Error FileMetadata)
  | done (result : Except Error Unit)

/-- A name in a directory, and the paths of both. -/
structure Place where
  parent : NodeId
  name : Str
  parentPath : RemotePath
  path : RemotePath

/-- The two calls that make a node. -/
inductive Maker
  | create
  | mkdir

/-- The call of the remote. -/
def Maker.call {ρ : Type} (R : RemoteFilesystem ρ) (path : RemotePath) (mode : UInt32)
    (conn : Conn ρ) : Maker → Except Error FileAttributes × Conn ρ
  | .create => conn.create R path mode
  | .mkdir => conn.mkdir R path mode

/-- The call returns an error. -/
def Maker.failed (error : Error) : Maker → TreeAnswer
  | .create => .created (.error error)
  | .mkdir => .metadata (.error error)

/-- The last section of a call that has made a node: only `create` opens it. -/
def Maker.answer (path : RemotePath) (attributes : FileAttributes) (st : State) :
    Maker → TreeAnswer × State
  | .create =>
      let (node, st) := st.intern path
      let (handle, st) := st.openHandle node path
      (.created (.ok ⟨⟨node, attributes⟩, handle⟩), st)
  | .mkdir =>
      let (node, st) := st.intern path
      (.metadata (.ok ⟨node, attributes⟩), st)

lemma Maker.answer_create (path : RemotePath) (attributes : FileAttributes) (st : State) :
    Maker.create.answer path attributes st =
      (.created (.ok ⟨⟨(st.intern path).1, attributes⟩, ⟨(st.intern path).2.nextHandle⟩⟩),
        ((st.intern path).2.openHandle (st.intern path).1 path).2) := rfl

lemma Maker.answer_mkdir (path : RemotePath) (attributes : FileAttributes) (st : State) :
    Maker.mkdir.answer path attributes st =
      (.metadata (.ok ⟨(st.intern path).1, attributes⟩), (st.intern path).2) := rfl

/-- Where a call on the tree is.  The first nine are calls that have not begun. -/
inductive TreePc
  | readdir (node : NodeId)
  | openFile (node : NodeId) (flags : OpenFlags)
  | release (handle : FileHandle)
  | flush (handle : FileHandle)
  | create (parent : NodeId) (name : Str) (mode : UInt32) (flags : OpenFlags)
  | mkdir (parent : NodeId) (name : Str) (mode : UInt32)
  | rmdir (parent : NodeId) (name : Str)
  | rename (parent : NodeId) (name : Str) (newParent : NodeId) (newName : Str)
  | setattr (node : NodeId) (attributes : SetAttributes)
  | listFresh (path : RemotePath)
  /-- The cached listing is looked for; with an error, the remote has failed with it. -/
  | names (error : Option Error) (path : RemotePath)
  /-- The attributes of the names that are left are looked for, one by one. -/
  | gather (error : Option Error) (path : RemotePath) (rest : List Str)
      (found : List (Str × RemotePath × FileAttributes))
  | internAll (found : List (Str × RemotePath × FileAttributes))
  | listRemote (path : RemotePath)
  | listed (path : RemotePath) (entries : List RemoteDirectoryEntry)
  | record (path : RemotePath) (now : ℕ) (children : List (Str × FileAttributes))
  | stampAll (path : RemotePath) (now : ℕ) (children : List (Str × FileAttributes))
  | truncate (node : NodeId) (path : RemotePath)
  | invalidate (node : NodeId) (path : RemotePath)
  | unstamp (node : NodeId) (path : RemotePath)
  | openHandle (node : NodeId) (path : RemotePath)
  | make (maker : Maker) (place : Place) (mode : UInt32)
  | makePut (maker : Maker) (place : Place) (attributes : FileAttributes)
  | makeUnlist (maker : Maker) (place : Place) (attributes : FileAttributes)
  | makeAnswer (maker : Maker) (place : Place) (attributes : FileAttributes)
  | rmdirRemote (place : Place)
  | remove (place : Place)
  | unlist (place : Place)
  | negate (place : Place)
  | renameRemote (src dst : Place)
  | move (src dst : Place)
  | unlistSrc (src dst : Place)
  | unlistDst (src dst : Place)
  | repoint (src dst : Place)
  | setattrRemote (node : NodeId) (path : RemotePath) (attributes : SetAttributes)
  | setattrPut (node : NodeId) (path : RemotePath) (attributes : FileAttributes)
  | setattrStamp (node : NodeId) (path : RemotePath) (attributes : FileAttributes)
  | done (answer : TreeAnswer)

namespace TreePc

variable {ρ : Type} (R : RemoteFilesystem ρ)

/-- `readdir` goes on where there is no cached listing. -/
def unlisted (w : World ρ) (path : RemotePath) : Option Error → TreePc
  | some e => .done (.entries (.error e))
  | none => if w.offline then .done (.entries (.error .notFound)) else .listRemote path

/-- Where one step leads. -/
def next (w : World ρ) : TreePc → TreePc × World ρ
  | .readdir node =>
      match w.state.pathOf node with
      | .ok path => (.listFresh path, w)
      | .error e => (.done (.entries (.error e)), w)
  | .openFile node flags =>
      match (if flags.write || flags.append || flags.truncate then w.ensureWritable
        else .ok ()) with
      | .error e => (.done (.opened (.error e)), w)
      | .ok () =>
          match w.state.pathOf node with
          | .error e => (.done (.opened (.error e)), w)
          | .ok path =>
              if flags.truncate then (.truncate node path, w) else (.openHandle node path, w)
  | .release handle => (.done (.done (.ok ())), { w with state := w.state.close handle })
  | .flush _ => (.done (.done (.ok ())), w)
  | .create parent name mode _ =>
      match w.resolve parent name with
      | .ok (parentPath, child) => (.make .create ⟨parent, name, parentPath, child⟩ mode, w)
      | .error e => (.done (Maker.create.failed e), w)
  | .mkdir parent name mode =>
      match w.resolve parent name with
      | .ok (parentPath, child) => (.make .mkdir ⟨parent, name, parentPath, child⟩ mode, w)
      | .error e => (.done (Maker.mkdir.failed e), w)
  | .rmdir parent name =>
      match w.resolve parent name with
      | .ok (parentPath, child) => (.rmdirRemote ⟨parent, name, parentPath, child⟩, w)
      | .error e => (.done (.done (.error e)), w)
  | .rename parent name newParent newName =>
      match w.resolveRename parent name newParent newName with
      | .ok (srcParent, dstParent, src, dst) =>
          (.renameRemote ⟨parent, name, srcParent, src⟩ ⟨newParent, newName, dstParent, dst⟩, w)
      | .error e => (.done (.done (.error e)), w)
  | .setattr node attributes =>
      match w.ensureWritable with
      | .error e => (.done (.metadata (.error e)), w)
      | .ok () =>
          match w.state.pathOf node with
          | .error e => (.done (.metadata (.error e)), w)
          | .ok path => (.setattrRemote node path attributes, w)
  | .listFresh path =>
      if w.metadataFresh path then (.names none path, w) else (.listRemote path, w)
  | .names error path =>
      match w.store.getChildren path with
      | none => (unlisted w path error, w)
      | some listing => (.gather error path listing [], w)
  | .gather _ _ [] found => (.internAll found, w)
  | .gather error path (name :: rest) found =>
      match path.join name with
      | .error _ => (unlisted w path error, w)
      | .ok child =>
          match w.store.getAttrs child with
          | some attributes =>
              (.gather error path rest (found ++ [(name, child, attributes)]), w)
          | none => (.gather error path rest found, w)
  | .internAll found =>
      let (entries, state) := World.internChildren found w.state
      (.done (.entries (.ok entries)), { w with state := state })
  | .listRemote path =>
      match w.conn.readDir R path with
      | (.error e, conn) =>
          (if isUnreachable e then .names (some e) path else .done (.entries (.error e)),
            { w with conn := conn })
      | (.ok entries, conn) => (.listed path entries, { w with conn := conn })
  | .listed path entries => (.record path w.conn.now (World.realChildren entries), w)
  | .record path now children =>
      (.stampAll path now children, { w with store := w.store.recordListing path children })
  | .stampAll path now children =>
      match World.stampChildren path now children w.state with
      | (.ok result, state) =>
          (.done (.entries (.ok result)), { w with state := state.stamp path now })
      | (.error e, state) => (.done (.entries (.error e)), { w with state := state })
  | .truncate node path =>
      match w.conn.setattr R path { size := some 0 } with
      | (.error e, conn) => (.done (.opened (.error e)), { w with conn := conn })
      | (.ok _, conn) => (.invalidate node path, { w with conn := conn })
  | .invalidate node path =>
      (.unstamp node path, { w with store := w.store.invalidateContent path })
  | .unstamp node path => (.openHandle node path, { w with state := w.state.unstamp path })
  | .openHandle node path =>
      let (handle, state) := w.state.openHandle node path
      (.done (.opened (.ok handle)), { w with state := state })
  | .make maker place mode =>
      match maker.call R place.path mode w.conn with
      | (.error e, conn) => (.done (maker.failed e), { w with conn := conn })
      | (.ok attributes, conn) => (.makePut maker place attributes, { w with conn := conn })
  | .makePut maker place attributes =>
      (.makeUnlist maker place attributes,
        { w with store := w.store.putAttrs place.path attributes })
  | .makeUnlist maker place attributes =>
      (.makeAnswer maker place attributes,
        { w with store := w.store.invalidateChildren place.parentPath })
  | .makeAnswer maker place attributes =>
      let (answer, state) := maker.answer place.path attributes
        ((w.state.stamp place.path w.conn.now).unnegate place.parent place.name)
      (.done answer, { w with state := state })
  | .rmdirRemote place =>
      match w.conn.rmdir R place.path with
      | (.error e, conn) => (.done (.done (.error e)), { w with conn := conn })
      | (.ok (), conn) => (.remove place, { w with conn := conn })
  | .remove place => (.unlist place, { w with store := w.store.remove place.path })
  | .unlist place =>
      (.negate place, { w with store := w.store.invalidateChildren place.parentPath })
  | .negate place =>
      (.done (.done (.ok ())),
        { w with state := w.state.negate place.parent place.name w.conn.now })
  | .renameRemote src dst =>
      match w.conn.rename R src.path dst.path with
      | (.error e, conn) => (.done (.done (.error e)), { w with conn := conn })
      | (.ok (), conn) => (.move src dst, { w with conn := conn })
  | .move src dst => (.unlistSrc src dst, { w with store := w.store.rename src.path dst.path })
  | .unlistSrc src dst =>
      (.unlistDst src dst, { w with store := w.store.invalidateChildren src.parentPath })
  | .unlistDst src dst =>
      (.repoint src dst, { w with store := w.store.invalidateChildren dst.parentPath })
  | .repoint src dst =>
      let state := (((w.state.renamePath src.path dst.path).unstamp src.path).negate src.parent
        src.name w.conn.now).unnegate dst.parent dst.name
      (.done (.done (.ok ())), { w with state := state })
  | .setattrRemote node path attributes =>
      match w.conn.setattr R path attributes with
      | (.error e, conn) => (.done (.metadata (.error e)), { w with conn := conn })
      | (.ok attributes, conn) => (.setattrPut node path attributes, { w with conn := conn })
  | .setattrPut node path attributes =>
      (.setattrStamp node path attributes,
        { w with store := w.store.putAttrs path attributes })
  | .setattrStamp node path attributes =>
      (.done (.metadata (.ok ⟨node, attributes⟩)),
        { w with state := w.state.stamp path w.conn.now })
  | .done answer => (.done answer, w)

/-! ## What a step can do -/

/-- What one step of a call does to the place it is at and to the world. -/
inductive Steps (R : RemoteFilesystem ρ) (w : World ρ) : TreePc → TreePc → World ρ → Prop
  | readdir {node path} (h : w.state.path node = some path) :
      Steps R w (.readdir node) (.listFresh path) w
  | readdirBad {node e} (h : w.state.path node = none) :
      Steps R w (.readdir node) (.done (.entries (.error e))) w
  | openTruncating {node flags path} (h : w.state.path node = some path)
      (hflag : flags.truncate = true) (hrw : w.config.readOnly = false) :
      Steps R w (.openFile node flags) (.truncate node path) w
  | openPlain {node flags path} (h : w.state.path node = some path) :
      Steps R w (.openFile node flags) (.openHandle node path) w
  | openBad {node flags e} : Steps R w (.openFile node flags) (.done (.opened (.error e))) w
  | release {handle} :
      Steps R w (.release handle) (.done (.done (.ok ())))
        { w with state := w.state.close handle }
  | flush {handle} : Steps R w (.flush handle) (.done (.done (.ok ()))) w
  | create {parent name mode flags parentPath child}
      (h : w.resolve parent name = .ok (parentPath, child)) :
      Steps R w (.create parent name mode flags)
        (.make .create ⟨parent, name, parentPath, child⟩ mode) w
  | createBad {parent name mode flags e} :
      Steps R w (.create parent name mode flags) (.done (Maker.create.failed e)) w
  | mkdir {parent name mode parentPath child}
      (h : w.resolve parent name = .ok (parentPath, child)) :
      Steps R w (.mkdir parent name mode) (.make .mkdir ⟨parent, name, parentPath, child⟩ mode) w
  | mkdirBad {parent name mode e} :
      Steps R w (.mkdir parent name mode) (.done (Maker.mkdir.failed e)) w
  | rmdir {parent name parentPath child} (h : w.resolve parent name = .ok (parentPath, child)) :
      Steps R w (.rmdir parent name) (.rmdirRemote ⟨parent, name, parentPath, child⟩) w
  | rmdirBad {parent name e} : Steps R w (.rmdir parent name) (.done (.done (.error e))) w
  | rename {parent name newParent newName srcParent dstParent src dst}
      (h : w.resolveRename parent name newParent newName = .ok (srcParent, dstParent, src, dst)) :
      Steps R w (.rename parent name newParent newName)
        (.renameRemote ⟨parent, name, srcParent, src⟩ ⟨newParent, newName, dstParent, dst⟩) w
  | renameBad {parent name newParent newName e} :
      Steps R w (.rename parent name newParent newName) (.done (.done (.error e))) w
  | setattr {node attributes path} (h : w.state.path node = some path)
      (hrw : w.config.readOnly = false) :
      Steps R w (.setattr node attributes) (.setattrRemote node path attributes) w
  | setattrBad {node attributes e} :
      Steps R w (.setattr node attributes) (.done (.metadata (.error e))) w
  | listFresh {path} (h : w.metadataFresh path = true) :
      Steps R w (.listFresh path) (.names none path) w
  | listExpired {path} (h : w.metadataFresh path = false) :
      Steps R w (.listFresh path) (.listRemote path) w
  | names {error path listing} (h : w.store.getChildren path = some listing) :
      Steps R w (.names error path) (.gather error path listing []) w
  | noNames {error path} (h : w.store.getChildren path = none) :
      Steps R w (.names error path) (unlisted w path error) w
  | gathered {error path found} : Steps R w (.gather error path [] found) (.internAll found) w
  | gatherBad {error path name rest found e} (h : path.join name = .error e) :
      Steps R w (.gather error path (name :: rest) found) (unlisted w path error) w
  | gather {error path name rest found child attributes} (h : path.join name = .ok child)
      (hattrs : w.store.getAttrs child = some attributes) :
      Steps R w (.gather error path (name :: rest) found)
        (.gather error path rest (found ++ [(name, child, attributes)])) w
  | gatherSkip {error path name rest found child} (h : path.join name = .ok child)
      (hattrs : w.store.getAttrs child = none) :
      Steps R w (.gather error path (name :: rest) found) (.gather error path rest found) w
  | internAll {found} :
      Steps R w (.internAll found)
        (.done (.entries (.ok (World.internChildren found w.state).1)))
        { w with state := (World.internChildren found w.state).2 }
  | listed {path entries conn} (h : w.conn.readDir R path = (.ok entries, conn)) :
      Steps R w (.listRemote path) (.listed path entries) { w with conn := conn }
  | listUnreachable {path e conn} (h : w.conn.readDir R path = (.error e, conn))
      (he : isUnreachable e = true) :
      Steps R w (.listRemote path) (.names (some e) path) { w with conn := conn }
  | listFailed {path e conn} (h : w.conn.readDir R path = (.error e, conn)) :
      Steps R w (.listRemote path) (.done (.entries (.error e))) { w with conn := conn }
  | dated {path entries} :
      Steps R w (.listed path entries)
        (.record path w.conn.now (World.realChildren entries)) w
  | record {path now children} :
      Steps R w (.record path now children) (.stampAll path now children)
        { w with store := w.store.recordListing path children }
  | stampAll {path now children result st}
      (h : World.stampChildren path now children w.state = (.ok result, st)) :
      Steps R w (.stampAll path now children) (.done (.entries (.ok result)))
        { w with state := st.stamp path now }
  | stampPartly {path now children e st}
      (h : World.stampChildren path now children w.state = (.error e, st)) :
      Steps R w (.stampAll path now children) (.done (.entries (.error e)))
        { w with state := st }
  | truncated {node path attributes conn}
      (h : w.conn.setattr R path { size := some 0 } = (.ok attributes, conn)) :
      Steps R w (.truncate node path) (.invalidate node path) { w with conn := conn }
  | truncateFailed {node path e conn}
      (h : w.conn.setattr R path { size := some 0 } = (.error e, conn)) :
      Steps R w (.truncate node path) (.done (.opened (.error e))) { w with conn := conn }
  | invalidate {node path} :
      Steps R w (.invalidate node path) (.unstamp node path)
        { w with store := w.store.invalidateContent path }
  | unstamp {node path} :
      Steps R w (.unstamp node path) (.openHandle node path)
        { w with state := w.state.unstamp path }
  | openHandle {node path} :
      Steps R w (.openHandle node path) (.done (.opened (.ok ⟨w.state.nextHandle⟩)))
        { w with state := (w.state.openHandle node path).2 }
  | made {maker place mode attributes conn}
      (h : maker.call R place.path mode w.conn = (.ok attributes, conn)) :
      Steps R w (.make maker place mode) (.makePut maker place attributes)
        { w with conn := conn }
  | makeFailed {maker place mode e conn}
      (h : maker.call R place.path mode w.conn = (.error e, conn)) :
      Steps R w (.make maker place mode) (.done (maker.failed e)) { w with conn := conn }
  | makePut {maker place attributes} :
      Steps R w (.makePut maker place attributes) (.makeUnlist maker place attributes)
        { w with store := w.store.putAttrs place.path attributes }
  | makeUnlist {maker place attributes} :
      Steps R w (.makeUnlist maker place attributes) (.makeAnswer maker place attributes)
        { w with store := w.store.invalidateChildren place.parentPath }
  | makeAnswer {maker place attributes answer st}
      (h : maker.answer place.path attributes ((w.state.stamp place.path w.conn.now).unnegate
        place.parent place.name) = (answer, st)) :
      Steps R w (.makeAnswer maker place attributes) (.done answer) { w with state := st }
  | rmdired {place conn} (h : w.conn.rmdir R place.path = (.ok (), conn)) :
      Steps R w (.rmdirRemote place) (.remove place) { w with conn := conn }
  | rmdirFailed {place e conn} (h : w.conn.rmdir R place.path = (.error e, conn)) :
      Steps R w (.rmdirRemote place) (.done (.done (.error e))) { w with conn := conn }
  | remove {place} :
      Steps R w (.remove place) (.unlist place)
        { w with store := w.store.remove place.path }
  | unlist {place} :
      Steps R w (.unlist place) (.negate place)
        { w with store := w.store.invalidateChildren place.parentPath }
  | negate {place} :
      Steps R w (.negate place) (.done (.done (.ok ())))
        { w with state := w.state.negate place.parent place.name w.conn.now }
  | renamed {src dst conn} (h : w.conn.rename R src.path dst.path = (.ok (), conn)) :
      Steps R w (.renameRemote src dst) (.move src dst) { w with conn := conn }
  | renameFailed {src dst e conn} (h : w.conn.rename R src.path dst.path = (.error e, conn)) :
      Steps R w (.renameRemote src dst) (.done (.done (.error e))) { w with conn := conn }
  | move {src dst} :
      Steps R w (.move src dst) (.unlistSrc src dst)
        { w with store := w.store.rename src.path dst.path }
  | unlistSrc {src dst} :
      Steps R w (.unlistSrc src dst) (.unlistDst src dst)
        { w with store := w.store.invalidateChildren src.parentPath }
  | unlistDst {src dst} :
      Steps R w (.unlistDst src dst) (.repoint src dst)
        { w with store := w.store.invalidateChildren dst.parentPath }
  | repoint {src dst} :
      Steps R w (.repoint src dst) (.done (.done (.ok ())))
        { w with state := (((w.state.renamePath src.path dst.path).unstamp src.path).negate
            src.parent src.name w.conn.now).unnegate dst.parent dst.name }
  | set {node path attributes result conn}
      (h : w.conn.setattr R path attributes = (.ok result, conn)) :
      Steps R w (.setattrRemote node path attributes) (.setattrPut node path result)
        { w with conn := conn }
  | setFailed {node path attributes e conn}
      (h : w.conn.setattr R path attributes = (.error e, conn)) :
      Steps R w (.setattrRemote node path attributes) (.done (.metadata (.error e)))
        { w with conn := conn }
  | setattrPut {node path attributes} :
      Steps R w (.setattrPut node path attributes) (.setattrStamp node path attributes)
        { w with store := w.store.putAttrs path attributes }
  | setattrStamp {node path attributes} :
      Steps R w (.setattrStamp node path attributes)
        (.done (.metadata (.ok ⟨node, attributes⟩)))
        { w with state := w.state.stamp path w.conn.now }
  | idle {answer} : Steps R w (.done answer) (.done answer) w

lemma writable_of_ok {w : World ρ} (h : w.ensureWritable = .ok ()) :
    w.config.readOnly = false := by
  unfold World.ensureWritable at h
  split at h
  · cases h
  · next hro => simpa using hro

lemma steps_next (w : World ρ) (pc : TreePc) : Steps R w pc (pc.next R w).1 (pc.next R w).2 := by
  cases pc with
  | readdir node =>
      rw [next]
      split
      · next h => exact .readdir (State.pathOf_ok.mp h)
      · next h => exact .readdirBad (State.path_of_pathOf_error h)
  | openFile node flags =>
      rw [next]
      split
      · exact .openBad
      · next hrw =>
          split
          · exact .openBad
          · next h =>
              split
              · next hflag =>
                  rw [hflag, Bool.or_true, if_pos rfl] at hrw
                  exact .openTruncating (State.pathOf_ok.mp h) hflag (writable_of_ok hrw)
              · exact .openPlain (State.pathOf_ok.mp h)
  | release handle => exact .release
  | flush handle => exact .flush
  | create parent name mode flags =>
      rw [next]
      split
      · next h => exact .create h
      · exact .createBad
  | mkdir parent name mode =>
      rw [next]
      split
      · next h => exact .mkdir h
      · exact .mkdirBad
  | rmdir parent name =>
      rw [next]
      split
      · next h => exact .rmdir h
      · exact .rmdirBad
  | rename parent name newParent newName =>
      rw [next]
      split
      · next h => exact .rename h
      · exact .renameBad
  | setattr node attributes =>
      rw [next]
      split
      · exact .setattrBad
      · next hrw =>
          split
          · exact .setattrBad
          · next h => exact .setattr (State.pathOf_ok.mp h) (writable_of_ok hrw)
  | listFresh path =>
      rw [next]
      split
      · next h => exact .listFresh h
      · next h => exact .listExpired (by simpa using h)
  | names error path =>
      rw [next]
      split
      · next h => exact .noNames h
      · next h => exact .names h
  | gather error path listing found =>
      cases listing with
      | nil => exact .gathered
      | cons name rest =>
          rw [next]
          split
          · next h => exact .gatherBad h
          · next h =>
              split
              · next hattrs => exact .gather h hattrs
              · next hattrs => exact .gatherSkip h hattrs
  | internAll found => exact .internAll
  | listRemote path =>
      rw [next]
      split
      · next h =>
          split
          · next he => exact .listUnreachable h he
          · exact .listFailed h
      · next h => exact .listed h
  | listed path entries => exact .dated
  | record path now children => exact .record
  | stampAll path now children =>
      rw [next]
      split
      · next h => exact .stampAll h
      · next h => exact .stampPartly h
  | truncate node path =>
      rw [next]
      split
      · next h => exact .truncateFailed h
      · next h => exact .truncated h
  | invalidate node path => exact .invalidate
  | unstamp node path => exact .unstamp
  | openHandle node path => exact .openHandle
  | make maker place mode =>
      rw [next]
      split
      · next h => exact .makeFailed h
      · next h => exact .made h
  | makePut maker place attributes => exact .makePut
  | makeUnlist maker place attributes => exact .makeUnlist
  | makeAnswer maker place attributes => exact .makeAnswer rfl
  | rmdirRemote place =>
      rw [next]
      split
      · next h => exact .rmdirFailed h
      · next h => exact .rmdired h
  | remove place => exact .remove
  | unlist place => exact .unlist
  | negate place => exact .negate
  | renameRemote src dst =>
      rw [next]
      split
      · next h => exact .renameFailed h
      · next h => exact .renamed h
  | move src dst => exact .move
  | unlistSrc src dst => exact .unlistSrc
  | unlistDst src dst => exact .unlistDst
  | repoint src dst => exact .repoint
  | setattrRemote node path attributes =>
      rw [next]
      split
      · next h => exact .setFailed h
      · next h => exact .set h
  | setattrPut node path attributes => exact .setattrPut
  | setattrStamp node path attributes => exact .setattrStamp
  | done answer => exact .idle

attribute [local simp] next

/-! ## A call that runs alone -/

/-- Some steps of a call lead from one place to another. -/
def Runs : TreePc × World ρ → TreePc × World ρ → Prop :=
  Relation.ReflTransGen fun x y => y = x.1.next R x.2

variable {R}

lemma Runs.next {pc : TreePc} {w : World ρ} {z : TreePc × World ρ}
    (h : Runs R (pc.next R w) z) : Runs R (pc, w) z :=
  Relation.ReflTransGen.head rfl h

/-- The names of a cached listing, one by one. -/
lemma runs_gather (error : Option Error) (path : RemotePath) (listing : List Str)
    (found : List (Str × RemotePath × FileAttributes)) (w : World ρ) :
    Runs R (.gather error path listing found, w)
      (match World.cachedChildren path w.store listing with
        | some children => (.internAll (found ++ children), w)
        | none => (unlisted w path error, w)) := by
  induction listing generalizing found with
  | nil =>
      simp only [World.cachedChildren, List.append_nil]
      exact Runs.next .refl
  | cons name rest ih =>
      refine Runs.next ?_
      rw [TreePc.next, World.cachedChildren]
      cases path.join name with
      | error e => exact .refl
      | ok child =>
          simp only
          cases w.store.getAttrs child with
          | none =>
              refine (ih found).trans ?_
              cases World.cachedChildren path w.store rest <;> exact .refl
          | some attributes =>
              refine (ih _).trans ?_
              cases World.cachedChildren path w.store rest with
              | none => exact .refl
              | some children =>
                  simp only [List.append_assoc, List.singleton_append]
                  exact .refl

/-- The cached listing, before the remote is asked or after it has failed. -/
lemma runs_names (error : Option Error) (path : RemotePath) (w : World ρ) :
    Runs R (.names error path, w)
      (match w.readdirFromCache path with
        | some (entries, w') => (.done (.entries (.ok entries)), w')
        | none => (unlisted w path error, w)) := by
  refine Runs.next ?_
  rw [TreePc.next, World.readdirFromCache]
  cases w.store.getChildren path with
  | none => exact .refl
  | some listing =>
      refine (runs_gather error path listing [] w).trans ?_
      simp only
      cases World.cachedChildren path w.store listing with
      | none => exact .refl
      | some children => exact Runs.next .refl

/-- The part of `readdir` that asks the remote. -/
lemma runs_listRemote (path : RemotePath) (w : World ρ) :
    Runs R (.listRemote path, w)
      (.done (.entries (w.readdirRemote R path).1), (w.readdirRemote R path).2) := by
  refine Runs.next ?_
  rw [TreePc.next, World.readdirRemote]
  cases hread : w.conn.readDir R path with
  | mk answer conn =>
      cases answer with
      | error e =>
          simp only
          by_cases he : isUnreachable e = true
          · rw [if_pos he, if_pos he]
            refine (runs_names (some e) path _).trans ?_
            cases World.readdirFromCache path { w with conn := conn } with
            | none => exact .refl
            | some found => exact .refl
          · rw [if_neg he, if_neg he]
            exact .refl
      | ok entries =>
          refine Runs.next (Runs.next (Runs.next ?_))
          simp only [TreePc.next]
          cases World.stampChildren path conn.now (World.realChildren entries) w.state with
          | mk answer st =>
              cases answer with
              | ok result => exact .refl
              | error e => exact .refl

/-- **A `readdir` that runs alone** is the sequential one. -/
theorem runs_readdir (w : World ρ) (node : NodeId) :
    Runs R (.readdir node, w)
      (.done (.entries (w.readdir R node).1), (w.readdir R node).2) := by
  refine Runs.next ?_
  rw [TreePc.next, World.readdir]
  cases w.state.pathOf node with
  | error e => exact .refl
  | ok path =>
      refine Runs.next ?_
      rw [TreePc.next]
      simp only
      by_cases hfresh : w.metadataFresh path = true
      · rw [if_pos hfresh, if_pos hfresh]
        refine (runs_names none path w).trans ?_
        cases w.readdirFromCache path with
        | some found => exact .refl
        | none =>
            simp only [unlisted]
            by_cases hoffline : w.offline = true
            · rw [if_pos hoffline, if_pos hoffline]
            · rw [if_neg hoffline, if_neg hoffline]
              exact runs_listRemote path w
      · have honline : w.offline = false := by
          simp only [World.metadataFresh, Bool.or_eq_true, not_or] at hfresh
          simpa using hfresh.1
        rw [if_neg hfresh, if_neg hfresh]
        simp only [honline, Bool.false_eq_true, if_false]
        exact runs_listRemote path w

/-- **An `open` that runs alone** is the sequential one. -/
theorem runs_openFile (w : World ρ) (node : NodeId) (flags : OpenFlags) :
    Runs R (.openFile node flags, w)
      (.done (.opened (w.openFile R node flags).1), (w.openFile R node flags).2) := by
  refine Runs.next ?_
  rw [TreePc.next, World.openFile]
  cases (if flags.write || flags.append || flags.truncate then w.ensureWritable else .ok ()) with
  | error e => exact .refl
  | ok _ =>
      simp only
      cases w.state.pathOf node with
      | error e => exact .refl
      | ok path =>
          by_cases hflag : flags.truncate = true
          · simp only [hflag, if_true]
            refine Runs.next ?_
            rw [TreePc.next]
            cases w.conn.setattr R path { size := some 0 } with
            | mk answer conn =>
                cases answer with
                | error e => exact .refl
                | ok _ => exact Runs.next (Runs.next (Runs.next .refl))
          · simp only [hflag, Bool.false_eq_true, if_false]
            exact Runs.next .refl

/-- The steps that make a node, once its path is resolved. -/
lemma runs_make (maker : Maker) (place : Place) (mode : UInt32) (w : World ρ) :
    Runs R (.make maker place mode, w)
      (match maker.call R place.path mode w.conn with
        | (.error e, conn) => (.done (maker.failed e), { w with conn := conn })
        | (.ok attributes, conn) =>
            let answer := maker.answer place.path attributes
              ((w.state.stamp place.path conn.now).unnegate place.parent place.name)
            (.done answer.1,
              { w with
                conn := conn
                store :=
                  (w.store.putAttrs place.path attributes).invalidateChildren place.parentPath
                state := answer.2 })) := by
  refine Runs.next ?_
  rw [TreePc.next]
  cases maker.call R place.path mode w.conn with
  | mk answer conn =>
      cases answer with
      | error e => exact .refl
      | ok attributes => exact Runs.next (Runs.next (Runs.next .refl))

/-- **A `create` that runs alone** is the sequential one. -/
theorem runs_create (w : World ρ) (parent : NodeId) (name : Str) (mode : UInt32)
    (flags : OpenFlags) :
    Runs R (.create parent name mode flags, w)
      (.done (.created (w.create R parent name mode flags).1),
        (w.create R parent name mode flags).2) := by
  refine Runs.next ?_
  rw [TreePc.next, World.create]
  cases w.resolve parent name with
  | error e => exact .refl
  | ok paths =>
      refine (runs_make .create ⟨parent, name, paths.1, paths.2⟩ mode w).trans ?_
      simp only [Maker.call]
      cases w.conn.create R paths.2 mode with
      | mk answer conn => cases answer <;> exact .refl

/-- **A `mkdir` that runs alone** is the sequential one. -/
theorem runs_mkdir (w : World ρ) (parent : NodeId) (name : Str) (mode : UInt32) :
    Runs R (.mkdir parent name mode, w)
      (.done (.metadata (w.mkdir R parent name mode).1), (w.mkdir R parent name mode).2) := by
  refine Runs.next ?_
  rw [TreePc.next, World.mkdir]
  cases w.resolve parent name with
  | error e => exact .refl
  | ok paths =>
      refine (runs_make .mkdir ⟨parent, name, paths.1, paths.2⟩ mode w).trans ?_
      simp only [Maker.call]
      cases w.conn.mkdir R paths.2 mode with
      | mk answer conn => cases answer <;> exact .refl

/-- **An `rmdir` that runs alone** is the sequential one. -/
theorem runs_rmdir (w : World ρ) (parent : NodeId) (name : Str) :
    Runs R (.rmdir parent name, w)
      (.done (.done (w.rmdir R parent name).1), (w.rmdir R parent name).2) := by
  refine Runs.next ?_
  rw [TreePc.next, World.rmdir]
  cases w.resolve parent name with
  | error e => exact .refl
  | ok paths =>
      refine Runs.next ?_
      rw [TreePc.next]
      simp only
      cases w.conn.rmdir R paths.2 with
      | mk answer conn =>
          cases answer with
          | error e => exact .refl
          | ok _ => exact Runs.next (Runs.next (Runs.next .refl))

/-- **A `rename` that runs alone** is the sequential one. -/
theorem runs_rename (w : World ρ) (parent : NodeId) (name : Str) (newParent : NodeId)
    (newName : Str) :
    Runs R (.rename parent name newParent newName, w)
      (.done (.done (w.rename R parent name newParent newName).1),
        (w.rename R parent name newParent newName).2) := by
  refine Runs.next ?_
  rw [TreePc.next, World.rename]
  cases w.resolveRename parent name newParent newName with
  | error e => exact .refl
  | ok paths =>
      obtain ⟨srcParent, dstParent, src, dst⟩ := paths
      refine Runs.next ?_
      rw [TreePc.next]
      simp only
      cases w.conn.rename R src dst with
      | mk answer conn =>
          cases answer with
          | error e => exact .refl
          | ok _ => exact Runs.next (Runs.next (Runs.next (Runs.next .refl)))

/-- **A `setattr` that runs alone** is the sequential one. -/
theorem runs_setattr (w : World ρ) (node : NodeId) (attributes : SetAttributes) :
    Runs R (.setattr node attributes, w)
      (.done (.metadata (w.setattr R node attributes).1), (w.setattr R node attributes).2) := by
  refine Runs.next ?_
  rw [TreePc.next, World.setattr]
  cases w.ensureWritable with
  | error e => exact .refl
  | ok _ =>
      simp only
      cases w.state.pathOf node with
      | error e => exact .refl
      | ok path =>
          refine Runs.next ?_
          rw [TreePc.next]
          simp only
          cases w.conn.setattr R path attributes with
          | mk answer conn =>
              cases answer with
              | error e => exact .refl
              | ok _ => exact Runs.next (Runs.next .refl)

/-- **A `release` that runs alone** is the sequential one. -/
theorem runs_release (w : World ρ) (handle : FileHandle) :
    Runs R (.release handle, w) (.done (.done (w.release handle).1), (w.release handle).2) :=
  Runs.next .refl

end TreePc

end CacheShfs
