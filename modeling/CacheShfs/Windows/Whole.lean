import CacheShfs.Windows.Walks

/-!
# The mount as Windows sees it

What the callbacks of WinFsp make of the files on the server, when nobody else uses it and nothing
is renamed.  A callback makes several calls: a write at the end of a file asks for the size first,
and every change is followed by a question for the attributes.  `FileRequest.Serves` and
`VolumeRequest.Serves` say what a callback may answer and what becomes of the volume, and know of no
cache; `FileRequest.Fails` and `VolumeRequest.Fails` say why one may fail.

`callbacks_serve_tree`: in every run every callback is served so.  A file is opened where its name
leads to, a write at the end appends to what the server has, a constrained write keeps the length
of its file, and a new enumeration lists exactly the children.  A callback that fails has changed
nothing, and its reason is in the tree or in an answer of the server.
-/

namespace CacheShfs

open Machine Program Slice

namespace Windows

/-! ## Changes -/

/-- Where a write goes: to the end of the file, or to an offset. -/
def writeStart (f : Bytes) (offset : ℕ) (writeToEof : Bool) : ℕ :=
  if writeToEof then f.length else offset

/-- What is written: a constrained write goes no further than the end of the file. -/
def writeData (f buffer : Bytes) (start : ℕ) (constrainedIo : Bool) : Bytes :=
  if constrainedIo then buffer.take (f.length - start) else buffer

/-- **What a write makes of a file**, from where it starts.  A constrained write that finds no room
leaves the file. -/
def rewritten (f buffer : Bytes) (start : ℕ) (constrainedIo : Bool) : Bytes :=
  if constrainedIo = true ∧ f.length ≤ start then f
  else written f start (writeData f buffer start constrainedIo)

/-- A write at the end appends. -/
lemma rewritten_eof (f buffer : Bytes) (offset : ℕ) :
    rewritten f buffer (writeStart f offset true) false = f ++ buffer := by
  cases buffer with
  | nil => simp [rewritten, writeData, written]
  | cons _ _ => simp [rewritten, writeStart, writeData, written, Memory.overwrite]

/-- A constrained write keeps the length. -/
lemma length_rewritten (f buffer : Bytes) (start : ℕ) :
    (rewritten f buffer start true).length = f.length := by
  unfold rewritten
  split
  · rfl
  · next hroom =>
      have hstart : start < f.length := by simpa using hroom
      unfold written
      split
      · rfl
      · simp only [Memory.overwrite, writeData, if_true, List.length_append, List.length_take,
          List.length_replicate, List.length_drop]
        omega

/-- Information that shows the node at a path. -/
def FileInfo.Shows (info : FileInfo) (t : CacheShfs.Tree) (path : RemotePath) : Prop :=
  ∃ node, t path.asStr = some node ∧
    ∀ f m, node = .file f m → info.fileSize.toNat = f.length

/-- The change that a callback with the context of a file makes to a tree. -/
def FileRequest.Changes (path : RemotePath) (t t' : CacheShfs.Tree) : FileRequest → Prop
  | .overwrite => (Change.set path { size := some 0 }).Effect t t'
  | .setBasicInfo attributes accessed written => (Change.set path
      (setAttributes (basicInfoAttributes attributes accessed written))).Effect t t'
  | .setFileSize newSize false => (Change.set path { size := some newSize }).Effect t t'
  | .write buffer offset writeToEof constrainedIo =>
      (∀ f m, t path.asStr = some (.file f m) → ∃ m', t' = Function.update t path.asStr
        (some (.file (rewritten f buffer (writeStart f offset.toNat writeToEof) constrainedIo)
          m'))) ∧
      ((∀ f m, t path.asStr ≠ some (.file f m)) → t' = t)
  | _ => t' = t

/-- The change that a creation asks for. -/
def creation (createOptions fileAttributes : UInt32) (path : RemotePath) : Mutation :=
  if createOptions &&& fileDirectoryFile ≠ 0 then .mkdir path (modeForCreate fileAttributes true)
  else .create path (modeForCreate fileAttributes false)

/-- The change that a deletion asks for. -/
def deletion (isDir : Bool) (path : RemotePath) : Mutation :=
  if isDir then .rmdir path else .unlink path

/-! ## Failures -/

/-- A change of what a name stands for is not made: there is no directory for the name, or the
change is denied. -/
def Unmade (root : RemotePath) (fileName : Str) (mutation : RemotePath → Mutation)
    (v v' : Volume) : Prop :=
  Unplaced v.tree root fileName ∨ ∃ dir leaf, PlacedIn v.tree root fileName dir leaf ∧
    ∀ path, dir.join leaf = .ok path → v.Denies v' (mutation path)

/-- A name that `read_directory` shows. -/
def ShownIn (t : CacheShfs.Tree) (dir : RemotePath) (name : Str) : Prop :=
  name = ['.'] ∨ name = ['.', '.'] ∨
    ValidComponent name ∧ t (childKey dir.asStr name) ≠ none

/-- **Why a callback with the context of a file fails.**  The others do not. -/
def FileRequest.Fails (setName : Str → Except UInt32 Unit) (context : FileContext)
    (path : RemotePath) (v v' : Volume) : FileRequest → Prop
  | .flush => v.tree path.asStr = none
  | .getFileInfo => v.tree path.asStr = none
  | .overwrite => v.Denies v' (.setattr path { size := some 0 })
  | .setBasicInfo attributes accessed written =>
      v.Denies v' (.setattr path (basicInfoAttributes attributes accessed written))
  | .setFileSize newSize false => v.Denies v' (.setattr path { size := some newSize })
  | .setFileSize _ true => v.tree path.asStr = none
  | .readDirectory restart => (context.dirBuffer = none ∨ restart = true) ∧
      (v.tree path.asStr ≠ some .dir ∨
        ∃ name status, setName name = .error status ∧ ShownIn v.tree path name)
  | .read _ _ => context.handle = none ∨ ∀ f m, v.tree path.asStr ≠ some (.file f m)
  | .write buffer offset writeToEof constrainedIo => context.handle = none ∨
      ∀ f m, v.tree path.asStr = some (.file f m) → ∃ start : UInt64,
        start.toNat = writeStart f offset.toNat writeToEof ∧
        ¬ (constrainedIo = true ∧ f.length ≤ start.toNat) ∧
        v.Denies v' (.write path start (writeData f buffer start.toNat constrainedIo))
  | _ => False

/-- **Why a callback on the volume fails.**  `root` is the path of the volume. -/
def VolumeRequest.Fails (root : RemotePath) (v v' : Volume) : VolumeRequest → Prop
  | .getSecurityByName fileName => Unfound v.tree root fileName
  | .openFile fileName createOptions grantedAccess => Unfound v.tree root fileName ∨
      v.readOnly = true ∧ ((openFlags createOptions grantedAccess).write ||
        (openFlags createOptions grantedAccess).append) = true ∧
      ∃ path f m, Reaches v.tree root (components fileName) path ∧
        v.tree path.asStr = some (.file f m)
  | .create fileName createOptions _ fileAttributes =>
      Unmade root fileName (creation createOptions fileAttributes) v v'
  | .flush => False

/-! ## Answers -/

/-- The callback answers with the attributes of the file. -/
def FileRequest.TellsInfo : FileRequest → Prop
  | .flush | .getFileInfo | .overwrite | .setBasicInfo _ _ _ | .setFileSize _ _ => True
  | _ => False

/-- **What a cleanup does.**  If the context is marked and the deletion is asked for, what the name
stands for is deleted, or this fails and is not told. -/
def Cleans (root : RemotePath) (context : FileContext) (fileName : Option Str) (flags : UInt32)
    (v v' : Volume) : Prop :=
  (v'.tree = v.tree ∧ (flags &&& fspCleanupDelete = 0 ∨ context.deletePending = false ∨
    ∀ name, fileName = some name → Unmade root name (deletion context.isDir) v v')) ∨
  (flags &&& fspCleanupDelete ≠ 0 ∧ context.deletePending = true ∧ ∃ name path,
    fileName = some name ∧ NamedAt v.tree root name path ∧
    (deletion context.isDir path).change.Effect v.tree v'.tree)

/-- **What a callback with the context of a file may answer.** -/
inductive FileRequest.Serves (setName : Str → Except UInt32 Unit) (root : RemotePath)
    (context : FileContext) (path : RemotePath) (v v' : Volume) : FileRequest → FspReply → Prop
  | failed {request status} (hwhy : request.Fails setName context path v v')
      (h : v'.tree = v.tree) : Serves setName root context path v v' request (.error status)
  | close (h : v'.tree = v.tree) : Serves setName root context path v v' .close .done
  | setDelete {deleteFile} (h : v'.tree = v.tree) :
      Serves setName root context path v v' (.setDelete deleteFile) .done
  | cleanup {fileName flags} (h : Cleans root context fileName flags v v') :
      Serves setName root context path v v' (.cleanup fileName flags) .done
  | info {request info} (hinfo : request.TellsInfo) (h : request.Changes path v.tree v'.tree)
      (hshows : info.Shows v'.tree path) :
      Serves setName root context path v v' request (.info info)
  | data {length offset data} (h : v'.tree = v.tree)
      (hdata : ∀ f m, v.tree path.asStr = some (.file f m) →
        data = slice f offset.toNat (offset.toNat + (UInt32.ofNat length).toNat)) :
      Serves setName root context path v v' (.read length offset) (.data data)
  /-- A new enumeration names the children, after the directory itself and its parent. -/
  | enumerated {restart entries names} (h : v'.tree = v.tree)
      (hnew : context.dirBuffer = none ∨ restart = true)
      (hnames : entries.map DirInfo.name = ['.'] :: ['.', '.'] :: names)
      (hlists : ListsExactly v.tree path.asStr names) :
      Serves setName root context path v v' (.readDirectory restart) (.entries entries)
  /-- An enumeration that goes on is the one that was begun. -/
  | continued {entries} (h : v'.tree = v.tree) (hbuffer : context.dirBuffer = some entries) :
      Serves setName root context path v v' (.readDirectory false) (.entries entries)
  | written {buffer offset writeToEof constrainedIo count info}
      (h : (FileRequest.write buffer offset writeToEof constrainedIo).Changes path v.tree v'.tree)
      (hcount : ∀ f m, v.tree path.asStr = some (.file f m) → count = UInt32.ofNat
        (writeData f buffer (writeStart f offset.toNat writeToEof) constrainedIo).length)
      (hshows : info.Shows v'.tree path) :
      Serves setName root context path v v' (.write buffer offset writeToEof constrainedIo)
        (.written count info)

/-- The context of a node: of a directory or, with an open file, of anything else. -/
structure FileContext.Opens (context : FileContext) (path : RemotePath) (v v' : Volume) : Prop where
  inode : v'.inode context.node = some path
  file : context.isDir = false → ∃ handle, context.handle = some handle ∧
    v.file handle = none ∧ v'.file handle = some path

/-- **What a callback on the volume may answer.**  `root` is the path of the volume. -/
inductive VolumeRequest.Serves (root : RemotePath) (v v' : Volume) : VolumeRequest → FspReply → Prop
  | failed {request status} (hwhy : request.Fails root v v') (h : v'.tree = v.tree) :
      Serves root v v' request (.error status)
  | security {fileName attributes path node} (h : v'.tree = v.tree)
      (hreaches : Reaches v.tree root (components fileName) path)
      (hnode : v.tree path.asStr = some node)
      (hdir : attributes = fileAttributeDirectory ↔ node = .dir) :
      Serves root v v' (.getSecurityByName fileName) (.security attributes)
  | opened {fileName createOptions grantedAccess context info path node} (h : v'.tree = v.tree)
      (hreaches : Reaches v.tree root (components fileName) path)
      (hopens : context.Opens path v v') (hnode : v.tree path.asStr = some node)
      (hdir : context.isDir = true ↔ node = .dir) :
      Serves root v v' (.openFile fileName createOptions grantedAccess) (.opened context info)
  | created {fileName createOptions grantedAccess fileAttributes context info path}
      (hnamed : NamedAt v.tree root fileName path)
      (h : (creation createOptions fileAttributes path).change.Effect v.tree v'.tree)
      (hopens : context.Opens path v v')
      (hdir : context.isDir = true ↔ createOptions &&& fileDirectoryFile ≠ 0)
      (hshows : info.info.Shows v'.tree path) :
      Serves root v v' (.create fileName createOptions grantedAccess fileAttributes)
        (.opened context info)
  | done (h : v'.tree = v.tree) : Serves root v v' .flush .done

namespace CacheFs

variable {ρ : Type} {R : RemoteFilesystem ρ} {view : ρ → CacheShfs.Tree} {w : World ρ}
  {context : FileContext} {path root : RemotePath} {setName : Str → Except UInt32 Unit}

/-! ## One callback with the context of a file -/

lemma ends_getFileInfo (hR : Contract R view) (h : World.Sole view w)
    (hpath : w.state.path context.node = some path) :
    Ends (World.vfs R) (getFileInfo context) w
      (fun info w' => w.Looked view w' ∧ info.Shows (view w'.conn.remote) path)
      fun _ w' => w.Looked view w' ∧ view w.conn.remote path.asStr = none := by
  have hlooked : w.Looked view (w.exec R (.getattr context.node)) :=
    World.looked_exec hR h trivial
  rw [getFileInfo, ends_bind, mapErr, ends_adapt, Vfs.getattr, Calls.ends_ask]
  refine ⟨fun metadata hok => ⟨hlooked, ?_⟩, fun e hfail => ⟨hlooked, ?_⟩⟩
  · obtain ⟨path', hpath', node, hnode, -, hsize⟩ := h.getattr_told hR hok
    obtain rfl : path' = path := Option.some.inj (hpath'.symm.trans hpath)
    refine ⟨node, ?_, hsize⟩
    rw [← hnode]
    exact congrFun hlooked.tree _
  · exact h.fails hR (.getattr context.node) (congrArg errorOf hfail) path hpath

/-- The attributes are told of a node that is there. -/
lemma ends_getFileInfo_some (hR : Contract R view) (h : World.Sole view w)
    (hpath : w.state.path context.node = some path)
    (hsome : ∃ node, view w.conn.remote path.asStr = some node) :
    Ends (World.vfs R) (getFileInfo context) w
      (fun info w' => w.Looked view w' ∧ info.Shows (view w'.conn.remote) path)
      fun _ _ => False := by
  refine (ends_getFileInfo hR h hpath).mono (fun _ _ hinfo => hinfo) fun _ _ hfail => ?_
  obtain ⟨node, hnode⟩ := hsome
  exact Option.some_ne_none node (hnode.symm.trans hfail.2)

/-- Attributes are set, and then asked for. -/
lemma ends_setattr (hR : Contract R view) (h : World.Sole view w)
    (hpath : w.state.path context.node = some path) (attributes : SetAttributes) :
    Ends (World.vfs R) (do
        let _ ← mapErr (Vfs.setattr context.node attributes)
        getFileInfo context) w
      (fun info w' => (Change.set path (setAttributes attributes)).Effect (view w.conn.remote)
        (view w'.conn.remote) ∧ info.Shows (view w'.conn.remote) path)
      fun _ w' => view w'.conn.remote = view w.conn.remote ∧
        (w.volume view).Denies (w'.volume view) (.setattr path attributes) := by
  set call : CacheShfs.Call := .setattr context.node attributes with hcall
  rw [ends_bind, mapErr, ends_adapt, Vfs.setattr, Calls.ends_ask]
  refine ⟨fun metadata hok => ?_, fun e hfail => ?_⟩
  · obtain ⟨m, ⟨path', hpath', rfl⟩, heffect⟩ :=
      World.effect_of_success (w := w) hR call trivial (congrArg errorOf hok)
    obtain rfl : path' = path := Option.some.inj (hpath'.symm.trans hpath)
    have hsome : ∃ node, view (w.exec R call).conn.remote path'.asStr = some node := by
      obtain ⟨-, node', -, -, hview⟩ := heffect
      exact ⟨node', by rw [hview, Function.update_self]⟩
    refine (ends_getFileInfo_some (w := w.exec R call) hR (h.exec hR id)
      (World.path_kept h.coherent.wf id hpath) hsome).mono ?_ fun _ _ => False.elim
    rintro info w' ⟨hlooked, hshows⟩
    rw [hlooked.tree]
    exact ⟨heffect, hlooked.tree ▸ hshows⟩
  · have hfailure : w.failure R call = some e := congrArg errorOf hfail
    have hsame : view (w.exec R call).conn.remote = view w.conn.remote :=
      World.view_of_failure hR trivial hfailure
    exact ⟨hsame, World.denies_of_failure hfailure ⟨path, hpath, rfl⟩⟩

/-- Bytes are written at an offset, and then the attributes are asked for. -/
lemma ends_writeAt (hR : Contract R view) (h : World.Sole view w)
    (hpath : w.state.path context.node = some path) {handle : FileHandle}
    (hfile : w.state.file handle = some ⟨context.node, path⟩) (offset : UInt64) (data : Bytes) :
    Ends (World.vfs R) (writeAt context handle offset data) w
      (fun r w' => r.1 = UInt32.ofNat data.length ∧
        (Change.write path offset.toNat data).Effect (view w.conn.remote) (view w'.conn.remote) ∧
        r.2.Shows (view w'.conn.remote) path)
      fun _ w' => view w'.conn.remote = view w.conn.remote ∧
        (w.volume view).Denies (w'.volume view) (.write path offset data) := by
  set call : CacheShfs.Call := .write handle offset data with hcall
  rw [writeAt, ends_bind, mapErr, ends_adapt, Vfs.write, Calls.ends_ask]
  refine ⟨fun written hok => ?_, fun e hfail => ?_⟩
  · obtain ⟨m, ⟨file, hfile', rfl⟩, heffect⟩ :=
      World.effect_of_success (w := w) hR call trivial (congrArg errorOf hok)
    obtain rfl : file = ⟨context.node, path⟩ := Option.some.inj (hfile'.symm.trans hfile)
    have hsome : ∃ node, view (w.exec R call).conn.remote path.asStr = some node := by
      obtain ⟨f, -, m', -, hview⟩ := heffect
      exact ⟨_, by rw [hview, Function.update_self]⟩
    rw [ends_bind]
    refine (ends_getFileInfo_some (w := w.exec R call) hR (h.exec hR id)
      (World.path_kept h.coherent.wf id hpath) hsome).mono ?_ fun _ _ => False.elim
    rintro info w' ⟨hlooked, hshows⟩
    refine ⟨World.Sole.write_told hR hok, ?_, hshows⟩
    rw [hlooked.tree]
    exact heffect
  · have hfailure : w.failure R call = some e := congrArg errorOf hfail
    have hsame : view (w.exec R call).conn.remote = view w.conn.remote :=
      World.view_of_failure hR trivial hfailure
    exact ⟨hsame, World.denies_of_failure hfailure ⟨⟨context.node, path⟩, hfile, rfl⟩⟩

/-- A write changes the file as the callback asks, if it starts there and writes that. -/
lemma changes_of_effect {t t' : CacheShfs.Tree} {buffer data : Bytes} {offset start : UInt64}
    {writeToEof constrainedIo : Bool}
    (hplaced : ∀ f m, t path.asStr = some (.file f m) →
      start.toNat = writeStart f offset.toNat writeToEof ∧
      data = writeData f buffer start.toNat constrainedIo ∧
      ¬ (constrainedIo = true ∧ f.length ≤ start.toNat))
    (heffect : (Change.write path start.toNat data).Effect t t') :
    (FileRequest.write buffer offset writeToEof constrainedIo).Changes path t t' := by
  obtain ⟨f, m, m', hnode, ht'⟩ := heffect
  refine ⟨fun f' m'' hnode' => ⟨m', ?_⟩, fun hnone => absurd hnode (hnone f m)⟩
  obtain ⟨rfl, rfl⟩ := RemoteNode.file.inj (Option.some.inj (hnode.symm.trans hnode'))
  obtain ⟨hstart, hdata, hroom⟩ := hplaced f m hnode
  rw [← hstart, rewritten, if_neg hroom, ← hdata]
  exact ht'

/-- A constrained write that starts at the end of the file or behind it has nothing to do. -/
lemma changes_of_noRoom {t : CacheShfs.Tree} {buffer : Bytes} {offset : UInt64}
    {writeToEof : Bool} (hroom : ∀ f m, t path.asStr = some (.file f m) →
      f.length ≤ writeStart f offset.toNat writeToEof) :
    (FileRequest.write buffer offset writeToEof true).Changes path t t := by
  refine ⟨fun f m hnode => ⟨m, ?_⟩, fun _ => rfl⟩
  rw [rewritten, if_pos ⟨rfl, hroom f m hnode⟩, ← hnode, Function.update_eq_self]

lemma serves_writeAt (hR : Contract R view) {w₁ : World ρ} (hlooked : w.Looked view w₁)
    (hpath : w.state.path context.node = some path) {handle : FileHandle}
    (hfile : w.state.file handle = some ⟨context.node, path⟩) {buffer data : Bytes}
    {offset start : UInt64} {writeToEof constrainedIo : Bool}
    (hplaced : ∀ f m, view w.conn.remote path.asStr = some (.file f m) →
      start.toNat = writeStart f offset.toNat writeToEof ∧
      data = writeData f buffer start.toNat constrainedIo ∧
      ¬ (constrainedIo = true ∧ f.length ≤ start.toNat)) :
    Ends (World.vfs R) (writeAt context handle start data) w₁
      (fun r w' => FileRequest.Serves setName root context path (w.volume view) (w'.volume view)
        (.write buffer offset writeToEof constrainedIo) (.written r.1 r.2))
      fun status w' => FileRequest.Serves setName root context path (w.volume view)
        (w'.volume view) (.write buffer offset writeToEof constrainedIo) (.error status) := by
  have hwrite := ends_writeAt hR hlooked.sole (hlooked.path _ _ hpath)
    ((hlooked.file handle).trans hfile) start data
  rw [hlooked.tree] at hwrite
  refine hwrite.mono ?_ ?_
  · rintro r w' ⟨hcount, heffect, hshows⟩
    refine .written (changes_of_effect hplaced heffect) (fun f m hnode => ?_) hshows
    obtain ⟨hstart, hdata, -⟩ := hplaced f m hnode
    rw [hcount, ← hstart, ← hdata]
  · rintro status w' ⟨hsame, hdenies⟩
    refine .failed (.inr fun f m hnode => ?_) hsame
    obtain ⟨hstart, hdata, hroom⟩ := hplaced f m hnode
    rw [hdata] at hdenies
    exact ⟨start, hstart, hroom, hlooked.denies hdenies⟩

/-- A write needs a file. -/
lemma failed_of_missing {w' : World ρ} (hlooked : w.Looked view w')
    (hnone : view w.conn.remote path.asStr = none) {buffer : Bytes} {offset : UInt64}
    {writeToEof constrainedIo : Bool} {status : UInt32} :
    FileRequest.Serves setName root context path (w.volume view) (w'.volume view)
      (.write buffer offset writeToEof constrainedIo) (.error status) :=
  .failed (.inr fun _ _ hf => absurd (hf.symm.trans hnone) (Option.some_ne_none _)) hlooked.tree

lemma serves_write (hR : Contract R view) (h : World.Sole view w)
    (hpath : w.state.path context.node = some path)
    (hfile : ∀ handle, context.handle = some handle →
      w.state.file handle = some ⟨context.node, path⟩)
    (buffer : Bytes) (offset : UInt64) (writeToEof constrainedIo : Bool) :
    Ends (World.vfs R) (write context buffer offset writeToEof constrainedIo) w
      (fun r w' => FileRequest.Serves setName root context path (w.volume view) (w'.volume view)
        (.write buffer offset writeToEof constrainedIo) (.written r.1 r.2))
      fun status w' => FileRequest.Serves setName root context path (w.volume view)
        (w'.volume view) (.write buffer offset writeToEof constrainedIo) (.error status) := by
  unfold write
  split
  · next hnone => exact .failed (.inl hnone) rfl
  · next handle hhandle =>
      have hopen := hfile handle hhandle
      split
      · have hlooked : w.Looked view (w.exec R (.getattr context.node)) :=
          World.looked_exec hR h trivial
        rw [ends_bind, mapErr, ends_adapt, Vfs.getattr, Calls.ends_ask]
        refine ⟨fun metadata hok => ?_, fun e hfail => failed_of_missing hlooked
          (h.fails hR (.getattr context.node) (congrArg errorOf hfail) path hpath)⟩
        obtain ⟨path', hpath', node, hnode, -, hsize⟩ := h.getattr_told hR hok
        obtain rfl : path' = path := Option.some.inj (hpath'.symm.trans hpath)
        -- the size that the mount has answered is that of the file on the server
        have hlength : ∀ f m, view w.conn.remote path'.asStr = some (.file f m) →
            metadata.attributes.size.toNat = f.length := fun f m hf =>
          hsize f m (Option.some.inj (hnode.symm.trans hf))
        dsimp only
        set start : UInt64 := if writeToEof then metadata.attributes.size else offset with hstart
        have hplaced : ∀ f m, view w.conn.remote path'.asStr = some (.file f m) →
            start.toNat = writeStart f offset.toNat writeToEof := by
          intro f m hf
          rw [hstart, writeStart, ← hlength f m hf]
          split <;> rfl
        split
        · next hconstrained =>
            subst hconstrained
            split
            · next hroom =>
                -- there is no room before the end of the file
                have hnone : ∀ f m, view w.conn.remote path'.asStr = some (.file f m) →
                    f.length ≤ writeStart f offset.toNat writeToEof := by
                  intro f m hf
                  rw [← hplaced f m hf, ← hlength f m hf]
                  exact UInt64.le_iff_toNat_le.mp hroom
                have hsome : ∃ node, view (w.exec R (.getattr context.node)).conn.remote
                    path'.asStr = some node := ⟨node, by rw [hlooked.tree]; exact hnode⟩
                rw [ends_bind]
                refine (ends_getFileInfo_some hR hlooked.sole (hlooked.path _ _ hpath) hsome).mono
                  ?_ fun _ _ => False.elim
                rintro info w' ⟨hl, hshows⟩
                refine .written ?_ (fun f m hf => ?_) hshows
                · show FileRequest.Changes path' (view w.conn.remote) (view w'.conn.remote) _
                  rw [(hlooked.trans hl).tree]
                  exact changes_of_noRoom hnone
                · rw [writeData, if_pos rfl, Nat.sub_eq_zero_of_le (hnone f m hf)]
                  rfl
            · next hroom =>
                have hle : start ≤ metadata.attributes.size := by
                  rw [UInt64.le_iff_toNat_le] at hroom ⊢
                  omega
                refine serves_writeAt hR hlooked hpath hopen fun f m hf =>
                  ⟨hplaced f m hf, ?_, fun hnone => hroom ?_⟩
                · rw [writeData, if_pos rfl, UInt64.toNat_sub_of_le _ _ hle, hlength f m hf,
                    List.take_eq_take_iff]
                  omega
                · rw [UInt64.le_iff_toNat_le, hlength f m hf]
                  exact hnone.2
        · next hfree =>
            refine serves_writeAt hR hlooked hpath hopen fun f m hf =>
              ⟨hplaced f m hf, ?_, fun hroom => hfree hroom.1⟩
            rw [writeData, if_neg hfree]
      · next hplain =>
          refine serves_writeAt hR (.refl h) hpath hopen fun f m hf => ?_
          obtain ⟨rfl, rfl⟩ : writeToEof = false ∧ constrainedIo = false := by
            simpa using hplain
          exact ⟨rfl, rfl, fun hroom => Bool.false_ne_true hroom.1⟩

lemma serves_read (hR : Contract R view) (h : World.Sole view w)
    (hfile : ∀ handle, context.handle = some handle →
      w.state.file handle = some ⟨context.node, path⟩) (length : ℕ) (offset : UInt64) :
    Ends (World.vfs R) (read context length offset) w
      (fun data w' => FileRequest.Serves setName root context path (w.volume view)
        (w'.volume view) (.read length offset) (.data data))
      fun status w' => FileRequest.Serves setName root context path (w.volume view)
        (w'.volume view) (.read length offset) (.error status) := by
  unfold read
  split
  · next hnone => exact .failed (.inl hnone) rfl
  · next handle hhandle =>
      have hopen := hfile handle hhandle
      set call : CacheShfs.Call := .read handle offset (UInt32.ofNat length) with hcall
      have hsame : view (w.exec R call).conn.remote = view w.conn.remote :=
        World.view_of_not_mutates hR id
      rw [ends_bind, mapErr, ends_adapt, Vfs.read, Calls.ends_ask]
      refine ⟨fun data hok => .data hsame fun f m hf => ?_, fun e hfail => .failed (.inr ?_) hsame⟩
      · obtain ⟨node, hnode, hdata⟩ := h.read_told hR hopen hok
        obtain rfl := hdata f m (Option.some.inj (hnode.symm.trans hf))
        rw [Store.requested, slice_min_length]
        refine List.take_of_length_le ?_
        have hlength : (slice f offset.toNat
            (offset.toNat + (UInt32.ofNat length).toNat)).length ≤ length := by
          have hmod : (UInt32.ofNat length).toNat ≤ length := by
            rw [UInt32.toNat_ofNat']
            exact Nat.mod_le _ _
          rw [length_slice]
          omega
        omega
      · exact h.fails hR call (congrArg errorOf hfail) path
          (congrArg (Option.map OpenFile.path) hopen)

/-! A directory buffer holds what was written into it up to the first name that is refused. -/

lemma writeEntries_ok {entries : List DirInfo} (h : (writeEntries setName entries).2 = .ok ()) :
    (writeEntries setName entries).1 = entries := by
  induction entries with
  | nil => rfl
  | cons entry rest ih =>
      unfold writeEntries at h ⊢
      split at h
      · cases h
      · exact congrArg (entry :: ·) (ih h)

lemma writeEntries_error {entries : List DirInfo} {status : UInt32}
    (h : (writeEntries setName entries).2 = .error status) :
    ∃ entry ∈ entries, setName entry.name = .error status := by
  induction entries with
  | nil => cases h
  | cons entry rest ih =>
      unfold writeEntries at h
      split at h
      · next e hname =>
          obtain rfl : e = status := Except.error.inj h
          exact ⟨entry, List.mem_cons_self, hname⟩
      · obtain ⟨other, hmem, hname⟩ := ih h
        exact ⟨other, List.mem_cons_of_mem _ hmem, hname⟩

lemma looked_fillBuffer (hR : Contract R view) (h : World.Sole view w)
    (setName : Str → Except UInt32 Unit) (node : NodeId) :
    w.Looked view ((fillBuffer setName node).run (World.vfs R) w).2 :=
  World.looked_run hR h (asks_fillBuffer (fun _ h => h) setName node)

/-- What has been written into a buffer, and why it may have ended. -/
structure Fills (setName : Str → Except UInt32 Unit) (t : CacheShfs.Tree) (path : RemotePath)
    (filled : List DirInfo × Except UInt32 Unit) : Prop where
  ok : filled.2 = .ok () → ∃ names,
    filled.1.map DirInfo.name = ['.'] :: ['.', '.'] :: names ∧ ListsExactly t path.asStr names
  error : ∀ status, filled.2 = .error status → t path.asStr ≠ some .dir ∨
    ∃ name status, setName name = .error status ∧ ShownIn t path name

lemma fills_of_notDir {t : CacheShfs.Tree} (hdir : t path.asStr ≠ some .dir)
    {entries : List DirInfo} {status : UInt32} :
    Fills setName t path (entries, .error status) :=
  ⟨nofun, fun _ _ => .inl hdir⟩

/-- A buffer that has been filled names the children of the directory. -/
lemma fills_fillBuffer (hR : Contract R view) (h : World.Sole view w) {node : NodeId}
    (hpath : w.state.path node = some path) (setName : Str → Except UInt32 Unit) :
    Fills setName (view w.conn.remote) path
      ((fillBuffer setName node).run (World.vfs R) w).1 := by
  have hlooked : w.Looked view (w.exec R (.getattr node)) := World.looked_exec hR h trivial
  have hpath' := hlooked.path node path hpath
  have hgetattr : (Vfs.getattr node).run.run (World.vfs R) w =
      ((w.getattr R node).1, w.exec R (.getattr node)) := rfl
  simp only [fillBuffer, run_bind, hgetattr]
  cases hmetadata : (w.getattr R node).1 with
  | error e =>
      have hnone := h.fails hR (.getattr node) (congrArg errorOf hmetadata) path hpath
      exact fills_of_notDir fun hdir => Option.some_ne_none _ (hdir.symm.trans hnone)
  | ok metadata =>
      dsimp only
      split
      · next dots status hdots =>
          obtain ⟨entry, hentry, hname⟩ := writeEntries_error (congrArg Prod.snd hdots)
          refine ⟨nofun, fun _ _ => .inr ⟨entry.name, status, hname, ?_⟩⟩
          simp only [dotEntries, List.mem_cons, List.not_mem_nil, or_false] at hentry
          rcases hentry with rfl | rfl
          · exact .inl rfl
          · exact .inr (.inl rfl)
      · next dots hdots =>
          obtain rfl : dotEntries metadata node = dots :=
            (writeEntries_ok (congrArg Prod.snd hdots)).symm.trans (congrArg Prod.fst hdots)
          have hreaddir : (Vfs.readdir node).run.run (World.vfs R) (w.exec R (.getattr node)) =
              (((w.exec R (.getattr node)).readdir R node).1,
                (w.exec R (.getattr node)).exec R (.readdir node)) := rfl
          simp only [run_bind, hreaddir]
          cases hlisting : ((w.exec R (.getattr node)).readdir R node).1 with
          | error e =>
              have hdir := hlooked.sole.fails hR (.readdir node) (congrArg errorOf hlisting)
                path hpath'
              exact fills_of_notDir (hlooked.tree ▸ hdir)
          | ok children =>
              obtain ⟨dir, hdir, hexact, -⟩ := hlooked.sole.readdir_told hR hlisting
              obtain rfl : dir = path := Option.some.inj (hdir.symm.trans hpath')
              rw [hlooked.tree] at hexact
              refine ⟨fun hok => ⟨children.map DirectoryEntry.name, ?_, hexact⟩,
                fun status herror => .inr ?_⟩
              · have hchildren := writeEntries_ok hok
                simp only [run_pure, hchildren, List.map_append, List.map_map]
                rfl
              · obtain ⟨entry, hentry, hname⟩ := writeEntries_error herror
                obtain ⟨child, hchild, rfl⟩ := List.mem_map.mp hentry
                have hmem := List.mem_map_of_mem (f := DirectoryEntry.name) hchild
                exact ⟨child.name, status, hname, .inr (.inr ((hexact.mem child.name).mp hmem))⟩

/-- The reply of a callback that may fail is one of the two that its end allows. -/
lemma serves_of_ends {α : Type} {p : Callback α} {reply : α → FspReply} {request : FileRequest}
    (h : Ends (World.vfs R) p w
      (fun value w' => FileRequest.Serves setName root context path (w.volume view)
        (w'.volume view) request (reply value))
      fun status w' => FileRequest.Serves setName root context path (w.volume view)
        (w'.volume view) request (.error status)) (after : Option FileContext) :
    FileRequest.Serves setName root context path (w.volume view)
      ((((fun r => (FspReply.ofResult reply r, after)) <$> p.run).run (World.vfs R)
        w).2.volume view) request
      (((fun r => (FspReply.ofResult reply r, after)) <$> p.run).run (World.vfs R) w).1.1 := by
  rcases h.result fun r => (FspReply.ofResult reply r, after) with
    ⟨value, hvalue, hserves⟩ | ⟨status, hstatus, hserves⟩
  · rw [hvalue]
    exact hserves
  · rw [hstatus]
    exact hserves

/-- A callback that sets attributes. -/
lemma serves_setattr (hR : Contract R view) (h : World.Sole view w)
    (hpath : w.state.path context.node = some path) (attributes : SetAttributes)
    (request : FileRequest) (hinfo : request.TellsInfo)
    (hchanges : ∀ t t', (Change.set path (setAttributes attributes)).Effect t t' →
      request.Changes path t t')
    (hfails : ∀ v v' : Volume, v.Denies v' (.setattr path attributes) →
      request.Fails setName context path v v') :
    Ends (World.vfs R) (do
        let _ ← mapErr (Vfs.setattr context.node attributes)
        getFileInfo context) w
      (fun info w' => FileRequest.Serves setName root context path (w.volume view)
        (w'.volume view) request (.info info))
      fun status w' => FileRequest.Serves setName root context path (w.volume view)
        (w'.volume view) request (.error status) :=
  (ends_setattr hR h hpath attributes).mono
    (fun _ _ htold => .info hinfo (hchanges _ _ htold.1) htold.2)
    fun _ _ hdenied => .failed (hfails _ _ hdenied.2) hdenied.1

/-- A callback that only asks for attributes. -/
lemma serves_getFileInfo (hR : Contract R view) (h : World.Sole view w)
    (hpath : w.state.path context.node = some path) (request : FileRequest)
    (hinfo : request.TellsInfo) (hchanges : ∀ t, request.Changes path t t)
    (hfails : ∀ v v' : Volume, v.tree path.asStr = none →
      request.Fails setName context path v v') :
    Ends (World.vfs R) (getFileInfo context) w
      (fun info w' => FileRequest.Serves setName root context path (w.volume view)
        (w'.volume view) request (.info info))
      fun status w' => FileRequest.Serves setName root context path (w.volume view)
        (w'.volume view) request (.error status) := by
  refine (ends_getFileInfo hR h hpath).mono ?_
    fun _ _ hfail => .failed (hfails _ _ hfail.2) hfail.1.tree
  rintro info w' ⟨hlooked, hshows⟩
  refine .info hinfo ?_ hshows
  show request.Changes path (view w.conn.remote) (view w'.conn.remote)
  rw [hlooked.tree]
  exact hchanges _

/-- An enumeration that begins anew. -/
lemma serves_enumeration (hR : Contract R view) (h : World.Sole view w)
    (hpath : w.state.path context.node = some path) {restart : Bool}
    (hnew : context.dirBuffer = none ∨ restart = true) :
    FileRequest.Serves setName root context path (w.volume view)
      (((onFile setName context (.readDirectory restart)).run (World.vfs R) w).2.volume view)
      (.readDirectory restart)
      ((onFile setName context (.readDirectory restart)).run (World.vfs R) w).1.1 := by
  have hlooked := looked_fillBuffer hR h setName context.node
  have hfills := fills_fillBuffer hR h hpath setName
  have hread : readDirectory setName context restart = (do
      let filled ← fillBuffer setName context.node
      return (filled.2.map fun _ => filled.1, { context with dirBuffer := some filled.1 })) := by
    unfold readDirectory
    split
    · next entries hbuffer =>
        rw [hbuffer] at hnew
        simp at hnew
    · rfl
  simp only [onFile, run_map, hread, run_bind, run_pure]
  cases hresult : ((fillBuffer setName context.node).run (World.vfs R) w).1.2 with
  | error status => exact .failed ⟨hnew, hfills.error status hresult⟩ hlooked.tree
  | ok _ =>
      obtain ⟨names, hnames, hlists⟩ := hfills.ok hresult
      exact .enumerated hlooked.tree hnew hnames hlists

/-- What becomes of the tree when a file is deleted as it is cleaned up. -/
lemma cleans_delete (hR : Contract R view) (h : World.Sole view w)
    (hroot : w.state.path .root = some root) (fileName : Str) {flags : UInt32}
    (hflags : flags &&& fspCleanupDelete ≠ 0) (hpending : context.deletePending = true) :
    Cleans root context (some fileName) flags (w.volume view)
      (((delete context.isDir fileName).run.run (World.vfs R) w).2.volume view) := by
  refine (ends_state (P := fun w' : World ρ =>
    Cleans root context (some fileName) flags (w.volume view) (w'.volume view))).mp ?_
  rw [delete, ends_bind]
  refine (reached_resolveParent hR h hroot fileName).mono ?_ fun _ _ hfail =>
    .inl ⟨hfail.1.tree, .inr (.inr fun _ hname => .inl (Option.some.inj hname ▸ hfail.2))⟩
  rintro ⟨parent, leaf⟩ w₁ ⟨hlooked, dir, hplaced, hdir⟩
  -- the call that is made deletes the node of this name, or fails
  have hdeletes : ∀ call : CacheShfs.Call, call.Mutates →
      (∀ m, w₁.Asks call m ↔
        ∃ p, w₁.childPath parent leaf = .ok p ∧ m = deletion context.isDir p) →
      Cleans root context (some fileName) flags (w.volume view)
        ((w₁.exec R call).volume view) := by
    intro call hmut hasks
    cases hanswer : w₁.failure R call with
    | some e =>
        refine .inl ⟨(World.view_of_failure hR hmut hanswer).trans hlooked.tree, .inr (.inr ?_)⟩
        rintro name ⟨⟩
        refine .inr ⟨dir, leaf, hplaced, fun p hjoin => hlooked.denies ?_⟩
        have hchild := World.childPath_ok.mpr ⟨dir, hdir, hjoin⟩
        exact World.denies_of_failure hanswer ((hasks _).mpr ⟨p, hchild, rfl⟩)
    | none =>
        obtain ⟨m, hm, heffect⟩ := World.effect_of_success hR call hmut hanswer
        obtain ⟨p, hchild, rfl⟩ := (hasks m).mp hm
        obtain ⟨dir', hdir', hjoin⟩ := World.childPath_ok.mp hchild
        obtain rfl : dir' = dir := Option.some.inj (hdir'.symm.trans hdir)
        rw [hlooked.tree] at heffect
        exact .inr ⟨hflags, hpending, fileName, p, rfl, ⟨dir', leaf, hplaced, hjoin⟩, heffect⟩
  dsimp only
  cases hisDir : context.isDir with
  | true =>
      refine ends_state.mpr (hdeletes (.rmdir parent leaf) trivial fun m => ?_)
      rw [hisDir]
      exact Iff.rfl
  | false =>
      refine ends_state.mpr (hdeletes (.unlink parent leaf) trivial fun m => ?_)
      rw [hisDir]
      exact Iff.rfl

/-- **One callback with the context of a file is served as the volume serves it.** -/
lemma serves_onFile (hR : Contract R view) (h : World.Sole view w)
    (setName : Str → Except UInt32 Unit) (hroot : w.state.path .root = some root)
    (hpath : w.state.path context.node = some path)
    (hfile : ∀ handle, context.handle = some handle →
      w.state.file handle = some ⟨context.node, path⟩) {request : FileRequest}
    (hrename : ∀ fileName newFileName replaceIfExists,
      request ≠ .rename fileName newFileName replaceIfExists) :
    FileRequest.Serves setName root context path (w.volume view)
      (((onFile setName context request).run (World.vfs R) w).2.volume view) request
      ((onFile setName context request).run (World.vfs R) w).1.1 := by
  cases request with
  | close =>
      rw [WinFsp.run_close]
      exact .close rfl
  | cleanup fileName flags =>
      have hcleans : Cleans root context fileName flags (w.volume view)
          (((cleanup context fileName flags).run (World.vfs R) w).2.volume view) := by
        unfold cleanup
        split
        · next hunmarked => exact .inl ⟨rfl, hunmarked.imp_right .inl⟩
        · next hmarked =>
            rw [not_or, Bool.not_eq_false] at hmarked
            split
            · exact .inl ⟨rfl, .inr (.inr fun _ hname => absurd hname.symm (Option.some_ne_none _))⟩
            · rw [run_bind]
              exact cleans_delete hR h hroot _ hmarked.1 hmarked.2
      simp only [onFile, run_map]
      exact .cleanup hcleans
  | flush =>
      refine serves_of_ends ?_ _
      unfold flush
      dsimp only
      split
      · rw [ends_bind, mapErr, ends_adapt, Vfs.flush, Calls.ends_ask]
        refine ⟨fun _ _ => ?_, fun e hfail => ?_⟩
        · rw [ends_map]
          exact serves_getFileInfo hR h hpath .flush trivial (fun _ => rfl)
            fun _ _ hnone => hnone
        · cases hfail
      · rw [ends_map]
        exact serves_getFileInfo hR h hpath .flush trivial (fun _ => rfl) fun _ _ hnone => hnone
  | getFileInfo =>
      exact serves_of_ends (serves_getFileInfo hR h hpath .getFileInfo trivial (fun _ => rfl)
        fun _ _ hnone => hnone) _
  | overwrite =>
      exact serves_of_ends (serves_setattr hR h hpath { size := some 0 } .overwrite trivial
        (fun _ _ heffect => heffect) fun _ _ hdenies => hdenies) _
  | readDirectory restart =>
      by_cases hnew : context.dirBuffer = none ∨ restart = true
      · exact serves_enumeration hR h hpath hnew
      · rw [not_or, Bool.not_eq_true] at hnew
        obtain ⟨entries, hbuffer⟩ := Option.ne_none_iff_exists'.mp hnew.1
        simp only [onFile, run_map, readDirectory, hbuffer, hnew.2]
        exact .continued rfl hbuffer
  | rename fileName newFileName replaceIfExists => exact absurd rfl (hrename _ _ _)
  | setBasicInfo fileAttributes lastAccessTime lastWriteTime =>
      exact serves_of_ends (serves_setattr hR h hpath
        (basicInfoAttributes fileAttributes lastAccessTime lastWriteTime)
        (.setBasicInfo fileAttributes lastAccessTime lastWriteTime) trivial
        (fun _ _ heffect => heffect) fun _ _ hdenies => hdenies) _
  | setDelete deleteFile => exact .setDelete rfl
  | setFileSize newSize setAllocationSize =>
      refine serves_of_ends ?_ _
      cases setAllocationSize with
      | false =>
          exact serves_setattr hR h hpath { size := some newSize } (.setFileSize newSize false)
            trivial (fun _ _ heffect => heffect) fun _ _ hdenies => hdenies
      | true =>
          exact serves_getFileInfo hR h hpath (.setFileSize newSize true) trivial (fun _ => rfl)
            fun _ _ hnone => hnone
  | read length offset => exact serves_of_ends (serves_read hR h hfile length offset) _
  | write buffer offset writeToEof constrainedIo =>
      exact serves_of_ends
        (serves_write hR h hpath hfile buffer offset writeToEof constrainedIo) _

/-! ## One callback on the volume -/

lemma serves_getSecurityByName (hR : Contract R view) (h : World.Sole view w)
    (hroot : w.state.path .root = some root) (fileName : Str) :
    Ends (World.vfs R) (getSecurityByName fileName) w
      (fun attributes w' => VolumeRequest.Serves root (w.volume view) (w'.volume view)
        (.getSecurityByName fileName) (.security attributes))
      fun status w' => VolumeRequest.Serves root (w.volume view) (w'.volume view)
        (.getSecurityByName fileName) (.error status) := by
  rw [getSecurityByName, ends_bind, mapErr, ends_adapt]
  refine (reached_resolve hR h hroot fileName).mono ?_
    fun _ _ hfail => .failed hfail.2 hfail.1.tree
  rintro ⟨metadata, canonical⟩ w' ⟨hlooked, path, hreaches, -, node, hnode, hkind⟩
  rw [hlooked.tree] at hnode
  refine .security hlooked.tree hreaches hnode ((windowsFileAttributes_directory _).trans ?_)
  rw [hkind]
  cases node <;> simp [RemoteNode.kind]

lemma serves_openFile (hR : Contract R view) (h : World.Sole view w)
    (hroot : w.state.path .root = some root) (fileName : Str)
    (createOptions grantedAccess : UInt32) :
    Ends (World.vfs R) (openFile fileName createOptions grantedAccess) w
      (fun r w' => VolumeRequest.Serves root (w.volume view) (w'.volume view)
        (.openFile fileName createOptions grantedAccess) (.opened r.1 r.2))
      fun status w' => VolumeRequest.Serves root (w.volume view) (w'.volume view)
        (.openFile fileName createOptions grantedAccess) (.error status) := by
  rw [openFile, ends_bind, mapErr, ends_adapt]
  refine (reached_resolve hR h hroot fileName).mono ?_
    fun _ _ hfail => .failed (.inl hfail.2) hfail.1.tree
  rintro ⟨metadata, canonical⟩ w₁ ⟨hlooked, path, hreaches, hinode, node, hnode, hkind⟩
  rw [hlooked.tree] at hnode
  by_cases hdir : metadata.attributes.kind = .directory
  · simp only [hdir, decide_true, if_true, ends_bind, ends_pure]
    refine .opened hlooked.tree hreaches ⟨hinode, fun h => absurd h.symm Bool.false_ne_true⟩ hnode
      ⟨fun _ => ?_, fun _ => rfl⟩
    cases node with
    | dir => rfl
    | file _ _ => exact absurd (hkind.symm.trans hdir) FileKind.noConfusion
  · simp only [hdir, decide_false, Bool.false_eq_true, if_false, ends_bind, ends_map, mapErr,
      ends_adapt, ends_pure]
    -- `open_flags` never asks to truncate
    set call : CacheShfs.Call :=
      .openFile metadata.node (openFlags createOptions grantedAccess) with hcall
    have hmut : ¬ call.Mutates := Bool.false_ne_true
    have hsame : view (w₁.exec R call).conn.remote = view w.conn.remote :=
      (World.view_of_not_mutates hR hmut).trans hlooked.tree
    have hkept : (w₁.exec R call).state.path metadata.node = some path :=
      World.path_kept hlooked.sole.coherent.wf id hinode
    obtain ⟨f, m, rfl⟩ : ∃ f m, node = .file f m := by
      cases node with
      | dir => exact absurd hkind hdir
      | file f m => exact ⟨f, m, rfl⟩
    rw [Vfs.openFile, Calls.ends_ask]
    refine ⟨fun handle hok => ?_, fun e hfail => .failed (.inr ?_) hsame⟩
    · obtain ⟨path', hpath', hnew, hfile⟩ := World.openFile_table hlooked.sole.coherent.wf hok
      obtain rfl : path' = path := Option.some.inj (hpath'.symm.trans hinode)
      refine .opened hsame hreaches ⟨hkept, fun _ => ⟨handle, rfl, ?_, ?_⟩⟩ hnode
        ⟨fun h => absurd h Bool.false_ne_true, fun h => RemoteNode.noConfusion h⟩
      · exact congrArg (Option.map OpenFile.path) ((hlooked.file handle).symm.trans hnew)
      · exact congrArg (Option.map OpenFile.path) ((hfile handle).trans (if_pos rfl))
    · rcases hlooked.sole.fails hR call (congrArg errorOf hfail) path hinode with
        ⟨hwrites, hreadOnly⟩ | ⟨htruncate, -⟩
      · rw [show (openFlags createOptions grantedAccess).truncate = false from rfl,
          Bool.or_false] at hwrites
        exact ⟨hlooked.readOnly.symm.trans hreadOnly, hwrites, path, f, m, hreaches, hnode⟩
      · exact absurd htruncate Bool.false_ne_true

lemma serves_create (hR : Contract R view) (h : World.Sole view w)
    (hroot : w.state.path .root = some root) (fileName : Str)
    (createOptions grantedAccess fileAttributes : UInt32) :
    Ends (World.vfs R) (create fileName createOptions grantedAccess fileAttributes) w
      (fun r w' => VolumeRequest.Serves root (w.volume view) (w'.volume view)
        (.create fileName createOptions grantedAccess fileAttributes) (.opened r.1 r.2))
      fun status w' => VolumeRequest.Serves root (w.volume view) (w'.volume view)
        (.create fileName createOptions grantedAccess fileAttributes) (.error status) := by
  rw [create, ends_bind, mapErr, ends_adapt]
  refine (reached_resolveParent hR h hroot fileName).mono ?_
    fun _ _ hfail => .failed (.inl hfail.2) hfail.1.tree
  rintro ⟨parent, name⟩ w₁ ⟨hlooked, dir, hplaced, hparent⟩
  have hnamed : ∀ path, w₁.childPath parent name = .ok path →
      NamedAt (view w.conn.remote) root fileName path := by
    intro path hchild
    obtain ⟨dir', hdir', hjoin⟩ := World.childPath_ok.mp hchild
    obtain rfl : dir' = dir := Option.some.inj (hdir'.symm.trans hparent)
    exact ⟨dir', name, hplaced, hjoin⟩
  have hfailed : ∀ call : CacheShfs.Call, call.Mutates → (∀ p, w₁.childPath parent name = .ok p →
      w₁.Asks call (creation createOptions fileAttributes p)) → ∀ e, w₁.failure R call = some e →
      VolumeRequest.Serves root (w.volume view) ((w₁.exec R call).volume view)
        (.create fileName createOptions grantedAccess fileAttributes) (.error (toFsp e)) := by
    intro call hmut hasks e hfail
    have hsame := (World.view_of_failure hR hmut hfail).trans hlooked.tree
    refine .failed (.inr ⟨dir, name, hplaced, fun p hjoin => hlooked.denies ?_⟩) hsame
    exact World.denies_of_failure hfail (hasks p (World.childPath_ok.mpr ⟨dir, hparent, hjoin⟩))
  dsimp only
  split
  · next hdir =>
      have hcreation : ∀ p, creation createOptions fileAttributes p =
          .mkdir p (modeForCreate fileAttributes true) := fun p => if_pos hdir
      set call : CacheShfs.Call := .mkdir parent name (modeForCreate fileAttributes true)
        with hcall
      rw [ends_bind, mapErr, ends_adapt, Vfs.mkdir, Calls.ends_ask]
      refine ⟨fun metadata hok => ?_, fun e hfail => hfailed call trivial
        (fun p hchild => ⟨p, hchild, hcreation p⟩) e (congrArg errorOf hfail)⟩
      obtain ⟨m, ⟨path, hpath, rfl⟩, heffect⟩ :=
        World.effect_of_success (w := w₁) hR call trivial (congrArg errorOf hok)
      obtain ⟨path', hpath', ⟨node, hnode, -, hsize⟩, hinode⟩ :=
        hlooked.sole.mkdir_told hR hok
      obtain rfl : path' = path := Except.ok.inj (hpath'.symm.trans hpath)
      have hshows : (fileInfo metadata.attributes metadata.node).Shows
          (view (w₁.exec R call).conn.remote) path' := ⟨node, hnode, hsize⟩
      rw [hlooked.tree, ← hcreation path'] at heffect
      exact .created (hnamed _ hpath) heffect
        ⟨hinode, fun h => absurd h.symm Bool.false_ne_true⟩ ⟨fun _ => hdir, fun _ => rfl⟩ hshows
  · next hdir =>
      have hcreation : ∀ p, creation createOptions fileAttributes p =
          .create p (modeForCreate fileAttributes false) := fun p => if_neg hdir
      set flags : OpenFlags := openFlags createOptions grantedAccess with hflags
      set call : CacheShfs.Call := .create parent name (modeForCreate fileAttributes false) flags
        with hcall
      rw [ends_bind, mapErr, ends_adapt, Vfs.create, Calls.ends_ask]
      refine ⟨fun created hok => ?_, fun e hfail => hfailed call trivial
        (fun p hchild => ⟨p, hchild, hcreation p⟩) e (congrArg errorOf hfail)⟩
      have hcreated : (w₁.create R parent name (modeForCreate fileAttributes false) flags).1 =
          .ok created := hok
      obtain ⟨m, ⟨path, hpath, rfl⟩, heffect⟩ :=
        World.effect_of_success (w := w₁) hR call trivial (congrArg errorOf hok)
      obtain ⟨path', hpath', ⟨node, hnode, -, hsize⟩, hinode, hnew, hfile⟩ :=
        hlooked.sole.create_told hR hcreated
      obtain rfl : path' = path := Except.ok.inj (hpath'.symm.trans hpath)
      have hshows : (fileInfo created.metadata.attributes created.metadata.node).Shows
          (view (w₁.exec R call).conn.remote) path' := ⟨node, hnode, hsize⟩
      rw [hlooked.tree, ← hcreation path'] at heffect
      refine .created (hnamed _ hpath) heffect
        ⟨hinode, fun _ => ⟨created.handle, rfl, ?_, ?_⟩⟩
        ⟨fun h => absurd h Bool.false_ne_true, fun h => absurd h hdir⟩ hshows
      · exact congrArg (Option.map OpenFile.path) ((hlooked.file created.handle).symm.trans hnew)
      · exact congrArg (Option.map OpenFile.path) ((hfile created.handle).trans (if_pos rfl))

lemma volume_of_ends {α : Type} {p : Callback α} {reply : α → FspReply} {request : VolumeRequest}
    (h : Ends (World.vfs R) p w
      (fun value w' => VolumeRequest.Serves root (w.volume view) (w'.volume view) request
        (reply value))
      fun status w' => VolumeRequest.Serves root (w.volume view) (w'.volume view) request
        (.error status)) :
    VolumeRequest.Serves root (w.volume view)
      (((FspReply.ofResult reply <$> p.run).run (World.vfs R) w).2.volume view) request
      ((FspReply.ofResult reply <$> p.run).run (World.vfs R) w).1 := by
  rcases h.result (FspReply.ofResult reply) with
    ⟨value, hvalue, hserves⟩ | ⟨status, hstatus, hserves⟩
  · rw [hvalue]
    exact hserves
  · rw [hstatus]
    exact hserves

/-- **One callback on the volume is served as the volume serves it.** -/
lemma serves_onVolume (hR : Contract R view) (h : World.Sole view w)
    (hroot : w.state.path .root = some root) (request : VolumeRequest) :
    VolumeRequest.Serves root (w.volume view)
      (((onVolume request).run (World.vfs R) w).2.volume view) request
      ((onVolume request).run (World.vfs R) w).1 := by
  cases request with
  | getSecurityByName fileName =>
      exact volume_of_ends (serves_getSecurityByName hR h hroot fileName)
  | openFile fileName createOptions grantedAccess =>
      exact volume_of_ends (serves_openFile hR h hroot fileName createOptions grantedAccess)
  | create fileName createOptions grantedAccess fileAttributes =>
      exact volume_of_ends
        (serves_create hR h hroot fileName createOptions grantedAccess fileAttributes)
  | flush => exact .done rfl

end CacheFs

/-! ## Runs -/

/-- The event renames nothing, and is no change made by others. -/
def FspEvent.Quiet {ρ : Type} : FspEvent ρ → Prop
  | .volume _ => True
  | .file _ (.rename _ _ _) => False
  | .file _ _ => True
  | .beside (.tick _) => True
  | .beside (.external _) => False

namespace WinFsp

variable {ρ : Type} {R : RemoteFilesystem ρ} {view : ρ → CacheShfs.Tree}
  {setName : Str → Except UInt32 Unit} {f : WinFsp ρ}

@[simp] lemma hold_world (world : World ρ) (reply : FspReply) :
    (f.hold world reply).world = world := by
  cases reply <;> rfl

@[simp] lemma keep_world (world : World ρ) (id : ℕ) (context : Option FileContext) :
    (f.keep world id context).world = world := by
  cases context <;> rfl

lemma volume_not_renames (request : VolumeRequest) :
    (CacheFs.onVolume request).Asks fun call => ¬ call.Renames := by
  refine (CacheFs.asks_onVolume request).mono ?_
  rintro call (hlooks | hcall)
  · exact (World.quiet_of_looks hlooks).2
  · cases request with
    | openFile _ _ _ =>
        obtain ⟨_, _, -, rfl⟩ := hcall
        exact id
    | create _ _ _ _ =>
        obtain ⟨_, _, _, rfl⟩ | ⟨_, _, _, _, rfl⟩ := hcall <;> exact id
    | _ => exact hcall.elim

lemma file_not_renames (context : FileContext) {request : FileRequest}
    (hrename : ∀ fileName newFileName replaceIfExists,
      request ≠ .rename fileName newFileName replaceIfExists) :
    (CacheFs.onFile setName context request).Asks fun call => ¬ call.Renames := by
  refine (CacheFs.asks_onFile setName context request).mono ?_
  rintro call (hlooks | hcall)
  · exact (World.quiet_of_looks hlooks).2
  · cases request with
    | close =>
        obtain ⟨_, -, rfl⟩ := hcall
        exact id
    | cleanup _ _ =>
        obtain ⟨-, -, -, _, _, rfl⟩ := hcall
        cases context.isDir <;> exact id
    | flush =>
        obtain ⟨_, rfl⟩ := hcall
        exact id
    | overwrite =>
        obtain rfl := hcall
        exact id
    | rename _ _ _ => exact absurd rfl (hrename _ _ _)
    | setBasicInfo _ _ _ =>
        obtain rfl := hcall
        exact id
    | setFileSize _ _ =>
        obtain ⟨-, rfl⟩ := hcall
        exact id
    | read _ _ =>
        obtain ⟨_, _, rfl⟩ := hcall
        exact id
    | write _ _ _ _ =>
        obtain ⟨_, _, _, -, rfl⟩ := hcall
        exact id
    | _ => exact hcall.elim

lemma not_rename_of_quiet {id : ℕ} {request : FileRequest}
    (h : (FspEvent.file id request : FspEvent ρ).Quiet) (fileName newFileName : Str)
    (replaceIfExists : Bool) : request ≠ .rename fileName newFileName replaceIfExists := by
  rintro rfl
  exact h

/-- An event keeps what holds of the only client, and the paths of the nodes. -/
lemma sole_step (hR : Contract R view) {e : FspEvent ρ} (he : e.Quiet)
    (h : World.Sole view f.world) : World.Sole view (f.step R setName e).world ∧
      ∀ n path, f.world.state.path n = some path →
        (f.step R setName e).world.state.path n = some path := by
  cases e with
  | beside event =>
      cases event with
      | tick d => exact ⟨h.tick hR d, fun _ _ hpath => hpath⟩
      | external remote => exact he.elim
  | volume request =>
      simp only [step, hold_world]
      exact World.sole_run hR h (volume_not_renames request)
  | file id request =>
      simp only [step]
      cases f.contexts.lookup id with
      | none => exact ⟨h, fun _ _ hpath => hpath⟩
      | some context =>
          simp only [keep_world]
          exact World.sole_run hR h (file_not_renames context (not_rename_of_quiet he))

/-- The event is served as the volume serves it, and every context stands for a path for as long as
it is held. -/
def Serves (R : RemoteFilesystem ρ) (setName : Str → Except UInt32 Unit)
    (view : ρ → CacheShfs.Tree) (root : RemotePath) (f : WinFsp ρ) (e : FspEvent ρ) : Prop :=
  let v := f.world.volume view
  let v' := (f.step R setName e).world.volume view
  (∀ n path, v.inode n = some path → v'.inode n = some path) ∧
  match e with
  | .volume request =>
      request.Serves root v v' ((CacheFs.onVolume request).run (World.vfs R) f.world).1
  | .file id request => ∀ context, f.contexts.lookup id = some context →
      ∃ path, v.inode context.node = some path ∧ request.Serves setName root context path v v'
        ((CacheFs.onFile setName context request).run (World.vfs R) f.world).1.1
  | .beside _ => v.Still v'

lemma serves_step (hR : Contract R view) {e : FspEvent ρ} (he : e.Quiet) (hf : f.Ok)
    (h : World.Sole view f.world) {root : RemotePath}
    (hroot : f.world.state.path .root = some root) : Serves R setName view root f e := by
  refine ⟨(sole_step hR he h).2, ?_⟩
  cases e with
  | beside event =>
      cases event with
      | tick d => exact ⟨rfl, rfl⟩
      | external remote => exact he.elim
  | volume request =>
      simp only [step, hold_world]
      exact CacheFs.serves_onVolume hR h hroot request
  | file id request =>
      intro context hheld
      obtain ⟨path, hpath⟩ := Option.isSome_iff_exists.mp (hf.node id context hheld)
      refine ⟨path, hpath, ?_⟩
      simp only [step, hheld, keep_world]
      refine CacheFs.serves_onFile hR h setName hroot hpath (fun handle hhandle => ?_)
        (not_rename_of_quiet he)
      -- the file of the context is open at the path of its node
      obtain ⟨path', hfile⟩ := hf.file id context handle hheld hhandle
      obtain rfl : path' = path :=
        Option.some.inj ((h.handles handle _ hfile).symm.trans hpath)
      exact hfile

variable {σ φ : Type} {S : SftpSession σ φ} {tree : σ → CacheShfs.Tree}
  {cursor : φ → σ → Option Cursor}

end WinFsp

end Windows

end CacheShfs
