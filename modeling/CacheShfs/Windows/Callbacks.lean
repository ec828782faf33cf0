import CacheShfs.Lib.Program
import CacheShfs.Vfs.Run
import CacheShfs.Windows.Attr

/-!
# The callbacks of WinFsp

Every callback of `crates/cacheshfs-windows/src/fs.rs`, with the walks of `path.rs` that it makes,
as a program over the calls of the mount.  A walk makes several calls, and what one of them caches
is there for the next; so a callback is not a function of one state of the mount.

The entries that `read_directory` hands to WinFsp are kept in the buffer of the context, as WinFsp
keeps them; how WinFsp makes pages of them is its own matter.  `setName` stands for
`DirInfo::set_name`, which refuses a name that is too long for it.

Over a filesystem that only answers from its state, the callbacks are those of `Windows.openPath`
and the others that name files (`Backs`).
-/

namespace CacheShfs

open Program

/-! ## Calls of the mount -/

/-- What a call returns if it succeeds. -/
abbrev Call.Reply : Call → Type
  | .lookup _ _ => FileMetadata
  | .getattr _ => FileMetadata
  | .readdir _ => List DirectoryEntry
  | .openFile _ _ => FileHandle
  | .read _ _ _ => Bytes
  | .write _ _ _ => UInt32
  | .flush _ => Unit
  | .release _ => Unit
  | .create _ _ _ _ => CreatedFile
  | .mkdir _ _ _ => FileMetadata
  | .unlink _ _ => Unit
  | .rmdir _ _ => Unit
  | .rename _ _ _ _ => Unit
  | .setattr _ _ => FileMetadata

/-- The call looks at the tree. -/
def Call.Looks : Call → Prop
  | .lookup _ _ => True
  | .getattr _ => True
  | .readdir _ => True
  | _ => False

/-- What a call answers. -/
abbrev Call.Result (call : Call) : Type := Except Error call.Reply

/-- A program that calls a `VirtualFilesystem`. -/
abbrev CallProgram := Program Call Call.Result

/-- A program that an error of a call ends. -/
abbrev Calls (α : Type) := ExceptT Error CallProgram α

/-- What answers the calls. -/
abbrev CallHandler (σ : Type) := Handler Call Call.Result σ

/-- A call, whose error ends the program. -/
def Calls.ask (call : Call) : Calls call.Reply := Program.query call

namespace Vfs

/-! `dyn VirtualFilesystem`, method by method. -/

def lookup (parent : NodeId) (name : Str) : Calls FileMetadata := Calls.ask (.lookup parent name)

def getattr (node : NodeId) : Calls FileMetadata := Calls.ask (.getattr node)

def readdir (node : NodeId) : Calls (List DirectoryEntry) := Calls.ask (.readdir node)

def openFile (node : NodeId) (flags : OpenFlags) : Calls FileHandle :=
  Calls.ask (.openFile node flags)

def read (handle : FileHandle) (offset : UInt64) (size : UInt32) : Calls Bytes :=
  Calls.ask (.read handle offset size)

def write (handle : FileHandle) (offset : UInt64) (data : Bytes) : Calls UInt32 :=
  Calls.ask (.write handle offset data)

def flush (handle : FileHandle) : Calls Unit := Calls.ask (.flush handle)

def release (handle : FileHandle) : Calls Unit := Calls.ask (.release handle)

def create (parent : NodeId) (name : Str) (mode : UInt32) (flags : OpenFlags) :
    Calls CreatedFile :=
  Calls.ask (.create parent name mode flags)

def mkdir (parent : NodeId) (name : Str) (mode : UInt32) : Calls FileMetadata :=
  Calls.ask (.mkdir parent name mode)

def unlink (parent : NodeId) (name : Str) : Calls Unit := Calls.ask (.unlink parent name)

def rmdir (parent : NodeId) (name : Str) : Calls Unit := Calls.ask (.rmdir parent name)

def rename (parent : NodeId) (name : Str) (newParent : NodeId) (newName : Str) : Calls Unit :=
  Calls.ask (.rename parent name newParent newName)

def setattr (node : NodeId) (attributes : SetAttributes) : Calls FileMetadata :=
  Calls.ask (.setattr node attributes)

end Vfs

/-- The mount that answers the calls. -/
def World.vfs {ρ : Type} (R : RemoteFilesystem ρ) : CallHandler (World ρ)
  | .lookup parent name, w => w.lookup R parent name
  | .getattr node, w => w.getattr R node
  | .readdir node, w => w.readdir R node
  | .openFile node flags, w => w.openFile R node flags
  | .read handle offset size, w => w.read R handle offset size
  | .write handle offset data, w => w.write R handle offset data
  | .flush handle, w => w.flush handle
  | .release handle, w => w.release handle
  | .create parent name mode flags, w => w.create R parent name mode flags
  | .mkdir parent name mode, w => w.mkdir R parent name mode
  | .unlink parent name, w => w.unlink R parent name
  | .rmdir parent name, w => w.rmdir R parent name
  | .rename parent name newParent newName, w => w.rename R parent name newParent newName
  | .setattr node attributes, w => w.setattr R node attributes

lemma World.vfs_snd {ρ : Type} (R : RemoteFilesystem ρ) (call : Call) (w : World ρ) :
    (World.vfs R call w).2 = w.exec R call := by
  cases call <;> rfl

/-- What a call gives to the rest of a program. -/
lemma Calls.ends_ask {σ : Type} {h : CallHandler σ} {s : σ} {call : Call}
    {ok : call.Reply → σ → Prop} {failed : Error → σ → Prop} :
    Ends h (Calls.ask call) s ok failed ↔
      (∀ value, (h call s).1 = .ok value → ok value (h call s).2) ∧
        ∀ e, (h call s).1 = .error e → failed e (h call s).2 :=
  ends_iff

namespace Windows

/-! ## Paths -/

namespace CacheFs

/-- `lookup_component`. -/
def lookupComponent (parent : NodeId) (name : Str) : Calls (FileMetadata × Str) := do
  match ← Program.attempt (Vfs.lookup parent name) with
  | .ok metadata => return (metadata, name)
  | .error .notFound =>
      let entries ← Vfs.readdir parent
      match entries.find? fun entry => eqIgnoreAsciiCase entry.name name with
      | some entry => return (entry.metadata, entry.name)
      | none => throw .notFound
  | .error other => throw other

/-- The loop of `resolve`. -/
def resolveFrom : List Str → NodeId → FileMetadata → Str → Calls (FileMetadata × Str)
  | [], _, metadata, canonical => return (metadata, canonical)
  | component :: rest, node, _, canonical => do
      let (found, realName) ← lookupComponent node component
      resolveFrom rest found.node found (canonical ++ '\\' :: realName)

/-- `resolve`. -/
def resolve (fileName : Str) : Calls (FileMetadata × Str) := do
  let metadata ← Vfs.getattr .root
  let (metadata, canonical) ← resolveFrom (components fileName) .root metadata []
  return (metadata, if canonical = [] then ['\\'] else canonical)

/-- The loop of `resolve_parent`. -/
def walkParents : List Str → NodeId → Calls NodeId
  | [], node => return node
  | component :: rest, node => do
      let (metadata, _) ← lookupComponent node component
      walkParents rest metadata.node

/-- `resolve_parent`. -/
def resolveParent (fileName : Str) : Calls (NodeId × Str) :=
  match (components fileName).getLast? with
  | none => throw (.invalidInput "the root has no parent")
  | some leaf => do
      let node ← walkParents (components fileName).dropLast .root
      return (node, leaf)

end CacheFs

/-! ## Callbacks -/

/-- A callback, or a part of one, that may fail with an `NTSTATUS`. -/
abbrev Callback (α : Type) := ExceptT UInt32 CallProgram α

/-- `map_err(to_fsp)`. -/
def mapErr {α : Type} (calls : Calls α) : Callback α := ExceptT.adapt toFsp calls

/-- `DirInfo`: an entry in the buffer of a directory. -/
structure DirInfo where
  name : Str
  info : FileInfo

/-- The context of an open file, with the entries in its directory buffer.  There are none before
the first enumeration. -/
structure FileContext extends CacheFile where
  dirBuffer : Option (List DirInfo)

/-- What `open` and `create` write into `OpenFileInfo`. -/
structure OpenFileInfo where
  info : FileInfo
  normalizedName : Str

/-- `fill_file_info`, for a node of the mount. -/
def fileInfo (attributes : FileAttributes) (node : NodeId) : FileInfo :=
  fillFileInfo attributes (UInt64.ofNat node.val)

namespace CacheFs

/-- `CacheFs::get_security_by_name`: the attributes in `FileSecurity`. -/
def getSecurityByName (fileName : Str) : Callback UInt32 := do
  let (metadata, _) ← mapErr (resolve fileName)
  return windowsFileAttributes metadata.attributes

/-- `CacheFs::open`. -/
def openFile (fileName : Str) (createOptions grantedAccess : UInt32) :
    Callback (FileContext × OpenFileInfo) := do
  let (metadata, canonical) ← mapErr (resolve fileName)
  let isDir := decide (metadata.attributes.kind = .directory)
  let handle ←
    if isDir then pure none
    else some <$> mapErr (Vfs.openFile metadata.node (openFlags createOptions grantedAccess))
  return (⟨⟨metadata.node, handle, isDir, false⟩, none⟩,
    ⟨fileInfo metadata.attributes metadata.node, canonical⟩)

/-- `CacheFs::close`. -/
def close (context : FileContext) : CallProgram Unit :=
  match context.handle with
  | none => return
  | some handle => do
      let _ ← (Vfs.release handle).run
      return

/-- `CacheFs::create`. -/
def create (fileName : Str) (createOptions grantedAccess fileAttributes : UInt32) :
    Callback (FileContext × OpenFileInfo) := do
  let (parent, name) ← mapErr (resolveParent fileName)
  if createOptions &&& fileDirectoryFile ≠ 0 then
    let metadata ← mapErr (Vfs.mkdir parent name (modeForCreate fileAttributes true))
    return (⟨⟨metadata.node, none, true, false⟩, none⟩,
      ⟨fileInfo metadata.attributes metadata.node, fileName⟩)
  else
    let created ← mapErr (Vfs.create parent name (modeForCreate fileAttributes false)
      (openFlags createOptions grantedAccess))
    return (⟨⟨created.metadata.node, some created.handle, false, false⟩, none⟩,
      ⟨fileInfo created.metadata.attributes created.metadata.node, fileName⟩)

/-- The deletion of `CacheFs::cleanup`. -/
def delete (isDir : Bool) (fileName : Str) : Calls Unit := do
  let (parent, name) ← resolveParent fileName
  if isDir then Vfs.rmdir parent name else Vfs.unlink parent name

/-- `CacheFs::cleanup`.  An error of the deletion is dropped. -/
def cleanup (context : FileContext) (fileName : Option Str) (flags : UInt32) :
    CallProgram Unit :=
  if flags &&& fspCleanupDelete = 0 ∨ context.deletePending = false then return
  else
    match fileName with
    | none => return
    | some fileName => do
        let _ ← (delete context.isDir fileName).run
        return

/-- `CacheFs::get_file_info`. -/
def getFileInfo (context : FileContext) : Callback FileInfo := do
  let metadata ← mapErr (Vfs.getattr context.node)
  return fileInfo metadata.attributes context.node

/-- `CacheFs::flush`. -/
def flush (context : Option FileContext) : Callback (Option FileInfo) :=
  match context with
  | none => return none
  | some context => do
      if let some handle := context.handle then
        mapErr (Vfs.flush handle)
      some <$> getFileInfo context

/-- `CacheFs::overwrite`. -/
def overwrite (context : FileContext) : Callback FileInfo := do
  let _ ← mapErr (Vfs.setattr context.node { size := some 0 })
  getFileInfo context

/-- Write entries into a directory buffer, up to the first that is refused. -/
def writeEntries (setName : Str → Except UInt32 Unit) :
    List DirInfo → List DirInfo × Except UInt32 Unit
  | [] => ([], .ok ())
  | entry :: rest =>
      match setName entry.name with
      | .error e => ([], .error e)
      | .ok () => (entry :: (writeEntries setName rest).1, (writeEntries setName rest).2)

/-- The entries that `read_directory` writes for the directory itself. -/
def dotEntries (metadata : FileMetadata) (node : NodeId) : List DirInfo :=
  [⟨['.'], fileInfo metadata.attributes node⟩, ⟨['.', '.'], fileInfo metadata.attributes node⟩]

/-- The entry of a child. -/
def childEntry (child : DirectoryEntry) : DirInfo :=
  ⟨child.name, fileInfo child.metadata.attributes child.metadata.node⟩

/-- What `read_directory` writes into a buffer that it has acquired. -/
def fillBuffer (setName : Str → Except UInt32 Unit) (node : NodeId) :
    CallProgram (List DirInfo × Except UInt32 Unit) := do
  match ← (Vfs.getattr node).run with
  | .error e => return ([], .error (toFsp e))
  | .ok metadata =>
      match writeEntries setName (dotEntries metadata node) with
      | (dots, .error e) => return (dots, .error e)
      | (dots, .ok ()) =>
          match ← (Vfs.readdir node).run with
          | .error e => return (dots, .error (toFsp e))
          | .ok children =>
              let written := writeEntries setName (children.map childEntry)
              return (dots ++ written.1, written.2)

/-- `CacheFs::read_directory`: the entries that WinFsp makes pages of.  The buffer is acquired where
the enumeration starts anew, or has not started. -/
def readDirectory (setName : Str → Except UInt32 Unit) (context : FileContext) (restart : Bool) :
    CallProgram (Except UInt32 (List DirInfo) × FileContext) := do
  match context.dirBuffer, restart with
  | some entries, false => return (.ok entries, context)
  | _, _ =>
      let (entries, result) ← fillBuffer setName context.node
      return (result.map fun _ => entries, { context with dirBuffer := some entries })

/-- `CacheFs::rename`. -/
def rename (fileName newFileName : Str) (_replaceIfExists : Bool) : Callback Unit := do
  let (oldParent, oldName) ← mapErr (resolveParent fileName)
  let (newParent, newName) ← mapErr (resolveParent newFileName)
  mapErr (Vfs.rename oldParent oldName newParent newName)

/-- `CacheFs::set_basic_info`. -/
def setBasicInfo (context : FileContext) (fileAttributes : UInt32)
    (lastAccessTime lastWriteTime : UInt64) : Callback FileInfo := do
  let _ ← mapErr (Vfs.setattr context.node
    (basicInfoAttributes fileAttributes lastAccessTime lastWriteTime))
  getFileInfo context

/-- `CacheFs::set_delete`. -/
def setDelete (context : FileContext) (deleteFile : Bool) : FileContext :=
  { context with deletePending := deleteFile }

/-- `CacheFs::set_file_size`. -/
def setFileSize (context : FileContext) (newSize : UInt64) (setAllocationSize : Bool) :
    Callback FileInfo := do
  if setAllocationSize = false then
    let _ ← mapErr (Vfs.setattr context.node { size := some newSize })
  getFileInfo context

/-- `CacheFs::read`, into a buffer of a length. -/
def read (context : FileContext) (length : ℕ) (offset : UInt64) : Callback Bytes := do
  match context.handle with
  | none => throw (toFsp (.invalidInput "read on a directory"))
  | some handle =>
      let data ← mapErr (Vfs.read handle offset (UInt32.ofNat length))
      return data.take (min data.length length)

/-- The call of `CacheFs::write`. -/
def writeAt (context : FileContext) (handle : FileHandle) (offset : UInt64) (data : Bytes) :
    Callback (UInt32 × FileInfo) := do
  let written ← mapErr (Vfs.write handle offset data)
  return (written, ← getFileInfo context)

/-- `CacheFs::write`. -/
def write (context : FileContext) (buffer : Bytes) (offset : UInt64)
    (writeToEof constrainedIo : Bool) : Callback (UInt32 × FileInfo) := do
  match context.handle with
  | none => throw (toFsp (.invalidInput "write on a directory"))
  | some handle =>
      if writeToEof || constrainedIo then
        let metadata ← mapErr (Vfs.getattr context.node)
        let size := metadata.attributes.size
        let offset := if writeToEof then size else offset
        if constrainedIo then
          if size ≤ offset then
            return (0, ← getFileInfo context)
          else
            writeAt context handle offset
              (buffer.take (min buffer.length (size - offset).toNat))
        else writeAt context handle offset buffer
      else writeAt context handle offset buffer

end CacheFs

/-! ## What the callbacks ask -/

namespace CacheFs

variable {P : CacheShfs.Call → Prop} (hP : ∀ call, call.Looks → P call)

include hP

lemma asks_lookup (parent : NodeId) (name : Str) : (Vfs.lookup parent name).run.Asks P :=
  asks_query (hP (.lookup parent name) trivial)

lemma asks_getattr (node : NodeId) : (Vfs.getattr node).run.Asks P :=
  asks_query (hP (.getattr node) trivial)

lemma asks_readdir (node : NodeId) : (Vfs.readdir node).run.Asks P :=
  asks_query (hP (.readdir node) trivial)

lemma asks_lookupComponent (parent : NodeId) (name : Str) :
    (lookupComponent parent name).run.Asks P := by
  refine (Asks.attempt (asks_lookup hP parent name)).andThen fun result => ?_
  split
  · trivial
  · refine (asks_readdir hP parent).andThen fun entries => ?_
    split <;> trivial
  · trivial

lemma asks_resolveFrom (path : List Str) (node : NodeId) (metadata : FileMetadata)
    (canonical : Str) : (resolveFrom path node metadata canonical).run.Asks P := by
  induction path generalizing node metadata canonical with
  | nil => trivial
  | cons component rest ih => exact (asks_lookupComponent hP _ _).andThen fun _ => ih _ _ _

lemma asks_resolve (fileName : Str) : (resolve fileName).run.Asks P := by
  refine (asks_getattr hP .root).andThen fun metadata => ?_
  exact (asks_resolveFrom hP _ _ _ _).andThen fun _ => trivial

lemma asks_walkParents (path : List Str) (node : NodeId) : (walkParents path node).run.Asks P := by
  induction path generalizing node with
  | nil => trivial
  | cons component rest ih => exact (asks_lookupComponent hP _ _).andThen fun _ => ih _

lemma asks_resolveParent (fileName : Str) : (resolveParent fileName).run.Asks P := by
  unfold resolveParent
  split
  · trivial
  · exact (asks_walkParents hP _ _).andThen fun _ => trivial

lemma asks_getSecurityByName (fileName : Str) : (getSecurityByName fileName).run.Asks P :=
  (Asks.adapt (asks_resolve hP fileName) _).andThen fun _ => trivial

lemma asks_openFile (fileName : Str) (createOptions grantedAccess : UInt32)
    (hopen : ∀ node flags, flags.truncate = false → P (.openFile node flags)) :
    (openFile fileName createOptions grantedAccess).run.Asks P := by
  refine (Asks.adapt (asks_resolve hP fileName) _).andThen fun found => ?_
  dsimp only
  split
  · trivial
  · have hcall := hopen found.1.node (openFlags createOptions grantedAccess) rfl
    refine Asks.andThen ?_ fun _ => trivial
    exact (Asks.adapt (asks_query hcall) _).mapValue _

lemma asks_create (fileName : Str) (createOptions grantedAccess fileAttributes : UInt32)
    (hmkdir : ∀ parent name mode, P (.mkdir parent name mode))
    (hcreate : ∀ parent name mode flags, P (.create parent name mode flags)) :
    (create fileName createOptions grantedAccess fileAttributes).run.Asks P := by
  refine (Asks.adapt (asks_resolveParent hP fileName) _).andThen fun found => ?_
  dsimp only
  split
  · exact (Asks.adapt (asks_query (hmkdir _ _ _)) _).andThen fun _ => trivial
  · exact (Asks.adapt (asks_query (hcreate _ _ _ _)) _).andThen fun _ => trivial

lemma asks_getFileInfo (context : FileContext) : (getFileInfo context).run.Asks P :=
  (Asks.adapt (asks_getattr hP context.node) _).andThen fun _ => trivial

lemma asks_flush (context : Option FileContext) (hflush : ∀ handle, P (.flush handle)) :
    (flush context).run.Asks P := by
  cases context with
  | none => trivial
  | some context =>
      unfold flush
      dsimp only
      split
      · next handle _ =>
          refine Asks.andThen (Asks.adapt (asks_query (hflush handle)) _) fun _ => ?_
          exact (asks_getFileInfo hP context).mapValue _
      · exact (asks_getFileInfo hP context).mapValue _

lemma asks_setattr (context : FileContext) (attributes : SetAttributes)
    (hset : P (.setattr context.node attributes)) :
    (do let _ ← mapErr (Vfs.setattr context.node attributes)
        getFileInfo context : Callback FileInfo).run.Asks P :=
  (Asks.adapt (asks_query hset) _).andThen fun _ => asks_getFileInfo hP context

lemma asks_setFileSize (context : FileContext) (newSize : UInt64) (setAllocationSize : Bool)
    (hset : setAllocationSize = false → P (.setattr context.node { size := some newSize })) :
    (setFileSize context newSize setAllocationSize).run.Asks P := by
  unfold setFileSize
  split
  · next hsize => exact asks_setattr hP context _ (hset hsize)
  · exact asks_getFileInfo hP context

lemma asks_fillBuffer (setName : Str → Except UInt32 Unit) (node : NodeId) :
    (fillBuffer setName node).Asks P := by
  refine Asks.bind (asks_getattr hP node) fun result => ?_
  cases result with
  | error e => trivial
  | ok metadata =>
      dsimp only
      split
      · trivial
      · refine Asks.bind (asks_readdir hP node) fun result => ?_
        split <;> trivial

lemma asks_readDirectory (setName : Str → Except UInt32 Unit) (context : FileContext)
    (restart : Bool) : (readDirectory setName context restart).Asks P := by
  unfold readDirectory
  split
  · trivial
  · exact Asks.bind (asks_fillBuffer hP _ _) fun _ => trivial

lemma asks_rename (fileName newFileName : Str) (replaceIfExists : Bool)
    (hrename : ∀ parent name newParent newName, P (.rename parent name newParent newName)) :
    (rename fileName newFileName replaceIfExists).run.Asks P := by
  refine (Asks.adapt (asks_resolveParent hP fileName) _).andThen fun old => ?_
  refine (Asks.adapt (asks_resolveParent hP newFileName) _).andThen fun new => ?_
  exact Asks.adapt (asks_query (hrename _ _ _ _)) _

lemma asks_delete (isDir : Bool) (fileName : Str)
    (hdelete : ∀ parent name, P (if isDir then .rmdir parent name else .unlink parent name)) :
    (delete isDir fileName).run.Asks P := by
  refine (asks_resolveParent hP fileName).andThen fun found => ?_
  have hcall := hdelete found.1 found.2
  cases isDir with
  | true => exact asks_query hcall
  | false => exact asks_query hcall

lemma asks_cleanup (context : FileContext) (fileName : Option Str) (flags : UInt32)
    (hdelete : fileName ≠ none → flags &&& fspCleanupDelete ≠ 0 → context.deletePending = true →
      ∀ parent name, P (if context.isDir then .rmdir parent name else .unlink parent name)) :
    (cleanup context fileName flags).Asks P := by
  unfold cleanup
  split
  · trivial
  · next hmarked =>
      rw [not_or, Bool.not_eq_false] at hmarked
      split
      · trivial
      · have hcall := hdelete (Option.some_ne_none _) hmarked.1 hmarked.2
        exact Asks.bind (asks_delete hP _ _ hcall) fun _ => trivial

omit hP in
lemma asks_read (context : FileContext) (length : ℕ) (offset : UInt64)
    (hread : ∀ handle size, P (.read handle offset size)) :
    (read context length offset).run.Asks P := by
  unfold read
  split
  · trivial
  · exact (Asks.adapt (asks_query (hread _ _)) _).andThen fun _ => trivial

lemma asks_writeAt (context : FileContext) (handle : FileHandle) (offset : UInt64) (data : Bytes)
    (hwrite : P (.write handle offset data)) : (writeAt context handle offset data).run.Asks P :=
  (Asks.adapt (asks_query hwrite) _).andThen fun _ =>
    (asks_getFileInfo hP context).andThen fun _ => trivial

lemma asks_write (context : FileContext) (buffer : Bytes) (offset : UInt64)
    (writeToEof constrainedIo : Bool)
    (hwrite : ∀ handle offset data, context.handle = some handle →
      P (.write handle offset data)) :
    (write context buffer offset writeToEof constrainedIo).run.Asks P := by
  unfold write
  split
  · trivial
  · next handle hhandle =>
      have hat : ∀ offset data, (writeAt context handle offset data).run.Asks P :=
        fun offset data => asks_writeAt hP context handle offset data (hwrite _ _ _ hhandle)
      split
      · refine (Asks.adapt (asks_getattr hP context.node) _).andThen fun metadata => ?_
        cases constrainedIo with
        | false => exact hat _ _
        | true =>
            dsimp only
            rw [if_pos rfl]
            generalize (if writeToEof = true then metadata.attributes.size else offset) = start
            split
            · exact (asks_getFileInfo hP context).andThen fun _ => trivial
            · exact hat _ _
      · exact hat _ _

end CacheFs

/-! ## Over a filesystem that answers from its state -/

variable {σ : Type}

/-- The handler answers as the filesystem does. -/
structure Backs (V : VirtualFilesystem σ) (h : CallHandler σ) : Prop where
  lookup : ∀ parent name s, h (.lookup parent name) s = (V.lookup s parent name, s)
  getattr : ∀ node s, h (.getattr node) s = (V.getattr s node, s)
  readdir : ∀ node s, h (.readdir node) s = (V.readdir s node, s)
  openFile : ∀ node flags s, h (.openFile node flags) s = V.openFile node flags s
  create : ∀ parent name mode flags s,
    h (.create parent name mode flags) s = V.create parent name mode flags s
  mkdir : ∀ parent name mode s, h (.mkdir parent name mode) s = V.mkdir parent name mode s
  unlink : ∀ parent name s, h (.unlink parent name) s = V.unlink parent name s
  rmdir : ∀ parent name s, h (.rmdir parent name) s = V.rmdir parent name s
  rename : ∀ parent name newParent newName s,
    h (.rename parent name newParent newName) s = V.rename parent name newParent newName s

namespace Backs

variable {V : VirtualFilesystem σ} {h : CallHandler σ} (hV : Backs V h) (s : σ)

include hV

lemma run_lookupComponent (parent : NodeId) (name : Str) :
    Program.run h (CacheFs.lookupComponent parent name).run s =
      (Windows.lookupComponent V s parent name, s) := by
  rw [run_eq_iff, CacheFs.lookupComponent, ends_bind, ends_attempt, Vfs.lookup, Calls.ends_ask,
    hV.lookup, Windows.lookupComponent]
  refine ⟨fun metadata hlookup => ?_, fun e hlookup => ?_⟩
  · have hfound : V.lookup s parent name = .ok metadata := hlookup
    rw [hfound]
    rfl
  · have hfailed : V.lookup s parent name = .error e := hlookup
    rw [hfailed]
    by_cases he : e = .notFound
    · subst he
      rw [ends_bind, Vfs.readdir, Calls.ends_ask, hV.readdir]
      refine ⟨fun entries hlisting => ?_, fun e hlisting => ?_⟩
      · have hlisted : V.readdir s parent = .ok entries := hlisting
        rw [hlisted]
        dsimp only
        cases entries.find? fun entry => eqIgnoreAsciiCase entry.name name <;> rfl
      · have hfailed : V.readdir s parent = .error e := hlisting
        rw [hfailed]
    · cases e with
      | notFound => exact absurd rfl he
      | _ => rfl

lemma run_resolveFrom (path : List Str) (node : NodeId) (metadata : FileMetadata)
    (canonical : Str) : Program.run h (CacheFs.resolveFrom path node metadata canonical).run s =
      (Windows.resolveFrom V s path node metadata canonical, s) := by
  induction path generalizing node metadata canonical with
  | nil => rfl
  | cons component rest ih =>
      have hcomponent := hV.run_lookupComponent s node component
      rw [run_eq_iff, CacheFs.resolveFrom, ends_bind, Windows.resolveFrom]
      cases hfound : Windows.lookupComponent V s node component with
      | error e =>
          rw [hfound] at hcomponent
          rw [ends_of_error hcomponent]
      | ok r =>
          rw [hfound] at hcomponent
          rw [ends_of_ok hcomponent]
          exact run_eq_iff.mp (ih _ _ _)

lemma run_resolve (fileName : Str) : Program.run h (CacheFs.resolve fileName).run s =
    (Windows.resolve V s fileName, s) := by
  have hroot : Program.run h (Vfs.getattr .root).run s = (V.getattr s .root, s) :=
    hV.getattr .root s
  rw [run_eq_iff, CacheFs.resolve, ends_bind, Windows.resolve]
  cases hmetadata : V.getattr s .root with
  | error e =>
      rw [hmetadata] at hroot
      rw [ends_of_error hroot]
  | ok metadata =>
      rw [hmetadata] at hroot
      have hwalk := hV.run_resolveFrom s (components fileName) .root metadata []
      rw [ends_of_ok hroot, ends_bind]
      cases hfound : Windows.resolveFrom V s (components fileName) .root metadata [] with
      | error e =>
          rw [hfound] at hwalk
          rw [ends_of_error hwalk]
          simp only [hfound]
      | ok r =>
          rw [hfound] at hwalk
          rw [ends_of_ok hwalk]
          simp only [hfound, ends_pure]

lemma run_walkParents (path : List Str) (node : NodeId) :
    Program.run h (CacheFs.walkParents path node).run s =
      (Windows.walkParents V s path node, s) := by
  induction path generalizing node with
  | nil => rfl
  | cons component rest ih =>
      have hcomponent := hV.run_lookupComponent s node component
      rw [run_eq_iff, CacheFs.walkParents, ends_bind, Windows.walkParents]
      cases hfound : Windows.lookupComponent V s node component with
      | error e =>
          rw [hfound] at hcomponent
          rw [ends_of_error hcomponent]
      | ok r =>
          rw [hfound] at hcomponent
          rw [ends_of_ok hcomponent]
          exact run_eq_iff.mp (ih _)

lemma run_resolveParent (fileName : Str) :
    Program.run h (CacheFs.resolveParent fileName).run s =
      (Windows.resolveParent V s fileName, s) := by
  unfold CacheFs.resolveParent Windows.resolveParent
  cases (components fileName).getLast? with
  | none => rfl
  | some leaf =>
      have hwalk := hV.run_walkParents s (components fileName).dropLast .root
      rw [run_eq_iff, ends_bind]
      cases hfound : Windows.walkParents V s (components fileName).dropLast .root with
      | error e =>
          rw [hfound] at hwalk
          rw [ends_of_error hwalk]
      | ok node =>
          rw [hfound] at hwalk
          rw [ends_of_ok hwalk]
          rfl

/-- `open` opens as `openPath`. -/
lemma ends_openFile (fileName : Str) (createOptions grantedAccess : UInt32) :
    Ends h (CacheFs.openFile fileName createOptions grantedAccess) s
      (fun r s' => openPath V fileName createOptions grantedAccess s =
        (.ok ⟨r.1.toCacheFile, r.2.normalizedName⟩, s'))
      fun e s' => openPath V fileName createOptions grantedAccess s = (.error e, s') := by
  have hwalk := hV.run_resolve s fileName
  simp only [CacheFs.openFile, mapErr, ends_bind, ends_adapt, openPath]
  cases hfound : Windows.resolve V s fileName with
  | error e =>
      rw [hfound] at hwalk
      rw [ends_of_error hwalk]
  | ok r =>
      rw [hfound] at hwalk
      rw [ends_of_ok hwalk]
      dsimp only
      by_cases hdir : r.1.attributes.kind = .directory
      · simp [hdir]
      · simp only [hdir, decide_false, if_neg, Bool.false_eq_true, not_false_eq_true, ends_map,
          ends_bind, ends_adapt, Vfs.openFile, ends_pure]
        rw [Calls.ends_ask, hV.openFile]
        rcases V.openFile r.1.node (openFlags createOptions grantedAccess) s with ⟨_ | _, _⟩ <;>
          simp

/-- `create` creates as `create`. -/
lemma ends_create (fileName : Str) (createOptions grantedAccess fileAttributes : UInt32) :
    Ends h (CacheFs.create fileName createOptions grantedAccess fileAttributes) s
      (fun r s' => Windows.create V fileName createOptions grantedAccess fileAttributes s =
        (.ok ⟨r.1.toCacheFile, r.2.normalizedName⟩, s'))
      fun e s' => Windows.create V fileName createOptions grantedAccess fileAttributes s =
        (.error e, s') := by
  have hwalk := hV.run_resolveParent s fileName
  simp only [CacheFs.create, mapErr, ends_bind, ends_adapt, Windows.create]
  cases hfound : Windows.resolveParent V s fileName with
  | error e =>
      rw [hfound] at hwalk
      rw [ends_of_error hwalk]
  | ok r =>
      rw [hfound] at hwalk
      rw [ends_of_ok hwalk]
      dsimp only
      by_cases hdir : createOptions &&& fileDirectoryFile ≠ 0
      · simp only [if_pos hdir, ends_bind, ends_adapt, ends_pure, Vfs.mkdir]
        rw [Calls.ends_ask, hV.mkdir]
        rcases V.mkdir r.1 r.2 (modeForCreate fileAttributes true) s with ⟨_ | _, _⟩ <;> simp
      · simp only [if_neg hdir, ends_bind, ends_adapt, ends_pure, Vfs.create]
        rw [Calls.ends_ask, hV.create]
        rcases V.create r.1 r.2 (modeForCreate fileAttributes false)
          (openFlags createOptions grantedAccess) s with ⟨_ | _, _⟩ <;> simp

lemma run_delete (isDir : Bool) (fileName : Str) :
    (Program.run h (CacheFs.delete isDir fileName).run s).2 =
      match Windows.resolveParent V s fileName with
      | .error _ => s
      | .ok (parent, name) =>
          if isDir then (V.rmdir parent name s).2 else (V.unlink parent name s).2 := by
  have hwalk := hV.run_resolveParent s fileName
  refine (ends_state (P := (· = _))).mp ?_
  rw [CacheFs.delete, ends_bind]
  cases hfound : Windows.resolveParent V s fileName with
  | error e =>
      rw [hfound] at hwalk
      rw [ends_of_error hwalk]
  | ok r =>
      rw [hfound] at hwalk
      rw [ends_of_ok hwalk]
      dsimp only
      split
      · rw [Vfs.rmdir, Calls.ends_ask, hV.rmdir]
        exact ⟨fun _ _ => rfl, fun _ _ => rfl⟩
      · rw [Vfs.unlink, Calls.ends_ask, hV.unlink]
        exact ⟨fun _ _ => rfl, fun _ _ => rfl⟩

lemma run_cleanup (context : FileContext) (fileName : Option Str) (flags : UInt32) :
    ((CacheFs.cleanup context fileName flags).run h s).2 =
      Windows.cleanup V context.toCacheFile fileName flags s := by
  unfold CacheFs.cleanup Windows.cleanup
  split
  · rfl
  · cases fileName with
    | none => rfl
    | some fileName =>
        rw [run_bind]
        exact hV.run_delete s context.isDir fileName

lemma ends_rename (fileName newFileName : Str) (replaceIfExists : Bool) :
    Ends h (CacheFs.rename fileName newFileName replaceIfExists) s
      (fun _ s' => Windows.rename V fileName newFileName replaceIfExists s = (.ok (), s'))
      fun e s' => Windows.rename V fileName newFileName replaceIfExists s = (.error e, s') := by
  have hold := hV.run_resolveParent s fileName
  have hnew := hV.run_resolveParent s newFileName
  simp only [CacheFs.rename, mapErr, ends_bind, ends_adapt, Windows.rename]
  cases hfound : Windows.resolveParent V s fileName with
  | error e =>
      rw [hfound] at hold
      rw [ends_of_error hold]
  | ok r =>
      rw [hfound] at hold
      rw [ends_of_ok hold]
      cases hfound' : Windows.resolveParent V s newFileName with
      | error e =>
          rw [hfound'] at hnew
          rw [ends_of_error hnew]
      | ok r' =>
          rw [hfound'] at hnew
          rw [ends_of_ok hnew, Vfs.rename, Calls.ends_ask, hV.rename]
          rcases hanswer : V.rename r.1 r.2 r'.1 r'.2 s with ⟨_ | _, _⟩ <;> simp [hanswer]

end Backs

end Windows

end CacheShfs
