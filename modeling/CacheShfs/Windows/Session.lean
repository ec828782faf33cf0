import CacheShfs.Vfs.Alone
import CacheShfs.Windows.Callbacks

/-!
# What WinFsp may rely on

A `WinFsp` is a mount with the contexts of the files that are open in Windows.  WinFsp makes
callbacks in any order and with any arguments; a context is given out by `open` or `create`, is
handed to any number of callbacks, and is gone with `close`.

`contexts_own_handles`: the open files of the mount are the files of the contexts, one for each
context that is no directory.  So a mount in Windows leaks no handle, whatever callbacks fail on
the way, and no two contexts share one.
-/

namespace CacheShfs

open Machine Program

namespace Windows

/-! ## Callbacks as they are made -/

/-- A callback that names its file by a path, or is about the whole volume. -/
inductive VolumeRequest
  | getSecurityByName (fileName : Str)
  | openFile (fileName : Str) (createOptions grantedAccess : UInt32)
  | create (fileName : Str) (createOptions grantedAccess fileAttributes : UInt32)
  | flush

/-- A callback with the context of an open file. -/
inductive FileRequest
  | close
  | cleanup (fileName : Option Str) (flags : UInt32)
  | flush
  | getFileInfo
  | overwrite
  | readDirectory (restart : Bool)
  | rename (fileName newFileName : Str) (replaceIfExists : Bool)
  | setBasicInfo (fileAttributes : UInt32) (lastAccessTime lastWriteTime : UInt64)
  | setDelete (deleteFile : Bool)
  | setFileSize (newSize : UInt64) (setAllocationSize : Bool)
  | read (length : ℕ) (offset : UInt64)
  | write (buffer : Bytes) (offset : UInt64) (writeToEof constrainedIo : Bool)

/-- What a callback answers. -/
inductive FspReply
  | error (status : UInt32)
  | security (attributes : UInt32)
  | opened (context : FileContext) (info : OpenFileInfo)
  | done
  | info (info : FileInfo)
  | entries (entries : List DirInfo)
  | data (bytes : Bytes)
  | written (count : UInt32) (info : FileInfo)

/-- The reply of a callback that may fail. -/
def FspReply.ofResult {α : Type} (reply : α → FspReply) : Except UInt32 α → FspReply
  | .ok value => reply value
  | .error status => .error status

namespace CacheFs

/-- A callback on the volume. -/
def onVolume : VolumeRequest → CallProgram FspReply
  | .getSecurityByName fileName => .ofResult .security <$> (getSecurityByName fileName).run
  | .openFile fileName createOptions grantedAccess =>
      .ofResult (fun r => .opened r.1 r.2) <$> (openFile fileName createOptions grantedAccess).run
  | .create fileName createOptions grantedAccess fileAttributes =>
      .ofResult (fun r => .opened r.1 r.2) <$>
        (create fileName createOptions grantedAccess fileAttributes).run
  | .flush => .ofResult (fun _ => .done) <$> (flush none).run

/-- A callback on an open file, and the context after it, which `close` consumes. -/
def onFile (setName : Str → Except UInt32 Unit) (context : FileContext) :
    FileRequest → CallProgram (FspReply × Option FileContext)
  | .close => (fun _ => (.done, none)) <$> close context
  | .cleanup fileName flags => (fun _ => (.done, some context)) <$> cleanup context fileName flags
  | .flush =>
      (fun r => (.ofResult (fun info => info.elim .done .info) r, some context)) <$>
        (flush (some context)).run
  | .getFileInfo => (fun r => (.ofResult .info r, some context)) <$> (getFileInfo context).run
  | .overwrite => (fun r => (.ofResult .info r, some context)) <$> (overwrite context).run
  | .readDirectory restart =>
      (fun r => (.ofResult .entries r.1, some r.2)) <$> readDirectory setName context restart
  | .rename fileName newFileName replaceIfExists =>
      (fun r => (.ofResult (fun _ => .done) r, some context)) <$>
        (rename fileName newFileName replaceIfExists).run
  | .setBasicInfo fileAttributes lastAccessTime lastWriteTime =>
      (fun r => (.ofResult .info r, some context)) <$>
        (setBasicInfo context fileAttributes lastAccessTime lastWriteTime).run
  | .setDelete deleteFile => pure (.done, some (setDelete context deleteFile))
  | .setFileSize newSize setAllocationSize =>
      (fun r => (.ofResult .info r, some context)) <$>
        (setFileSize context newSize setAllocationSize).run
  | .read length offset =>
      (fun r => (.ofResult .data r, some context)) <$> (read context length offset).run
  | .write buffer offset writeToEof constrainedIo =>
      (fun r => (.ofResult (fun r => .written r.1 r.2) r, some context)) <$>
        (write context buffer offset writeToEof constrainedIo).run

end CacheFs

/-! ## The calls of a callback -/

/-- The calls that a callback on the volume may make, besides those that look at the tree. -/
def VolumeRequest.Calls : VolumeRequest → CacheShfs.Call → Prop
  | .openFile _ _ _, call => ∃ node flags, flags.truncate = false ∧ call = .openFile node flags
  | .create _ _ _ _, call =>
      (∃ parent name mode, call = .mkdir parent name mode) ∨
        ∃ parent name mode flags, call = .create parent name mode flags
  | _, _ => False

/-- The calls that a callback on an open file may make, besides those that look at the tree. -/
def FileRequest.Calls (context : FileContext) : FileRequest → CacheShfs.Call → Prop
  | .close, call => ∃ handle, context.handle = some handle ∧ call = .release handle
  | .cleanup fileName flags, call =>
      fileName ≠ none ∧ flags &&& fspCleanupDelete ≠ 0 ∧ context.deletePending = true ∧
        ∃ parent name, call = if context.isDir then .rmdir parent name else .unlink parent name
  | .flush, call => ∃ handle, call = .flush handle
  | .overwrite, call => call = .setattr context.node { size := some 0 }
  | .rename _ _ _, call =>
      ∃ parent name newParent newName, call = .rename parent name newParent newName
  | .setBasicInfo fileAttributes lastAccessTime lastWriteTime, call =>
      call = .setattr context.node
        (basicInfoAttributes fileAttributes lastAccessTime lastWriteTime)
  | .setFileSize newSize setAllocationSize, call =>
      setAllocationSize = false ∧ call = .setattr context.node { size := some newSize }
  | .read _ offset, call => ∃ handle size, call = .read handle offset size
  | .write _ _ _ _, call =>
      ∃ handle offset data, context.handle = some handle ∧ call = .write handle offset data
  | _, _ => False

namespace CacheFs

lemma asks_onVolume (request : VolumeRequest) :
    (onVolume request).Asks fun call => call.Looks ∨ request.Calls call := by
  have hlooks : ∀ call : CacheShfs.Call, call.Looks → call.Looks ∨ request.Calls call :=
    fun _ h => .inl h
  cases request with
  | getSecurityByName fileName =>
      exact (asks_getSecurityByName hlooks fileName).map _
  | openFile fileName createOptions grantedAccess =>
      exact (asks_openFile hlooks _ _ _ fun _ _ hflags => .inr ⟨_, _, hflags, rfl⟩).map _
  | create fileName createOptions grantedAccess fileAttributes =>
      exact (asks_create hlooks _ _ _ _ (fun _ _ _ => .inr (.inl ⟨_, _, _, rfl⟩))
        fun _ _ _ _ => .inr (.inr ⟨_, _, _, _, rfl⟩)).map _
  | flush => trivial

lemma asks_onFile (setName : Str → Except UInt32 Unit) (context : FileContext)
    (request : FileRequest) :
    (onFile setName context request).Asks fun call => call.Looks ∨ request.Calls context call := by
  have hlooks : ∀ call : CacheShfs.Call, call.Looks → call.Looks ∨ request.Calls context call :=
    fun _ h => .inl h
  cases request with
  | close =>
      refine Asks.map ?_ _
      unfold close
      split
      · trivial
      · next handle hhandle =>
          exact Asks.bind (asks_query (.inr ⟨handle, hhandle, rfl⟩)) fun _ => trivial
  | cleanup fileName flags =>
      exact (asks_cleanup hlooks context fileName flags fun hname hflags hpending parent name =>
        .inr ⟨hname, hflags, hpending, parent, name, rfl⟩).map _
  | flush => exact (asks_flush hlooks (some context) fun handle => .inr ⟨handle, rfl⟩).map _
  | getFileInfo => exact (asks_getFileInfo hlooks context).map _
  | overwrite => exact (asks_setattr hlooks context _ (.inr rfl)).map _
  | readDirectory restart => exact (asks_readDirectory hlooks setName context restart).map _
  | rename fileName newFileName replaceIfExists =>
      exact (asks_rename hlooks _ _ _ fun _ _ _ _ => .inr ⟨_, _, _, _, rfl⟩).map _
  | setBasicInfo fileAttributes lastAccessTime lastWriteTime =>
      exact (asks_setattr hlooks context _ (.inr rfl)).map _
  | setDelete deleteFile => trivial
  | setFileSize newSize setAllocationSize =>
      exact (asks_setFileSize hlooks context _ _ fun hset => .inr ⟨hset, rfl⟩).map _
  | read length offset => exact (asks_read _ _ _ fun _ _ => .inr ⟨_, _, rfl⟩).map _
  | write buffer offset writeToEof constrainedIo =>
      exact (asks_write hlooks context _ _ _ _ fun _ _ _ hhandle =>
        .inr ⟨_, _, _, hhandle, rfl⟩).map _

variable {σ : Type} {h : CallHandler σ} {s : σ}

/-- The open file that a context is of. -/
def SameFile (context : FileContext) (other : CacheFile) : Prop :=
  other.node = context.node ∧ other.handle = context.handle ∧ other.isDir = context.isDir

lemma readDirectory_context (setName : Str → Except UInt32 Unit) (context : FileContext)
    (restart : Bool) :
    ((readDirectory setName context restart).run h s).1.2.toCacheFile = context.toCacheFile := by
  unfold readDirectory
  split
  · rfl
  · rw [run_bind]
    rfl

/-- A callback that is no `close` keeps the file of its context. -/
lemma onFile_context (setName : Str → Except UInt32 Unit) (context : FileContext)
    {request : FileRequest} (hrequest : request ≠ .close) :
    ∃ after, ((onFile setName context request).run h s).1.2 = some after ∧
      SameFile context after.toCacheFile := by
  cases request with
  | close => exact absurd rfl hrequest
  | readDirectory restart =>
      have hsame := readDirectory_context (h := h) (s := s) setName context restart
      refine ⟨((readDirectory setName context restart).run h s).1.2, ?_, ?_⟩
      · simp only [onFile, run_map]
      · rw [hsame]
        exact ⟨rfl, rfl, rfl⟩
  | setDelete deleteFile => exact ⟨_, rfl, rfl, rfl, rfl⟩
  | _ =>
      refine ⟨context, ?_, rfl, rfl, rfl⟩
      simp only [onFile, run_map]

end CacheFs

end Windows

/-! ## What a callback leaves -/

/-- The call leaves the open files as they are. -/
def Call.KeepsFiles : Call → Prop
  | .openFile _ _ => False
  | .create _ _ _ _ => False
  | .release _ => False
  | _ => True

namespace World

variable {ρ : Type} {R : RemoteFilesystem ρ} {w w' : World ρ}

/-- The node has a path. -/
def Known (w : World ρ) (node : NodeId) : Prop := (w.state.path node).isSome

/-- The registry is well formed, the open files are as they were, and the nodes are still known. -/
structure SameFiles (w w' : World ρ) : Prop where
  registry : Session.RegistryOk w'.state
  files : ∀ fh, w'.state.file fh = w.state.file fh
  known : ∀ n, w.Known n → w'.Known n

lemma SameFiles.refl (hw : Session.RegistryOk w.state) : SameFiles w w :=
  ⟨hw, fun _ => rfl, fun _ h => h⟩

lemma SameFiles.trans {w'' : World ρ} (h : SameFiles w w') (h' : SameFiles w' w'') :
    SameFiles w w'' :=
  ⟨h'.registry, fun fh => (h'.files fh).trans (h.files fh), fun n hn => h'.known n (h.known n hn)⟩

/-- A call that is no release, and gives out no handle. -/
lemma sameFiles_of_not_issued (hw : Session.RegistryOk w.state) {call : Call}
    (hrelease : ∀ fh, call ≠ .release fh) (hissued : Session.issued (w.returned R call) = none) :
    SameFiles w (w.exec R call) := by
  have hinformed := informed_exec (R := R) hw call
  refine ⟨⟨hinformed.wf, hinformed.handles⟩, ?_, hinformed.known⟩
  cases table_exec (R := R) hw hrelease with
  | same _ _ hfile => exact hfile
  | issued hsome _ _ _ _ =>
      rw [hissued] at hsome
      cases hsome

lemma sameFiles_exec (hw : Session.RegistryOk w.state) {call : Call} (hcall : call.KeepsFiles) :
    SameFiles w (w.exec R call) := by
  refine sameFiles_of_not_issued hw ?_ ?_
  · rintro fh rfl
    exact hcall
  · cases call with
    | openFile _ _ => exact hcall.elim
    | create _ _ _ _ => exact hcall.elim
    | release _ => exact hcall.elim
    | _ => rfl

/-- What a program leaves that opens and closes nothing. -/
lemma sameFiles_run {α : Type} {p : CallProgram α} (hp : p.Asks Call.KeepsFiles)
    (hw : Session.RegistryOk w.state) : SameFiles w (p.run (vfs R) w).2 := by
  refine hp.keeps (I := SameFiles w) (fun call v hcall hv => ?_) (SameFiles.refl hw)
  rw [vfs_snd]
  exact hv.trans (sameFiles_exec hv.registry hcall)

/-! A node that a call answers is known from then on. -/

lemma known_of_lookup (hw : Session.RegistryOk w.state) {parent : NodeId} {name : Str}
    {metadata : FileMetadata} (h : (w.lookup R parent name).1 = .ok metadata) :
    (w.exec R (.lookup parent name)).Known metadata.node := by
  refine (informed_exec (R := R) hw _).nodes metadata.node ?_
  rw [returned, h]
  exact List.mem_singleton_self _

lemma known_of_getattr (hw : Session.RegistryOk w.state) {node : NodeId}
    {metadata : FileMetadata} (h : (w.getattr R node).1 = .ok metadata) :
    (w.exec R (.getattr node)).Known metadata.node := by
  refine (informed_exec (R := R) hw _).nodes metadata.node ?_
  rw [returned, h]
  exact List.mem_singleton_self _

lemma known_of_readdir (hw : Session.RegistryOk w.state) {node : NodeId}
    {entries : List DirectoryEntry} (h : (w.readdir R node).1 = .ok entries) :
    ∀ entry ∈ entries, (w.exec R (.readdir node)).Known entry.metadata.node := by
  intro entry hentry
  refine (informed_exec (R := R) hw _).nodes entry.metadata.node ?_
  rw [returned, h]
  exact List.mem_map_of_mem hentry

lemma known_of_mkdir (hw : Session.RegistryOk w.state) {parent : NodeId} {name : Str}
    {mode : UInt32} {metadata : FileMetadata} (h : (w.mkdir R parent name mode).1 = .ok metadata) :
    (w.exec R (.mkdir parent name mode)).Known metadata.node := by
  refine (informed_exec (R := R) hw _).nodes metadata.node ?_
  rw [returned, h]
  exact List.mem_singleton_self _

end World

namespace Windows

namespace CacheFs

variable {ρ : Type} {R : RemoteFilesystem ρ} {w : World ρ}

lemma looks_keepsFiles (call : CacheShfs.Call) (h : call.Looks) : call.KeepsFiles := by
  cases call with
  | lookup _ _ => trivial
  | getattr _ => trivial
  | readdir _ => trivial
  | _ => exact h.elim

lemma known_lookupComponent (hw : Session.RegistryOk w.state) (parent : NodeId) (name : Str) :
    Ends (World.vfs R) (lookupComponent parent name) w
      (fun r w' => w.SameFiles w' ∧ w'.Known r.1.node) fun _ w' => w.SameFiles w' := by
  have hknown : Ends (World.vfs R) (lookupComponent parent name) w
      (fun r w' => w'.Known r.1.node) fun _ _ => True := by
    rw [lookupComponent, ends_bind, ends_attempt, Vfs.lookup, Calls.ends_ask]
    refine ⟨fun metadata hlookup => World.known_of_lookup hw hlookup, fun e _ => ?_⟩
    have hlooked : w.SameFiles (w.exec R (.lookup parent name)) := World.sameFiles_exec hw trivial
    split
    · trivial
    · rw [ends_bind, Vfs.readdir, Calls.ends_ask]
      refine ⟨fun entries hlisting => ?_, fun _ _ => trivial⟩
      split
      · next entry hfind =>
          exact World.known_of_readdir hlooked.registry hlisting entry
            (List.mem_of_find?_eq_some hfind)
      · trivial
    · trivial
  have hkept := hknown.keeps (asks_lookupComponent looks_keepsFiles parent name)
    (fun call v hcall hv =>
      hv.trans (World.vfs_snd R call v ▸ World.sameFiles_exec hv.registry hcall))
    (World.SameFiles.refl hw)
  exact hkept.mono (fun _ _ h => h) fun _ _ h => h.1

lemma known_resolveFrom (path : List Str) (hw : Session.RegistryOk w.state) (node : NodeId)
    {metadata : FileMetadata} (hmetadata : w.Known metadata.node) (canonical : Str) :
    Ends (World.vfs R) (resolveFrom path node metadata canonical) w
      (fun r w' => w.SameFiles w' ∧ w'.Known r.1.node) fun _ w' => w.SameFiles w' := by
  induction path generalizing w node metadata canonical with
  | nil => exact ⟨World.SameFiles.refl hw, hmetadata⟩
  | cons component rest ih =>
      rw [resolveFrom, ends_bind]
      refine (known_lookupComponent hw node component).mono ?_ fun _ _ h => h
      rintro ⟨found, realName⟩ w' ⟨hkept, hfound⟩
      refine (ih hkept.registry found.node hfound _).mono ?_ fun _ _ h => hkept.trans h
      rintro r w'' ⟨hkept', hr⟩
      exact ⟨hkept.trans hkept', hr⟩

/-- The file that a path resolves to is a node of the mount. -/
lemma known_resolve (hw : Session.RegistryOk w.state) (fileName : Str) :
    Ends (World.vfs R) (resolve fileName) w
      (fun r w' => w.SameFiles w' ∧ w'.Known r.1.node) fun _ w' => w.SameFiles w' := by
  have hroot : w.SameFiles (w.exec R (.getattr .root)) := World.sameFiles_exec hw trivial
  rw [resolve, ends_bind, Vfs.getattr, Calls.ends_ask]
  refine ⟨fun metadata hgetattr => ?_, fun _ _ => hroot⟩
  rw [ends_bind]
  refine (known_resolveFrom (w := w.exec R (.getattr .root)) _ hroot.registry _
    (World.known_of_getattr hw hgetattr) _).mono ?_ fun _ _ h => hroot.trans h
  rintro ⟨found, canonical⟩ w' ⟨hkept, hfound⟩
  exact ⟨hroot.trans hkept, hfound⟩

/-- The parent of a new file is looked for, and nothing else happens. -/
lemma sameFiles_resolveParent (hw : Session.RegistryOk w.state) (fileName : Str) :
    Ends (World.vfs R) (resolveParent fileName) w (fun _ w' => w.SameFiles w')
      fun _ w' => w.SameFiles w' :=
  ends_state.mpr (World.sameFiles_run (asks_resolveParent looks_keepsFiles fileName) hw)

/-! ## Contexts that are given out -/

/-- What a callback leaves that has given out a context. -/
structure Opened (w : World ρ) (context : FileContext) (w' : World ρ) : Prop where
  registry : Session.RegistryOk w'.state
  known : ∀ n, w.Known n → w'.Known n
  node : w'.Known context.node
  isDir : context.isDir = true ↔ context.handle = none
  unmarked : context.deletePending = false
  directory : context.handle = none → ∀ fh, w'.state.file fh = w.state.file fh
  file : ∀ handle, context.handle = some handle → w.state.file handle = none ∧
    ∃ path, ∀ fh, w'.state.file fh =
      if fh = handle then some ⟨context.node, path⟩ else w.state.file fh

/-- A directory opens no file. -/
lemma opened_directory {w' : World ρ} (hkept : w.SameFiles w') {node : NodeId}
    (hnode : w'.Known node) (buffer : Option (List DirInfo)) :
    Opened w ⟨⟨node, none, true, false⟩, buffer⟩ w' where
  registry := hkept.registry
  known := hkept.known
  node := hnode
  isDir := ⟨fun _ => rfl, fun _ => rfl⟩
  unmarked := rfl
  directory _ := hkept.files
  file _ h := absurd h.symm (Option.some_ne_none _)

lemma opened_file {w₁ w' : World ρ} (hkept : w.SameFiles w₁) (hw' : Session.RegistryOk w'.state)
    (hknown : ∀ n, w₁.Known n → w'.Known n) {node : NodeId} {handle : FileHandle}
    {path : RemotePath} (hnode : w'.Known node) (hnew : w₁.state.file handle = none)
    (hfile : ∀ fh, w'.state.file fh =
      if fh = handle then some ⟨node, path⟩ else w₁.state.file fh)
    (buffer : Option (List DirInfo)) :
    Opened w ⟨⟨node, some handle, false, false⟩, buffer⟩ w' where
  registry := hw'
  known n hn := hknown n (hkept.known n hn)
  node := hnode
  isDir := ⟨fun h => absurd h Bool.false_ne_true, fun h => absurd h (Option.some_ne_none _)⟩
  unmarked := rfl
  directory h := absurd h (Option.some_ne_none _)
  file g hg := by
    obtain rfl : handle = g := Option.some.inj hg
    refine ⟨(hkept.files handle).symm.trans hnew, path, fun fh => ?_⟩
    rw [hfile, hkept.files]

lemma opened_openFile (hw : Session.RegistryOk w.state) (fileName : Str)
    (createOptions grantedAccess : UInt32) :
    Ends (World.vfs R) (openFile fileName createOptions grantedAccess) w
      (fun r w' => Opened w r.1 w') fun _ w' => w.SameFiles w' := by
  rw [openFile, ends_bind, mapErr, ends_adapt]
  refine (known_resolve hw fileName).mono ?_ fun _ _ h => h
  rintro ⟨metadata, canonical⟩ w₁ ⟨hkept, hnode⟩
  by_cases hdir : metadata.attributes.kind = .directory
  · simp only [hdir, decide_true, if_true, ends_bind, ends_pure]
    exact opened_directory hkept hnode none
  · simp only [hdir, decide_false, Bool.false_eq_true, if_false, ends_bind, ends_map, mapErr,
      ends_adapt, ends_pure]
    rw [Vfs.openFile, Calls.ends_ask]
    have hinformed := World.informed_exec (R := R) hkept.registry
      (.openFile metadata.node (openFlags createOptions grantedAccess))
    refine ⟨fun handle hopen => ?_, fun e hopen => ?_⟩
    · obtain ⟨path, hpath, hnew, hfile⟩ := World.openFile_table hkept.registry.wf hopen
      exact opened_file hkept ⟨hinformed.wf, hinformed.handles⟩ hinformed.known
        (hinformed.known _ hnode) hnew hfile none
    · have herror : (w₁.openFile R metadata.node (openFlags createOptions grantedAccess)).1 =
          .error e := hopen
      have hfailed : w₁.SameFiles
          (w₁.exec R (.openFile metadata.node (openFlags createOptions grantedAccess))) := by
        refine World.sameFiles_of_not_issued hkept.registry
          (fun _ h => CacheShfs.Call.noConfusion h) ?_
        rw [World.returned, herror]
        rfl
      exact hkept.trans hfailed

lemma opened_create (hw : Session.RegistryOk w.state) (fileName : Str)
    (createOptions grantedAccess fileAttributes : UInt32) :
    Ends (World.vfs R) (create fileName createOptions grantedAccess fileAttributes) w
      (fun r w' => Opened w r.1 w') fun _ w' => w.SameFiles w' := by
  rw [create, ends_bind, mapErr, ends_adapt]
  refine (sameFiles_resolveParent hw fileName).mono ?_ fun _ _ h => h
  rintro ⟨parent, name⟩ w₁ hkept
  dsimp only
  split
  · simp only [ends_bind, ends_adapt, mapErr, ends_pure]
    rw [Vfs.mkdir, Calls.ends_ask]
    have hmade : w₁.SameFiles
        (w₁.exec R (.mkdir parent name (modeForCreate fileAttributes true))) :=
      World.sameFiles_exec hkept.registry trivial
    refine ⟨fun metadata hmkdir => ?_, fun _ _ => hkept.trans hmade⟩
    exact opened_directory (hkept.trans hmade) (World.known_of_mkdir hkept.registry hmkdir) none
  · simp only [ends_bind, ends_adapt, mapErr, ends_pure]
    rw [Vfs.create, Calls.ends_ask]
    have hinformed := World.informed_exec (R := R) hkept.registry
      (.create parent name (modeForCreate fileAttributes false)
        (openFlags createOptions grantedAccess))
    refine ⟨fun created hcreate => ?_, fun e hcreate => ?_⟩
    · have hok : (w₁.create R parent name (modeForCreate fileAttributes false)
          (openFlags createOptions grantedAccess)).1 = .ok created := hcreate
      obtain ⟨path, -, hnew, hfile⟩ := World.create_table hkept.registry.wf hok
      refine opened_file hkept ⟨hinformed.wf, hinformed.handles⟩ hinformed.known
        (hinformed.nodes _ ?_) hnew hfile none
      rw [World.returned, hok]
      exact List.mem_singleton_self _
    · have herror : (w₁.create R parent name (modeForCreate fileAttributes false)
          (openFlags createOptions grantedAccess)).1 = .error e := hcreate
      have hfailed : w₁.SameFiles (w₁.exec R
          (.create parent name (modeForCreate fileAttributes false)
            (openFlags createOptions grantedAccess))) := by
        refine World.sameFiles_of_not_issued hkept.registry
          (fun _ h => CacheShfs.Call.noConfusion h) ?_
        rw [World.returned, herror]
        rfl
      exact hkept.trans hfailed

end CacheFs

/-! ## The contexts that WinFsp holds -/

/-- A mount, with the contexts that WinFsp holds, by the number of the callback that gave them
out. -/
structure WinFsp (ρ : Type) where
  world : World ρ
  contexts : FMap ℕ FileContext
  next : ℕ

/-- What happens to a mount: a callback, or something beside.  A callback with a context that is not
held does not happen. -/
inductive FspEvent (ρ : Type)
  | volume (request : VolumeRequest)
  | file (id : ℕ) (request : FileRequest)
  | beside (event : Beside ρ)

namespace WinFsp

variable {ρ : Type} (R : RemoteFilesystem ρ) (setName : Str → Except UInt32 Unit)

/-- The contexts after a callback on the volume. -/
def hold (f : WinFsp ρ) (world : World ρ) : FspReply → WinFsp ρ
  | .opened context _ => ⟨world, f.contexts.insert f.next context, f.next + 1⟩
  | _ => { f with world := world }

/-- The contexts after a callback on an open file. -/
def keep (f : WinFsp ρ) (world : World ρ) (id : ℕ) : Option FileContext → WinFsp ρ
  | some context => { f with world := world, contexts := f.contexts.insert id context }
  | none => { f with world := world, contexts := f.contexts.erase id }

def step (f : WinFsp ρ) : FspEvent ρ → WinFsp ρ
  | .volume request =>
      let (reply, world) := (CacheFs.onVolume request).run (World.vfs R) f.world
      f.hold world reply
  | .file id request =>
      match f.contexts.lookup id with
      | none => f
      | some context =>
          let (r, world) := (CacheFs.onFile setName context request).run (World.vfs R) f.world
          f.keep world id r.2
  | .beside event => { f with world := event.act f.world }

/-- Nothing is open. -/
def start (w : World ρ) : WinFsp ρ := ⟨w, ∅, 0⟩

variable {R setName} {f : WinFsp ρ}

/-- **What holds between a mount and WinFsp.** -/
structure Ok (f : WinFsp ρ) : Prop where
  registry : Session.RegistryOk f.world.state
  fresh : ∀ id context, f.contexts.lookup id = some context → id < f.next
  node : ∀ id context, f.contexts.lookup id = some context → f.world.Known context.node
  isDir : ∀ id context, f.contexts.lookup id = some context →
    (context.isDir = true ↔ context.handle = none)
  file : ∀ id context handle, f.contexts.lookup id = some context →
    context.handle = some handle → ∃ path, f.world.state.file handle = some ⟨context.node, path⟩
  owned : ∀ handle, (f.world.state.file handle).isSome →
    ∃ id context, f.contexts.lookup id = some context ∧ context.handle = some handle
  distinct : ∀ handle id context id' context', f.contexts.lookup id = some context →
    f.contexts.lookup id' = some context' → context.handle = some handle →
    context'.handle = some handle → id = id'

lemma not_held_start {w : World ρ} {id : ℕ} {context : FileContext}
    (h : (start w).contexts.lookup id = some context) : False := by
  rw [start, AList.lookup_empty] at h
  cases h

lemma ok_start (config : Config) (disk : Disk) (conn : Conn ρ) :
    Ok (start (World.new config disk conn)) where
  registry := Session.registryOk_new config disk conn
  fresh _ _ h := (not_held_start h).elim
  node _ _ h := (not_held_start h).elim
  isDir _ _ h := (not_held_start h).elim
  file _ _ _ h := (not_held_start h).elim
  owned _ h := by cases h
  distinct _ _ _ _ _ h := (not_held_start h).elim

/-- A callback that opens and closes nothing. -/
lemma Ok.kept (h : Ok f) {world : World ρ} (hkept : f.world.SameFiles world) :
    Ok { f with world := world } where
  registry := hkept.registry
  fresh := h.fresh
  node id context hheld := hkept.known _ (h.node id context hheld)
  isDir := h.isDir
  file id context handle hheld hhandle := by
    rw [hkept.files]
    exact h.file id context handle hheld hhandle
  owned handle hopen := by
    rw [hkept.files] at hopen
    exact h.owned handle hopen
  distinct := h.distinct

/-- What WinFsp may change of a context. -/
lemma Ok.changed (h : Ok f) {id : ℕ} {context after : FileContext}
    (hheld : f.contexts.lookup id = some context)
    (hsame : CacheFs.SameFile context after.toCacheFile) :
    Ok { f with contexts := f.contexts.insert id after } := by
  obtain ⟨hnode, hhandle, hdir⟩ := hsame
  -- every context that is held afterwards is of the file of one that was held before
  have hback : ∀ {id' c}, (f.contexts.insert id after).lookup id' = some c →
      ∃ c', f.contexts.lookup id' = some c' ∧ c.node = c'.node ∧ c.handle = c'.handle ∧
        c.isDir = c'.isDir := by
    intro id' c hc
    rw [FMap.lookup_insert_eq_ite] at hc
    split at hc
    · next hid =>
        obtain rfl := Option.some.inj hc
        rw [hid]
        exact ⟨context, hheld, hnode, hhandle, hdir⟩
    · exact ⟨c, hc, rfl, rfl, rfl⟩
  refine ⟨h.registry, fun id' c hc => ?_, fun id' c hc => ?_, fun id' c hc => ?_,
    fun id' c handle hc hown => ?_, fun handle hopen => ?_,
    fun handle id₁ c₁ id₂ c₂ hc₁ hc₂ hown₁ hown₂ => ?_⟩
  · obtain ⟨c', hc', -⟩ := hback hc
    exact h.fresh id' c' hc'
  · obtain ⟨c', hc', hn, -⟩ := hback hc
    rw [hn]
    exact h.node id' c' hc'
  · obtain ⟨c', hc', -, hh, hd⟩ := hback hc
    rw [hh, hd]
    exact h.isDir id' c' hc'
  · obtain ⟨c', hc', hn, hh, -⟩ := hback hc
    rw [hn]
    exact h.file id' c' handle hc' (hh.symm.trans hown)
  · obtain ⟨id', c', hc', hown⟩ := h.owned handle hopen
    by_cases hid : id' = id
    · subst hid
      obtain rfl : context = c' := Option.some.inj (hheld.symm.trans hc')
      exact ⟨id', after, AList.lookup_insert _, hhandle.trans hown⟩
    · exact ⟨id', c', (AList.lookup_insert_ne hid).trans hc', hown⟩
  · obtain ⟨c₁', hc₁', -, hh₁, -⟩ := hback hc₁
    obtain ⟨c₂', hc₂', -, hh₂, -⟩ := hback hc₂
    exact h.distinct handle id₁ c₁' id₂ c₂' hc₁' hc₂' (hh₁.symm.trans hown₁) (hh₂.symm.trans hown₂)

/-- A new context. -/
lemma Ok.opened (h : Ok f) {world : World ρ} {context : FileContext}
    (hopened : CacheFs.Opened f.world context world) :
    Ok ⟨world, f.contexts.insert f.next context, f.next + 1⟩ := by
  have hcases : ∀ {id c}, (f.contexts.insert f.next context).lookup id = some c →
      id = f.next ∧ c = context ∨ id ≠ f.next ∧ f.contexts.lookup id = some c := by
    intro id c hc
    rw [FMap.lookup_insert_eq_ite] at hc
    split at hc
    · next hid => exact .inl ⟨hid, (Option.some.inj hc).symm⟩
    · next hid => exact .inr ⟨hid, hc⟩
  -- a file that was open before is not the one of the new context
  have hold : ∀ {handle}, (f.world.state.file handle).isSome → context.handle ≠ some handle ∧
      world.state.file handle = f.world.state.file handle := by
    intro handle hopen
    cases hnew : context.handle with
    | none => exact ⟨(Option.some_ne_none handle).symm, hopened.directory hnew handle⟩
    | some new =>
        obtain ⟨hclosed, path, hfile⟩ := hopened.file new hnew
        have hne : handle ≠ new := by
          rintro rfl
          rw [hclosed] at hopen
          cases hopen
        rw [hfile, if_neg hne]
        exact ⟨fun heq => hne (Option.some.inj heq).symm, rfl⟩
  have hopen : ∀ {id c handle}, f.contexts.lookup id = some c → c.handle = some handle →
      (f.world.state.file handle).isSome := by
    intro id c handle hc hown
    obtain ⟨path, hfile⟩ := h.file id c handle hc hown
    rw [hfile]
    rfl
  refine ⟨hopened.registry, fun id c hc => ?_, fun id c hc => ?_, fun id c hc => ?_,
    fun id c handle hc hown => ?_, fun handle hopen' => ?_,
    fun handle id₁ c₁ id₂ c₂ hc₁ hc₂ hown₁ hown₂ => ?_⟩
  · rcases hcases hc with ⟨rfl, -⟩ | ⟨-, hc⟩
    · exact Nat.lt_succ_self _
    · exact (h.fresh id c hc).trans (Nat.lt_succ_self _)
  · rcases hcases hc with ⟨-, rfl⟩ | ⟨-, hc⟩
    · exact hopened.node
    · exact hopened.known _ (h.node id c hc)
  · rcases hcases hc with ⟨-, rfl⟩ | ⟨-, hc⟩
    · exact hopened.isDir
    · exact h.isDir id c hc
  · rcases hcases hc with ⟨-, rfl⟩ | ⟨-, hc⟩
    · obtain ⟨-, path, hfile⟩ := hopened.file handle hown
      exact ⟨path, (hfile handle).trans (if_pos rfl)⟩
    · rw [(hold (hopen hc hown)).2]
      exact h.file id c handle hc hown
  · by_cases hnew : context.handle = some handle
    · exact ⟨f.next, context, AList.lookup_insert _, hnew⟩
    · have hsame : world.state.file handle = f.world.state.file handle := by
        cases hdir : context.handle with
        | none => exact hopened.directory hdir handle
        | some new =>
            obtain ⟨-, path, hfile⟩ := hopened.file new hdir
            refine (hfile handle).trans (if_neg ?_)
            rintro rfl
            exact hnew hdir
      rw [hsame] at hopen'
      obtain ⟨id, c, hc, hown⟩ := h.owned handle hopen'
      exact ⟨id, c, (AList.lookup_insert_ne (h.fresh id c hc).ne).trans hc, hown⟩
  · rcases hcases hc₁ with ⟨hid₁, heq₁⟩ | ⟨-, hheld₁⟩
    · rcases hcases hc₂ with ⟨hid₂, -⟩ | ⟨-, hheld₂⟩
      · exact hid₁.trans hid₂.symm
      · exact absurd (heq₁ ▸ hown₁) (hold (hopen hheld₂ hown₂)).1
    · rcases hcases hc₂ with ⟨-, heq₂⟩ | ⟨-, hheld₂⟩
      · exact absurd (heq₂ ▸ hown₂) (hold (hopen hheld₁ hown₁)).1
      · exact h.distinct handle id₁ c₁ id₂ c₂ hheld₁ hheld₂ hown₁ hown₂

/-! ## Callbacks and contexts -/

/-- A callback on the volume gives out a context, or leaves the open files. -/
lemma leaves_onVolume {w : World ρ} (hw : Session.RegistryOk w.state) (request : VolumeRequest) :
    (∃ context info, ((CacheFs.onVolume request).run (World.vfs R) w).1 = .opened context info ∧
      CacheFs.Opened w context ((CacheFs.onVolume request).run (World.vfs R) w).2) ∨
    (∀ context info, ((CacheFs.onVolume request).run (World.vfs R) w).1 ≠ .opened context info) ∧
      w.SameFiles ((CacheFs.onVolume request).run (World.vfs R) w).2 := by
  cases request with
  | getSecurityByName fileName =>
      have hasks : (CacheFs.onVolume (.getSecurityByName fileName)).Asks
          CacheShfs.Call.KeepsFiles :=
        (CacheFs.asks_onVolume (.getSecurityByName fileName)).mono fun call hcall =>
          CacheFs.looks_keepsFiles call (hcall.resolve_right id)
      refine .inr ⟨fun context info => ?_, World.sameFiles_run hasks hw⟩
      rw [CacheFs.onVolume, run_map]
      cases ((CacheFs.getSecurityByName fileName).run.run (World.vfs R) w).1 <;>
        exact fun h => FspReply.noConfusion h
  | openFile fileName createOptions grantedAccess =>
      rcases (CacheFs.opened_openFile (R := R) hw fileName createOptions grantedAccess).result
        (FspReply.ofResult fun r => .opened r.1 r.2) with ⟨r, hr, hopened⟩ | ⟨e, he, hkept⟩
      · exact .inl ⟨r.1, r.2, hr, hopened⟩
      · exact .inr ⟨fun _ _ h => FspReply.noConfusion (he.symm.trans h), hkept⟩
  | create fileName createOptions grantedAccess fileAttributes =>
      rcases (CacheFs.opened_create (R := R) hw fileName createOptions grantedAccess
        fileAttributes).result (FspReply.ofResult fun r => .opened r.1 r.2) with
        ⟨r, hr, hopened⟩ | ⟨e, he, hkept⟩
      · exact .inl ⟨r.1, r.2, hr, hopened⟩
      · exact .inr ⟨fun _ _ h => FspReply.noConfusion (he.symm.trans h), hkept⟩
  | flush => exact .inr ⟨fun _ _ h => FspReply.noConfusion h, World.SameFiles.refl hw⟩

/-- A callback on an open file that is no `close` opens and closes nothing. -/
lemma leaves_onFile {w : World ρ} (hw : Session.RegistryOk w.state)
    (setName : Str → Except UInt32 Unit) (context : FileContext) {request : FileRequest}
    (hrequest : request ≠ .close) :
    w.SameFiles ((CacheFs.onFile setName context request).run (World.vfs R) w).2 := by
  refine World.sameFiles_run ((CacheFs.asks_onFile setName context request).mono ?_) hw
  rintro call (hlooks | hcall)
  · exact CacheFs.looks_keepsFiles call hlooks
  · cases request with
    | close => exact absurd rfl hrequest
    | cleanup fileName flags =>
        obtain ⟨-, -, -, parent, name, rfl⟩ := hcall
        cases context.isDir <;> trivial
    | flush =>
        obtain ⟨handle, rfl⟩ := hcall
        trivial
    | overwrite =>
        obtain rfl := hcall
        trivial
    | rename fileName newFileName replaceIfExists =>
        obtain ⟨_, _, _, _, rfl⟩ := hcall
        trivial
    | setBasicInfo fileAttributes lastAccessTime lastWriteTime =>
        obtain rfl := hcall
        trivial
    | setFileSize newSize setAllocationSize =>
        obtain ⟨-, rfl⟩ := hcall
        trivial
    | read length offset =>
        obtain ⟨_, _, rfl⟩ := hcall
        trivial
    | write buffer offset writeToEof constrainedIo =>
        obtain ⟨_, _, _, -, rfl⟩ := hcall
        trivial
    | _ => exact hcall.elim

/-- `close` closes the file of its context, and nothing else. -/
lemma run_close (w : World ρ) (context : FileContext) :
    (CacheFs.onFile setName context .close).run (World.vfs R) w = ((.done, none),
      { w with state := context.handle.elim w.state w.state.close }) := by
  unfold CacheFs.onFile CacheFs.close
  cases context.handle <;> rfl

lemma Ok.closed (h : Ok f) {id : ℕ} {context : FileContext}
    (hheld : f.contexts.lookup id = some context) :
    Ok { f with
      world := { f.world with state := context.handle.elim f.world.state f.world.state.close }
      contexts := f.contexts.erase id } := by
  have hcases : ∀ {id' c}, (f.contexts.erase id).lookup id' = some c →
      id' ≠ id ∧ f.contexts.lookup id' = some c := by
    intro id' c hc
    rw [FMap.lookup_erase_eq_ite] at hc
    split at hc
    · cases hc
    · next hid => exact ⟨hid, hc⟩
  -- the files of the other contexts are not the one that is closed
  have hfile : ∀ handle, (context.handle.elim f.world.state f.world.state.close).file handle =
      if context.handle = some handle then none else f.world.state.file handle := by
    intro handle
    cases context.handle with
    | none => rfl
    | some own =>
        simp only [Option.elim_some, State.file_close, Option.some.injEq, eq_comm]
  have hother : ∀ {id' c handle}, id' ≠ id → f.contexts.lookup id' = some c →
      c.handle = some handle → context.handle ≠ some handle := by
    intro id' c handle hid hc hown hhandle
    exact hid (h.distinct handle id' c id context hc hheld hown hhandle)
  have hpath : ∀ n, (context.handle.elim f.world.state f.world.state.close).path n =
      f.world.state.path n := by
    intro n
    cases context.handle <;> rfl
  have hregistry : Session.RegistryOk
      (context.handle.elim f.world.state f.world.state.close) := by
    cases context.handle with
    | none => exact h.registry
    | some own =>
        have hclosed : Section f.world.state (f.world.state.close own) := .closed own
        exact ⟨hclosed.wf h.registry.wf, hclosed.handlesKnown h.registry.wf h.registry.handles⟩
  refine ⟨hregistry, fun id' c hc => ?_, fun id' c hc => ?_, fun id' c hc => ?_,
    fun id' c handle hc hown => ?_, fun handle hopen => ?_,
    fun handle id₁ c₁ id₂ c₂ hc₁ hc₂ hown₁ hown₂ => ?_⟩
  · exact h.fresh id' c (hcases hc).2
  · have hknown := h.node id' c (hcases hc).2
    rw [World.Known, ← hpath] at hknown
    exact hknown
  · exact h.isDir id' c (hcases hc).2
  · obtain ⟨hid, hc⟩ := hcases hc
    rw [hfile, if_neg (hother hid hc hown)]
    exact h.file id' c handle hc hown
  · rw [hfile] at hopen
    split at hopen
    · cases hopen
    · next hnot =>
        obtain ⟨id', c, hc, hown⟩ := h.owned handle hopen
        refine ⟨id', c, ?_, hown⟩
        rw [FMap.lookup_erase_eq_ite, if_neg]
        · exact hc
        · rintro rfl
          obtain rfl : context = c := Option.some.inj (hheld.symm.trans hc)
          exact hnot hown
  · exact h.distinct handle id₁ c₁ id₂ c₂ (hcases hc₁).2 (hcases hc₂).2 hown₁ hown₂

/-- **Every callback keeps the files and the contexts together.** -/
lemma Ok.step (h : Ok f) (e : FspEvent ρ) : Ok (f.step R setName e) := by
  cases e with
  | beside event =>
      have hstate := Session.act_state event f.world
      refine h.kept ⟨?_, fun fh => ?_, fun n hn => ?_⟩
      · rw [hstate]
        exact h.registry
      · rw [hstate]
      · rw [World.Known, hstate]
        exact hn
  | volume request =>
      rcases leaves_onVolume (R := R) h.registry request with
        ⟨context, info, hreply, hopened⟩ | ⟨hreply, hkept⟩
      · have hopen := h.opened hopened
        simp only [WinFsp.step, hreply, hold]
        exact hopen
      · have hsame := h.kept hkept
        simp only [WinFsp.step]
        cases hr : ((CacheFs.onVolume request).run (World.vfs R) f.world).1 with
        | opened context info => exact absurd hr (hreply context info)
        | _ => exact hsame
  | file id request =>
      simp only [WinFsp.step]
      cases hheld : f.contexts.lookup id with
      | none => exact h
      | some context =>
          by_cases hrequest : request = .close
          · subst hrequest
            simp only [run_close, keep]
            exact h.closed hheld
          · obtain ⟨after, hafter, hsame⟩ := CacheFs.onFile_context (h := World.vfs R)
              (s := f.world) setName context hrequest
            have hkept := h.kept (leaves_onFile (R := R) h.registry setName context hrequest)
            simp only [hafter, keep]
            exact hkept.changed hheld hsame

/-- The mount and WinFsp after a run from a new mount. -/
abbrev after (R : RemoteFilesystem ρ) (setName : Str → Except UInt32 Unit) (config : Config)
    (disk : Disk) (conn : Conn ρ) (es : List (FspEvent ρ)) : WinFsp ρ :=
  run (step R setName) (start (World.new config disk conn)) es

lemma ok_after (setName : Str → Except UInt32 Unit) (config : Config) (disk : Disk)
    (conn : Conn ρ) (es : List (FspEvent ρ)) :
    Ok (after R setName config disk conn es) :=
  invariant_of_step (fun _ e h => h.step e) (ok_start config disk conn) es

/-- **Every context owns its file, and every open file has a context.**  After any callbacks with
any arguments, whichever of them have failed: the open files of the mount are those of the contexts
that WinFsp holds, no two contexts share one, and a context stands for a node that the mount knows.
So nothing is open in the mount once WinFsp has closed what it has opened. -/
theorem contexts_own_handles (R : RemoteFilesystem ρ) (setName : Str → Except UInt32 Unit)
    (config : Config) (disk : Disk) (conn : Conn ρ) (es : List (FspEvent ρ)) :
    (∀ handle, ((after R setName config disk conn es).world.state.file handle).isSome ↔
      ∃ id context, (after R setName config disk conn es).contexts.lookup id = some context ∧
        context.handle = some handle) ∧
    (∀ handle id context id' context',
      (after R setName config disk conn es).contexts.lookup id = some context →
      (after R setName config disk conn es).contexts.lookup id' = some context' →
      context.handle = some handle → context'.handle = some handle → id = id') ∧
    ∀ id context, (after R setName config disk conn es).contexts.lookup id = some context →
      (∃ p, (after R setName config disk conn es).world.state.pathOf context.node = .ok p) ∧
      (context.isDir = true ↔ context.handle = none) ∧
      ∀ handle, context.handle = some handle →
        ∃ path, (after R setName config disk conn es).world.state.file handle =
          some ⟨context.node, path⟩ := by
  have hok := ok_after (R := R) setName config disk conn es
  generalize after R setName config disk conn es = f at hok ⊢
  refine ⟨fun handle => ⟨hok.owned handle, ?_⟩, hok.distinct, fun id context hheld => ?_⟩
  · rintro ⟨id, context, hheld, hown⟩
    obtain ⟨path, hfile⟩ := hok.file id context handle hheld hown
    rw [hfile]
    rfl
  · obtain ⟨p, hp⟩ := Option.isSome_iff_exists.mp (hok.node id context hheld)
    exact ⟨⟨p, State.pathOf_ok.mpr hp⟩, hok.isDir id context hheld,
      fun handle => hok.file id context handle hheld⟩

end WinFsp

end Windows

end CacheShfs
