import CacheShfs.Windows.Tree

/-!
# The WinFsp adapter

The callbacks of `crates/cacheshfs-windows/src/fs.rs` that name files: `open`, `create`, `cleanup`
and `rename`.  What they write into `FileInfo` is not modelled, but for the normalized name.

A path that `open` has reported is the path of the file that was opened, also for a deletion or a
renaming (`resolve_canonical`).
-/

namespace CacheShfs

namespace Windows

/-! ## The callbacks -/

/-- `to_fsp`: the `NTSTATUS` of an error. -/
def toFsp : Error → UInt32
  | .notFound => 0xC0000034
  | .alreadyExists => 0xC0000035
  | .permissionDenied => 0xC0000022
  | .invalidInput _ => 0xC000000D
  | .unsupportedOperation _ => 0xC0000002
  | .unavailable _ => 0xC00000A3
  | .remoteBackend _ => 0xC00000C4
  | .mountBackend _ => 0xC00000E5
  | .unsupportedPlatform _ => 0xC00000BB

/-- `FILE_DIRECTORY_FILE`. -/
def fileDirectoryFile : UInt32 := 0x00000001

/-- `FSP_CLEANUP_DELETE`. -/
def fspCleanupDelete : UInt32 := 1

/-- `FILE_WRITE_DATA`. -/
def fileWriteData : UInt32 := 0x0002

/-- `FILE_APPEND_DATA`. -/
def fileAppendData : UInt32 := 0x0004

/-- `FILE_WRITE_ATTRIBUTES`. -/
def fileWriteAttributes : UInt32 := 0x0100

/-- `FILE_ATTRIBUTE_READONLY`. -/
def fileAttributeReadonly : UInt32 := 0x00000001

/-- `open_flags`. -/
def openFlags (_createOptions grantedAccess : UInt32) : OpenFlags where
  read := true
  write := grantedAccess &&& (fileWriteData ||| fileAppendData ||| fileWriteAttributes) ≠ 0
  append := grantedAccess &&& fileAppendData ≠ 0
  truncate := false

/-- `mode_for_create`. -/
def modeForCreate (fileAttributes : UInt32) (isDir : Bool) : UInt32 :=
  match isDir, decide (fileAttributes &&& fileAttributeReadonly ≠ 0) with
  | true, true => 0o555
  | true, false => 0o755
  | false, true => 0o444
  | false, false => 0o644

/-- `struct CacheFile`. -/
structure CacheFile where
  node : NodeId
  handle : Option FileHandle
  isDir : Bool
  deletePending : Bool
  deriving DecidableEq

/-- What `open` and `create` hand to WinFsp: the context, and the normalized name. -/
structure OpenedFile where
  context : CacheFile
  normalizedName : Str
  deriving DecidableEq

variable {σ : Type} (V : VirtualFilesystem σ)

/-- `CacheFs::open`. -/
def openPath (fileName : Str) (createOptions grantedAccess : UInt32) (s : σ) :
    Except UInt32 OpenedFile × σ :=
  match resolve V s fileName with
  | .error e => (.error (toFsp e), s)
  | .ok (metadata, canonical) =>
      if metadata.attributes.kind = .directory then
        (.ok ⟨⟨metadata.node, none, true, false⟩, canonical⟩, s)
      else
        match V.openFile metadata.node (openFlags createOptions grantedAccess) s with
        | (.error e, s) => (.error (toFsp e), s)
        | (.ok handle, s) => (.ok ⟨⟨metadata.node, some handle, false, false⟩, canonical⟩, s)

/-- `CacheFs::create`. -/
def create (fileName : Str) (createOptions grantedAccess fileAttributes : UInt32) (s : σ) :
    Except UInt32 OpenedFile × σ :=
  match resolveParent V s fileName with
  | .error e => (.error (toFsp e), s)
  | .ok (parent, name) =>
      if createOptions &&& fileDirectoryFile ≠ 0 then
        match V.mkdir parent name (modeForCreate fileAttributes true) s with
        | (.error e, s) => (.error (toFsp e), s)
        | (.ok metadata, s) => (.ok ⟨⟨metadata.node, none, true, false⟩, fileName⟩, s)
      else
        match V.create parent name (modeForCreate fileAttributes false)
          (openFlags createOptions grantedAccess) s with
        | (.error e, s) => (.error (toFsp e), s)
        | (.ok created, s) =>
            (.ok ⟨⟨created.metadata.node, some created.handle, false, false⟩, fileName⟩, s)

/-- `CacheFs::cleanup`. -/
def cleanup (context : CacheFile) (fileName : Option Str) (flags : UInt32) (s : σ) : σ :=
  if flags &&& fspCleanupDelete = 0 ∨ context.deletePending = false then s
  else
    match fileName with
    | none => s
    | some fileName =>
        match resolveParent V s fileName with
        | .error _ => s
        | .ok (parent, name) =>
            if context.isDir then (V.rmdir parent name s).2 else (V.unlink parent name s).2

/-- `CacheFs::rename`. -/
def rename (fileName newFileName : Str) (_replaceIfExists : Bool) (s : σ) :
    Except UInt32 Unit × σ :=
  match resolveParent V s fileName with
  | .error e => (.error (toFsp e), s)
  | .ok (oldParent, oldName) =>
      match resolveParent V s newFileName with
      | .error e => (.error (toFsp e), s)
      | .ok (newParent, newName) =>
          match V.rename oldParent oldName newParent newName s with
          | (.error e, s) => (.error (toFsp e), s)
          | (.ok (), s) => (.ok (), s)

/-! ## Files that have been opened -/

variable {V} in
/-- `open` opens what `resolve` comes to, and reports its path. -/
lemma openPath_ok {s s' : σ} {fileName canonical : Str} {metadata : FileMetadata}
    (h : resolve V s fileName = .ok (metadata, canonical)) {createOptions grantedAccess : UInt32}
    {opened : OpenedFile}
    (hopen : openPath V fileName createOptions grantedAccess s = (.ok opened, s')) :
    opened.context.node = metadata.node ∧
      opened.context.isDir = decide (metadata.attributes.kind = .directory) ∧
      opened.normalizedName = canonical := by
  simp only [openPath, h] at hopen
  by_cases hdir : metadata.attributes.kind = .directory
  · rw [if_pos hdir] at hopen
    obtain ⟨rfl, -⟩ := by simpa using hopen
    simp [hdir]
  · rw [if_neg hdir] at hopen
    split at hopen
    · cases hopen
    · obtain ⟨rfl, -⟩ := by simpa using hopen
      simp [hdir]

/-- **The path that `resolve` reports is canonical.**  In every state in which lookups agree with
listings and names have no separators, it resolves to the same file and to itself, and its parent
and leaf are those under which an exact lookup finds the file.  It is the name that `open` reports,
so a deletion and a renaming with this name ask for exactly the file that was opened. -/
theorem resolve_canonical {s : σ} (hV : Listed V s) {fileName canonical : Str}
    {metadata : FileMetadata} (hne : components fileName ≠ [])
    (h : resolve V s fileName = .ok (metadata, canonical)) :
    resolve V s canonical = .ok (metadata, canonical) ∧
    ∃ parent leaf, resolveParent V s canonical = .ok (parent, leaf) ∧
      V.lookup s parent leaf = .ok metadata ∧
      (∀ createOptions grantedAccess opened s',
        openPath V fileName createOptions grantedAccess s = (.ok opened, s') →
        opened.context.node = metadata.node ∧
          opened.context.isDir = decide (metadata.attributes.kind = .directory) ∧
          opened.normalizedName = canonical) ∧
      (∀ context flags, flags &&& fspCleanupDelete ≠ 0 → context.deletePending = true →
        cleanup V context (some canonical) flags s =
          if context.isDir then (V.rmdir parent leaf s).2 else (V.unlink parent leaf s).2) ∧
      ∀ newFileName newParent newName replace,
        resolveParent V s newFileName = .ok (newParent, newName) →
        (rename V canonical newFileName replace s).2 =
          (V.rename parent leaf newParent newName s).2 := by
  obtain ⟨root, hroot⟩ := getattr_of_resolve h
  obtain ⟨names, hcomponents, hpath, hwalk⟩ := canonical_walk hV hne h
  obtain ⟨parent, leaf, hparent, hlookup⟩ := resolveParent_of_walk hcomponents hwalk
  refine ⟨resolve_of_walk hroot hcomponents hpath hwalk, parent, leaf, hparent, hlookup,
    fun _ _ _ _ => openPath_ok h, ?_, ?_⟩
  · intro context flags hflags hpending
    rw [cleanup, if_neg (by simp [hflags, hpending])]
    simp only [hparent]
  · intro newFileName newParent newName replace hnew
    simp only [rename, hparent, hnew]
    split <;> simp_all

/-- Two directories whose names differ by case, each with a file `b`. -/
def caseTwins : Tree :=
  [(.root, ⟨['a'], ⟨⟨2⟩, Tree.attributes .directory 0o755⟩⟩),
    (.root, ⟨['A'], ⟨⟨3⟩, Tree.attributes .directory 0o755⟩⟩),
    (⟨2⟩, ⟨['b'], ⟨⟨4⟩, Tree.attributes .file 0o644⟩⟩),
    (⟨3⟩, ⟨['b'], ⟨⟨5⟩, Tree.attributes .file 0o644⟩⟩)]

/-- `/A\B` is the `b` in `A`, and so is the path that is reported for it. -/
theorem resolve_canonical_twins :
    resolve Tree.vfs caseTwins ['\\', 'A', '\\', 'b'] =
        .ok (⟨⟨5⟩, Tree.attributes .file 0o644⟩, ['\\', 'A', '\\', 'b']) ∧
    ∃ parent leaf, resolveParent Tree.vfs caseTwins ['\\', 'A', '\\', 'b'] = .ok (parent, leaf) ∧
      Tree.vfs.lookup caseTwins parent leaf = .ok ⟨⟨5⟩, Tree.attributes .file 0o644⟩ := by
  have hlisted : Listed Tree.vfs caseTwins :=
    Tree.listed (by decide) (by simp [caseTwins, isSeparator])
  have hresolve : resolve Tree.vfs caseTwins ['/', 'A', '\\', 'B'] =
      .ok (⟨⟨5⟩, Tree.attributes .file 0o644⟩, ['\\', 'A', '\\', 'b']) := by decide
  obtain ⟨hsame, parent, leaf, hparent, hlookup, -⟩ :=
    resolve_canonical Tree.vfs hlisted (by decide) hresolve
  exact ⟨hsame, parent, leaf, hparent, hlookup⟩

end Windows

end CacheShfs
