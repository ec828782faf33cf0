import CacheShfs.Core.Remote

/-!
# The SFTP transport

`SftpBackend` of `crates/cacheshfs-sftp/src/lib.rs`: the remote filesystem as requests of an SFTP
session, and the three functions by which errors of the session become errors of the core.

The session itself belongs to `russh_sftp` and is a parameter: `SftpSession σ φ` gives what each
request answers in a state `σ` of the connection, with open files `φ`.  Of its errors the
transport only distinguishes the status replies of the server (`SftpError.status`); all others
are local failures, and only their text is used.  Errors of an open file are I/O errors of the
standard library, of which the transport looks at the kind.

A method runs to completion on the calling thread, so it is a function of the session's state.
The one timeout (of `read`) may elapse or not; `timesOut` says which.
-/

namespace CacheShfs

/-! ## Errors -/

/-- `russh_sftp::protocol::StatusCode`, as far as it is looked at. -/
inductive StatusCode
  | noSuchFile
  | permissionDenied
  | opUnsupported
  | noConnection
  | connectionLost
  | other (code : ℕ)
  deriving DecidableEq, Repr

/-- `russh_sftp::client::error::Error`: a status reply of the server, or a local failure with its
text. -/
inductive SftpError
  | status (code : StatusCode) (message : String)
  | other (text : String)
  deriving DecidableEq, Repr

/-- `std::io::ErrorKind`, as far as it is looked at. -/
inductive IoErrorKind
  | notFound
  | alreadyExists
  | permissionDenied
  | other
  deriving DecidableEq, Repr

/-- `std::io::Error`. -/
structure IoError where
  kind : IoErrorKind
  text : String
  deriving DecidableEq, Repr

/-- `map_io_error`. -/
def mapIoError (error : IoError) : Error :=
  match error.kind with
  | .notFound => .notFound
  | .alreadyExists => .alreadyExists
  | .permissionDenied => .permissionDenied
  | .other => .remoteBackend error.text

/-- `map_sftp_error`. -/
def mapSftpError : SftpError → Error
  | .status .noSuchFile _ => .notFound
  | .status .permissionDenied _ => .permissionDenied
  | .status .opUnsupported _ =>
      .unsupportedOperation "remote sftp server does not support this operation"
  | .status _ message => .remoteBackend ("sftp error: " ++ message)
  | .other text => .remoteBackend ("sftp error: " ++ text)

/-! ## Attributes -/

/-- `russh_sftp::protocol::FileAttributes`. -/
structure SftpAttributes where
  size : Option UInt64 := none
  uid : Option UInt32 := none
  gid : Option UInt32 := none
  permissions : Option UInt32 := none
  atime : Option UInt32 := none
  mtime : Option UInt32 := none
  deriving DecidableEq, Repr

/-- `russh_sftp::protocol::FileType`, as far as it is looked at. -/
inductive SftpFileType
  | dir
  | symlink
  | other
  deriving DecidableEq, Repr

/-- How a file is opened: for reading, for writing, or as a new file with attributes. -/
inductive SftpOpen
  | read
  | write
  | createNew (attributes : SftpAttributes)

/-- `as u32` of an `i64`. -/
def asU32OfInt (x : Int) : UInt32 := UInt32.ofNat (x % 2 ^ 32).toNat

/-- `set_attributes`. -/
def setAttributes (attributes : SetAttributes) : SftpAttributes where
  size := attributes.size
  permissions := attributes.mode
  atime := attributes.accessedUnixSeconds.map asU32OfInt
  mtime := attributes.modifiedUnixSeconds.map asU32OfInt

/-! ## The session -/

/-- `russh_sftp::client::SftpSession` and the files it opens. -/
structure SftpSession (σ φ : Type) where
  metadata : Str → σ → Except SftpError SftpAttributes × σ
  readDir : Str → σ → Except SftpError (List (Str × SftpAttributes)) × σ
  openFile : Str → SftpOpen → σ → Except SftpError φ × σ
  createDir : Str → σ → Except SftpError Unit × σ
  setMetadata : Str → SftpAttributes → σ → Except SftpError Unit × σ
  removeFile : Str → σ → Except SftpError Unit × σ
  removeDir : Str → σ → Except SftpError Unit × σ
  rename : Str → Str → σ → Except SftpError Unit × σ
  seek : φ → ℕ → σ → Except IoError Unit × σ
  readFile : φ → ℕ → σ → Except IoError Bytes × σ
  writeAll : φ → Bytes → σ → Except IoError Unit × σ
  flush : φ → σ → Except IoError Unit × σ
  fileType : SftpAttributes → SftpFileType
  /-- The read timeout elapses before a read that starts in this state is answered. -/
  timesOut : σ → Bool
  /-- The session after a read has been given up. -/
  cancel : σ → σ

namespace SftpSession

variable {σ φ : Type} (S : SftpSession σ φ)

/-- A method of the transport: requests until one fails. -/
abbrev Method (σ α : Type) := ExceptT Error (StateM σ) α

/-- A request of the session, with `map_err(map_sftp_error)`. -/
def request {α : Type} (f : σ → Except SftpError α × σ) : Method σ α := fun s =>
  ((f s).1.mapError mapSftpError, (f s).2)

/-- An operation of an open file, with `map_err(map_io_error)`. -/
def onFile {α : Type} (f : σ → Except IoError α × σ) : Method σ α := fun s =>
  ((f s).1.mapError mapIoError, (f s).2)

/-- `file_attributes`. -/
def fileAttributes (metadata : SftpAttributes) : FileAttributes where
  kind :=
    match S.fileType metadata with
    | .dir => .directory
    | .symlink => .symlink
    | .other => .file
  size := metadata.size.getD 0
  mode := metadata.permissions.getD 0
  uid := metadata.uid.getD 0
  gid := metadata.gid.getD 0
  modifiedUnixSeconds := metadata.mtime.map fun mtime => (mtime.toNat : Int)
  accessedUnixSeconds := metadata.atime.map fun atime => (atime.toNat : Int)
  changedUnixSeconds := none

/-- `SftpBackend::stat`. -/
def stat (path : RemotePath) : Method σ FileAttributes := do
  let metadata ← request (S.metadata path.asStr)
  return S.fileAttributes metadata

/-- `SftpBackend::read_dir`. -/
def readDirectory (path : RemotePath) : Method σ (List RemoteDirectoryEntry) := do
  let entries ← request (S.readDir path.asStr)
  return entries.map fun entry => ⟨entry.1, S.fileAttributes entry.2⟩

/-- The loop of `SftpBackend::read`: read until the buffer is full or the file ends.  Every pass
but the last adds at least one byte, so `size` passes are enough. -/
def fill (file : φ) (size : ℕ) : ℕ → Bytes → Method σ Bytes
  | 0, buffer => return buffer
  | fuel + 1, buffer =>
      if buffer.length < size then do
        let data ← onFile (S.readFile file (size - buffer.length))
        if data = [] then return buffer
        else fill file size fuel (buffer ++ data)
      else return buffer

/-- `SftpBackend::read`, with a timeout of so many seconds. -/
def readRange (timeout : ℕ) (path : RemotePath) (offset size : ℕ) : Method σ Bytes := fun s =>
  if S.timesOut s then
    (.error (.unavailable ("remote read timed out after " ++ toString timeout ++ "s")), S.cancel s)
  else
    (do
      let file ← request (S.openFile path.asStr .read)
      onFile (S.seek file offset)
      S.fill file size size [] : Method σ Bytes) s

/-- `SftpBackend::write`. -/
def writeRange (path : RemotePath) (offset : UInt64) (data : Bytes) : Method σ UInt32 := do
  let file ← request (S.openFile path.asStr .write)
  onFile (S.seek file offset.toNat)
  onFile (S.writeAll file data)
  onFile (S.flush file)
  return UInt32.ofNat data.length

/-- `SftpBackend::create`. -/
def createFile (path : RemotePath) (mode : UInt32) : Method σ FileAttributes := do
  let _file ← request (S.openFile path.asStr (.createNew { permissions := some mode }))
  S.stat path

/-- `SftpBackend::mkdir`.  The permissions are set afterwards, and a failure of that is
ignored. -/
def mkdir (path : RemotePath) (mode : UInt32) : Method σ FileAttributes := do
  request (S.createDir path.asStr)
  (fun s => (.ok (), (S.setMetadata path.asStr { permissions := some mode } s).2) : Method σ Unit)
  S.stat path

/-- `SftpBackend::setattr`. -/
def setattr (path : RemotePath) (attributes : SetAttributes) : Method σ FileAttributes := do
  request (S.setMetadata path.asStr (setAttributes attributes))
  S.stat path

/-- `impl RemoteFilesystem for SftpBackend`. -/
def backend (timeout : ℕ) : RemoteFilesystem σ where
  stat := S.stat
  readDir := S.readDirectory
  read := S.readRange timeout
  write := S.writeRange
  create := S.createFile
  mkdir := S.mkdir
  unlink path := request (S.removeFile path.asStr)
  rmdir path := request (S.removeDir path.asStr)
  rename src dst := request (S.rename src.asStr dst.asStr)
  setattr := S.setattr

/-! ## Failing requests -/

variable {S}

/-- A method fails with the first thing it does. -/
lemma bind_error {α β : Type} {m : Method σ α} {f : α → Method σ β} {s : σ} {e : Error}
    (h : (m s).1 = .error e) : ((m >>= f) s).1 = .error e := by
  simp only [bind, ExceptT.bind, ExceptT.mk, StateT.bind, ExceptT.bindCont]
  rw [show m s = (.error e, (m s).2) from Prod.ext h rfl]
  rfl

lemma request_error {α : Type} {f : σ → Except SftpError α × σ} {s : σ} {e : SftpError}
    (h : (f s).1 = .error e) : (request f s).1 = .error (mapSftpError e) := by
  simp only [request, h]
  rfl

/-- A `stat` fails as its request does. -/
lemma stat_error {path : RemotePath} {s : σ} {e : SftpError}
    (h : (S.metadata path.asStr s).1 = .error e) (timeout : ℕ) :
    ((S.backend timeout).stat path s).1 = .error (mapSftpError e) :=
  bind_error (request_error h)

/-- A `read_dir` fails as its request does. -/
lemma readDir_error {path : RemotePath} {s : σ} {e : SftpError}
    (h : (S.readDir path.asStr s).1 = .error e) (timeout : ℕ) :
    ((S.backend timeout).readDir path s).1 = .error (mapSftpError e) :=
  bind_error (request_error h)

/-! ## Reads -/

/-- A method that succeeds has done so at every step. -/
lemma bind_ok {α β : Type} {m : Method σ α} {f : α → Method σ β} {s : σ} {b : β}
    (h : ((m >>= f) s).1 = .ok b) :
    ∃ a, (m s).1 = .ok a ∧ (f a (m s).2).1 = .ok b := by
  cases hm : (m s).1 with
  | error e => simp [bind_error hm] at h
  | ok a =>
      refine ⟨a, rfl, ?_⟩
      simp only [bind, ExceptT.bind, ExceptT.mk, StateT.bind, ExceptT.bindCont] at h
      rwa [show m s = (.ok a, (m s).2) from Prod.ext hm rfl] at h

/-- The buffer is never filled beyond its end. -/
lemma fill_length (hfile : ∀ file size s data, (S.readFile file size s).1 = .ok data →
    data.length ≤ size) {file : φ} {size fuel : ℕ} {buffer data : Bytes} {s : σ}
    (hbuffer : buffer.length ≤ size) (h : (S.fill file size fuel buffer s).1 = .ok data) :
    data.length ≤ size := by
  induction fuel generalizing buffer s with
  | zero =>
      cases h
      exact hbuffer
  | succ fuel ih =>
      rw [fill] at h
      by_cases hlt : buffer.length < size
      · rw [if_pos hlt] at h
        obtain ⟨chunk, hchunk, h⟩ := bind_ok h
        by_cases hempty : chunk = []
        · rw [if_pos hempty] at h
          cases h
          exact hbuffer
        · rw [if_neg hempty] at h
          have hread : (S.readFile file (size - buffer.length) s).1 = .ok chunk := by
            cases hanswer : (S.readFile file (size - buffer.length) s).1 with
            | error e => simp [onFile, hanswer, Except.mapError] at hchunk
            | ok chunk' => simpa [onFile, hanswer, Except.mapError] using hchunk
          have hle := hfile _ _ _ _ hread
          refine ih ?_ h
          rw [List.length_append]
          omega
      · rw [if_neg hlt] at h
        cases h
        exact hbuffer

/-- The backend answers a read with no more than the buffer of the request holds, if a file
does. -/
lemma bounded_backend (hfile : ∀ file size s data, (S.readFile file size s).1 = .ok data →
    data.length ≤ size) (timeout : ℕ) : (S.backend timeout).Bounded := by
  intro path offset size s data h
  change (S.readRange timeout path offset size s).1 = .ok data at h
  rw [readRange] at h
  by_cases htime : S.timesOut s
  · rw [if_pos htime] at h
    cases h
  · rw [if_neg htime] at h
    obtain ⟨file, -, h⟩ := bind_ok h
    obtain ⟨-, -, h⟩ := bind_ok h
    have hempty : ([] : Bytes).length ≤ size := Nat.zero_le size
    exact fill_length hfile hempty h

end SftpSession

end CacheShfs
