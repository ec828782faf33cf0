import CacheShfs.Linux.Readdir
import CacheShfs.Vfs.Together

/-!
# The FUSE adapter

`LinuxFilesystem` of `crates/cacheshfs-linux/src/fs.rs`, callback by callback, and `attr.rs`, which
makes the attributes that the kernel sees.  A `Request` is a callback with the arguments that the
adapter looks at, a `FuseReply` what it answers the kernel.  The kernel knows nodes by their inode
numbers and open files by their handles.

`opendir` does not ask the mount and answers the handle 0, which is no handle of the mount: handles
are given out from 1 on, and inode numbers too.
-/

namespace CacheShfs

open Machine

/-! ## Attributes -/

/-- `struct LinuxOwner`. -/
structure LinuxOwner where
  uid : UInt32
  gid : UInt32
  deriving DecidableEq, Repr

/-- `DEFAULT_BLOCK_SIZE`. -/
def defaultBlockSize : ℕ := 4096

/-- `FileAttr`.  Times are nanoseconds since the Unix epoch. -/
structure FileAttr where
  ino : NodeId
  size : UInt64
  blocks : ℕ
  atime : Int
  mtime : Int
  ctime : Int
  crtime : Int
  kind : FileType
  perm : UInt32
  nlink : ℕ
  uid : UInt32
  gid : UInt32
  rdev : ℕ
  blksize : ℕ
  flags : ℕ
  deriving DecidableEq, Repr

/-- The nanoseconds of a second. -/
def nanosPerSecond : Int := 10 ^ 9

/-- `unix_time`. -/
def unixTime : Option Int → Int
  | some seconds => seconds * nanosPerSecond
  | none => 0

/-- `permissions`. -/
def permissions (attributes : FileAttributes) : UInt32 :=
  let mode := attributes.mode &&& 0o7777
  if mode = 0 then
    match attributes.kind with
    | .directory => 0o755
    | .file => 0o644
    | .symlink => 0o777
  else mode

/-- `link_count`. -/
def linkCount : FileKind → ℕ
  | .directory => 2
  | .file => 1
  | .symlink => 1

/-- `file_attr`. -/
def fileAttr (owner : LinuxOwner) (metadata : FileMetadata) : FileAttr where
  ino := metadata.node
  size := metadata.attributes.size
  blocks := (metadata.attributes.size.toNat + 511) / 512
  atime := unixTime metadata.attributes.accessedUnixSeconds
  mtime := unixTime metadata.attributes.modifiedUnixSeconds
  ctime := unixTime metadata.attributes.changedUnixSeconds
  crtime := 0
  kind := fileType metadata.attributes.kind
  perm := permissions metadata.attributes
  nlink := linkCount metadata.attributes.kind
  uid := owner.uid
  gid := owner.gid
  rdev := 0
  blksize := defaultBlockSize
  flags := 0

/-! ## Arguments -/

/-- `OsStr`: a name from the kernel is UTF-8, or it is not. -/
inductive OsStr
  | utf8 (text : Str)
  | other (bytes : Bytes)

/-- `OsStr::to_str`. -/
def OsStr.toStr : OsStr → Option Str
  | .utf8 text => some text
  | .other _ => none

/-- `OpenAccMode`. -/
inductive OpenAccMode
  | rdonly
  | wronly
  | rdwr
  deriving DecidableEq, Repr

/-- `fuser::OpenFlags`: the bits, and the access mode that `acc_mode` reads off them. -/
structure FuseOpenFlags where
  accMode : OpenAccMode
  bits : UInt32

/-- `libc::O_TRUNC`. -/
def oTrunc : UInt32 := 0o1000

/-- `libc::O_APPEND`. -/
def oAppend : UInt32 := 0o2000

/-- `open_flags`. -/
def openFlags (flags : FuseOpenFlags) : OpenFlags where
  read := flags.accMode ≠ .wronly
  write := flags.accMode ≠ .rdonly
  append := flags.bits &&& oAppend = oAppend
  truncate := flags.bits &&& oTrunc = oTrunc

/-- `TimeOrNow`.  A `SystemTime` is a number of nanoseconds since the Unix epoch. -/
inductive TimeOrNow
  | specificTime (time : Int)
  | now

/-- `unix_seconds`: whole seconds, cut towards the epoch. -/
def unixSeconds (time : Int) : Option Int :=
  if 0 ≤ time then some (time / nanosPerSecond) else some (-(-time / nanosPerSecond))

/-- `time_or_now`, at the time `systemNow` of the system's clock. -/
def timeOrNow (systemNow : Int) : Option TimeOrNow → Option Int
  | some (.specificTime time) => unixSeconds time
  | some .now => unixSeconds systemNow
  | none => none

/-! ## Callbacks -/

/-- A callback of `fuser::Filesystem`, with what the adapter looks at. -/
inductive Request
  | lookup (parent : NodeId) (name : OsStr)
  | getattr (ino : NodeId)
  | setattr (ino : NodeId) (mode : Option UInt32) (size : Option UInt64)
      (atime mtime : Option TimeOrNow)
  | mkdir (parent : NodeId) (name : OsStr) (mode umask : UInt32)
  | unlink (parent : NodeId) (name : OsStr)
  | rmdir (parent : NodeId) (name : OsStr)
  | rename (parent : NodeId) (name : OsStr) (newparent : NodeId) (newname : OsStr)
      (flags : UInt32)
  | openFile (ino : NodeId) (flags : FuseOpenFlags)
  | read (fh : FileHandle) (offset : UInt64) (size : UInt32)
  | write (fh : FileHandle) (offset : UInt64) (data : Bytes)
  | flush (fh : FileHandle)
  | release (fh : FileHandle)
  | opendir (ino : NodeId)
  | readdir (ino : NodeId) (offset capacity : ℕ)
  | create (parent : NodeId) (name : OsStr) (mode umask : UInt32) (flags : FuseOpenFlags)

/-- What the adapter answers. -/
inductive FuseReply
  | error (errno : Errno)
  | entry (attr : FileAttr)
  | attr (attr : FileAttr)
  | ok
  | opened (fh : FileHandle)
  | data (bytes : Bytes)
  | written (size : UInt32)
  | directory (buffer : ReplyDirectory)
  | created (attr : FileAttr) (fh : FileHandle)

namespace FuseReply

/-- The reply to a call of the mount. -/
def ofResult {α : Type} (reply : α → FuseReply) : Except Error α → FuseReply
  | .ok value => reply value
  | .error e => .error (errno e)

end FuseReply

namespace LinuxFilesystem

variable {ρ : Type} (R : RemoteFilesystem ρ)

/-- What a callback answers and what it does to the mount, at the time `systemNow` of the system's
clock. -/
def handle (owner : LinuxOwner) (systemNow : Int) (w : World ρ) : Request → FuseReply × World ρ
  | .lookup parent name =>
      match name.toStr with
      | none => (.error .inval, w)
      | some name =>
          let (answer, w) := w.lookup R parent name
          (.ofResult (fun metadata => .entry (fileAttr owner metadata)) answer, w)
  | .getattr ino =>
      let (answer, w) := w.getattr R ino
      (.ofResult (fun metadata => .attr (fileAttr owner metadata)) answer, w)
  | .setattr ino mode size atime mtime =>
      let attributes : SetAttributes :=
        { size := size
          mode := mode
          accessedUnixSeconds := timeOrNow systemNow atime
          modifiedUnixSeconds := timeOrNow systemNow mtime }
      let (answer, w) := w.setattr R ino attributes
      (.ofResult (fun metadata => .attr (fileAttr owner metadata)) answer, w)
  | .mkdir parent name mode umask =>
      match name.toStr with
      | none => (.error .inval, w)
      | some name =>
          let (answer, w) := w.mkdir R parent name (mode &&& ~~~umask)
          (.ofResult (fun metadata => .entry (fileAttr owner metadata)) answer, w)
  | .unlink parent name =>
      match name.toStr with
      | none => (.error .inval, w)
      | some name =>
          let (answer, w) := w.unlink R parent name
          (.ofResult (fun _ => .ok) answer, w)
  | .rmdir parent name =>
      match name.toStr with
      | none => (.error .inval, w)
      | some name =>
          let (answer, w) := w.rmdir R parent name
          (.ofResult (fun _ => .ok) answer, w)
  | .rename parent name newparent newname flags =>
      if flags ≠ 0 then (.error .inval, w)
      else
        match name.toStr with
        | none => (.error .inval, w)
        | some name =>
            match newname.toStr with
            | none => (.error .inval, w)
            | some newname =>
                let (answer, w) := w.rename R parent name newparent newname
                (.ofResult (fun _ => .ok) answer, w)
  | .openFile ino flags =>
      let (answer, w) := w.openFile R ino (openFlags flags)
      (.ofResult .opened answer, w)
  | .read fh offset size =>
      let (answer, w) := w.read R fh offset size
      (.ofResult .data answer, w)
  | .write fh offset data =>
      let (answer, w) := w.write R fh offset data
      (.ofResult .written answer, w)
  | .flush fh =>
      let (answer, w) := w.flush fh
      (.ofResult (fun _ => .ok) answer, w)
  | .release fh =>
      let (answer, w) := w.release fh
      (.ofResult (fun _ => .ok) answer, w)
  | .opendir _ => (.opened ⟨0⟩, w)
  | .readdir ino offset capacity =>
      match readdir R ino offset (.empty capacity) w with
      | (.error e, w) => (.error e, w)
      | (.ok buffer, w) => (.directory buffer, w)
  | .create parent name mode umask flags =>
      match name.toStr with
      | none => (.error .inval, w)
      | some name =>
          let (answer, w) := w.create R parent name (mode &&& ~~~umask) (openFlags flags)
          (.ofResult (fun created => .created (fileAttr owner created.metadata) created.handle)
            answer, w)

end LinuxFilesystem

end CacheShfs
