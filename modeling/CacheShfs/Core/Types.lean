import Mathlib.Algebra.Group.Int.Defs
import Mathlib.Algebra.Group.Nat.Defs
import Mathlib.Data.List.Basic

/-!
# The shared types of `cacheshfs-core`

The platform-neutral types of `crates/cacheshfs-core/src/lib.rs`: errors, node and handle
identifiers, file attributes, open flags and the mount's cache mode.

Fixed-width fields keep their width (`UInt64`, `UInt32`) where arithmetic is done on them.
Times are `Int` seconds, which the core only compares.  Text is `List Char` (`Str`): the core
looks at strings character by character only, so nothing depends on their encoding.
Identifiers that are handed out by a counter (`NodeId`, `FileHandle`, object ids) are natural
numbers: the counters start near zero and are only ever incremented by one.
-/

namespace CacheShfs

/-- A Rust string, as the sequence of its characters. -/
abbrev Str := List Char

/-- File contents. -/
abbrev Bytes := List UInt8

/-- `enum Error`. -/
inductive Error
  | unsupportedPlatform (message : String)
  | mountBackend (message : String)
  | remoteBackend (message : String)
  | notFound
  | alreadyExists
  | permissionDenied
  | invalidInput (message : String)
  | unsupportedOperation (message : String)
  | unavailable (message : String)
  deriving DecidableEq, Repr

/-- The result of a fallible call, compared by value. -/
instance {α : Type} [DecidableEq α] : DecidableEq (Except Error α) := fun a b =>
  match a, b with
  | .ok x, .ok y => decidable_of_iff (x = y) (by simp)
  | .error x, .error y => decidable_of_iff (x = y) (by simp)
  | .ok _, .error _ => isFalse (by simp)
  | .error _, .ok _ => isFalse (by simp)

/-- `enum CacheMode`. -/
inductive CacheMode
  | remote
  | onDemand
  | pinned
  | offline
  deriving DecidableEq, Repr

/-- `struct NodeId(u64)`. -/
structure NodeId where
  val : ℕ
  deriving DecidableEq, Repr

/-- `NodeId::ROOT`. -/
def NodeId.root : NodeId := ⟨1⟩

/-- `struct FileHandle(u64)`. -/
structure FileHandle where
  val : ℕ
  deriving DecidableEq, Repr

/-- `enum FileKind`. -/
inductive FileKind
  | file
  | directory
  | symlink
  deriving DecidableEq, Repr

/-- `struct FileAttributes`. -/
structure FileAttributes where
  kind : FileKind
  size : UInt64
  mode : UInt32
  uid : UInt32
  gid : UInt32
  modifiedUnixSeconds : Option Int
  accessedUnixSeconds : Option Int
  changedUnixSeconds : Option Int
  deriving DecidableEq, Repr

/-- `struct FileMetadata`. -/
structure FileMetadata where
  node : NodeId
  attributes : FileAttributes
  deriving DecidableEq, Repr

/-- `struct DirectoryEntry`: one entry of a listing handed to a platform adapter. -/
structure DirectoryEntry where
  name : Str
  metadata : FileMetadata
  deriving DecidableEq, Repr

/-- `struct RemoteDirectoryEntry`: one entry of a listing as the transport reports it. -/
structure RemoteDirectoryEntry where
  name : Str
  attributes : FileAttributes
  deriving DecidableEq, Repr

/-- `struct CreatedFile`. -/
structure CreatedFile where
  metadata : FileMetadata
  handle : FileHandle
  deriving DecidableEq, Repr

/-- `struct OpenFlags`, with its derived default. -/
structure OpenFlags where
  read : Bool := false
  write : Bool := false
  append : Bool := false
  truncate : Bool := false
  deriving DecidableEq, Repr

/-- `struct SetAttributes`, with its derived default. -/
structure SetAttributes where
  size : Option UInt64 := none
  mode : Option UInt32 := none
  modifiedUnixSeconds : Option Int := none
  accessedUnixSeconds : Option Int := none
  deriving DecidableEq, Repr

/-- `DEFAULT_CACHE_CHUNK_SIZE`: 4 MiB. -/
def defaultCacheChunkSize : ℕ := 4 * 1024 * 1024

end CacheShfs
