import CacheShfs.Core.Remote
import CacheShfs.Store.Ops

/-!
# The chunked content cache

`read`, `read_cached`, `fetch_chunk` and their helpers of
`crates/cacheshfs-core/src/store.rs`.  A file is cached in chunks of `chunk_size` bytes, each in
an object file of its own; a range read fetches the chunks it misses and then assembles the
range from the objects.

`fetch_chunk` is written as the sequence of its lock-protected sections and file operations
(`allocObject`, `download`, `install`, `recordChunk`), and a range read ends with a snapshot of
the chunk map (`chunkMap`) followed by one `readPiece` for each chunk.  The concurrent model
interleaves exactly these pieces.

Offsets are natural numbers.  The sums and differences of the source that stay below `2^64` for
every argument are plain; the others (`chunk_start + chunk_size` and what is computed from it)
wrap, as in a release build.
-/

namespace CacheShfs

/-- `u64` addition. -/
def wrapAdd (a b : ℕ) : ℕ := (a + b) % 2 ^ 64

/-- `u64` subtraction. -/
def wrapSub (a b : ℕ) : ℕ := (a + (2 ^ 64 - b)) % 2 ^ 64

/-- `as u32`. -/
def asU32 (a : ℕ) : ℕ := a % 2 ^ 32

/-- `chunk_range`: the chunks that `offset .. stop` touches. -/
def chunkRange (offset stop chunkSize : ℕ) : List ℕ :=
  let chunkSize := max chunkSize 1
  List.range' (offset / chunkSize) ((stop - 1) / chunkSize + 1 - offset / chunkSize)

/-- The error of a read that finds no cached content. -/
def notCached : Error :=
  .unavailable "file contents are not cached and the mount is offline"

/-- `cache_io` of the error that opening a missing file gives. -/
def objectMissing : Error :=
  .remoteBackend "content cache io error: No such file or directory (os error 2)"

/-- The version and layout under which a content reference holds its chunks. -/
structure Label where
  size : UInt64
  modified : Option Int
  chunkSize : ℕ
  deriving DecidableEq

def ContentRef.label (content : ContentRef) : Label :=
  ⟨content.size, content.modified, content.chunkSize⟩

/-- The label under which a read with these attributes looks for and records chunks. -/
def FileAttributes.label (attrs : FileAttributes) (chunkSize : ℕ) : Label :=
  ⟨attrs.size, attrs.modifiedUnixSeconds, chunkSize⟩

namespace Store

/-- `Store::cached_chunk`. -/
def cachedChunk (path : RemotePath) (attrs : FileAttributes) (chunk : ℕ) (s : Store) :
    Option ℕ :=
  match s.content path.asStr with
  | some content =>
      if content.label = attrs.label s.chunkSize then content.chunks.lookup chunk else none
  | none => none

/-! ## Fetching one chunk -/

/-- The first lock-protected section of `fetch_chunk`: take the next object id. -/
def allocObject (s : Store) : ℕ × Store :=
  (s.index.nextObject, s.setIndex { s.index with nextObject := s.index.nextObject + 1 })

/-- Create the temp file of a download, `{object}.{temp_counter}`. -/
def createTemp (object : ℕ) (s : Store) : TempName × Store :=
  let temp := (object, s.tempCounter)
  (temp, ({ s with tempCounter := s.tempCounter + 1 }).emit (.createTemp temp))

/-- `chunk_len`. -/
def chunkLen (attrs : FileAttributes) (chunk : ℕ) (s : Store) : ℕ :=
  min (attrs.size.toNat - chunk * s.chunkSize) s.chunkSize

/-- How much one pass of the download loop asks for. -/
def want (chunkLen filled : ℕ) : ℕ := min (chunkLen - filled) (2 ^ 32 - 1)

/-- The download loop.  Every pass but the last adds at least one byte, so `chunkLen` passes are
enough (`ReadTask.runs_download`). -/
def download {ρ : Type} (R : RemoteFilesystem ρ) (path : RemotePath) (chunkStart chunkLen : ℕ)
    (temp : TempName) : ℕ → ℕ → Store → Conn ρ → Except Error Unit × Store × Conn ρ
  | 0, _, s, c => (.ok (), s, c)
  | fuel + 1, filled, s, c =>
      if filled < chunkLen then
        match c.read R path (chunkStart + filled) (want chunkLen filled) with
        | (.error e, c) => (.error e, s, c)
        | (.ok data, c) =>
            -- an early end of file leaves the loop, and what has arrived counts as the chunk
            if data = [] then (.ok (), s, c)
            else download R path chunkStart chunkLen temp fuel (filled + data.length)
              (s.emit (.appendTemp temp data)) c
      else (.ok (), s, c)

/-- Rename a finished download into `objects/`. -/
def install (temp : TempName) (object : ℕ) (s : Store) : Store :=
  s.emit (.renameTemp temp object)

/-- The content reference in which a chunk of `label` is recorded: the one of the entry if it
has this label, else an empty one. -/
def recordBase (label : Label) (content : Option ContentRef) : ContentRef :=
  match content with
  | some content =>
      if content.label = label then content
      else ⟨label.size, label.modified, label.chunkSize, ∅, none⟩
  | none => ⟨label.size, label.modified, label.chunkSize, ∅, none⟩

/-- The objects deleted when a chunk of `label` is recorded: all of a content with another
label, or the one the chunk had. -/
def recordDeletes (label : Label) (chunk : ℕ) (content : Option ContentRef) : List ℕ :=
  match content with
  | some content =>
      if content.label = label then (content.chunks.lookup chunk).toList
      else contentObjects content
  | none => []

/-- The last lock-protected section of `fetch_chunk`: record the chunk reference, deleting the
objects it replaces before the index is persisted. -/
def recordChunk (path : RemotePath) (attrs : FileAttributes) (chunk object : ℕ) (s : Store) :
    Store :=
  let entry := (s.entry path.asStr).getD ⟨.ofAttributes attrs, none⟩
  let label := attrs.label s.chunkSize
  let base := recordBase label entry.content
  let deletes := recordDeletes label chunk entry.content
  let content := { base with chunks := base.chunks.insert chunk object }
  let index := s.index.setEntry path.asStr { entry with content := some content }
  ((s.removeObjects deletes).setIndex index).persist

/-- `Store::fetch_chunk`. -/
def fetchChunk {ρ : Type} (R : RemoteFilesystem ρ) (path : RemotePath) (attrs : FileAttributes)
    (chunk : ℕ) (s : Store) (c : Conn ρ) : Except Error ℕ × Store × Conn ρ :=
  let (object, s) := s.allocObject
  let (temp, s) := s.createTemp object
  let len := s.chunkLen attrs chunk
  match download R path (chunk * s.chunkSize) len temp len 0 s c with
  | (.error e, s, c) => (.error e, s.emit (.removeTemp temp), c)
  | (.ok (), s, c) => (.ok object, (s.install temp object).recordChunk path attrs chunk object, c)

/-! ## Range reads -/

/-- `Store::read_object`. -/
def readObject (object offset size : ℕ) (s : Store) : Except Error Bytes :=
  match s.object object with
  | some data => .ok ((data.drop offset).take size)
  | none => .error objectMissing

/-- The snapshot a range read takes of the chunk map.  Only the chunk size is compared here, not
the version. -/
def chunkMap (path : RemotePath) (s : Store) : Except Error (FMap ℕ ℕ) :=
  match s.content path.asStr with
  | some content => if content.chunkSize = s.chunkSize then .ok content.chunks else .error notCached
  | none => .error notCached

/-- The bytes of `offset .. stop` that lie in `chunk`, read from its object. -/
def readPiece (chunks : FMap ℕ ℕ) (offset stop chunk : ℕ) (s : Store) : Except Error Bytes :=
  match chunks.lookup chunk with
  | some object =>
      let chunkStart := chunk * s.chunkSize
      let readStart := max offset chunkStart - chunkStart
      let readEnd := wrapSub (min stop (wrapAdd chunkStart s.chunkSize)) chunkStart
      s.readObject object readStart (asU32 (wrapSub readEnd readStart))
  | none => .error notCached

/-- The loop of `read_cached_range`. -/
def readPieces (chunks : FMap ℕ ℕ) (offset stop : ℕ) (s : Store) :
    List ℕ → Bytes → Except Error Bytes
  | [], data => .ok data
  | chunk :: rest, data =>
      match s.readPiece chunks offset stop chunk with
      | .ok piece => readPieces chunks offset stop s rest (data ++ piece)
      | .error e => .error e

/-- `Store::read_cached_range`. -/
def readCachedRange (path : RemotePath) (offset stop : ℕ) (s : Store) : Except Error Bytes :=
  match s.chunkMap path with
  | .ok chunks => s.readPieces chunks offset stop (chunkRange offset stop s.chunkSize) []
  | .error e => .error e

/-- The loop of `Store::read` that fetches the missing chunks. -/
def fetchMissing {ρ : Type} (R : RemoteFilesystem ρ) (path : RemotePath)
    (attrs : FileAttributes) : List ℕ → Store → Conn ρ → Except Error Unit × Store × Conn ρ
  | [], s, c => (.ok (), s, c)
  | chunk :: rest, s, c =>
      match s.cachedChunk path attrs chunk with
      | some _ => fetchMissing R path attrs rest s c
      | none =>
          match s.fetchChunk R path attrs chunk c with
          | (.ok _, s, c) => fetchMissing R path attrs rest s c
          | (.error e, s, c) => (.error e, s, c)

/-- `offset.saturating_add(size as u64).min(file_size)`: where a read of `size` bytes stops. -/
def readStop (offset : UInt64) (size : UInt32) (fileSize : UInt64) : ℕ :=
  min (min (offset.toNat + size.toNat) (2 ^ 64 - 1)) fileSize.toNat

/-- `Store::read`. -/
def read {ρ : Type} (R : RemoteFilesystem ρ) (path : RemotePath) (attrs : FileAttributes)
    (offset : UInt64) (size : UInt32) (s : Store) (c : Conn ρ) :
    Except Error Bytes × Store × Conn ρ :=
  if size = 0 ∨ attrs.size ≤ offset then (.ok [], s, c)
  else
    let stop := readStop offset size attrs.size
    match fetchMissing R path attrs (chunkRange offset.toNat stop s.chunkSize) s c with
    | (.ok (), s, c) => (s.readCachedRange path offset.toNat stop, s, c)
    | (.error e, s, c) => (.error e, s, c)

/-- `Store::read_cached`. -/
def readCached (path : RemotePath) (offset : UInt64) (size : UInt32) (s : Store) :
    Except Error Bytes :=
  match s.content path.asStr with
  | some content =>
      if content.chunkSize = s.chunkSize then
        if size = 0 ∨ content.size ≤ offset then .ok []
        else s.readCachedRange path offset.toNat (readStop offset size content.size)
      else .error notCached
  | none => .error notCached

end Store

end CacheShfs
