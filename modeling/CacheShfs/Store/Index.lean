import CacheShfs.Core.Path
import CacheShfs.Lib.FiniteMap

/-!
# The persistent index and its directory

The data model of `crates/cacheshfs-core/src/store.rs`: the JSON index (`Index`), its entries
and content references, and the cache directory on disk.

The directory is changed only through `FsEffect`, one constructor for each file-system effect
the store performs; `Store.emit` applies an effect and appends it to the store's `journal`.  The
journal is history and no modelled function reads it: the directory after a crash is the one
obtained by replaying a suffix of the journal from the directory the store was opened on.

Replacing `index.json` (temp file, `fsync`, rename) is one effect, since the rename is what
makes the new index visible.  Local I/O is taken to succeed, with one exception that the code
can bring about itself: opening an object that has been deleted.
-/

namespace CacheShfs

/-- `struct StoredAttrs`, the serialised mirror of `FileAttributes`. -/
structure StoredAttrs where
  kind : UInt8
  size : UInt64
  mode : UInt32
  uid : UInt32
  gid : UInt32
  modified : Option Int
  accessed : Option Int
  changed : Option Int
  deriving DecidableEq, Repr

/-- `kind_to_u8`. -/
def kindToU8 : FileKind → UInt8
  | .file => 0
  | .directory => 1
  | .symlink => 2

/-- `u8_to_kind`. -/
def u8ToKind (value : UInt8) : FileKind :=
  if value = 1 then .directory else if value = 2 then .symlink else .file

/-- `impl From<&FileAttributes> for StoredAttrs`. -/
def StoredAttrs.ofAttributes (a : FileAttributes) : StoredAttrs where
  kind := kindToU8 a.kind
  size := a.size
  mode := a.mode
  uid := a.uid
  gid := a.gid
  modified := a.modifiedUnixSeconds
  accessed := a.accessedUnixSeconds
  changed := a.changedUnixSeconds

/-- `impl From<&StoredAttrs> for FileAttributes`. -/
def StoredAttrs.toAttributes (a : StoredAttrs) : FileAttributes where
  kind := u8ToKind a.kind
  size := a.size
  mode := a.mode
  uid := a.uid
  gid := a.gid
  modifiedUnixSeconds := a.modified
  accessedUnixSeconds := a.accessed
  changedUnixSeconds := a.changed

/-- Attributes survive being stored. -/
@[simp] lemma StoredAttrs.toAttributes_ofAttributes (a : FileAttributes) :
    (StoredAttrs.ofAttributes a).toAttributes = a := by
  obtain ⟨kind, _, _, _, _, _, _, _⟩ := a
  cases kind <;> rfl

@[simp] lemma StoredAttrs.ofAttributes_size (a : FileAttributes) :
    (StoredAttrs.ofAttributes a).size = a.size := rfl

@[simp] lemma StoredAttrs.ofAttributes_modified (a : FileAttributes) :
    (StoredAttrs.ofAttributes a).modified = a.modifiedUnixSeconds := rfl

@[simp] lemma StoredAttrs.toAttributes_size (a : StoredAttrs) :
    a.toAttributes.size = a.size := rfl

/-- `struct ContentRef`: the cached chunks of one version of a file. -/
structure ContentRef where
  size : UInt64
  modified : Option Int
  chunkSize : ℕ
  /-- Chunk number to object id. -/
  chunks : FMap ℕ ℕ
  /-- Legacy whole-file object of earlier indexes. -/
  object : Option ℕ

/-- `struct Entry`. -/
structure Entry where
  attrs : StoredAttrs
  content : Option ContentRef

/-- `struct Index`. -/
structure Index where
  nextObject : ℕ
  entries : FMap Str Entry
  listings : FMap Str (List Str)

/-- `Index::default`. -/
def Index.empty : Index := ⟨0, ∅, ∅⟩

/-- A temp file's name, `{object}.{counter}`. -/
abbrev TempName := ℕ × ℕ

/-- The cache directory: `index.json`, `objects/` and `tmp/`. -/
structure Disk where
  index : Option Index
  objects : FMap ℕ Bytes
  temps : FMap TempName Bytes

/-- An empty (or missing) cache directory. -/
def Disk.empty : Disk := ⟨none, ∅, ∅⟩

/-- The file-system effects of the store. -/
inductive FsEffect
  /-- Atomic replacement of `index.json`. -/
  | writeIndex (index : Index)
  /-- Deletion of `objects/<id>`. -/
  | removeObject (object : ℕ)
  /-- Creation of a temp file. -/
  | createTemp (temp : TempName)
  /-- Writing at the end of a temp file. -/
  | appendTemp (temp : TempName) (data : Bytes)
  /-- Deletion of a temp file. -/
  | removeTemp (temp : TempName)
  /-- Renaming a temp file to `objects/<id>`. -/
  | renameTemp (temp : TempName) (object : ℕ)

def FsEffect.apply : FsEffect → Disk → Disk
  | .writeIndex index, d => { d with index := some index }
  | .removeObject object, d => { d with objects := d.objects.erase object }
  | .createTemp temp, d => { d with temps := d.temps.insert temp [] }
  | .appendTemp temp data, d =>
      { d with temps := d.temps.insert temp ((d.temps.lookup temp).getD [] ++ data) }
  | .removeTemp temp, d => { d with temps := d.temps.erase temp }
  | .renameTemp temp object, d =>
      { d with
        objects := d.objects.insert object ((d.temps.lookup temp).getD [])
        temps := d.temps.erase temp }

/-- `struct Store`, with the cache directory it works on. -/
structure Store where
  /-- The chunk size; `Store::new` raises zero to one. -/
  chunkSize : ℕ
  chunkSize_pos : 0 < chunkSize
  chunkSize_lt : chunkSize < 2 ^ 64
  tempCounter : ℕ
  index : Index
  disk : Disk
  /-- The file-system effects since the store was opened, newest first. -/
  journal : List FsEffect

namespace Store

/-- `Store::new` on the directory `disk`.  A missing index starts empty. -/
def new (disk : Disk) (chunkSize : UInt64) : Store where
  chunkSize := max chunkSize.toNat 1
  chunkSize_pos := by omega
  chunkSize_lt := by have := chunkSize.toNat_lt; omega
  tempCounter := 0
  index := disk.index.getD Index.empty
  disk := disk
  journal := []

/-- Replace the index in memory. -/
def setIndex (index : Index) (s : Store) : Store := { s with index := index }

/-- Perform one file-system effect. -/
def emit (e : FsEffect) (s : Store) : Store :=
  { s with disk := e.apply s.disk, journal := e :: s.journal }

/-- `Store::persist`. -/
def persist (s : Store) : Store := s.emit (.writeIndex s.index)

/-- Persist only where an operation believes that the index has changed. -/
def persistIf (changed : Bool) (s : Store) : Store := if changed then s.persist else s

/-- `Store::remove_objects`. -/
def removeObjects (objects : List ℕ) (s : Store) : Store :=
  objects.foldl (fun s object => s.emit (.removeObject object)) s

/-! ## What an effect leaves alone -/

@[simp] lemma setIndex_index (index : Index) (s : Store) : (s.setIndex index).index = index := rfl

@[simp] lemma setIndex_chunkSize (index : Index) (s : Store) :
    (s.setIndex index).chunkSize = s.chunkSize := rfl

@[simp] lemma setIndex_disk (index : Index) (s : Store) : (s.setIndex index).disk = s.disk := rfl

@[simp] lemma emit_chunkSize (e : FsEffect) (s : Store) :
    (s.emit e).chunkSize = s.chunkSize := rfl

@[simp] lemma emit_index (e : FsEffect) (s : Store) : (s.emit e).index = s.index := rfl

@[simp] lemma emit_tempCounter (e : FsEffect) (s : Store) :
    (s.emit e).tempCounter = s.tempCounter := rfl

@[simp] lemma emit_disk (e : FsEffect) (s : Store) :
    (s.emit e).disk = e.apply s.disk := rfl

@[simp] lemma persist_chunkSize (s : Store) : s.persist.chunkSize = s.chunkSize := rfl

@[simp] lemma persist_index (s : Store) : s.persist.index = s.index := rfl

@[simp] lemma persist_objects (s : Store) : s.persist.disk.objects = s.disk.objects := rfl

@[simp] lemma persist_disk_index (s : Store) : s.persist.disk.index = some s.index := rfl

@[simp] lemma persistIf_chunkSize (b : Bool) (s : Store) :
    (s.persistIf b).chunkSize = s.chunkSize := by cases b <;> rfl

@[simp] lemma persistIf_index (b : Bool) (s : Store) : (s.persistIf b).index = s.index := by
  cases b <;> rfl

@[simp] lemma persistIf_objects (b : Bool) (s : Store) :
    (s.persistIf b).disk.objects = s.disk.objects := by cases b <;> rfl

@[simp] lemma removeObjects_nil (s : Store) : s.removeObjects [] = s := rfl

@[simp] lemma removeObjects_chunkSize (objects : List ℕ) (s : Store) :
    (s.removeObjects objects).chunkSize = s.chunkSize := by
  induction objects generalizing s with
  | nil => rfl
  | cons o os ih => simpa [removeObjects] using ih (s.emit (.removeObject o))

@[simp] lemma removeObjects_index (objects : List ℕ) (s : Store) :
    (s.removeObjects objects).index = s.index := by
  induction objects generalizing s with
  | nil => rfl
  | cons o os ih => simpa [removeObjects] using ih (s.emit (.removeObject o))

@[simp] lemma removeObjects_disk_index (objects : List ℕ) (s : Store) :
    (s.removeObjects objects).disk.index = s.disk.index := by
  induction objects generalizing s with
  | nil => rfl
  | cons o os ih =>
      have hrec := ih (s.emit (.removeObject o))
      simpa [removeObjects, FsEffect.apply] using hrec

@[simp] lemma removeObjects_temps (objects : List ℕ) (s : Store) :
    (s.removeObjects objects).disk.temps = s.disk.temps := by
  induction objects generalizing s with
  | nil => rfl
  | cons o os ih =>
      have hrec := ih (s.emit (.removeObject o))
      simpa [removeObjects, FsEffect.apply] using hrec

/-- The objects left after deleting a list of them. -/
lemma removeObjects_objects (objects : List ℕ) (s : Store) :
    (s.removeObjects objects).disk.objects = FMap.eraseAll objects s.disk.objects := by
  induction objects generalizing s with
  | nil => rfl
  | cons o os ih =>
      have hrec := ih (s.emit (.removeObject o))
      simpa [removeObjects, FsEffect.apply, FMap.eraseAll] using hrec

lemma lookup_removeObjects (objects : List ℕ) (s : Store) (o : ℕ) :
    (s.removeObjects objects).disk.objects.lookup o =
      if o ∈ objects then none else s.disk.objects.lookup o := by
  rw [removeObjects_objects, FMap.lookup_eraseAll]

end Store

end CacheShfs
