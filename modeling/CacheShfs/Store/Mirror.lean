import CacheShfs.Store.Tasks

/-!
# The entries on disk

What a later session finds in `index.json`.  The operations of the store do not all persist the
index: an object id is taken in memory only, and `remove`, `invalidate_children` and
`invalidate_content` write the file only where they believe that something has changed.  Which
paths have an entry is on disk as it is in memory all the same (`Mirrors`), after every operation
and after every step of a read.
-/

namespace CacheShfs

namespace Store

/-- The entry under a key in the index on disk. -/
def stored (s : Store) (key : Str) : Option Entry :=
  (s.disk.index.getD Index.empty).entries.lookup key

/-- A session opened on the directory finds the entries on disk. -/
lemma entry_new (s : Store) (chunkSize : UInt64) (key : Str) :
    (Store.new s.disk chunkSize).entry key = s.stored key := rfl

/-- **The index on disk has an entry where the index in memory has one.** -/
def Mirrors (s : Store) : Prop := ∀ key, s.stored key = none ↔ s.entry key = none

lemma mirrors_new (disk : Disk) (chunkSize : UInt64) : (Store.new disk chunkSize).Mirrors :=
  fun _ => Iff.rfl

variable {s s' : Store}

/-- The index has just been persisted. -/
lemma mirrors_of_persisted (h : s.disk.index = some s.index) : s.Mirrors := by
  intro key
  rw [stored, h]
  rfl

/-- A change that persists nothing, and neither adds nor removes an entry. -/
lemma Mirrors.congr (h : s.Mirrors) (hdisk : s'.disk.index = s.disk.index)
    (hentry : ∀ key, s'.entry key = none ↔ s.entry key = none) : s'.Mirrors := by
  intro key
  rw [hentry key, ← h key, stored, hdisk]
  rfl

/-- A change that is persisted unless it neither adds nor removes an entry. -/
lemma Mirrors.persistIf (h : s.Mirrors) {index : Index} {changed : Bool}
    (hentry : changed = false → ∀ key, index.entries.lookup key = none ↔ s.entry key = none) :
    ((s.setIndex index).persistIf changed).Mirrors := by
  cases changed with
  | true => exact mirrors_of_persisted rfl
  | false => exact h.congr rfl (hentry rfl)

lemma Mirrors.removeObjects (h : s.Mirrors) (objects : List ℕ) :
    (s.removeObjects objects).Mirrors :=
  h.congr (removeObjects_disk_index objects s) fun key => by rw [entry_removeObjects]

lemma mirrors_putAttrs (path : RemotePath) (attrs : FileAttributes) (s : Store) :
    (s.putAttrs path attrs).Mirrors :=
  (mirrors_of_persisted rfl).removeObjects _

lemma mirrors_recordListing (parent : RemotePath) (children : List (Str × FileAttributes))
    (s : Store) : (s.recordListing parent children).Mirrors :=
  (mirrors_of_persisted rfl).removeObjects _

lemma mirrors_rename (src dst : RemotePath) (s : Store) : (s.rename src dst).Mirrors :=
  (mirrors_of_persisted rfl).removeObjects _

lemma mirrors_recordChunk (path : RemotePath) (attrs : FileAttributes) (k o : ℕ) (s : Store) :
    (s.recordChunk path attrs k o).Mirrors :=
  mirrors_of_persisted rfl

lemma Mirrors.invalidateChildren (h : s.Mirrors) (path : RemotePath) :
    (s.invalidateChildren path).Mirrors :=
  h.persistIf fun _ _ => Iff.rfl

lemma Mirrors.remove (h : s.Mirrors) (path : RemotePath) : (s.remove path).Mirrors := by
  refine (h.persistIf fun hunchanged key => ?_).removeObjects _
  -- an entry that is not there is not removed
  obtain ⟨hnone, -⟩ := Bool.or_eq_false_iff.mp hunchanged
  have hgone : s.index.entries.lookup path.asStr = none := by simpa using hnone
  rw [FMap.lookup_erase_eq_ite]
  split
  · next hkey =>
      rw [hkey]
      exact iff_of_true rfl hgone
  · exact Iff.rfl

lemma Mirrors.invalidateContent (h : s.Mirrors) (path : RemotePath) :
    (s.invalidateContent path).Mirrors := by
  unfold Store.invalidateContent
  split
  · next entry hentry =>
      refine (h.persistIf fun _ key => ?_).removeObjects _
      rw [Index.setEntry, FMap.lookup_insert_eq_ite]
      split
      · next hkey =>
          rw [hkey, Store.entry, hentry]
          simp
      · exact Iff.rfl
  · exact h

end Store

variable {ρ : Type} {R : RemoteFilesystem ρ}

lemma ReadTask.Steps.mirrors {a : ReadArgs} {w w' : StoreWorld ρ} {pc pc' : ReadPc}
    (h : ReadTask.Steps R a w pc pc' w') (hm : w.store.Mirrors) : w'.store.Mirrors := by
  cases h with
  | record => exact Store.mirrors_recordChunk _ _ _ _ _
  | _ => exact hm.congr rfl fun _ => Iff.rfl

/-- `Store::read` keeps it, since each of its steps does. -/
lemma Store.Mirrors.read {s : Store} (h : s.Mirrors) (path : RemotePath) (attrs : FileAttributes)
    (offset : UInt64) (size : UInt32) (c : Conn ρ) :
    (s.read R path attrs offset size c).2.1.Mirrors := by
  have hruns := ReadTask.runs_read (R := R) (a := ⟨path, attrs, offset, size⟩) s c
  refine ReadTask.Runs.induction (P := fun x => x.2.store.Mirrors) (fun x hx => ?_) hruns h
  exact (ReadTask.steps_next R _ x.2 x.1).mirrors hx

end CacheShfs
