import CacheShfs.Lib.Machine
import CacheShfs.Remote.Memory
import CacheShfs.Store.Read

/-!
# Runs of the store

A sequential run of the store over a remote whose files change between the operations.  Its
events are the operations of the store, with any arguments, and `external`, which puts the
remote into any other state.

The chunk invariant of a run is `Sound` for the reading `Seen`: the bytes of a chunk are those
of some file that the remote has shown during the run, of the size and modification time in
the chunk's label.  Where these two determine the content, a read with the attributes of the
current file can only find pieces of that file, wherever its chunks came from
(`read_run_exact`).
-/

namespace CacheShfs

open Slice Machine

/-- An operation of the store, or a change of the remote between two operations. -/
inductive StoreEvent (ρ : Type)
  | putAttrs (path : RemotePath) (attrs : FileAttributes)
  | recordListing (parent : RemotePath) (children : List (Str × FileAttributes))
  | invalidateContent (path : RemotePath)
  | invalidateChildren (path : RemotePath)
  | remove (path : RemotePath)
  | rename (src dst : RemotePath)
  | read (path : RemotePath) (attrs : FileAttributes) (offset : UInt64) (size : UInt32)
  | readCached (path : RemotePath) (offset : UInt64) (size : UInt32)
  | external (remote : ρ)

/-- A store and the remote it reads from. -/
structure StoreWorld (ρ : Type) where
  store : Store
  conn : Conn ρ

namespace StoreWorld

variable {ρ : Type} (R : RemoteFilesystem ρ) (view : ρ → Tree)

/-- One event of a run.  `read_cached` and the two getters change nothing. -/
def step (w : StoreWorld ρ) : StoreEvent ρ → StoreWorld ρ
  | .putAttrs path attrs => { w with store := w.store.putAttrs path attrs }
  | .recordListing parent children => { w with store := w.store.recordListing parent children }
  | .invalidateContent path => { w with store := w.store.invalidateContent path }
  | .invalidateChildren path => { w with store := w.store.invalidateChildren path }
  | .remove path => { w with store := w.store.remove path }
  | .rename src dst => { w with store := w.store.rename src dst }
  | .read path attrs offset size =>
      let (_, store, conn) := w.store.read R path attrs offset size w.conn
      ⟨store, conn⟩
  | .readCached _ _ _ => w
  | .external remote => { w with conn := { w.conn with remote := remote } }

/-- A store on an empty cache directory. -/
def start (chunkSize : UInt64) (conn : Conn ρ) : StoreWorld ρ :=
  ⟨Store.new Disk.empty chunkSize, conn⟩

/-- A read is called with the size and modification time of the file now at its path, and the
offsets of that file's chunks are in range. -/
def ReadsCurrent (w : StoreWorld ρ) : StoreEvent ρ → Prop
  | .read path attrs _ _ => ∃ f m, view w.conn.remote path.asStr = some (.file f m) ∧
      attrs.size.toNat = f.length ∧ attrs.modifiedUnixSeconds = m ∧
      f.length + w.store.chunkSize < 2 ^ 64
  | _ => True

/-- A read returns exactly the requested range of the file now at its path. -/
def ReadExact (w : StoreWorld ρ) : StoreEvent ρ → Prop
  | .read path attrs offset size => ∀ f m, view w.conn.remote path.asStr = some (.file f m) →
      (w.store.read R path attrs offset size w.conn).1 = .ok (Store.requested f offset size)
  | _ => True

/-- Among the files that a set of worlds shows, equal size and modification time mean equal
content. -/
def Versioned (worlds : StoreWorld ρ → Prop) : Prop :=
  ∀ w w' q q' f f' m, worlds w → worlds w' → view w.conn.remote q = some (.file f m) →
    view w'.conn.remote q' = some (.file f' m) → f.length = f'.length → f = f'

/-- The bytes of chunk `k` under a label: those of a file that one of the worlds shows. -/
def Seen (worlds : StoreWorld ρ → Prop) (_ : Str) (l : Label) (k : ℕ) (b : Bytes) : Prop :=
  ∃ w q f m, worlds w ∧ view w.conn.remote q = some (.file f m) ∧ l.size.toNat = f.length ∧
    l.modified = m ∧ b = slice f (k * l.chunkSize) (k * l.chunkSize + l.chunkSize)

variable {R view}

/-- Under the label of a file that is shown, only pieces of this file can be recorded. -/
lemma seen_iff {worlds : StoreWorld ρ → Prop} (hv : Versioned view worlds) {w : StoreWorld ρ}
    (hw : worlds w) {key : Str} {f : Bytes} {m : Option Int}
    (hview : view w.conn.remote key = some (.file f m)) {attrs : FileAttributes}
    (hsize : attrs.size.toNat = f.length) (hm : attrs.modifiedUnixSeconds = m) (cs k : ℕ)
    (b : Bytes) :
    Seen view worlds key (attrs.label cs) k b ↔ b = slice f (k * cs) (k * cs + cs) := by
  constructor
  · rintro ⟨w', q, f', m', hw', hview', hsize', hm', rfl⟩
    have hmm : m' = m := hm'.symm.trans hm
    subst hmm
    have hlen : f.length = f'.length := hsize.symm.trans hsize'
    rw [hv w w' key q f f' m' hw hw' hview hview' hlen]
    rfl
  · rintro rfl
    exact ⟨w, key, f, m, hw, hview, hsize, hm, rfl⟩

/-- A read with the current attributes returns the current bytes, from every store whose chunks
have been seen. -/
lemma read_exact {worlds : StoreWorld ρ → Prop} (hR : HonestReads R view)
    (hv : Versioned view worlds) {w : StoreWorld ρ} (hw : worlds w)
    (hs : w.store.Sound (Seen view worlds)) {path : RemotePath} {attrs : FileAttributes}
    {f : Bytes} {m : Option Int} (hview : view w.conn.remote path.asStr = some (.file f m))
    (hsize : attrs.size.toNat = f.length) (hm : attrs.modifiedUnixSeconds = m)
    (hlt : f.length + w.store.chunkSize < 2 ^ 64) (offset : UInt64) (size : UInt32) :
    ∃ s' c', w.store.read R path attrs offset size w.conn =
        (.ok (Store.requested f offset size), s', c') ∧ s'.Sound (Seen view worlds) := by
  obtain ⟨s', c', heq, hs', -⟩ := Store.read_ok hR hs hview hsize
    (fun k b => seen_iff hv hw hview hsize hm w.store.chunkSize k b)
    (Store.noOverflow_of_add_lt hlt) offset size
  exact ⟨s', c', heq, hs'⟩

/-- Every event keeps the chunk invariant. -/
lemma sound_step {worlds : StoreWorld ρ → Prop} (hR : HonestReads R view)
    (hv : Versioned view worlds) (w : StoreWorld ρ) (e : StoreEvent ρ)
    (he : w.ReadsCurrent view e ∧ worlds w) (hs : w.store.Sound (Seen view worlds)) :
    (w.step R e).store.Sound (Seen view worlds) := by
  cases e with
  | putAttrs path attrs => exact hs.putAttrs path attrs
  | recordListing parent children => exact hs.recordListing parent children
  | invalidateContent path => exact hs.invalidateContent path
  | invalidateChildren path => exact hs.invalidateChildren path
  | remove path => exact hs.remove path
  | rename src dst =>
      -- what has been seen does not depend on the path, so it may move to any other one
      exact hs.rename (fun c k b _ h => h) (fun _ c k b _ h => h) (fun key c k b _ _ _ _ h => h)
  | read path attrs offset size =>
      obtain ⟨⟨f, m, hview, hsize, hm, hlt⟩, hw⟩ := he
      obtain ⟨s', c', heq, hs'⟩ := read_exact hR hv hw hs hview hsize hm hlt offset size
      simp only [step, heq]
      exact hs'
  | readCached path offset size => exact hs
  | external remote => exact hs

/-- **The chunk cache is transparent.**  In every run of the store from an empty directory, at
every chunk size and over a remote that changes arbitrarily between the operations, every read
returns exactly the requested range of the file that is then at its path. -/
theorem read_run_exact (hR : HonestReads R view) (chunkSize : UInt64) (conn : Conn ρ)
    (es : List (StoreEvent ρ))
    (hversions : Versioned view (Visits (step R) (start chunkSize conn) es))
    (hreads : AllSteps (step R) (ReadsCurrent view) (start chunkSize conn) es) :
    AllSteps (step R) (ReadExact R view) (start chunkSize conn) es := by
  set worlds := Visits (step R) (start chunkSize conn) es with hworlds
  refine allSteps_of_invariant (sound_step hR hversions) ?_ (Store.sound_new_empty chunkSize)
    (hreads.and (allSteps_visits (step R) (start chunkSize conn) es))
  rintro w e ⟨he, hw⟩ hs
  cases e with
  | read path attrs offset size =>
      intro f m hf
      obtain ⟨f', m', hview, hsize, hm, hlt⟩ := he
      obtain ⟨s', c', heq, -⟩ := read_exact hR hversions hw hs hview hsize hm hlt offset size
      rw [hf] at hview
      cases hview
      rw [heq]
  | _ => trivial

/-! A run of three reads in which the file is replaced by another version. -/

/-- The in-memory remote with the one file `/f`. -/
def oneFile (f : Bytes) (m : Option Int) (h : (RemoteNode.file f m).Fits) : Memory :=
  Memory.empty.put ['/', 'f'] (.file f m) h

lemma oneFile_tree {f f' : Bytes} {m m' : Option Int} {h : (RemoteNode.file f m).Fits} {q : Str}
    (hq : (oneFile f m h).tree q = some (.file f' m')) : f' = f ∧ m' = m := by
  simp only [oneFile, Memory.put, Memory.empty, Function.update_apply] at hq
  split at hq
  · cases hq
    exact ⟨rfl, rfl⟩
  · split at hq <;> cases hq

def fileF : RemotePath := ⟨['/', 'f'], by decide⟩

def attrsF (size : UInt64) (modified : Int) : FileAttributes :=
  ⟨.file, size, 0, 0, 0, some modified, none, none⟩

def firstVersion : Memory := oneFile [1, 2, 3, 4, 5] (some 1) (by decide)

def secondVersion : Memory := oneFile [6, 7, 8, 9, 10] (some 2) (by decide)

def versionsRun : List (StoreEvent Memory) :=
  [.read fileF (attrsF 5 1) 1 3, .external secondVersion, .read fileF (attrsF 5 2) 3 7]

theorem read_run_exact_versions :
    AllSteps (step Memory.filesystem) (ReadExact Memory.filesystem Memory.tree)
      (start 2 ⟨firstVersion, 0, []⟩) versionsRun := by
  refine read_run_exact Memory.honestReads 2 ⟨firstVersion, 0, []⟩ versionsRun ?_ ?_
  · have hremote : ∀ w, Visits (step Memory.filesystem) (start 2 ⟨firstVersion, 0, []⟩)
        versionsRun w → w.conn.remote = firstVersion ∨ w.conn.remote = secondVersion := by
      intro w hw
      simp only [versionsRun, visits_cons, visits_nil] at hw
      rcases hw with rfl | rfl | rfl | rfl
      · exact .inl rfl
      · exact .inl rfl
      · exact .inr rfl
      · exact .inr rfl
    intro w w' q q' f f' m hw hw' hq hq' hlen
    rcases hremote w hw with hr | hr <;> rcases hremote w' hw' with hr' | hr' <;>
      rw [hr] at hq <;> rw [hr'] at hq' <;>
      obtain ⟨rfl, hm⟩ := oneFile_tree hq <;> obtain ⟨rfl, hm'⟩ := oneFile_tree hq' <;> simp_all
  · refine ⟨⟨_, _, rfl, rfl, rfl, ?_⟩, trivial, ⟨_, _, rfl, rfl, rfl, ?_⟩, trivial⟩ <;> decide

end StoreWorld

end CacheShfs
