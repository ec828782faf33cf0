import CacheShfs.Lib.Interleave
import CacheShfs.Store.Run

/-!
# A read, step by step

`Store::read` as a task that other calls can interleave with.  One step is what the store does
under its lock, one operation on a file of the cache directory, or one call of the remote:

* `check`: `cached_chunk` for the next chunk, or, after the last one, the snapshot of the chunk
  map;
* `alloc`, `create`, `fill`, `install`, `record`: the parts of `fetch_chunk`, where `fill` is one
  pass of the download loop;
* `assemble`: `read_object` for the next chunk of the snapshot.

A task that runs alone does what `Store.read` does (`ReadTask.runs_read`).
-/

namespace CacheShfs

/-- The arguments of a `Store::read`. -/
structure ReadArgs where
  path : RemotePath
  attrs : FileAttributes
  offset : UInt64
  size : UInt32

namespace ReadArgs

variable (a : ReadArgs)

/-- `end`. -/
def stop : ℕ := Store.readStop a.offset a.size a.attrs.size

/-- The chunks the read touches. -/
def range (chunkSize : ℕ) : List ℕ := chunkRange a.offset.toNat a.stop chunkSize

end ReadArgs

/-- Where a read is. -/
inductive ReadPc
  | check (rest : List ℕ)
  | alloc (chunk : ℕ) (rest : List ℕ)
  | create (chunk : ℕ) (rest : List ℕ) (object : ℕ)
  | fill (chunk : ℕ) (rest : List ℕ) (object : ℕ) (temp : TempName) (filled : ℕ)
  | install (chunk : ℕ) (rest : List ℕ) (object : ℕ) (temp : TempName)
  | record (chunk : ℕ) (rest : List ℕ) (object : ℕ)
  | assemble (chunks : FMap ℕ ℕ) (rest : List ℕ) (data : Bytes)
  | done (answer : Except Error Bytes)

/-- A read in progress. -/
structure ReadTask where
  args : ReadArgs
  pc : ReadPc

namespace ReadTask

variable {ρ : Type} (R : RemoteFilesystem ρ)

/-- A read that has been called. -/
def start (a : ReadArgs) (chunkSize : ℕ) : ReadTask :=
  ⟨a, if a.size = 0 ∨ a.attrs.size ≤ a.offset then .done (.ok []) else .check (a.range chunkSize)⟩

/-- Where one step leads. -/
def next (a : ReadArgs) (w : StoreWorld ρ) : ReadPc → ReadPc × StoreWorld ρ
  | .check [] =>
      match w.store.chunkMap a.path with
      | .ok chunks => (.assemble chunks (a.range w.store.chunkSize) [], w)
      | .error e => (.done (.error e), w)
  | .check (chunk :: rest) =>
      match w.store.cachedChunk a.path a.attrs chunk with
      | some _ => (.check rest, w)
      | none => (.alloc chunk rest, w)
  | .alloc chunk rest =>
      let (object, store) := w.store.allocObject
      (.create chunk rest object, { w with store := store })
  | .create chunk rest object =>
      let (temp, store) := w.store.createTemp object
      (.fill chunk rest object temp 0, { w with store := store })
  | .fill chunk rest object temp filled =>
      let len := w.store.chunkLen a.attrs chunk
      if filled < len then
        match w.conn.read R a.path (chunk * w.store.chunkSize + filled) (Store.want len filled) with
        | (.error e, conn) => (.done (.error e), ⟨w.store.emit (.removeTemp temp), conn⟩)
        | (.ok data, conn) =>
            if data = [] then (.install chunk rest object temp, { w with conn := conn })
            else (.fill chunk rest object temp (filled + data.length),
              ⟨w.store.emit (.appendTemp temp data), conn⟩)
      else (.install chunk rest object temp, w)
  | .install chunk rest object temp =>
      (.record chunk rest object, { w with store := w.store.install temp object })
  | .record chunk rest object =>
      (.check rest, { w with store := w.store.recordChunk a.path a.attrs chunk object })
  | .assemble _ [] data => (.done (.ok data), w)
  | .assemble chunks (chunk :: rest) data =>
      match w.store.readPiece chunks a.offset.toNat a.stop chunk with
      | .ok piece => (.assemble chunks rest (data ++ piece), w)
      | .error e => (.done (.error e), w)
  | .done answer => (.done answer, w)

/-- One step of a read. -/
def step (t : ReadTask) (w : StoreWorld ρ) : ReadTask × StoreWorld ρ :=
  (⟨t.args, (next R t.args w t.pc).1⟩, (next R t.args w t.pc).2)

/-! ## What a step can do -/

/-- What one step of a read does to the place it is at, the store and the remote. -/
inductive Steps (R : RemoteFilesystem ρ) (a : ReadArgs) (w : StoreWorld ρ) :
    ReadPc → ReadPc → StoreWorld ρ → Prop
  /-- The next chunk is cached. -/
  | found {chunk rest object} (h : w.store.cachedChunk a.path a.attrs chunk = some object) :
      Steps R a w (.check (chunk :: rest)) (.check rest) w
  /-- The next chunk is missing. -/
  | missed {chunk rest} (h : w.store.cachedChunk a.path a.attrs chunk = none) :
      Steps R a w (.check (chunk :: rest)) (.alloc chunk rest) w
  /-- All chunks have been looked for, and the chunk map is taken. -/
  | snapshot {chunks} (h : w.store.chunkMap a.path = .ok chunks) :
      Steps R a w (.check []) (.assemble chunks (a.range w.store.chunkSize) []) w
  | noContent {e} (h : w.store.chunkMap a.path = .error e) :
      Steps R a w (.check []) (.done (.error e)) w
  | alloc {chunk rest} :
      Steps R a w (.alloc chunk rest) (.create chunk rest w.store.index.nextObject)
        { w with store := w.store.allocObject.2 }
  | create {chunk rest object} :
      Steps R a w (.create chunk rest object)
        (.fill chunk rest object (object, w.store.tempCounter) 0)
        { w with store := (w.store.createTemp object).2 }
  /-- The remote returns some bytes. -/
  | arrived {chunk rest object temp filled data conn}
      (hlt : filled < w.store.chunkLen a.attrs chunk)
      (h : w.conn.read R a.path (chunk * w.store.chunkSize + filled)
        (Store.want (w.store.chunkLen a.attrs chunk) filled) = (.ok data, conn))
      (hdata : data ≠ []) :
      Steps R a w (.fill chunk rest object temp filled)
        (.fill chunk rest object temp (filled + data.length))
        ⟨w.store.emit (.appendTemp temp data), conn⟩
  /-- The remote has no more bytes. -/
  | ended {chunk rest object temp filled conn}
      (hlt : filled < w.store.chunkLen a.attrs chunk)
      (h : w.conn.read R a.path (chunk * w.store.chunkSize + filled)
        (Store.want (w.store.chunkLen a.attrs chunk) filled) = (.ok [], conn)) :
      Steps R a w (.fill chunk rest object temp filled) (.install chunk rest object temp)
        { w with conn := conn }
  | refused {chunk rest object temp filled e conn}
      (hlt : filled < w.store.chunkLen a.attrs chunk)
      (h : w.conn.read R a.path (chunk * w.store.chunkSize + filled)
        (Store.want (w.store.chunkLen a.attrs chunk) filled) = (.error e, conn)) :
      Steps R a w (.fill chunk rest object temp filled) (.done (.error e))
        ⟨w.store.emit (.removeTemp temp), conn⟩
  /-- The chunk is complete. -/
  | filled {chunk rest object temp filled} (h : w.store.chunkLen a.attrs chunk ≤ filled) :
      Steps R a w (.fill chunk rest object temp filled) (.install chunk rest object temp) w
  | install {chunk rest object temp} :
      Steps R a w (.install chunk rest object temp) (.record chunk rest object)
        { w with store := w.store.install temp object }
  | record {chunk rest object} :
      Steps R a w (.record chunk rest object) (.check rest)
        { w with store := w.store.recordChunk a.path a.attrs chunk object }
  | opened {chunks chunk rest data piece}
      (h : w.store.readPiece chunks a.offset.toNat a.stop chunk = .ok piece) :
      Steps R a w (.assemble chunks (chunk :: rest) data) (.assemble chunks rest (data ++ piece)) w
  | missing {chunks chunk rest data e}
      (h : w.store.readPiece chunks a.offset.toNat a.stop chunk = .error e) :
      Steps R a w (.assemble chunks (chunk :: rest) data) (.done (.error e)) w
  | finished {chunks data} : Steps R a w (.assemble chunks [] data) (.done (.ok data)) w
  | idle {answer} : Steps R a w (.done answer) (.done answer) w

lemma steps_next (a : ReadArgs) (w : StoreWorld ρ) (pc : ReadPc) :
    Steps R a w pc (next R a w pc).1 (next R a w pc).2 := by
  cases pc with
  | check rest =>
      cases rest with
      | nil =>
          rw [next]
          split
          · next h => exact .snapshot h
          · next h => exact .noContent h
      | cons chunk rest =>
          rw [next]
          split
          · next h => exact .found h
          · next h => exact .missed h
  | alloc chunk rest => exact .alloc
  | create chunk rest object => exact .create
  | fill chunk rest object temp filled =>
      rw [next]
      split
      · next hlt =>
          split
          · next h => exact .refused hlt h
          · next data conn h =>
              split
              · next hdata =>
                  subst hdata
                  exact .ended hlt h
              · next hdata => exact .arrived hlt h hdata
      · next hlt => exact .filled (Nat.le_of_not_lt hlt)
  | install chunk rest object temp => exact .install
  | record chunk rest object => exact .record
  | assemble chunks rest data =>
      cases rest with
      | nil => exact .finished
      | cons chunk rest =>
          rw [next]
          split
          · next h => exact .opened h
          · next h => exact .missing h
  | done answer => exact .idle

variable {R} in
lemma Steps.chunkSize {a : ReadArgs} {w w' : StoreWorld ρ} {pc pc' : ReadPc}
    (h : Steps R a w pc pc' w') : w'.store.chunkSize = w.store.chunkSize := by
  cases h with
  | record => exact Store.recordChunk_chunkSize _ _ _ _ _
  | _ => rfl

/-! ## A read that runs alone -/

/-- Some steps of a read lead from one place to another. -/
def Runs (a : ReadArgs) : ReadPc × StoreWorld ρ → ReadPc × StoreWorld ρ → Prop :=
  Relation.ReflTransGen fun x y => y = next R a x.2 x.1

variable {R} {a : ReadArgs}

lemma Runs.next {x : ReadPc × StoreWorld ρ} {y : ReadPc × StoreWorld ρ}
    (h : Runs R a (next R a x.2 x.1) y) : Runs R a x y :=
  Relation.ReflTransGen.head rfl h

/-- What every step keeps holds at the end. -/
lemma Runs.induction {P : ReadPc × StoreWorld ρ → Prop} {x y : ReadPc × StoreWorld ρ}
    (hstep : ∀ x, P x → P (ReadTask.next R a x.2 x.1)) (h : Runs R a x y) (hx : P x) : P y := by
  induction h with
  | refl => exact hx
  | tail _ hlast ih =>
      rw [hlast]
      exact hstep _ ih

/-- The passes of the download loop.  The fuel of `download` suffices, since every pass but the
last adds at least one byte. -/
lemma runs_download (chunk : ℕ) (rest : List ℕ) (object : ℕ) (temp : TempName)
    (fuel filled : ℕ) (s : Store) (c : Conn ρ) (hfuel : s.chunkLen a.attrs chunk - filled ≤ fuel) :
    Runs R a (.fill chunk rest object temp filled, ⟨s, c⟩)
      (match Store.download R a.path (chunk * s.chunkSize) (s.chunkLen a.attrs chunk) temp fuel
          filled s c with
        | (.ok (), s', c') => (.install chunk rest object temp, ⟨s', c'⟩)
        | (.error e, s', c') => (.done (.error e), ⟨s'.emit (.removeTemp temp), c'⟩)) := by
  induction fuel generalizing filled s c with
  | zero =>
      refine Runs.next ?_
      rw [ReadTask.next]
      simp only [if_neg (by omega : ¬ filled < s.chunkLen a.attrs chunk), Store.download]
      exact .refl
  | succ fuel ih =>
      refine Runs.next ?_
      rw [ReadTask.next, Store.download]
      simp only
      by_cases hlt : filled < s.chunkLen a.attrs chunk
      · rw [if_pos hlt, if_pos hlt]
        cases hread : c.read R a.path (chunk * s.chunkSize + filled)
            (Store.want (s.chunkLen a.attrs chunk) filled) with
        | mk answer c' =>
            cases answer with
            | error e => exact .refl
            | ok data =>
                by_cases hdata : data = []
                · simp only [if_pos hdata]
                  exact .refl
                · simp only [if_neg hdata]
                  have hpos := List.length_pos_of_ne_nil hdata
                  have hsame : (s.emit (.appendTemp temp data)).chunkLen a.attrs chunk =
                      s.chunkLen a.attrs chunk := rfl
                  exact ih (filled + data.length) (s.emit (.appendTemp temp data)) c'
                    (by rw [hsame]; omega)
      · rw [if_neg hlt, if_neg hlt]
        exact .refl

/-- The steps that fetch one chunk. -/
lemma runs_fetchChunk (chunk : ℕ) (rest : List ℕ) (s : Store) (c : Conn ρ) :
    Runs R a (.alloc chunk rest, ⟨s, c⟩)
      (match s.fetchChunk R a.path a.attrs chunk c with
        | (.ok _, s', c') => (.check rest, ⟨s', c'⟩)
        | (.error e, s', c') => (.done (.error e), ⟨s', c'⟩)) := by
  refine Runs.next (Runs.next ?_)
  set o := s.allocObject.1
  set s₁ := (s.allocObject.2.createTemp o).2 with hs₁
  set temp := (s.allocObject.2.createTemp o).1 with htemp
  have hdownload := runs_download (R := R) (a := a) chunk rest o temp (s₁.chunkLen a.attrs chunk)
    0 s₁ c (by omega)
  rw [Store.fetchChunk]
  simp only
  cases hd : Store.download R a.path (chunk * s₁.chunkSize) (s₁.chunkLen a.attrs chunk) temp
      (s₁.chunkLen a.attrs chunk) 0 s₁ c with
  | mk answer rest' =>
      obtain ⟨s₂, c₂⟩ := rest'
      rw [hd] at hdownload
      cases answer with
      | error e => exact hdownload
      | ok _ => exact hdownload.trans (Runs.next (Runs.next .refl))

/-- The steps that fetch the missing chunks. -/
lemma runs_fetchMissing (chunks : List ℕ) (s : Store) (c : Conn ρ) :
    Runs R a (.check chunks, ⟨s, c⟩)
      (match Store.fetchMissing R a.path a.attrs chunks s c with
        | (.ok (), s', c') => (.check [], ⟨s', c'⟩)
        | (.error e, s', c') => (.done (.error e), ⟨s', c'⟩)) := by
  induction chunks generalizing s c with
  | nil => exact .refl
  | cons chunk rest ih =>
      refine Runs.next ?_
      rw [ReadTask.next, Store.fetchMissing]
      simp only
      cases hcached : s.cachedChunk a.path a.attrs chunk with
      | some object => exact ih s c
      | none =>
          have hfetch := runs_fetchChunk (R := R) (a := a) chunk rest s c
          simp only
          cases hf : s.fetchChunk R a.path a.attrs chunk c with
          | mk answer rest' =>
              obtain ⟨s', c'⟩ := rest'
              rw [hf] at hfetch
              cases answer with
              | error e => exact hfetch
              | ok object => exact hfetch.trans (ih s' c')

/-- The steps that assemble the answer. -/
lemma runs_readPieces (chunks : FMap ℕ ℕ) (rest : List ℕ) (data : Bytes) (w : StoreWorld ρ) :
    Runs R a (.assemble chunks rest data, w)
      (.done (w.store.readPieces chunks a.offset.toNat a.stop rest data), w) := by
  induction rest generalizing data with
  | nil => exact Runs.next .refl
  | cons chunk rest ih =>
      refine Runs.next ?_
      rw [ReadTask.next, Store.readPieces]
      simp only
      cases w.store.readPiece chunks a.offset.toNat a.stop chunk with
      | ok piece => exact ih (data ++ piece)
      | error e => exact .refl

/-- **A read that runs alone** ends with the answer of `Store.read` and leaves the same store and
remote. -/
theorem runs_read (s : Store) (c : Conn ρ) :
    Runs R a ((start a s.chunkSize).pc, ⟨s, c⟩)
      (.done (s.read R a.path a.attrs a.offset a.size c).1,
        ⟨(s.read R a.path a.attrs a.offset a.size c).2.1,
          (s.read R a.path a.attrs a.offset a.size c).2.2⟩) := by
  unfold start Store.read
  by_cases hempty : a.size = 0 ∨ a.attrs.size ≤ a.offset
  · simp only [if_pos hempty]
    exact .refl
  · simp only [if_neg hempty]
    have hfetch := runs_fetchMissing (R := R) (a := a) (a.range s.chunkSize) s c
    simp only [ReadArgs.range, ReadArgs.stop] at hfetch ⊢
    cases hf : Store.fetchMissing R a.path a.attrs (chunkRange a.offset.toNat
        (Store.readStop a.offset a.size a.attrs.size) s.chunkSize) s c with
    | mk answer rest =>
        obtain ⟨s', c'⟩ := rest
        rw [hf] at hfetch
        cases answer with
        | error e => exact hfetch
        | ok _ =>
            refine hfetch.trans (Runs.next ?_)
            rw [ReadTask.next]
            simp only [Store.readCachedRange]
            cases s'.chunkMap a.path with
            | ok chunks => exact runs_readPieces chunks _ [] ⟨s', c'⟩
            | error e => exact .refl

end ReadTask

end CacheShfs
