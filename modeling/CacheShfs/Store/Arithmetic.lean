import CacheShfs.Lib.Checked
import CacheShfs.Store.Frame
import CacheShfs.Store.Offline

/-!
# Chunk arithmetic on machine integers

`Store::read`, `Store::read_cached` and what they call, with every sum, difference, product and
cast checked, as in a build with overflow checks.  Where no check fails the result is the one of
`Store.read` and `Store.readCached`, which compute with the exact numbers, or wrap.

Offsets, file sizes and chunk sizes are any `u64`.  All operations but one are exact: what the
download computes is bounded by the file size, and what the assembly takes from a chunk by the
size of the request.  The exception is `chunk_start + chunk_size` in `read_cached_range`, which
leaves `u64` in the last chunk of a range if this chunk, taken as full, would end at `2^64` or
beyond.  `next_object` is a `u64` too, and has to have an id for every chunk that is missing.
-/

namespace CacheShfs

open Machine

/-- `chunk_range`, checked. -/
def chunkRangeChecked (offset stop chunkSize : ℕ) : Option (List ℕ) := do
  let last ← Checked.sub stop 1
  let chunkSize := max chunkSize 1
  return List.range' (offset / chunkSize) (last / chunkSize + 1 - offset / chunkSize)

namespace Store

section Defs

variable {ρ : Type} (R : RemoteFilesystem ρ) (path : RemotePath) (attrs : FileAttributes)

/-- The download loop, checked. -/
def downloadChecked (chunkStart chunkLen : ℕ) (temp : TempName) :
    ℕ → ℕ → Store → Conn ρ → Option (Except Error Unit × Store × Conn ρ)
  | 0, _, s, c => some (.ok (), s, c)
  | fuel + 1, filled, s, c =>
      if filled < chunkLen then do
        let rest ← Checked.sub chunkLen filled
        let want ← Checked.cast 32 (min rest (2 ^ 32 - 1))
        let offset ← Checked.add 64 chunkStart filled
        match c.read R path offset want with
        | (.error e, c) => some (.error e, s, c)
        | (.ok data, c) =>
            if data = [] then some (.ok (), s, c)
            else do
              let filled ← Checked.add 64 filled data.length
              downloadChecked chunkStart chunkLen temp fuel filled
                (s.emit (.appendTemp temp data)) c
      else some (.ok (), s, c)

/-- `Store::fetch_chunk`, checked. -/
def fetchChunkChecked (chunk : ℕ) (s : Store) (c : Conn ρ) :
    Option (Except Error ℕ × Store × Conn ρ) := do
  let _ ← Checked.add 64 s.index.nextObject 1
  let (object, s) := s.allocObject
  let (temp, s) := s.createTemp object
  let start ← Checked.mul 64 chunk s.chunkSize
  let left ← Checked.sub attrs.size.toNat start
  let len := min left s.chunkSize
  match ← downloadChecked R path start len temp len 0 s c with
  | (.error e, s, c) => some (.error e, s.emit (.removeTemp temp), c)
  | (.ok (), s, c) =>
      some (.ok object, (s.install temp object).recordChunk path attrs chunk object, c)

/-- The loop of `Store::read`, checked. -/
def fetchMissingChecked : List ℕ → Store → Conn ρ → Option (Except Error Unit × Store × Conn ρ)
  | [], s, c => some (.ok (), s, c)
  | chunk :: rest, s, c =>
      match s.cachedChunk path attrs chunk with
      | some _ => fetchMissingChecked rest s c
      | none => do
          match ← fetchChunkChecked R path attrs chunk s c with
          | (.ok _, s, c) => fetchMissingChecked rest s c
          | (.error e, s, c) => some (.error e, s, c)

/-- One pass of the loop of `read_cached_range`, checked. -/
def readPieceChecked (chunks : FMap ℕ ℕ) (offset stop chunk : ℕ) (s : Store) :
    Option (Except Error Bytes) :=
  match chunks.lookup chunk with
  | some object => do
      let chunkStart ← Checked.mul 64 chunk s.chunkSize
      let readStart ← Checked.sub (max offset chunkStart) chunkStart
      let chunkEnd ← Checked.add 64 chunkStart s.chunkSize
      let readEnd ← Checked.sub (min stop chunkEnd) chunkStart
      let size ← Checked.sub readEnd readStart
      let size ← Checked.cast 32 size
      return s.readObject object readStart size
  | none => some (.error notCached)

/-- The loop of `read_cached_range`, checked. -/
def readPiecesChecked (chunks : FMap ℕ ℕ) (offset stop : ℕ) (s : Store) :
    List ℕ → Bytes → Option (Except Error Bytes)
  | [], data => some (.ok data)
  | chunk :: rest, data => do
      match ← s.readPieceChecked chunks offset stop chunk with
      | .ok piece => readPiecesChecked chunks offset stop s rest (data ++ piece)
      | .error e => some (.error e)

/-- `Store::read_cached_range`, checked.  The capacity of the buffer is cast to `usize`, which
has at least 32 bits. -/
def readCachedRangeChecked (path : RemotePath) (offset stop : ℕ) (s : Store) :
    Option (Except Error Bytes) :=
  match s.chunkMap path with
  | .ok chunks => do
      let capacity ← Checked.sub stop offset
      let _ ← Checked.cast 32 capacity
      let range ← chunkRangeChecked offset stop s.chunkSize
      s.readPiecesChecked chunks offset stop range []
  | .error e => some (.error e)

/-- `Store::read`, checked. -/
def readChecked (offset : UInt64) (size : UInt32) (s : Store) (c : Conn ρ) :
    Option (Except Error Bytes × Store × Conn ρ) :=
  if size = 0 ∨ attrs.size ≤ offset then some (.ok [], s, c)
  else do
    let stop := readStop offset size attrs.size
    let range ← chunkRangeChecked offset.toNat stop s.chunkSize
    match ← fetchMissingChecked R path attrs range s c with
    | (.ok (), s, c) =>
        let answer ← s.readCachedRangeChecked path offset.toNat stop
        return (answer, s, c)
    | (.error e, s, c) => some (.error e, s, c)

/-- `Store::read_cached`, checked. -/
def readCachedChecked (offset : UInt64) (size : UInt32) (s : Store) : Option (Except Error Bytes) :=
  match s.content path.asStr with
  | some content =>
      if content.chunkSize = s.chunkSize then
        if size = 0 ∨ content.size ≤ offset then some (.ok [])
        else s.readCachedRangeChecked path offset.toNat (readStop offset size content.size)
      else some (.error notCached)
  | none => some (.error notCached)

end Defs

/-! ## Where no check fails -/

lemma chunkRangeChecked_eq {offset stop chunkSize : ℕ} (h : 0 < stop) :
    chunkRangeChecked offset stop chunkSize = some (chunkRange offset stop chunkSize) := by
  rw [chunkRangeChecked, Checked.sub_of_le h]
  rfl

variable {ρ : Type} {R : RemoteFilesystem ρ} {path : RemotePath} {attrs : FileAttributes}
  {s s' : Store}

/-- The download stays within the piece of the file that it asks for. -/
lemma downloadChecked_eq (hR : R.Bounded) {start len : ℕ} (hlen : start + len < 2 ^ 64)
    (temp : TempName) (fuel filled : ℕ) (s : Store) (c : Conn ρ) :
    downloadChecked R path start len temp fuel filled s c =
      some (download R path start len temp fuel filled s c) := by
  induction fuel generalizing filled s c with
  | zero => rfl
  | succ fuel ih =>
      rw [downloadChecked, download]
      by_cases hlt : filled < len
      · have hwant : min (len - filled) (2 ^ 32 - 1) < 2 ^ 32 := by omega
        have hoffset : start + filled < 2 ^ 64 := by omega
        simp only [if_pos hlt, Checked.sub_of_le hlt.le, Option.bind_eq_bind, Option.bind_some,
          Checked.cast_of_lt hwant, Checked.add_of_lt hoffset]
        show (match c.read R path (start + filled) (want len filled) with
          | (.error e, c) => _
          | (.ok data, c) => _) = _
        cases hread : c.read R path (start + filled) (want len filled) with
        | mk answer c' =>
            cases answer with
            | error e => rfl
            | ok data =>
                by_cases hdata : data = []
                · simp [hdata]
                · -- the answer is no longer than what is missing
                  have hshort : data.length ≤ want len filled :=
                    hR path (start + filled) _ c.remote data (congrArg Prod.fst hread)
                  have hle : want len filled ≤ len - filled := min_le_left _ _
                  have hfilled : filled + data.length < 2 ^ 64 := by omega
                  simp only [if_neg hdata, Checked.add_of_lt hfilled, Option.bind_some]
                  exact ih _ _ c'
      · rw [if_neg hlt, if_neg hlt]

lemma fetchChunkChecked_eq (hR : R.Bounded) {chunk : ℕ} (c : Conn ρ)
    (hid : s.index.nextObject + 1 < 2 ^ 64) (hchunk : chunk * s.chunkSize < attrs.size.toNat) :
    fetchChunkChecked R path attrs chunk s c = some (s.fetchChunk R path attrs chunk c) := by
  have hsize := attrs.size.toNat_lt
  set t := (s.allocObject.2.createTemp s.allocObject.1).2
  set temp := (s.allocObject.2.createTemp s.allocObject.1).1
  have hlen : chunk * t.chunkSize + t.chunkLen attrs chunk < 2 ^ 64 := by
    show chunk * s.chunkSize + min (attrs.size.toNat - chunk * s.chunkSize) s.chunkSize < 2 ^ 64
    omega
  have hdownload : downloadChecked R path _ _ temp (t.chunkLen attrs chunk) 0 t c = _ :=
    downloadChecked_eq hR hlen temp (t.chunkLen attrs chunk) 0 t c
  simp only [fetchChunkChecked, Checked.add_of_lt hid, Option.bind_eq_bind, Option.bind_some]
  show (Checked.mul 64 chunk s.chunkSize).bind _ = _
  rw [Checked.mul_of_lt (by omega), Option.bind_some, Checked.sub_of_le hchunk.le,
    Option.bind_some]
  show (downloadChecked R path (chunk * t.chunkSize) (t.chunkLen attrs chunk) temp
    (t.chunkLen attrs chunk) 0 t c).bind _ = _
  rw [hdownload, Option.bind_some, fetchChunk]
  simp only
  generalize download R path (chunk * t.chunkSize) (t.chunkLen attrs chunk) temp
    (t.chunkLen attrs chunk) 0 t c = x
  obtain ⟨answer, u, c'⟩ := x
  cases answer <;> rfl

/-! ## Object ids -/

/-- The chunks of a list that a read has to fetch. -/
def missingChunks (path : RemotePath) (attrs : FileAttributes) (ks : List ℕ) (s : Store) : List ℕ :=
  ks.filter fun k => (s.cachedChunk path attrs k).isNone

/-- There is an object id for every chunk that is missing. -/
def IdsLeft (path : RemotePath) (attrs : FileAttributes) (ks : List ℕ) (s : Store) : Prop :=
  s.missingChunks path attrs ks ≠ [] →
    s.index.nextObject + (s.missingChunks path attrs ks).length < 2 ^ 64

lemma missingChunks_cons_cached {k o : ℕ} (h : s.cachedChunk path attrs k = some o)
    (ks : List ℕ) : s.missingChunks path attrs (k :: ks) = s.missingChunks path attrs ks := by
  simp [missingChunks, h]

lemma missingChunks_cons_missing {k : ℕ} (h : s.cachedChunk path attrs k = none)
    (ks : List ℕ) : s.missingChunks path attrs (k :: ks) = k :: s.missingChunks path attrs ks := by
  simp [missingChunks, h]

/-- A chunk that has been fetched is cached, the others are as they were, and one id is used. -/
lemma fetchChunk_fetched {k o : ℕ} {c c' : Conn ρ}
    (h : s.fetchChunk R path attrs k c = (.ok o, s', c')) :
    s'.chunkSize = s.chunkSize ∧ s'.index.nextObject = s.index.nextObject + 1 ∧
      ∀ j, s'.cachedChunk path attrs j = if j = k then some o else s.cachedChunk path attrs j := by
  unfold fetchChunk at h
  simp only at h
  set t := (s.allocObject.2.createTemp s.allocObject.1).2
  set temp := (s.allocObject.2.createTemp s.allocObject.1).1
  have hframe := (download_frame (R := R) path (k * t.chunkSize) (t.chunkLen attrs k) temp
    (t.chunkLen attrs k) 0 t c).1
  split at h
  · cases h
  · next u c₁ heq =>
      rw [heq] at hframe
      cases h
      have hindex : (u.install temp s.allocObject.1).index = t.index := hframe.index
      have hsize : (u.install temp s.allocObject.1).chunkSize = s.chunkSize := hframe.chunkSize
      refine ⟨(recordChunk_chunkSize _ _ _ _ _).trans hsize, ?_, fun j => ?_⟩
      · rw [recordChunk_nextObject, hindex]
        rfl
      · rw [cachedChunk_recordChunk, cachedChunk_of_entries (s := s) (by rw [hindex]; rfl) hsize]

lemma missingChunks_fetched {k o : ℕ} {c c' : Conn ρ} {ks : List ℕ} (hk : k ∉ ks)
    (h : s.fetchChunk R path attrs k c = (.ok o, s', c')) :
    s'.missingChunks path attrs ks = s.missingChunks path attrs ks := by
  refine List.filter_congr fun j hj => ?_
  have hne : j ≠ k := by
    rintro rfl
    exact hk hj
  rw [(fetchChunk_fetched h).2.2, if_neg hne]

/-- The ids suffice, so no check of the loop fails. -/
lemma fetchMissingChecked_eq (hR : R.Bounded) (ks : List ℕ) (c : Conn ρ) (hnodup : ks.Nodup)
    (hks : ∀ k ∈ ks, k * s.chunkSize < attrs.size.toNat) (hids : s.IdsLeft path attrs ks) :
    fetchMissingChecked R path attrs ks s c = some (fetchMissing R path attrs ks s c) := by
  induction ks generalizing s c with
  | nil => rfl
  | cons k ks ih =>
      obtain ⟨hk, hnodup⟩ := List.nodup_cons.mp hnodup
      have hrest : ∀ j ∈ ks, j * s.chunkSize < attrs.size.toNat := fun j hj =>
        hks j (List.mem_cons_of_mem _ hj)
      rw [fetchMissingChecked, fetchMissing]
      cases hcached : s.cachedChunk path attrs k with
      | some o =>
          rw [IdsLeft, missingChunks_cons_cached hcached] at hids
          exact ih c hnodup hrest hids
      | none =>
          rw [IdsLeft, missingChunks_cons_missing hcached, List.length_cons] at hids
          have hids := hids (List.cons_ne_nil _ _)
          simp only [Option.bind_eq_bind, fetchChunkChecked_eq hR c (by omega)
            (hks k List.mem_cons_self), Option.bind_some]
          cases hfetch : s.fetchChunk R path attrs k c with
          | mk answer rest =>
              obtain ⟨s₁, c₁⟩ := rest
              cases answer with
              | error e => rfl
              | ok o =>
                  obtain ⟨hsize, hnext, -⟩ := fetchChunk_fetched hfetch
                  refine ih c₁ hnodup (by rwa [hsize]) fun _ => ?_
                  rw [missingChunks_fetched hk hfetch, hnext]
                  omega

/-! ## Assembling a range -/

/-- The chunk, taken as full, ends within `u64`. -/
def ChunkFits (chunk chunkSize : ℕ) : Prop := chunk * chunkSize + chunkSize < 2 ^ 64

lemma readPieceChecked_eq {chunks : FMap ℕ ℕ} {offset stop chunk : ℕ}
    (hlt : offset < stop) (hsmall : stop - offset < 2 ^ 32) (hstart : chunk * s.chunkSize < stop)
    (hend : offset < chunk * s.chunkSize + s.chunkSize)
    (hfits : chunks.lookup chunk ≠ none → ChunkFits chunk s.chunkSize) :
    s.readPieceChecked chunks offset stop chunk = some (s.readPiece chunks offset stop chunk) := by
  cases hlook : chunks.lookup chunk with
  | none => simp [readPieceChecked, readPiece, hlook]
  | some o =>
      have hfits : chunk * s.chunkSize + s.chunkSize < 2 ^ 64 := hfits (by rw [hlook]; simp)
      have hpos := s.chunkSize_pos
      rw [readPiece_exact hlook hstart hend hlt hsmall hfits]
      set start := chunk * s.chunkSize
      have hmul : Checked.mul 64 chunk s.chunkSize = some start := Checked.mul_of_lt (by omega)
      have hreadStart := Checked.sub_of_le (le_max_right offset start)
      have hreadEnd : Checked.sub (min stop (start + s.chunkSize)) start =
          some (min stop (start + s.chunkSize) - start) := Checked.sub_of_le (by omega)
      have hsize : Checked.sub (min stop (start + s.chunkSize) - start)
          (max offset start - start) =
            some (min stop (start + s.chunkSize) - max offset start) := by
        rw [Checked.sub_of_le (by omega)]
        exact congrArg some (by omega)
      have hcast : Checked.cast 32 (min stop (start + s.chunkSize) - max offset start) =
          some (min stop (start + s.chunkSize) - max offset start) := Checked.cast_of_lt (by omega)
      simp only [readPieceChecked, hlook, Option.bind_eq_bind, hmul, Option.bind_some, hreadStart,
        Checked.add_of_lt hfits, hreadEnd, hsize, hcast]
      rfl

/-- The loop reaches a chunk if all earlier ones are recorded. -/
lemma readPiecesChecked_eq {chunks : FMap ℕ ℕ} {offset stop : ℕ} (hlt : offset < stop)
    (hsmall : stop - offset < 2 ^ 32) (ks : List ℕ)
    (hks : ∀ k ∈ ks, k * s.chunkSize < stop ∧ offset < k * s.chunkSize + s.chunkSize)
    (hfits : ∀ done k rest, ks = done ++ k :: rest → (∀ j ∈ done, chunks.lookup j ≠ none) →
      chunks.lookup k ≠ none → ChunkFits k s.chunkSize) (data : Bytes) :
    s.readPiecesChecked chunks offset stop ks data =
      some (s.readPieces chunks offset stop ks data) := by
  induction ks generalizing data with
  | nil => rfl
  | cons k ks ih =>
      obtain ⟨hstart, hend⟩ := hks k List.mem_cons_self
      have hpiece := readPieceChecked_eq hlt hsmall hstart hend
        (hfits [] k ks rfl (fun _ hj => by cases hj))
      simp only [readPiecesChecked, readPieces, hpiece, Option.bind_eq_bind, Option.bind_some]
      cases hread : s.readPiece chunks offset stop k with
      | error e => rfl
      | ok piece =>
          have hk : chunks.lookup k ≠ none := by
            intro hnone
            rw [readPiece, hnone] at hread
            cases hread
          refine ih (fun j hj => hks j (List.mem_cons_of_mem _ hj)) ?_ _
          intro done j rest heq hdone
          refine hfits (k :: done) j rest (by rw [heq]; rfl) fun i hi => ?_
          rcases List.mem_cons.mp hi with rfl | hi
          · exact hk
          · exact hdone i hi

/-- All chunks of a range but the last one end below its end. -/
lemma chunkFits_of_lt {k stop chunkSize : ℕ} (hstop : stop < 2 ^ 64) (hpos : 0 < stop)
    (hk : k < (stop - 1) / chunkSize) : ChunkFits k chunkSize := by
  have hnext : (k + 1) * chunkSize ≤ stop - 1 :=
    le_trans (Nat.mul_le_mul_right chunkSize hk) (Nat.div_mul_le_self (stop - 1) chunkSize)
  have hmul : (k + 1) * chunkSize = k * chunkSize + chunkSize := Nat.succ_mul k chunkSize
  unfold ChunkFits
  omega

lemma le_of_mem_chunkRange {offset stop chunkSize k : ℕ} (hpos : 0 < chunkSize)
    (hk : k ∈ chunkRange offset stop chunkSize) : k ≤ (stop - 1) / chunkSize := by
  rw [chunkRange, max_eq_left (by omega : 1 ≤ chunkSize)] at hk
  have hmem := List.mem_range'_1.mp hk
  omega

lemma last_mem_chunkRange {offset stop chunkSize : ℕ} (hpos : 0 < chunkSize)
    (hlt : offset < stop) : (stop - 1) / chunkSize ∈ chunkRange offset stop chunkSize := by
  rw [chunkRange, max_eq_left (by omega : 1 ≤ chunkSize)]
  have hle : offset / chunkSize ≤ (stop - 1) / chunkSize := Nat.div_le_div_right (by omega)
  exact List.mem_range'_1.mpr ⟨hle, by omega⟩

/-- The chunks of a range ascend. -/
lemma chunkRange_ascends {offset stop chunkSize k : ℕ} {done rest : List ℕ}
    (h : chunkRange offset stop chunkSize = done ++ k :: rest) : ∀ j ∈ rest, k < j := by
  have hsorted : (chunkRange offset stop chunkSize).Pairwise (· < ·) := List.pairwise_lt_range'
  rw [h, List.pairwise_append, List.pairwise_cons] at hsorted
  exact hsorted.2.1.1

lemma chunkRange_nodup (offset stop chunkSize : ℕ) : (chunkRange offset stop chunkSize).Nodup :=
  List.nodup_range'

lemma readCachedRangeChecked_eq {offset stop : ℕ} (hlt : offset < stop)
    (hsmall : stop - offset < 2 ^ 32) (hstop : stop < 2 ^ 64)
    (hfits : ∀ chunks, s.chunkMap path = .ok chunks →
      (∀ k ∈ chunkRange offset stop s.chunkSize, chunks.lookup k ≠ none) →
        ChunkFits ((stop - 1) / s.chunkSize) s.chunkSize) :
    s.readCachedRangeChecked path offset stop = some (s.readCachedRange path offset stop) := by
  rw [readCachedRangeChecked, readCachedRange]
  cases hmap : s.chunkMap path with
  | error e => rfl
  | ok chunks =>
      have hpieces : s.readPiecesChecked chunks offset stop _ [] = _ := readPiecesChecked_eq hlt
        hsmall (chunkRange offset stop s.chunkSize)
        (fun k hk => mem_chunkRange s.chunkSize_pos hlt hk) (fun done k rest heq hdone hk => by
          have hle := le_of_mem_chunkRange s.chunkSize_pos (k := k) (by rw [heq]; simp)
          rcases Nat.lt_or_eq_of_le hle with hbefore | rfl
          · exact chunkFits_of_lt hstop (by omega) hbefore
          · -- the last chunk is reached with all chunks recorded
            refine hfits chunks hmap fun j hj => ?_
            rcases List.mem_append.mp (heq ▸ hj) with hj | hj
            · exact hdone j hj
            · rcases List.mem_cons.mp hj with rfl | hrest
              · exact hk
              · have hafter := chunkRange_ascends heq j hrest
                have hbound := le_of_mem_chunkRange s.chunkSize_pos (k := j)
                  (by rw [heq]; simp [hrest])
                omega) []
      simp only [Checked.sub_of_le hlt.le, Option.bind_eq_bind, Option.bind_some,
        Checked.cast_of_lt hsmall, chunkRangeChecked_eq (by omega : 0 < stop), hpieces]

/-! ## Where a check fails -/

/-- What is assembled from a recorded chunk has passed the check of the chunk's end. -/
lemma readPieceChecked_fits {chunks : FMap ℕ ℕ} {offset stop k o : ℕ} {x : Except Error Bytes}
    (hlook : chunks.lookup k = some o) (h : s.readPieceChecked chunks offset stop k = some x) :
    ChunkFits k s.chunkSize ∧ ∃ start size, x = s.readObject o start size := by
  simp only [readPieceChecked, hlook] at h
  obtain ⟨chunkStart, hstart, h⟩ := Option.bind_eq_some_iff.mp h
  obtain ⟨-, rfl⟩ := Checked.mul_eq_some.mp hstart
  obtain ⟨readStart, -, h⟩ := Option.bind_eq_some_iff.mp h
  obtain ⟨chunkEnd, hend, h⟩ := Option.bind_eq_some_iff.mp h
  obtain ⟨readEnd, -, h⟩ := Option.bind_eq_some_iff.mp h
  obtain ⟨left, -, h⟩ := Option.bind_eq_some_iff.mp h
  obtain ⟨size, -, h⟩ := Option.bind_eq_some_iff.mp h
  exact ⟨(Checked.add_eq_some.mp hend).1, readStart, size, (Option.some.inj h).symm⟩

/-- A range whose chunks are all recorded is assembled to its end. -/
lemma readPiecesChecked_fits {chunks : FMap ℕ ℕ} {offset stop : ℕ} {ks : List ℕ} {data : Bytes}
    {x : Except Error Bytes}
    (hall : ∀ k ∈ ks, ∃ o b, chunks.lookup k = some o ∧ s.object o = some b)
    (h : s.readPiecesChecked chunks offset stop ks data = some x) :
    ∀ k ∈ ks, ChunkFits k s.chunkSize := by
  induction ks generalizing data with
  | nil => simp
  | cons k ks ih =>
      obtain ⟨piece, hpiece, h⟩ := Option.bind_eq_some_iff.mp h
      obtain ⟨o, b, hlook, hobject⟩ := hall k List.mem_cons_self
      obtain ⟨hfits, start, size, rfl⟩ := readPieceChecked_fits hlook hpiece
      intro j hj
      rcases List.mem_cons.mp hj with rfl | hj
      · exact hfits
      · rw [readObject, hobject] at h
        exact ih (fun i hi => hall i (List.mem_cons_of_mem _ hi)) h j hj

lemma readCachedRangeChecked_fits {offset stop : ℕ} {chunks : FMap ℕ ℕ} {x : Except Error Bytes}
    (hlt : offset < stop) (hmap : s.chunkMap path = .ok chunks)
    (hall : ∀ k ∈ chunkRange offset stop s.chunkSize,
      ∃ o b, chunks.lookup k = some o ∧ s.object o = some b)
    (h : s.readCachedRangeChecked path offset stop = some x) :
    ChunkFits ((stop - 1) / s.chunkSize) s.chunkSize := by
  simp only [readCachedRangeChecked, hmap] at h
  obtain ⟨capacity, -, h⟩ := Option.bind_eq_some_iff.mp h
  obtain ⟨cast, -, h⟩ := Option.bind_eq_some_iff.mp h
  obtain ⟨range, hrange, h⟩ := Option.bind_eq_some_iff.mp h
  rw [chunkRangeChecked_eq (by omega)] at hrange
  cases hrange
  exact readPiecesChecked_fits hall h _ (last_mem_chunkRange s.chunkSize_pos hlt)

/-- A remote at which every file ends at once. -/
def emptyFiles : RemoteFilesystem Unit where
  stat _ r := (.error .notFound, r)
  readDir _ r := (.error .notFound, r)
  read _ _ _ r := (.ok [], r)
  write _ _ _ r := (.error .notFound, r)
  create _ _ r := (.error .notFound, r)
  mkdir _ _ r := (.error .notFound, r)
  unlink _ r := (.error .notFound, r)
  rmdir _ r := (.error .notFound, r)
  rename _ _ r := (.error .notFound, r)
  setattr _ _ r := (.error .notFound, r)

lemma bounded_emptyFiles : emptyFiles.Bounded := by
  intro path offset size r data h
  cases h
  exact Nat.zero_le size

lemma fetchChunk_emptyFiles (path : RemotePath) (attrs : FileAttributes) (k : ℕ) (s : Store)
    (c : Conn Unit) : ∃ o s' c', s.fetchChunk emptyFiles path attrs k c = (.ok o, s', c') := by
  have hdownload : ∀ (start len : ℕ) (temp : TempName) (fuel : ℕ) (t : Store),
      (download emptyFiles path start len temp fuel 0 t c).1 = .ok () := by
    intro start len temp fuel t
    cases fuel with
    | zero => rfl
    | succ fuel =>
        rw [download]
        split
        · rfl
        · rfl
  unfold fetchChunk
  simp only
  split
  · next heq =>
      have hok := (congrArg Prod.fst heq).symm.trans (hdownload _ _ _ _ _)
      cases hok
  · exact ⟨_, _, _, rfl⟩

lemma fetchMissing_emptyFiles (path : RemotePath) (attrs : FileAttributes) (ks : List ℕ) (s : Store)
    (c : Conn Unit) : (fetchMissing emptyFiles path attrs ks s c).1 = .ok () := by
  induction ks generalizing s c with
  | nil => rfl
  | cons k ks ih =>
      rw [fetchMissing]
      split
      · exact ih s c
      · obtain ⟨o, s', c', heq⟩ := fetchChunk_emptyFiles path attrs k s c
        rw [heq]
        exact ih s' c'

/-- At this remote every missing chunk is fetched, and takes an id. -/
lemma idsLeft_of_checked {ks : List ℕ} {c : Conn Unit} {x : Except Error Unit × Store × Conn Unit}
    (hnodup : ks.Nodup) (hks : ∀ k ∈ ks, k * s.chunkSize < attrs.size.toNat)
    (h : fetchMissingChecked emptyFiles path attrs ks s c = some x) : s.IdsLeft path attrs ks := by
  induction ks generalizing s c with
  | nil => exact fun hne => absurd rfl hne
  | cons k ks ih =>
      obtain ⟨hk, hnodup⟩ := List.nodup_cons.mp hnodup
      have hrest : ∀ j ∈ ks, j * s.chunkSize < attrs.size.toNat := fun j hj =>
        hks j (List.mem_cons_of_mem _ hj)
      rw [fetchMissingChecked] at h
      cases hcached : s.cachedChunk path attrs k with
      | some o =>
          rw [hcached] at h
          rw [IdsLeft, missingChunks_cons_cached hcached]
          exact ih hnodup hrest h
      | none =>
          rw [hcached] at h
          obtain ⟨y, hfetch, h⟩ := Option.bind_eq_some_iff.mp h
          have hid : s.index.nextObject + 1 < 2 ^ 64 := by
            obtain ⟨next, hnext, -⟩ := Option.bind_eq_some_iff.mp hfetch
            exact (Checked.add_eq_some.mp hnext).1
          rw [fetchChunkChecked_eq bounded_emptyFiles c hid (hks k List.mem_cons_self)] at hfetch
          obtain rfl := Option.some.inj hfetch
          obtain ⟨o, s', c', heq⟩ := fetchChunk_emptyFiles path attrs k s c
          rw [heq] at h
          obtain ⟨hsize, hnext, -⟩ := fetchChunk_fetched heq
          have hids := ih hnodup (by rwa [hsize]) h
          rw [IdsLeft, missingChunks_fetched hk heq, hnext] at hids
          intro _
          rw [missingChunks_cons_missing hcached, List.length_cons]
          by_cases hnone : s.missingChunks path attrs ks = []
          · rw [hnone]
            simpa using hid
          · have hlt := hids hnone
            omega

/-! ## The calls of the store -/

/-- No check of `Store::read` fails, whatever the remote answers. -/
def ReadSafe (path : RemotePath) (attrs : FileAttributes) (offset : UInt64) (size : UInt32)
    (s : Store) : Prop :=
  ∀ (ρ : Type) (R : RemoteFilesystem ρ) (c : Conn ρ), R.Bounded →
    readChecked R path attrs offset size s c ≠ none

/-- No check of `Store::read_cached` fails. -/
def ReadCachedSafe (path : RemotePath) (offset : UInt64) (size : UInt32) (s : Store) : Prop :=
  readCachedChecked path offset size s ≠ none

/-- The last chunk of the range of a read ends within `u64`. -/
def LastChunkFits (offset : UInt64) (size : UInt32) (fileSize : UInt64) (s : Store) : Prop :=
  ChunkFits ((readStop offset size fileSize - 1) / s.chunkSize) s.chunkSize

/-- The read is empty, or the last chunk of its range ends within `u64` and there are ids for
the chunks that it has to fetch. -/
def ReadFits (path : RemotePath) (attrs : FileAttributes) (offset : UInt64) (size : UInt32)
    (s : Store) : Prop :=
  size ≠ 0 → offset < attrs.size → s.LastChunkFits offset size attrs.size ∧
    s.IdsLeft path attrs
      (chunkRange offset.toNat (readStop offset size attrs.size) s.chunkSize)

/-- The last chunk of the range ends within `u64`, if the whole range is cached. -/
def ReadCachedFits (path : RemotePath) (offset : UInt64) (size : UInt32) (s : Store) : Prop :=
  ∀ content, s.content path.asStr = some content → content.chunkSize = s.chunkSize →
    size ≠ 0 → offset < content.size →
    (∀ k ∈ chunkRange offset.toNat (readStop offset size content.size) s.chunkSize,
      content.chunks.lookup k ≠ none) → s.LastChunkFits offset size content.size

lemma readStop_lt (offset : UInt64) (size : UInt32) (fileSize : UInt64) :
    readStop offset size fileSize < 2 ^ 64 := by
  have := fileSize.toNat_lt
  unfold readStop
  omega

/-- Where no check fails, the read is the one with the exact numbers. -/
lemma readChecked_eq (hR : R.Bounded) {offset : UInt64} {size : UInt32} (c : Conn ρ)
    (h : s.ReadFits path attrs offset size) :
    readChecked R path attrs offset size s c = some (s.read R path attrs offset size c) := by
  rw [readChecked, read]
  by_cases hempty : size = 0 ∨ attrs.size ≤ offset
  · rw [if_pos hempty, if_pos hempty]
  · rw [if_neg hempty, if_neg hempty]
    obtain ⟨hsize, hoffset⟩ := not_or.mp hempty
    obtain ⟨hlast, hids⟩ := h hsize (UInt64.not_le.mp hoffset)
    obtain ⟨hlt, hstop, hsmall⟩ := readStop_spec hsize (UInt64.not_le.mp hoffset)
    have hrange : chunkRangeChecked offset.toNat _ s.chunkSize = _ :=
      chunkRangeChecked_eq (Nat.zero_lt_of_lt hlt)
    have hfetch : fetchMissingChecked R path attrs _ s c = _ := fetchMissingChecked_eq hR
      (chunkRange offset.toNat (readStop offset size attrs.size) s.chunkSize) c
      (chunkRange_nodup _ _ _) (fun k hk => by
        have := (mem_chunkRange s.chunkSize_pos hlt hk).1
        omega) hids
    have hframe := (fetchMissing_frame (R := R) path attrs
      (chunkRange offset.toNat (readStop offset size attrs.size) s.chunkSize) s c).1.chunkSize
    simp only [Option.bind_eq_bind, hrange, Option.bind_some, hfetch]
    generalize fetchMissing R path attrs (chunkRange offset.toNat
      (readStop offset size attrs.size) s.chunkSize) s c = x at hframe ⊢
    obtain ⟨answer, t, c'⟩ := x
    simp only at hframe
    cases answer with
    | error e => rfl
    | ok _ =>
        have hassembled : t.readCachedRangeChecked path _ _ = _ := readCachedRangeChecked_eq hlt
          hsmall (readStop_lt offset size attrs.size) fun chunks _ _ => by
            rw [hframe]
            exact hlast
        simp only [hassembled, Option.bind_some]
        rfl

lemma fits_of_readSafe (hs : Kept s) {offset : UInt64} {size : UInt32}
    (h : s.ReadSafe path attrs offset size) : s.ReadFits path attrs offset size := by
  intro hsize hoffset
  obtain ⟨y, hsafe⟩ := Option.ne_none_iff_exists'.mp
    (h Unit emptyFiles ⟨(), 0, []⟩ bounded_emptyFiles)
  obtain ⟨hlt, hstop, hsmall⟩ := readStop_spec hsize hoffset
  have hrange : ∀ k ∈ chunkRange offset.toNat (readStop offset size attrs.size) s.chunkSize,
      k * s.chunkSize < attrs.size.toNat := fun k hk => by
    have := (mem_chunkRange s.chunkSize_pos hlt hk).1
    omega
  rw [readChecked, if_neg (not_or.mpr ⟨hsize, UInt64.not_le.mpr hoffset⟩)] at hsafe
  obtain ⟨range, heq, hsafe⟩ := Option.bind_eq_some_iff.mp hsafe
  rw [chunkRangeChecked_eq (by omega)] at heq
  obtain rfl := Option.some.inj heq
  obtain ⟨x, hfetch, hsafe⟩ := Option.bind_eq_some_iff.mp hsafe
  have hids := idsLeft_of_checked (chunkRange_nodup _ _ _) hrange hfetch
  refine ⟨?_, hids⟩
  rw [fetchMissingChecked_eq bounded_emptyFiles _ _ (chunkRange_nodup _ _ _) hrange hids] at hfetch
  obtain rfl := Option.some.inj hfetch
  -- all chunks have been fetched, so the assembly comes to the last one
  have hok := fetchMissing_emptyFiles path attrs
    (chunkRange offset.toNat (readStop offset size attrs.size) s.chunkSize) s ⟨(), 0, []⟩
  obtain ⟨hkept, -, hall⟩ := fetchMissing_keeps (R := emptyFiles) path attrs
    (chunkRange offset.toNat (readStop offset size attrs.size) s.chunkSize) hs ⟨(), 0, []⟩
  have hframe := (fetchMissing_frame (R := emptyFiles) path attrs
    (chunkRange offset.toNat (readStop offset size attrs.size) s.chunkSize) s
    ⟨(), 0, []⟩).1.chunkSize
  have hall := hall hok
  generalize fetchMissing emptyFiles path attrs (chunkRange offset.toNat
    (readStop offset size attrs.size) s.chunkSize) s ⟨(), 0, []⟩ = x at hok hkept hall hframe hsafe
  obtain ⟨answer, t, c'⟩ := x
  simp only at hok hkept hall hframe
  subst hok
  obtain ⟨y, hassembled, -⟩ := Option.bind_eq_some_iff.mp hsafe
  obtain ⟨chunks, hmap, hlook⟩ := chunkMap_of_cached
    (hall _ (last_mem_chunkRange s.chunkSize_pos hlt))
  rw [LastChunkFits, ← hframe]
  refine readCachedRangeChecked_fits hlt hmap (fun k hk => ?_) hassembled
  rw [hframe] at hk
  obtain ⟨o, ho⟩ := Option.ne_none_iff_exists'.mp (hall k hk)
  obtain ⟨content, hr, -⟩ := recorded_of_cachedChunk ho
  obtain ⟨b, hb, -⟩ := hkept.good _ _ _ _ hr
  exact ⟨o, b, by rw [hlook, ho], hb⟩

lemma readSafe_iff (hs : Kept s) (path : RemotePath) (attrs : FileAttributes) (offset : UInt64)
    (size : UInt32) :
    s.ReadSafe path attrs offset size ↔ s.ReadFits path attrs offset size := by
  refine ⟨fits_of_readSafe hs, fun h ρ R c hR => ?_⟩
  rw [readChecked_eq hR c h]
  exact Option.some_ne_none _

/-- Where no check fails, the cached read is the one with the exact numbers. -/
lemma readCachedChecked_eq {offset : UInt64} {size : UInt32}
    (h : s.ReadCachedFits path offset size) :
    readCachedChecked path offset size s = some (s.readCached path offset size) := by
  rw [readCachedChecked, readCached]
  cases hcontent : s.content path.asStr with
  | none => rfl
  | some content =>
      simp only
      by_cases hcs : content.chunkSize = s.chunkSize
      · rw [if_pos hcs, if_pos hcs]
        by_cases hempty : size = 0 ∨ content.size ≤ offset
        · rw [if_pos hempty, if_pos hempty]
        · rw [if_neg hempty, if_neg hempty]
          obtain ⟨hsize, hoffset⟩ := not_or.mp hempty
          obtain ⟨hlt, -, hsmall⟩ := readStop_spec hsize (UInt64.not_le.mp hoffset)
          refine readCachedRangeChecked_eq hlt hsmall (readStop_lt _ _ _) fun chunks hchunks => ?_
          have hmap : s.chunkMap path = .ok content.chunks := by simp [chunkMap, hcontent, hcs]
          cases hmap.symm.trans hchunks
          exact h content hcontent hcs hsize (UInt64.not_le.mp hoffset)
      · rw [if_neg hcs, if_neg hcs]

lemma fits_of_readCachedSafe (hs : Kept s) {offset : UInt64} {size : UInt32}
    (h : s.ReadCachedSafe path offset size) : s.ReadCachedFits path offset size := by
  intro content hcontent hcs hsize hoffset hall
  obtain ⟨hlt, -, -⟩ := readStop_spec hsize hoffset
  have hmap : s.chunkMap path = .ok content.chunks := by simp [chunkMap, hcontent, hcs]
  obtain ⟨x, hx⟩ := Option.ne_none_iff_exists'.mp h
  simp only [readCachedChecked, hcontent] at hx
  rw [if_pos hcs, if_neg (not_or.mpr ⟨hsize, UInt64.not_le.mpr hoffset⟩)] at hx
  refine readCachedRangeChecked_fits hlt hmap (fun k hk => ?_) hx
  obtain ⟨o, ho⟩ := Option.ne_none_iff_exists'.mp (hall k hk)
  obtain ⟨b, hb, -⟩ := hs.good _ _ _ _ ⟨hcontent, ho⟩
  exact ⟨o, b, ho, hb⟩

lemma readCachedSafe_iff (hs : Kept s) (path : RemotePath) (offset : UInt64) (size : UInt32) :
    s.ReadCachedSafe path offset size ↔ s.ReadCachedFits path offset size := by
  refine ⟨fits_of_readCachedSafe hs, fun h => ?_⟩
  rw [ReadCachedSafe, readCachedChecked_eq h]
  exact Option.some_ne_none _

end Store

namespace StoreWorld

/-- **The chunk arithmetic is safe, as long as the last chunk ends within `u64`.**  In every state
that a run of operations reaches, for every chunk size, file size, offset and length: no check of
a read fails at any remote if and only if the read is empty, or the last chunk of its range, taken
as full, ends below `2^64` and there are ids for the chunks to be fetched.  For a cached read the
end of the last chunk matters if the whole range is cached. -/
theorem arithmetic_safe_iff {ρ : Type} {R : RemoteFilesystem ρ} (chunkSize : UInt64)
    (conn : Conn ρ) (es : List (SessionEvent ρ)) (path : RemotePath) (offset : UInt64)
    (size : UInt32) :
    (∀ attrs, (run (session R) (start chunkSize conn) es).store.ReadSafe path attrs offset size ↔
      (run (session R) (start chunkSize conn) es).store.ReadFits path attrs offset size) ∧
    ((run (session R) (start chunkSize conn) es).store.ReadCachedSafe path offset size ↔
      (run (session R) (start chunkSize conn) es).store.ReadCachedFits path offset size) := by
  have hs := (durable_run (R := R) chunkSize conn es).1
  exact ⟨fun attrs => Store.readSafe_iff hs path attrs offset size,
    Store.readCachedSafe_iff hs path offset size⟩

/-- The last byte of a file of `2^64 - 1` bytes, with the default chunk size. -/
theorem last_chunk_overflows : ¬ (Store.new Disk.empty 4194304).ReadSafe fileF
    (attrsF 18446744073709551615 1) 18446744073709551614 1 := by
  intro h
  have hkept : (Store.new Disk.empty 4194304).Kept := Store.sound_new_empty 4194304
  have hfits := (Store.fits_of_readSafe hkept h (by decide +kernel) (by decide +kernel)).1
  unfold Store.LastChunkFits Store.ChunkFits at hfits
  exact absurd hfits (by decide +kernel)

end StoreWorld

end CacheShfs
