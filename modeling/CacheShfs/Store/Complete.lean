import CacheShfs.Store.Reopen
import CacheShfs.Store.Offline

/-!
# Chunks that are cached whole

The download loop ends where the remote answers a read with no bytes, and what has arrived is
recorded as the chunk all the same.  So an object holds its whole chunk exactly if the remote
fills it: every answer has at least one byte, and none goes beyond the end of the chunk
(`Fills`).

A range read puts the pieces of its chunks one after another without looking at their lengths.
Where every fetch has been filled, the byte at a position of the result is the cached byte of that
position of the file (`chunks_whole`).  After a short chunk it is one of a later chunk
(`short_chunk_shifts`).
-/

namespace CacheShfs

open Machine

/-- The answer to one read of a download: some bytes, that end inside the chunk they start in. -/
def Fills (attrs : FileAttributes) (chunkSize : ℕ) : RemoteCall → Prop
  | .read _ offset _ (.ok data) =>
      data ≠ [] ∧ offset + data.length ≤ min attrs.size.toNat ((offset / chunkSize + 1) * chunkSize)
  | _ => True

instance (attrs : FileAttributes) (chunkSize : ℕ) (call : RemoteCall) :
    Decidable (Fills attrs chunkSize call) :=
  match call with
  | .read _ _ _ (.ok _) => inferInstanceAs (Decidable (_ ∧ _))
  | .read _ _ _ (.error _) => isTrue trivial
  | .stat _ _ | .readDir _ _ | .write _ _ _ _ | .create _ _ _ | .mkdir _ _ _ | .unlink _ _
  | .rmdir _ _ | .rename _ _ _ | .setattr _ _ _ => isTrue trivial

/-- How many bytes a chunk has under a label. -/
def Label.chunkLen (l : Label) (k : ℕ) : ℕ := min (l.size.toNat - k * l.chunkSize) l.chunkSize

/-- The reading of the object invariant: every object has the length of its chunk. -/
def Whole (_ : Str) (l : Label) (k : ℕ) (b : Bytes) : Prop := b.length = l.chunkLen k

namespace Store

variable {ρ : Type} {R : RemoteFilesystem ρ} {s : Store}

/-- The byte that is cached for a position of the file. -/
def cachedByte (path : RemotePath) (position : ℕ) (s : Store) : Option UInt8 :=
  (s.content path.asStr).bind fun content =>
    (content.chunks.lookup (position / s.chunkSize)).bind fun object =>
      (s.object object).bind fun data => data[position % s.chunkSize]?

/-- Every byte of a result is the one cached for its position. -/
def ShowsCached (path : RemotePath) (offset : ℕ) (data : Bytes) (s : Store) : Prop :=
  ∀ i < data.length, s.cachedByte path (offset + i) = data[i]?

/-! ## One download -/

/-- An answer inside a chunk fills it if it is not empty and not too long. -/
lemma fills_iff {attrs : FileAttributes} {cs k filled n : ℕ} {path : RemotePath} {data : Bytes}
    (hfilled : filled < min (attrs.size.toNat - k * cs) cs) :
    Fills attrs cs (.read path (k * cs + filled) n (.ok data)) ↔
      data ≠ [] ∧ filled + data.length ≤ min (attrs.size.toNat - k * cs) cs := by
  have hpos : 0 < cs := by omega
  have hdiv : (k * cs + filled) / cs = k := by
    rw [Nat.mul_comm, Nat.mul_add_div hpos, Nat.div_eq_of_lt (by omega), Nat.add_zero]
  have hnext : (k + 1) * cs = k * cs + cs := Nat.succ_mul k cs
  rw [Fills, hdiv, hnext]
  refine and_congr_right fun _ => ?_
  omega

/-- **A download is as long as its chunk exactly if the remote fills the chunk.** -/
lemma download_length {path : RemotePath} {attrs : FileAttributes} {k : ℕ} {temp : TempName}
    {fuel filled : ℕ} {s s' : Store} {c c' : Conn ρ} {cs : ℕ}
    (h : download R path (k * cs) (min (attrs.size.toNat - k * cs) cs) temp fuel filled s c =
      (.ok (), s', c'))
    {b : Bytes} (htemp : s.disk.temps.lookup temp = some b) (hb : b.length = filled)
    (hle : filled ≤ min (attrs.size.toNat - k * cs) cs)
    (hfuel : min (attrs.size.toNat - k * cs) cs - filled ≤ fuel) :
    ∃ b', s'.disk.temps.lookup temp = some b' ∧
      (b'.length = min (attrs.size.toNat - k * cs) cs ↔ Conn.Asked (Fills attrs cs) c c') := by
  set len := min (attrs.size.toNat - k * cs) cs
  induction fuel generalizing filled s c b with
  | zero =>
      cases h
      exact ⟨b, htemp, iff_of_true (by omega) (.refl _)⟩
  | succ fuel ih =>
      rw [download] at h
      split at h
      · next hlt =>
          split at h
          · cases h
          · next data c₁ hread =>
              have hrecord := (Conn.read_eq hread).2
              have hcall : Fills attrs cs (.read path (k * cs + filled) (want len filled)
                  (.ok data)) ↔ data ≠ [] ∧ filled + data.length ≤ len := fills_iff hlt
              split at h
              · next hempty =>
                  -- the early end of file
                  cases h
                  refine ⟨b, htemp, iff_of_false (by omega) fun hask => ?_⟩
                  rw [hrecord, Conn.asked_record_iff, hcall] at hask
                  exact hask.1 hempty
              · next hdata =>
                  have htemp' : (s.emit (.appendTemp temp data)).disk.temps.lookup temp =
                      some (b ++ data) := by
                    rw [emit_disk, FsEffect.apply]
                    simp [htemp]
                  have hb' : (b ++ data).length = filled + data.length := by simp [hb]
                  have hdpos : 0 < data.length := List.length_pos_of_ne_nil hdata
                  have hgrows : ∃ calls, c'.log = calls ++ c₁.log := by
                    have hframe := (download_frame (R := R) path (k * cs) len temp fuel
                      (filled + data.length) (s.emit (.appendTemp temp data)) c₁).2.log
                    rw [h] at hframe
                    exact hframe.imp fun _ => And.left
                  have hfirst : Conn.Asked (Fills attrs cs) c c₁ ↔
                      data ≠ [] ∧ filled + data.length ≤ len := by
                    rw [hrecord, Conn.asked_record_iff, hcall]
                  rw [Conn.asked_trans_iff ⟨[_], by rw [hrecord]; rfl⟩ hgrows, hfirst]
                  by_cases hover : filled + data.length ≤ len
                  · obtain ⟨b', hout, hiff⟩ := ih htemp' hb' h hover (by omega)
                    exact ⟨b', hout, by simp [hiff, hdata, hover]⟩
                  · -- the loop ends with more bytes than the chunk has
                    have hend : s' = s.emit (.appendTemp temp data) := by
                      cases fuel with
                      | zero => cases h; rfl
                      | succ fuel =>
                          rw [download, if_neg (by omega)] at h
                          cases h
                          rfl
                    refine ⟨b ++ data, hend ▸ htemp', iff_of_false (by omega) fun hask => ?_⟩
                    exact hover hask.1.2
      · next hge =>
          cases h
          exact ⟨b, htemp, iff_of_true (by omega) (.refl _)⟩

/-! ## One fetch -/

/-- A fetch fails and leaves the cache as it is, or it records a new object, which is whole
exactly if the remote has filled the chunk. -/
lemma fetchChunk_cases {G : Str → Label → ℕ → Bytes → Prop} (hs : Sound G s) (path : RemotePath)
    (attrs : FileAttributes) (k : ℕ) (c : Conn ρ) :
    (∃ e s' c', s.fetchChunk R path attrs k c = (.error e, s', c') ∧ Sound G s') ∨
    ∃ s₁ c' b, s.fetchChunk R path attrs k c =
        (.ok s.index.nextObject, s₁.recordChunk path attrs k s.index.nextObject, c') ∧
      Sound G s₁ ∧ s₁.chunkSize = s.chunkSize ∧ s₁.Unreferenced s.index.nextObject ∧
      s.index.nextObject < s₁.index.nextObject ∧ s₁.object s.index.nextObject = some b ∧
      (b.length = (attrs.label s.chunkSize).chunkLen k ↔
        Conn.Asked (Fills attrs s.chunkSize) c c') := by
  unfold fetchChunk
  simp only
  set o := s.allocObject.1
  set s₁ := (s.allocObject.2.createTemp o).2
  set temp := (s.allocObject.2.createTemp o).1
  have hframe := (download_frame (R := R) path (k * s₁.chunkSize) (s₁.chunkLen attrs k) temp
    (s₁.chunkLen attrs k) 0 s₁ c).1
  split
  · next e s₂ c₂ heq =>
      rw [heq] at hframe
      have hsame : SameContents s₁ (s₂.emit (.removeTemp temp)) :=
        ⟨hframe.chunkSize, hframe.index, hframe.object⟩
      exact .inl ⟨e, _, c₂, rfl, (hs.downloaded hsame).1⟩
  · next s₂ c₂ heq =>
      obtain ⟨b, hb, hlength⟩ := download_length heq (AList.lookup_insert _) rfl (Nat.zero_le _)
        (Nat.sub_le _ _)
      rw [heq] at hframe
      have hframe : SameContents s₁ s₂ := hframe
      obtain ⟨hsound₂, hfree, hlt⟩ := hs.downloaded hframe
      refine .inr ⟨s₂.install temp o, c₂, b, rfl, hsound₂.install hfree temp, hframe.chunkSize,
        hfree, hlt, ?_, hlength⟩
      · rw [object_install, if_pos (show s.index.nextObject = o from rfl), hb, Option.getD_some]

/-- **A recorded object is whole exactly if the remote has filled the chunk.** -/
lemma fetchChunk_length {G : Str → Label → ℕ → Bytes → Prop} (hs : Sound G s) {path : RemotePath}
    {attrs : FileAttributes} {k o : ℕ} {s' : Store} {c c' : Conn ρ}
    (h : s.fetchChunk R path attrs k c = (.ok o, s', c')) :
    (∃ b, s'.object o = some b ∧ b.length = (attrs.label s.chunkSize).chunkLen k) ↔
      Conn.Asked (Fills attrs s.chunkSize) c c' := by
  rcases fetchChunk_cases (R := R) hs path attrs k c with
    ⟨e, s₁, c₁, heq, -⟩ | ⟨s₁, c₁, b, heq, hs₁, -, hfree, -, hb, hlength⟩
  · rw [heq] at h
    cases h
  · rw [heq] at h
    cases h
    have hobject : (s₁.recordChunk path attrs k s.index.nextObject).object s.index.nextObject =
        some b := by
      rw [object_recordChunk, if_neg, hb]
      intro hmem
      obtain ⟨content, j, hr, -⟩ := hs₁.recorded_of_mem_recordDeletes hmem
      exact hfree _ _ _ hr
    rw [← hlength]
    constructor
    · rintro ⟨b', hb', hlen⟩
      rw [hobject] at hb'
      cases hb'
      exact hlen
    · exact fun hlen => ⟨b, hobject, hlen⟩

lemma fetchChunk_whole (hs : Sound Whole s) (path : RemotePath) (attrs : FileAttributes) (k : ℕ)
    (c : Conn ρ)
    (hfill : Conn.Asked (Fills attrs s.chunkSize) c (s.fetchChunk R path attrs k c).2.2) :
    Sound Whole (s.fetchChunk R path attrs k c).2.1 := by
  rcases fetchChunk_cases (R := R) hs path attrs k c with
    ⟨e, s₁, c₁, heq, hs₁⟩ | ⟨s₁, c₁, b, heq, hs₁, hcs, hfree, hlt, hb, hlength⟩
  · rw [heq]
    exact hs₁
  · rw [heq] at hfill ⊢
    refine hs₁.recordChunk hfree hlt hb ?_
    rw [hcs]
    exact hlength.mpr hfill

lemma fetchMissing_whole (path : RemotePath) (attrs : FileAttributes) (ks : List ℕ) {s : Store}
    (hs : Sound Whole s) (c : Conn ρ)
    (hfill : Conn.Asked (Fills attrs s.chunkSize) c (fetchMissing R path attrs ks s c).2.2) :
    Sound Whole (fetchMissing R path attrs ks s c).2.1 := by
  induction ks generalizing s c with
  | nil => exact hs
  | cons k ks ih =>
      rw [fetchMissing] at hfill ⊢
      split at hfill
      · next o ho => exact ih hs c hfill
      · next ho =>
          have hframe := fetchChunk_frame (R := R) path attrs k s c
          have hwhole := fetchChunk_whole (R := R) hs path attrs k c
          split at hfill
          · next o s₁ c₁ heq =>
              rw [heq] at hframe hwhole
              have hcs : s₁.chunkSize = s.chunkSize := hframe.1.chunkSize
              have hrest := (fetchMissing_frame (R := R) path attrs ks s₁ c₁).2.log
              rw [Conn.asked_trans_iff (hframe.2.log.imp fun _ => And.left)
                (hrest.imp fun _ => And.left)] at hfill
              exact ih (hwhole hfill.1) c₁ (hcs ▸ hfill.2)
          · next e s₁ c₁ heq =>
              rw [heq] at hwhole
              exact hwhole hfill

/-- A read all of whose fetches are filled keeps the chunks whole. -/
lemma read_whole (hs : Sound Whole s) (path : RemotePath) (attrs : FileAttributes)
    (offset : UInt64) (size : UInt32) (c : Conn ρ)
    (hfill : Conn.Asked (Fills attrs s.chunkSize) c (s.read R path attrs offset size c).2.2) :
    Sound Whole (s.read R path attrs offset size c).2.1 := by
  have hwhole := fetchMissing_whole (R := R) path attrs
    (chunkRange offset.toNat (readStop offset size attrs.size) s.chunkSize) hs c
  unfold read at hfill ⊢
  split
  · exact hs
  · next hempty =>
      simp only [hempty, if_false] at hfill
      split at hfill
      · next s₁ c₁ heq =>
          rw [heq] at hwhole
          simpa [heq] using hwhole hfill
      · next e s₁ c₁ heq =>
          rw [heq] at hwhole
          simpa [heq] using hwhole hfill

/-! ## One range read -/

lemma ShowsCached.append {path : RemotePath} {m : ℕ} {xs ys : Bytes}
    (hx : ShowsCached path m xs s) (hy : ShowsCached path (m + xs.length) ys s) :
    ShowsCached path m (xs ++ ys) s := by
  intro i hi
  rw [List.length_append] at hi
  by_cases hlt : i < xs.length
  · rw [List.getElem?_append_left hlt]
    exact hx i hlt
  · have hrest := hy (i - xs.length) (by omega)
    rw [show m + xs.length + (i - xs.length) = m + i by omega] at hrest
    rw [List.getElem?_append_right (by omega)]
    exact hrest

section Range

variable {path : RemotePath} {content : ContentRef} (hs : Sound Whole s)
  (hc : s.content path.asStr = some content) (hcs : content.chunkSize = s.chunkSize)
include hs hc hcs

/-- A piece from a whole chunk shows cached bytes, and reaches the end of its chunk unless the
range ends there. -/
lemma readPiece_whole {k offset stop : ℕ} {piece : Bytes}
    (hoffset : offset < k * s.chunkSize + s.chunkSize)
    (h : s.readPiece content.chunks offset stop k = .ok piece) :
    ShowsCached path (max offset (k * s.chunkSize)) piece s ∧
      (k * s.chunkSize + s.chunkSize < stop → stop ≤ content.size.toNat → stop - offset < 2 ^ 32 →
        piece.length = k * s.chunkSize + s.chunkSize - max offset (k * s.chunkSize)) := by
  have hpos := s.chunkSize_pos
  have hcslt := s.chunkSize_lt
  unfold readPiece at h
  split at h
  · next o ho =>
      obtain ⟨b, hb, hwhole⟩ := hs.good path.asStr content k o ⟨hc, ho⟩
      have hlen : b.length = min (content.size.toNat - k * s.chunkSize) s.chunkSize := by
        rw [← hcs]
        exact hwhole
      have hposition : ∀ i < s.chunkSize, (k * s.chunkSize + i) / s.chunkSize = k ∧
          (k * s.chunkSize + i) % s.chunkSize = i := fun i hi =>
        ⟨by rw [Nat.mul_comm, Nat.mul_add_div hpos, Nat.div_eq_of_lt hi, Nat.add_zero],
          by rw [Nat.mul_comm, Nat.mul_add_mod, Nat.mod_eq_of_lt hi]⟩
      simp only [readObject, hb, Except.ok.injEq] at h
      subst h
      generalize k * s.chunkSize = start at *
      refine ⟨fun i hi => ?_, fun hfull hstop hsmall => ?_⟩
      · simp only [List.length_take, List.length_drop] at hi
        -- position `max offset start + i` is byte `readStart + i` of the object
        obtain ⟨hdiv, hmod⟩ := hposition (max offset start - start + i) (by omega)
        rw [show start + (max offset start - start + i) = max offset start + i by omega]
          at hdiv hmod
        rw [cachedByte, hc, hdiv, hmod]
        simp only [Option.bind_some, ho, hb]
        rw [List.getElem?_take_of_lt (by omega), List.getElem?_drop]
      · have hsize := content.size.toNat_lt
        have hadd : wrapAdd start s.chunkSize = start + s.chunkSize := Nat.mod_eq_of_lt (by omega)
        have hend : wrapSub (min stop (wrapAdd start s.chunkSize)) start = s.chunkSize := by
          rw [hadd, wrapSub]
          omega
        have hsub : wrapSub s.chunkSize (max offset start - start) =
            start + s.chunkSize - max offset start := by
          rw [wrapSub]
          omega
        have hcast : asU32 (start + s.chunkSize - max offset start) =
            start + s.chunkSize - max offset start := Nat.mod_eq_of_lt (by omega)
        rw [hend, hsub, hcast, List.length_take, List.length_drop]
        omega
  · cases h

/-- The pieces of consecutive chunks, the last of which is the one the range ends in. -/
lemma readPieces_whole {offset stop n : ℕ} (hstop : stop ≤ content.size.toNat)
    (hsmall : stop - offset < 2 ^ 32) {k : ℕ} {data d : Bytes}
    (hoffset : offset < k * s.chunkSize + s.chunkSize) (hlast : (k + n) * s.chunkSize < stop)
    (h : s.readPieces content.chunks offset stop (List.range' k (n + 1)) data = .ok d) :
    ∃ p, d = data ++ p ∧ ShowsCached path (max offset (k * s.chunkSize)) p s := by
  induction n generalizing k data with
  | zero =>
      simp only [List.range'_succ, readPieces] at h
      split at h
      · next piece hpiece =>
          simp only [List.range'_zero, readPieces, Except.ok.injEq] at h
          exact ⟨piece, h.symm, (readPiece_whole hs hc hcs hoffset hpiece).1⟩
      · cases h
  | succ n ih =>
      rw [List.range'_succ, readPieces] at h
      split at h
      · next piece hpiece =>
          have hmul : (k + 1) * s.chunkSize = k * s.chunkSize + s.chunkSize := Nat.succ_mul _ _
          have hle : (k + 1) * s.chunkSize ≤ (k + (n + 1)) * s.chunkSize :=
            Nat.mul_le_mul_right _ (by omega)
          obtain ⟨hshows, hlength⟩ := readPiece_whole hs hc hcs hoffset hpiece
          obtain ⟨p, rfl, hp⟩ := ih (by omega) (by rwa [Nat.add_right_comm]) h
          refine ⟨piece ++ p, by rw [List.append_assoc], hshows.append ?_⟩
          -- the next piece starts where this one ends
          have hlen := hlength (by omega) hstop hsmall
          have hnext : max offset (k * s.chunkSize) + piece.length =
              max offset ((k + 1) * s.chunkSize) := by
            have hpos := s.chunkSize_pos
            omega
          rwa [hnext]
      · cases h

/-- **A range of whole chunks shows the cached bytes.** -/
lemma readCachedRange_whole {offset stop : ℕ} {d : Bytes} (hlt : offset < stop)
    (hstop : stop ≤ content.size.toNat) (hsmall : stop - offset < 2 ^ 32)
    (h : s.readCachedRange path offset stop = .ok d) : ShowsCached path offset d s := by
  have hpos := s.chunkSize_pos
  have hmap : s.chunkMap path = .ok content.chunks := by simp [chunkMap, hc, hcs]
  have hle : offset / s.chunkSize ≤ (stop - 1) / s.chunkSize := Nat.div_le_div_right (by omega)
  have hcount : (stop - 1) / s.chunkSize + 1 - offset / s.chunkSize =
      (stop - 1) / s.chunkSize - offset / s.chunkSize + 1 := by omega
  rw [readCachedRange, hmap] at h
  simp only [chunkRange, max_eq_left (show 1 ≤ s.chunkSize from hpos), hcount] at h
  have hlast : (offset / s.chunkSize + ((stop - 1) / s.chunkSize - offset / s.chunkSize)) *
      s.chunkSize < stop := by
    rw [Nat.add_sub_cancel' hle]
    have := Nat.div_mul_le_self (stop - 1) s.chunkSize
    omega
  obtain ⟨p, rfl, hp⟩ := readPieces_whole hs hc hcs hstop hsmall
    (Nat.lt_div_mul_add hpos) hlast h
  rwa [max_eq_left (Nat.div_mul_le_self offset s.chunkSize)] at hp

end Range

lemma showsCached_nil (path : RemotePath) (offset : ℕ) (s : Store) :
    ShowsCached path offset [] s := by
  intro i hi
  cases hi

lemma readCached_whole (hs : Sound Whole s) {path : RemotePath} {offset : UInt64} {size : UInt32}
    {d : Bytes} (h : s.readCached path offset size = .ok d) :
    ShowsCached path offset.toNat d s := by
  unfold readCached at h
  split at h
  · next content hc =>
      split at h
      · next hcs =>
          split at h
          · cases h
            exact showsCached_nil _ _ _
          · next hempty =>
              simp only [not_or, UInt64.not_le] at hempty
              obtain ⟨hlt, hstop, hsmall⟩ := readStop_spec hempty.1 hempty.2
              exact readCachedRange_whole hs hc hcs hlt (by omega) hsmall h
      · cases h
  · cases h

lemma read_showsCached (hs : Sound Whole s) {path : RemotePath} {attrs : FileAttributes}
    {offset : UInt64} {size : UInt32} {c : Conn ρ}
    (hfill : Conn.Asked (Fills attrs s.chunkSize) c (s.read R path attrs offset size c).2.2)
    {d : Bytes} (h : (s.read R path attrs offset size c).1 = .ok d) :
    ShowsCached path offset.toNat d (s.read R path attrs offset size c).2.1 := by
  have hwhole := read_whole hs path attrs offset size c hfill
  by_cases hempty : size = 0 ∨ attrs.size ≤ offset
  · simp only [read, hempty, if_true, Except.ok.injEq] at h
    rw [← h]
    exact showsCached_nil _ _ _
  · simp only [not_or, UInt64.not_le] at hempty
    obtain ⟨hlt, hstop, hsmall⟩ := readStop_spec hempty.1 hempty.2
    obtain ⟨hkeep, hall⟩ := read_keeps (R := R) path attrs offset size
      (hs.mono fun _ _ _ _ _ _ => trivial) c
    obtain ⟨hcached, hrange⟩ := hall d h hempty.1 hempty.2
    -- the range has a chunk, so the content reference has the label of the read
    obtain ⟨k, hk⟩ := List.exists_mem_of_ne_nil _ (chunkRange_ne_nil s.chunkSize_pos hlt)
    obtain ⟨o, ho⟩ := Option.ne_none_iff_exists'.mp (hcached k hk)
    obtain ⟨content, hr, hlabel⟩ := recorded_of_cachedChunk ho
    have hsize : content.size = attrs.size := congrArg Label.size hlabel
    refine readCachedRange_whole hwhole hr.1 (congrArg Label.chunkSize hlabel) hlt ?_ hsmall hrange
    rw [hsize]
    omega

end Store

/-! ## Whole runs -/

namespace StoreWorld

variable {ρ : Type} {R : RemoteFilesystem ρ}

/-- The remote fills the chunks that a read fetches. -/
def FillsChunks (R : RemoteFilesystem ρ) (w : StoreWorld ρ) : SessionEvent ρ → Prop
  | .op (.read path attrs offset size) => Conn.Asked (Fills attrs w.store.chunkSize) w.conn
      (w.store.read R path attrs offset size w.conn).2.2
  | _ => True

/-- The results of reads show the cached bytes, each at its position. -/
def ReadsCached (R : RemoteFilesystem ρ) (w : StoreWorld ρ) : SessionEvent ρ → Prop
  | .op (.read path attrs offset size) => ∀ d,
      (w.store.read R path attrs offset size w.conn).1 = .ok d →
      (w.store.read R path attrs offset size w.conn).2.1.ShowsCached path offset.toNat d
  | .op (.readCached path offset size) => ∀ d, w.store.readCached path offset size = .ok d →
      w.store.ShowsCached path offset.toNat d
  | _ => True

lemma whole_session (w : StoreWorld ρ) (e : SessionEvent ρ) (he : w.FillsChunks R e)
    (h : w.store.Sound Whole ∧ w.store.Durable) :
    (w.session R e).store.Sound Whole ∧ (w.session R e).store.Durable := by
  refine ⟨?_, durable_session w e h.2⟩
  obtain ⟨hs, hd⟩ := h
  cases e with
  | op e =>
      cases e with
      | putAttrs path attrs => exact hs.putAttrs path attrs
      | recordListing parent children => exact hs.recordListing parent children
      | invalidateContent path => exact hs.invalidateContent path
      | invalidateChildren path => exact hs.invalidateChildren path
      | remove path => exact hs.remove path
      | rename src dst =>
          exact hs.rename (fun _ _ _ _ h => h) (fun _ _ _ _ _ h => h) fun _ _ _ _ _ _ _ _ h => h
      | read path attrs offset size => exact Store.read_whole hs path attrs offset size w.conn he
      | readCached path offset size => exact hs
      | external remote => exact hs
  | reopen chunkSize => exact (hd.2.reopens hs chunkSize).1

/-- **A chunk is cached whole exactly if the remote fills it.**  In every state of every run from
an empty directory, over any number of sessions, a fetch that succeeds has recorded an object of
the length of its chunk exactly if the remote answered none of its reads with no bytes or with
bytes beyond the chunk.  In every run whose reads are all answered so, every byte of a result is
the byte that is cached for its position of the file. -/
theorem chunks_whole (chunkSize : UInt64) (conn : Conn ρ) (es : List (SessionEvent ρ)) :
    (∀ w, Visits (session R) (start chunkSize conn) es w → ∀ path attrs k c o s' c',
      w.store.fetchChunk R path attrs k c = (.ok o, s', c') →
      ((∃ b, s'.object o = some b ∧
          b.length = min (attrs.size.toNat - k * w.store.chunkSize) w.store.chunkSize) ↔
        Conn.Asked (Fills attrs w.store.chunkSize) c c')) ∧
    (AllSteps (session R) (FillsChunks R) (start chunkSize conn) es →
      AllSteps (session R) (ReadsCached R) (start chunkSize conn) es) := by
  constructor
  · intro w hw path attrs k c o s' c' h
    have hd : w.store.Durable := visits_of_step durable_session (durable_start chunkSize conn) hw
    exact Store.fetchChunk_length hd.1 h
  · refine allSteps_of_invariant (fun w e he h => whole_session w e he h) (fun w e he h => ?_)
      ⟨Store.sound_new_empty chunkSize, durable_start chunkSize conn⟩
    cases e with
    | op e =>
        cases e with
        | read path attrs offset size => exact fun d hd => Store.read_showsCached h.1 he hd
        | readCached path offset size => exact fun d hd => Store.readCached_whole h.1 hd
        | _ => trivial
    | reopen _ => trivial

/-! A file of eight bytes shrinks to three while its first chunk is fetched, and grows again. -/

lemma shrunk_fits : (RemoteNode.file [1, 2, 3] (some 1)).Fits := by decide

def shrunk : Memory := oneFile [1, 2, 3] (some 1) shrunk_fits

def regrown : Memory := oneFile [1, 2, 3, 4, 5, 6, 7, 8] (some 1) (by decide)

/-- The first chunk is fetched while the file is short. -/
def shortRun : List (SessionEvent Memory) :=
  [.op (.read fileF (attrsF 8 1) 0 4), .op (.external regrown)]

/-- The object of the first chunk has three bytes, and byte three of the next read is the one at
position four of the file. -/
theorem short_chunk_shifts :
    let w := run (session Memory.filesystem) (start 4 ⟨shrunk, 0, []⟩) shortRun
    w.store.object 0 = some [1, 2, 3] ∧
      (w.store.read Memory.filesystem fileF (attrsF 8 1) 0 8 w.conn).1 =
        .ok [1, 2, 3, 5, 6, 7, 8] ∧
      ¬ ReadsCached Memory.filesystem w (.op (.read fileF (attrsF 8 1) 0 8)) := by
  intro w
  have hread : (w.store.read Memory.filesystem fileF (attrsF 8 1) 0 8 w.conn).1 =
      .ok [1, 2, 3, 5, 6, 7, 8] := by decide
  refine ⟨by decide, hread, fun h => ?_⟩
  have hthree := h _ hread 3 (by decide)
  revert hthree
  decide

/-- The same reads over the file at its full length. -/
theorem chunks_whole_regrown :
    ReadsCached Memory.filesystem (start 4 ⟨regrown, 0, []⟩)
      (.op (.read fileF (attrsF 8 1) 0 8)) := by
  refine ((chunks_whole 4 ⟨regrown, 0, []⟩ [.op (.read fileF (attrsF 8 1) 0 8)]).2 ⟨?_, trivial⟩).1
  refine ⟨((start 4 ⟨regrown, 0, []⟩).store.read Memory.filesystem fileF (attrsF 8 1) 0 8
    ⟨regrown, 0, []⟩).2.2.log, by simp [start], ?_⟩
  decide

end StoreWorld

end CacheShfs
