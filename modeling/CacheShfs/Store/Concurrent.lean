import CacheShfs.Store.Tasks
import Mathlib.Data.Fintype.Basic

/-!
# Concurrent reads of one file

Any number of reads of one path, in any interleaving of their steps.  The chunk invariant `Sound`
is kept throughout, and each read has its own assertion:

* `Owned`: the object that it has allocated is referred to by no chunk and belongs to no other
  read;
* `Serves`: the chunks it has passed are cached, what it has downloaded are bytes of the file, and
  the objects of its snapshot that it still has to open are there.

The last part is the one that another read can break: two reads that both miss a chunk both
download it, and the second one to record it deletes the object of the first, which a snapshot may
name.  A run without this (`KeepsSnapshots`) returns the right bytes to every read
(`reads_agree`).
-/

namespace CacheShfs

open Interleave Machine Slice

namespace Store

/-! ## What a step leaves to the others -/

/-- What a step of a task that owns `mine` leaves alone: the objects and temp files of others. -/
structure Respects (mine : Option ℕ) (s s' : Store) : Prop where
  chunkSize : s'.chunkSize = s.chunkSize
  next : s.index.nextObject ≤ s'.index.nextObject
  free : ∀ o, o < s.index.nextObject → mine ≠ some o → s.Unreferenced o → s'.Unreferenced o
  object : ∀ o, mine ≠ some o → s.Unreferenced o → s'.object o = s.object o
  temp : ∀ t : TempName, mine ≠ some t.1 → s'.disk.temps.lookup t = s.disk.temps.lookup t

lemma Respects.refl (mine : Option ℕ) (s : Store) : Respects mine s s :=
  ⟨rfl, le_refl _, fun _ _ _ h => h, fun _ _ _ => rfl, fun _ _ => rfl⟩

/-- A change of temp files of the object that the task owns. -/
lemma respects_temps {mine : ℕ} {s s' : Store} (hsize : s'.chunkSize = s.chunkSize)
    (hindex : s'.index = s.index) (hobjects : s'.disk.objects = s.disk.objects)
    (htemp : ∀ t : TempName, t.1 ≠ mine → s'.disk.temps.lookup t = s.disk.temps.lookup t) :
    Respects (some mine) s s' where
  chunkSize := hsize
  next := le_of_eq (by rw [hindex])
  free o _ _ h key c k hr := h key c k ⟨by rw [content_eq, ← hindex]; exact hr.1, hr.2⟩
  object o _ _ := by rw [Store.object, hobjects]; rfl
  temp t ht := htemp t fun heq => ht (by rw [heq])

lemma respects_alloc (s : Store) : Respects none s s.allocObject.2 where
  chunkSize := rfl
  next := Nat.le_succ _
  free _ _ _ h := h
  object _ _ _ := rfl
  temp _ _ := rfl

lemma respects_install (s : Store) (temp : TempName) :
    Respects (some temp.1) s (s.install temp temp.1) where
  chunkSize := rfl
  next := le_refl _
  free _ _ _ h := h
  object o ho _ := by
    rw [object_install, if_neg]
    rintro rfl
    exact ho rfl
  temp t ht := by
    refine (FMap.lookup_erase_eq_ite _ _ _).trans (if_neg ?_)
    rintro rfl
    exact ht rfl

/-- Dropping content leaves everything alone to which no chunk refers. -/
lemma Sound.respects_shrinks {G : Str → Label → ℕ → Bytes → Prop} {s s' : Store} (h : Sound G s)
    (hs : s.Shrinks s') (hsize : s'.chunkSize = s.chunkSize)
    (htemps : s'.disk.temps = s.disk.temps) : Respects none s s' := by
  obtain ⟨orphans, hd, hobj⟩ := hs
  refine ⟨hsize, le_of_eq hd.next.symm, fun o _ _ hfree key c k hr => ?_, fun o _ hfree => ?_,
    fun t _ => by rw [htemps]⟩
  · exact hfree key c k ⟨hd.kept key c hr.1, hr.2⟩
  · rw [hobj, if_neg]
    intro ho
    obtain ⟨key, c, hc, hmem, -⟩ := hd.orphan o ho
    obtain ⟨k, hk⟩ := (h.mem_contentObjects hc).mp hmem
    exact hfree key c k ⟨hc, hk⟩

lemma persistIf_temps (changed : Bool) (s : Store) :
    (s.persistIf changed).disk.temps = s.disk.temps := by
  cases changed <;> rfl

section
variable {G : Str → Label → ℕ → Bytes → Prop} {s : Store} (h : Sound G s) (path : RemotePath)
include h

lemma Sound.respects_putAttrs (attrs : FileAttributes) :
    Respects none s (s.putAttrs path attrs) := by
  refine h.respects_shrinks (shrinks_putAttrs path attrs s) (putAttrs_chunkSize _ _ _) ?_
  rw [Store.putAttrs, removeObjects_temps]
  rfl

lemma Sound.respects_recordListing (children : List (Str × FileAttributes)) :
    Respects none s (s.recordListing path children) := by
  refine h.respects_shrinks (shrinks_recordListing path children s)
    (recordListing_chunkSize _ _ _) ?_
  rw [Store.recordListing, removeObjects_temps]
  rfl

lemma Sound.respects_rename (dst : RemotePath) : Respects none s (s.rename path dst) where
  chunkSize := rename_chunkSize _ _ _
  next := le_of_eq (rename_nextObject path dst s).symm
  free o _ _ hfree key c k hr := by
    obtain ⟨old, hold⟩ := rename_origin hr.1
    exact hfree old c k ⟨hold, hr.2⟩
  object o _ hfree := by
    rcases object_rename path dst o with hsame | ⟨-, key, c, hc, hmem⟩
    · exact hsame
    · obtain ⟨k, hk⟩ := (h.mem_contentObjects hc).mp hmem
      exact absurd ⟨hc, hk⟩ (hfree key c k)
  temp t _ := by
    rw [Store.rename, removeObjects_temps]
    rfl

lemma Sound.respects_remove : Respects none s (s.remove path) := by
  refine h.respects_shrinks (shrinks_remove path s) (remove_chunkSize _ _) ?_
  rw [Store.remove, removeObjects_temps, persistIf_temps]
  rfl

lemma Sound.respects_invalidateContent : Respects none s (s.invalidateContent path) := by
  refine h.respects_shrinks (shrinks_invalidateContent path s) (invalidateContent_chunkSize _ _) ?_
  unfold Store.invalidateContent
  split
  · rw [removeObjects_temps, persistIf_temps]
    rfl
  · rfl

lemma Sound.respects_invalidateChildren : Respects none s (s.invalidateChildren path) := by
  refine h.respects_shrinks (shrinks_invalidateChildren path s)
    (invalidateChildren_chunkSize _ _) ?_
  rw [Store.invalidateChildren, persistIf_temps]
  rfl

end

lemma recordChunk_temps (path : RemotePath) (attrs : FileAttributes) (k o : ℕ) (s : Store) :
    (s.recordChunk path attrs k o).disk.temps = s.disk.temps := by
  simp [recordChunk, persist, FsEffect.apply]

lemma Sound.respects_record {G : Str → Label → ℕ → Bytes → Prop} {s : Store} (h : Sound G s)
    (path : RemotePath) (attrs : FileAttributes) (k o : ℕ) :
    Respects (some o) s (s.recordChunk path attrs k o) where
  chunkSize := recordChunk_chunkSize _ _ _ _ _
  next := le_of_eq (recordChunk_nextObject _ _ _ _ _).symm
  free x _ hx hfree key c k' hr := by
    rcases recorded_recordChunk hr with ⟨-, -, rfl, -⟩ | ⟨c₀, hr₀, -, -⟩
    · exact hx rfl
    · exact hfree key c₀ k' hr₀
  object x _ hfree := by
    rw [object_recordChunk, if_neg]
    intro hmem
    obtain ⟨c, k', hr, -⟩ := h.recorded_of_mem_recordDeletes hmem
    exact hfree _ _ _ hr
  temp t _ := by rw [recordChunk_temps]

end Store

namespace ReadTask

variable {ρ : Type} {R : RemoteFilesystem ρ} {G : Str → Label → ℕ → Bytes → Prop}

/-! ## Objects in progress -/

/-- The object that a read has allocated and not yet recorded. -/
def owns (pc : ReadPc) : Option ℕ :=
  match pc with
  | .create _ _ object => some object
  | .fill _ _ object _ _ => some object
  | .install _ _ object _ => some object
  | .record _ _ object => some object
  | _ => none

/-- What holds of the object that a read owns: no chunk refers to it, its temp file is named
after it, and it is there once it has been installed. -/
structure Owned (pc : ReadPc) (s : Store) : Prop where
  free : ∀ o, owns pc = some o → o < s.index.nextObject ∧ s.Unreferenced o
  fill : ∀ chunk rest object temp filled, pc = .fill chunk rest object temp filled →
    temp.1 = object
  install : ∀ chunk rest object temp, pc = .install chunk rest object temp → temp.1 = object
  record : ∀ chunk rest object, pc = .record chunk rest object → s.object object ≠ none

/-- A read at a place where it owns nothing. -/
lemma owned_of_none {pc : ReadPc} (h : owns pc = none) (s : Store) : Owned pc s where
  free o ho := by rw [h] at ho; cases ho
  fill chunk rest object temp filled hpc := by rw [hpc] at h; cases h
  install chunk rest object temp hpc := by rw [hpc] at h; cases h
  record chunk rest object hpc := by rw [hpc] at h; cases h

lemma owns_start (a : ReadArgs) (chunkSize : ℕ) : owns (start a chunkSize).pc = none := by
  unfold start
  split <;> rfl

/-- A step of a task that owns something else. -/
lemma Owned.frame {pc : ReadPc} {s s' : Store} (h : Owned pc s) {mine : Option ℕ}
    (hr : Store.Respects mine s s') (hapart : ∀ o, owns pc = some o → mine ≠ some o) :
    Owned pc s' where
  free o ho := by
    obtain ⟨hlt, hfree⟩ := h.free o ho
    exact ⟨lt_of_lt_of_le hlt hr.next, hr.free o hlt (hapart o ho) hfree⟩
  fill := h.fill
  install := h.install
  record chunk rest object hpc := by
    have ho : owns pc = some object := by rw [hpc]; rfl
    rw [hr.object object (hapart object ho) (h.free object ho).2]
    exact h.record chunk rest object hpc

/-- What a step does to the store respects the other reads. -/
lemma Steps.respects {a : ReadArgs} {w w' : StoreWorld ρ} {pc pc' : ReadPc}
    (h : Steps R a w pc pc' w') (hs : w.store.Sound G) (ho : Owned pc w.store) :
    Store.Respects (owns pc) w.store w'.store := by
  cases h with
  | alloc => exact Store.respects_alloc _
  | create =>
      refine Store.respects_temps rfl rfl rfl fun t ht => ?_
      refine (FMap.lookup_insert_eq_ite _ _ _ _).trans (if_neg ?_)
      rintro rfl
      exact ht rfl
  | arrived _ _ _ =>
      refine Store.respects_temps rfl rfl rfl fun t ht => ?_
      refine (FMap.lookup_insert_eq_ite _ _ _ _).trans (if_neg ?_)
      rintro rfl
      exact ht (ho.fill _ _ _ _ _ rfl)
  | refused _ _ =>
      refine Store.respects_temps rfl rfl rfl fun t ht => ?_
      refine (FMap.lookup_erase_eq_ite _ _ _).trans (if_neg ?_)
      rintro rfl
      exact ht (ho.fill _ _ _ _ _ rfl)
  | @install chunk rest object temp =>
      obtain rfl := ho.install _ _ _ _ rfl
      exact Store.respects_install _ temp
  | record => exact hs.respects_record _ _ _ _
  | _ => exact .refl _ _

/-- After a step a read owns what it owned, or the object id that it has just taken. -/
lemma Steps.owns {a : ReadArgs} {w w' : StoreWorld ρ} {pc pc' : ReadPc}
    (h : Steps R a w pc pc' w') {o : ℕ} (ho : owns pc' = some o) :
    owns pc = some o ∨ o = w.store.index.nextObject := by
  cases h with
  | alloc => exact .inr (Option.some.inj ho).symm
  | create => exact .inl ho
  | arrived _ _ _ => exact .inl ho
  | ended _ _ => exact .inl ho
  | filled _ => exact .inl ho
  | install => exact .inl ho
  | _ => cases ho

lemma Steps.owned {a : ReadArgs} {w w' : StoreWorld ρ} {pc pc' : ReadPc}
    (h : Steps R a w pc pc' w') (hs : w.store.Sound G) (ho : Owned pc w.store) :
    Owned pc' w'.store := by
  cases h with
  | alloc =>
      refine ⟨fun o howns => ?_, nofun, nofun, nofun⟩
      cases howns
      exact ⟨Nat.lt_succ_self _, hs.unreferenced_next⟩
  | create =>
      refine ⟨ho.free, fun chunk rest object temp filled hpc => ?_, nofun, nofun⟩
      cases hpc
      rfl
  | arrived _ _ _ =>
      refine ⟨ho.free, fun chunk rest object temp filled hpc => ?_, nofun, nofun⟩
      cases hpc
      exact ho.fill _ _ _ _ _ rfl
  | ended _ _ =>
      refine ⟨ho.free, nofun, fun chunk rest object temp hpc => ?_, nofun⟩
      cases hpc
      exact ho.fill _ _ _ _ _ rfl
  | filled _ =>
      refine ⟨ho.free, nofun, fun chunk rest object temp hpc => ?_, nofun⟩
      cases hpc
      exact ho.fill _ _ _ _ _ rfl
  | install =>
      refine ⟨ho.free, nofun, nofun, fun chunk rest object hpc => ?_⟩
      cases hpc
      rw [Store.object_install, if_pos rfl]
      simp
  | _ => exact owned_of_none rfl _

/-- The chunk invariant is kept by every step that does not record, and by recording the right
bytes. -/
lemma Steps.sound {a : ReadArgs} {w w' : StoreWorld ρ} {pc pc' : ReadPc}
    (h : Steps R a w pc pc' w') (hs : w.store.Sound G) (ho : Owned pc w.store)
    (hrecord : ∀ chunk rest object b, pc = .record chunk rest object →
      w.store.object object = some b →
      G a.path.asStr (a.attrs.label w.store.chunkSize) chunk b) :
    w'.store.Sound G := by
  cases h with
  | alloc => exact hs.alloc
  | create => exact hs.congr rfl fun _ => rfl
  | arrived _ _ _ => exact hs.congr rfl fun _ => rfl
  | refused _ _ => exact hs.congr rfl fun _ => rfl
  | install => exact hs.install (ho.free _ rfl).2 _
  | record =>
      obtain ⟨hlt, hfree⟩ := ho.free _ rfl
      obtain ⟨b, hb⟩ := Option.ne_none_iff_exists'.mp (ho.record _ _ _ rfl)
      exact hs.recordChunk hfree hlt hb (hrecord _ _ _ b rfl hb)
  | _ => exact hs

/-- The bookkeeping of objects is kept by `Store::read`, whatever the remote answers. -/
lemma sound_read {s : Store} (hs : s.Sound fun _ _ _ _ => True) (path : RemotePath)
    (attrs : FileAttributes) (offset : UInt64) (size : UInt32) (c : Conn ρ) :
    (s.read R path attrs offset size c).2.1.Sound fun _ _ _ _ => True := by
  have hruns := runs_read (R := R) (a := ⟨path, attrs, offset, size⟩) s c
  refine (Runs.induction (P := fun x => x.2.store.Sound (fun _ _ _ _ => True) ∧
    Owned x.1 x.2.store) (fun x hx => ?_) hruns ⟨hs, owned_of_none (owns_start _ _) _⟩).1
  have hstep := steps_next R ⟨path, attrs, offset, size⟩ x.2 x.1
  exact ⟨hstep.sound hx.1 hx.2 fun _ _ _ _ _ _ => trivial, hstep.owned hx.1 hx.2⟩

/-! ## What a read relies on -/

/-- The chunks that a read still has to look for. -/
def remaining : ReadPc → Option (List ℕ)
  | .check rest => some rest
  | .alloc chunk rest => some (chunk :: rest)
  | .create chunk rest _ => some (chunk :: rest)
  | .fill chunk rest _ _ _ => some (chunk :: rest)
  | .install chunk rest _ _ => some (chunk :: rest)
  | .record chunk rest _ => some (chunk :: rest)
  | _ => none

/-- A read that has not taken its snapshot has passed a chunk. -/
def Passed (a : ReadArgs) (chunkSize : ℕ) (pc : ReadPc) (k : ℕ) : Prop :=
  ∃ rest found, remaining pc = some rest ∧ a.range chunkSize = found ++ rest ∧ k ∈ found

/-- The read asks for something. -/
def Active (a : ReadArgs) : Prop := ¬ (a.size = 0 ∨ a.attrs.size ≤ a.offset)

/-- The chunks of the range before `rest` are cached. -/
def Found (a : ReadArgs) (rest : List ℕ) (s : Store) : Prop :=
  Active a ∧ ∃ found, a.range s.chunkSize = found ++ rest ∧
    ∀ k ∈ found, (s.cachedChunk a.path a.attrs k).isSome

/-- Chunk `k` of a file. -/
def chunkOf (f : Bytes) (chunkSize k : ℕ) : Bytes :=
  slice f (k * chunkSize) (k * chunkSize + chunkSize)

/-- The part of chunk `k` that a read asks for. -/
def pieceOf (f : Bytes) (a : ReadArgs) (chunkSize k : ℕ) : Bytes :=
  slice f (max a.offset.toNat (k * chunkSize)) (min a.stop (k * chunkSize + chunkSize))

/-- **The assertion of a read of the file `f`.** -/
def Serves (f : Bytes) (a : ReadArgs) (s : Store) : ReadPc → Prop
  | .check rest => Found a rest s
  | .alloc chunk rest => Found a (chunk :: rest) s
  | .create chunk rest _ => Found a (chunk :: rest) s
  | .fill chunk rest _ temp filled => Found a (chunk :: rest) s ∧
      filled ≤ s.chunkLen a.attrs chunk ∧ s.disk.temps.lookup temp =
        some (slice f (chunk * s.chunkSize) (chunk * s.chunkSize + filled))
  | .install chunk rest _ temp => Found a (chunk :: rest) s ∧
      s.disk.temps.lookup temp = some (chunkOf f s.chunkSize chunk)
  | .record chunk rest object => Found a (chunk :: rest) s ∧
      s.object object = some (chunkOf f s.chunkSize chunk)
  | .assemble chunks rest data => Active a ∧ ∃ opened, a.range s.chunkSize = opened ++ rest ∧
      data = opened.flatMap (pieceOf f a s.chunkSize) ∧
      ∀ k ∈ rest, ∃ o c, chunks.lookup k = some o ∧ s.Recorded a.path.asStr c k o ∧
        s.object o = some (chunkOf f s.chunkSize k)
  | .done answer => answer = .ok (Store.requested f a.offset a.size)

/-- A read that has been called relies on nothing yet. -/
lemma serves_start {f : Bytes} (a : ReadArgs) (s : Store) (hsize : a.attrs.size.toNat = f.length) :
    Serves f a s (start a s.chunkSize).pc := by
  unfold start
  by_cases hempty : a.size = 0 ∨ a.attrs.size ≤ a.offset
  · rw [if_pos hempty]
    refine congrArg Except.ok (slice_eq_nil_of_le f ?_).symm
    rcases hempty with h | h
    · simp [h]
    · have hle := UInt64.le_iff_toNat_le.mp h
      omega
  · rw [if_neg hempty]
    exact ⟨hempty, [], rfl, by simp⟩

/-- A step of another task that takes away neither a chunk which the read has passed nor an object
which it still has to open. -/
lemma Serves.frame {f : Bytes} {a : ReadArgs} {s s' : Store} {pc : ReadPc} (h : Serves f a s pc)
    (ho : Owned pc s) {mine : Option ℕ} (hr : Store.Respects mine s s')
    (hapart : ∀ o, owns pc = some o → mine ≠ some o)
    (hpassed : ∀ k, Passed a s.chunkSize pc k → (s.cachedChunk a.path a.attrs k).isSome →
      (s'.cachedChunk a.path a.attrs k).isSome)
    (hkept : ∀ chunks rest data, pc = .assemble chunks rest data → ∀ k ∈ rest, ∀ o c,
      chunks.lookup k = some o → s.Recorded a.path.asStr c k o →
      ∃ c', s'.Recorded a.path.asStr c' k o ∧ s'.object o = s.object o) :
    Serves f a s' pc := by
  have hsize := hr.chunkSize
  have hlen : ∀ k, s'.chunkLen a.attrs k = s.chunkLen a.attrs k := fun k => by
    rw [Store.chunkLen, Store.chunkLen, hsize]
  have hfound : ∀ rest, remaining pc = some rest → Found a rest s → Found a rest s' := by
    rintro rest hrem ⟨hactive, found, hrange, hall⟩
    rw [← hsize] at hrange
    refine ⟨hactive, found, hrange, fun k hk => hpassed k ⟨rest, found, hrem, ?_, hk⟩ (hall k hk)⟩
    rw [← hsize]
    exact hrange
  cases pc with
  | check rest => exact hfound _ rfl h
  | alloc chunk rest => exact hfound _ rfl h
  | create chunk rest object => exact hfound _ rfl h
  | fill chunk rest object temp filled =>
      obtain ⟨hf, hle, htemp⟩ := h
      have hobj := ho.fill _ _ _ _ _ rfl
      refine ⟨hfound _ rfl hf, by rw [hlen]; exact hle, ?_⟩
      rw [hsize, hr.temp temp (hobj ▸ hapart object rfl)]
      exact htemp
  | install chunk rest object temp =>
      obtain ⟨hf, htemp⟩ := h
      have hobj := ho.install _ _ _ _ rfl
      refine ⟨hfound _ rfl hf, ?_⟩
      rw [hsize, hr.temp temp (hobj ▸ hapart object rfl)]
      exact htemp
  | record chunk rest object =>
      obtain ⟨hf, hobject⟩ := h
      refine ⟨hfound _ rfl hf, ?_⟩
      rw [hsize, hr.object object (hapart object rfl) (ho.free object rfl).2]
      exact hobject
  | assemble chunks rest data =>
      obtain ⟨hactive, opened, hrange, hdata, hall⟩ := h
      refine ⟨hactive, opened, by rw [hsize]; exact hrange, by rw [hsize]; exact hdata, ?_⟩
      intro k hk
      obtain ⟨o, c, hlookup, hrec, hobject⟩ := hall k hk
      obtain ⟨c', hrec', hsame⟩ := hkept _ _ _ rfl k hk o c hlookup hrec
      exact ⟨o, c', hlookup, hrec', by rw [hsame, hsize]; exact hobject⟩
  | done answer => exact h

/-- A step that drops content, but none that is recorded for the path of the read. -/
lemma Serves.frame_shrinks {f : Bytes} {a : ReadArgs} {s s' : Store} {pc : ReadPc}
    (h : Serves f a s pc) (ho : Owned pc s) (hs : s.Sound G) (hr : Store.Respects none s s')
    (hshrinks : s.Shrinks s')
    (hkept : ∀ c k o, s.Recorded a.path.asStr c k o → s'.content a.path.asStr = some c) :
    Serves f a s' pc := by
  refine h.frame ho hr (fun _ _ => nofun) (fun k _ hk => ?_)
    fun chunks rest data _ k _ o c _ hrec => ?_
  · obtain ⟨o, hcached⟩ := Option.isSome_iff_exists.mp hk
    obtain ⟨c, hrec, hlabel⟩ := Store.recorded_of_cachedChunk hcached
    simp [Store.cachedChunk, hkept c k o hrec, hr.chunkSize, hlabel, hrec.2]
  · have hc := hkept c k o hrec
    refine ⟨c, ⟨hc, hrec.2⟩, ?_⟩
    obtain ⟨orphans, hd, hobj⟩ := hshrinks
    rw [hobj, if_neg]
    intro hmem
    obtain ⟨key, c', hc', hmem', hnone⟩ := hd.orphan o hmem
    obtain ⟨k', hk'⟩ := (hs.mem_contentObjects hc').mp hmem'
    obtain ⟨rfl, -⟩ := hs.unique _ _ _ _ _ _ _ hrec ⟨hc', hk'⟩
    cases hnone.symm.trans hc

/-! ## The steps of one read -/

/-- Where a read of the file stops. -/
lemma Active.stop {a : ReadArgs} (h : Active a) {f : Bytes}
    (hsize : a.attrs.size.toNat = f.length) :
    a.offset.toNat < a.stop ∧ a.stop ≤ f.length ∧ a.stop - a.offset.toNat < 2 ^ 32 ∧
      a.stop = min (a.offset.toNat + a.size.toNat) f.length := by
  simp only [Active, not_or, UInt64.not_le] at h
  obtain ⟨hlt, hstop, hsmall⟩ := Store.readStop_spec h.1 h.2
  rw [hsize] at hstop
  refine ⟨hlt, ?_, hsmall, hstop⟩
  show Store.readStop _ _ _ ≤ _
  omega

/-- A chunk of the range starts inside the file. -/
lemma Active.chunk_lt {a : ReadArgs} (h : Active a) {f : Bytes}
    (hsize : a.attrs.size.toNat = f.length) {s : Store} {k : ℕ} (hk : k ∈ a.range s.chunkSize) :
    k * s.chunkSize < a.stop ∧ a.offset.toNat < k * s.chunkSize + s.chunkSize ∧
      k * s.chunkSize < f.length := by
  obtain ⟨hlt, hle, -, -⟩ := h.stop hsize
  obtain ⟨hstart, hend⟩ := Store.mem_chunkRange s.chunkSize_pos hlt hk
  exact ⟨hstart, hend, lt_of_lt_of_le hstart hle⟩

/-- The bytes of a complete download are the chunk. -/
lemma slice_chunkLen {a : ReadArgs} {f : Bytes} (hsize : a.attrs.size.toNat = f.length) (s : Store)
    (k : ℕ) (hk : k * s.chunkSize < f.length) :
    slice f (k * s.chunkSize) (k * s.chunkSize + s.chunkLen a.attrs k) =
        chunkOf f s.chunkSize k ∧
      k * s.chunkSize + s.chunkLen a.attrs k ≤ f.length := by
  have hlen : s.chunkLen a.attrs k = min (f.length - k * s.chunkSize) s.chunkSize := by
    rw [Store.chunkLen, hsize]
  constructor
  · rw [chunkOf, ← slice_min_length f _ (k * s.chunkSize + s.chunkSize)]
    congr 1
    omega
  · omega

/-- What a snapshot holds: every chunk of the range is in it, with its bytes in an object. -/
lemma Found.snapshot {a : ReadArgs} {s : Store} (h : Found a [] s) (hs : s.Sound G) :
    ∃ c, s.content a.path.asStr = some c ∧ s.chunkMap a.path = .ok c.chunks ∧
      ∀ k ∈ a.range s.chunkSize, ∃ o b, c.chunks.lookup k = some o ∧
        s.Recorded a.path.asStr c k o ∧ s.object o = some b ∧
        G a.path.asStr (a.attrs.label s.chunkSize) k b := by
  obtain ⟨hactive, found, hrange, hall⟩ := h
  rw [List.append_nil] at hrange
  subst hrange
  -- the content reference carries the label, since at least one chunk is cached under it
  have hlt : a.offset.toNat < a.stop := by
    simp only [Active, not_or, UInt64.not_le] at hactive
    exact (Store.readStop_spec hactive.1 hactive.2).1
  have hne : a.range s.chunkSize ≠ [] := Store.chunkRange_ne_nil s.chunkSize_pos hlt
  obtain ⟨k₀, hk₀⟩ := List.exists_mem_of_ne_nil _ hne
  obtain ⟨o₀, ho₀⟩ := Option.isSome_iff_exists.mp (hall k₀ hk₀)
  obtain ⟨c, ⟨hc, -⟩, hlabel⟩ := Store.recorded_of_cachedChunk ho₀
  refine ⟨c, hc, ?_, fun k hk => ?_⟩
  · have hcs : c.chunkSize = s.chunkSize := congrArg Label.chunkSize hlabel
    simp [Store.chunkMap, hc, hcs]
  · obtain ⟨o, ho⟩ := Option.isSome_iff_exists.mp (hall k hk)
    have hlookup : c.chunks.lookup k = some o := by
      simpa [Store.cachedChunk, hc, hlabel] using ho
    obtain ⟨b, hb, hGb⟩ := hs.good a.path.asStr c k o ⟨hc, hlookup⟩
    rw [hlabel] at hGb
    exact ⟨o, b, hlookup, ⟨hc, hlookup⟩, hb, hGb⟩

/-- A chunk that is cached has been passed. -/
lemma Found.found {a : ReadArgs} {chunk object : ℕ} {rest : List ℕ} {s : Store}
    (h : Found a (chunk :: rest) s) (hcached : s.cachedChunk a.path a.attrs chunk = some object) :
    Found a rest s := by
  obtain ⟨hactive, found, hrange, hall⟩ := h
  refine ⟨hactive, found ++ [chunk], by rw [hrange]; simp, fun k hk => ?_⟩
  rcases List.mem_append.mp hk with hk | hk
  · exact hall k hk
  · rw [List.mem_singleton.mp hk, hcached]
    rfl

/-- A chunk that has been recorded has been passed. -/
lemma Found.record {a : ReadArgs} {chunk : ℕ} {rest : List ℕ} {s : Store}
    (h : Found a (chunk :: rest) s) (object : ℕ) :
    Found a rest (s.recordChunk a.path a.attrs chunk object) := by
  obtain ⟨hactive, found, hrange, hall⟩ := h
  refine ⟨hactive, found ++ [chunk], by rw [Store.recordChunk_chunkSize, hrange]; simp,
    fun k hk => ?_⟩
  rw [Store.cachedChunk_recordChunk]
  split
  · rfl
  · next hne =>
      rcases List.mem_append.mp hk with hk | hk
      · exact hall k hk
      · exact absurd (List.mem_singleton.mp hk) hne

/-- The store changes nothing that `Found` looks at. -/
lemma Found.congr {a : ReadArgs} {rest : List ℕ} {s s' : Store} (h : Found a rest s)
    (hsize : s'.chunkSize = s.chunkSize)
    (hcached : ∀ k, s'.cachedChunk a.path a.attrs k = s.cachedChunk a.path a.attrs k) :
    Found a rest s' := by
  obtain ⟨hactive, found, hrange, hall⟩ := h
  refine ⟨hactive, found, by rw [hsize]; exact hrange, fun k hk => ?_⟩
  rw [hcached]
  exact hall k hk

/-- The chunk at the head of what remains is one of the range. -/
lemma Found.head_lt {f : Bytes} {a : ReadArgs} {chunk : ℕ} {rest : List ℕ} {s : Store}
    (h : Found a (chunk :: rest) s) (hsize : a.attrs.size.toNat = f.length) :
    chunk * s.chunkSize < f.length := by
  obtain ⟨hactive, found, hrange, -⟩ := h
  exact (hactive.chunk_lt hsize (by rw [hrange]; simp)).2.2

/-- What a pass of the download brings, where the remote serves the file. -/
lemma Serves.pass {view : ρ → Tree} (hR : HonestReads R view) {a : ReadArgs} {f : Bytes}
    {m : Option Int} {s : Store} {chunk filled object : ℕ} {rest : List ℕ} {temp : TempName}
    (h : Serves f a s (.fill chunk rest object temp filled))
    (hsize : a.attrs.size.toNat = f.length) (hlt : filled < s.chunkLen a.attrs chunk)
    {c c' : Conn ρ} (hview : view c.remote a.path.asStr = some (.file f m))
    {answer : Except Error Bytes}
    (hread : c.read R a.path (chunk * s.chunkSize + filled)
      (Store.want (s.chunkLen a.attrs chunk) filled) = (answer, c')) :
    ∃ d, answer = .ok d ∧ d ≠ [] ∧ filled + d.length ≤ s.chunkLen a.attrs chunk ∧
      slice f (chunk * s.chunkSize) (chunk * s.chunkSize + filled) ++ d =
        slice f (chunk * s.chunkSize) (chunk * s.chunkSize + (filled + d.length)) := by
  obtain ⟨-, hlen⟩ := slice_chunkLen hsize s chunk (h.1.head_lt hsize)
  obtain ⟨d, hd, hrest⟩ := Store.pass_ok hR hlen hlt hview
  exact ⟨d, (Conn.read_eq hread).1.symm.trans hd, hrest⟩

/-- What the next chunk of the assembly contributes. -/
lemma Serves.piece {a : ReadArgs} {f : Bytes} {s : Store} {chunks : FMap ℕ ℕ} {chunk : ℕ}
    {rest : List ℕ} {data : Bytes} (h : Serves f a s (.assemble chunks (chunk :: rest) data))
    (hsize : a.attrs.size.toNat = f.length) (hover : Store.NoOverflow f.length s.chunkSize) :
    s.readPiece chunks a.offset.toNat a.stop chunk = .ok (pieceOf f a s.chunkSize chunk) := by
  obtain ⟨hactive, opened, hrange, -, hall⟩ := h
  obtain ⟨o, c, hlookup, -, hobject⟩ := hall chunk (by simp)
  obtain ⟨hlt, -, hsmall, -⟩ := hactive.stop hsize
  obtain ⟨hstart, hend, hin⟩ :=
    hactive.chunk_lt hsize (show chunk ∈ a.range s.chunkSize by rw [hrange]; simp)
  exact Store.readPiece_ok hlookup hobject hstart hend hlt hsmall (hover chunk hin)

/-- **One step of a read** of a file that the remote serves and whose chunks are what the cache
says they are. -/
lemma Steps.serves {view : ρ → Tree} (hR : HonestReads R view) {a : ReadArgs}
    {w w' : StoreWorld ρ} {pc pc' : ReadPc} (h : Steps R a w pc pc' w') (hs : w.store.Sound G)
    {f : Bytes} {m : Option Int} (hview : view w.conn.remote a.path.asStr = some (.file f m))
    (hsize : a.attrs.size.toNat = f.length)
    (hG : ∀ k b, G a.path.asStr (a.attrs.label w.store.chunkSize) k b →
      b = chunkOf f w.store.chunkSize k)
    (hover : Store.NoOverflow f.length w.store.chunkSize) (hserves : Serves f a w.store pc) :
    Serves f a w'.store pc' := by
  cases h with
  | found hcached => exact Found.found hserves hcached
  | missed _ => exact hserves
  | snapshot hmap =>
      obtain ⟨c, -, hmap', hall⟩ := Found.snapshot hserves hs
      rw [hmap'] at hmap
      cases hmap
      refine ⟨hserves.1, [], rfl, rfl, fun k hk => ?_⟩
      obtain ⟨o, b, hlookup, hrec, hobject, hGb⟩ := hall k hk
      rw [hG k b hGb] at hobject
      exact ⟨o, c, hlookup, hrec, hobject⟩
  | noContent hmap =>
      obtain ⟨c, -, hmap', -⟩ := Found.snapshot hserves hs
      rw [hmap'] at hmap
      cases hmap
  | alloc => exact Found.congr hserves rfl fun _ => rfl
  | create =>
      refine ⟨Found.congr hserves rfl fun _ => rfl, Nat.zero_le _, ?_⟩
      rw [Nat.add_zero, slice_eq_nil_of_le f (le_refl _)]
      exact AList.lookup_insert _
  | @arrived chunk rest object temp filled data conn hlt hread hdata =>
      obtain ⟨d, hd, -, hdlen, happend⟩ := Serves.pass hR hserves hsize hlt hview hread
      obtain rfl : data = d := Except.ok.inj hd
      obtain ⟨hfound, -, htemp⟩ := hserves
      refine ⟨Found.congr hfound rfl fun _ => rfl, hdlen, ?_⟩
      rw [Store.emit_disk, FsEffect.apply]
      simp only [AList.lookup_insert, htemp, Option.getD_some, Store.emit_chunkSize]
      rw [happend]
  | ended hlt hread =>
      obtain ⟨d, hd, hne, -, -⟩ := Serves.pass hR hserves hsize hlt hview hread
      exact absurd (Except.ok.inj hd).symm hne
  | refused hlt hread =>
      obtain ⟨d, hd, -, -, -⟩ := Serves.pass hR hserves hsize hlt hview hread
      cases hd
  | @filled chunk rest object temp filled hle =>
      obtain ⟨hfound, hle', htemp⟩ := hserves
      obtain rfl : filled = w.store.chunkLen a.attrs chunk := le_antisymm hle' hle
      rw [(slice_chunkLen hsize w.store chunk (hfound.head_lt hsize)).1] at htemp
      exact ⟨hfound, htemp⟩
  | install =>
      obtain ⟨hfound, htemp⟩ := hserves
      refine ⟨Found.congr hfound rfl fun _ => rfl, ?_⟩
      rw [Store.object_install, if_pos rfl, htemp]
      rfl
  | record => exact Found.record hserves.1 _
  | @opened chunks chunk rest data piece hpiece =>
      obtain rfl : pieceOf f a w.store.chunkSize chunk = piece :=
        Except.ok.inj ((hserves.piece hsize hover).symm.trans hpiece)
      obtain ⟨hactive, opened, hrange, hdata, hall⟩ := hserves
      refine ⟨hactive, opened ++ [chunk], by rw [hrange]; simp, ?_, fun k hk =>
        hall k (List.mem_cons_of_mem _ hk)⟩
      rw [hdata]
      simp
  | missing hpiece => cases (hserves.piece hsize hover).symm.trans hpiece
  | finished =>
      obtain ⟨hactive, opened, hrange, rfl, -⟩ := hserves
      obtain ⟨hlt, -, -, hstop⟩ := hactive.stop hsize
      rw [List.append_nil] at hrange
      rw [← hrange]
      have hassembly := chunk_assembly f w.store.chunkSize_pos hlt
      rw [ReadArgs.range, chunkRange, max_eq_left w.store.chunkSize_pos]
      refine congrArg Except.ok (hassembly.trans ?_)
      rw [Store.requested, hstop]
  | idle => exact hserves

lemma Steps.view {view : ρ → Tree} (hR : HonestReads R view) {a : ReadArgs}
    {w w' : StoreWorld ρ} {pc pc' : ReadPc} (h : Steps R a w pc pc' w') :
    view w'.conn.remote = view w.conn.remote := by
  cases h with
  | arrived _ hread _ => rw [(Conn.read_eq hread).2]; exact hR.view_read _ _ _ _
  | ended _ hread => rw [(Conn.read_eq hread).2]; exact hR.view_read _ _ _ _
  | refused _ hread => rw [(Conn.read_eq hread).2]; exact hR.view_read _ _ _ _
  | _ => rfl

/-! ## The steps of another read -/

/-- The objects that a read has in its snapshot and still has to open. -/
def toOpen : ReadPc → List ℕ
  | .assemble chunks todo _ => todo.filterMap chunks.lookup
  | _ => []

/-- The objects that the next step of a read deletes. -/
def deletes (t : ReadTask) (s : Store) : List ℕ :=
  match t.pc with
  | .record chunk _ _ =>
      Store.recordDeletes (t.args.attrs.label s.chunkSize) chunk (s.content t.args.path.asStr)
  | _ => []

lemma mem_toOpen {chunks : FMap ℕ ℕ} {todo : List ℕ} {data : Bytes} {k o : ℕ} (hk : k ∈ todo)
    (h : chunks.lookup k = some o) : o ∈ toOpen (.assemble chunks todo data) :=
  List.mem_filterMap.mpr ⟨k, hk, h⟩

/-- A chunk whose object a recording does not delete stays recorded. -/
lemma recorded_kept {s : Store} (hs : s.Sound G) {path p : RemotePath} {attrs : FileAttributes}
    {chunk object k o : ℕ} {c : ContentRef} (h : s.Recorded p.asStr c k o)
    (hkept : o ∉ Store.recordDeletes (attrs.label s.chunkSize) chunk (s.content path.asStr)) :
    ∃ c', (s.recordChunk path attrs chunk object).Recorded p.asStr c' k o ∧
      (s.recordChunk path attrs chunk object).object o = s.object o := by
  obtain ⟨hc, hlookup⟩ := h
  have hobject : (s.recordChunk path attrs chunk object).object o = s.object o := by
    rw [Store.object_recordChunk, if_neg hkept]
  by_cases hp : p.asStr = path.asStr
  · rw [hp] at hc ⊢
    have hlabel : c.label = attrs.label s.chunkSize := by
      by_contra hne
      apply hkept
      simp only [Store.recordDeletes, hc, if_neg hne]
      exact (hs.mem_contentObjects hc).mpr ⟨k, hlookup⟩
    have hne : k ≠ chunk := by
      rintro rfl
      apply hkept
      simp [Store.recordDeletes, hc, hlabel, hlookup]
    refine ⟨s.recordedContent path attrs chunk object, ⟨?_, ?_⟩, hobject⟩
    · rw [Store.content_recordChunk, if_pos rfl]
    · rw [Store.recordedContent_lookup, if_neg hne]
      simp [Store.cachedChunk, hc, hlabel, hlookup]
  · refine ⟨c, ⟨?_, hlookup⟩, hobject⟩
    rw [Store.content_recordChunk, if_neg hp]
    exact hc

/-- A step that is no recording leaves the index of contents and the recorded objects alone. -/
lemma Steps.same_contents {b : ReadArgs} {w w' : StoreWorld ρ} {pc pc' : ReadPc}
    (h : Steps R b w pc pc' w') (ho : Owned pc w.store)
    (hno : ∀ chunk rest object, pc ≠ .record chunk rest object) :
    (∀ key, w'.store.content key = w.store.content key) ∧
      ∀ key c k o, w.store.Recorded key c k o → w'.store.object o = w.store.object o := by
  cases h with
  | install =>
      refine ⟨fun _ => rfl, fun key c k o hr => ?_⟩
      rw [Store.object_install, if_neg]
      rintro rfl
      exact (ho.free _ rfl).2 key c k hr
  | record => exact absurd rfl (hno _ _ _)
  | _ => exact ⟨fun _ => rfl, fun _ _ _ _ _ => rfl⟩

/-- A step of another read that takes nothing away which this one relies on. -/
lemma Serves.frame_steps {f : Bytes} {a b : ReadArgs} {w w' : StoreWorld ρ}
    {pc other other' : ReadPc}
    (h : Serves f a w.store pc) (ho : Owned pc w.store) (hstep : Steps R b w other other' w')
    (hs : w.store.Sound G) (hother : Owned other w.store)
    (hapart : ∀ o, owns pc = some o → owns other ≠ some o)
    (hpassed : ∀ chunk rest object, other = .record chunk rest object →
      ∀ k, Passed a w.store.chunkSize pc k → (w.store.cachedChunk a.path a.attrs k).isSome →
      ((w.store.recordChunk b.path b.attrs chunk object).cachedChunk a.path a.attrs k).isSome)
    (hkept : ∀ o ∈ toOpen pc, o ∉ deletes ⟨b, other⟩ w.store) :
    Serves f a w'.store pc := by
  have hrespects := hstep.respects hs hother
  by_cases hrecord : ∃ chunk rest object, other = .record chunk rest object
  · obtain ⟨chunk, rest, object, rfl⟩ := hrecord
    cases hstep
    refine h.frame ho hrespects hapart (hpassed _ _ _ rfl) ?_
    intro chunks todo data hpc k hk o c hlookup hrec
    rw [hpc] at hkept
    exact recorded_kept hs hrec (hkept o (mem_toOpen hk hlookup))
  · obtain ⟨hcontent, hobject⟩ := hstep.same_contents hother
      fun chunk rest object heq => hrecord ⟨chunk, rest, object, heq⟩
    refine h.frame ho hrespects hapart (fun k _ hk => ?_) ?_
    · rw [Store.cachedChunk, hcontent, hrespects.chunkSize]
      exact hk
    · rintro chunks todo data - k - o c - ⟨hc, hlookup⟩
      exact ⟨c, ⟨(hcontent _).trans hc, hlookup⟩, hobject _ c k o ⟨hc, hlookup⟩⟩

/-! ## Progress -/

/-- How many steps a read takes at most from where it is. -/
def work (a : ReadArgs) (chunkSize : ℕ) : ReadPc → ℕ
  | .check rest => later rest
  | .alloc _ rest => chunkSize + 5 + later rest
  | .create _ rest _ => chunkSize + 4 + later rest
  | .fill _ rest _ _ filled => chunkSize - filled + 3 + later rest
  | .install _ rest _ _ => 2 + later rest
  | .record _ rest _ => 1 + later rest
  | .assemble _ rest _ => rest.length + 1
  | .done _ => 0
where
  later (rest : List ℕ) : ℕ := rest.length * (chunkSize + 6) + ((a.range chunkSize).length + 2)

lemma work_later_cons (a : ReadArgs) (chunkSize k : ℕ) (rest : List ℕ) :
    work.later a chunkSize (k :: rest) = chunkSize + 6 + work.later a chunkSize rest := by
  simp only [work.later, List.length_cons, Nat.succ_mul]
  omega

lemma Steps.work {a : ReadArgs} {w w' : StoreWorld ρ} {pc pc' : ReadPc}
    (h : Steps R a w pc pc' w') :
    work a w.store.chunkSize pc' ≤ work a w.store.chunkSize pc - 1 := by
  cases h with
  | found _ =>
      simp only [ReadTask.work, work_later_cons]
      omega
  | missed _ =>
      simp only [ReadTask.work, work_later_cons]
      omega
  | snapshot _ => simp [ReadTask.work, work.later]
  | noContent _ => simp [ReadTask.work]
  | alloc =>
      simp only [ReadTask.work]
      omega
  | create =>
      simp only [ReadTask.work]
      omega
  | @arrived chunk rest object temp filled data conn hlt _ hdata =>
      have hpos := List.length_pos_of_ne_nil hdata
      have hle : w.store.chunkLen a.attrs chunk ≤ w.store.chunkSize := min_le_right _ _
      simp only [ReadTask.work]
      omega
  | ended _ _ =>
      simp only [ReadTask.work]
      omega
  | refused _ _ => simp [ReadTask.work]
  | filled _ =>
      simp only [ReadTask.work]
      omega
  | install =>
      simp only [ReadTask.work]
      omega
  | record =>
      simp only [ReadTask.work]
      omega
  | opened _ => simp [ReadTask.work]
  | missing _ => simp [ReadTask.work]
  | finished => simp [ReadTask.work]
  | idle => simp [ReadTask.work]

/-- A read that has not ended has work to do. -/
lemma work_pos (a : ReadArgs) (chunkSize : ℕ) {pc : ReadPc} (h : ∀ answer, pc ≠ .done answer) :
    0 < work a chunkSize pc := by
  cases pc with
  | done answer => exact absurd rfl (h answer)
  | _ =>
      simp only [work, work.later]
      omega

/-- A bound for the work of any read of some size. -/
def workBound (chunkSize size : ℕ) : ℕ := (size + 1) * (chunkSize + 6) + (size + 1 + 2)

lemma work_start_le (a : ReadArgs) (chunkSize : ℕ) :
    work a chunkSize (start a chunkSize).pc ≤ workBound chunkSize a.size.toNat := by
  have hlength : (a.range chunkSize).length ≤ a.size.toNat + 1 := by
    have hpos : 0 < max chunkSize 1 := by omega
    have hstop : a.stop ≤ a.offset.toNat + a.size.toNat := by
      show Store.readStop _ _ _ ≤ _
      unfold Store.readStop
      omega
    have hlast : (a.stop - 1) / max chunkSize 1 ≤ a.offset.toNat / max chunkSize 1 + a.size.toNat :=
      calc (a.stop - 1) / max chunkSize 1
          ≤ (a.offset.toNat + a.size.toNat * max chunkSize 1) / max chunkSize 1 := by
            refine Nat.div_le_div_right ?_
            have hle := Nat.le_mul_of_pos_right a.size.toNat hpos
            omega
        _ = a.offset.toNat / max chunkSize 1 + a.size.toNat := Nat.add_mul_div_right _ _ hpos
    rw [ReadArgs.range, chunkRange, List.length_range']
    omega
  unfold start workBound
  split
  · exact Nat.zero_le _
  · simp only [work, work.later]
    have hmul := Nat.mul_le_mul_right (chunkSize + 6) hlength
    omega

end ReadTask

/-! ## Any number of reads -/

namespace Readers

open ReadTask

variable {ρ ι : Type} [DecidableEq ι] {R : RemoteFilesystem ρ} {view : ρ → Tree}

/-- Time passes. -/
def tick (d : ℕ) (w : StoreWorld ρ) : StoreWorld ρ :=
  { w with conn := { w.conn with now := w.conn.now + d } }

/-- The reads that have been called, none of which has begun. -/
def start (args : ι → ReadArgs) (w : StoreWorld ρ) : Pool ι ReadTask (StoreWorld ρ) :=
  ⟨fun i => ReadTask.start (args i) w.store.chunkSize, w⟩

def step (R : RemoteFilesystem ρ) (x : Pool ι ReadTask (StoreWorld ρ)) (m : Move ι ℕ) :
    Pool ι ReadTask (StoreWorld ρ) :=
  x.step (ReadTask.step R) tick m

/-- A recording deletes no object that another read has in its snapshot and still has to open. -/
def KeepsSnapshots (x : Pool ι ReadTask (StoreWorld ρ)) : Move ι ℕ → Prop
  | .task i => ∀ j, j ≠ i → ∀ o ∈ toOpen (x.tasks j).pc, o ∉ (x.tasks i).deletes x.shared.store
  | .env _ => True

instance [Fintype ι] (x : Pool ι ReadTask (StoreWorld ρ)) (move : Move ι ℕ) :
    Decidable (KeepsSnapshots x move) :=
  match move with
  | .task i => inferInstanceAs (Decidable (∀ j, j ≠ i → ∀ o ∈ toOpen _, o ∉ deletes _ _))
  | .env _ => isTrue trivial

/-- The chunks under the label of the file's attributes are chunks of the file. -/
def FileChunks (path : RemotePath) (attrs : FileAttributes) (f : Bytes) (chunkSize : ℕ)
    (key : Str) (l : Label) (k : ℕ) (b : Bytes) : Prop :=
  key = path.asStr → l = attrs.label chunkSize → b = chunkOf f chunkSize k

variable (view) in
/-- **The invariant of concurrent reads** of the file `f`. -/
def Reading (args : ι → ReadArgs) (path : RemotePath) (attrs : FileAttributes) (f : Bytes)
    (m : Option Int) (chunkSize : ℕ) : Pool ι ReadTask (StoreWorld ρ) → Prop :=
  Outline
    (fun w => w.store.chunkSize = chunkSize ∧ view w.conn.remote path.asStr = some (.file f m) ∧
      w.store.Sound (FileChunks path attrs f chunkSize))
    (fun i t w => t.args = args i ∧ Owned t.pc w.store ∧ Serves f t.args w.store t.pc)
    (fun t u => ∀ o, owns t.pc = some o → owns u.pc ≠ some o)

/-- A task that steps stays apart from the others: what it takes is new. -/
lemma apart_step {t u : ReadTask} {w : StoreWorld ρ} (hu : Owned u.pc w.store)
    (hapart : ∀ o, owns t.pc = some o → owns u.pc ≠ some o) :
    (∀ o, owns (t.step R w).1.pc = some o → owns u.pc ≠ some o) ∧
      ∀ o, owns u.pc = some o → owns (t.step R w).1.pc ≠ some o := by
  have hnew : ∀ o, owns (t.step R w).1.pc = some o → owns u.pc ≠ some o := by
    intro o ho hou
    rcases (steps_next R t.args w t.pc).owns ho with hold | rfl
    · exact hapart o hold hou
    · exact Nat.lt_irrefl _ (hu.free _ hou).1
  exact ⟨hnew, fun o hou ho => hnew o ho hou⟩

section

variable {args : ι → ReadArgs} {path : RemotePath} {attrs : FileAttributes} {f : Bytes}
  {m : Option Int} {chunkSize : ℕ}

/-- Every move of careful reads keeps the invariant. -/
lemma reading_step (hR : HonestReads R view) (hargs : ∀ i, (args i).path = path ∧
      (args i).attrs = attrs) (hsize : attrs.size.toNat = f.length)
    (hover : Store.NoOverflow f.length chunkSize) (x : Pool ι ReadTask (StoreWorld ρ))
    (move : Move ι ℕ) (hkeep : KeepsSnapshots x move)
    (hx : Reading view args path attrs f m chunkSize x) :
    Reading view args path attrs f m chunkSize (step R x move) := by
  obtain ⟨hcs, hview, hs⟩ := hx.shared
  cases move with
  | env d => exact hx.step_env ⟨hcs, hview, hs⟩ hx.task
  | task i =>
      obtain ⟨hti, howned, hserves⟩ := hx.task i
      have hsteps := steps_next R (x.tasks i).args x.shared (x.tasks i).pc
      have hpath : (x.tasks i).args.path = path := by rw [hti]; exact (hargs i).1
      have hattrs : (x.tasks i).args.attrs = attrs := by rw [hti]; exact (hargs i).2
      have hchunks : ∀ k b, FileChunks path attrs f chunkSize (x.tasks i).args.path.asStr
          ((x.tasks i).args.attrs.label x.shared.store.chunkSize) k b →
          b = chunkOf f x.shared.store.chunkSize k := by
        intro k b hb
        rw [hcs]
        exact hb (by rw [hpath]) (by rw [hattrs, hcs])
      have hserves' := hsteps.serves hR hs (by rw [hpath]; exact hview)
        (by rw [hattrs]; exact hsize)
        hchunks (by rw [hcs]; exact hover) hserves
      refine hx.step_task ⟨?_, ?_, ?_⟩ ⟨hti, hsteps.owned hs howned, hserves'⟩ (fun j hj => ?_)
        (fun j hj => apart_step (hx.task j).2.1 (hx.apart i j (Ne.symm hj)))
      · exact (hsteps.respects hs howned).chunkSize.trans hcs
      · exact (congrFun (hsteps.view hR) _).trans hview
      · refine hsteps.sound hs howned fun chunk rest object b hpc hb hkey hlabel => ?_
        rw [hpc] at hserves
        rw [hserves.2] at hb
        rw [← Option.some.inj hb, hcs]
      · obtain ⟨htj, hownedj, hservesj⟩ := hx.task j
        have hpathj : (x.tasks j).args.path = path := by rw [htj]; exact (hargs j).1
        have hattrsj : (x.tasks j).args.attrs = attrs := by rw [htj]; exact (hargs j).2
        have happart := hx.apart j i hj
        refine ⟨htj, hownedj.frame (hsteps.respects hs howned) happart,
          hservesj.frame_steps hownedj hsteps hs howned happart ?_ (hkeep j hj)⟩
        -- a recording of the same version takes no chunk away
        intro chunk rest object _ k _ hk
        rw [hpathj, hattrsj] at hk ⊢
        rw [hpath, hattrs, Store.cachedChunk_recordChunk]
        split
        · rfl
        · exact hk

omit [DecidableEq ι] in
lemma reading_start {w : StoreWorld ρ} (hargs : ∀ i, (args i).path = path ∧
      (args i).attrs = attrs) (hsize : attrs.size.toNat = f.length)
    (hview : view w.conn.remote path.asStr = some (.file f m))
    (hs : w.store.Sound (FileChunks path attrs f w.store.chunkSize)) :
    Reading view args path attrs f m w.store.chunkSize (start args w) := by
  refine ⟨⟨rfl, hview, hs⟩, fun i => ⟨rfl, owned_of_none (owns_start _ _) _, ?_⟩,
    fun i j _ o ho => ?_⟩
  · exact serves_start (args i) w.store (by rw [(hargs i).2]; exact hsize)
  · rw [start, owns_start] at ho
    cases ho

end

/-- **Concurrent reads agree.**  Any number of reads of one file that does not change, interleaved
in any way in which no recording deletes an object that another read still has to open: a read that
has ended has returned exactly the requested bytes, and a read ends after a bounded number of its
own steps. -/
theorem reads_agree (hR : HonestReads R view) {path : RemotePath} {attrs : FileAttributes}
    {f : Bytes} {m : Option Int} (hattrs : Describes attrs (.file f m))
    (hlength : f.length ≤ 2 ^ 63) (args : ι → ReadArgs)
    (hargs : ∀ i, (args i).path = path ∧ (args i).attrs = attrs) (w : StoreWorld ρ)
    (hview : view w.conn.remote path.asStr = some (.file f m))
    (hs : w.store.Sound (FileChunks path attrs f w.store.chunkSize)) (moves : List (Move ι ℕ))
    (hkeep : AllSteps (step R) KeepsSnapshots (start args w) moves) (i : ι) :
    (∀ answer, ((run (step R) (start args w) moves).tasks i).pc = .done answer →
        answer = .ok (Store.requested f (args i).offset (args i).size)) ∧
      (work (args i) w.store.chunkSize (ReadTask.start (args i) w.store.chunkSize).pc ≤
          turns i moves →
        ∃ answer, ((run (step R) (start args w) moves).tasks i).pc = .done answer) := by
  have hover := Store.noOverflow_of_size hlength w.store.chunkSize_lt
  have hstep := reading_step (ι := ι) (m := m) hR hargs hattrs.2.1 hover
  have hstart := reading_start hargs hattrs.2.1 hview hs
  have hend := invariant hstep hstart hkeep
  obtain ⟨hti, -, hserves⟩ := hend.task i
  constructor
  · intro answer hdone
    rw [hdone, hti] at hserves
    exact hserves
  · intro hturns
    -- the work that is left is what the turns have not used up
    have hspent := spent_le (μ := fun t => work (args i) w.store.chunkSize t.pc) (i := i)
      hstep (fun x hx => by
        obtain ⟨hxi, -, -⟩ := hx.task i
        have hwork := (steps_next R (x.tasks i).args x.shared (x.tasks i).pc).work
        rw [hx.shared.1, hxi] at hwork
        rw [ReadTask.step, hxi]
        exact hwork) hstart hkeep
    have hzero : work (args i) w.store.chunkSize
        ((run (step R) (start args w) moves).tasks i).pc = 0 :=
      Nat.eq_zero_of_le_zero (le_trans hspent (Nat.sub_eq_zero_of_le hturns).le)
    cases hpc : ((run (step R) (start args w) moves).tasks i).pc with
    | done answer => exact ⟨answer, rfl⟩
    | _ =>
        rw [hpc] at hzero
        simp only [work, work.later] at hzero
        omega

/-! Two reads of the file `/f`, which is one chunk. -/

def smallFile : Memory := StoreWorld.oneFile [1, 2, 3] (some 1) (by decide)

def readF : ReadArgs := ⟨StoreWorld.fileF, StoreWorld.attrsF 3 1, 0, 3⟩

/-- Nothing is cached. -/
def coldF : StoreWorld Memory := StoreWorld.start 4 ⟨smallFile, 0, []⟩

/-- The second read begins while the first one downloads, and both end. -/
def staggered : List (Move Bool ℕ) :=
  List.replicate 3 (.task false) ++ [.task true, .env 1] ++ List.replicate 7 (.task false) ++
    List.replicate 9 (.task true)

theorem reads_agree_staggered :
    ((run (step Memory.filesystem) (start (fun _ => readF) coldF) staggered).tasks true).pc =
        .done (.ok [1, 2, 3]) ∧
      ∀ answer,
        ((run (step Memory.filesystem) (start (fun _ => readF) coldF) staggered).tasks true).pc =
          .done answer → answer = .ok [1, 2, 3] := by
  have hagree := reads_agree Memory.honestReads (m := some 1) ⟨rfl, rfl, rfl⟩ (by decide)
    (fun _ => readF) (fun _ => ⟨rfl, rfl⟩) coldF rfl (Store.sound_new_empty 4) staggered
    (by decide) true
  exact ⟨rfl, hagree.1⟩

/-- The second read misses the chunk before the first one records it, and records it again before
the first one opens it. -/
def crossed : List (Move Bool ℕ) :=
  .task true :: (List.replicate 8 (.task false) ++ List.replicate 6 (.task true) ++ [.task false])

/-- The first read fails: its object has been deleted. -/
theorem crossed_read_fails :
    ((run (step Memory.filesystem) (start (fun _ => readF) coldF) crossed).tasks false).pc =
      .done (.error objectMissing) := rfl

end Readers

end CacheShfs
