import CacheShfs.Store.Concurrent
import CacheShfs.Store.Mirror

/-!
# Reopening the cache directory

A run of the store that is closed and opened again, any number of times and with any chunk
sizes.  What a later session reads from `index.json` is what the running session has in memory
(`Synced`), although not every operation persists: the ones that skip it have changed nothing.
For `invalidate_content`, which decides by the list of objects, this needs that no content
reference is empty.

Only the counter of object ids may lag behind on disk, but never so far that an id of the index
would be given out again.
-/

namespace CacheShfs

open Machine

namespace Store

/-- The listing under a key in the index on disk. -/
def storedListing (s : Store) (key : Str) : Option (List Str) :=
  (s.disk.index.getD Index.empty).listings.lookup key

/-- The counter of object ids on disk. -/
def storedNext (s : Store) : ℕ := (s.disk.index.getD Index.empty).nextObject

/-- **The index on disk is the one in memory**, up to ids that have been taken and not used. -/
structure Synced (s : Store) : Prop where
  entry : ∀ key, s.stored key = s.entry key
  listing : ∀ key, s.storedListing key = s.listing key
  filled : ∀ key c, s.content key = some c → contentObjects c ≠ []
  below : ∀ key c k o, s.Recorded key c k o → o < s.storedNext
  next_le : s.storedNext ≤ s.index.nextObject

variable {G : Str → Label → ℕ → Bytes → Prop} {s s' : Store}

/-- The index has just been persisted, with no content reference but old ones. -/
lemma Synced.persisted (h : Synced s) (hdisk : s'.disk.index = some s'.index)
    (hnext : s'.index.nextObject = s.index.nextObject)
    (horigin : ∀ key c, s'.content key = some c → ∃ old, s.content old = some c) : Synced s' where
  entry key := by rw [stored, hdisk]; rfl
  listing key := by rw [storedListing, hdisk]; rfl
  filled key c hc := by
    obtain ⟨old, hold⟩ := horigin key c hc
    exact h.filled old c hold
  below key c k o hr := by
    obtain ⟨old, hold⟩ := horigin key c hr.1
    have hlt := lt_of_lt_of_le (h.below old c k o ⟨hold, hr.2⟩) h.next_le
    rw [storedNext, hdisk]
    exact hnext ▸ hlt
  next_le := by rw [storedNext, hdisk]; rfl

/-- The file has not been written, and the index in memory is the same. -/
lemma Synced.congr (h : Synced s) (hdisk : s'.disk.index = s.disk.index)
    (hnext : s.index.nextObject ≤ s'.index.nextObject)
    (hentry : ∀ key, s'.entry key = s.entry key)
    (hlisting : ∀ key, s'.listing key = s.listing key) : Synced s' := by
  have hcontent : ∀ key, s'.content key = s.content key := fun key => by
    rw [content, hentry, content]
  have hsame : s'.storedNext = s.storedNext := by rw [storedNext, hdisk, storedNext]
  refine ⟨fun key => ?_, fun key => ?_, fun key c hc => ?_, fun key c k o hr => ?_, ?_⟩
  · rw [hentry, ← h.entry, stored, hdisk, stored]
  · rw [hlisting, ← h.listing, storedListing, hdisk, storedListing]
  · rw [hcontent] at hc
    exact h.filled key c hc
  · rw [hsame]
    exact h.below key c k o ⟨(hcontent key).symm.trans hr.1, hr.2⟩
  · rw [hsame]
    exact h.next_le.trans hnext

lemma Synced.removeObjects (h : Synced s) (objects : List ℕ) : Synced (s.removeObjects objects) :=
  h.congr (removeObjects_disk_index objects s) (by rw [removeObjects_index])
    (fun key => entry_removeObjects objects s key) fun key => listing_removeObjects objects s key

/-- A session that is opened on a directory has the index of the directory. -/
lemma synced_new {disk : Disk} (chunkSize : UInt64)
    (hfilled : ∀ key c, (Store.new disk chunkSize).content key = some c → contentObjects c ≠ [])
    (hbelow : ∀ key c k o, (Store.new disk chunkSize).Recorded key c k o →
      o < (Store.new disk chunkSize).index.nextObject) : Synced (Store.new disk chunkSize) where
  entry _ := rfl
  listing _ := rfl
  filled := hfilled
  below := hbelow
  next_le := le_refl _

lemma synced_new_empty (chunkSize : UInt64) : Synced (Store.new Disk.empty chunkSize) := by
  have hnone : ∀ key, (Store.new Disk.empty chunkSize).content key = none := fun key => by
    simp [content, Store.entry, Store.new, Disk.empty, Index.empty]
  refine synced_new chunkSize (fun key c hc => ?_) fun key c k o hr => ?_
  · rw [hnone] at hc
    cases hc
  · have hc := hr.1
    rw [hnone] at hc
    cases hc

/-! ## The operations -/

/-- What a drop of content leaves was there. -/
lemma Shrinks.origin (h : s.Shrinks s') {key : Str} {c : ContentRef}
    (hc : s'.content key = some c) : ∃ old, s.content old = some c := by
  obtain ⟨orphans, hd, -⟩ := h
  exact ⟨key, hd.kept key c hc⟩

lemma Shrinks.nextObject (h : s.Shrinks s') : s'.index.nextObject = s.index.nextObject := by
  obtain ⟨orphans, hd, -⟩ := h
  exact hd.next

lemma Synced.putAttrs (h : Synced s) (path : RemotePath) (attrs : FileAttributes) :
    Synced (s.putAttrs path attrs) := by
  have hs := shrinks_putAttrs path attrs s
  refine h.persisted ?_ hs.nextObject fun key c => hs.origin
  simp [Store.putAttrs]

lemma Synced.recordListing (h : Synced s) (parent : RemotePath)
    (children : List (Str × FileAttributes)) : Synced (s.recordListing parent children) := by
  have hs := shrinks_recordListing parent children s
  refine h.persisted ?_ hs.nextObject fun key c => hs.origin
  simp [Store.recordListing]

lemma Synced.rename (h : Synced s) (src dst : RemotePath) : Synced (s.rename src dst) :=
  h.persisted (by simp [Store.rename]) (rename_nextObject src dst s) fun _ _ => rename_origin

lemma Synced.invalidateChildren (h : Synced s) (path : RemotePath) :
    Synced (s.invalidateChildren path) := by
  have hs := shrinks_invalidateChildren path s
  cases hlist : s.index.listings.lookup path.asStr with
  | some names =>
      refine h.persisted ?_ hs.nextObject fun key c => hs.origin
      simp [Store.invalidateChildren, hlist, persistIf]
  | none =>
      refine h.congr ?_ hs.nextObject.ge (fun key => ?_) fun key => ?_
      · simp [Store.invalidateChildren, hlist, persistIf]
      · exact entry_invalidateChildren path s key
      · rw [listing_invalidateChildren]
        split
        · next hkey =>
            rw [hkey]
            exact hlist.symm
        · rfl

lemma Synced.remove (h : Synced s) (path : RemotePath) : Synced (s.remove path) := by
  have hs := shrinks_remove path s
  cases hchanged : (s.index.entries.lookup path.asStr).isSome ||
      (s.index.listings.lookup path.asStr).isSome with
  | true =>
      refine h.persisted ?_ hs.nextObject fun key c => hs.origin
      simp [Store.remove, hchanged, persistIf]
  | false =>
      -- neither an entry nor a listing is there to be removed
      obtain ⟨hentry, hlisting⟩ := Bool.or_eq_false_iff.mp hchanged
      have hentry : s.entry path.asStr = none := by simpa [Store.entry] using hentry
      have hlisting : s.listing path.asStr = none := by simpa [Store.listing] using hlisting
      refine h.congr ?_ hs.nextObject.ge (fun key => ?_) fun key => ?_
      · simp [Store.remove, hchanged, persistIf]
      · rw [entry_remove]
        split
        · next hkey => rw [hkey, hentry]
        · rfl
      · rw [listing_remove]
        split
        · next hkey => rw [hkey, hlisting]
        · rfl

lemma Synced.invalidateContent (h : Synced s) (path : RemotePath) :
    Synced (s.invalidateContent path) := by
  have hs := shrinks_invalidateContent path s
  cases hlook : s.index.entries.lookup path.asStr with
  | none =>
      have hsame : s.invalidateContent path = s := by simp [Store.invalidateContent, hlook]
      rw [hsame]
      exact h
  | some e =>
      by_cases hobjects : e.objects = []
      · -- an entry without objects has no content
        have hnone : e.content = none := by
          cases hc : e.content with
          | none => rfl
          | some c =>
              have hcontent : s.content path.asStr = some c := by
                rw [content, Store.entry, hlook]
                exact hc
              refine absurd ?_ (h.filled path.asStr c hcontent)
              rwa [Entry.objects, hc] at hobjects
        refine h.congr ?_ hs.nextObject.ge (fun key => ?_) fun key => ?_
        · simp [Store.invalidateContent, hlook, hobjects, persistIf]
        · rw [entry_invalidateContent]
          split
          · next hkey =>
              rw [hkey, Store.entry, hlook, Option.map_some, ← hnone]
          · rfl
        · exact listing_invalidateContent path s key
      · refine h.persisted ?_ hs.nextObject fun key c => hs.origin
        simp [Store.invalidateContent, hlook, hobjects, persistIf]

/-- Recording a chunk persists the index, and the counter is past the new object. -/
lemma Synced.recordChunk (h : Synced s) (path : RemotePath) (attrs : FileAttributes) {k o : ℕ}
    (hlt : o < s.index.nextObject) : Synced (s.recordChunk path attrs k o) := by
  have hdisk : (s.recordChunk path attrs k o).disk.index =
      some (s.recordChunk path attrs k o).index := rfl
  refine ⟨fun key => by rw [stored, hdisk]; rfl, fun key => by rw [storedListing, hdisk]; rfl,
    fun key c hc => ?_, fun key c k' x hr => ?_, by rw [storedNext, hdisk]; rfl⟩
  · rw [content_recordChunk] at hc
    split at hc
    · -- the new reference has the recorded chunk
      cases hc
      have hlook := recordedContent_lookup path attrs k o s k
      rw [if_pos rfl] at hlook
      apply List.append_ne_nil_of_right_ne_nil
      exact List.ne_nil_of_mem (FMap.mem_values_iff.mpr ⟨k, hlook⟩)
    · exact h.filled key c hc
  · rw [storedNext, hdisk]
    show x < (s.recordChunk path attrs k o).index.nextObject
    rw [recordChunk_nextObject]
    rcases recorded_recordChunk hr with ⟨-, -, rfl, -⟩ | ⟨c₀, hr₀, -, -⟩
    · exact hlt
    · exact lt_of_lt_of_le (h.below key c₀ k' x hr₀) h.next_le

end Store

lemma ReadTask.Steps.synced {ρ : Type} {R : RemoteFilesystem ρ} {a : ReadArgs}
    {w w' : StoreWorld ρ} {pc pc' : ReadPc} (h : ReadTask.Steps R a w pc pc' w')
    (hs : w.store.Synced) (ho : ReadTask.Owned pc w.store) : w'.store.Synced := by
  cases h with
  | alloc => exact hs.congr rfl (Nat.le_succ _) (fun _ => rfl) fun _ => rfl
  | record => exact hs.recordChunk _ _ (ho.free _ rfl).1
  | _ => exact hs.congr rfl (le_refl _) (fun _ => rfl) fun _ => rfl

/-! ## Sessions -/

/-- An operation of the running session, or its end and the start of the next one on the same
directory. -/
inductive SessionEvent (ρ : Type)
  | op (e : StoreEvent ρ)
  | reopen (chunkSize : UInt64)

namespace Store

variable {ρ : Type} {R : RemoteFilesystem ρ} {G : Str → Label → ℕ → Bytes → Prop} {s s' : Store}

/-- `Store::new` on the directory of a store, with the same chunk size. -/
def reopened (s : Store) : Store := Store.new s.disk (UInt64.ofNat s.chunkSize)

@[simp] lemma reopened_chunkSize (s : Store) : s.reopened.chunkSize = s.chunkSize := by
  have hlt := s.chunkSize_lt
  have hpos := s.chunkSize_pos
  show max (UInt64.ofNat s.chunkSize).toNat 1 = s.chunkSize
  rw [UInt64.toNat_ofNat', Nat.mod_eq_of_lt hlt]
  omega

/-- The session that is opened next has the entries of the last one. -/
lemma Synced.entry_new (h : Synced s) (chunkSize : UInt64) (key : Str) :
    (Store.new s.disk chunkSize).entry key = s.entry key := h.entry key

lemma Synced.content_new (h : Synced s) (chunkSize : UInt64) (key : Str) :
    (Store.new s.disk chunkSize).content key = s.content key := by
  rw [content, h.entry_new, content]

/-- A directory on which a session can be opened. -/
def Reopens (G : Str → Label → ℕ → Bytes → Prop) (d : Disk) : Prop :=
  ∀ chunkSize, (Store.new d chunkSize).Sound G ∧ (Store.new d chunkSize).Synced

/-- A directory with the index of a synced store and the objects that it refers to. -/
lemma reopens_of_agrees (hs : Sound G s) (hy : Synced s) {d : Disk}
    (hindex : d.index = s.disk.index)
    (hobject : ∀ key c k o, s.Recorded key c k o → d.objects.lookup o = s.object o) :
    Reopens G d := by
  intro chunkSize
  have hentry : ∀ key, (Store.new d chunkSize).entry key = s.entry key := fun key => by
    rw [← hy.entry, stored, ← hindex]
    rfl
  have hrec : ∀ {key c k o}, (Store.new d chunkSize).Recorded key c k o → s.Recorded key c k o :=
    fun hr => ⟨by rw [content, ← hentry]; exact hr.1, hr.2⟩
  have hnext : (Store.new d chunkSize).index.nextObject = s.storedNext := by
    rw [storedNext, ← hindex]
    rfl
  have hcontent : ∀ key, (Store.new d chunkSize).content key = s.content key := fun key => by
    rw [content, hentry, content]
  have hbelow : ∀ key c k o, (Store.new d chunkSize).Recorded key c k o →
      o < (Store.new d chunkSize).index.nextObject := fun key c k o hr => by
    rw [hnext]
    exact hy.below key c k o (hrec hr)
  refine ⟨⟨fun key c hc => hs.legacy key c ((hcontent key).symm.trans hc), hbelow,
    fun key c k key' c' k' o hr hr' => hs.unique key c k key' c' k' o (hrec hr) (hrec hr'),
    fun key c k o hr => ?_⟩, synced_new chunkSize (fun key c hc => ?_) hbelow⟩
  · obtain ⟨b, hb, hG⟩ := hs.good key c k o (hrec hr)
    exact ⟨b, (hobject key c k o (hrec hr)).trans hb, hG⟩
  · exact hy.filled key c ((hcontent key).symm.trans hc)

lemma Synced.reopens (hy : Synced s) (hs : Sound G s) : Reopens G s.disk :=
  reopens_of_agrees hs hy rfl fun _ _ _ _ _ => rfl

/-- What a session keeps of its directory, whatever the remote answers. -/
def Durable (s : Store) : Prop := s.Sound (fun _ _ _ _ => True) ∧ s.Synced

lemma Durable.read (h : Durable s) (path : RemotePath) (attrs : FileAttributes) (offset : UInt64)
    (size : UInt32) (c : Conn ρ) : Durable (s.read R path attrs offset size c).2.1 := by
  have hruns := ReadTask.runs_read (R := R) (a := ⟨path, attrs, offset, size⟩) s c
  refine (ReadTask.Runs.induction
    (P := fun x => Durable x.2.store ∧ ReadTask.Owned x.1 x.2.store) (fun x hx => ?_) hruns
    ⟨h, ReadTask.owned_of_none (ReadTask.owns_start _ _) _⟩).1
  have hstep := ReadTask.steps_next R ⟨path, attrs, offset, size⟩ x.2 x.1
  exact ⟨⟨hstep.sound hx.1.1 hx.2 fun _ _ _ _ _ _ => trivial, hstep.synced hx.1.2 hx.2⟩,
    hstep.owned hx.1.1 hx.2⟩

/-! ## The same answers -/

/-- Two stores answer the same. -/
structure SameAnswers (s s' : Store) : Prop where
  entry : ∀ key, s'.entry key = s.entry key
  listing : ∀ key, s'.listing key = s.listing key
  getAttrs : ∀ path, s'.getAttrs path = s.getAttrs path
  getChildren : ∀ path, s'.getChildren path = s.getChildren path
  readCached : ∀ path offset size, s'.readCached path offset size = s.readCached path offset size

lemma readPieces_congr (hsize : s'.chunkSize = s.chunkSize)
    (hobject : ∀ o, s'.object o = s.object o) (chunks : FMap ℕ ℕ) (offset stop : ℕ)
    (rest : List ℕ) (data : Bytes) :
    s'.readPieces chunks offset stop rest data = s.readPieces chunks offset stop rest data := by
  induction rest generalizing data with
  | nil => rfl
  | cons chunk rest ih =>
      have hpiece : s'.readPiece chunks offset stop chunk =
          s.readPiece chunks offset stop chunk := by
        simp only [readPiece, readObject, hsize, hobject]
      simp only [readPieces, hpiece, ih]

lemma readCached_congr (hsize : s'.chunkSize = s.chunkSize)
    (hobject : ∀ o, s'.object o = s.object o) (hcontent : ∀ key, s'.content key = s.content key)
    (path : RemotePath) (offset : UInt64) (size : UInt32) :
    s'.readCached path offset size = s.readCached path offset size := by
  simp only [readCached, readCachedRange, chunkMap, hcontent, hsize,
    readPieces_congr hsize hobject]

lemma Synced.sameAnswers (h : Synced s) : SameAnswers s s.reopened where
  entry := h.entry
  listing := h.listing
  getAttrs path := by rw [getAttrs_eq, reopened, h.entry_new, getAttrs_eq]
  getChildren path := h.listing path.asStr
  readCached := readCached_congr (reopened_chunkSize s) (fun _ => rfl) (h.content_new _)

end Store

namespace StoreWorld

variable {ρ : Type} (R : RemoteFilesystem ρ)

/-- One event of a run over several sessions. -/
def session (w : StoreWorld ρ) : SessionEvent ρ → StoreWorld ρ
  | .op e => w.step R e
  | .reopen chunkSize => { w with store := Store.new w.store.disk chunkSize }

variable {R}

lemma durable_step (w : StoreWorld ρ) (e : StoreEvent ρ) (h : w.store.Durable) :
    (w.step R e).store.Durable := by
  obtain ⟨hs, hy⟩ := h
  cases e with
  | putAttrs path attrs => exact ⟨hs.putAttrs path attrs, hy.putAttrs path attrs⟩
  | recordListing parent children =>
      exact ⟨hs.recordListing parent children, hy.recordListing parent children⟩
  | invalidateContent path => exact ⟨hs.invalidateContent path, hy.invalidateContent path⟩
  | invalidateChildren path => exact ⟨hs.invalidateChildren path, hy.invalidateChildren path⟩
  | remove path => exact ⟨hs.remove path, hy.remove path⟩
  | rename src dst =>
      refine ⟨hs.rename (fun _ _ _ _ _ => trivial) (fun _ _ _ _ _ _ => trivial)
        (fun _ _ _ _ _ _ _ _ _ => trivial), hy.rename src dst⟩
  | read path attrs offset size => exact Store.Durable.read ⟨hs, hy⟩ path attrs offset size w.conn
  | readCached path offset size => exact ⟨hs, hy⟩
  | external remote => exact ⟨hs, hy⟩

lemma durable_session (w : StoreWorld ρ) (e : SessionEvent ρ) (h : w.store.Durable) :
    (w.session R e).store.Durable := by
  cases e with
  | op e => exact durable_step w e h
  | reopen chunkSize => exact h.2.reopens h.1 chunkSize

lemma durable_start (chunkSize : UInt64) (conn : Conn ρ) :
    (start chunkSize conn).store.Durable :=
  ⟨Store.sound_new_empty chunkSize, Store.synced_new_empty chunkSize⟩

/-- What every run over several sessions keeps, whatever the remote answers. -/
lemma durable_run (chunkSize : UInt64) (conn : Conn ρ) (es : List (SessionEvent ρ)) :
    (run (session R) (start chunkSize conn) es).store.Durable :=
  invariant_of_step durable_session (durable_start chunkSize conn) es

/-- **Reopening the directory gives the same store.**  After every run of operations from an
empty directory, over any number of sessions and whatever the remote answers, the store that is
opened on the directory has the entries and listings of the running one and answers the same;
and its counter of object ids is past every id that its index refers to. -/
theorem reopen_same (chunkSize : UInt64) (conn : Conn ρ) (es : List (SessionEvent ρ)) :
    (run (session R) (start chunkSize conn) es).store.SameAnswers
      (run (session R) (start chunkSize conn) es).store.reopened ∧
    ∀ key c o, (run (session R) (start chunkSize conn) es).store.reopened.content key = some c →
      o ∈ contentObjects c →
      o < (run (session R) (start chunkSize conn) es).store.reopened.index.nextObject := by
  obtain ⟨hs, hy⟩ := durable_run (R := R) chunkSize conn es
  refine ⟨hy.sameAnswers, fun key c o hc ho => ?_⟩
  have hopen := (hy.reopens hs
    (UInt64.ofNat (run (session R) (start chunkSize conn) es).store.chunkSize)).1
  obtain ⟨k, hk⟩ := (hopen.mem_contentObjects hc).mp ho
  exact hopen.below key c k o ⟨hc, hk⟩

end StoreWorld

end CacheShfs
