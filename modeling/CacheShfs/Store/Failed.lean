import CacheShfs.Store.Frame
import CacheShfs.Store.Offline

/-!
# A failed read loses nothing

A read fetches its missing chunks one after the other, each into an object of its own, and ends
with the first error of the remote.  By then earlier chunks may have been recorded.  What was
cached before stays cached (`FailedRead`); the chunk that failed leaves nothing but a used object
id, and no temp file is left.

An error of the remote is one that the remote has answered during the read (`Conn.Answered`).  The
other errors of a read come from the cache directory, after the last chunk has been fetched.
-/

namespace CacheShfs

open Machine

/-- Between `c` and `c'` a read of `path` has been answered with the error. -/
def Conn.Answered {ρ : Type} (c c' : Conn ρ) (path : RemotePath) (e : Error) : Prop :=
  ∃ calls, c'.log = calls ++ c.log ∧
    ∃ offset size, (c.now, RemoteCall.read path offset size (.error e)) ∈ calls

namespace Store

variable {ρ : Type} {R : RemoteFilesystem ρ} {s s' : Store}

/-- The download of chunk `k` has failed: the chunk is missing, and nothing refers to the object
id that has been taken for it. -/
structure ChunkFailed (path : RemotePath) (attrs : FileAttributes) (k o : ℕ) (s s' : Store) :
    Prop where
  taken : s.index.nextObject ≤ o ∧ o < s'.index.nextObject
  missing : s'.cachedChunk path attrs k = none
  unreferenced : s'.Unreferenced o

/-- What a read that an error of the remote has ended leaves behind. -/
structure FailedRead (path : RemotePath) (attrs : FileAttributes) (range : List ℕ)
    (s s' : Store) : Prop where
  listing : ∀ key, s'.listing key = s.listing key
  entry_ne : ∀ key, key ≠ path.asStr → s'.entry key = s.entry key
  attrs_kept : ∀ e, s.entry path.asStr = some e →
    ∃ e', s'.entry path.asStr = some e' ∧ e'.attrs = e.attrs
  chunk : ∀ k o, s.cachedChunk path attrs k = some o →
    s'.cachedChunk path attrs k = some o ∧ s'.object o = s.object o
  failed : ∃ k ∈ range, ∃ o, ChunkFailed path attrs k o s s'
  temps : ∀ t, s'.disk.temps.lookup t = none

/-! ## The chunk that fails -/

lemma fetchChunk_failed (hs : Kept s) {path : RemotePath} {attrs : FileAttributes} {k : ℕ}
    {c c' : Conn ρ} {e : Error} (hmiss : s.cachedChunk path attrs k = none)
    (h : s.fetchChunk R path attrs k c = (.error e, s', c')) :
    ChunkFailed path attrs k s.index.nextObject s s' := by
  unfold fetchChunk at h
  simp only at h
  set s₁ := (s.allocObject.2.createTemp s.allocObject.1).2
  set temp := (s.allocObject.2.createTemp s.allocObject.1).1
  have hframe := (download_frame (R := R) path (k * s₁.chunkSize) (s₁.chunkLen attrs k) temp
    (s₁.chunkLen attrs k) 0 s₁ c).1
  split at h
  · next e₂ s₂ c₂ heq =>
      rw [heq] at hframe
      cases h
      have hsame : SameContents s₁ (s₂.emit (.removeTemp temp)) :=
        ⟨hframe.chunkSize, hframe.index, hframe.object⟩
      obtain ⟨-, hfree, hlt⟩ := Sound.downloaded hs hsame
      refine ⟨⟨le_refl _, hlt⟩, ?_, hfree⟩
      rw [cachedChunk_of_entries (s := s) (by rw [hsame.index]; rfl) hsame.chunkSize]
      exact hmiss
  · cases h

lemma fetchChunk_next (path : RemotePath) (attrs : FileAttributes) (k : ℕ)
    (c : Conn ρ) :
    s.index.nextObject ≤ (s.fetchChunk R path attrs k c).2.1.index.nextObject := by
  unfold fetchChunk
  simp only
  set s₁ := (s.allocObject.2.createTemp s.allocObject.1).2
  set temp := (s.allocObject.2.createTemp s.allocObject.1).1
  have hframe := (download_frame (R := R) path (k * s₁.chunkSize) (s₁.chunkLen attrs k) temp
    (s₁.chunkLen attrs k) 0 s₁ c).1
  have hnext : s.index.nextObject ≤ s₁.index.nextObject := Nat.le_succ _
  split
  · next e s₂ c₂ heq =>
      rw [heq] at hframe
      show _ ≤ s₂.index.nextObject
      rwa [hframe.index]
  · next s₂ c₂ heq =>
      rw [heq] at hframe
      rw [recordChunk_nextObject]
      show _ ≤ s₂.index.nextObject
      rwa [hframe.index]

lemma fetchMissing_failed {path : RemotePath} {attrs : FileAttributes} {ks : List ℕ}
    {c c' : Conn ρ} {e : Error} (hs : Kept s)
    (h : fetchMissing R path attrs ks s c = (.error e, s', c')) :
    ∃ k ∈ ks, ∃ o, ChunkFailed path attrs k o s s' := by
  induction ks generalizing s c with
  | nil => cases h
  | cons k ks ih =>
      rw [fetchMissing] at h
      cases hk : s.cachedChunk path attrs k with
      | some o =>
          rw [hk] at h
          obtain ⟨j, hj, hfailed⟩ := ih hs h
          exact ⟨j, List.mem_cons_of_mem _ hj, hfailed⟩
      | none =>
          rw [hk] at h
          simp only at h
          split at h
          · next o s₁ c₁ heq =>
              have hs₁ := (fetchChunk_keeps (R := R) c hs hk).1
              have hnext := fetchChunk_next (s := s) (R := R) path attrs k c
              rw [heq] at hs₁ hnext
              obtain ⟨j, hj, x, hfailed⟩ := ih hs₁ h
              exact ⟨j, List.mem_cons_of_mem _ hj, x,
                ⟨⟨hnext.trans hfailed.taken.1, hfailed.taken.2⟩, hfailed.missing,
                  hfailed.unreferenced⟩⟩
          · next e₁ s₁ c₁ heq =>
              cases h
              exact ⟨k, List.mem_cons_self, _, fetchChunk_failed hs hk heq⟩

/-! ## The calls of a fetch that succeeds -/

/-- Every call between `c` and `c'` has been answered with bytes. -/
def AllServed (c c' : Conn ρ) : Prop :=
  c'.now = c.now ∧ ∃ calls, c'.log = calls ++ c.log ∧
    ∀ x ∈ calls, ∃ path offset size data, x.2 = RemoteCall.read path offset size (.ok data)

lemma AllServed.refl (c : Conn ρ) : AllServed c c := ⟨rfl, [], rfl, by simp⟩

lemma AllServed.trans {c₁ c₂ c₃ : Conn ρ} (h : AllServed c₁ c₂) (h' : AllServed c₂ c₃) :
    AllServed c₁ c₃ := by
  obtain ⟨hnow, calls, hlog, hserved⟩ := h
  obtain ⟨hnow', calls', hlog', hserved'⟩ := h'
  refine ⟨hnow'.trans hnow, calls' ++ calls, by rw [hlog', hlog, List.append_assoc], ?_⟩
  intro x hx
  rcases List.mem_append.mp hx with hx | hx
  · exact hserved' x hx
  · exact hserved x hx

lemma AllServed.not_answered {c c' : Conn ρ} (h : AllServed c c') (path : RemotePath) (e : Error) :
    ¬ c.Answered c' path e := by
  rintro ⟨calls, hlog, offset, size, hmem⟩
  obtain ⟨-, calls', hlog', hserved⟩ := h
  obtain rfl := List.append_cancel_right (hlog.symm.trans hlog')
  obtain ⟨_, _, _, _, hcall⟩ := hserved _ hmem
  cases hcall

lemma download_served {path : RemotePath} {start len : ℕ} {temp : TempName} {fuel filled : ℕ}
    {c c' : Conn ρ} (h : download R path start len temp fuel filled s c = (.ok (), s', c')) :
    AllServed c c' := by
  induction fuel generalizing filled s c with
  | zero =>
      cases h
      exact .refl _
  | succ fuel ih =>
      rw [download] at h
      split at h
      · split at h
        · cases h
        · next data c₁ heq =>
            have hpass : AllServed c c₁ := by
              rw [Conn.read] at heq
              simp only [Prod.mk.injEq] at heq
              obtain ⟨hanswer, rfl⟩ := heq
              refine ⟨rfl, [_], rfl, fun x hx => ?_⟩
              rw [List.mem_singleton.mp hx, hanswer]
              exact ⟨_, _, _, data, rfl⟩
            split at h
            · cases h
              exact hpass
            · exact hpass.trans (ih h)
      · cases h
        exact .refl _

lemma fetchChunk_served {path : RemotePath} {attrs : FileAttributes} {k o : ℕ} {c c' : Conn ρ}
    (h : s.fetchChunk R path attrs k c = (.ok o, s', c')) : AllServed c c' := by
  unfold fetchChunk at h
  simp only at h
  split at h
  · cases h
  · next heq =>
      cases h
      exact download_served heq

lemma fetchMissing_served {path : RemotePath} {attrs : FileAttributes} {ks : List ℕ}
    {c c' : Conn ρ} (h : fetchMissing R path attrs ks s c = (.ok (), s', c')) :
    AllServed c c' := by
  induction ks generalizing s c with
  | nil =>
      cases h
      exact .refl _
  | cons k ks ih =>
      rw [fetchMissing] at h
      split at h
      · exact ih h
      · split at h
        · next heq => exact (fetchChunk_served heq).trans (ih h)
        · cases h

/-! ## Temp files -/

/-- The directory for temp files is empty. -/
def NoTemps (s : Store) : Prop := ∀ t, s.disk.temps.lookup t = none

lemma NoTemps.congr (h : NoTemps s) (htemps : s'.disk.temps = s.disk.temps) : NoTemps s' :=
  fun t => by rw [htemps]; exact h t

lemma temps_persistIf (b : Bool) (s : Store) :
    (s.persistIf b).disk.temps = s.disk.temps := by cases b <;> rfl

lemma Sweeps.noTemps (h : s.Sweeps s') (hn : NoTemps s) : NoTemps s' := by
  obtain ⟨orphans, persisted, -, heq⟩ := h
  refine hn.congr ?_
  rw [heq, removeObjects_temps, temps_persistIf]
  rfl

/-- A download writes to its own temp file only. -/
lemma download_temps (path : RemotePath) (start len : ℕ) (temp : TempName) (fuel filled : ℕ)
    (s : Store) (c : Conn ρ) {t : TempName} (ht : t ≠ temp) :
    (download R path start len temp fuel filled s c).2.1.disk.temps.lookup t =
      s.disk.temps.lookup t := by
  induction fuel generalizing filled s c with
  | zero => rfl
  | succ fuel ih =>
      rw [download]
      split
      · split
        · rfl
        · next data c₁ _ =>
            split
            · rfl
            · rw [ih]
              exact AList.lookup_insert_ne ht
      · rfl

lemma NoTemps.fetchChunk (h : NoTemps s) (path : RemotePath) (attrs : FileAttributes) (k : ℕ)
    (c : Conn ρ) : NoTemps (s.fetchChunk R path attrs k c).2.1 := by
  unfold Store.fetchChunk
  simp only
  set s₁ := (s.allocObject.2.createTemp s.allocObject.1).2
  set temp := (s.allocObject.2.createTemp s.allocObject.1).1
  have hothers : ∀ t, t ≠ temp → (download R path (k * s₁.chunkSize) (s₁.chunkLen attrs k) temp
      (s₁.chunkLen attrs k) 0 s₁ c).2.1.disk.temps.lookup t = none := by
    intro t ht
    rw [download_temps path _ _ temp _ _ s₁ c ht]
    exact (AList.lookup_insert_ne ht).trans (h t)
  -- the own one is removed after a failure, and becomes the object after a success
  have hown : ∀ d : FMap TempName Bytes, (∀ t, t ≠ temp → d.lookup t = none) →
      ∀ t, (d.erase temp).lookup t = none := by
    intro d hd t
    rw [FMap.lookup_erase_eq_ite]
    split
    · rfl
    · next hne => exact hd t hne
  split
  · next heq =>
      rw [heq] at hothers
      exact hown _ hothers
  · next s₂ c₂ heq =>
      rw [heq] at hothers
      intro t
      rw [Store.recordChunk]
      show ((Store.removeObjects _ _).disk.temps).lookup t = none
      rw [removeObjects_temps]
      exact hown _ hothers t

lemma NoTemps.read (h : NoTemps s) (path : RemotePath) (attrs : FileAttributes) (offset : UInt64)
    (size : UInt32) (c : Conn ρ) : NoTemps (s.read R path attrs offset size c).2.1 := by
  have hmissing : ∀ (ks : List ℕ) (s : Store) (c : Conn ρ), NoTemps s →
      NoTemps (fetchMissing R path attrs ks s c).2.1 := by
    intro ks
    induction ks with
    | nil => exact fun s c hs => hs
    | cons k ks ih =>
        intro s c hs
        rw [fetchMissing]
        split
        · exact ih s c hs
        · have hfetch := hs.fetchChunk (R := R) path attrs k c
          split
          · next heq =>
              rw [heq] at hfetch
              exact ih _ _ hfetch
          · next heq =>
              rw [heq] at hfetch
              exact hfetch
  rw [Store.read]
  split
  · exact h
  · have hfetch := hmissing (chunkRange offset.toNat (readStop offset size attrs.size) s.chunkSize)
      s c h
    simp only
    split
    · next heq =>
        rw [heq] at hfetch
        exact hfetch
    · next heq =>
        rw [heq] at hfetch
        exact hfetch

/-! ## The failed read -/

/-- **A failed read loses nothing**, from every store with sound bookkeeping. -/
lemma failedRead (hs : Kept s) (hn : NoTemps s) {path : RemotePath} {attrs : FileAttributes}
    {offset : UInt64} {size : UInt32} {c : Conn ρ} {e : Error}
    (hanswered : c.Answered (s.read R path attrs offset size c).2.2 path e) :
    FailedRead path attrs (chunkRange offset.toNat (readStop offset size attrs.size) s.chunkSize)
      s (s.read R path attrs offset size c).2.1 := by
  have hframe := (read_frame (R := R) path attrs offset size s c).1
  have hkeeps := (read_keeps (R := R) path attrs offset size hs c).1
  refine ⟨hframe.listing, hframe.entry_ne, hframe.attrs_kept, fun k o hk => ?_, ?_,
    hn.read path attrs offset size c⟩
  · obtain ⟨content, hr, -⟩ := recorded_of_cachedChunk hk
    obtain ⟨b, hb, -⟩ := hs.good _ _ _ _ hr
    rw [hb]
    exact hkeeps.chunk k o b hk hb
  · rw [Store.read] at hanswered ⊢
    split at hanswered
    · exact absurd hanswered (AllServed.not_answered (.refl c) path e)
    · next hempty =>
        rw [if_neg hempty]
        simp only at hanswered ⊢
        split at hanswered
        · -- all chunks have been fetched, so every call has been answered with bytes
          next heq => exact absurd hanswered ((fetchMissing_served heq).not_answered path e)
        · next heq => exact fetchMissing_failed hs heq

end Store

namespace StoreWorld

variable {ρ : Type} {R : RemoteFilesystem ρ}

lemma noTemps_session (w : StoreWorld ρ) (e : SessionEvent ρ) (h : w.store.NoTemps) :
    (w.session R e).store.NoTemps := by
  cases e with
  | reopen chunkSize => exact h
  | op e =>
      cases e with
      | putAttrs path attrs => exact (Store.sweeps_putAttrs path attrs w.store).noTemps h
      | recordListing parent children =>
          exact (Store.sweeps_recordListing parent children w.store).noTemps h
      | invalidateContent path => exact (Store.sweeps_invalidateContent path w.store).noTemps h
      | invalidateChildren path => exact (Store.sweeps_invalidateChildren path w.store).noTemps h
      | remove path => exact (Store.sweeps_remove path w.store).noTemps h
      | rename src dst => exact (Store.sweeps_rename src dst w.store).noTemps h
      | read path attrs offset size => exact h.read path attrs offset size w.conn
      | readCached path offset size => exact h
      | external remote => exact h

/-- **A failed read never loses cached data.**  After every run of operations from an empty
directory, over any number of sessions and whatever the remote answers: a read during which the
remote has answered with an error leaves the listings, the entries of all other paths, the
attributes at its path and every chunk of its version as they were; the chunk that failed is not
recorded, and no temp file is left. -/
theorem failed_read_keeps (chunkSize : UInt64) (conn : Conn ρ) (es : List (SessionEvent ρ))
    (path : RemotePath) (attrs : FileAttributes) (offset : UInt64) (size : UInt32) (e : Error)
    (hanswered : (run (session R) (start chunkSize conn) es).conn.Answered
      ((run (session R) (start chunkSize conn) es).store.read R path attrs offset size
        (run (session R) (start chunkSize conn) es).conn).2.2 path e) :
    Store.FailedRead path attrs (chunkRange offset.toNat (Store.readStop offset size attrs.size)
        (run (session R) (start chunkSize conn) es).store.chunkSize)
      (run (session R) (start chunkSize conn) es).store
      ((run (session R) (start chunkSize conn) es).store.read R path attrs offset size
        (run (session R) (start chunkSize conn) es).conn).2.1 := by
  have hw := durable_run (R := R) chunkSize conn es
  have hn : (run (session R) (start chunkSize conn) es).store.NoTemps :=
    invariant_of_step noTemps_session (fun _ => rfl) es
  exact Store.failedRead hw.1 hn hanswered

/-! A file of which one chunk is cached when it is deleted on the server. -/

def cachedThenDeleted : List (SessionEvent Memory) :=
  [.op (.read fileF (attrsF 5 1) 0 2), .op (.external Memory.empty)]

theorem failed_read_keeps_deleted :
    Store.FailedRead fileF (attrsF 5 1) [0, 1]
      (run (session Memory.filesystem) (start 2 ⟨firstVersion, 0, []⟩) cachedThenDeleted).store
      ((run (session Memory.filesystem) (start 2 ⟨firstVersion, 0, []⟩)
        cachedThenDeleted).store.read Memory.filesystem fileF (attrsF 5 1) 0 4
        (run (session Memory.filesystem) (start 2 ⟨firstVersion, 0, []⟩)
          cachedThenDeleted).conn).2.1 :=
  failed_read_keeps (R := Memory.filesystem) 2 ⟨firstVersion, 0, []⟩ cachedThenDeleted fileF
    (attrsF 5 1) 0 4 .notFound
    ⟨[(0, .read fileF 2 2 (.error .notFound))], rfl, 2, 2, .head _⟩

end StoreWorld

end CacheShfs
