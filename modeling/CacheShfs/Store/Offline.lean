import CacheShfs.Store.Reopen

/-!
# Reads without the remote

`Store::read` when no download succeeds, and `Store::read_cached`, which never tries one.  The two
take the length of the file from different places: the first from the attributes it is called
with, the second from the content reference.

What a range read gives when nothing can be fetched depends on the chunk map alone as soon as the
objects it refers to exist (`readCachedRange_cases`): the assembled bytes if all chunks of the range
are there, the error for contents that are not cached if one is missing.
-/

namespace CacheShfs

/-- Every call by which the cache asks the remote fails, with an error of the kind `P`. -/
structure RemoteFilesystem.Fails {ρ : Type} (R : RemoteFilesystem ρ) (P : Error → Prop) : Prop where
  stat : ∀ path r, ∃ e, P e ∧ (R.stat path r).1 = .error e
  readDir : ∀ path r, ∃ e, P e ∧ (R.readDir path r).1 = .error e
  read : ∀ path offset size r, ∃ e, P e ∧ (R.read path offset size r).1 = .error e

namespace Store

variable {ρ : Type} {R : RemoteFilesystem ρ} {P : Error → Prop} {s s' : Store}

/-- Every content reference has the size and the mtime of its entry's attributes. -/
def Labelled (s : Store) : Prop :=
  ∀ key e c, s.entry key = some e → e.content = some c →
    c.size = e.attrs.size ∧ c.modified = e.attrs.modified

/-- Every object that the index refers to exists. -/
def ObjectsExist (s : Store) : Prop :=
  ∀ key c o, s.content key = some c → o ∈ contentObjects c → s.object o ≠ none

/-- Two stores hold the same: entries, listings and objects. -/
structure SameCache (s s' : Store) : Prop where
  chunkSize : s'.chunkSize = s.chunkSize
  entry : ∀ key, s'.entry key = s.entry key
  listing : ∀ key, s'.listing key = s.listing key
  object : ∀ o, s'.object o = s.object o

lemma SameCache.refl (s : Store) : SameCache s s := ⟨rfl, fun _ => rfl, fun _ => rfl, fun _ => rfl⟩

lemma SameCache.content (h : SameCache s s') (key : Str) : s'.content key = s.content key := by
  rw [Store.content, h.entry, Store.content]

lemma SameCache.getAttrs (h : SameCache s s') (path : RemotePath) :
    s'.getAttrs path = s.getAttrs path := by
  rw [getAttrs_eq, h.entry, getAttrs_eq]

lemma SameCache.readCached (h : SameCache s s') (path : RemotePath) (offset : UInt64)
    (size : UInt32) : s'.readCached path offset size = s.readCached path offset size :=
  readCached_congr h.chunkSize h.object h.content path offset size

/-! ## Ranges of the cache -/

lemma ObjectsExist.chunk (h : ObjectsExist s) {key : Str} {c : ContentRef}
    (hc : s.content key = some c) {k o : ℕ} (hk : c.chunks.lookup k = some o) :
    s.object o ≠ none :=
  h key c o hc (List.mem_append_right _ (FMap.mem_values_iff.mpr ⟨k, hk⟩))

/-- A piece can be read as soon as its chunk is in the map. -/
lemma readPiece_opens {chunks : FMap ℕ ℕ}
    (hopen : ∀ k o, chunks.lookup k = some o → s.object o ≠ none) (offset stop : ℕ) {k o : ℕ}
    (hk : chunks.lookup k = some o) : ∃ b, s.readPiece chunks offset stop k = .ok b := by
  obtain ⟨b, hb⟩ := Option.ne_none_iff_exists'.mp (hopen k o hk)
  simp [readPiece, hk, readObject, hb]

lemma readPieces_opens {chunks : FMap ℕ ℕ}
    (hopen : ∀ k o, chunks.lookup k = some o → s.object o ≠ none) (offset stop : ℕ) (ks : List ℕ)
    (data : Bytes) :
    (∃ d, (∀ k ∈ ks, chunks.lookup k ≠ none) ∧
        s.readPieces chunks offset stop ks data = .ok d) ∨
      (∃ k ∈ ks, chunks.lookup k = none) ∧
        s.readPieces chunks offset stop ks data = .error notCached := by
  induction ks generalizing data with
  | nil => exact .inl ⟨data, by simp, rfl⟩
  | cons k ks ih =>
      cases hk : chunks.lookup k with
      | none =>
          refine .inr ⟨⟨k, List.mem_cons_self, hk⟩, ?_⟩
          simp [readPieces, readPiece, hk]
      | some o =>
          obtain ⟨b, hb⟩ := readPiece_opens hopen offset stop hk
          rw [readPieces, hb]
          rcases ih (data ++ b) with ⟨d, hall, hd⟩ | ⟨⟨j, hj, hnone⟩, herr⟩
          · refine .inl ⟨d, fun j hj => ?_, hd⟩
            rcases List.mem_cons.mp hj with rfl | hj
            · simp [hk]
            · exact hall j hj
          · exact .inr ⟨⟨j, List.mem_cons_of_mem _ hj, hnone⟩, herr⟩

/-- **A range of the cache** of one layout: its bytes if all its chunks are there, and the error
for what is not cached if one is missing. -/
lemma readCachedRange_cases (hobjects : ObjectsExist s) {path : RemotePath} {c : ContentRef}
    (hc : s.content path.asStr = some c) (hsize : c.chunkSize = s.chunkSize) (offset stop : ℕ) :
    (∃ d, (∀ k ∈ chunkRange offset stop s.chunkSize, c.chunks.lookup k ≠ none) ∧
        s.readCachedRange path offset stop = .ok d) ∨
      (∃ k ∈ chunkRange offset stop s.chunkSize, c.chunks.lookup k = none) ∧
        s.readCachedRange path offset stop = .error notCached := by
  have hmap : s.chunkMap path = .ok c.chunks := by simp [chunkMap, hc, hsize]
  rw [readCachedRange, hmap]
  exact readPieces_opens (fun k o => hobjects.chunk hc) offset stop _ []

/-! ## Fetching without success -/

/-- Without the remote, fetching gets as far as the first chunk that is not cached. -/
lemma fetchMissing_refused {path : RemotePath} (attrs : FileAttributes) {c : Conn ρ}
    (hread : ∀ o n, ∃ e, P e ∧ (R.read path o n c.remote).1 = .error e) (ks : List ℕ)
    (hks : ∀ k ∈ ks, k * s.chunkSize < attrs.size.toNat) :
    ((∀ k ∈ ks, s.cachedChunk path attrs k ≠ none) ∧
        fetchMissing R path attrs ks s c = (.ok (), s, c)) ∨
      (∃ k ∈ ks, s.cachedChunk path attrs k = none) ∧
        ∃ e s' c', P e ∧ fetchMissing R path attrs ks s c = (.error e, s', c') ∧
          SameCache s s' := by
  induction ks with
  | nil => exact .inl ⟨by simp, rfl⟩
  | cons k ks ih =>
      rw [fetchMissing]
      cases hk : s.cachedChunk path attrs k with
      | none =>
          obtain ⟨e, s', c', hP, heq, hsame⟩ := fetchChunk_refused hread (hks k (by simp))
          refine .inr ⟨⟨k, List.mem_cons_self, hk⟩, e, s', c', hP, by rw [heq], ?_⟩
          exact ⟨hsame.chunkSize, fun key => by rw [entry, hsame.index]; rfl,
            fun key => by rw [listing, hsame.index]; rfl, hsame.object⟩
      | some o =>
          rcases ih fun j hj => hks j (List.mem_cons_of_mem _ hj) with
            ⟨hall, heq⟩ | ⟨⟨j, hj, hnone⟩, hrest⟩
          · refine .inl ⟨fun j hj => ?_, heq⟩
            rcases List.mem_cons.mp hj with rfl | hj
            · simp [hk]
            · exact hall j hj
          · exact .inr ⟨⟨j, List.mem_cons_of_mem _ hj, hnone⟩, hrest⟩

/-- **The read of the cache**, where the attributes are those of the content: all chunks of the
range are cached and it is assembled, or one is missing. -/
lemma readCached_cases {path : RemotePath} {attrs : FileAttributes} (hobjects : ObjectsExist s)
    (hlabel : ∀ content, s.content path.asStr = some content →
      content.size = attrs.size ∧ content.modified = attrs.modifiedUnixSeconds)
    {offset : UInt64} {size : UInt32} (hsize : size ≠ 0) (hlt : offset < attrs.size) :
    (∃ d, (∀ k ∈ chunkRange offset.toNat (readStop offset size attrs.size) s.chunkSize,
        s.cachedChunk path attrs k ≠ none) ∧
        s.readCachedRange path offset.toNat (readStop offset size attrs.size) = .ok d ∧
        s.readCached path offset size = .ok d) ∨
      (∃ k ∈ chunkRange offset.toNat (readStop offset size attrs.size) s.chunkSize,
        s.cachedChunk path attrs k = none) ∧ s.readCached path offset size = .error notCached := by
  have hactive : ¬ (size = 0 ∨ attrs.size ≤ offset) := not_or.mpr ⟨hsize, UInt64.not_le.mpr hlt⟩
  obtain ⟨k₀, hk₀⟩ := List.exists_mem_of_ne_nil _
    (chunkRange_ne_nil s.chunkSize_pos (readStop_spec hsize hlt).1)
  cases hc : s.content path.asStr with
  | none =>
      refine .inr ⟨⟨k₀, hk₀, ?_⟩, ?_⟩
      · simp [cachedChunk, hc]
      · simp [Store.readCached, hc]
  | some content =>
      obtain ⟨hsz, hmod⟩ := hlabel content hc
      by_cases hcs : content.chunkSize = s.chunkSize
      · have hlab : content.label = attrs.label s.chunkSize := by
          rw [ContentRef.label, FileAttributes.label, hsz, hmod, hcs]
        have hchunk : ∀ k, s.cachedChunk path attrs k = content.chunks.lookup k := fun k => by
          simp [cachedChunk, hc, hlab]
        have heq : s.readCached path offset size =
            s.readCachedRange path offset.toNat (readStop offset size attrs.size) := by
          simp only [Store.readCached, hc, hcs, if_true]
          rw [hsz, if_neg hactive]
        simp only [hchunk]
        rcases readCachedRange_cases hobjects hc hcs offset.toNat
          (readStop offset size attrs.size) with ⟨d, hall, hd⟩ | ⟨hmiss, herr⟩
        · exact .inl ⟨d, hall, hd, heq.trans hd⟩
        · exact .inr ⟨hmiss, heq.trans herr⟩
      · -- chunks of another size are not looked at
        have hlab : content.label ≠ attrs.label s.chunkSize := fun h =>
          hcs (congrArg Label.chunkSize h)
        refine .inr ⟨⟨k₀, hk₀, ?_⟩, ?_⟩
        · simp [cachedChunk, hc, hlab]
        · simp [Store.readCached, hc, hcs]

/-- **A range read without the remote** is the read of the cache, where the attributes are those
of the content: it succeeds with the same bytes, or fails as the first download does. -/
lemma read_refused {path : RemotePath} {attrs : FileAttributes} {c : Conn ρ}
    (hobjects : ObjectsExist s)
    (hread : ∀ o n, ∃ e, P e ∧ (R.read path o n c.remote).1 = .error e)
    (hlabel : ∀ content, s.content path.asStr = some content →
      content.size = attrs.size ∧ content.modified = attrs.modifiedUnixSeconds)
    {offset : UInt64} {size : UInt32} (hsize : size ≠ 0) (hlt : offset < attrs.size) :
    SameCache s (s.read R path attrs offset size c).2.1 ∧
      ((∃ d, (s.read R path attrs offset size c).1 = .ok d ∧
          s.readCached path offset size = .ok d) ∨
        (∃ e, P e ∧ (s.read R path attrs offset size c).1 = .error e) ∧
          s.readCached path offset size = .error notCached) := by
  obtain ⟨hstop, hle, -⟩ := readStop_spec hsize hlt
  have hfetch := fetchMissing_refused (P := P) (s := s) attrs hread
    (chunkRange offset.toNat (readStop offset size attrs.size) s.chunkSize) fun k hk => by
      have := (mem_chunkRange s.chunkSize_pos hstop hk).1
      omega
  have hcached := readCached_cases hobjects hlabel hsize hlt
  simp only [Store.read, if_neg (not_or.mpr ⟨hsize, UInt64.not_le.mpr hlt⟩)]
  rcases hfetch with ⟨hall, hf⟩ | ⟨⟨k, hk, hnone⟩, e, s', c', hP, hf, hsame⟩
  · rw [hf]
    refine ⟨.refl s, ?_⟩
    rcases hcached with ⟨d, -, hrange, hd⟩ | ⟨⟨k, hk, hnone⟩, -⟩
    · exact .inl ⟨d, hrange, hd⟩
    · exact absurd hnone (hall k hk)
  · rw [hf]
    refine ⟨hsame, .inr ⟨⟨e, hP, rfl⟩, ?_⟩⟩
    rcases hcached with ⟨-, hall, -⟩ | ⟨-, herr⟩
    · exact absurd hnone (hall k hk)
    · exact herr

/-! ## Chunks that stay -/

/-- The chunks that are cached for a version of a file stay, and so do their bytes. -/
structure KeepsChunks (path : RemotePath) (attrs : FileAttributes) (s s' : Store) : Prop where
  chunkSize : s'.chunkSize = s.chunkSize
  chunk : ∀ k o b, s.cachedChunk path attrs k = some o → s.object o = some b →
    s'.cachedChunk path attrs k = some o ∧ s'.object o = some b

namespace KeepsChunks

variable {path : RemotePath} {attrs : FileAttributes} {s₁ s₂ s₃ : Store}

lemma refl (s : Store) : KeepsChunks path attrs s s := ⟨rfl, fun _ _ _ hk hb => ⟨hk, hb⟩⟩

lemma trans (h : KeepsChunks path attrs s₁ s₂) (h' : KeepsChunks path attrs s₂ s₃) :
    KeepsChunks path attrs s₁ s₃ where
  chunkSize := h'.chunkSize.trans h.chunkSize
  chunk k o b hk hb := by
    obtain ⟨hk₂, hb₂⟩ := h.chunk k o b hk hb
    exact h'.chunk k o b hk₂ hb₂

/-- A chunk that was cached still is. -/
lemma cached (h : KeepsChunks path attrs s₁ s₂) (hs : Sound (fun _ _ _ _ => True) s₁) {k : ℕ}
    (hk : s₁.cachedChunk path attrs k ≠ none) : s₂.cachedChunk path attrs k ≠ none := by
  obtain ⟨o, ho⟩ := Option.ne_none_iff_exists'.mp hk
  obtain ⟨c, hr, -⟩ := recorded_of_cachedChunk ho
  obtain ⟨b, hb, -⟩ := hs.good _ _ _ _ hr
  rw [(h.chunk k o b ho hb).1]
  exact Option.some_ne_none o

end KeepsChunks

/-- The chunks of a version that has one are those of the content reference. -/
lemma chunkMap_of_cached {path : RemotePath} {attrs : FileAttributes} {k : ℕ}
    (hk : s.cachedChunk path attrs k ≠ none) :
    ∃ chunks, s.chunkMap path = .ok chunks ∧
      ∀ j, chunks.lookup j = s.cachedChunk path attrs j := by
  obtain ⟨o, ho⟩ := Option.ne_none_iff_exists'.mp hk
  obtain ⟨c, hr, hlabel⟩ := recorded_of_cachedChunk ho
  have hsize : c.chunkSize = s.chunkSize := congrArg Label.chunkSize hlabel
  refine ⟨c.chunks, by simp [chunkMap, hr.1, hsize], fun j => ?_⟩
  simp [cachedChunk, hr.1, hlabel]

lemma readPieces_eq_of_pieces {chunks chunks' : FMap ℕ ℕ} {offset stop : ℕ} (ks : List ℕ)
    (h : ∀ k ∈ ks, s'.readPiece chunks' offset stop k = s.readPiece chunks offset stop k)
    (data : Bytes) :
    s'.readPieces chunks' offset stop ks data = s.readPieces chunks offset stop ks data := by
  induction ks generalizing data with
  | nil => rfl
  | cons k ks ih =>
      simp only [readPieces]
      rw [h k List.mem_cons_self]
      split
      · exact ih (fun j hj => h j (List.mem_cons_of_mem _ hj)) _
      · rfl

/-- **A range that is cached reads the same for ever**, as long as its chunks stay. -/
lemma KeepsChunks.readCachedRange {path : RemotePath} {attrs : FileAttributes}
    (h : KeepsChunks path attrs s s') (hs : Sound (fun _ _ _ _ => True) s) {offset stop : ℕ}
    (hlt : offset < stop)
    (hall : ∀ k ∈ chunkRange offset stop s.chunkSize, s.cachedChunk path attrs k ≠ none) :
    s'.readCachedRange path offset stop = s.readCachedRange path offset stop := by
  obtain ⟨k, hk⟩ := List.exists_mem_of_ne_nil _ (chunkRange_ne_nil s.chunkSize_pos hlt)
  obtain ⟨chunks, hmap, hlook⟩ := chunkMap_of_cached (hall k hk)
  obtain ⟨chunks', hmap', hlook'⟩ := chunkMap_of_cached (h.cached hs (hall k hk))
  simp only [Store.readCachedRange, hmap, hmap', h.chunkSize]
  refine readPieces_eq_of_pieces _ (fun j hj => ?_) []
  obtain ⟨o, ho⟩ := Option.ne_none_iff_exists'.mp (hall j hj)
  obtain ⟨c, hr, -⟩ := recorded_of_cachedChunk ho
  obtain ⟨b, hb, -⟩ := hs.good _ _ _ _ hr
  obtain ⟨ho', hb'⟩ := h.chunk j o b ho hb
  simp only [readPiece, hlook, hlook', ho, ho', readObject, hb, hb', h.chunkSize]

/-- New attributes of the same version keep the chunks. -/
lemma keepsChunks_putAttrs (path : RemotePath) {attrs attrs' : FileAttributes}
    (hsize : attrs'.size = attrs.size)
    (hmod : attrs'.modifiedUnixSeconds = attrs.modifiedUnixSeconds) (s : Store) :
    KeepsChunks path attrs s (s.putAttrs path attrs') where
  chunkSize := putAttrs_chunkSize path attrs' s
  chunk k o b hk hb := by
    obtain ⟨c, hr, hlabel⟩ := recorded_of_cachedChunk hk
    have hfresh : ¬ c.StaleFor attrs' := by
      have h₁ : c.size = attrs.size := congrArg Label.size hlabel
      have h₂ : c.modified = attrs.modifiedUnixSeconds := congrArg Label.modified hlabel
      rintro (hne | hne)
      · exact hne (h₁.trans hsize.symm)
      · exact hne (h₂.trans hmod.symm)
    have hbind : (s.entry path.asStr).bind Entry.content = some c := hr.1
    have hcontent : (s.putAttrs path attrs').content path.asStr = some c := by
      rw [content, entry_putAttrs, if_pos rfl]
      simp [keptContent, hbind, hfresh]
    have hstale : staleObjects attrs' (s.entry path.asStr) = [] := by
      simp [staleObjects, hbind, hfresh]
    refine ⟨?_, ?_⟩
    · simp only [cachedChunk, hcontent, putAttrs_chunkSize, hlabel, if_true]
      exact hr.2
    · rw [object_putAttrs, hstale, if_neg (by simp)]
      exact hb

/-- Recording a chunk that was missing keeps the others. -/
lemma keepsChunks_recordChunk {path : RemotePath} {attrs : FileAttributes} {k : ℕ}
    (hmiss : s.cachedChunk path attrs k = none) (o : ℕ) :
    KeepsChunks path attrs s (s.recordChunk path attrs k o) where
  chunkSize := recordChunk_chunkSize path attrs k o s
  chunk j x b hj hb := by
    have hne : j ≠ k := by
      rintro rfl
      rw [hmiss] at hj
      cases hj
    obtain ⟨c, hr, hlabel⟩ := recorded_of_cachedChunk hj
    refine ⟨by rw [cachedChunk_recordChunk, if_neg hne, hj], ?_⟩
    rw [object_recordChunk, if_neg]
    · exact hb
    · -- content of this version is not replaced, and chunk `k` had no object
      simp only [recordDeletes, hr.1, hlabel, if_true]
      have hnone : c.chunks.lookup k = none := by
        simpa [cachedChunk, hr.1, hlabel] using hmiss
      simp [hnone]

/-- Chunks are looked up in the entries of the index. -/
lemma cachedChunk_of_entries (hentries : s'.index.entries = s.index.entries)
    (hsize : s'.chunkSize = s.chunkSize) (path : RemotePath) (attrs : FileAttributes) (k : ℕ) :
    s'.cachedChunk path attrs k = s.cachedChunk path attrs k := by
  rw [cachedChunk, content, entry, hentries, hsize]
  rfl

/-- Fetching a missing chunk keeps the others, whatever the remote answers; and after a success
the chunk is cached. -/
lemma fetchChunk_keeps {path : RemotePath} {attrs : FileAttributes} {k : ℕ} (c : Conn ρ)
    (hs : Sound (fun _ _ _ _ => True) s) (hmiss : s.cachedChunk path attrs k = none) :
    Sound (fun _ _ _ _ => True) (s.fetchChunk R path attrs k c).2.1 ∧
      KeepsChunks path attrs s (s.fetchChunk R path attrs k c).2.1 ∧
      ∀ o, (s.fetchChunk R path attrs k c).1 = .ok o →
        (s.fetchChunk R path attrs k c).2.1.cachedChunk path attrs k = some o := by
  unfold fetchChunk
  simp only
  set o := s.allocObject.1
  set s₁ := (s.allocObject.2.createTemp o).2
  set temp := (s.allocObject.2.createTemp o).1
  have hframe := (download_frame (R := R) path (k * s₁.chunkSize) (s₁.chunkLen attrs k) temp
    (s₁.chunkLen attrs k) 0 s₁ c).1
  -- until the chunk is recorded, only the counter of object ids has moved
  have hchunk : ∀ t : Store, t.index = s₁.index → t.chunkSize = s₁.chunkSize → ∀ j,
      t.cachedChunk path attrs j = s.cachedChunk path attrs j := fun t hindex hsize j =>
    cachedChunk_of_entries (by rw [hindex]) hsize path attrs j
  have hkeep : ∀ t : Store, SameContents s₁ t → KeepsChunks path attrs s t := fun t ht =>
    ⟨ht.chunkSize, fun j x b hj hb =>
      ⟨(hchunk t ht.index ht.chunkSize j).trans hj, (ht.object x).trans hb⟩⟩
  split
  · next e s₂ c₂ heq =>
      rw [heq] at hframe
      have hsame : SameContents s₁ (s₂.emit (.removeTemp temp)) :=
        ⟨hframe.chunkSize, hframe.index, hframe.object⟩
      exact ⟨(hs.downloaded hsame).1, hkeep _ hsame, fun _ h => by cases h⟩
  · next s₂ c₂ heq =>
      rw [heq] at hframe
      have hsame : SameContents s₁ s₂ := hframe
      obtain ⟨hsound₂, hfree, hlt⟩ := hs.downloaded hsame
      have hmiss₂ : (s₂.install temp o).cachedChunk path attrs k = none := by
        rw [hchunk (s₂.install temp o) hsame.index hsame.chunkSize]
        exact hmiss
      have hnew : (s₂.install temp o).object o = some ((s₂.disk.temps.lookup temp).getD []) := by
        rw [object_install, if_pos rfl]
      have hinstall : KeepsChunks path attrs s (s₂.install temp o) := by
        refine ⟨hsame.chunkSize, fun j x b hj hb => ?_⟩
        obtain ⟨c, hr, -⟩ := recorded_of_cachedChunk hj
        have hne : x ≠ o := by
          rintro rfl
          exact hs.unreferenced_next _ _ _ hr
        refine ⟨(hchunk (s₂.install temp o) hsame.index hsame.chunkSize j).trans hj, ?_⟩
        rw [object_install, if_neg hne, hsame.object]
        exact hb
      refine ⟨(hsound₂.install hfree temp).recordChunk hfree hlt hnew trivial,
        hinstall.trans (keepsChunks_recordChunk hmiss₂ o), fun x hx => ?_⟩
      cases hx
      rw [cachedChunk_recordChunk, if_pos rfl]

lemma fetchMissing_keeps (path : RemotePath) (attrs : FileAttributes) (ks : List ℕ)
    (hs : Sound (fun _ _ _ _ => True) s) (c : Conn ρ) :
    Sound (fun _ _ _ _ => True) (fetchMissing R path attrs ks s c).2.1 ∧
      KeepsChunks path attrs s (fetchMissing R path attrs ks s c).2.1 ∧
      ((fetchMissing R path attrs ks s c).1 = .ok () →
        ∀ k ∈ ks, (fetchMissing R path attrs ks s c).2.1.cachedChunk path attrs k ≠ none) := by
  induction ks generalizing s c with
  | nil => exact ⟨hs, .refl s, by simp⟩
  | cons k ks ih =>
      rw [fetchMissing]
      cases hk : s.cachedChunk path attrs k with
      | some o =>
          obtain ⟨h₁, h₂, h₃⟩ := ih hs c
          refine ⟨h₁, h₂, fun hok j hj => ?_⟩
          rcases List.mem_cons.mp hj with rfl | hj
          · exact h₂.cached hs (by simp [hk])
          · exact h₃ hok j hj
      | none =>
          have hfetch := fetchChunk_keeps (R := R) c hs hk
          simp only
          split
          · next o s' c' heq =>
              rw [heq] at hfetch
              obtain ⟨hs', hkeep, hnew⟩ := hfetch
              obtain ⟨h₁, h₂, h₃⟩ := ih hs' c'
              refine ⟨h₁, hkeep.trans h₂, fun hok j hj => ?_⟩
              rcases List.mem_cons.mp hj with rfl | hj
              · refine h₂.cached hs' ?_
                rw [hnew o rfl]
                exact Option.some_ne_none o
              · exact h₃ hok j hj
          · next e s' c' heq =>
              rw [heq] at hfetch
              exact ⟨hfetch.1, hfetch.2.1, fun h => by cases h⟩

/-- Nothing is fetched where every chunk is cached. -/
lemma fetchMissing_cached {path : RemotePath} {attrs : FileAttributes} {ks : List ℕ} {c : Conn ρ}
    (h : ∀ k ∈ ks, s.cachedChunk path attrs k ≠ none) :
    fetchMissing R path attrs ks s c = (.ok (), s, c) := by
  induction ks with
  | nil => rfl
  | cons k ks ih =>
      obtain ⟨o, ho⟩ := Option.ne_none_iff_exists'.mp (h k List.mem_cons_self)
      rw [fetchMissing, ho]
      exact ih fun j hj => h j (List.mem_cons_of_mem _ hj)

/-- **A successful read leaves its range cached**, with the bytes it has answered, and keeps what
was cached of the version. -/
lemma read_keeps (path : RemotePath) (attrs : FileAttributes) (offset : UInt64) (size : UInt32)
    (hs : Sound (fun _ _ _ _ => True) s) (c : Conn ρ) :
    KeepsChunks path attrs s (s.read R path attrs offset size c).2.1 ∧
      ∀ d, (s.read R path attrs offset size c).1 = .ok d → size ≠ 0 → offset < attrs.size →
        (∀ k ∈ chunkRange offset.toNat (readStop offset size attrs.size) s.chunkSize,
          (s.read R path attrs offset size c).2.1.cachedChunk path attrs k ≠ none) ∧
        (s.read R path attrs offset size c).2.1.readCachedRange path offset.toNat
          (readStop offset size attrs.size) = .ok d := by
  unfold read
  split
  · next hempty =>
      refine ⟨.refl s, fun d _ hsize hlt => ?_⟩
      rcases hempty with h | h
      · exact absurd h hsize
      · exact absurd hlt (UInt64.not_lt.mpr h)
  · have hfetch := fetchMissing_keeps (R := R) path attrs
      (chunkRange offset.toNat (readStop offset size attrs.size) s.chunkSize) hs c
    simp only
    split
    · next s' c' heq =>
        rw [heq] at hfetch
        exact ⟨hfetch.2.1, fun d hd _ _ => ⟨hfetch.2.2 rfl, hd⟩⟩
    · next e s' c' heq =>
        rw [heq] at hfetch
        exact ⟨hfetch.2.1, fun d hd => by cases hd⟩

end Store

end CacheShfs
