import CacheShfs.Remote.Spec
import CacheShfs.Store.Sound

/-!
# Range reads of the content cache

What `Store::read` does.  The first part is about every remote: which parts of the store a
fetch can change (`ReadFrame`).  The second part is about a remote that serves a file `f`: a
download yields exactly the chunk of `f` (`download_ok`), fetching keeps the object invariant
(`fetchChunk_ok`, `fetchMissing_ok`), and a range whose chunks are all recorded is assembled to
the requested slice (`readCachedRange_ok`).  `read_ok` puts them together.
-/

namespace CacheShfs

open Slice

namespace Store

variable {ρ : Type} {R : RemoteFilesystem ρ} {G : Str → Label → ℕ → Bytes → Prop}

/-! ## Recording a chunk -/

@[simp] lemma recordChunk_chunkSize (path : RemotePath) (attrs : FileAttributes) (k o : ℕ)
    (s : Store) : (s.recordChunk path attrs k o).chunkSize = s.chunkSize := by
  simp [recordChunk]

@[simp] lemma recordChunk_nextObject (path : RemotePath) (attrs : FileAttributes) (k o : ℕ)
    (s : Store) : (s.recordChunk path attrs k o).index.nextObject = s.index.nextObject := by
  simp [recordChunk, Index.setEntry]

@[simp] lemma listing_recordChunk (path : RemotePath) (attrs : FileAttributes) (k o : ℕ)
    (s : Store) (key : Str) : (s.recordChunk path attrs k o).listing key = s.listing key := by
  simp [recordChunk, Index.setEntry, listing]

/-- The content reference at `path` after recording a chunk. -/
def recordedContent (path : RemotePath) (attrs : FileAttributes) (k o : ℕ) (s : Store) :
    ContentRef :=
  let base := recordBase (attrs.label s.chunkSize) (s.content path.asStr)
  { base with chunks := base.chunks.insert k o }

lemma recordChunk_index (path : RemotePath) (attrs : FileAttributes) (k o : ℕ) (s : Store) :
    (s.recordChunk path attrs k o).index = s.index.setEntry path.asStr
      ⟨((s.entry path.asStr).map Entry.attrs).getD (.ofAttributes attrs),
        some (s.recordedContent path attrs k o)⟩ := by
  simp only [recordChunk, persist_index, setIndex_index, recordedContent, content]
  cases s.entry path.asStr <;> rfl

lemma entry_recordChunk (path : RemotePath) (attrs : FileAttributes) (k o : ℕ) (s : Store)
    (key : Str) :
    (s.recordChunk path attrs k o).entry key =
      if key = path.asStr then
        some ⟨((s.entry path.asStr).map Entry.attrs).getD (.ofAttributes attrs),
          some (s.recordedContent path attrs k o)⟩
      else s.entry key := by
  rw [entry, recordChunk_index]
  exact FMap.lookup_insert_eq_ite _ _ _ _

lemma content_recordChunk (path : RemotePath) (attrs : FileAttributes) (k o : ℕ) (s : Store)
    (key : Str) :
    (s.recordChunk path attrs k o).content key =
      if key = path.asStr then some (s.recordedContent path attrs k o) else s.content key := by
  rw [content, entry_recordChunk]
  split <;> rfl

lemma object_recordChunk (path : RemotePath) (attrs : FileAttributes) (k o : ℕ) (s : Store)
    (x : ℕ) :
    (s.recordChunk path attrs k o).object x =
      if x ∈ recordDeletes (attrs.label s.chunkSize) k (s.content path.asStr) then none
      else s.object x := by
  have hcontent : ((s.entry path.asStr).getD ⟨.ofAttributes attrs, none⟩).content =
      s.content path.asStr := by
    rw [content]
    cases s.entry path.asStr <;> rfl
  simp only [recordChunk, object_persist, hcontent]
  exact object_removeObjects _ _ _

lemma recordBase_label (label : Label) (c : Option ContentRef) :
    (recordBase label c).label = label := by
  unfold recordBase
  split
  · split
    · assumption
    · rfl
  · rfl

@[simp] lemma recordedContent_label (path : RemotePath) (attrs : FileAttributes) (k o : ℕ)
    (s : Store) : (s.recordedContent path attrs k o).label = attrs.label s.chunkSize :=
  recordBase_label _ _

/-- A chunk of the new content is the one just recorded, or was recorded under the same label. -/
lemma recordedContent_lookup (path : RemotePath) (attrs : FileAttributes) (k o : ℕ) (s : Store)
    (k' : ℕ) :
    (s.recordedContent path attrs k o).chunks.lookup k' =
      if k' = k then some o else s.cachedChunk path attrs k' := by
  simp only [recordedContent, FMap.lookup_insert_eq_ite]
  split
  · rfl
  · unfold recordBase cachedChunk
    split
    · split
      · rfl
      · rfl
    · rfl

/-- The chunks of a label after one of them has been recorded. -/
lemma cachedChunk_recordChunk (path : RemotePath) (attrs : FileAttributes) (k o : ℕ) (s : Store)
    (k' : ℕ) :
    (s.recordChunk path attrs k o).cachedChunk path attrs k' =
      if k' = k then some o else s.cachedChunk path attrs k' := by
  rw [cachedChunk, content_recordChunk, if_pos rfl]
  simp only [recordedContent_label, recordChunk_chunkSize, if_true, recordedContent_lookup]

/-- Chunks are looked for by label. -/
lemma cachedChunk_congr {s : Store} {path : RemotePath} {a b : FileAttributes}
    (h : a.label s.chunkSize = b.label s.chunkSize) (k : ℕ) :
    s.cachedChunk path a k = s.cachedChunk path b k := by
  rw [cachedChunk, cachedChunk, h]

/-- No chunk refers to the object `o`. -/
def Unreferenced (s : Store) (o : ℕ) : Prop := ∀ key c k, ¬ s.Recorded key c k o

lemma recorded_of_cachedChunk {s : Store} {path : RemotePath} {attrs : FileAttributes} {k o : ℕ}
    (h : s.cachedChunk path attrs k = some o) :
    ∃ c, s.Recorded path.asStr c k o ∧ c.label = attrs.label s.chunkSize := by
  unfold cachedChunk at h
  split at h
  · next c hc =>
      split at h
      · next hlabel => exact ⟨c, ⟨hc, h⟩, hlabel⟩
      · cases h
  · cases h

/-- What recording deletes was recorded at `path` before. -/
lemma Sound.recorded_of_mem_recordDeletes {s : Store} (h : Sound G s) {path : RemotePath}
    {attrs : FileAttributes} {k x : ℕ}
    (hx : x ∈ recordDeletes (attrs.label s.chunkSize) k (s.content path.asStr)) :
    ∃ c k', s.Recorded path.asStr c k' x ∧ (c.label = attrs.label s.chunkSize → k' = k) := by
  unfold recordDeletes at hx
  split at hx
  · next c hc =>
      split at hx
      · next hlabel =>
          refine ⟨c, k, ⟨hc, ?_⟩, fun _ => rfl⟩
          simpa using hx
      · next hlabel =>
          obtain ⟨k', hk'⟩ := (h.mem_contentObjects hc).mp hx
          exact ⟨c, k', ⟨hc, hk'⟩, fun heq => absurd heq hlabel⟩
  · cases hx

/-- A chunk that is recorded afterwards is the new one, or was recorded before under the same
label. -/
lemma recorded_recordChunk {s : Store} {path : RemotePath} {attrs : FileAttributes} {k o : ℕ}
    {key : Str} {c : ContentRef} {k' x : ℕ}
    (hr : (s.recordChunk path attrs k o).Recorded key c k' x) :
    (key = path.asStr ∧ k' = k ∧ x = o ∧ c.label = attrs.label s.chunkSize) ∨
      (∃ c₀, s.Recorded key c₀ k' x ∧ c₀.label = c.label ∧
        (key = path.asStr → k' ≠ k ∧ c.label = attrs.label s.chunkSize)) := by
  obtain ⟨hc, hk'⟩ := hr
  rw [content_recordChunk] at hc
  split at hc
  · next hkey =>
      cases hc
      rw [recordedContent_lookup] at hk'
      split at hk'
      · next heq =>
          cases hk'
          exact .inl ⟨hkey, heq, rfl, recordedContent_label _ _ _ _ _⟩
      · next hne =>
          obtain ⟨c₀, hr₀, hlabel⟩ := recorded_of_cachedChunk hk'
          refine .inr ⟨c₀, hkey ▸ hr₀, ?_, fun _ => ⟨hne, recordedContent_label _ _ _ _ _⟩⟩
          rw [hlabel, recordedContent_label]
  · next hkey => exact .inr ⟨c, ⟨hc, hk'⟩, rfl, fun heq => absurd heq hkey⟩

/-- Recording a chunk whose object is new and holds the right bytes keeps the invariant. -/
lemma Sound.recordChunk {s : Store} (h : Sound G s) {path : RemotePath} {attrs : FileAttributes}
    {k o : ℕ} {b : Bytes} (hfree : s.Unreferenced o) (hlt : o < s.index.nextObject)
    (hobj : s.object o = some b) (hG : G path.asStr (attrs.label s.chunkSize) k b) :
    Sound G (s.recordChunk path attrs k o) := by
  refine ⟨fun key c hc => ?_, fun key c k' x hr => ?_, fun key c k₁ key' c' k₂ x hr hr' => ?_,
    fun key c k' x hr => ?_⟩
  · rw [content_recordChunk] at hc
    split at hc
    · cases hc
      show (recordBase _ _).object = none
      unfold recordBase
      split
      · next c₀ hc₀ =>
          split
          · exact h.legacy path.asStr c₀ hc₀
          · rfl
      · rfl
    · exact h.legacy key c hc
  · rw [recordChunk_nextObject]
    rcases recorded_recordChunk hr with ⟨-, -, rfl, -⟩ | ⟨c₀, hr₀, -, -⟩
    · exact hlt
    · exact h.below key c₀ k' x hr₀
  · rcases recorded_recordChunk hr with ⟨rfl, rfl, rfl, -⟩ | ⟨c₀, hr₀, -, -⟩ <;>
      rcases recorded_recordChunk hr' with ⟨rfl, rfl, hx, -⟩ | ⟨c₁, hr₁, -, -⟩
    · exact ⟨rfl, rfl⟩
    · exact absurd hr₁ (hfree key' c₁ k₂)
    · exact absurd (hx ▸ hr₀) (hfree key c₀ k₁)
    · exact h.unique key c₀ k₁ key' c₁ k₂ x hr₀ hr₁
  · rw [object_recordChunk]
    rcases recorded_recordChunk hr with ⟨rfl, rfl, rfl, hlabel⟩ | ⟨c₀, hr₀, hlabel, hpath⟩
    · rw [if_neg, hlabel]
      · exact ⟨b, hobj, hG⟩
      · intro hmem
        obtain ⟨c', k'', hr', -⟩ := h.recorded_of_mem_recordDeletes hmem
        exact hfree _ _ _ hr'
    · rw [if_neg, ← hlabel]
      · exact h.good key c₀ k' x hr₀
      · -- a deleted object belongs to this path: to the replaced chunk or to another label
        intro hmem
        obtain ⟨c', k'', hr', hk''⟩ := h.recorded_of_mem_recordDeletes hmem
        obtain ⟨hkey, hkk⟩ := h.unique key c₀ k' path.asStr c' k'' x hr₀ hr'
        obtain ⟨hne, hlab⟩ := hpath hkey
        have hcc : c₀ = c' := by
          have h₁ := hr₀.1
          have h₂ := hr'.1
          rw [hkey] at h₁
          rw [h₁] at h₂
          exact Option.some.inj h₂
        exact hne (hkk.trans (hk'' (by rw [← hcc, hlabel, hlab])))

/-! ## What a fetch can change -/

/-- The connection has only been used to read `path`. -/
structure OnlyReads (R : RemoteFilesystem ρ) (path : RemotePath) (c c' : Conn ρ) : Prop where
  now : c'.now = c.now
  log : ∃ calls, c'.log = calls ++ c.log ∧
    ∀ x ∈ calls, ∃ o n a, x = (c.now, RemoteCall.read path o n a)
  /-- What every read keeps of the remote, is kept. -/
  remote : ∀ P : ρ → Prop, (∀ o n r, P r → P (R.read path o n r).2) → P c.remote → P c'.remote

lemma OnlyReads.refl (path : RemotePath) (c : Conn ρ) : OnlyReads R path c c :=
  ⟨rfl, ⟨[], rfl, by simp⟩, fun _ _ h => h⟩

lemma OnlyReads.trans {path : RemotePath} {c c' c'' : Conn ρ} (h : OnlyReads R path c c')
    (h' : OnlyReads R path c' c'') : OnlyReads R path c c'' := by
  obtain ⟨calls, hlog, hcalls⟩ := h.log
  obtain ⟨calls', hlog', hcalls'⟩ := h'.log
  refine ⟨h'.now.trans h.now, ⟨calls' ++ calls, by rw [hlog', hlog, List.append_assoc], ?_⟩,
    fun P hP hc => h'.remote P hP (h.remote P hP hc)⟩
  intro x hx
  rcases List.mem_append.mp hx with hx | hx
  · rw [← h.now]
    exact hcalls' x hx
  · exact hcalls x hx

lemma OnlyReads.read (path : RemotePath) (c : Conn ρ) (o n : ℕ) :
    OnlyReads R path c (c.read R path o n).2 :=
  ⟨rfl, ⟨[_], rfl, fun _ hx => ⟨o, n, _, List.mem_singleton.mp hx⟩⟩,
    fun _ hP hc => hP o n c.remote hc⟩

/-- Reads do not change the tree. -/
lemma OnlyReads.view {view : ρ → Tree} (hR : HonestReads R view) {path : RemotePath}
    {c c' : Conn ρ} (h : OnlyReads R path c c') : view c'.remote = view c.remote :=
  h.remote (fun r => view r = view c.remote)
    (fun o n r hr => (hR.view_read path o n r).trans hr) rfl

/-- What a read of `path` with `attrs` leaves alone: all listings, the entries of other paths
and the attributes of `path`'s own entry; a missing entry can appear, with these attributes. -/
structure ReadFrame (path : RemotePath) (attrs : FileAttributes) (s s' : Store) : Prop where
  chunkSize : s'.chunkSize = s.chunkSize
  listing : ∀ key, s'.listing key = s.listing key
  entry_ne : ∀ key, key ≠ path.asStr → s'.entry key = s.entry key
  attrs_kept : ∀ e, s.entry path.asStr = some e →
    ∃ e', s'.entry path.asStr = some e' ∧ e'.attrs = e.attrs
  attrs_new : s.entry path.asStr = none → ∀ e', s'.entry path.asStr = some e' →
    e'.attrs = .ofAttributes attrs

/-- The attributes of an entry were there, or are new under the path of the read. -/
lemma ReadFrame.attrs_cases {path : RemotePath} {attrs : FileAttributes} {s s' : Store}
    (h : ReadFrame path attrs s s') {key : Str} {e : Entry} (he : s'.entry key = some e) :
    (∃ e₀, s.entry key = some e₀ ∧ e₀.attrs = e.attrs) ∨
      key = path.asStr ∧ s.entry key = none ∧ e.attrs = .ofAttributes attrs := by
  by_cases hkey : key = path.asStr
  · subst hkey
    cases hold : s.entry path.asStr with
    | some e₀ =>
        obtain ⟨e', he', hattrs⟩ := h.attrs_kept e₀ hold
        obtain rfl := Option.some.inj (he.symm.trans he')
        exact .inl ⟨e₀, rfl, hattrs.symm⟩
    | none => exact .inr ⟨rfl, rfl, h.attrs_new hold e he⟩
  · exact .inl ⟨e, (h.entry_ne key hkey).symm.trans he, rfl⟩

lemma ReadFrame.of_index {path : RemotePath} {attrs : FileAttributes} {s s' : Store}
    (hsize : s'.chunkSize = s.chunkSize) (hentries : s'.index.entries = s.index.entries)
    (hlistings : s'.index.listings = s.index.listings) : ReadFrame path attrs s s' where
  chunkSize := hsize
  listing key := by rw [Store.listing, hlistings]; rfl
  entry_ne key _ := by rw [entry, hentries]; rfl
  attrs_kept e he := ⟨e, by rw [entry, hentries]; exact he, rfl⟩
  attrs_new hnone e' he' := by
    rw [entry, hentries] at he'
    rw [entry] at hnone
    rw [hnone] at he'
    cases he'

lemma ReadFrame.refl (path : RemotePath) (attrs : FileAttributes) (s : Store) :
    ReadFrame path attrs s s :=
  .of_index rfl rfl rfl

lemma ReadFrame.trans {path : RemotePath} {attrs : FileAttributes} {s₁ s₂ s₃ : Store}
    (h : ReadFrame path attrs s₁ s₂) (h' : ReadFrame path attrs s₂ s₃) :
    ReadFrame path attrs s₁ s₃ where
  chunkSize := h'.chunkSize.trans h.chunkSize
  listing key := (h'.listing key).trans (h.listing key)
  entry_ne key hne := (h'.entry_ne key hne).trans (h.entry_ne key hne)
  attrs_kept e he := by
    obtain ⟨e₂, he₂, ha₂⟩ := h.attrs_kept e he
    obtain ⟨e₃, he₃, ha₃⟩ := h'.attrs_kept e₂ he₂
    exact ⟨e₃, he₃, ha₃.trans ha₂⟩
  attrs_new hnone e₃ he₃ := by
    cases he₂ : s₂.entry path.asStr with
    | none => exact h'.attrs_new he₂ e₃ he₃
    | some e₂ =>
        obtain ⟨e, he, ha⟩ := h'.attrs_kept e₂ he₂
        rw [he₃] at he
        cases he
        rw [ha]
        exact h.attrs_new hnone e₂ he₂

lemma readFrame_recordChunk (path : RemotePath) (attrs : FileAttributes) (k o : ℕ) (s : Store) :
    ReadFrame path attrs s (s.recordChunk path attrs k o) where
  chunkSize := by simp
  listing key := by simp
  entry_ne key hne := by rw [entry_recordChunk, if_neg hne]
  attrs_kept e he := by
    rw [entry_recordChunk, if_pos rfl, he]
    exact ⟨_, rfl, rfl⟩
  attrs_new hnone e' he' := by
    rw [entry_recordChunk, if_pos rfl, hnone] at he'
    cases he'
    rfl

/-- The parts of the store that a running download cannot change. -/
structure SameContents (s s' : Store) : Prop where
  chunkSize : s'.chunkSize = s.chunkSize
  index : s'.index = s.index
  object : ∀ o, s'.object o = s.object o

lemma SameContents.trans {s₁ s₂ s₃ : Store} (h : SameContents s₁ s₂) (h' : SameContents s₂ s₃) :
    SameContents s₁ s₃ :=
  ⟨h'.chunkSize.trans h.chunkSize, h'.index.trans h.index,
    fun o => (h'.object o).trans (h.object o)⟩

lemma download_frame (path : RemotePath) (start len : ℕ) (temp : TempName) (fuel filled : ℕ)
    (s : Store) (c : Conn ρ) :
    SameContents s (download R path start len temp fuel filled s c).2.1 ∧
      OnlyReads R path c (download R path start len temp fuel filled s c).2.2 := by
  induction fuel generalizing filled s c with
  | zero => exact ⟨⟨rfl, rfl, fun _ => rfl⟩, .refl path c⟩
  | succ fuel ih =>
      rw [download]
      split
      · have hread := OnlyReads.read (R := R) path c (start + filled) (want len filled)
        split
        · next e c' heq =>
            rw [heq] at hread
            exact ⟨⟨rfl, rfl, fun _ => rfl⟩, hread⟩
        · next data c' heq =>
            rw [heq] at hread
            split
            · exact ⟨⟨rfl, rfl, fun _ => rfl⟩, hread⟩
            · obtain ⟨hs, hc⟩ := ih (filled + data.length) (s.emit (.appendTemp temp data)) c'
              have happend : SameContents s (s.emit (.appendTemp temp data)) :=
                ⟨rfl, rfl, fun _ => rfl⟩
              exact ⟨happend.trans hs, hread.trans hc⟩
      · exact ⟨⟨rfl, rfl, fun _ => rfl⟩, .refl path c⟩

lemma fetchChunk_frame (path : RemotePath) (attrs : FileAttributes) (k : ℕ) (s : Store)
    (c : Conn ρ) :
    ReadFrame path attrs s (s.fetchChunk R path attrs k c).2.1 ∧
      OnlyReads R path c (s.fetchChunk R path attrs k c).2.2 := by
  unfold fetchChunk
  simp only
  set s₁ := (s.allocObject.2.createTemp s.allocObject.1).2
  set temp := (s.allocObject.2.createTemp s.allocObject.1).1
  have hframe := download_frame (R := R) path (k * s₁.chunkSize) (s₁.chunkLen attrs k) temp
    (s₁.chunkLen attrs k) 0 s₁ c
  have hstart : ∀ t : Store, SameContents s₁ t → ReadFrame path attrs s t := fun t ht =>
    .of_index ht.chunkSize (by rw [ht.index]; rfl) (by rw [ht.index]; rfl)
  split
  · next e s₂ c₂ heq =>
      rw [heq] at hframe
      have hsame : SameContents s₁ s₂ := hframe.1
      exact ⟨hstart _ ⟨hsame.chunkSize, hsame.index, hsame.object⟩, hframe.2⟩
  · next s₂ c₂ heq =>
      rw [heq] at hframe
      have hsame : SameContents s₁ s₂ := hframe.1
      refine ⟨ReadFrame.trans ?_ (readFrame_recordChunk path attrs k _ _), hframe.2⟩
      -- installing the object changes no entry
      have hindex : (s₂.install temp s.allocObject.1).index = s₁.index := hsame.index
      exact .of_index hsame.chunkSize (by rw [hindex]; rfl) (by rw [hindex]; rfl)

lemma fetchMissing_frame (path : RemotePath) (attrs : FileAttributes) (ks : List ℕ) (s : Store)
    (c : Conn ρ) :
    ReadFrame path attrs s (fetchMissing R path attrs ks s c).2.1 ∧
      OnlyReads R path c (fetchMissing R path attrs ks s c).2.2 := by
  induction ks generalizing s c with
  | nil => exact ⟨.refl path attrs s, .refl path c⟩
  | cons k ks ih =>
      rw [fetchMissing]
      split
      · exact ih s c
      · have hframe := fetchChunk_frame (R := R) path attrs k s c
        split
        · next o s' c' heq =>
            rw [heq] at hframe
            exact ⟨hframe.1.trans (ih s' c').1, hframe.2.trans (ih s' c').2⟩
        · next e s' c' heq =>
            rw [heq] at hframe
            exact hframe

/-- **The frame of `Store::read`**, for every remote. -/
lemma read_frame (path : RemotePath) (attrs : FileAttributes) (offset : UInt64) (size : UInt32)
    (s : Store) (c : Conn ρ) :
    ReadFrame path attrs s (s.read R path attrs offset size c).2.1 ∧
      OnlyReads R path c (s.read R path attrs offset size c).2.2 := by
  unfold read
  split
  · exact ⟨.refl path attrs s, .refl path c⟩
  · have hframe := fetchMissing_frame (R := R) path attrs
      (chunkRange offset.toNat (readStop offset size attrs.size) s.chunkSize) s c
    simp only
    split
    · next s' c' heq =>
        rw [heq] at hframe
        exact hframe
    · next e s' c' heq =>
        rw [heq] at hframe
        exact hframe

/-! ## Downloading one chunk of a file -/

lemma Sound.alloc {s : Store} (h : Sound G s) : Sound G s.allocObject.2 where
  legacy := h.legacy
  below key c k o hr := Nat.lt_succ_of_lt (h.below key c k o hr)
  unique := h.unique
  good := h.good

lemma Sound.unreferenced_next {s : Store} (h : Sound G s) : s.Unreferenced s.index.nextObject :=
  fun key c k hr => Nat.lt_irrefl _ (h.below key c k _ hr)

/-- While a chunk is downloaded, the invariant holds, and nothing refers to the new object. -/
lemma Sound.downloaded {s t : Store} (hs : Sound G s)
    (h : SameContents (s.allocObject.2.createTemp s.allocObject.1).2 t) :
    Sound G t ∧ t.Unreferenced s.allocObject.1 ∧ s.allocObject.1 < t.index.nextObject := by
  refine ⟨hs.alloc.congr h.index h.object, fun key c k hr => ?_, ?_⟩
  · refine hs.unreferenced_next key c k ⟨?_, hr.2⟩
    rw [content_eq, ← hr.1, content_eq, h.index]
    rfl
  · rw [h.index]
    exact Nat.lt_succ_self _

lemma object_install (temp : TempName) (o : ℕ) (s : Store) (x : ℕ) :
    (s.install temp o).object x =
      if x = o then some ((s.disk.temps.lookup temp).getD []) else s.object x :=
  FMap.lookup_insert_eq_ite _ _ _ _

/-- Installing an object that nothing refers to keeps the invariant. -/
lemma Sound.install {s : Store} (h : Sound G s) {o : ℕ} (hfree : s.Unreferenced o)
    (temp : TempName) : Sound G (s.install temp o) where
  legacy := h.legacy
  below := h.below
  unique := h.unique
  good key c k x hr := by
    have hne : x ≠ o := fun heq => hfree key c k (heq ▸ hr)
    rw [object_install, if_neg hne]
    exact h.good key c k x hr

/-- What one pass of the download loop is answered goes on where the last one has stopped. -/
lemma pass_appends {f d : Bytes} {start len filled : ℕ} (hlen : start + len ≤ f.length)
    (hlt : filled < len)
    (hinitial : d <+: slice f (start + filled) (start + filled + want len filled))
    (hne : start + filled < f.length → 0 < want len filled → d ≠ []) :
    d ≠ [] ∧ filled + d.length ≤ len ∧
      slice f start (start + filled) ++ d = slice f start (start + (filled + d.length)) := by
  refine ⟨hne (by omega) (by unfold want; omega), ?_, ?_⟩
  · have h₁ := hinitial.length_le
    rw [length_slice] at h₁
    have h₂ : want len filled ≤ len - filled := min_le_left _ _
    omega
  · rw [slice_append_of_initial f (by omega) hinitial, Nat.add_assoc]

section Honest

variable {view : ρ → Tree} (hR : HonestReads R view) {path : RemotePath} {f : Bytes}
  {m : Option Int}
include hR

/-- One pass of the download loop returns the next bytes of the file, at least one and not more
than are missing. -/
lemma pass_ok {start len filled : ℕ} (hlen : start + len ≤ f.length) (hlt : filled < len)
    {r : ρ} (hview : view r path.asStr = some (.file f m)) :
    ∃ d, (R.read path (start + filled) (want len filled) r).1 = .ok d ∧ d ≠ [] ∧
      filled + d.length ≤ len ∧
      slice f start (start + filled) ++ d = slice f start (start + (filled + d.length)) := by
  obtain ⟨d, hd, hinitial, hne⟩ := hR.read_file path (start + filled) (want len filled) r f m hview
  exact ⟨d, hd, pass_appends hlen hlt hinitial hne⟩

/-- The download loop fills the temp file with exactly the requested piece of the file, however
short the answers are. -/
lemma download_ok (start len : ℕ) (temp : TempName) (hlen : start + len ≤ f.length)
    (fuel filled : ℕ) (s : Store) (c : Conn ρ) (hview : view c.remote path.asStr = some (.file f m))
    (htemp : s.disk.temps.lookup temp = some (slice f start (start + filled)))
    (hfilled : filled ≤ len) (hfuel : len - filled ≤ fuel) :
    ∃ s' c', download R path start len temp fuel filled s c = (.ok (), s', c') ∧
      s'.disk.temps.lookup temp = some (slice f start (start + len)) ∧
      view c'.remote = view c.remote := by
  induction fuel generalizing filled s c with
  | zero =>
      have heq : filled = len := by omega
      exact ⟨s, c, rfl, heq ▸ htemp, rfl⟩
  | succ fuel ih =>
      rw [download]
      by_cases hlt : filled < len
      · rw [if_pos hlt]
        obtain ⟨d, hd, hnonempty, hdlen, happend⟩ := pass_ok hR hlen hlt hview
        have hdpos : 0 < d.length := List.length_pos_of_ne_nil hnonempty
        obtain ⟨c₁, hread, hview₁⟩ : ∃ c₁, c.read R path (start + filled) (want len filled) =
            (.ok d, c₁) ∧ view c₁.remote = view c.remote :=
          ⟨_, by rw [Conn.read, ← hd], hR.view_read _ _ _ _⟩
        rw [hread]
        simp only [if_neg hnonempty]
        have htemp' : (s.emit (.appendTemp temp d)).disk.temps.lookup temp =
            some (slice f start (start + (filled + d.length))) := by
          rw [emit_disk, FsEffect.apply]
          simp only [AList.lookup_insert, htemp, Option.getD_some]
          rw [happend]
        obtain ⟨s', c', heq, hout, hv⟩ := ih (filled + d.length) (s.emit (.appendTemp temp d)) c₁
          (hview₁ ▸ hview) htemp' hdlen (by omega)
        exact ⟨s', c', heq, hout, hv.trans hview₁⟩
      · rw [if_neg hlt]
        have heq : filled = len := by omega
        exact ⟨s, c, rfl, heq ▸ htemp, rfl⟩

/-- **Fetching a chunk of a file** records it, keeps the object invariant and loses no chunk of
the same label. -/
lemma fetchChunk_ok {s : Store} (hs : Sound G s) {attrs : FileAttributes} {c : Conn ρ} {k : ℕ}
    (hview : view c.remote path.asStr = some (.file f m)) (hsize : attrs.size.toNat = f.length)
    (hk : k * s.chunkSize < f.length)
    (hG : G path.asStr (attrs.label s.chunkSize) k
      (slice f (k * s.chunkSize) (k * s.chunkSize + s.chunkSize))) :
    ∃ o s' c', s.fetchChunk R path attrs k c = (.ok o, s', c') ∧ Sound G s' ∧
      s'.cachedChunk path attrs k = some o ∧
      (∀ k', (s.cachedChunk path attrs k').isSome → (s'.cachedChunk path attrs k').isSome) ∧
      view c'.remote = view c.remote := by
  unfold fetchChunk
  simp only
  set o := s.allocObject.1
  set s₁ := (s.allocObject.2.createTemp o).2
  set temp := (s.allocObject.2.createTemp o).1
  set len := s₁.chunkLen attrs k with hlendef
  have hlen : len = min (f.length - k * s.chunkSize) s.chunkSize := by
    rw [hlendef, chunkLen, hsize]
    rfl
  obtain ⟨s₂, c₂, hdown, htemp₂, hview₂⟩ := download_ok hR (k * s₁.chunkSize) len temp
    (by show k * s.chunkSize + len ≤ f.length; omega) len 0 s₁ c hview
    (by
      rw [Nat.add_zero, slice_eq_nil_of_le f (le_refl _)]
      exact AList.lookup_insert _)
    (by omega) (by omega)
  have hsame : SameContents s₁ s₂ := by
    have := (download_frame (R := R) path (k * s₁.chunkSize) len temp len 0 s₁ c).1
    rwa [hdown] at this
  rw [hdown]
  have hbytes : slice f (k * s.chunkSize) (k * s.chunkSize + len) =
      slice f (k * s.chunkSize) (k * s.chunkSize + s.chunkSize) := by
    rw [← slice_min_length f _ (k * s.chunkSize + s.chunkSize)]
    congr 1
    omega
  obtain ⟨hsound₂, hfree₂, hlt⟩ := hs.downloaded hsame
  have hsize₂ : (s₂.install temp o).chunkSize = s.chunkSize := hsame.chunkSize
  refine ⟨o, _, c₂, rfl, ?_, ?_, ?_, hview₂⟩
  · refine (hsound₂.install hfree₂ temp).recordChunk
      (b := slice f (k * s.chunkSize) (k * s.chunkSize + s.chunkSize)) hfree₂ hlt ?_ ?_
    · rw [object_install, if_pos rfl, htemp₂, Option.getD_some]
      exact congrArg some hbytes
    · rw [hsize₂]
      exact hG
  · rw [cachedChunk_recordChunk, if_pos rfl]
  · intro k' hk'
    rw [cachedChunk_recordChunk]
    split
    · rfl
    · -- the chunk map of the same label is the one before the fetch
      have hcached : (s₂.install temp o).cachedChunk path attrs k' =
          s.cachedChunk path attrs k' := by
        have hcontent : (s₂.install temp o).content path.asStr = s.content path.asStr := by
          rw [content_eq, content_eq]
          show s₂.index.content path.asStr = _
          rw [hsame.index]
          rfl
        unfold cachedChunk
        rw [hcontent, hsize₂]
      rwa [hcached]

/-- Fetching the missing chunks of a file leaves every asked chunk recorded. -/
lemma fetchMissing_ok {attrs : FileAttributes} (hsize : attrs.size.toNat = f.length)
    (cs : ℕ) (hG : ∀ k, k * cs < f.length → G path.asStr (attrs.label cs) k
      (slice f (k * cs) (k * cs + cs)))
    (ks : List ℕ) (s : Store) (c : Conn ρ) (hcs : s.chunkSize = cs) (hs : Sound G s)
    (hview : view c.remote path.asStr = some (.file f m)) (hks : ∀ k ∈ ks, k * cs < f.length) :
    ∃ s' c', fetchMissing R path attrs ks s c = (.ok (), s', c') ∧ Sound G s' ∧
      (∀ k, (s.cachedChunk path attrs k).isSome → (s'.cachedChunk path attrs k).isSome) ∧
      (∀ k ∈ ks, (s'.cachedChunk path attrs k).isSome) ∧ view c'.remote = view c.remote := by
  induction ks generalizing s c with
  | nil => exact ⟨s, c, rfl, hs, fun _ h => h, by simp, rfl⟩
  | cons k ks ih =>
      rw [fetchMissing]
      cases hcached : s.cachedChunk path attrs k with
      | some o =>
          obtain ⟨s', c', heq, hs', hmono, hall, hv⟩ := ih s c hcs hs hview
            (fun j hj => hks j (List.mem_cons_of_mem _ hj))
          refine ⟨s', c', heq, hs', hmono, ?_, hv⟩
          intro j hj
          rcases List.mem_cons.mp hj with rfl | hj
          · exact hmono j (by rw [hcached]; rfl)
          · exact hall j hj
      | none =>
          subst hcs
          have hk : k * s.chunkSize < f.length := hks k (by simp)
          obtain ⟨o, s₁, c₁, hfetch, hs₁, hnew, hkeep, hv₁⟩ :=
            fetchChunk_ok hR hs hview hsize hk (hG k hk)
          have hcs₁ : s₁.chunkSize = s.chunkSize := by
            have hframe := (fetchChunk_frame (R := R) path attrs k s c).1.chunkSize
            rwa [hfetch] at hframe
          obtain ⟨s', c', heq, hs', hmono, hall, hv⟩ := ih s₁ c₁ hcs₁ hs₁ (hv₁ ▸ hview)
            (fun j hj => hks j (List.mem_cons_of_mem _ hj))
          rw [hfetch]
          refine ⟨s', c', heq, hs', fun j hj => hmono j (hkeep j hj), ?_, hv.trans hv₁⟩
          intro j hj
          rcases List.mem_cons.mp hj with rfl | hj
          · exact hmono j (by rw [hnew]; rfl)
          · exact hall j hj

end Honest

/-! ## Assembling a range -/

/-- No chunk of a file of this length ends beyond `u64`. -/
def NoOverflow (fileSize chunkSize : ℕ) : Prop :=
  ∀ k, k * chunkSize < fileSize → k * chunkSize + chunkSize < 2 ^ 64

lemma noOverflow_of_add_lt {fileSize chunkSize : ℕ} (h : fileSize + chunkSize < 2 ^ 64) :
    NoOverflow fileSize chunkSize := fun k hk => by omega

/-- A file that fits a signed 64-bit offset has no such chunk, whatever the chunk size. -/
lemma noOverflow_of_size {fileSize chunkSize : ℕ} (h : fileSize ≤ 2 ^ 63)
    (hcs : chunkSize < 2 ^ 64) : NoOverflow fileSize chunkSize := by
  intro k hk
  cases k with
  | zero => simpa using hcs
  | succ k =>
      have hle : chunkSize ≤ (k + 1) * chunkSize := Nat.le_mul_of_pos_left _ (Nat.succ_pos k)
      omega

/-- Every chunk that a range touches starts before the range ends and ends after it starts. -/
lemma mem_chunkRange {offset stop cs k : ℕ} (hcs : 0 < cs) (hlt : offset < stop)
    (hk : k ∈ chunkRange offset stop cs) : k * cs < stop ∧ offset < k * cs + cs := by
  rw [chunkRange, max_eq_left (by omega : 1 ≤ cs)] at hk
  have hmem := List.mem_range'_1.mp hk
  have hle : offset / cs ≤ (stop - 1) / cs := Nat.div_le_div_right (by omega)
  have hhigh : k * cs ≤ stop - 1 := (Nat.le_div_iff_mul_le hcs).mp (by omega)
  refine ⟨by omega, ?_⟩
  have hdiv := Nat.lt_div_mul_add hcs (a := offset)
  have hmul : offset / cs * cs ≤ k * cs := Nat.mul_le_mul_right cs hmem.1
  omega

lemma chunkRange_ne_nil {offset stop cs : ℕ} (hcs : 0 < cs) (hlt : offset < stop) :
    chunkRange offset stop cs ≠ [] := by
  rw [chunkRange, max_eq_left (by omega : 1 ≤ cs)]
  have hle : offset / cs ≤ (stop - 1) / cs := Nat.div_le_div_right (by omega)
  intro hnil
  have hlen := congrArg List.length hnil
  rw [List.length_range', List.length_nil] at hlen
  omega

/-- Where the chunk ends within `u64`, the numbers of a piece are the exact ones. -/
lemma readPiece_exact {s : Store} {chunks : FMap ℕ ℕ} {offset stop k o : ℕ}
    (hlookup : chunks.lookup k = some o) (hstart : k * s.chunkSize < stop)
    (hend : offset < k * s.chunkSize + s.chunkSize) (hlt : offset < stop)
    (hsmall : stop - offset < 2 ^ 32) (hover : k * s.chunkSize + s.chunkSize < 2 ^ 64) :
    s.readPiece chunks offset stop k =
      s.readObject o (max offset (k * s.chunkSize) - k * s.chunkSize)
        (min stop (k * s.chunkSize + s.chunkSize) - max offset (k * s.chunkSize)) := by
  simp only [readPiece, hlookup]
  set start := k * s.chunkSize
  set cs := s.chunkSize
  have hpos : 0 < cs := s.chunkSize_pos
  have hadd : wrapAdd start cs = start + cs := Nat.mod_eq_of_lt hover
  have hend' : wrapSub (min stop (wrapAdd start cs)) start = min stop (start + cs) - start := by
    rw [hadd, wrapSub]
    omega
  have hsub : wrapSub (min stop (start + cs) - start) (max offset start - start) =
      min stop (start + cs) - max offset start := by
    rw [wrapSub]
    omega
  have hcast : asU32 (min stop (start + cs) - max offset start) =
      min stop (start + cs) - max offset start := Nat.mod_eq_of_lt (by omega)
  rw [hend', hsub, hcast]

/-- One piece of a range, from an object that holds its chunk of the file. -/
lemma readPiece_ok {s : Store} {chunks : FMap ℕ ℕ} {f : Bytes} {offset stop k o : ℕ}
    (hlookup : chunks.lookup k = some o)
    (hobj : s.object o = some (slice f (k * s.chunkSize) (k * s.chunkSize + s.chunkSize)))
    (hstart : k * s.chunkSize < stop) (hend : offset < k * s.chunkSize + s.chunkSize)
    (hlt : offset < stop) (hsmall : stop - offset < 2 ^ 32)
    (hover : k * s.chunkSize + s.chunkSize < 2 ^ 64) :
    s.readPiece chunks offset stop k = .ok (slice f (max offset (k * s.chunkSize))
      (min stop (k * s.chunkSize + s.chunkSize))) := by
  rw [readPiece_exact hlookup hstart hend hlt hsmall hover, readObject, hobj]
  simp only [take_drop_slice]
  congr 2
  · omega
  · omega

/-- The assembly loop concatenates the pieces. -/
lemma readPieces_ok {s : Store} {chunks : FMap ℕ ℕ} {offset stop : ℕ} (piece : ℕ → Bytes)
    (ks : List ℕ) (data : Bytes)
    (h : ∀ k ∈ ks, s.readPiece chunks offset stop k = .ok (piece k)) :
    s.readPieces chunks offset stop ks data = .ok (data ++ ks.flatMap piece) := by
  induction ks generalizing data with
  | nil => simp [readPieces]
  | cons k ks ih =>
      rw [readPieces, h k (by simp)]
      simp only
      rw [ih (data ++ piece k) (fun j hj => h j (List.mem_cons_of_mem _ hj))]
      simp

/-- The range of the file that a read asks for. -/
def requested (f : Bytes) (offset : UInt64) (size : UInt32) : Bytes :=
  slice f offset.toNat (min (offset.toNat + size.toNat) f.length)

/-- A range is assembled to the slice of the file when all its chunks are recorded and hold
their pieces of the file. -/
lemma readCachedRange_ok {s : Store} {path : RemotePath} (attrs : FileAttributes) (f : Bytes)
    {offset stop : ℕ} (hs : Sound G s)
    (hG : ∀ k b, G path.asStr (attrs.label s.chunkSize) k b →
      b = slice f (k * s.chunkSize) (k * s.chunkSize + s.chunkSize))
    (hall : ∀ k ∈ chunkRange offset stop s.chunkSize, (s.cachedChunk path attrs k).isSome)
    (hlt : offset < stop) (hstop : stop ≤ f.length) (hsmall : stop - offset < 2 ^ 32)
    (hover : NoOverflow f.length s.chunkSize) :
    s.readCachedRange path offset stop = .ok (slice f offset stop) := by
  -- the content reference carries the label, since at least one chunk is cached under it
  obtain ⟨c, hc, hlabel⟩ : ∃ c, s.content path.asStr = some c ∧
      c.label = attrs.label s.chunkSize := by
    obtain ⟨k, hk⟩ := List.exists_mem_of_ne_nil _ (chunkRange_ne_nil s.chunkSize_pos hlt)
    obtain ⟨o, ho⟩ := Option.isSome_iff_exists.mp (hall k hk)
    obtain ⟨c, hr, hlabel⟩ := recorded_of_cachedChunk ho
    exact ⟨c, hr.1, hlabel⟩
  have hmap : s.chunkMap path = .ok c.chunks := by
    have hsize : c.chunkSize = s.chunkSize := congrArg Label.chunkSize hlabel
    simp [chunkMap, hc, hsize]
  rw [readCachedRange, hmap]
  simp only
  rw [readPieces_ok (fun k => slice f (max offset (k * s.chunkSize))
    (min stop (k * s.chunkSize + s.chunkSize)))]
  · rw [List.nil_append, chunkRange, max_eq_left s.chunkSize_pos]
    exact congrArg Except.ok (chunk_assembly f s.chunkSize_pos hlt)
  · intro k hk
    obtain ⟨hstart, hend⟩ := mem_chunkRange s.chunkSize_pos hlt hk
    obtain ⟨o, ho⟩ := Option.isSome_iff_exists.mp (hall k hk)
    have hlookup : c.chunks.lookup k = some o := by
      simpa [cachedChunk, hc, hlabel] using ho
    obtain ⟨b, hb, hGb⟩ := hs.good path.asStr c k o ⟨hc, hlookup⟩
    rw [hlabel] at hGb
    rw [hG k b hGb] at hb
    exact readPiece_ok hlookup hb hstart hend hlt hsmall (hover k (by omega))

/-- Where a non-empty read stops. -/
lemma readStop_spec {offset : UInt64} {size : UInt32} {fileSize : UInt64} (hsize : size ≠ 0)
    (hlt : offset < fileSize) :
    offset.toNat < readStop offset size fileSize ∧
      readStop offset size fileSize = min (offset.toNat + size.toNat) fileSize.toNat ∧
      readStop offset size fileSize - offset.toNat < 2 ^ 32 := by
  have hpos : 0 < size.toNat := by
    rcases Nat.eq_zero_or_pos size.toNat with h | h
    · exact absurd (UInt32.toNat_inj.mp h) hsize
    · exact h
  have hlt' : offset.toNat < fileSize.toNat := UInt64.lt_iff_toNat_lt.mp hlt
  have h₁ := fileSize.toNat_lt
  have h₂ := size.toNat_lt
  unfold readStop
  omega

/-- **Reads of a file through the chunk cache.**  From any store whose chunks under the label of
`attrs` are pieces of the file `f`, a read with the attributes of `f` returns exactly the
requested range, and leaves a store of the same kind. -/
theorem read_ok {view : ρ → Tree} (hR : HonestReads R view) {s : Store} (hs : Sound G s)
    {path : RemotePath} {attrs : FileAttributes} {f : Bytes} {m : Option Int} {c : Conn ρ}
    (hview : view c.remote path.asStr = some (.file f m)) (hsize : attrs.size.toNat = f.length)
    (hG : ∀ k b, G path.asStr (attrs.label s.chunkSize) k b ↔
      b = slice f (k * s.chunkSize) (k * s.chunkSize + s.chunkSize))
    (hover : NoOverflow f.length s.chunkSize) (offset : UInt64) (size : UInt32) :
    ∃ s' c', s.read R path attrs offset size c = (.ok (requested f offset size), s', c') ∧
      Sound G s' ∧ view c'.remote = view c.remote := by
  unfold read
  by_cases hempty : size = 0 ∨ attrs.size ≤ offset
  · rw [if_pos hempty]
    refine ⟨s, c, ?_, hs, rfl⟩
    have hnil : requested f offset size = [] := by
      apply slice_eq_nil_of_le
      rcases hempty with rfl | hle
      · simp
      · have := UInt64.le_iff_toNat_le.mp hle
        omega
    rw [hnil]
  · rw [if_neg hempty]
    simp only [not_or, UInt64.not_le] at hempty
    obtain ⟨hlt, hstop, hsmall⟩ := readStop_spec hempty.1 hempty.2
    obtain ⟨s', c', hfetch, hs', -, hall, hv⟩ := fetchMissing_ok hR hsize
      s.chunkSize (fun k _ => (hG k _).mpr rfl)
      (chunkRange offset.toNat (readStop offset size attrs.size) s.chunkSize) s c rfl hs hview
      (fun k hk => by
        have := (mem_chunkRange s.chunkSize_pos hlt hk).1
        omega)
    have hcs : s'.chunkSize = s.chunkSize := by
      have hframe := (fetchMissing_frame (R := R) path attrs
        (chunkRange offset.toNat (readStop offset size attrs.size) s.chunkSize) s c).1.chunkSize
      rwa [hfetch] at hframe
    refine ⟨s', c', ?_, hs', hv⟩
    simp only [hfetch]
    rw [readCachedRange_ok attrs f hs' (fun k b h => by
      rw [hcs] at h ⊢; exact (hG k b).mp h) (by rw [hcs]; exact hall) hlt (by omega) hsmall
      (by rw [hcs]; exact hover)]
    rw [requested, hstop, hsize]

/-! ## Reads of what is no file -/

/-- A download whose first pass fails leaves nothing but a used object id. -/
lemma fetchChunk_refused {P : Error → Prop} {path : RemotePath} {s : Store}
    {attrs : FileAttributes} {c : Conn ρ} {k : ℕ}
    (hread : ∀ o n, ∃ e, P e ∧ (R.read path o n c.remote).1 = .error e)
    (hk : k * s.chunkSize < attrs.size.toNat) :
    ∃ e s' c', P e ∧ s.fetchChunk R path attrs k c = (.error e, s', c') ∧
      SameContents s.allocObject.2 s' := by
  unfold fetchChunk
  simp only
  set o := s.allocObject.1
  set s₁ := (s.allocObject.2.createTemp o).2
  set temp := (s.allocObject.2.createTemp o).1
  have hlen : 0 < s₁.chunkLen attrs k := by
    have hpos := s.chunkSize_pos
    show 0 < min (attrs.size.toNat - k * s.chunkSize) s.chunkSize
    omega
  obtain ⟨len, hlen'⟩ := Nat.exists_eq_succ_of_ne_zero hlen.ne'
  obtain ⟨e, hP, he⟩ := hread (k * s₁.chunkSize + 0) (want (len + 1) 0)
  have hdown : download R path (k * s₁.chunkSize) (s₁.chunkLen attrs k) temp
      (s₁.chunkLen attrs k) 0 s₁ c =
      (.error e, s₁, (c.read R path (k * s₁.chunkSize + 0) (want (len + 1) 0)).2) := by
    rw [hlen', download, if_pos (Nat.succ_pos _)]
    have hread : c.read R path (k * s₁.chunkSize + 0) (want (len + 1) 0) =
        (.error e, (c.read R path (k * s₁.chunkSize + 0) (want (len + 1) 0)).2) :=
      Prod.ext he rfl
    rw [hread]
  rw [hdown]
  exact ⟨e, _, _, hP, rfl, ⟨rfl, rfl, fun _ => rfl⟩⟩

section NoFile

variable {view : ρ → Tree} (hR : StatsTree R view) {path : RemotePath}
include hR

/-- Where there is no file, the download fails with its first pass. -/
lemma fetchChunk_no_file {s : Store} (hs : Sound G s) {attrs : FileAttributes} {c : Conn ρ} {k : ℕ}
    (hno : ∀ f m, view c.remote path.asStr ≠ some (.file f m))
    (hk : k * s.chunkSize < attrs.size.toNat) :
    ∃ e s' c', s.fetchChunk R path attrs k c = (.error e, s', c') ∧ Sound G s' ∧
      ∀ key, s'.entry key = s.entry key := by
  have hread : ∀ o n, ∃ e, True ∧ (R.read path o n c.remote).1 = .error e := fun o n => by
    obtain ⟨e, he⟩ := hR.read_other path o n c.remote hno
    exact ⟨e, trivial, he⟩
  obtain ⟨e, s', c', -, heq, hsame⟩ := fetchChunk_refused hread hk
  refine ⟨e, s', c', heq, hs.alloc.congr hsame.index hsame.object, fun key => ?_⟩
  rw [entry, hsame.index]
  rfl

lemma fetchMissing_no_file (attrs : FileAttributes) (ks : List ℕ) {s : Store} (hs : Sound G s)
    {c : Conn ρ} (hno : ∀ f m, view c.remote path.asStr ≠ some (.file f m))
    (hks : ∀ k ∈ ks, k * s.chunkSize < attrs.size.toNat) :
    Sound G (fetchMissing R path attrs ks s c).2.1 ∧
      ∀ key, (fetchMissing R path attrs ks s c).2.1.entry key = s.entry key := by
  induction ks with
  | nil => exact ⟨hs, fun _ => rfl⟩
  | cons k ks ih =>
      rw [fetchMissing]
      split
      · exact ih fun j hj => hks j (List.mem_cons_of_mem _ hj)
      · obtain ⟨e, s', c', heq, hs', hentry⟩ := fetchChunk_no_file hR hs hno (hks k (by simp))
        rw [heq]
        exact ⟨hs', hentry⟩

/-- **Reads of what is no file** record nothing. -/
lemma read_no_file (attrs : FileAttributes) {s : Store} (hs : Sound G s) {c : Conn ρ}
    (hno : ∀ f m, view c.remote path.asStr ≠ some (.file f m)) (offset : UInt64) (size : UInt32) :
    Sound G (s.read R path attrs offset size c).2.1 ∧
      ∀ key, (s.read R path attrs offset size c).2.1.entry key = s.entry key := by
  unfold read
  split
  · exact ⟨hs, fun _ => rfl⟩
  · next hempty =>
      simp only [not_or, UInt64.not_le] at hempty
      obtain ⟨hlt, hstop, -⟩ := readStop_spec hempty.1 hempty.2
      have hmissing := fetchMissing_no_file hR attrs
        (chunkRange offset.toNat (readStop offset size attrs.size) s.chunkSize) hs hno
        (fun k hk => by
          have := (mem_chunkRange s.chunkSize_pos hlt hk).1
          omega)
      simp only
      split
      · next s' c' heq =>
          rw [heq] at hmissing
          exact hmissing
      · next e s' c' heq =>
          rw [heq] at hmissing
          exact hmissing

end NoFile

end Store

end CacheShfs
