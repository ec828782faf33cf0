import CacheShfs.Store.Content

/-!
# The object invariant

`Store.Sound G s` ties every recorded chunk to an object file: object ids are below the
allocation counter, no id is referenced twice, and the object of chunk `k` under a content
reference with label `l` at `key` holds bytes `b` with `G key l k b`.  What the bytes have to be
is the parameter `G`; the bookkeeping is the same for every such `G`, so it is proved once here
and each later result only chooses `G`.

Every metadata operation except `rename` changes the index in the same way: it keeps some
content references, drops the others, and deletes objects of dropped ones only.  `Drops` names
that relation, and `Sound.drops` is the preservation lemma for all of them.  `rename` first
moves one entry (`Sound.move`) and then drops.
-/

namespace CacheShfs

namespace Index

/-- The content reference under a key. -/
def content (index : Index) (key : Str) : Option ContentRef :=
  (index.entries.lookup key).bind Entry.content

/-- `index'` keeps the content references of `index` or drops them, and `orphans` are objects of
dropped ones. -/
structure Drops (index index' : Index) (orphans : List ℕ) : Prop where
  kept : ∀ key c, index'.content key = some c → index.content key = some c
  orphan : ∀ o ∈ orphans, ∃ key c,
    index.content key = some c ∧ o ∈ contentObjects c ∧ index'.content key = none
  next : index'.nextObject = index.nextObject

lemma Drops.refl (index : Index) : index.Drops index [] :=
  ⟨fun _ _ h => h, by simp, rfl⟩

lemma Drops.trans {i₁ i₂ i₃ : Index} {o₁ o₂ : List ℕ} (h₁ : i₁.Drops i₂ o₁)
    (h₂ : i₂.Drops i₃ o₂) : i₁.Drops i₃ (o₁ ++ o₂) where
  kept key c h := h₁.kept key c (h₂.kept key c h)
  orphan o ho := by
    rcases List.mem_append.mp ho with ho | ho
    · obtain ⟨key, c, hc, hmem, hnone⟩ := h₁.orphan o ho
      refine ⟨key, c, hc, hmem, ?_⟩
      -- a reference the second step kept would have survived the first one
      cases hthird : i₃.content key with
      | none => rfl
      | some c' => rw [h₂.kept key c' hthird] at hnone; cases hnone
    · obtain ⟨key, c, hc, hmem, hnone⟩ := h₂.orphan o ho
      exact ⟨key, c, h₁.kept key c hc, hmem, hnone⟩
  next := h₂.next.trans h₁.next

lemma content_setEntry (index : Index) (key : Str) (e : Entry) (k : Str) :
    (index.setEntry key e).content k = if k = key then e.content else index.content k := by
  rw [content, setEntry, FMap.lookup_insert_eq_ite]
  split <;> rfl

lemma drops_storeAttrs (index : Index) (key : Str) (attrs : FileAttributes) :
    index.Drops (index.storeAttrs key attrs).1 (index.storeAttrs key attrs).2 where
  kept k c h := by
    rw [storeAttrs_spec, content_setEntry] at h
    split at h
    · next hk =>
        obtain ⟨⟨e, he, hc⟩, -⟩ := keptContent_eq_some.mp h
        rw [hk, content, he]
        exact hc
    · exact h
  orphan o ho := by
    rw [storeAttrs_spec] at ho
    simp only [staleObjects] at ho
    split at ho
    · next c hc =>
        split at ho
        · next hstale =>
            refine ⟨key, c, hc, ho, ?_⟩
            rw [storeAttrs_spec, content_setEntry, if_pos rfl]
            simp only [keptContent, hc, hstale, if_true]
        · simp at ho
    · simp at ho
  next := by simp

lemma drops_storeChildren (parent : RemotePath) (children : List (Str × FileAttributes))
    (index : Index) (orphans : List ℕ) {start : Index} (h : start.Drops index orphans) :
    start.Drops (index.storeChildren parent children orphans).1
      (index.storeChildren parent children orphans).2 := by
  induction children generalizing index orphans with
  | nil => exact h
  | cons child children ih =>
      obtain ⟨name, attrs⟩ := child
      rw [storeChildren_cons]
      split
      · exact ih _ _ (h.trans (drops_storeAttrs _ _ _))
      · exact ih _ _ h

end Index

namespace Store

/-- The recorded chunks of a store: chunk `k` of the content at `key` is object `o`. -/
def Recorded (s : Store) (key : Str) (c : ContentRef) (k o : ℕ) : Prop :=
  s.content key = some c ∧ c.chunks.lookup k = some o

/-- **The object invariant** for a reading `G` of what the bytes of a chunk have to be. -/
structure Sound (G : Str → Label → ℕ → Bytes → Prop) (s : Store) : Prop where
  legacy : ∀ key c, s.content key = some c → c.object = none
  below : ∀ key c k o, s.Recorded key c k o → o < s.index.nextObject
  unique : ∀ key c k key' c' k' o, s.Recorded key c k o → s.Recorded key' c' k' o →
    key = key' ∧ k = k'
  good : ∀ key c k o, s.Recorded key c k o → ∃ b, s.object o = some b ∧ G key c.label k b

variable {G G' : Str → Label → ℕ → Bytes → Prop} {s : Store}

lemma content_eq (s : Store) (key : Str) : s.content key = s.index.content key := rfl

/-- Without legacy objects, the objects of a content reference are those of its chunks. -/
lemma Sound.mem_contentObjects (h : Sound G s) {key : Str} {c : ContentRef}
    (hc : s.content key = some c) {o : ℕ} :
    o ∈ contentObjects c ↔ ∃ k, c.chunks.lookup k = some o := by
  rw [contentObjects, h.legacy key c hc, ← FMap.mem_values_iff]
  simp

/-- The invariant only looks at the index and the objects. -/
lemma Sound.congr {s' : Store} (h : Sound G s) (hindex : s'.index = s.index)
    (hobj : ∀ o, s'.object o = s.object o) : Sound G s' := by
  have hcontent : ∀ key, s'.content key = s.content key := fun key => by
    rw [content_eq, content_eq, hindex]
  have hrec : ∀ {key c k o}, s'.Recorded key c k o → s.Recorded key c k o := fun hr =>
    ⟨(hcontent _).symm.trans hr.1, hr.2⟩
  refine ⟨fun key c hc => h.legacy key c ((hcontent key).symm.trans hc), fun key c k o hr => ?_,
    fun key c k key' c' k' o hr hr' => h.unique key c k key' c' k' o (hrec hr) (hrec hr'),
    fun key c k o hr => ?_⟩
  · rw [hindex]
    exact h.below key c k o (hrec hr)
  · rw [hobj]
    exact h.good key c k o (hrec hr)

/-- A weaker reading of the bytes, on the keys that have content. -/
lemma Sound.mono (h : Sound G s)
    (himp : ∀ key c k b, s.content key = some c → G key c.label k b → G' key c.label k b) :
    Sound G' s where
  legacy := h.legacy
  below := h.below
  unique := h.unique
  good key c k o hr := by
    obtain ⟨b, hb, hG⟩ := h.good key c k o hr
    exact ⟨b, hb, himp key c k b hr.1 hG⟩

/-- Dropping content and deleting its objects keeps the invariant. -/
lemma Sound.drops (h : Sound G s) {index : Index} {orphans : List ℕ}
    (hd : s.index.Drops index orphans) {s' : Store} (hindex : s'.index = index)
    (hobj : ∀ o, s'.object o = if o ∈ orphans then none else s.object o) : Sound G s' := by
  have hkept : ∀ {key c}, s'.content key = some c → s.content key = some c := fun {key c} hc =>
    hd.kept key c (by rw [← hindex]; exact hc)
  have hrec : ∀ {key c k o}, s'.Recorded key c k o → s.Recorded key c k o := fun hr =>
    ⟨hkept hr.1, hr.2⟩
  refine ⟨fun key c hc => h.legacy key c (hkept hc), fun key c k o hr => ?_,
    fun key c k key' c' k' o hr hr' => h.unique key c k key' c' k' o (hrec hr) (hrec hr'),
    fun key c k o hr => ?_⟩
  · rw [hindex, hd.next]
    exact h.below key c k o (hrec hr)
  · have hnot : o ∉ orphans := by
      intro ho
      obtain ⟨key', c', hc', hmem, hnone⟩ := hd.orphan o ho
      obtain ⟨k', hk'⟩ := (h.mem_contentObjects hc').mp hmem
      have hkey := (h.unique key c k key' c' k' o (hrec hr) ⟨hc', hk'⟩).1
      have hsome : index.content key' = some c := by
        rw [← hkey, ← hindex]
        exact hr.1
      rw [hnone] at hsome
      cases hsome
    rw [hobj, if_neg hnot]
    exact h.good key c k o (hrec hr)

/-- `s'` keeps the content references of `s` or drops them, and deletes objects of dropped ones
only. -/
def Shrinks (s s' : Store) : Prop :=
  ∃ orphans, s.index.Drops s'.index orphans ∧
    ∀ o, s'.object o = if o ∈ orphans then none else s.object o

lemma Sound.shrinks (h : Sound G s) {s' : Store} (hs : s.Shrinks s') : Sound G s' := by
  obtain ⟨orphans, hd, hobj⟩ := hs
  exact h.drops hd rfl hobj

lemma shrinks_putAttrs (path : RemotePath) (attrs : FileAttributes) (s : Store) :
    s.Shrinks (s.putAttrs path attrs) := by
  have hindex : (s.putAttrs path attrs).index = (s.index.storeAttrs path.asStr attrs).1 := by
    simp [Store.putAttrs]
  refine ⟨_, by rw [hindex]; exact s.index.drops_storeAttrs path.asStr attrs, fun o => ?_⟩
  simp only [Store.putAttrs, object_removeObjects, object_persist]
  rfl

lemma Sound.putAttrs (h : Sound G s) (path : RemotePath) (attrs : FileAttributes) :
    Sound G (s.putAttrs path attrs) :=
  h.shrinks (shrinks_putAttrs path attrs s)

lemma shrinks_recordListing (parent : RemotePath) (children : List (Str × FileAttributes))
    (s : Store) : s.Shrinks (s.recordListing parent children) := by
  have hd := Index.drops_storeChildren parent children s.index [] (Index.Drops.refl s.index)
  refine ⟨(s.index.storeChildren parent children []).2, ⟨?_, ?_, ?_⟩, ?_⟩
  · intro key c hc
    apply hd.kept key c
    simpa [Store.recordListing, Index.content] using hc
  · intro o ho
    obtain ⟨key, c, hc, hmem, hnone⟩ := hd.orphan o ho
    refine ⟨key, c, hc, hmem, ?_⟩
    simpa [Store.recordListing, Index.content] using hnone
  · simpa [Store.recordListing] using hd.next
  · intro o
    simp only [Store.recordListing, object_removeObjects, object_persist]
    rfl

lemma Sound.recordListing (h : Sound G s) (parent : RemotePath)
    (children : List (Str × FileAttributes)) : Sound G (s.recordListing parent children) :=
  h.shrinks (shrinks_recordListing parent children s)

lemma shrinks_invalidateChildren (path : RemotePath) (s : Store) :
    s.Shrinks (s.invalidateChildren path) := by
  refine ⟨[], ⟨fun key c hc => ?_, by simp, by simp⟩, by simp⟩
  simpa [Store.invalidateChildren, Index.content] using hc

lemma Sound.invalidateChildren (h : Sound G s) (path : RemotePath) :
    Sound G (s.invalidateChildren path) :=
  h.shrinks (shrinks_invalidateChildren path s)

/-- Forgetting some keys keeps the invariant, when exactly their objects are deleted. -/
lemma drops_of_forget {index index' : Index} {orphans : List ℕ} (forgotten : Str → Prop)
    [DecidablePred forgotten]
    (hcontent : ∀ key, index'.content key = if forgotten key then none else index.content key)
    (horphan : ∀ o ∈ orphans, ∃ key c,
      forgotten key ∧ index.content key = some c ∧ o ∈ contentObjects c)
    (hnext : index'.nextObject = index.nextObject) : index.Drops index' orphans where
  kept key c hc := by
    rw [hcontent] at hc
    split at hc
    · cases hc
    · exact hc
  orphan o ho := by
    obtain ⟨key, c, hf, hc, hmem⟩ := horphan o ho
    exact ⟨key, c, hc, hmem, by rw [hcontent, if_pos hf]⟩
  next := hnext

/-- The objects of an optional entry are those of its content. -/
lemma mem_objects_getD {e : Option Entry} {o : ℕ} :
    o ∈ (e.map Entry.objects).getD [] ↔ ∃ c, e.bind Entry.content = some c ∧
      o ∈ contentObjects c := by
  cases e with
  | none => simp
  | some e =>
      obtain ⟨attrs, content⟩ := e
      cases content <;> simp [Entry.objects]

lemma shrinks_remove (path : RemotePath) (s : Store) : s.Shrinks (s.remove path) := by
  refine ⟨_, drops_of_forget (· = path.asStr) (fun key => ?_) (fun o ho => ?_)
    (remove_nextObject path s), object_remove path s⟩
  · have hentry := entry_remove path s key
    change ((s.remove path).entry key).bind Entry.content = _
    rw [hentry]
    split <;> rfl
  · obtain ⟨c, hc, hmem⟩ := mem_objects_getD.mp ho
    exact ⟨path.asStr, c, rfl, hc, hmem⟩

lemma Sound.remove (h : Sound G s) (path : RemotePath) : Sound G (s.remove path) :=
  h.shrinks (shrinks_remove path s)

lemma shrinks_invalidateContent (path : RemotePath) (s : Store) :
    s.Shrinks (s.invalidateContent path) := by
  refine ⟨_, drops_of_forget (· = path.asStr) (fun key => ?_) (fun o ho => ?_)
    (invalidateContent_nextObject path s), object_invalidateContent path s⟩
  · have hentry := entry_invalidateContent path s key
    change ((s.invalidateContent path).entry key).bind Entry.content = _
    rw [hentry]
    split
    · cases s.entry path.asStr <;> rfl
    · rfl
  · obtain ⟨c, hc, hmem⟩ := mem_objects_getD.mp ho
    exact ⟨path.asStr, c, rfl, hc, hmem⟩

lemma Sound.invalidateContent (h : Sound G s) (path : RemotePath) :
    Sound G (s.invalidateContent path) :=
  h.shrinks (shrinks_invalidateContent path s)

/-! ## Rename -/

lemma content_move (index : Index) (src dst key : Str) :
    (index.move src dst).content key =
      if key = dst then
        ((index.entries.lookup src).or (index.entries.lookup dst)).bind Entry.content
      else if key = src then none else index.content key := by
  rw [Index.content, Index.move, FMap.lookup_rekey]
  split
  · rfl
  · split <;> rfl

/-- Moving an entry keeps the invariant, if the moved bytes are right at the new path.  With no
entry at `src` the one at `dst` stays. -/
lemma Sound.move (h : Sound G s) {src dst : Str}
    (hmoved : ∀ c k b, s.content src = some c → G src c.label k b → G' dst c.label k b)
    (hstay : s.entry src = none → ∀ c k b, s.content dst = some c →
      G dst c.label k b → G' dst c.label k b)
    (hrest : ∀ key c k b, key ≠ src → key ≠ dst → s.content key = some c →
      G key c.label k b → G' key c.label k b) :
    Sound G' (s.setIndex (s.index.move src dst)) := by
  -- where the content now at a key was before
  have horigin : ∀ key c, (s.setIndex (s.index.move src dst)).content key = some c →
      ∃ old, s.content old = some c ∧ ((key = dst ∧ old = src) ∨
        (key = dst ∧ old = dst ∧ s.entry src = none) ∨ (key = old ∧ key ≠ dst ∧ key ≠ src)) := by
    intro key c hc
    rw [content_eq, setIndex_index, content_move] at hc
    split at hc
    · next hkey =>
        cases hsrc : s.index.entries.lookup src with
        | some e =>
            rw [hsrc] at hc
            exact ⟨src, by rw [content, entry, hsrc]; exact hc, .inl ⟨hkey, rfl⟩⟩
        | none =>
            rw [hsrc] at hc
            exact ⟨dst, hc, .inr (.inl ⟨hkey, rfl, hsrc⟩)⟩
    · next hdst =>
        split at hc
        · cases hc
        · next hsrc => exact ⟨key, hc, .inr (.inr ⟨rfl, hdst, hsrc⟩)⟩
  refine ⟨fun key c hc => ?_, fun key c k o hr => ?_, fun key c k key' c' k' o hr hr' => ?_,
    fun key c k o hr => ?_⟩
  · obtain ⟨old, hold, -⟩ := horigin key c hc
    exact h.legacy old c hold
  · obtain ⟨old, hold, -⟩ := horigin key c hr.1
    exact h.below old c k o ⟨hold, hr.2⟩
  · obtain ⟨old, hold, hwhere⟩ := horigin key c hr.1
    obtain ⟨old', hold', hwhere'⟩ := horigin key' c' hr'.1
    obtain ⟨hkey, hk⟩ := h.unique old c k old' c' k' o ⟨hold, hr.2⟩ ⟨hold', hr'.2⟩
    refine ⟨?_, hk⟩
    have hsrc : s.entry src = none → ∀ d, s.content src ≠ some d := by
      intro hnone d hd
      rw [content, hnone] at hd
      cases hd
    rcases hwhere with ⟨rfl, rfl⟩ | ⟨rfl, rfl, hn⟩ | ⟨rfl, hd, hs⟩ <;>
      rcases hwhere' with ⟨rfl, rfl⟩ | ⟨rfl, rfl, hn'⟩ | ⟨rfl, hd', hs'⟩ <;> grind
  · obtain ⟨old, hold, hwhere⟩ := horigin key c hr.1
    obtain ⟨b, hb, hG⟩ := h.good old c k o ⟨hold, hr.2⟩
    refine ⟨b, hb, ?_⟩
    rcases hwhere with ⟨rfl, rfl⟩ | ⟨rfl, rfl, hn⟩ | ⟨rfl, hd, hs⟩
    · exact hmoved c k b hold hG
    · exact hstay hn c k b hold hG
    · exact hrest key c k b hs hd hold hG

/-- **Rename keeps the object invariant**, if the moved bytes are right at the new path and the
others at theirs.  What lies below the source is evicted. -/
lemma Sound.rename (h : Sound G s) {src dst : RemotePath}
    (hmoved : ∀ c k b, s.content src.asStr = some c → G src.asStr c.label k b →
      G' dst.asStr c.label k b)
    (hstay : s.entry src.asStr = none → ∀ c k b, s.content dst.asStr = some c →
      G dst.asStr c.label k b → G' dst.asStr c.label k b)
    (hrest : ∀ key c k b, key ≠ src.asStr → key ≠ dst.asStr → ¬ Below src.asStr key →
      s.content key = some c → G key c.label k b → G' key c.label k b) :
    Sound G' (s.rename src dst) := by
  -- nothing is asked of the bytes below the source
  let G'' : Str → Label → ℕ → Bytes → Prop := fun key l k b => Below src.asStr key ∨ G' key l k b
  have hmove : Sound G'' (s.setIndex (s.index.move src.asStr dst.asStr)) := by
    refine h.move (fun c k b hc hG => .inr (hmoved c k b hc hG))
      (fun hn c k b hc hG => .inr (hstay hn c k b hc hG)) fun key c k b hs hd hc hG => ?_
    by_cases hbelow : Below src.asStr key
    · exact .inl hbelow
    · exact .inr (hrest key c k b hs hd hbelow hc hG)
  set index := s.index.move src.asStr dst.asStr with hindex
  have hforget : index.Drops (index.forget (index.descendants src.asStr))
      ((index.descendants src.asStr).flatMap fun key =>
        ((index.entries.lookup key).map Entry.objects).getD []) := by
    refine drops_of_forget (· ∈ index.descendants src.asStr) ?_ ?_ rfl
    · intro key
      rw [Index.content, Index.forget, FMap.lookup_eraseAll]
      split <;> rfl
    · intro o ho
      obtain ⟨key, hkey, hmem⟩ := List.mem_flatMap.mp ho
      obtain ⟨c, hc, hmem⟩ := mem_objects_getD.mp hmem
      exact ⟨key, c, hkey, hc, hmem⟩
  have hrenamed : Sound G'' (s.rename src dst) := by
    refine hmove.drops hforget ?_ ?_
    · simp [Store.rename, hindex]
    · intro o
      simp only [Store.rename, object_removeObjects, object_persist]
      rfl
  refine hrenamed.mono fun key c k b hc hG => ?_
  rcases hG with hbelow | hG
  · rw [content, entry_rename, if_pos hbelow] at hc
    cases hc
  · exact hG

/-- The content that a rename leaves under a key was there before, under the same or another
one. -/
lemma rename_origin {src dst : RemotePath} {key : Str} {c : ContentRef}
    (h : (s.rename src dst).content key = some c) : ∃ old, s.content old = some c := by
  rw [content, entry_rename] at h
  split at h
  · cases h
  · split at h
    · -- the target has the entry of the source, or keeps its own
      cases hsrc : s.entry src.asStr with
      | some e =>
          rw [hsrc] at h
          exact ⟨src.asStr, by rw [content, hsrc]; exact h⟩
      | none =>
          rw [hsrc] at h
          exact ⟨dst.asStr, h⟩
    · split at h
      · cases h
      · exact ⟨key, h⟩

/-- A rename deletes no object but those of content that there was. -/
lemma object_rename (src dst : RemotePath) (o : ℕ) :
    (s.rename src dst).object o = s.object o ∨ (s.rename src dst).object o = none ∧
      ∃ key c, s.content key = some c ∧ o ∈ contentObjects c := by
  simp only [Store.rename, object_removeObjects, object_persist]
  split
  · next ho =>
      refine .inr ⟨rfl, ?_⟩
      obtain ⟨key, -, hmem⟩ := List.mem_flatMap.mp ho
      obtain ⟨c, hc, hmem⟩ := mem_objects_getD.mp hmem
      rw [← Index.content, content_move] at hc
      split at hc
      · cases hsrc : s.index.entries.lookup src.asStr with
        | some e =>
            rw [hsrc] at hc
            exact ⟨src.asStr, c, by rw [content_eq, Index.content, hsrc]; exact hc, hmem⟩
        | none =>
            rw [hsrc] at hc
            exact ⟨dst.asStr, c, hc, hmem⟩
      · split at hc
        · cases hc
        · exact ⟨key, c, hc, hmem⟩
  · exact .inl rfl

/-- An empty cache directory is sound for every reading of the bytes. -/
lemma sound_new_empty (chunkSize : UInt64) : Sound G (Store.new Disk.empty chunkSize) := by
  have hnone : ∀ key, (Store.new Disk.empty chunkSize).content key = none := fun key => by
    simp [content, entry, Store.new, Disk.empty, Index.empty]
  refine ⟨fun key c hc => ?_, fun key c k o hr => ?_, fun key c k key' c' k' o hr _ => ?_,
    fun key c k o hr => ?_⟩
  · rw [hnone] at hc; cases hc
  · have := hr.1; rw [hnone] at this; cases this
  · have := hr.1; rw [hnone] at this; cases this
  · have := hr.1; rw [hnone] at this; cases this

end Store

end CacheShfs
