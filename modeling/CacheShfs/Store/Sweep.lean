import CacheShfs.Store.Crash
import CacheShfs.Store.Shown

/-!
# What the operations delete

Object files are deleted by id.  An id too many destroys the content of another file, and an id
too few leaves a file that nothing will ever delete, since there is no garbage collector.
`Sweeps` is what the operations on the metadata do: they drop content references and delete the
objects of all that they drop.  `rename` does so too, but only after it has moved the entry.

A read deletes when it records a chunk: the object that the chunk had, or all objects of a
content of another version.
-/

namespace CacheShfs

namespace Index

/-- `index'` keeps the content references of `index` or drops them, and `orphans` are the objects
of all that are dropped. -/
structure Frees (index index' : Index) (orphans : List ℕ) : Prop where
  drops : index.Drops index' orphans
  all : ∀ key c, index.content key = some c → index'.content key = none →
    ∀ o ∈ contentObjects c, o ∈ orphans

lemma Frees.refl (index : Index) : index.Frees index [] where
  drops := .refl index
  all key c hc hnone := by
    rw [hc] at hnone
    cases hnone

lemma Frees.trans {i₁ i₂ i₃ : Index} {o₁ o₂ : List ℕ} (h₁ : i₁.Frees i₂ o₁)
    (h₂ : i₂.Frees i₃ o₂) : i₁.Frees i₃ (o₁ ++ o₂) where
  drops := h₁.drops.trans h₂.drops
  all key c hc hnone o ho := by
    rw [List.mem_append]
    cases hmid : i₂.content key with
    | none => exact .inl (h₁.all key c hc hmid o ho)
    | some c' =>
        -- what the first step keeps is the same content, and the second step drops it
        have hsame := h₁.drops.kept key c' hmid
        rw [hc] at hsame
        cases hsame
        exact .inr (h₂.all key c hmid hnone o ho)

lemma frees_storeAttrs (index : Index) (key : Str) (attrs : FileAttributes) :
    index.Frees (index.storeAttrs key attrs).1 (index.storeAttrs key attrs).2 where
  drops := drops_storeAttrs index key attrs
  all k c hc hnone o ho := by
    rw [storeAttrs_spec, content_setEntry] at hnone
    split at hnone
    · next hk =>
        subst hk
        have hold : (index.entries.lookup k).bind Entry.content = some c := hc
        simp only [keptContent, hold] at hnone
        split at hnone
        · next hstale =>
            rw [storeAttrs_spec]
            simp only [staleObjects, hold, hstale, if_true]
            exact ho
        · cases hnone
    · rw [hc] at hnone
      cases hnone

lemma frees_storeChildren (parent : RemotePath) (children : List (Str × FileAttributes))
    (index : Index) (orphans : List ℕ) {start : Index} (h : start.Frees index orphans) :
    start.Frees (index.storeChildren parent children orphans).1
      (index.storeChildren parent children orphans).2 := by
  induction children generalizing index orphans with
  | nil => exact h
  | cons child children ih =>
      obtain ⟨name, attrs⟩ := child
      rw [storeChildren_cons]
      split
      · exact ih _ _ (h.trans (frees_storeAttrs _ _ _))
      · exact ih _ _ h

/-- The two indexes refer to the same content. -/
lemma Frees.of_content {index index' : Index}
    (hcontent : ∀ key, index'.content key = index.content key)
    (hnext : index'.nextObject = index.nextObject) : index.Frees index' [] where
  drops := ⟨fun key c hc => (hcontent key).symm.trans hc, by simp, hnext⟩
  all key c hc hnone := by
    rw [hcontent, hc] at hnone
    cases hnone

/-- Forgetting some keys, with all the objects of their content. -/
lemma frees_of_forget {index index' : Index} {orphans : List ℕ} (forgotten : Str → Prop)
    [DecidablePred forgotten]
    (hcontent : ∀ key, index'.content key = if forgotten key then none else index.content key)
    (horphan : ∀ o, o ∈ orphans ↔ ∃ key c,
      forgotten key ∧ index.content key = some c ∧ o ∈ contentObjects c)
    (hnext : index'.nextObject = index.nextObject) : index.Frees index' orphans where
  drops := Store.drops_of_forget forgotten hcontent (fun o ho => (horphan o).mp ho) hnext
  all key c hc hnone o ho := by
    refine (horphan o).mpr ⟨key, c, ?_, hc, ho⟩
    by_contra hkept
    rw [hcontent, if_neg hkept, hc] at hnone
    cases hnone

end Index

namespace Store

variable {G : Str → Label → ℕ → Bytes → Prop} {s s' : Store}

/-- Some content reference of the store has the object. -/
def Referenced (s : Store) (o : ℕ) : Prop :=
  ∃ key c, s.content key = some c ∧ o ∈ contentObjects c

lemma Sound.referenced_iff (h : Sound G s) {o : ℕ} :
    s.Referenced o ↔ ∃ key c k, s.Recorded key c k o := by
  constructor
  · rintro ⟨key, c, hc, ho⟩
    obtain ⟨k, hk⟩ := (h.mem_contentObjects hc).mp ho
    exact ⟨key, c, k, hc, hk⟩
  · rintro ⟨key, c, k, hc, hk⟩
    exact ⟨key, c, hc, (h.mem_contentObjects hc).mpr ⟨k, hk⟩⟩

/-- `s'` is reached from `s` by dropping content references and then deleting the objects of all
that are dropped. -/
def Sweeps (s s' : Store) : Prop :=
  ∃ orphans persisted, s.index.Frees s'.index orphans ∧
    s' = ((s.setIndex s'.index).persistIf persisted).removeObjects orphans

lemma sweeps_of_frees {index : Index} {orphans : List ℕ} (h : s.index.Frees index orphans)
    (persisted : Bool) :
    s.Sweeps (((s.setIndex index).persistIf persisted).removeObjects orphans) :=
  ⟨orphans, persisted, by simpa using h, by simp⟩

/-! ## The operations on the metadata -/

lemma sweeps_putAttrs (path : RemotePath) (attrs : FileAttributes) (s : Store) :
    s.Sweeps (s.putAttrs path attrs) :=
  sweeps_of_frees (Index.frees_storeAttrs _ _ _) true

lemma sweeps_recordListing (parent : RemotePath) (children : List (Str × FileAttributes))
    (s : Store) : s.Sweeps (s.recordListing parent children) := by
  have h := Index.frees_storeChildren parent children s.index [] (.refl s.index)
  -- the listings are not a matter of content
  have hlisted : s.index.Frees { (s.index.storeChildren parent children []).1 with
      listings := (s.index.storeChildren parent children []).1.listings.insert parent.asStr
        (children.map Prod.fst) } (s.index.storeChildren parent children []).2 :=
    ⟨⟨h.drops.kept, h.drops.orphan, h.drops.next⟩, h.all⟩
  exact sweeps_of_frees hlisted true

lemma sweeps_invalidateChildren (path : RemotePath) (s : Store) :
    s.Sweeps (s.invalidateChildren path) := by
  have h : s.index.Frees { s.index with listings := s.index.listings.erase path.asStr } [] :=
    .of_content (fun _ => rfl) rfl
  exact sweeps_of_frees h _

lemma sweeps_remove (path : RemotePath) (s : Store) : s.Sweeps (s.remove path) := by
  have h : s.index.Frees { s.index with
      entries := s.index.entries.erase path.asStr
      listings := s.index.listings.erase path.asStr }
      (((s.index.entries.lookup path.asStr).map Entry.objects).getD []) := by
    refine Index.frees_of_forget (· = path.asStr) (fun key => ?_) (fun o => ?_) rfl
    · rw [Index.content, FMap.lookup_erase_eq_ite]
      split <;> rfl
    · rw [mem_objects_getD]
      constructor
      · rintro ⟨c, hc, ho⟩
        exact ⟨path.asStr, c, rfl, hc, ho⟩
      · rintro ⟨key, c, rfl, hc, ho⟩
        exact ⟨c, hc, ho⟩
  exact sweeps_of_frees h _

lemma sweeps_invalidateContent (path : RemotePath) (s : Store) :
    s.Sweeps (s.invalidateContent path) := by
  unfold invalidateContent
  split
  · next e he =>
      have h : s.index.Frees (s.index.setEntry path.asStr { e with content := none })
          e.objects := by
        refine Index.frees_of_forget (· = path.asStr) (fun key => ?_) (fun o => ?_) rfl
        · exact Index.content_setEntry s.index path.asStr _ key
        · have hobjects := mem_objects_getD (e := some e) (o := o)
          rw [Option.map_some, Option.getD_some] at hobjects
          rw [hobjects]
          constructor
          · rintro ⟨c, hc, ho⟩
            exact ⟨path.asStr, c, rfl, by rw [Index.content, he]; exact hc, ho⟩
          · rintro ⟨key, c, rfl, hc, ho⟩
            exact ⟨c, by rw [Index.content, he] at hc; exact hc, ho⟩
      exact sweeps_of_frees h _
  · exact sweeps_of_frees (.refl s.index) false

/-- A rename sweeps what lies below its source, after it has moved the entry. -/
lemma sweeps_rename (src dst : RemotePath) (s : Store) :
    (s.setIndex (s.index.move src.asStr dst.asStr)).Sweeps (s.rename src dst) := by
  set index := s.index.move src.asStr dst.asStr with hindex
  have h : index.Frees (index.forget (index.descendants src.asStr))
      ((index.descendants src.asStr).flatMap fun key =>
        ((index.entries.lookup key).map Entry.objects).getD []) := by
    refine Index.frees_of_forget (· ∈ index.descendants src.asStr) (fun key => ?_)
      (fun o => ?_) rfl
    · rw [Index.content, Index.forget, FMap.lookup_eraseAll]
      split <;> rfl
    · rw [List.mem_flatMap]
      constructor
      · rintro ⟨key, hkey, hmem⟩
        obtain ⟨c, hc, ho⟩ := mem_objects_getD.mp hmem
        exact ⟨key, c, hkey, hc, ho⟩
      · rintro ⟨key, c, hkey, hc, ho⟩
        exact ⟨key, hkey, mem_objects_getD.mpr ⟨c, hc, ho⟩⟩
  have hsweep := sweeps_of_frees (s := s.setIndex index) h true
  exact hsweep

/-! ## What is deleted is not referred to -/

@[simp] lemma effects_self (s : Store) : s.effects s = [] := by simp [effects]

lemma Sweeps.unreferenced (h : s.Sweeps s') (hs : Sound G s) {o : ℕ}
    (ho : FsEffect.removeObject o ∈ s.effects s') : s'.Unreferenced o := by
  obtain ⟨orphans, persisted, hfrees, heq⟩ := h
  have hjournal : s'.journal = ((if persisted then [FsEffect.writeIndex s'.index] else []) ++
      orphans.map FsEffect.removeObject).reverse ++ s.journal := by
    have hremoved := journal_removeObjects orphans ((s.setIndex s'.index).persistIf persisted)
    rw [← heq] at hremoved
    rw [hremoved]
    cases persisted <;> simp [persistIf, persist, emit, setIndex]
  rw [effects_eq hjournal] at ho
  have horphan : o ∈ orphans := by
    cases persisted <;> simpa using ho
  rintro key c k ⟨hc, hk⟩
  -- the object belongs to a content that is dropped, and to no other one
  obtain ⟨key', c', hc', hmem, hnone⟩ := hfrees.drops.orphan o horphan
  obtain ⟨k', hk'⟩ := (hs.mem_contentObjects hc').mp hmem
  obtain ⟨rfl, -⟩ := hs.unique key c k key' c' k' o ⟨hfrees.drops.kept key c hc, hk⟩ ⟨hc', hk'⟩
  rw [← content_eq, hc] at hnone
  cases hnone

lemma Kept.move (hs : Kept s) (src dst : Str) : Kept (s.setIndex (s.index.move src dst)) :=
  Sound.move hs (fun _ _ _ _ _ => trivial) (fun _ _ _ _ _ _ => trivial)
    fun _ _ _ _ _ _ _ _ => trivial

lemma Sound.recordDeletes_unreferenced (hs : Sound G s) {path : RemotePath} {attrs : FileAttributes}
    {k o : ℕ} (hfree : s.Unreferenced o) {x : ℕ}
    (hx : x ∈ recordDeletes (attrs.label s.chunkSize) k (s.content path.asStr)) :
    (s.recordChunk path attrs k o).Unreferenced x ∧ x < s.index.nextObject ∧ x ≠ o := by
  obtain ⟨c', k', hr', hk'⟩ := hs.recorded_of_mem_recordDeletes hx
  have hne : x ≠ o := fun heq => hfree path.asStr c' k' (heq ▸ hr')
  refine ⟨fun key c k₁ hr => ?_, hs.below path.asStr c' k' x hr', hne⟩
  rcases recorded_recordChunk hr with ⟨-, -, heq, -⟩ | ⟨c₀, hr₀, hlabel, hpath⟩
  · exact hne heq
  · -- a chunk of this path that is kept has the new label, and another number
    obtain ⟨rfl, rfl⟩ := hs.unique key c₀ k₁ path.asStr c' k' x hr₀ hr'
    obtain ⟨hne', hlab⟩ := hpath rfl
    have hsame : c₀ = c' := Option.some.inj (hr₀.1.symm.trans hr'.1)
    exact hne' (hk' (by rw [← hsame, hlabel, hlab]))

/-- The effects of recording a chunk. -/
lemma journal_recordChunk (path : RemotePath) (attrs : FileAttributes) (k o : ℕ) (s : Store) :
    ∃ index, (s.recordChunk path attrs k o).journal =
      ((recordDeletes (attrs.label s.chunkSize) k (s.content path.asStr)).map
        FsEffect.removeObject ++ [FsEffect.writeIndex index]).reverse ++ s.journal := by
  have hcontent : ((s.entry path.asStr).getD ⟨.ofAttributes attrs, none⟩).content =
      s.content path.asStr := by
    rw [content]
    cases s.entry path.asStr <;> rfl
  refine ⟨(s.recordChunk path attrs k o).index, ?_⟩
  rw [List.reverse_append]
  show FsEffect.writeIndex (s.recordChunk path attrs k o).index :: (s.removeObjects (recordDeletes
    _ k ((s.entry path.asStr).getD ⟨.ofAttributes attrs, none⟩).content)).journal = _
  rw [hcontent, journal_removeObjects]
  rfl

end Store

namespace ReadTask

variable {ρ : Type} {R : RemoteFilesystem ρ} {G : Str → Label → ℕ → Bytes → Prop} {a : ReadArgs}

/-- Since the store `s` a read has deleted only objects that nothing refers to, nor will. -/
def DeletesDead (s : Store) (pc : ReadPc) (t : Store) : Prop :=
  ∃ effects : List FsEffect, t.journal = effects.reverse ++ s.journal ∧
    ∀ o, FsEffect.removeObject o ∈ effects →
      t.Unreferenced o ∧ o < t.index.nextObject ∧ owns pc ≠ some o

/-- A step deletes no object, or it records a chunk. -/
lemma Steps.emits {w w' : StoreWorld ρ} {pc pc' : ReadPc} (h : Steps R a w pc pc' w') :
    (∃ effects : List FsEffect, w'.store.journal = effects.reverse ++ w.store.journal ∧
      ∀ o, FsEffect.removeObject o ∉ effects) ∨
    ∃ chunk rest object, pc = .record chunk rest object ∧ pc' = .check rest ∧
      w'.store = w.store.recordChunk a.path a.attrs chunk object := by
  cases h with
  | create => exact .inl ⟨[.createTemp _], rfl, by simp⟩
  | @arrived _ _ _ temp _ data => exact .inl ⟨[.appendTemp temp data], rfl, by simp⟩
  | @refused _ _ _ temp => exact .inl ⟨[.removeTemp temp], rfl, by simp⟩
  | @install _ _ object temp => exact .inl ⟨[.renameTemp temp object], rfl, by simp⟩
  | record => exact .inr ⟨_, _, _, rfl, rfl, rfl⟩
  | _ => exact .inl ⟨[], rfl, by simp⟩

lemma Steps.deletesDead {s : Store} {w w' : StoreWorld ρ} {pc pc' : ReadPc}
    (hstep : Steps R a w pc pc' w') (hs : w.store.Sound G) (ho : Owned pc w.store)
    (h : DeletesDead s pc w.store) : DeletesDead s pc' w'.store := by
  obtain ⟨old, hold, hdead⟩ := h
  have hrespects := hstep.respects hs ho
  have hkept : ∀ o, FsEffect.removeObject o ∈ old →
      w'.store.Unreferenced o ∧ o < w'.store.index.nextObject ∧ ReadTask.owns pc' ≠ some o := by
    intro o hmem
    obtain ⟨hfree, hlt, hne⟩ := hdead o hmem
    refine ⟨hrespects.free o hlt hne hfree, lt_of_lt_of_le hlt hrespects.next, fun hown => ?_⟩
    rcases hstep.owns hown with hown | rfl
    · exact hne hown
    · exact Nat.lt_irrefl _ hlt
  rcases hstep.emits with ⟨new, hnew, hquiet⟩ | ⟨chunk, rest, object, rfl, rfl, hstore⟩
  · refine ⟨old ++ new, ?_, fun o hmem => ?_⟩
    · rw [hnew, hold, List.reverse_append, List.append_assoc]
    · rcases List.mem_append.mp hmem with hmem | hmem
      · exact hkept o hmem
      · exact absurd hmem (hquiet o)
  · obtain ⟨index, hnew⟩ := w.store.journal_recordChunk a.path a.attrs chunk object
    refine ⟨_, by rw [hstore, hnew, hold, ← List.append_assoc, ← List.reverse_append],
      fun o hmem => ?_⟩
    rcases List.mem_append.mp hmem with hmem | hmem
    · exact hkept o hmem
    · have hdeleted : o ∈ Store.recordDeletes (a.attrs.label w.store.chunkSize) chunk
          (w.store.content a.path.asStr) := by simpa using hmem
      obtain ⟨hfree, hlt, -⟩ := hs.recordDeletes_unreferenced (ho.free _ rfl).2 hdeleted
      rw [hstore]
      exact ⟨hfree, by rwa [Store.recordChunk_nextObject], fun howns => by cases howns⟩

end ReadTask

namespace Store

variable {ρ : Type} {R : RemoteFilesystem ρ} {s : Store}

lemma Kept.read_unreferenced (hs : Kept s) (path : RemotePath) (attrs : FileAttributes)
    (offset : UInt64) (size : UInt32) (c : Conn ρ) {o : ℕ}
    (ho : FsEffect.removeObject o ∈ s.effects (s.read R path attrs offset size c).2.1) :
    (s.read R path attrs offset size c).2.1.Unreferenced o := by
  set a : ReadArgs := ⟨path, attrs, offset, size⟩
  have hruns := ReadTask.runs_read (R := R) (a := a) s c
  obtain ⟨-, -, effects, hjournal, hdead⟩ := ReadTask.Runs.induction
    (P := fun x => Kept x.2.store ∧ ReadTask.Owned x.1 x.2.store ∧
      ReadTask.DeletesDead s x.1 x.2.store) (fun x hx => by
        have hstep := ReadTask.steps_next R a x.2 x.1
        exact ⟨hstep.sound hx.1 hx.2.1 fun _ _ _ _ _ _ => trivial, hstep.owned hx.1 hx.2.1,
          hstep.deletesDead hx.1 hx.2.1 hx.2.2⟩) hruns
    ⟨hs, ReadTask.owned_of_none (ReadTask.owns_start _ _) _, [], rfl, by simp⟩
  rw [effects_eq hjournal] at ho
  exact (hdead o ho).1

end Store

end CacheShfs
