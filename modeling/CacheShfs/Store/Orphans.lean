import CacheShfs.Store.Frame

/-!
# Object files that nothing refers to

There is no garbage collector, so an operation that drops a content reference has to delete its
objects.  All but one do: after every operation the files under `objects/` are exactly the ids
that the index refers to (`Store.Exact`).  The exception is a rename onto a path with cached
content.  The entry of the target is replaced, and its objects stay where they are, for good.

`objects_exact_iff` is the exact statement: in a run all operations leave `objects/` exact if and
only if no rename replaces content.
-/

namespace CacheShfs

open Machine

namespace Store

variable {G : Str → Label → ℕ → Bytes → Prop} {s s' : Store}

/-- **The object files are exactly those that the index refers to.** -/
def Exact (s : Store) : Prop := ∀ o, s.object o ≠ none ↔ s.Referenced o

lemma Sound.object_of_referenced (h : Sound G s) {o : ℕ} (ho : s.Referenced o) :
    s.object o ≠ none := by
  obtain ⟨key, c, k, hr⟩ := h.referenced_iff.mp ho
  obtain ⟨b, hb, -⟩ := h.good key c k o hr
  rw [hb]
  simp

lemma Sound.exact_of_subset (h : Sound G s) (hsub : ∀ o, s.object o ≠ none → s.Referenced o) :
    Exact s :=
  fun o => ⟨hsub o, h.object_of_referenced⟩

/-- A sweep deletes the objects of what it drops, and those only. -/
lemma Sweeps.exact_iff (h : s.Sweeps s') (hs : Sound G s) (hs' : Sound G s') :
    Exact s' ↔ Exact s := by
  obtain ⟨orphans, persisted, hfrees, heq⟩ := h
  have hobject : ∀ o, s'.object o = if o ∈ orphans then none else s.object o := by
    intro o
    rw [heq, object_removeObjects]
    simp [object]
  have hkept : ∀ o, s'.Referenced o → s.Referenced o := by
    rintro o ⟨key, c, hc, ho⟩
    exact ⟨key, c, hfrees.drops.kept key c hc, ho⟩
  constructor
  · intro hexact
    refine hs.exact_of_subset fun o ho => ?_
    by_cases horphan : o ∈ orphans
    · obtain ⟨key, c, hc, hmem, -⟩ := hfrees.drops.orphan o horphan
      exact ⟨key, c, hc, hmem⟩
    · refine hkept o ((hexact o).mp ?_)
      rwa [hobject, if_neg horphan]
  · intro hexact
    refine hs'.exact_of_subset fun o ho => ?_
    have hnot : o ∉ orphans := by
      intro horphan
      rw [hobject, if_pos horphan] at ho
      exact ho rfl
    rw [hobject, if_neg hnot] at ho
    obtain ⟨key, c, hc, hmem⟩ := (hexact o).mp ho
    -- had the reference been dropped, its objects would be orphans
    cases hafter : s'.content key with
    | none => exact absurd (hfrees.all key c hc hafter o hmem) hnot
    | some c' =>
        obtain rfl : c' = c := Option.some.inj ((hfrees.drops.kept key c' hafter).symm.trans hc)
        exact ⟨key, c', hafter, hmem⟩

/-! ## Rename -/

/-- A rename finds no content to replace: there is no entry to move, or it stays where it is, or
nothing is cached for the target. -/
def TargetFree (src dst : RemotePath) (s : Store) : Prop :=
  s.entry src.asStr = none ∨ src.asStr = dst.asStr ∨ s.content dst.asStr = none

instance TargetFree.decidable (src dst : RemotePath) (s : Store) :
    Decidable (s.TargetFree src dst) :=
  decidable_of_iff ((s.entry src.asStr).isNone ∨ src.asStr = dst.asStr ∨
    (s.content dst.asStr).isNone) (by simp [TargetFree])

/-- The references after the entry has been moved. -/
lemma content_moved (src dst : RemotePath) (s : Store) (key : Str) :
    (s.setIndex (s.index.move src.asStr dst.asStr)).content key =
      if key = dst.asStr then
        if s.entry src.asStr = none then s.content key else s.content src.asStr
      else if key = src.asStr then none else s.content key := by
  rw [content_eq, setIndex_index, content_move]
  split
  · next hkey =>
      subst hkey
      show ((s.entry src.asStr).or (s.entry dst.asStr)).bind Entry.content = _
      unfold content
      cases s.entry src.asStr <;> rfl
  · rfl

/-- What is referred to stays so, if the target is free. -/
lemma TargetFree.referenced {src dst : RemotePath} (h : s.TargetFree src dst) {o : ℕ}
    (ho : s.Referenced o) : (s.setIndex (s.index.move src.asStr dst.asStr)).Referenced o := by
  obtain ⟨key, c, hc, hmem⟩ := ho
  by_cases hnone : s.entry src.asStr = none
  · have hkey : key ≠ src.asStr := by
      rintro rfl
      rw [content, hnone] at hc
      cases hc
    refine ⟨key, c, ?_, hmem⟩
    rw [content_moved, if_pos hnone, if_neg hkey]
    simpa using hc
  · by_cases hkey : key = src.asStr
    · refine ⟨dst.asStr, c, ?_, hmem⟩
      rw [content_moved, if_pos rfl, if_neg hnone, ← hkey]
      exact hc
    · have hdst : key ≠ dst.asStr := by
        rintro rfl
        rcases h with h | h | h
        · exact hnone h
        · exact hkey h.symm
        · rw [h] at hc
          cases hc
      refine ⟨key, c, ?_, hmem⟩
      rw [content_moved, if_neg hdst, if_neg hkey]
      exact hc

/-- **A rename leaves no orphans exactly if it replaces no content.** -/
lemma exact_rename_iff (hs : Sound G s) (hy : Synced s) (hexact : Exact s) (src dst : RemotePath) :
    Exact (s.rename src dst) ↔ s.TargetFree src dst := by
  have hkept : Kept s := hs.mono fun _ _ _ _ _ _ => trivial
  have hmoved := hkept.move src.asStr dst.asStr
  rw [(sweeps_rename src dst s).exact_iff hmoved (kept_rename hkept src dst)]
  constructor
  · intro hafter
    by_contra hno
    obtain ⟨hsrc, hne, hdst⟩ : s.entry src.asStr ≠ none ∧ src.asStr ≠ dst.asStr ∧
        s.content dst.asStr ≠ none := by simpa [TargetFree, not_or] using hno
    obtain ⟨c, hc⟩ := Option.ne_none_iff_exists'.mp hdst
    obtain ⟨o, ho⟩ := List.exists_mem_of_ne_nil _ (hy.filled dst.asStr c hc)
    obtain ⟨k, hk⟩ := (hs.mem_contentObjects hc).mp ho
    -- the object of the target is still there, and no chunk has it any more
    obtain ⟨key, c', hc', hmem⟩ := (hafter o).mp (hs.object_of_referenced ⟨_, c, hc, ho⟩)
    rw [content_moved] at hc'
    by_cases hkey : key = dst.asStr
    · rw [if_pos hkey, if_neg hsrc] at hc'
      obtain ⟨k', hk'⟩ := (hs.mem_contentObjects hc').mp hmem
      exact hne (hs.unique _ _ _ _ _ _ o ⟨hc', hk'⟩ ⟨hc, hk⟩).1
    · rw [if_neg hkey] at hc'
      split at hc'
      · cases hc'
      · obtain ⟨k', hk'⟩ := (hs.mem_contentObjects hc').mp hmem
        exact hkey (hs.unique _ _ _ _ _ _ o ⟨hc', hk'⟩ ⟨hc, hk⟩).1
  · intro hfree
    exact hmoved.exact_of_subset fun o ho => hfree.referenced ((hexact o).mp ho)

/-! ## Reads -/

/-- Recording a chunk deletes what it replaces. -/
lemma Sound.referenced_recordChunk (hs : Sound G s) {path : RemotePath} {attrs : FileAttributes}
    {k o x : ℕ} (hx : (s.recordChunk path attrs k o).object x ≠ none)
    (h : s.Referenced x ∨ x = o) :
    ∃ key c k', (s.recordChunk path attrs k o).Recorded key c k' x := by
  have hnew : ∀ k', (s.recordedContent path attrs k o).chunks.lookup k' = some x →
      ∃ key c k', (s.recordChunk path attrs k o).Recorded key c k' x := by
    intro k' hk'
    exact ⟨path.asStr, s.recordedContent path attrs k o, k',
      by rw [content_recordChunk, if_pos rfl], hk'⟩
  rcases h with href | rfl
  · obtain ⟨key, c, k', hc, hk'⟩ := hs.referenced_iff.mp href
    by_cases hkey : key = path.asStr
    · subst hkey
      rw [object_recordChunk] at hx
      have hkept : x ∉ recordDeletes (attrs.label s.chunkSize) k (s.content path.asStr) := by
        intro hmem
        rw [if_pos hmem] at hx
        exact hx rfl
      simp only [recordDeletes, hc] at hkept
      by_cases hlabel : c.label = attrs.label s.chunkSize
      · rw [if_pos hlabel] at hkept
        have hne : k' ≠ k := by
          rintro rfl
          simp [hk'] at hkept
        refine hnew k' ?_
        rw [recordedContent_lookup, if_neg hne, cachedChunk, hc]
        simpa [hlabel] using hk'
      · rw [if_neg hlabel] at hkept
        exact absurd ((hs.mem_contentObjects hc).mpr ⟨k', hk'⟩) hkept
    · exact ⟨key, c, k', by rw [content_recordChunk, if_neg hkey]; exact hc, hk'⟩
  · refine hnew k ?_
    rw [recordedContent_lookup, if_pos rfl]

end Store

namespace ReadTask

variable {ρ : Type} {R : RemoteFilesystem ρ} {G : Str → Label → ℕ → Bytes → Prop} {a : ReadArgs}

/-- During a read every object file is referred to, but for the one that it is about to
record. -/
def Accounted (pc : ReadPc) (s : Store) : Prop :=
  ∀ o, s.object o ≠ none → s.Referenced o ∨ ∃ chunk rest, pc = .record chunk rest o

/-- The step changes neither objects nor entries, and the read has nothing to record. -/
lemma Accounted.congr {pc pc' : ReadPc} {s s' : Store} (h : Accounted pc s)
    (hpc : ∀ chunk rest o, pc ≠ .record chunk rest o)
    (hobject : ∀ o, s'.object o = s.object o) (hentries : s'.index.entries = s.index.entries) :
    Accounted pc' s' := by
  intro o ho
  rw [hobject] at ho
  rcases h o ho with ⟨key, c, hc, hmem⟩ | ⟨chunk, rest, hrec⟩
  · refine .inl ⟨key, c, ?_, hmem⟩
    rw [Store.content, Store.entry, hentries]
    exact hc
  · exact absurd hrec (hpc chunk rest o)

lemma Steps.accounted {w w' : StoreWorld ρ} {pc pc' : ReadPc} (hstep : Steps R a w pc pc' w')
    (hs : w.store.Sound G) (hs' : w'.store.Sound G) (h : Accounted pc w.store) :
    Accounted pc' w'.store := by
  cases hstep with
  | @install chunk rest object temp =>
      intro o ho
      rw [Store.object_install] at ho
      split at ho
      · next heq => exact .inr ⟨chunk, rest, heq ▸ rfl⟩
      · rcases h o ho with href | ⟨_, _, hrec⟩
        · exact .inl href
        · cases hrec
  | @record chunk rest object =>
      intro o ho
      refine .inl (hs'.referenced_iff.mpr (hs.referenced_recordChunk ho ?_))
      have hbefore : w.store.object o ≠ none := by
        intro hnone
        rw [Store.object_recordChunk, hnone] at ho
        simp at ho
      rcases h o hbefore with href | ⟨_, _, hrec⟩
      · exact .inl href
      · cases hrec
        exact .inr rfl
  | _ => exact h.congr (fun _ _ _ hrec => by cases hrec) (fun _ => rfl) rfl

end ReadTask

namespace Store

variable {ρ : Type} {R : RemoteFilesystem ρ} {s : Store}

/-- A read leaves no orphans, whether it fails or not. -/
lemma Kept.exact_read (hs : Kept s) (hexact : Exact s) (path : RemotePath) (attrs : FileAttributes)
    (offset : UInt64) (size : UInt32) (c : Conn ρ) :
    Exact (s.read R path attrs offset size c).2.1 := by
  set a : ReadArgs := ⟨path, attrs, offset, size⟩
  have hruns := ReadTask.runs_read (R := R) (a := a) s c
  obtain ⟨hkept, -, hend⟩ := ReadTask.Runs.induction
    (P := fun x => Kept x.2.store ∧ ReadTask.Owned x.1 x.2.store ∧
      ReadTask.Accounted x.1 x.2.store) (fun x hx => by
        have hstep := ReadTask.steps_next R a x.2 x.1
        have hnext := hstep.sound hx.1 hx.2.1 fun _ _ _ _ _ _ => trivial
        exact ⟨hnext, hstep.owned hx.1 hx.2.1, hstep.accounted hx.1 hnext hx.2.2⟩) hruns
    ⟨hs, ReadTask.owned_of_none (ReadTask.owns_start _ _) _, fun o ho => .inl ((hexact o).mp ho)⟩
  refine hkept.exact_of_subset fun o ho => ?_
  rcases hend o ho with href | ⟨_, _, hrec⟩
  · exact href
  · cases hrec

end Store

/-! ## Runs -/

namespace StoreWorld

variable {ρ : Type} (R : RemoteFilesystem ρ)

/-- The operation is no rename that replaces cached content. -/
def ReplacesNoContent (w : StoreWorld ρ) : SessionEvent ρ → Prop
  | .op (.rename src dst) => w.store.TargetFree src dst
  | _ => True

variable {R}

lemma exact_session_iff (w : StoreWorld ρ) (e : SessionEvent ρ) (hw : w.store.Durable)
    (hexact : w.store.Exact) : (w.session R e).store.Exact ↔ w.ReplacesNoContent e := by
  have hs := hw.1
  cases e with
  | reopen chunkSize =>
      refine iff_of_true (fun o => ?_) trivial
      show w.store.object o ≠ none ↔ (Store.new w.store.disk chunkSize).Referenced o
      rw [hexact o]
      refine exists_congr fun key => exists_congr fun c => ?_
      rw [hw.2.content_new]
  | op e =>
      have hafter : (w.step R e).store.Kept := (durable_step w e hw).1
      cases e with
      | putAttrs path attrs =>
          exact iff_of_true (((Store.sweeps_putAttrs path attrs _).exact_iff hs hafter).mpr hexact)
            trivial
      | recordListing parent children =>
          exact iff_of_true (((Store.sweeps_recordListing parent children _).exact_iff hs
            hafter).mpr hexact) trivial
      | invalidateContent path =>
          exact iff_of_true (((Store.sweeps_invalidateContent path _).exact_iff hs
            hafter).mpr hexact) trivial
      | invalidateChildren path =>
          exact iff_of_true (((Store.sweeps_invalidateChildren path _).exact_iff hs
            hafter).mpr hexact) trivial
      | remove path =>
          exact iff_of_true (((Store.sweeps_remove path _).exact_iff hs hafter).mpr hexact) trivial
      | rename src dst => exact Store.exact_rename_iff hs hw.2 hexact src dst
      | read path attrs offset size =>
          exact iff_of_true (Store.Kept.exact_read hs hexact path attrs offset size w.conn) trivial
      | readCached path offset size => exact iff_of_true hexact trivial
      | external remote => exact iff_of_true hexact trivial

/-- **No orphaned objects, as long as no rename replaces cached content.**  In every run of
operations from an empty directory, over any number of sessions and whatever the remote answers,
all operations leave exactly the objects that the index refers to if and only if every rename
finds its target without content, has nothing to move, or goes where it comes from. -/
theorem objects_exact_iff (chunkSize : UInt64) (conn : Conn ρ) (es : List (SessionEvent ρ)) :
    AllSteps (session R) (fun w e => (w.session R e).store.Exact) (start chunkSize conn) es ↔
      AllSteps (session R) ReplacesNoContent (start chunkSize conn) es := by
  have hexact : (start chunkSize conn).store.Exact := by
    intro o
    refine iff_of_false (fun h => h rfl) ?_
    rintro ⟨key, c, hc, -⟩
    cases hc
  exact allSteps_iff (fun w : StoreWorld ρ => w.store.Durable) (fun w => w.store.Exact)
    durable_session exact_session_iff (durable_start chunkSize conn) hexact

/-! Two cached files, the first of which is renamed onto the second. -/

def fileG : RemotePath := ⟨['/', 'g'], by decide⟩

def twoFiles : Memory :=
  (oneFile [1, 2] (some 1) (by decide)).put ['/', 'g'] (.file [3, 4] (some 1)) (by decide)

def renameOver : List (SessionEvent Memory) :=
  [.op (.read fileF (attrsF 2 1) 0 2), .op (.read fileG (attrsF 2 1) 0 2),
    .op (.rename fileF fileG)]

/-- The object of the replaced file is left behind. -/
theorem rename_leaves_object : ¬ AllSteps (session Memory.filesystem)
    (fun w e => (w.session Memory.filesystem e).store.Exact) (start 4 ⟨twoFiles, 0, []⟩)
    renameOver := by
  rintro ⟨-, hread, hrename, -⟩
  have hdurable := durable_run (R := Memory.filesystem) 4 ⟨twoFiles, 0, []⟩ (renameOver.take 2)
  have hfree := (exact_session_iff _ (.op (.rename fileF fileG)) hdurable hread).mp hrename
  revert hfree
  show ¬ Store.TargetFree fileF fileG _
  decide

end StoreWorld

end CacheShfs
