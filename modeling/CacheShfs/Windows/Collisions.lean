import CacheShfs.Lib.Machine
import CacheShfs.Windows.Fs

/-!
# Names that differ by case

`mount` declares the volume to WinFsp as one that ignores case and keeps it, and `lookup_component`
finds a name in any case.  A new name is used as it is given: neither `create` nor `rename` looks
for it in another case first, and `rename` does not look at `replace_if_exists`.  What becomes of
such a call is what the filesystem behind the adapter does with it.

A filesystem with case-sensitive names makes the entry, so the adapter adds names that differ only
by case, and replaces what it has not been asked to replace (`collision_created`).  It keeps to what
is expected of it exactly in the runs in which the filesystem refuses such a request, and then
no directory comes to have two names that differ only by case (`collisions_refused_iff`).
-/

namespace CacheShfs

open Machine

namespace Windows

variable {σ : Type} (V : VirtualFilesystem σ)

/-! ## What is assumed of the filesystem -/

/-- The directory has an entry with this name. -/
def HasName (s : σ) (directory : NodeId) (name : Str) : Prop :=
  ∃ entries, V.readdir s directory = .ok entries ∧ ∃ entry ∈ entries, entry.name = name

/-- An operation that was refused has changed no directory.  One that was granted has taken the
names away that had to go, and has added no name but this one. -/
def Makes {α : Type} (s : σ) (gone : NodeId → Str → Prop) (parent : NodeId) (name : Str) :
    Except Error α × σ → Prop
  | (.error _, s') => V.readdir s' = V.readdir s
  | (.ok _, s') => ∀ directory other, HasName V s' directory other →
      HasName V s directory other ∧ ¬gone directory other ∨ directory = parent ∧ other = name

/-- Names are what they are given as, in each of their letters.  A renaming may replace. -/
structure CaseSensitive : Prop where
  create : ∀ s parent name mode flags,
    Makes V s (fun _ _ => False) parent name (V.create parent name mode flags s)
  mkdir : ∀ s parent name mode,
    Makes V s (fun _ _ => False) parent name (V.mkdir parent name mode s)
  rename : ∀ s oldParent oldName newParent newName,
    Makes V s (fun directory other => directory = oldParent ∧ other = oldName) newParent newName
      (V.rename oldParent oldName newParent newName s)

/-- The operation was refused. -/
def Refused {α : Type} (r : Except Error α × σ) : Prop := ∃ e, r.1 = .error e

/-- A filesystem that makes everything but a name that is there, and renames everything but
a name that is not there. -/
structure Willing : Prop where
  create : ∀ s parent name mode flags,
    Refused (V.create parent name mode flags s) ↔ HasName V s parent name
  mkdir : ∀ s parent name mode, Refused (V.mkdir parent name mode s) ↔ HasName V s parent name
  rename : ∀ s oldParent oldName newParent newName,
    Refused (V.rename oldParent oldName newParent newName s) ↔ ¬HasName V s oldParent oldName

/-! ## Calls -/

/-- A call of `create`, or of `rename` with `replace_if_exists` false. -/
inductive Call
  | create (fileName : Str) (createOptions grantedAccess fileAttributes : UInt32)
  | rename (fileName newFileName : Str)

/-- What the call answers, but for the context of a new file. -/
def perform : Call → σ → Except UInt32 Unit × σ
  | .create fileName createOptions grantedAccess fileAttributes, s =>
      match create V fileName createOptions grantedAccess fileAttributes s with
      | (.error e, s) => (.error e, s)
      | (.ok _, s) => (.ok (), s)
  | .rename fileName newFileName, s => rename V fileName newFileName false s

def step (s : σ) (call : Call) : σ := (perform V call s).2

/-- No directory has two names that differ only by case. -/
def CaseDistinct (s : σ) : Prop :=
  ∀ directory name other, HasName V s directory name → HasName V s directory other →
    eqIgnoreAsciiCase name other = true → name = other

def Call.newFileName : Call → Str
  | .create fileName _ _ _ => fileName
  | .rename _ newFileName => newFileName

/-- The entry is the one that the call renames. -/
def Call.Renames (s : σ) (parent : NodeId) (name : Str) : Call → Prop
  | .create _ _ _ _ => False
  | .rename fileName _ => resolveParent V s fileName = .ok (parent, name)

/-- The new name's parent holds a different entry that has this name, in this case or another. -/
def Collides (s : σ) (call : Call) : Prop :=
  ∃ parent name other, resolveParent V s call.newFileName = .ok (parent, name) ∧
    HasName V s parent other ∧ eqIgnoreAsciiCase other name = true ∧
    ¬call.Renames V s parent other

/-- What is expected: a call that collides fails, and every directory is as it was. -/
def Guarded (s : σ) (call : Call) : Prop :=
  Collides V s call →
    (∃ e, (perform V call s).1 = .error e) ∧ V.readdir (step V s call) = V.readdir s

/-- The filesystem refuses what the call asks of it. -/
def Call.Declined (s : σ) : Call → Prop
  | .create fileName createOptions grantedAccess fileAttributes =>
      ∀ parent name, resolveParent V s fileName = .ok (parent, name) →
        if createOptions &&& fileDirectoryFile ≠ 0 then
          Refused (V.mkdir parent name (modeForCreate fileAttributes true) s)
        else
          Refused (V.create parent name (modeForCreate fileAttributes false)
            (openFlags createOptions grantedAccess) s)
  | .rename fileName newFileName =>
      ∀ oldParent oldName newParent newName,
        resolveParent V s fileName = .ok (oldParent, oldName) →
        resolveParent V s newFileName = .ok (newParent, newName) →
        Refused (V.rename oldParent oldName newParent newName s)

/-- The filesystem refuses what collides. -/
def Spared (s : σ) (call : Call) : Prop := Collides V s call → call.Declined V s

/-- No entry differs only by case from one to be made, and no other entry has the new name
of one to be renamed, in this case or another. -/
def NoTwin (s : σ) : Call → Prop
  | .create fileName _ _ _ => ∀ parent name other, resolveParent V s fileName = .ok (parent, name) →
      HasName V s parent other → eqIgnoreAsciiCase other name = true → other = name
  | .rename fileName newFileName =>
      (∃ parent name, resolveParent V s fileName = .ok (parent, name) ∧ HasName V s parent name) →
        ¬Collides V s (.rename fileName newFileName)

variable {V} {s : σ}

/-! ## Steps -/

variable (V s) in
/-- What a refused call leaves. -/
def Fails (r : Except UInt32 Unit × σ) : Prop :=
  (∃ e, r.1 = .error e) ∧ V.readdir r.2 = V.readdir s

variable (V s) in
/-- What a granted call leaves: the names that it has not taken away, and its new one. -/
def Grants (call : Call) (r : Except UInt32 Unit × σ) : Prop :=
  r.1 = .ok () ∧ ∃ parent name, resolveParent V s call.newFileName = .ok (parent, name) ∧
    ∀ directory other, HasName V r.2 directory other →
      HasName V s directory other ∧ ¬call.Renames V s directory other ∨
        directory = parent ∧ other = name

/-- The answer of a callback to that of the filesystem. -/
def answered {α : Type} : Except Error α × σ → Except UInt32 Unit × σ
  | (.error e, s) => (.error (toFsp e), s)
  | (.ok _, s) => (.ok (), s)

lemma fails_or_grants {α : Type} {r : Except Error α × σ} {gone : NodeId → Str → Prop}
    {parent : NodeId} {name : Str} (h : Makes V s gone parent name r) (call : Call)
    (hcall : ∀ p n, call.Renames V s p n → gone p n)
    (hparent : resolveParent V s call.newFileName = .ok (parent, name)) :
    Refused r ∧ Fails V s (answered r) ∨ ¬Refused r ∧ Grants V s call (answered r) := by
  rcases r with ⟨e | made, s'⟩
  · exact .inl ⟨⟨e, rfl⟩, ⟨_, rfl⟩, h⟩
  · refine .inr ⟨by simp [Refused], rfl, parent, name, hparent, ?_⟩
    intro directory other hname
    rcases h directory other hname with ⟨hold, hkept⟩ | hnew
    · exact .inl ⟨hold, fun hrenames => hkept (hcall _ _ hrenames)⟩
    · exact .inr hnew

lemma perform_mkdir {fileName : Str} {createOptions grantedAccess attrs : UInt32} {parent : NodeId}
    {name : Str} (hparent : resolveParent V s fileName = .ok (parent, name))
    (hdir : createOptions &&& fileDirectoryFile ≠ 0) :
    perform V (.create fileName createOptions grantedAccess attrs) s =
      answered (V.mkdir parent name (modeForCreate attrs true) s) := by
  simp only [perform, create, hparent, if_pos hdir]
  rcases V.mkdir parent name (modeForCreate attrs true) s with ⟨_ | _, _⟩ <;> rfl

lemma perform_create {fileName : Str} {createOptions grantedAccess attrs : UInt32} {parent : NodeId}
    {name : Str} (hparent : resolveParent V s fileName = .ok (parent, name))
    (hdir : ¬createOptions &&& fileDirectoryFile ≠ 0) :
    perform V (.create fileName createOptions grantedAccess attrs) s =
      answered (V.create parent name (modeForCreate attrs false)
        (openFlags createOptions grantedAccess) s) := by
  simp only [perform, create, hparent, if_neg hdir]
  rcases V.create parent name (modeForCreate attrs false)
    (openFlags createOptions grantedAccess) s with ⟨_ | _, _⟩ <;> rfl

lemma perform_rename {fileName newFileName : Str} {oldParent newParent : NodeId}
    {oldName newName : Str} (hold : resolveParent V s fileName = .ok (oldParent, oldName))
    (hnew : resolveParent V s newFileName = .ok (newParent, newName)) :
    perform V (.rename fileName newFileName) s =
      answered (V.rename oldParent oldName newParent newName s) := by
  simp only [perform, rename, hold, hnew]
  rcases V.rename oldParent oldName newParent newName s with ⟨_ | _, _⟩ <;> rfl

lemma declined_rename_iff {fileName newFileName : Str} {oldParent newParent : NodeId}
    {oldName newName : Str} (hold : resolveParent V s fileName = .ok (oldParent, oldName))
    (hnew : resolveParent V s newFileName = .ok (newParent, newName)) :
    (Call.rename fileName newFileName).Declined V s ↔
      Refused (V.rename oldParent oldName newParent newName s) := by
  refine ⟨fun h => h _ _ _ _ hold hnew, fun h p n p' n' hp hp' => ?_⟩
  obtain ⟨rfl, rfl⟩ := Prod.mk.inj (Except.ok.inj (hold.symm.trans hp))
  obtain ⟨rfl, rfl⟩ := Prod.mk.inj (Except.ok.inj (hnew.symm.trans hp'))
  exact h

/-- **What a call does.**  It fails and leaves every directory as it was if the filesystem
declines it, and otherwise it adds its new name. -/
lemma step_cases (hV : CaseSensitive V) (call : Call) :
    call.Declined V s ∧ Fails V s (perform V call s) ∨
      ¬call.Declined V s ∧ Grants V s call (perform V call s) := by
  cases call with
  | create fileName createOptions grantedAccess attrs =>
      cases hparent : resolveParent V s fileName with
      | error e => simp [Call.Declined, Fails, perform, create, hparent]
      | ok r =>
          obtain ⟨parent, name⟩ := r
          by_cases hdir : createOptions &&& fileDirectoryFile ≠ 0
          · have hmade := fails_or_grants (hV.mkdir s parent name (modeForCreate attrs true))
              (.create fileName createOptions grantedAccess attrs) (fun _ _ => id) hparent
            rw [perform_mkdir hparent hdir]
            simpa [Call.Declined, hparent, hdir] using hmade
          · have hmade := fails_or_grants
              (hV.create s parent name (modeForCreate attrs false)
                (openFlags createOptions grantedAccess))
              (.create fileName createOptions grantedAccess attrs) (fun _ _ => id) hparent
            rw [perform_create hparent hdir]
            simpa [Call.Declined, hparent, hdir] using hmade
  | rename fileName newFileName =>
      cases hold : resolveParent V s fileName with
      | error e => simp [Call.Declined, Fails, perform, rename, hold]
      | ok r =>
          obtain ⟨oldParent, oldName⟩ := r
          cases hnew : resolveParent V s newFileName with
          | error e => simp [Call.Declined, Fails, perform, rename, hold, hnew]
          | ok r =>
              obtain ⟨newParent, newName⟩ := r
              rw [perform_rename hold hnew, declined_rename_iff hold hnew]
              apply fails_or_grants (hV.rename s oldParent oldName newParent newName)
                (.rename fileName newFileName) _ hnew
              intro p n hrenames
              exact Prod.mk.inj (Except.ok.inj (hrenames.symm.trans hold))

lemma hasName_congr {s' : σ} (h : V.readdir s' = V.readdir s) {directory : NodeId} {name : Str} :
    HasName V s' directory name ↔ HasName V s directory name := by
  rw [HasName, HasName, h]

/-- The adapter adds no check of its own. -/
lemma guarded_iff_spared (hV : CaseSensitive V) (call : Call) :
    Guarded V s call ↔ Spared V s call := by
  refine imp_congr_right fun _ => ?_
  rcases step_cases hV call with ⟨hdeclined, hfails⟩ | ⟨hdeclined, hanswer, -⟩
  · exact iff_of_true hfails hdeclined
  · refine iff_of_false ?_ hdeclined
    rintro ⟨⟨e, he⟩, -⟩
    rw [hanswer] at he
    cases he

/-- Names stay distinct where the filesystem refuses what collides. -/
lemma caseDistinct_step (hV : CaseSensitive V) {call : Call} (hspared : Spared V s call)
    (hs : CaseDistinct V s) : CaseDistinct V (step V s call) := by
  intro directory a b ha hb hab
  rcases step_cases hV call with ⟨-, -, hsame⟩ | ⟨hdeclined, -, parent, name, hparent, hnames⟩
  · exact hs directory a b ((hasName_congr hsame).mp ha) ((hasName_congr hsame).mp hb) hab
  · have hnone : ∀ other, HasName V s parent other → ¬call.Renames V s parent other →
        eqIgnoreAsciiCase other name ≠ true := by
      intro other hother hrenames heq
      exact hdeclined (hspared ⟨parent, name, other, hparent, hother, heq, hrenames⟩)
    rcases hnames directory a ha with ⟨ha, hkept⟩ | ⟨rfl, rfl⟩
    · rcases hnames directory b hb with ⟨hb, -⟩ | ⟨rfl, rfl⟩
      · exact hs directory a b ha hb hab
      · exact absurd hab (hnone a ha hkept)
    · rcases hnames directory b hb with ⟨hb, hkept⟩ | ⟨-, rfl⟩
      · exact absurd (eqIgnoreAsciiCase_symm hab) (hnone b hb hkept)
      · rfl

/-- A filesystem that refuses nothing else refuses what collides where there is no twin. -/
lemma spared_of_noTwin (hW : Willing V) {call : Call} (h : NoTwin V s call) : Spared V s call := by
  rintro ⟨parent, name, other, hparent, hother, heq, hrenames⟩
  cases call with
  | create fileName createOptions grantedAccess attrs =>
      have hname : HasName V s parent name := h parent name other hparent hother heq ▸ hother
      intro p n hresolve
      obtain ⟨rfl, rfl⟩ := Prod.mk.inj (Except.ok.inj (hparent.symm.trans hresolve))
      split
      · exact (hW.mkdir _ _ _ _).mpr hname
      · exact (hW.create _ _ _ _ _).mpr hname
  | rename fileName newFileName =>
      intro oldParent oldName newParent newName hold _
      refine (hW.rename _ _ _ _ _).mpr fun hname => ?_
      exact h ⟨oldParent, oldName, hold, hname⟩
        ⟨parent, name, other, hparent, hother, heq, hrenames⟩

lemma noTwin_of_spared (hW : Willing V) (hs : CaseDistinct V s) {call : Call}
    (h : Spared V s call) : NoTwin V s call := by
  cases call with
  | create fileName createOptions grantedAccess attrs =>
      intro parent name other hparent hother heq
      have hdeclined := h ⟨parent, name, other, hparent, hother, heq, id⟩ parent name hparent
      have hname : HasName V s parent name := by
        split at hdeclined
        · exact (hW.mkdir _ _ _ _).mp hdeclined
        · exact (hW.create _ _ _ _ _).mp hdeclined
      exact hs parent other name hother hname heq
  | rename fileName newFileName =>
      rintro ⟨oldParent, oldName, hold, hname⟩ hcollides
      obtain ⟨newParent, newName, -, hnew, -⟩ := id hcollides
      exact (hW.rename _ _ _ _ _).mp (h hcollides _ _ _ _ hold hnew) hname

/-! ## A tree in memory -/

namespace Tree

lemma hasName_iff {t : Tree} {parent : NodeId} {name : Str} :
    HasName vfs t parent name ↔ ∃ metadata, (parent, ⟨name, metadata⟩) ∈ t := by
  constructor
  · rintro ⟨entries, hentries, entry, hmem, rfl⟩
    obtain rfl : listing parent t = entries := Except.ok.inj hentries
    exact ⟨entry.metadata, mem_listing.mp hmem⟩
  · rintro ⟨metadata, hmem⟩
    exact ⟨listing parent t, rfl, _, mem_listing.mpr hmem, rfl⟩

lemma hasName_iff_listing {t : Tree} {parent : NodeId} {name : Str} :
    HasName vfs t parent name ↔ ∃ entry ∈ listing parent t, entry.name = name := by
  simp [HasName, vfs]

lemma hasName_append {t : Tree} {parent : NodeId} {entry : DirectoryEntry} {directory : NodeId}
    {name : Str} : HasName vfs (t ++ [(parent, entry)]) directory name ↔
      HasName vfs t directory name ∨ directory = parent ∧ name = entry.name := by
  simp only [hasName_iff, List.mem_append, List.mem_singleton, exists_or, Prod.mk.injEq]
  refine or_congr_right ⟨?_, ?_⟩
  · rintro ⟨metadata, rfl, rfl⟩
    exact ⟨rfl, rfl⟩
  · rintro ⟨rfl, rfl⟩
    exact ⟨entry.metadata, rfl, rfl⟩

lemma hasName_remove {t : Tree} {parent directory : NodeId} {name other : Str} :
    HasName vfs (remove parent name t) directory other ↔
      HasName vfs t directory other ∧ ¬(directory = parent ∧ other = name) := by
  simp only [hasName_iff, remove, List.mem_filter, decide_eq_true_eq]
  exact exists_and_right

lemma insert_makes (parent : NodeId) (name : Str) (attrs : FileAttributes) (t : Tree) :
    Makes vfs t (fun _ _ => False) parent name (insert parent name attrs t) := by
  unfold insert
  split
  · rfl
  · intro directory other h
    rcases hasName_append.mp h with hold | hnew
    · exact .inl ⟨hold, id⟩
    · exact .inr hnew

lemma insert_refused (parent : NodeId) (name : Str) (attrs : FileAttributes) (t : Tree) :
    Refused (insert parent name attrs t) ↔ HasName vfs t parent name := by
  rw [hasName_iff_listing, insert]
  split
  · next h => exact iff_of_true ⟨_, rfl⟩ h
  · next h => exact iff_of_false (by simp [Refused]) h

lemma lookup_error_iff {t : Tree} {parent : NodeId} {name : Str} :
    (∃ e, lookup parent name t = .error e) ↔ ¬HasName vfs t parent name := by
  rw [hasName_iff_listing]
  cases hlookup : lookup parent name t with
  | error e =>
      refine iff_of_true ⟨e, rfl⟩ ?_
      rintro ⟨entry, hmem, hname⟩
      exact lookup_error hlookup entry hmem hname
  | ok metadata =>
      exact iff_of_false (by simp) fun h => h ⟨_, lookup_ok hlookup, rfl⟩

lemma rename_makes (oldParent : NodeId) (oldName : Str) (newParent : NodeId) (newName : Str)
    (t : Tree) :
    Makes vfs t (fun directory other => directory = oldParent ∧ other = oldName) newParent newName
      (rename oldParent oldName newParent newName t) := by
  unfold rename
  split
  · rfl
  · intro directory other h
    rcases hasName_append.mp h with h | h
    · exact .inl (hasName_remove.mp (hasName_remove.mp h).1)
    · exact .inr h

lemma rename_refused (oldParent : NodeId) (oldName : Str) (newParent : NodeId) (newName : Str)
    (t : Tree) :
    Refused (rename oldParent oldName newParent newName t) ↔ ¬HasName vfs t oldParent oldName := by
  rw [← lookup_error_iff, rename]
  split
  · next e h => exact iff_of_true ⟨e, rfl⟩ ⟨e, h⟩
  · next metadata h => exact iff_of_false (by simp [Refused]) (by simp [h])

lemma create_makes (parent : NodeId) (name : Str) (mode : UInt32) (t : Tree) :
    Makes vfs t (fun _ _ => False) parent name (create parent name mode t) ∧
      (Refused (create parent name mode t) ↔ HasName vfs t parent name) := by
  have hmakes := insert_makes parent name (attributes .file mode) t
  rw [← insert_refused parent name (attributes .file mode) t, create]
  rcases hinsert : insert parent name (attributes .file mode) t with ⟨e | metadata, t'⟩
  · rw [hinsert] at hmakes
    exact ⟨hmakes, by simp [Refused]⟩
  · rw [hinsert] at hmakes
    exact ⟨hmakes, by simp [Refused]⟩

lemma caseSensitive : CaseSensitive vfs where
  create t parent name mode _ := (create_makes parent name mode t).1
  mkdir t parent name mode := insert_makes parent name (attributes .directory mode) t
  rename t oldParent oldName newParent newName :=
    rename_makes oldParent oldName newParent newName t

lemma willing : Willing vfs where
  create t parent name mode _ := (create_makes parent name mode t).2
  mkdir t parent name mode := insert_refused parent name (attributes .directory mode) t
  rename t oldParent oldName newParent newName :=
    rename_refused oldParent oldName newParent newName t

lemma caseDistinct_iff {t : Tree} :
    CaseDistinct vfs t ↔ ∀ e ∈ t, ∀ f ∈ t, e.1 = f.1 →
      eqIgnoreAsciiCase e.2.name f.2.name = true → e.2.name = f.2.name := by
  constructor
  · rintro h ⟨parent, e⟩ he ⟨parent', f⟩ hf hparent heq
    obtain rfl : parent = parent' := hparent
    exact h parent e.name f.name (hasName_iff.mpr ⟨_, he⟩) (hasName_iff.mpr ⟨_, hf⟩) heq
  · intro h parent name other hname hother heq
    obtain ⟨metadata, hmem⟩ := hasName_iff.mp hname
    obtain ⟨metadata', hmem'⟩ := hasName_iff.mp hother
    exact h _ hmem _ hmem' rfl heq

lemma noTwin_create_iff {t : Tree} {fileName : Str} {createOptions grantedAccess attrs : UInt32}
    {parent : NodeId} {name : Str} (h : resolveParent vfs t fileName = .ok (parent, name)) :
    NoTwin vfs t (.create fileName createOptions grantedAccess attrs) ↔
      ∀ e ∈ t, e.1 = parent → eqIgnoreAsciiCase e.2.name name = true → e.2.name = name := by
  constructor
  · rintro hnone ⟨p, e⟩ he hparent
    obtain rfl : p = parent := hparent
    exact hnone p name e.name h (hasName_iff.mpr ⟨_, he⟩)
  · intro hnone p n other hresolve hother
    obtain ⟨rfl, rfl⟩ := Prod.mk.inj (Except.ok.inj (h.symm.trans hresolve))
    obtain ⟨metadata, hmem⟩ := hasName_iff.mp hother
    exact hnone _ hmem rfl

end Tree

/-! ## Runs -/

/-- **A collision is refused exactly where the filesystem refuses it.**  From names that are
distinct in any case, every run of `create` and `rename` fails at its collisions, and leaves the
directories as they were there, if and only if the filesystem refuses each of them.  In such a run
names stay distinct in any case.  A filesystem that refuses no more than it has to refuses them if
and only if no entry is made beside one that differs only by case, and none is renamed to the name
of another. -/
theorem collisions_refused_iff (hV : CaseSensitive V) (hs : CaseDistinct V s) (calls : List Call) :
    (AllSteps (step V) (Guarded V) s calls ↔ AllSteps (step V) (Spared V) s calls) ∧
    (AllSteps (step V) (Spared V) s calls →
      ∀ t, Visits (step V) s calls t → CaseDistinct V t) ∧
    (Willing V →
      (AllSteps (step V) (Spared V) s calls ↔ AllSteps (step V) (NoTwin V) s calls)) := by
  have hstep : ∀ t call, Spared V t call → CaseDistinct V t → CaseDistinct V (step V t call) :=
    fun t call hspared ht => caseDistinct_step hV hspared ht
  refine ⟨⟨?_, ?_⟩, ?_, fun hW => ⟨?_, ?_⟩⟩
  · exact allSteps_mono fun t call => (guarded_iff_spared hV call).mp
  · exact allSteps_mono fun t call => (guarded_iff_spared hV call).mpr
  · rintro hspared t ⟨before, ⟨rest, rfl⟩, rfl⟩
    exact invariant hstep hs (allSteps_append.mp hspared).1
  · intro hspared
    exact allSteps_of_invariant hstep (fun t call hspared ht => noTwin_of_spared hW ht hspared)
      hs hspared
  · exact allSteps_mono fun t call => spared_of_noTwin hW

/-- A directory with two files. -/
def twoFiles : Tree :=
  [(.root, ⟨['a'], ⟨⟨2⟩, Tree.attributes .file 0o644⟩⟩),
    (.root, ⟨['b'], ⟨⟨3⟩, Tree.attributes .file 0o644⟩⟩)]

/-- A new file, and one that is there as it is written. -/
theorem collisions_refused_iff_twoFiles :
    let calls := [Call.create ['\\', 'c'] 0 0 0, .create ['/', 'b'] 0 0 0]
    AllSteps (step Tree.vfs) (Guarded Tree.vfs) twoFiles calls ∧
    ∀ t, Visits (step Tree.vfs) twoFiles calls t → CaseDistinct Tree.vfs t := by
  intro calls
  have hs : CaseDistinct Tree.vfs twoFiles := Tree.caseDistinct_iff.mpr (by decide)
  have hnone : AllSteps (step Tree.vfs) (NoTwin Tree.vfs) twoFiles calls := by
    refine ⟨(Tree.noTwin_create_iff rfl).mpr ?_, (Tree.noTwin_create_iff rfl).mpr ?_, trivial⟩
    · decide
    · decide
  obtain ⟨hguarded, hdistinct, hwilling⟩ := collisions_refused_iff Tree.caseSensitive hs calls
  have hspared := (hwilling Tree.willing).mpr hnone
  exact ⟨hguarded.mpr hspared, hdistinct hspared⟩

/-- `\A` is made beside `a`, and `\a` renamed to `\b` replaces what `b` was. -/
theorem collision_created :
    CaseSensitive Tree.vfs ∧ CaseDistinct Tree.vfs twoFiles ∧
    ¬Guarded Tree.vfs twoFiles (.create ['\\', 'A'] 0 0 0) ∧
    ¬CaseDistinct Tree.vfs (step Tree.vfs twoFiles (.create ['\\', 'A'] 0 0 0)) ∧
    ¬Guarded Tree.vfs twoFiles (.rename ['\\', 'a'] ['\\', 'b']) ∧
    step Tree.vfs twoFiles (.rename ['\\', 'a'] ['\\', 'b']) =
      [(.root, ⟨['b'], ⟨⟨2⟩, Tree.attributes .file 0o644⟩⟩)] := by
  refine ⟨Tree.caseSensitive, Tree.caseDistinct_iff.mpr (by decide), ?_, ?_, ?_, rfl⟩
  · intro h
    obtain ⟨⟨e, he⟩, -⟩ := h ⟨.root, ['A'], ['a'], rfl,
      Tree.hasName_iff.mpr ⟨_, List.mem_cons_self⟩, by decide, id⟩
    have hanswer : (perform Tree.vfs (.create ['\\', 'A'] 0 0 0) twoFiles).1 = .ok () := rfl
    rw [hanswer] at he
    cases he
  · rw [Tree.caseDistinct_iff]
    decide
  · intro h
    obtain ⟨⟨e, he⟩, -⟩ := h ⟨.root, ['b'], ['b'], rfl,
      Tree.hasName_iff.mpr ⟨_, List.mem_cons_of_mem _ List.mem_cons_self⟩, by decide, by
        intro h
        cases h⟩
    have hanswer : (perform Tree.vfs (.rename ['\\', 'a'] ['\\', 'b']) twoFiles).1 = .ok () :=
      rfl
    rw [hanswer] at he
    cases he

end Windows

end CacheShfs
