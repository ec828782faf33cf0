import CacheShfs.Remote.Memory
import CacheShfs.Store.Read
import CacheShfs.Vfs.Run

/-!
# Nodes and handles over a run

The registry invariant holds in every state of every run (`wf_step`).  The second half is about
the path that is stored twice, in a handle and in the node map.  A rename re-points the node of
its source but leaves the handles on that node at the old path, so a mount keeps the two copies
equal exactly as long as nothing that is open gets renamed (`handles_coherent_iff`).
-/

namespace CacheShfs

open Machine

/-! ## Stamping a listing -/

namespace World

variable {ρ : Type}

/-- A prefix of the children has been stamped and interned. -/
inductive StampedBy (path : RemotePath) (now : ℕ) :
    List (Str × FileAttributes) → State → State → Prop
  | refl {children : List (Str × FileAttributes)} (st : State) :
      StampedBy path now children st st
  | cons {name : Str} {attributes : FileAttributes} {rest : List (Str × FileAttributes)}
      {child : RemotePath} {st st' : State} (hjoin : path.join name = .ok child)
      (h : StampedBy path now rest ((st.stamp child now).intern child).2 st') :
      StampedBy path now ((name, attributes) :: rest) st st'

/-- The children before the first name that is no path component. -/
def stampable (children : List (Str × FileAttributes)) : List (Str × FileAttributes) :=
  children.takeWhile fun c => decide (ValidComponent c.1)

lemma mem_stampable {children : List (Str × FileAttributes)} {c : Str × FileAttributes}
    (h : c ∈ stampable children) : c ∈ children ∧ ValidComponent c.1 :=
  ⟨List.takeWhile_subset _ h, by simpa using List.mem_takeWhile_imp h⟩

lemma stampedBy_stampChildren (path : RemotePath) (now : ℕ)
    (children : List (Str × FileAttributes)) (st : State) :
    StampedBy path now children st (stampChildren path now children st).2 := by
  induction children generalizing st with
  | nil => exact .refl st
  | cons c rest ih =>
      obtain ⟨name, attributes⟩ := c
      unfold stampChildren
      split
      · exact .refl st
      · next child hjoin =>
          have hrec := ih ((st.stamp child now).intern child).2
          simp only
          split
          · next entries st' heq =>
              rw [heq] at hrec
              exact .cons hjoin hrec
          · next e st' heq =>
              rw [heq] at hrec
              exact .cons hjoin hrec

lemma stampedBy_of_eq {path : RemotePath} {now : ℕ} {children : List (Str × FileAttributes)}
    {st st' : State} {result : Except Error (List DirectoryEntry)}
    (h : stampChildren path now children st = (result, st')) :
    StampedBy path now children st st' := by
  have hstamped := stampedBy_stampChildren path now children st
  rwa [h] at hstamped

/-- A successful loop returns the children as they were reported, and all names are path
components. -/
lemma stampChildren_ok {path : RemotePath} {now : ℕ} {children : List (Str × FileAttributes)}
    {st st' : State} {result : List DirectoryEntry}
    (h : stampChildren path now children st = (.ok result, st')) :
    result.map (fun e => (e.name, e.metadata.attributes)) = children ∧
      ∀ c ∈ children, ValidComponent c.1 := by
  induction children generalizing st st' result with
  | nil =>
      simp only [stampChildren, Prod.mk.injEq, Except.ok.injEq] at h
      obtain ⟨rfl, -⟩ := h
      simp
  | cons c rest ih =>
      obtain ⟨name, attributes⟩ := c
      unfold stampChildren at h
      split at h
      · cases h
      · next child hjoin =>
          simp only at h
          split at h
          · next entries st₂ heq =>
              cases h
              obtain ⟨hmap, hvalid⟩ := ih heq
              refine ⟨by simp [hmap], ?_⟩
              intro c hc
              rcases List.mem_cons.mp hc with rfl | hc
              · exact (RemotePath.join_ok_iff.mp hjoin).1
              · exact hvalid c hc
          · cases h

/-- Each entry shows the node that its path got when it was stamped, before those after it. -/
lemma stampChildren_entry {path : RemotePath} {now : ℕ} {children : List (Str × FileAttributes)}
    {st st' : State} {result : List DirectoryEntry}
    (h : stampChildren path now children st = (.ok result, st')) :
    ∀ e ∈ result, ∃ (child : RemotePath) (before : State) (rest : List (Str × FileAttributes)),
      path.join e.name = .ok child ∧
      e.metadata.node = ((before.stamp child now).intern child).1 ∧
      StampedBy path now rest ((before.stamp child now).intern child).2 st' := by
  induction children generalizing st st' result with
  | nil =>
      cases h
      simp
  | cons c rest ih =>
      obtain ⟨name, attributes⟩ := c
      unfold stampChildren at h
      split at h
      · cases h
      · next child hjoin =>
          simp only at h
          split at h
          · next entries st₂ heq =>
              cases h
              intro e he
              rcases List.mem_cons.mp he with rfl | he
              · exact ⟨child, st, rest, hjoin, rfl, stampedBy_of_eq heq⟩
              · exact ih heq e he
          · cases h

/-- Where all names are path components, the loop succeeds. -/
lemma stampChildren_valid (path : RemotePath) (now : ℕ) {children : List (Str × FileAttributes)}
    (hvalid : ∀ c ∈ children, ValidComponent c.1) (st : State) :
    ∃ result st', stampChildren path now children st = (.ok result, st') := by
  induction children generalizing st with
  | nil => exact ⟨[], st, rfl⟩
  | cons c rest ih =>
      obtain ⟨name, attributes⟩ := c
      have hname : ValidComponent name := hvalid _ List.mem_cons_self
      obtain ⟨result, st', hrest⟩ := ih (fun c hc => hvalid c (List.mem_cons_of_mem _ hc))
        ((st.stamp (path.child name hname) now).intern (path.child name hname)).2
      refine ⟨⟨name, ⟨((st.stamp (path.child name hname) now).intern
        (path.child name hname)).1, attributes⟩⟩ :: result, st', ?_⟩
      simp only [stampChildren, path.join_eq_ok hname, hrest]

namespace StampedBy

variable {dir : RemotePath} {now : ℕ} {children : List (Str × FileAttributes)} {st st' : State}

lemma negativeAt (h : StampedBy dir now children st st') (key : NodeId × Str) :
    st'.negativeAt key = st.negativeAt key := by
  induction h with
  | refl => rfl
  | cons _ _ ih => simpa using ih

lemma file (h : StampedBy dir now children st st') (handle : FileHandle) :
    st'.file handle = st.file handle := by
  induction h with
  | refl => rfl
  | cons _ _ ih => simpa using ih

lemma nextHandle (h : StampedBy dir now children st st') : st'.nextHandle = st.nextHandle := by
  induction h with
  | refl => rfl
  | cons _ _ ih =>
      rw [ih, State.nextHandle_intern]
      rfl

lemma wf (h : StampedBy dir now children st st') (hw : st.Wf) : st'.Wf := by
  induction h with
  | refl => exact hw
  | cons _ _ ih => exact ih ((hw.stamp _ _).intern _)

lemma path (h : StampedBy dir now children st st') (hw : st.Wf) {n : NodeId} {p : RemotePath}
    (hp : st.path n = some p) : st'.path n = some p := by
  induction h with
  | refl => exact hp
  | cons _ _ ih =>
      exact ih ((hw.stamp _ _).intern _) ((hw.stamp _ _).path_intern _ hp)

/-- A path is stamped now, as a child of the listing, or keeps its time. -/
lemma validatedAt (h : StampedBy dir now children st st') (q : RemotePath) :
    (st'.validatedAt q = some now ∧
      ∃ c ∈ stampable children, q.asStr = childKey dir.asStr c.1) ∨
      st'.validatedAt q = st.validatedAt q := by
  induction h with
  | refl => exact .inr rfl
  | @cons name attributes rest child st st' hjoin _ ih =>
      obtain ⟨hvalid, hkey⟩ := RemotePath.join_ok_iff.mp hjoin
      have hcons : stampable ((name, attributes) :: rest) =
          (name, attributes) :: stampable rest := by simp [stampable, hvalid]
      rw [hcons]
      rcases ih with ⟨hnow, c, hc, hq⟩ | hkeep
      · exact .inl ⟨hnow, c, List.mem_cons_of_mem _ hc, hq⟩
      · rw [State.validatedAt_intern, State.validatedAt_stamp] at hkeep
        split at hkeep
        · next hq => exact .inl ⟨hkeep, (name, attributes), by simp, by rw [hq, hkey]⟩
        · exact .inr hkeep

/-- A node that gets a path by a listing is given a child of the directory. -/
lemma path_cases (h : StampedBy dir now children st st') {n : NodeId} {p : RemotePath}
    (hp : st'.path n = some p) :
    st.path n = some p ∨ (∃ name, dir.join name = .ok p ∧ st.nextNode ≤ n.val) := by
  induction h with
  | refl => exact .inl hp
  | @cons name attributes rest child st st' hjoin _ ih =>
      have hnext : st.nextNode ≤ ((st.stamp child now).intern child).2.nextNode :=
        State.nextNode_le_intern child (st.stamp child now)
      rcases ih hp with hold | ⟨name', hname', hle⟩
      · rcases State.path_intern_cases hold with hold | ⟨rfl, rfl⟩
        · exact .inl hold
        · exact .inr ⟨name, hjoin, le_refl _⟩
      · exact .inr ⟨name', hname', le_trans hnext hle⟩

end StampedBy

/-! ## The registry invariant over a run -/

variable {R : RemoteFilesystem ρ}

lemma wf_outcome {w w' : World ρ} {call : Call} (h : Outcome R w call w') (hw : w.state.Wf) :
    w'.state.Wf := by
  induction h with
  | known hst => exact hst.wf hw
  | failed _ hst => exact hst.wf hw
  | lookupFound _ _ _ _ _ => exact ((hw.stamp _ _).unnegate _ _).intern _
  | lookupMissing _ hchild _ =>
      obtain ⟨p, hp, -⟩ := childPath_ok.mp hchild
      exact hw.negate hp _ _
  | getattrFound _ _ _ _ => exact hw.stamp _ _
  | getattrMissing _ _ _ => exact hw
  | listed _ _ _ _ hst => exact ((stampedBy_of_eq hst).wf hw).stamp _ _
  | listedPartly _ _ _ _ hst => exact (stampedBy_of_eq hst).wf hw
  | opened _ => exact hw.openHandle _ _
  | truncated _ _ _ => exact (hw.unstamp _).openHandle _ _
  | readThrough _ _ => exact hw
  | readRejected _ _ _ ih => exact ih
  | readContent _ _ _ _ ih => exact ih
  | wrote _ _ => exact hw.unstamp _
  | released => exact hw.close _
  | @created parent name _ _ _ child _ conn _ _ _ _ hst =>
      have hstate := ((hw.stamp child conn.now).unnegate parent name).intern child
      rw [hst] at hstate
      exact hstate.openHandle _ _
  | madeDir _ _ => exact ((hw.stamp _ _).unnegate _ _).intern _
  | unlinked hres _ => exact hw.negate (resolve_ok hres).1 _ _
  | removedDir hres _ => exact hw.negate (resolve_ok hres).1 _ _
  | @renamed parent name newParent newName srcParent dstParent src dst conn hres _ =>
      have hknown := (resolveRename_ok hres).1
      -- the parent still has a path, if perhaps another one
      obtain ⟨p, hp⟩ : ∃ p, ((w.state.renamePath src dst).unstamp src).path parent = some p := by
        rw [State.path_unstamp, State.path_renamePath]
        split
        · exact ⟨dst, rfl⟩
        · exact ⟨srcParent, hknown⟩
      exact (((hw.renamePath src dst).unstamp src).negate hp _ _).unnegate _ _
  | setattrDone _ _ _ => exact hw.stamp _ _

lemma wf_step (w : World ρ) (e : Event ρ) (hw : w.state.Wf) : (w.step R e).state.Wf := by
  cases e with
  | call call => exact wf_outcome (outcome_exec R w call) hw
  | tick d => exact hw
  | external remote => exact hw
  | restart config => exact State.wf_new config.root

/-! ## The history of a connection -/

/-- Calls have been added to the history, at the present time. -/
structure Grows (c c' : Conn ρ) : Prop where
  now : c'.now = c.now
  log : ∃ calls, c'.log = calls ++ c.log ∧ ∀ x ∈ calls, x.1 = c.now

lemma Grows.refl (c : Conn ρ) : Grows c c := ⟨rfl, [], rfl, by simp⟩

lemma Grows.trans {c c' c'' : Conn ρ} (h : Grows c c') (h' : Grows c' c'') : Grows c c'' := by
  obtain ⟨calls, hlog, hcalls⟩ := h.log
  obtain ⟨calls', hlog', hcalls'⟩ := h'.log
  refine ⟨h'.now.trans h.now, calls' ++ calls, by rw [hlog', hlog, List.append_assoc], ?_⟩
  intro x hx
  rcases List.mem_append.mp hx with hx | hx
  · rw [hcalls' x hx, h.now]
  · exact hcalls x hx

lemma Grows.extends {c c' : Conn ρ} (h : Grows c c') : Conn.Extends c c' :=
  h.log.imp fun _ => And.left

lemma grows_record (c : Conn ρ) (call : RemoteCall) (r : ρ) : Grows c (c.record call r) :=
  ⟨rfl, [_], rfl, by simp⟩

lemma Grows.mem {c c' : Conn ρ} (h : Grows c c') {x : ℕ × RemoteCall} (hx : x ∈ c.log) :
    x ∈ c'.log := by
  obtain ⟨calls, hlog, -⟩ := h.log
  rw [hlog]
  exact List.mem_append_right _ hx

lemma grows_onlyReads {path : RemotePath} {c c' : Conn ρ} (h : Store.OnlyReads R path c c') :
    Grows c c' := by
  obtain ⟨calls, hlog, hcalls⟩ := h.log
  refine ⟨h.now, calls, hlog, fun x hx => ?_⟩
  obtain ⟨o, n, a, rfl⟩ := hcalls x hx
  rfl

lemma grows_failed {w : World ρ} {call : Call} {conn : Conn ρ} (h : Failed R w call conn) :
    Grows w.conn conn := by
  cases h with
  | stat h => rw [(Conn.stat_eq h).2]; exact grows_record _ _ _
  | readDir h => rw [(Conn.readDir_eq h).2]; exact grows_record _ _ _
  | asked _ _ => exact grows_record _ _ _

/-- A call adds to the history and keeps the configuration. -/
lemma grows_outcome {w w' : World ρ} {call : Call} (h : Outcome R w call w') :
    Grows w.conn w'.conn ∧ w'.config = w.config := by
  induction h with
  | known _ => exact ⟨.refl _, rfl⟩
  | failed hfail _ => exact ⟨grows_failed hfail, rfl⟩
  | lookupFound _ _ _ _ h => exact ⟨(Conn.stat_eq h).2 ▸ grows_record _ _ _, rfl⟩
  | lookupMissing _ _ h => exact ⟨(Conn.stat_eq h).2 ▸ grows_record _ _ _, rfl⟩
  | getattrFound _ _ _ h => exact ⟨(Conn.stat_eq h).2 ▸ grows_record _ _ _, rfl⟩
  | getattrMissing _ _ h => exact ⟨(Conn.stat_eq h).2 ▸ grows_record _ _ _, rfl⟩
  | listed _ _ _ h _ => exact ⟨(Conn.readDir_eq h).2 ▸ grows_record _ _ _, rfl⟩
  | listedPartly _ _ _ h _ => exact ⟨(Conn.readDir_eq h).2 ▸ grows_record _ _ _, rfl⟩
  | opened _ => exact ⟨.refl _, rfl⟩
  | truncated _ _ h => exact ⟨(Conn.setattr_eq h).2 ▸ grows_record _ _ _, rfl⟩
  | readThrough _ _ => exact ⟨grows_record _ _ _, rfl⟩
  | readRejected _ _ _ ih => exact ih
  | readContent _ _ _ _ ih =>
      exact ⟨ih.1.trans (grows_onlyReads (Store.read_frame _ _ _ _ _ _).2), ih.2⟩
  | wrote _ h => exact ⟨(Conn.write_eq h).2 ▸ grows_record _ _ _, rfl⟩
  | released => exact ⟨.refl _, rfl⟩
  | created _ h _ => exact ⟨(Conn.create_eq h).2 ▸ grows_record _ _ _, rfl⟩
  | madeDir _ h => exact ⟨(Conn.mkdir_eq h).2 ▸ grows_record _ _ _, rfl⟩
  | unlinked _ h => exact ⟨(Conn.unlink_eq h).2 ▸ grows_record _ _ _, rfl⟩
  | removedDir _ h => exact ⟨(Conn.rmdir_eq h).2 ▸ grows_record _ _ _, rfl⟩
  | renamed _ h => exact ⟨(Conn.rename_eq h).2 ▸ grows_record _ _ _, rfl⟩
  | setattrDone _ _ h => exact ⟨(Conn.setattr_eq h).2 ▸ grows_record _ _ _, rfl⟩

/-- No call of the history lies in the future. -/
def LogPast (c : Conn ρ) : Prop := ∀ x ∈ c.log, x.1 ≤ c.now

lemma LogPast.grows {c c' : Conn ρ} (h : LogPast c) (hg : Grows c c') : LogPast c' := by
  obtain ⟨calls, hlog, hcalls⟩ := hg.log
  intro x hx
  rw [hg.now]
  rw [hlog] at hx
  rcases List.mem_append.mp hx with hx | hx
  · exact (hcalls x hx).le
  · exact h x hx

lemma logPast_step (w : World ρ) (e : Event ρ) (h : LogPast w.conn) :
    LogPast (w.step R e).conn := by
  cases e with
  | call call => exact h.grows (grows_outcome (outcome_exec R w call)).1
  | tick d => exact fun x hx => le_trans (h x hx) (Nat.le_add_right _ _)
  | external remote => exact h
  | restart config => exact h

/-- No path was confirmed in the future. -/
def StampsPast (w : World ρ) : Prop :=
  ∀ p t, w.state.validatedAt p = some t → t ≤ w.conn.now

lemma validatedAt_stamp_cases {st : State} {p q : RemotePath} {now t : ℕ}
    (h : (st.stamp p now).validatedAt q = some t) :
    (q = p ∧ t = now) ∨ st.validatedAt q = some t := by
  rw [State.validatedAt_stamp] at h
  split at h
  · next hq => exact .inl ⟨hq, (Option.some.inj h).symm⟩
  · exact .inr h

lemma validatedAt_of_unstamp {st : State} {p q : RemotePath} {t : ℕ}
    (h : (st.unstamp p).validatedAt q = some t) : st.validatedAt q = some t := by
  rw [State.validatedAt_unstamp] at h
  split at h
  · cases h
  · exact h

/-- A call leaves the time of a path, clears it, or sets it to the present. -/
lemma validatedAt_outcome {w w' : World ρ} {call : Call} (h : Outcome R w call w')
    {q : RemotePath} {t : ℕ} (hval : w'.state.validatedAt q = some t) :
    w.state.validatedAt q = some t ∨ t = w.conn.now := by
  have hstamp : ∀ {st : State} {p : RemotePath} {now : ℕ}, now = w.conn.now →
      (∀ t, st.validatedAt q = some t → w.state.validatedAt q = some t ∨ t = w.conn.now) →
      (st.stamp p now).validatedAt q = some t →
        w.state.validatedAt q = some t ∨ t = w.conn.now := by
    intro st p now hnow hst h
    rcases validatedAt_stamp_cases h with ⟨-, rfl⟩ | h
    · exact .inr hnow
    · exact hst t h
  have hgrow := (grows_outcome h).1.now
  induction h with
  | known hst => exact .inl (by rwa [hst.validatedAt] at hval)
  | failed _ hst => exact .inl (by rwa [hst.validatedAt] at hval)
  | lookupFound _ _ _ _ _ =>
      exact hstamp hgrow (fun _ => .inl) (by simpa using hval)
  | lookupMissing _ _ _ => exact .inl hval
  | getattrFound _ _ _ _ => exact hstamp hgrow (fun _ => .inl) hval
  | getattrMissing _ _ _ => exact .inl hval
  | listed _ _ _ _ hst =>
      refine hstamp hgrow (fun t ht => ?_) hval
      rcases (stampedBy_of_eq hst).validatedAt q with ⟨hnow, -⟩ | hkeep
      · exact .inr ((Option.some.inj (hnow.symm.trans ht)).symm.trans hgrow)
      · exact .inl (hkeep ▸ ht)
  | listedPartly _ _ _ _ hst =>
      rcases (stampedBy_of_eq hst).validatedAt q with ⟨hnow, -⟩ | hkeep
      · exact .inr ((Option.some.inj (hnow.symm.trans hval)).symm.trans hgrow)
      · exact .inl (hkeep ▸ hval)
  | opened _ => exact .inl hval
  | truncated _ _ _ => exact .inl (validatedAt_of_unstamp hval)
  | readThrough _ _ => exact .inl hval
  | readRejected _ _ _ ih => exact ih hval hgrow
  | readContent _ _ hattr _ ih => exact ih hval (grows_outcome hattr).1.now
  | wrote _ _ => exact .inl (validatedAt_of_unstamp hval)
  | released => exact .inl hval
  | @created parent name _ _ _ child _ conn _ _ _ _ hst =>
      refine @hstamp w.state child _ hgrow (fun _ => .inl) ?_
      have hval' := hval
      rw [State.validatedAt_openHandle] at hval'
      rw [← State.validatedAt_unnegate, ← State.validatedAt_intern, hst]
      exact hval'
  | madeDir _ _ => exact hstamp hgrow (fun _ => .inl) (by simpa using hval)
  | unlinked _ _ => exact .inl hval
  | removedDir _ _ => exact .inl hval
  | renamed _ _ =>
      simp only [State.validatedAt_unnegate, State.validatedAt_negate] at hval
      have hmoved := validatedAt_of_unstamp hval
      rw [State.validatedAt_renamePath] at hmoved
      exact .inl hmoved
  | setattrDone _ _ _ => exact hstamp hgrow (fun _ => .inl) hval

lemma stampsPast_step (w : World ρ) (e : Event ρ) (h : StampsPast w) :
    StampsPast (w.step R e) := by
  intro p t hval
  cases e with
  | call call =>
      have hout := outcome_exec R w call
      have hnow := (grows_outcome hout).1.now
      show t ≤ (w.exec R call).conn.now
      rw [hnow]
      rcases validatedAt_outcome hout hval with hold | rfl
      · exact h p t hold
      · exact le_refl _
  | tick d => exact le_trans (h p t hval) (Nat.le_add_right _ _)
  | external remote => exact h p t hval
  | restart config => cases hval

/-- After a call a node has the path it had, or a child of a path that had a node. -/
lemma path_outcome {w w' : World ρ} {call : Call} (h : Outcome R w call w') {n : NodeId}
    {p : RemotePath} (hp : w'.state.path n = some p) :
    w.state.path n = some p ∨ w.state.HasChild p := by
  induction h with
  | known hst => exact hst.path_cases hp
  | failed _ hst => exact hst.path_cases hp
  | lookupFound _ hchild _ _ _ =>
      rcases State.path_intern_cases hp with hold | ⟨rfl, -⟩
      · exact .inl hold
      · exact .inr (hasChild_of_childPath hchild)
  | listed _ hpath _ _ hst =>
      rcases (stampedBy_of_eq hst).path_cases hp with hold | ⟨name, hjoin, -⟩
      · exact .inl hold
      · exact .inr ⟨_, _, name, hpath, hjoin⟩
  | listedPartly _ hpath _ _ hst =>
      rcases (stampedBy_of_eq hst).path_cases hp with hold | ⟨name, hjoin, -⟩
      · exact .inl hold
      · exact .inr ⟨_, _, name, hpath, hjoin⟩
  | readRejected _ _ _ ih => exact ih hp
  | readContent _ _ _ _ ih => exact ih hp
  | created hres _ hst =>
      obtain ⟨hpath, hjoin⟩ := resolve_ok hres
      have hp' := congrArg (fun x => x.2.path n) hst
      rw [State.path_openHandle] at hp
      rcases State.path_intern_cases (hp'.trans hp) with hold | ⟨rfl, -⟩
      · exact .inl hold
      · exact .inr ⟨_, _, _, hpath, hjoin⟩
  | madeDir hres _ =>
      obtain ⟨hpath, hjoin⟩ := resolve_ok hres
      rcases State.path_intern_cases hp with hold | ⟨rfl, -⟩
      · exact .inl hold
      · exact .inr ⟨_, _, _, hpath, hjoin⟩
  | renamed hres _ =>
      obtain ⟨-, hpath, -, hjoin⟩ := resolveRename_ok hres
      rw [State.path_unnegate, State.path_negate, State.path_unstamp, State.path_renamePath] at hp
      split at hp
      · cases hp
        exact .inr ⟨_, _, _, hpath, hjoin⟩
      · exact .inl hp
  | _ => exact .inl hp

/-- Every node has a path of the mount. -/
def NodesUnderRoot (w : World ρ) : Prop :=
  ∀ n p, w.state.path n = some p → UnderRoot w.config.root.asStr p.asStr

lemma nodesUnderRoot_outcome {w w' : World ρ} {call : Call} (h : Outcome R w call w')
    (hn : NodesUnderRoot w) : NodesUnderRoot w' := by
  intro n p hp
  rw [(grows_outcome h).2]
  rcases path_outcome h hp with hold | ⟨m, q, name, hq, hjoin⟩
  · exact hn n p hold
  · obtain ⟨hvalid, hkey⟩ := RemotePath.join_ok_iff.mp hjoin
    rw [hkey]
    exact (hn m q hq).childKey hvalid

lemma nodesUnderRoot_new (config : Config) (disk : Disk) (conn : Conn ρ) :
    NodesUnderRoot (World.new config disk conn) := by
  intro n p hp
  simp only [World.new, State.path, State.new, FMap.lookup_insert_eq_ite] at hp
  split at hp
  · cases hp
    exact .inl rfl
  · cases hp

/-! ## Handles -/

/-- The path in a handle is the path of its node. -/
def HandlesCoherent (st : State) : Prop :=
  ∀ h f, st.file h = some f → st.path f.node = some f.path

/-- A rename that succeeds and moves something finds no open handle on the node it moves. -/
def RenamesClosed (R : RemoteFilesystem ρ) (w : World ρ) : Event ρ → Prop
  | .call (.rename parent name newParent newName) =>
      ∀ srcParent dstParent src dst,
        w.resolveRename parent name newParent newName = .ok (srcParent, dstParent, src, dst) →
        (R.rename src dst w.conn.remote).1 = .ok () → src ≠ dst →
        ∀ n, w.state.pathToNode.lookup src = some n → ∀ h f, w.state.file h = some f → f.node ≠ n
  | _ => True

/-- Between two worlds the remote was only called about the path of node `n`. -/
def OnlyCalls (n : NodeId) (w w' : World ρ) : Prop :=
  ∃ p, w.state.path n = some p ∧ ∃ calls, w'.conn.log = calls ++ w.conn.log ∧
    ∀ x ∈ calls, x.2.path = p

/-- A read or a write through a handle calls the remote only about the path that the handle's
node has. -/
def ActsOnNode (R : RemoteFilesystem ρ) (w : World ρ) : Event ρ → Prop
  | .call (.read h offset size) => ∀ f, w.state.file h = some f →
      OnlyCalls f.node w (w.exec R (.read h offset size))
  | .call (.write h offset data) => ∀ f, w.state.file h = some f →
      OnlyCalls f.node w (w.exec R (.write h offset data))
  | _ => True

/-- The same for the handles that have not been moved. -/
def HandlesFollow (moved : FileHandle → Prop) (st : State) : Prop :=
  ∀ h f, st.file h = some f → ¬ moved h → st.path f.node = some f.path

lemma handlesFollow_false {st : State} : HandlesFollow (fun _ => False) st ↔ HandlesCoherent st :=
  ⟨fun hc h f hf => hc h f hf id, fun hc h f hf _ => hc h f hf⟩

namespace HandlesFollow

variable {moved moved' : FileHandle → Prop} {st st' : State}

lemma mono (hc : HandlesFollow moved st) (hmoved : ∀ h, moved h → moved' h)
    (hfile : ∀ h, st'.file h = st.file h)
    (hpath : ∀ n p, st.path n = some p → st'.path n = some p) : HandlesFollow moved' st' := by
  intro h f hf hm
  rw [hfile] at hf
  exact hpath f.node f.path (hc h f hf fun hold => hm (hmoved h hold))

lemma openHandle (hc : HandlesFollow moved st) {n : NodeId} {p : RemotePath}
    (hp : st.path n = some p) : HandlesFollow moved (st.openHandle n p).2 := by
  intro h f hf hm
  rw [State.file_openHandle] at hf
  split at hf
  · cases hf
    exact hp
  · exact hc h f hf hm

lemma close (hc : HandlesFollow moved st) (g : FileHandle) : HandlesFollow moved (st.close g) := by
  intro h f hf hm
  rw [State.file_close] at hf
  split at hf
  · cases hf
  · exact hc h f hf hm

/-- A rename moves the handles on the node that it moves. -/
lemma renamePath (hc : HandlesFollow moved st) (hw : st.Wf) {src dst : RemotePath}
    (hmoved : ∀ h, moved h → moved' h)
    (hnode : src ≠ dst → ∀ n, st.pathToNode.lookup src = some n →
      ∀ h f, st.file h = some f → f.node = n → f.path = src → moved' h) :
    HandlesFollow moved' (st.renamePath src dst) := by
  intro h f hf hm
  rw [State.file_renamePath] at hf
  have hold : ¬ moved h := fun hmv => hm (hmoved h hmv)
  have hself := hc h f hf hold
  rw [State.path_renamePath]
  split
  · next hn =>
      have hsrc := hw.node_path src f.node hn
      rw [hself] at hsrc
      have hpath := Option.some.inj hsrc
      by_cases heq : src = dst
      · rw [← heq, hpath]
      · exact absurd (hnode heq f.node hn h f hf rfl hpath) hm
  · exact hself

end HandlesFollow

lemma handlesFollow_outcome {moved moved' : FileHandle → Prop} {w w' : World ρ} {call : Call}
    (h : Outcome R w call w') (hw : w.state.Wf) (hmoved : ∀ h, moved h → moved' h)
    (hrename : ∀ parent name newParent newName srcParent dstParent src dst,
      call = .rename parent name newParent newName →
      w.resolveRename parent name newParent newName = .ok (srcParent, dstParent, src, dst) →
      (R.rename src dst w.conn.remote).1 = .ok () → src ≠ dst →
      ∀ n, w.state.pathToNode.lookup src = some n → ∀ h f, w.state.file h = some f → f.node = n →
        f.path = src → moved' h)
    (hc : HandlesFollow moved w.state) : HandlesFollow moved' w'.state := by
  induction h with
  | known hst => exact hc.mono hmoved hst.file fun n p => hst.path hw
  | failed _ hst => exact hc.mono hmoved hst.file fun n p => hst.path hw
  | lookupFound _ _ _ _ _ =>
      exact hc.mono hmoved (fun h => by simp)
        fun n p hp => ((hw.stamp _ _).unnegate _ _).path_intern _ hp
  | lookupMissing _ _ _ => exact hc.mono hmoved (fun _ => rfl) fun _ _ hp => hp
  | getattrFound _ _ _ _ => exact hc.mono hmoved (fun _ => rfl) fun _ _ hp => hp
  | getattrMissing _ _ _ => exact hc.mono hmoved (fun _ => rfl) fun _ _ hp => hp
  | listed _ _ _ _ hst =>
      have hstamped := stampedBy_of_eq hst
      exact hc.mono hmoved (fun h => by simpa using hstamped.file h)
        fun n p hp => hstamped.path hw hp
  | listedPartly _ _ _ _ hst =>
      have hstamped := stampedBy_of_eq hst
      exact hc.mono hmoved hstamped.file fun n p hp => hstamped.path hw hp
  | opened hpath =>
      have hsame : HandlesFollow moved' w.state := hc.mono hmoved (fun _ => rfl) fun _ _ hp => hp
      exact hsame.openHandle hpath
  | @truncated _ _ path _ _ _ hpath _ =>
      have hunstamp : HandlesFollow moved' (w.state.unstamp path) :=
        hc.mono hmoved (fun _ => rfl) fun _ _ hp => hp
      exact hunstamp.openHandle hpath
  | readThrough _ _ => exact hc.mono hmoved (fun _ => rfl) fun _ _ hp => hp
  | readRejected _ _ _ ih =>
      exact ih fun _ _ _ _ _ _ _ _ heq => (by cases heq)
  | readContent _ _ _ _ ih =>
      exact ih fun _ _ _ _ _ _ _ _ heq => (by cases heq)
  | wrote _ _ => exact hc.mono hmoved (fun _ => rfl) fun _ _ hp => hp
  | released =>
      have hsame : HandlesFollow moved' w.state := hc.mono hmoved (fun _ => rfl) fun _ _ hp => hp
      exact hsame.close _
  | @created parent name _ _ _ child _ conn _ _ _ _ hst =>
      have hstart : ((w.state.stamp child conn.now).unnegate parent name).Wf :=
        (hw.stamp _ _).unnegate _ _
      have hself := hstart.path_intern_self child
      have hinterned : HandlesFollow moved'
          (((w.state.stamp child conn.now).unnegate parent name).intern child).2 :=
        hc.mono hmoved (fun h => by simp) fun n p hp => hstart.path_intern child hp
      rw [hst] at hself hinterned
      exact hinterned.openHandle hself
  | madeDir _ _ =>
      exact hc.mono hmoved (fun h => by simp)
        fun n p hp => ((hw.stamp _ _).unnegate _ _).path_intern _ hp
  | unlinked _ _ => exact hc.mono hmoved (fun _ => rfl) fun _ _ hp => hp
  | removedDir _ _ => exact hc.mono hmoved (fun _ => rfl) fun _ _ hp => hp
  | renamed hres hren =>
      have hafter := hc.renamePath hw hmoved
        (hrename _ _ _ _ _ _ _ _ rfl hres (Conn.rename_eq hren).1)
      exact hafter.mono (fun _ => id) (fun _ => rfl) fun _ _ hp => hp
  | setattrDone _ _ _ => exact hc.mono hmoved (fun _ => rfl) fun _ _ hp => hp

/-- One event keeps the handles coherent. -/
lemma handlesCoherent_step (w : World ρ) (e : Event ρ) (hcond : w.RenamesClosed R e)
    (hinv : w.state.Wf ∧ HandlesCoherent w.state) :
    (w.step R e).state.Wf ∧ HandlesCoherent (w.step R e).state := by
  refine ⟨wf_step w e hinv.1, ?_⟩
  cases e with
  | call call =>
      refine handlesFollow_false.mp (handlesFollow_outcome (outcome_exec R w call) hinv.1
        (fun _ => id) ?_ (handlesFollow_false.mpr hinv.2))
      rintro parent name newParent newName srcParent dstParent src dst rfl hres hok hne n hn h f
        hf hnode -
      exact hcond _ _ _ _ hres hok hne n hn h f hf hnode
  | tick d => exact hinv.2
  | external remote => exact hinv.2
  | restart config => exact fun h f hf => by cases hf

/-- A rename of something open breaks the coherence. -/
lemma renamesClosed_of_coherent {w : World ρ} {e : Event ρ} (hw : w.state.Wf)
    (hc : HandlesCoherent w.state) (hnext : HandlesCoherent (w.step R e).state) :
    w.RenamesClosed R e := by
  cases e with
  | call call =>
      cases call with
      | rename parent name newParent newName =>
          intro srcParent dstParent src dst hres hok hne n hn h f hf hnode
          have hsrc : f.path = src := by
            have hpath := hw.node_path src n hn
            rw [← hnode, hc h f hf] at hpath
            exact Option.some.inj hpath
          have hrename : w.conn.rename R src dst =
              (.ok (), (w.conn.rename R src dst).2) := Prod.ext hok rfl
          simp only [step, exec, rename, hres] at hnext
          rw [hrename] at hnext
          have hdst := hnext h f (by simpa using hf)
          rw [State.path_unnegate, State.path_negate, State.path_unstamp, State.path_renamePath,
            if_pos (hnode ▸ hn)] at hdst
          exact hne (hsrc.symm.trans (Option.some.inj hdst).symm)
      | _ => trivial
  | _ => trivial

/-- `getattr` calls the remote about the path of its node only. -/
lemma getattr_log (w : World ρ) (n : NodeId) {p : RemotePath} (hp : w.state.path n = some p) :
    ∃ calls, (w.getattr R n).2.conn.log = calls ++ w.conn.log ∧ ∀ x ∈ calls, x.2.path = p := by
  unfold getattr
  rw [State.pathOf_ok.mpr hp]
  simp only
  split
  · exact ⟨[], rfl, by simp⟩
  · split
    · exact ⟨[], rfl, by simp⟩
    · have hcall : ∀ conn answer, w.conn.stat R p = (answer, conn) →
          ∃ calls, conn.log = calls ++ w.conn.log ∧ ∀ x ∈ calls, x.2.path = p := by
        rintro conn answer hstat
        refine ⟨[(w.conn.now, .stat p (R.stat p w.conn.remote).1)], ?_, by simp [RemoteCall.path]⟩
        have hlog := congrArg (fun x => x.2.log) hstat
        exact hlog.symm
      unfold getattrRemote
      split
      · next hstat => exact hcall _ _ hstat
      · next hstat => exact hcall _ _ hstat
      · next hstat =>
          split
          · split <;> exact hcall _ _ hstat
          · exact hcall _ _ hstat

/-- With coherent handles, reads and writes act on the node of their handle. -/
lemma actsOnNode_of_coherent {w : World ρ} (hc : HandlesCoherent w.state) (e : Event ρ) :
    w.ActsOnNode R e := by
  cases e with
  | call call =>
      cases call with
      | read h offset size =>
          intro f hf
          refine ⟨f.path, hc h f hf, ?_⟩
          obtain ⟨calls, hlog, hcalls⟩ := getattr_log (R := R) w f.node (hc h f hf)
          have hcontent : ∃ calls, (w.readContent R f offset size).2.conn.log =
              calls ++ w.conn.log ∧ ∀ x ∈ calls, x.2.path = f.path := by
            unfold readContent
            split
            · next e w' hget =>
                rw [hget] at hlog
                exact ⟨calls, hlog, hcalls⟩
            · next metadata w' hget =>
                rw [hget] at hlog
                obtain ⟨reads, hreads, hall⟩ :=
                  (Store.read_frame (R := R) f.path metadata.attributes offset size w'.store
                    w'.conn).2.log
                refine ⟨reads ++ calls, ?_, ?_⟩
                · rw [List.append_assoc, ← hlog]
                  exact hreads
                · intro x hx
                  rcases List.mem_append.mp hx with hx | hx
                  · obtain ⟨o, n, a, rfl⟩ := hall x hx
                    rfl
                  · exact hcalls x hx
          simp only [exec, read, hf]
          split
          · exact ⟨[_], rfl, by simp [RemoteCall.path]⟩
          · exact ⟨[], rfl, by simp⟩
          · exact hcontent
          · exact hcontent
      | write h offset data =>
          intro f hf
          refine ⟨f.path, hc h f hf, ?_⟩
          simp only [exec, write, hf]
          split
          · exact ⟨[], rfl, by simp⟩
          · have hcall : ∀ conn answer, w.conn.write R f.path offset data = (answer, conn) →
                ∃ calls, conn.log = calls ++ w.conn.log ∧ ∀ x ∈ calls, x.2.path = f.path := by
              rintro conn answer hwrite
              refine ⟨[(w.conn.now, .write f.path offset data
                (R.write f.path offset data w.conn.remote).1)], ?_, by simp [RemoteCall.path]⟩
              exact (congrArg (fun x => x.2.log) hwrite).symm
            split
            · next hwrite => exact hcall _ _ hwrite
            · next hwrite => exact hcall _ _ hwrite
      | _ => trivial
  | _ => trivial

/-- **Handles follow their nodes exactly in the runs that rename nothing open.**  In such a run
every open handle has the path of its node in every state, and every read and write acts on the
path of the handle's node; in any other run some state has a handle with another path. -/
theorem handles_coherent_iff (config : Config) (disk : Disk) (conn : Conn ρ)
    (es : List (Event ρ)) :
    ((∀ w, Visits (step R) (World.new config disk conn) es w → HandlesCoherent w.state) ∧
        AllSteps (step R) (ActsOnNode R) (World.new config disk conn) es) ↔
      AllSteps (step R) (RenamesClosed R) (World.new config disk conn) es := by
  set w₀ := World.new config disk conn with hw₀
  have hstart : w₀.state.Wf ∧ HandlesCoherent w₀.state :=
    ⟨State.wf_new config.root, fun h f hf => by cases hf⟩
  constructor
  · rintro ⟨hvisits, -⟩
    -- each step starts and ends in a visited state
    have hboth : ∀ s : World ρ, s.state.Wf → (∀ t, Visits (step R) s es t →
        HandlesCoherent t.state) → AllSteps (step R) (RenamesClosed R) s es := by
      clear hvisits
      induction es with
      | nil => exact fun _ _ _ => trivial
      | cons e es ih =>
          intro s hs hall
          have hnow := hall s (visits_cons.mpr (.inl rfl))
          have hrest : ∀ t, Visits (step R) (s.step R e) es t → HandlesCoherent t.state :=
            fun t ht => hall t (visits_cons.mpr (.inr ht))
          have hnext := hrest (s.step R e) ⟨[], List.nil_prefix, rfl⟩
          exact ⟨renamesClosed_of_coherent hs hnow hnext, ih (s.step R e) (wf_step s e hs) hrest⟩
    exact hboth w₀ hstart.1 hvisits
  · intro hclosed
    refine ⟨fun w hw => (visits_invariant handlesCoherent_step hstart hclosed hw).2, ?_⟩
    exact allSteps_of_invariant handlesCoherent_step
      (fun w e _ hinv => actsOnNode_of_coherent hinv.2 e) hstart hclosed

/-- `/a` is opened and renamed to `/b`, and another file is created at `/a`. -/
def renameWhileOpen : List (Event Memory) :=
  [.call (.lookup .root ['a']), .call (.openFile ⟨2⟩ { write := true }),
    .call (.rename .root ['a'] .root ['b']), .call (.create .root ['a'] 0 {})]

/-- After renaming an open file, its handle still has the old path: a write through it goes to
the file that was created there since, while the handle's node is `/b`. -/
theorem rename_leaves_handle :
    ¬ HandlesCoherent (run (step Memory.filesystem) (mount sampleTree 0) renameWhileOpen).state ∧
    ¬ ActsOnNode Memory.filesystem
      (run (step Memory.filesystem) (mount sampleTree 0) renameWhileOpen)
      (.call (.write ⟨1⟩ 0 [7])) := by
  have hfile : (run (step Memory.filesystem) (mount sampleTree 0) renameWhileOpen).state.file ⟨1⟩ =
      some ⟨⟨2⟩, pathA⟩ := by decide
  have hpath : (run (step Memory.filesystem) (mount sampleTree 0) renameWhileOpen).state.path ⟨2⟩ =
      some pathB := by decide
  constructor
  · intro hc
    have hsame := hc ⟨1⟩ _ hfile
    rw [hpath] at hsame
    exact absurd (Option.some.inj hsame) (by decide)
  · intro hacts
    obtain ⟨p, hp, calls, hlog, hcalls⟩ := hacts _ hfile
    rw [hpath] at hp
    cases hp
    have hhead : (calls ++ (run (step Memory.filesystem) (mount sampleTree 0)
        renameWhileOpen).conn.log).head?.map (fun x => x.2.path) = some pathA := by
      rw [← hlog]
      decide
    cases calls with
    | nil =>
        have hlen := congrArg List.length hlog
        exact absurd hlen (by decide)
    | cons x xs =>
        have hx := hcalls x (by simp)
        simp only [List.cons_append, List.head?_cons, Option.map_some] at hhead
        rw [hx] at hhead
        exact absurd (Option.some.inj hhead) (by decide)

end World

end CacheShfs
