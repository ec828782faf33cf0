import CacheShfs.Vfs.Registry

/-!
# Node identity over a run

What a call can do to the registry of nodes is one of two things: it gives new nodes to paths
that had none (`State.Registers`), or it is a rename and moves the node of its source
(`registry_outcome`).  The results about identity are read off from this.

* A path keeps its node, and an identifier is given out once, as long as no rename touches the
  path (`node_identity_stable`).
* Two nodes have one path exactly from the first rename onto a path that still has a node
  (`nodes_injective_iff`).
* A rename moves its source's node and no node below it, so the identity of what lies in a
  renamed directory is lost (`renames_keep_tree`).
-/

namespace CacheShfs

open Machine

namespace State

/-- The node registered for a path. -/
def node (st : State) (p : RemotePath) : Option NodeId := st.pathToNode.lookup p

variable {P : RemotePath → Prop} {st st' st'' : State}

lemma node_renamePath (src dst p : RemotePath) :
    (st.renamePath src dst).node p =
      if p = dst then (st.node src).or (st.node dst)
      else if p = src then none else st.node p := by
  have hrekey : (st.renamePath src dst).pathToNode = FMap.rekey src dst st.pathToNode := by
    unfold renamePath FMap.rekey
    cases st.pathToNode.lookup src <;> rfl
  rw [node, hrekey, FMap.lookup_rekey]
  rfl

/-- New nodes have been given to paths with a property, and the registry is otherwise as it
was. -/
structure Registers (P : RemotePath → Prop) (st st' : State) : Prop where
  nextNode_le : st.nextNode ≤ st'.nextNode
  node_old : ∀ p n, st.node p = some n → st'.node p = some n
  node_new : ∀ p n, st'.node p = some n →
    st.node p = some n ∨ (P p ∧ st.node p = none ∧ st.nextNode ≤ n.val)
  path_old : ∀ n, n.val < st.nextNode → st'.path n = st.path n
  path_new : ∀ n p, st'.path n = some p → st.nextNode ≤ n.val → st'.node p = some n

namespace Registers

/-- The registry has not changed. -/
lemma same (hw : st.Wf) (hnext : st'.nextNode = st.nextNode)
    (hnode : st'.pathToNode = st.pathToNode) (hpath : st'.nodeToPath = st.nodeToPath) :
    Registers P st st' where
  nextNode_le := hnext.ge
  node_old p n h := by rwa [node, hnode]
  node_new p n h := .inl (by rwa [node, hnode] at h)
  path_old n _ := by rw [State.path, hpath, State.path]
  path_new n p h hn := by
    rw [State.path, hpath] at h
    exact absurd (hw.path_lt n p h) (not_lt.mpr hn)

lemma refl (hw : st.Wf) : Registers P st st := same hw rfl rfl rfl

lemma trans (h : Registers P st st') (h' : Registers P st' st'') : Registers P st st'' where
  nextNode_le := h.nextNode_le.trans h'.nextNode_le
  node_old p n hp := h'.node_old p n (h.node_old p n hp)
  node_new p n hp := by
    rcases h'.node_new p n hp with hmid | ⟨hP, hnone, hle⟩
    · exact h.node_new p n hmid
    · refine .inr ⟨hP, ?_, h.nextNode_le.trans hle⟩
      cases hst : st.node p with
      | none => rfl
      | some m =>
          rw [h.node_old p m hst] at hnone
          cases hnone
  path_old n hn := (h'.path_old n (lt_of_lt_of_le hn h.nextNode_le)).trans (h.path_old n hn)
  path_new n p hp hn := by
    rcases lt_or_ge n.val st'.nextNode with hlt | hge
    · rw [h'.path_old n hlt] at hp
      exact h'.node_old p n (h.path_new n p hp hn)
    · exact h'.path_new n p hp hge

lemma intern (hw : st.Wf) {p : RemotePath} (hP : P p) : Registers P st (st.intern p).2 := by
  unfold State.intern
  split
  · exact refl hw
  · next hnone =>
      refine ⟨Nat.le_succ _, fun q n hq => ?_, fun q n hq => ?_, fun n hn => ?_,
        fun n q hq hn => ?_⟩
      · have hne : q ≠ p := by
          rintro rfl
          rw [node, hnone] at hq
          cases hq
        rw [node, FMap.lookup_insert_eq_ite, if_neg hne]
        exact hq
      · rw [node, FMap.lookup_insert_eq_ite] at hq
        split at hq
        · next heq =>
            cases hq
            exact .inr ⟨heq ▸ hP, heq ▸ hnone, le_refl _⟩
        · exact .inl hq
      · have hne : n ≠ ⟨st.nextNode⟩ := by
          rintro rfl
          exact lt_irrefl _ hn
        simp only [State.path]
        rw [FMap.lookup_insert_eq_ite, if_neg hne]
      · simp only [State.path, FMap.lookup_insert_eq_ite] at hq
        split at hq
        · next heq =>
            cases hq
            rw [node, FMap.lookup_insert_eq_ite, if_pos rfl, heq]
        · exact absurd (hw.path_lt n q hq) (not_lt.mpr hn)

end Registers

lemma node_intern_self (p : RemotePath) : (st.intern p).2.node p = some (st.intern p).1 := by
  unfold intern
  split
  · next n hn => exact hn
  · exact AList.lookup_insert _

/-- A registered path keeps its node. -/
lemma node_intern_old {p : RemotePath} {n : NodeId} (h : st.node p = some n) (q : RemotePath) :
    (st.intern q).2.node p = some n := by
  unfold intern
  split
  · exact h
  · next hnone =>
      have hne : p ≠ q := by
        rintro rfl
        rw [node, hnone] at h
        cases h
      exact (AList.lookup_insert_ne hne).trans h

lemma intern_of_node {p : RemotePath} {n : NodeId} (h : st.node p = some n) :
    st.intern p = (n, st) := by
  unfold intern
  rw [show st.pathToNode.lookup p = some n from h]

end State

lemma Interns.node_old {P : RemotePath → Prop} {st st' : State} (h : Interns P st st')
    {p : RemotePath} {n : NodeId} (hp : st.node p = some n) : st'.node p = some n := by
  induction h with
  | refl => exact hp
  | intern _ _ ih => exact State.node_intern_old ih _

lemma Interns.registers {P : RemotePath → Prop} {st st' : State} (h : Interns P st st')
    (hw : st.Wf) : st.Registers P st' := by
  induction h with
  | refl => exact .refl hw
  | intern hpath h ih => exact ih.trans (.intern (h.wf hw) hpath)

namespace World

variable {ρ : Type} {R : RemoteFilesystem ρ}

lemma StampedBy.node_old {dir : RemotePath} {now : ℕ} {children : List (Str × FileAttributes)}
    {st st' : State} (h : StampedBy dir now children st st') {p : RemotePath} {n : NodeId}
    (hp : st.node p = some n) : st'.node p = some n := by
  induction h with
  | refl => exact hp
  | @cons _ _ _ child st _ _ _ ih =>
      have hstamped : (st.stamp child now).node p = some n := hp
      exact ih (State.node_intern_old hstamped child)

lemma StampedBy.registers {P : RemotePath → Prop} {dir : RemotePath} {now : ℕ}
    {children : List (Str × FileAttributes)} {st st' : State}
    (h : StampedBy dir now children st st') (hw : st.Wf)
    (hP : ∀ name child, dir.join name = .ok child → P child) : st.Registers P st' := by
  induction h with
  | refl => exact .refl hw
  | @cons name _ _ child st _ hjoin _ ih =>
      have hstamp : st.Registers P (st.stamp child now) := .same hw rfl rfl rfl
      have hintern := State.Registers.intern (hw.stamp child now) (hP name child hjoin)
      exact (hstamp.trans hintern).trans (ih ((hw.stamp _ _).intern _))

/-! ## What a call does to the registry -/

/-- The event is a rename from `src` to `dst`, and it succeeds. -/
def Renames (R : RemoteFilesystem ρ) (w : World ρ) (src dst : RemotePath) : Event ρ → Prop
  | .call (.rename parent name newParent newName) =>
      (∃ srcParent dstParent, w.resolveRename parent name newParent newName =
        .ok (srcParent, dstParent, src, dst)) ∧
      (R.rename src dst w.conn.remote).1 = .ok ()
  | _ => False

/-- The registry after a rename. -/
structure Moved (src dst : RemotePath) (st st' : State) : Prop where
  nextNode : st'.nextNode = st.nextNode
  node : ∀ p, st'.node p =
    if p = dst then (st.node src).or (st.node dst) else if p = src then none else st.node p
  path : ∀ n, st'.path n = if st.node src = some n then some dst else st.path n

lemma moved_renamePath (src dst : RemotePath) (st : State) :
    Moved src dst st (st.renamePath src dst) where
  nextNode := by
    unfold State.renamePath
    split <;> rfl
  node p := State.node_renamePath src dst p
  path n := State.path_renamePath src dst n

lemma moved_of_renames {w : World ρ} {src dst : RemotePath} {e : Event ρ}
    (h : Renames R w src dst e) : Moved src dst w.state (w.step R e).state := by
  cases e with
  | call call =>
      cases call with
      | rename parent name newParent newName =>
          obtain ⟨⟨srcParent, dstParent, hres⟩, hok⟩ := h
          have hrename : w.conn.rename R src dst = (.ok (), (w.conn.rename R src dst).2) :=
            Prod.ext hok rfl
          simp only [step, exec, rename, hres]
          rw [hrename]
          have hmoved := moved_renamePath src dst w.state
          exact ⟨hmoved.nextNode, hmoved.node, hmoved.path⟩
      | _ => exact absurd h id
  | _ => exact absurd h id

/-- **A call registers new paths or is a rename.** -/
lemma registry_outcome {w w' : World ρ} {call : Call} (h : Outcome R w call w')
    (hw : w.state.Wf) :
    w.state.Registers w.state.HasChild w'.state ∨
      ∃ src dst, Renames R w src dst (.call call) ∧ Moved src dst w.state w'.state := by
  induction h with
  | known hst => exact .inl (hst.registers hw)
  | failed _ hst => exact .inl (hst.registers hw)
  | @lookupFound parent name child _ conn _ hchild _ _ _ =>
      have hprep : w.state.Registers w.state.HasChild
          ((w.state.stamp child conn.now).unnegate parent name) := .same hw rfl rfl rfl
      exact .inl (hprep.trans (.intern ((hw.stamp _ _).unnegate _ _)
        (hasChild_of_childPath hchild)))
  | lookupMissing _ _ _ => exact .inl (.same hw rfl rfl rfl)
  | getattrFound _ _ _ _ => exact .inl (.same hw rfl rfl rfl)
  | getattrMissing _ _ _ => exact .inl (.same hw rfl rfl rfl)
  | @listed _ path _ conn _ st _ hpath _ _ hst =>
      have hstamped := (stampedBy_of_eq hst).registers hw
        fun name child hjoin => (⟨_, _, name, hpath, hjoin⟩ : w.state.HasChild child)
      exact .inl (hstamped.trans (.same ((stampedBy_of_eq hst).wf hw) rfl rfl rfl))
  | listedPartly _ hpath _ _ hst =>
      exact .inl ((stampedBy_of_eq hst).registers hw
        fun name child hjoin => ⟨_, _, name, hpath, hjoin⟩)
  | opened _ => exact .inl (.same hw rfl rfl rfl)
  | truncated _ _ _ => exact .inl (.same hw rfl rfl rfl)
  | readThrough _ _ => exact .inl (.same hw rfl rfl rfl)
  | readRejected _ _ _ ih =>
      rcases ih with hreg | ⟨_, _, hren, -⟩
      · exact .inl hreg
      · exact absurd hren id
  | readContent _ _ _ _ ih =>
      rcases ih with hreg | ⟨_, _, hren, -⟩
      · exact .inl hreg
      · exact absurd hren id
  | wrote _ _ => exact .inl (.same hw rfl rfl rfl)
  | released => exact .inl (.same hw rfl rfl rfl)
  | @created parent name _ _ _ child _ conn hres _ node st hst =>
      obtain ⟨hpath, hjoin⟩ := resolve_ok hres
      have hprep : w.state.Registers w.state.HasChild
          ((w.state.stamp child conn.now).unnegate parent name) := .same hw rfl rfl rfl
      have hwf := (hw.stamp child conn.now).unnegate parent name
      have hchild : w.state.HasChild child := ⟨_, _, name, hpath, hjoin⟩
      have hintern := State.Registers.intern hwf hchild
      have hst' := hwf.intern child
      rw [hst] at hintern hst'
      exact .inl ((hprep.trans hintern).trans (.same hst' rfl rfl rfl))
  | @madeDir parent name _ _ child _ conn hres _ =>
      obtain ⟨hpath, hjoin⟩ := resolve_ok hres
      have hprep : w.state.Registers w.state.HasChild
          ((w.state.stamp child conn.now).unnegate parent name) := .same hw rfl rfl rfl
      exact .inl (hprep.trans (.intern ((hw.stamp _ _).unnegate _ _) ⟨_, _, _, hpath, hjoin⟩))
  | unlinked _ _ => exact .inl (.same hw rfl rfl rfl)
  | removedDir _ _ => exact .inl (.same hw rfl rfl rfl)
  | @renamed _ _ _ _ srcParent dstParent src dst _ hres hren =>
      have hmoved := moved_renamePath src dst w.state
      exact .inr ⟨src, dst, ⟨⟨srcParent, dstParent, hres⟩, (Conn.rename_eq hren).1⟩,
        ⟨hmoved.nextNode, hmoved.node, hmoved.path⟩⟩
  | setattrDone _ _ _ => exact .inl (.same hw rfl rfl rfl)

/-! ## The node of a path -/

/-- The call returns node `n` for the path `p`. -/
def Returns (R : RemoteFilesystem ρ) (w : World ρ) (p : RemotePath) (n : NodeId) : Call → Prop
  | .lookup parent name =>
      w.childPath parent name = .ok p ∧
        ∃ metadata, (w.lookup R parent name).1 = .ok metadata ∧ metadata.node = n
  | .readdir dir =>
      ∃ path entries, w.state.path dir = some path ∧ (w.readdir R dir).1 = .ok entries ∧
        ∃ e ∈ entries, path.join e.name = .ok p ∧ e.metadata.node = n
  | .create parent name mode flags =>
      (∃ parentPath, w.resolve parent name = .ok (parentPath, p)) ∧
        ∃ created, (w.create R parent name mode flags).1 = .ok created ∧ created.metadata.node = n
  | .mkdir parent name mode =>
      (∃ parentPath, w.resolve parent name = .ok (parentPath, p)) ∧
        ∃ metadata, (w.mkdir R parent name mode).1 = .ok metadata ∧ metadata.node = n
  | _ => False

/-- The nodes of a cached listing are registered. -/
lemma node_internChildren {children : List (Str × RemotePath × FileAttributes)} {st : State}
    {path : RemotePath} (hjoin : ∀ c ∈ children, path.join c.1 = .ok c.2.1) :
    ∀ e ∈ (internChildren children st).1, ∀ p, path.join e.name = .ok p →
      (internChildren children st).2.node p = some e.metadata.node := by
  induction children generalizing st with
  | nil => simp [internChildren]
  | cons c rest ih =>
      obtain ⟨name, child, attributes⟩ := c
      have hrest : ∀ c ∈ rest, path.join c.1 = .ok c.2.1 := fun c hc =>
        hjoin c (List.mem_cons_of_mem _ hc)
      intro e he p hp
      rcases List.mem_cons.mp he with rfl | he
      · -- the node of the first child stays registered while the others get theirs
        have hchild := hjoin _ List.mem_cons_self
        simp only at hchild hp
        rw [hchild] at hp
        cases hp
        exact (interns_internChildren (P := fun _ => True) rest (fun _ _ => trivial) _).node_old
          (State.node_intern_self child)
      · exact ih hrest e he p hp

/-- The nodes of a listing by the remote are registered. -/
lemma node_stampChildren {path : RemotePath} {now : ℕ} {children : List (Str × FileAttributes)}
    {st st' : State} {entries : List DirectoryEntry}
    (h : stampChildren path now children st = (.ok entries, st')) :
    ∀ e ∈ entries, ∀ p, path.join e.name = .ok p → st'.node p = some e.metadata.node := by
  intro e he p hp
  obtain ⟨child, before, rest, hjoin, hnode, hstamped⟩ := stampChildren_entry h e he
  obtain rfl : child = p := Except.ok.inj (hjoin.symm.trans hp)
  rw [hnode]
  exact hstamped.node_old (State.node_intern_self child)

/-- What `answerAs` returns is registered. -/
lemma node_answerAs {w : World ρ} {p : RemotePath} {attributes : FileAttributes}
    {metadata : FileMetadata} (hok : (answerAs p attributes w).1 = .ok metadata) :
    (answerAs p attributes w).2.state.node p = some metadata.node := by
  cases hok
  exact State.node_intern_self p

lemma node_lookup {w : World ρ} {parent : NodeId} {name : Str} {p : RemotePath}
    (hchild : w.childPath parent name = .ok p) {metadata : FileMetadata}
    (hok : (w.lookup R parent name).1 = .ok metadata) :
    (w.lookup R parent name).2.state.node p = some metadata.node := by
  unfold lookup at hok ⊢
  rw [hchild] at hok ⊢
  simp only at hok ⊢
  split at hok
  · cases hok
  · next hneg =>
      rw [if_neg hneg]
      split at hok
      · next attributes _ => exact node_answerAs hok
      · split at hok
        · cases hok
        · next honline =>
            rw [if_neg honline]
            unfold lookupRemote at hok ⊢
            split at hok
            · exact node_answerAs hok
            · cases hok
            · split at hok
              · split at hok
                · next hun =>
                    rw [if_pos hun]
                    exact node_answerAs hok
                · cases hok
              · cases hok

lemma node_readdirFromCache {w w' : World ρ} {path : RemotePath}
    {entries : List DirectoryEntry} (h : w.readdirFromCache path = some (entries, w')) :
    ∀ e ∈ entries, ∀ p, path.join e.name = .ok p → w'.state.node p = some e.metadata.node := by
  obtain ⟨names, children, -, hchildren, rfl, rfl⟩ := readdirFromCache_ok h
  exact node_internChildren (cachedChildren_join hchildren)

lemma node_readdir {w : World ρ} {dir : NodeId} {path : RemotePath}
    (hpath : w.state.path dir = some path) {entries : List DirectoryEntry}
    (hok : (w.readdir R dir).1 = .ok entries) :
    ∀ e ∈ entries, ∀ p, path.join e.name = .ok p →
      (w.readdir R dir).2.state.node p = some e.metadata.node := by
  unfold readdir at hok ⊢
  rw [State.pathOf_ok.mpr hpath] at hok ⊢
  simp only at hok ⊢
  split at hok
  · next entries' w' hcache =>
      cases hok
      split at hcache
      · exact node_readdirFromCache hcache
      · cases hcache
  · split at hok
    · cases hok
    · next honline =>
        rw [if_neg honline]
        unfold readdirRemote at hok ⊢
        split at hok
        · next e conn _ =>
            split at hok
            · next entries' w' hcache =>
                cases hok
                split at hcache
                · have hnodes := node_readdirFromCache (w := { w with conn := conn }) hcache
                  exact hnodes
                · cases hcache
            · cases hok
        · next conn hread =>
            simp only at hok ⊢
            split at hok
            · next result st hst =>
                cases hok
                have hnodes := node_stampChildren hst
                exact hnodes
            · cases hok

/-- **The node a call returns for a path is registered for it.** -/
lemma node_of_returns {w : World ρ} {p : RemotePath} {n : NodeId} {call : Call}
    (h : Returns R w p n call) : (w.exec R call).state.node p = some n := by
  cases call with
  | lookup parent name =>
      obtain ⟨hchild, metadata, hok, rfl⟩ := h
      exact node_lookup hchild hok
  | readdir dir =>
      obtain ⟨path, entries, hpath, hok, e, he, hjoin, rfl⟩ := h
      exact node_readdir hpath hok e he p hjoin
  | create parent name mode flags =>
      obtain ⟨⟨parentPath, hres⟩, created, hok, rfl⟩ := h
      simp only [exec]
      unfold create at hok ⊢
      rw [hres] at hok ⊢
      simp only at hok ⊢
      split at hok
      · cases hok
      · cases hok
        exact State.node_intern_self p
  | mkdir parent name mode =>
      obtain ⟨⟨parentPath, hres⟩, metadata, hok, rfl⟩ := h
      simp only [exec]
      unfold mkdir at hok ⊢
      rw [hres] at hok ⊢
      simp only at hok ⊢
      split at hok
      · cases hok
      · exact node_answerAs hok
  | _ => exact absurd h id

/-! ## Stability -/

/-- The event is one of the session and no rename of `p` or to `p`. -/
def Undisturbed (R : RemoteFilesystem ρ) (p : RemotePath) (w : World ρ) (e : Event ρ) : Prop :=
  InSession e ∧ ∀ src dst, Renames R w src dst e → src ≠ p ∧ dst ≠ p

/-- The registry after an event of the session. -/
lemma registry_step (w : World ρ) {e : Event ρ} (he : InSession e) (hw : w.state.Wf) :
    w.state.Registers w.state.HasChild (w.step R e).state ∨
      ∃ src dst, Renames R w src dst e ∧ Moved src dst w.state (w.step R e).state := by
  cases e with
  | call call => exact registry_outcome (outcome_exec R w call) hw
  | tick d => exact .inl (.refl hw)
  | external remote => exact .inl (.refl hw)
  | restart config => exact absurd he id

/-- A path that is not renamed keeps its node. -/
lemma node_undisturbed {p : RemotePath} {n : NodeId} (w : World ρ) (e : Event ρ)
    (he : Undisturbed R p w e) (h : w.state.Wf ∧ w.state.node p = some n) :
    (w.step R e).state.Wf ∧ (w.step R e).state.node p = some n := by
  refine ⟨wf_step w e h.1, ?_⟩
  rcases registry_step w he.1 h.1 with hreg | ⟨src, dst, hren, hmoved⟩
  · exact hreg.node_old p n h.2
  · obtain ⟨hsrc, hdst⟩ := he.2 src dst hren
    rw [hmoved.node, if_neg hdst.symm, if_neg hsrc.symm]
    exact h.2

/-- An identifier that has been given out stays below the counter. -/
lemma issued_step {n : NodeId} (w : World ρ) (e : Event ρ) (he : InSession e)
    (h : w.state.Wf ∧ n.val < w.state.nextNode) :
    (w.step R e).state.Wf ∧ n.val < (w.step R e).state.nextNode := by
  refine ⟨wf_step w e h.1, ?_⟩
  rcases registry_step w he h.1 with hreg | ⟨src, dst, -, hmoved⟩
  · exact lt_of_lt_of_le h.2 hreg.nextNode_le
  · rw [hmoved.nextNode]
    exact h.2

/-- A registered node has been given out. -/
lemma issued_of_node {st : State} (hw : st.Wf) {p : RemotePath} {n : NodeId}
    (h : st.node p = some n) : n.val < st.nextNode :=
  hw.path_lt n p (hw.node_path p n h)

/-- A call that returns nodes is no rename. -/
lemma registers_of_returns {w : World ρ} (hw : w.state.Wf) {p : RemotePath} {n : NodeId}
    {call : Call} (h : Returns R w p n call) :
    w.state.Registers w.state.HasChild (w.exec R call).state := by
  rcases registry_outcome (outcome_exec R w call) hw with hreg | ⟨src, dst, hren, -⟩
  · exact hreg
  · cases call with
    | rename parent name newParent newName => exact absurd h id
    | _ => exact absurd hren id

/-- A call that returns a node for a path without one has just made the node. -/
lemma fresh_of_returns {w : World ρ} (hw : w.state.Wf) {p : RemotePath} {n : NodeId} {call : Call}
    (h : Returns R w p n call) (hnone : w.state.node p = none) : w.state.nextNode ≤ n.val := by
  rcases (registers_of_returns hw h).node_new p n (node_of_returns h) with hold | ⟨-, -, hle⟩
  · rw [hold] at hnone
    cases hnone
  · exact hle

/-- A call returns the node that is registered, also after events that leave the path alone. -/
lemma returns_eq_of_node {w : World ρ} (hw : w.state.Wf) {p : RemotePath} {n n' : NodeId}
    (hnode : w.state.node p = some n) {fs : List (Event ρ)}
    (hfs : AllSteps (step R) (Undisturbed R p) w fs) {call : Call}
    (h : Returns R (run (step R) w fs) p n' call) : n' = n := by
  obtain ⟨hwf, hold⟩ := invariant node_undisturbed ⟨hw, hnode⟩ hfs
  have hnew := node_of_returns h
  rw [(registers_of_returns hwf h).node_old p n hold] at hnew
  exact (Option.some.inj hnew).symm

/-- The root has its node, and every node a path of the mount. -/
structure Rooted (w : World ρ) : Prop where
  wf : w.state.Wf
  under : NodesUnderRoot w
  path : w.state.path .root = some w.config.root
  node : w.state.node w.config.root = some .root

lemma rooted_new (config : Config) (disk : Disk) (conn : Conn ρ) :
    Rooted (World.new config disk conn) where
  wf := State.wf_new config.root
  under := nodesUnderRoot_new config disk conn
  path := AList.lookup_insert _
  node := AList.lookup_insert _

/-- A child of a path of the mount is not the root. -/
lemma ne_root_of_hasChild {w : World ρ} (h : NodesUnderRoot w) {p : RemotePath}
    (hp : w.state.HasChild p) : p ≠ w.config.root := by
  obtain ⟨n, q, name, hq, hjoin⟩ := hp
  obtain ⟨hvalid, hkey⟩ := RemotePath.join_ok_iff.mp hjoin
  rintro rfl
  exact (h n q hq).childKey_ne_root hvalid hkey.symm

lemma ne_root_of_renames {w : World ρ} (h : NodesUnderRoot w) {src dst : RemotePath}
    {e : Event ρ} (hren : Renames R w src dst e) :
    src ≠ w.config.root ∧ dst ≠ w.config.root := by
  cases e with
  | call call =>
      cases call with
      | rename parent name newParent newName =>
          obtain ⟨⟨srcParent, dstParent, hres⟩, -⟩ := hren
          obtain ⟨hsrcParent, hdstParent, hsrc, hdst⟩ := resolveRename_ok hres
          exact ⟨ne_root_of_hasChild h ⟨_, _, _, hsrcParent, hsrc⟩,
            ne_root_of_hasChild h ⟨_, _, _, hdstParent, hdst⟩⟩
      | _ => exact absurd hren id
  | _ => exact absurd hren id

lemma rooted_outcome {w w' : World ρ} {call : Call} (h : Outcome R w call w') (hr : Rooted w) :
    Rooted w' := by
  have hconfig := (grows_outcome h).2
  refine ⟨wf_outcome h hr.wf, nodesUnderRoot_outcome h hr.under, ?_, ?_⟩
  · rw [hconfig]
    rcases registry_outcome h hr.wf with hreg | ⟨src, dst, hren, hmoved⟩
    · rw [hreg.path_old .root (hr.wf.path_lt _ _ hr.path)]
      exact hr.path
    · have hsrc := (ne_root_of_renames hr.under hren).1
      rw [hmoved.path, if_neg]
      · exact hr.path
      · -- the node of the source has the source's path
        intro hroot
        have hpath := hr.wf.node_path src .root hroot
        rw [hr.path] at hpath
        exact hsrc (Option.some.inj hpath).symm
  · rw [hconfig]
    rcases registry_outcome h hr.wf with hreg | ⟨src, dst, hren, hmoved⟩
    · exact hreg.node_old _ _ hr.node
    · obtain ⟨hsrc, hdst⟩ := ne_root_of_renames hr.under hren
      rw [hmoved.node, if_neg hdst.symm, if_neg hsrc.symm]
      exact hr.node

lemma rooted_step (w : World ρ) (e : Event ρ) (hr : Rooted w) : Rooted (w.step R e) := by
  cases e with
  | call call => exact rooted_outcome (outcome_exec R w call) hr
  | tick d => exact ⟨hr.wf, hr.under, hr.path, hr.node⟩
  | external remote => exact ⟨hr.wf, hr.under, hr.path, hr.node⟩
  | restart config => exact rooted_new config w.store.disk w.conn

/-- Every state of every run is rooted. -/
lemma rooted_visits {config : Config} {disk : Disk} {conn : Conn ρ} {es : List (Event ρ)}
    {w : World ρ} (h : Visits (step R) (World.new config disk conn) es w) : Rooted w :=
  visits_of_step rooted_step (rooted_new config disk conn) h

/-- **Node identity is stable and never reused.**  In every state of every run the root's node
has the root's path, and a node that is made is not the root's.  A node that a call returns for
a path is the node that every later call of the session returns for it, as long as nothing is
renamed from or to the path; and it is given to no other path, neither by a later call nor by
the same one. -/
theorem node_identity_stable (config : Config) (disk : Disk) (conn : Conn ρ)
    (es : List (Event ρ)) (w : World ρ) (hw : Visits (step R) (World.new config disk conn) es w) :
    w.state.path .root = some w.config.root ∧
    ∀ p n call, Returns R w p n call →
      (w.state.node p = none → n ≠ .root) ∧
      (∀ fs, AllSteps (step R) (Undisturbed R p) (w.exec R call) fs →
        ∀ n' call', Returns R (run (step R) (w.exec R call) fs) p n' call' → n' = n) ∧
      (∀ fs, (∀ e ∈ fs, InSession e) →
        ∀ q n' call', Returns R (run (step R) (w.exec R call) fs) q n' call' →
          (run (step R) (w.exec R call) fs).state.node q = none → n' ≠ n) ∧
      ∀ q, Returns R w q n call → q = p := by
  have hr := rooted_visits hw
  refine ⟨hr.path, fun p n call hret => ?_⟩
  have hwf := wf_outcome (outcome_exec R w call) hr.wf
  have hnode := node_of_returns hret
  refine ⟨fun hnone => ?_, fun fs hfs n' call' hret' => ?_, fun fs hfs q n' call' hret' hnone => ?_,
    fun q hq => ?_⟩
  · rintro rfl
    have hle := fresh_of_returns hr.wf hret hnone
    exact absurd (hr.wf.path_lt _ _ hr.path) (not_lt.mpr hle)
  · exact returns_eq_of_node hwf hnode hfs hret'
  · rintro rfl
    obtain ⟨hwf', hlt⟩ := invariant issued_step ⟨hwf, issued_of_node hwf hnode⟩
      (allSteps_of_forall hfs)
    exact absurd hlt (not_lt.mpr (fresh_of_returns hwf' hret' hnone))
  · have hq' := hwf.node_path q n (node_of_returns hq)
    rw [hwf.node_path p n hnode] at hq'
    exact (Option.some.inj hq').symm

/-- The node of `/a` survives the deletion of the file and is that of the next file there. -/
theorem node_identity_stable_recreate :
    Returns Memory.filesystem (run (step Memory.filesystem) (mount sampleTree 5)
        [.call (.lookup .root ['a']), .call (.unlink .root ['a'])])
      pathA ⟨2⟩ (.create .root ['a'] 0 {}) ∧
    ∀ n' call', Returns Memory.filesystem (run (step Memory.filesystem) (mount sampleTree 5)
      [.call (.lookup .root ['a']), .call (.unlink .root ['a'])]) pathA n' call' → n' = ⟨2⟩ := by
  refine ⟨⟨⟨.root, by rfl⟩, _, by rfl, by rfl⟩, ?_⟩
  have hlookup : Returns Memory.filesystem (mount sampleTree 5) pathA ⟨2⟩
      (.lookup .root ['a']) := ⟨by rfl, _, by rfl, by rfl⟩
  have hstable := node_identity_stable (R := Memory.filesystem) _ _ _ [] (mount sampleTree 5)
    (visits_nil.mpr rfl)
  exact (hstable.2 pathA ⟨2⟩ _ hlookup).2.1 [.call (.unlink .root ['a'])]
    ⟨⟨trivial, fun _ _ h => absurd h id⟩, trivial⟩

/-! ## One node for a path -/

/-- No two nodes have one path, and the two maps are inverse to each other. -/
structure OneNode (st : State) : Prop where
  injective : ∀ m n p, st.path m = some p → st.path n = some p → m = n
  path_node : ∀ p n q, st.node p = some n → st.path n = some q → q = p
  node_path : ∀ n p m, st.path n = some p → st.node p = some m → m = n

/-- Every node is the one registered for its path. -/
def AllRegistered (st : State) : Prop := ∀ n p, st.path n = some p → st.node p = some n

lemma AllRegistered.oneNode {st : State} (h : AllRegistered st) (hw : st.Wf) : OneNode st where
  injective m n p hm hn := by
    have hnode := h m p hm
    rw [h n p hn] at hnode
    exact (Option.some.inj hnode).symm
  path_node p n q hp hq := by
    rw [hw.node_path p n hp] at hq
    exact (Option.some.inj hq).symm
  node_path n p m hp hm := by
    rw [h n p hp] at hm
    exact (Option.some.inj hm).symm

/-- A successful rename of a path that has a node finds no other node at its target. -/
def FreeTarget (R : RemoteFilesystem ρ) (w : World ρ) (e : Event ρ) : Prop :=
  ∀ src dst, Renames R w src dst e → ∀ n m, w.state.node src = some n →
    w.state.path m = some dst → m = n

lemma allRegistered_new (root : RemotePath) : AllRegistered (State.new root) := by
  intro n p hp
  simp only [State.path, State.new, FMap.lookup_insert_eq_ite] at hp
  split at hp
  · next hn =>
      cases hp
      rw [hn]
      exact AList.lookup_insert _
  · cases hp

lemma allRegistered_step (w : World ρ) (e : Event ρ) (hfree : FreeTarget R w e)
    (h : w.state.Wf ∧ AllRegistered w.state) :
    (w.step R e).state.Wf ∧ AllRegistered (w.step R e).state := by
  refine ⟨wf_step w e h.1, ?_⟩
  by_cases hs : InSession e
  · rcases registry_step w hs h.1 with hreg | ⟨src, dst, hren, hmoved⟩
    · intro n p hp
      rcases lt_or_ge n.val w.state.nextNode with hlt | hge
      · rw [hreg.path_old n hlt] at hp
        exact hreg.node_old p n (h.2 n p hp)
      · exact hreg.path_new n p hp hge
    · intro n p hp
      rw [hmoved.path] at hp
      rw [hmoved.node]
      split at hp
      · next hsrc =>
          cases hp
          rw [if_pos rfl, hsrc]
          rfl
      · next hsrc =>
          have hold := h.2 n p hp
          split
          · next hdst =>
              -- another node at the target: the source has none to move
              rw [hdst] at hold
              cases hnode : w.state.node src with
              | none => exact hold
              | some m =>
                  have heq := hfree src dst hren m n hnode (hdst ▸ hp)
                  rw [heq] at hsrc
                  exact absurd hnode hsrc
          · split
            · next heq =>
                rw [heq] at hold
                exact absurd hold hsrc
            · exact hold
  · cases e with
    | restart config => exact allRegistered_new config.root
    | _ => exact absurd trivial hs

/-- A rename onto a path that has another node leaves two nodes there. -/
lemma freeTarget_of_injective {w : World ρ} {e : Event ρ}
    (h : OneNode (w.step R e).state) : FreeTarget R w e := by
  intro src dst hren n m hn hm
  have hmoved := moved_of_renames hren
  by_contra hne
  have hpath : (w.step R e).state.path m = some dst := by
    rw [hmoved.path, if_neg, hm]
    rw [hn]
    exact fun heq => hne (Option.some.inj heq).symm
  have hnode : (w.step R e).state.path n = some dst := by rw [hmoved.path, if_pos hn]
  exact hne (h.injective m n dst hpath hnode)

/-- **Two nodes have one path exactly in the runs that rename onto a known path.**  In every
state of a run the nodes have different paths, and the two maps between paths and nodes are
inverse to each other, if and only if no rename of the run moves a node to a path that another
node has. -/
theorem nodes_injective_iff (config : Config) (disk : Disk) (conn : Conn ρ)
    (es : List (Event ρ)) :
    (∀ w, Visits (step R) (World.new config disk conn) es w → OneNode w.state) ↔
      AllSteps (step R) (FreeTarget R) (World.new config disk conn) es := by
  constructor
  · generalize World.new config disk conn = w₀
    induction es generalizing w₀ with
    | nil => exact fun _ => trivial
    | cons e es ih =>
        intro hall
        have hnext : ∀ w, Visits (step R) (w₀.step R e) es w → OneNode w.state :=
          fun w hw => hall w (visits_cons.mpr (.inr hw))
        exact ⟨freeTarget_of_injective (hnext _ ⟨[], List.nil_prefix, rfl⟩), ih _ hnext⟩
  · intro hfree w hw
    have hinv := visits_invariant allRegistered_step
      ⟨State.wf_new config.root, allRegistered_new config.root⟩ hfree hw
    exact hinv.2.oneNode hinv.1

/-- After `/a` has been renamed to `/b`, the node that `/b` had still has this path, beside the
node of `/a`. -/
theorem rename_leaves_two_nodes :
    ¬ OneNode (run (step Memory.filesystem) (mount sampleTree 5)
      [.call (.lookup .root ['a']), .call (.create .root ['b'] 0 {}),
        .call (.rename .root ['a'] .root ['b'])]).state := by
  intro h
  exact absurd (h.injective ⟨2⟩ ⟨3⟩ pathB (by decide) (by decide)) (by decide)

/-! ## What lies in a renamed directory -/

/-- The node that had the path `src` followed by `rest` has `dst` followed by `rest`, and every
later lookup of that path returns the node, as long as the path is not renamed again. -/
def KeepsTree (R : RemoteFilesystem ρ) (src dst : RemotePath) (w w' : World ρ) : Prop :=
  ∀ n p rest, w.state.path n = some p → p.asStr = src.asStr ++ rest →
    (rest = [] ∨ rest.head? = some '/') →
    ∃ q : RemotePath, q.asStr = dst.asStr ++ rest ∧ w'.state.path n = some q ∧
      ∀ fs, AllSteps (step R) (Undisturbed R q) w' fs → ∀ m parent name,
        Returns R (run (step R) w' fs) q m (.lookup parent name) → m = n

/-- A successful rename keeps the identity of everything at and below its source. -/
def RenameKeepsTree (R : RemoteFilesystem ρ) (w : World ρ) (e : Event ρ) : Prop :=
  ∀ src dst, Renames R w src dst e → KeepsTree R src dst w (w.step R e)

/-- The only node at or below `src` is the one registered for it.  For a rename to itself: the
nodes there are the registered ones. -/
def LoneSource (src dst : RemotePath) (st : State) : Prop :=
  ∀ n p rest, st.path n = some p → p.asStr = src.asStr ++ rest →
    (rest = [] ∨ rest.head? = some '/') → st.node p = some n ∧ (p = src ∨ src = dst)

/-- Every successful rename finds a lone source. -/
def RenamesLone (R : RemoteFilesystem ρ) (w : World ρ) (e : Event ρ) : Prop :=
  ∀ src dst, Renames R w src dst e → LoneSource src dst w.state

lemma renameKeepsTree_of_lone {w : World ρ} {e : Event ρ} (hw : w.state.Wf)
    (hlone : RenamesLone R w e) : RenameKeepsTree R w e := by
  intro src dst hren n p rest hp hkey hrest
  have hmoved := moved_of_renames hren
  obtain ⟨hnode, hcase⟩ := hlone src dst hren n p rest hp hkey hrest
  have hwf' := wf_step (R := R) w e hw
  rcases hcase with rfl | rfl
  · -- the source itself
    have hnil : rest = [] := by simpa using hkey
    have hnode' : (w.step R e).state.node dst = some n := by
      rw [hmoved.node, if_pos rfl, hnode]
      rfl
    refine ⟨dst, by rw [hnil, List.append_nil], hwf'.node_path dst n hnode', ?_⟩
    exact fun fs hfs m parent name hret => returns_eq_of_node hwf' hnode' hfs hret
  · -- nothing has moved
    have hnode' : (w.step R e).state.node p = some n := by
      rw [hmoved.node]
      split
      · next heq =>
          rw [← heq, hnode]
          rfl
      · exact hnode
    refine ⟨p, hkey, hwf'.node_path p n hnode', ?_⟩
    exact fun fs hfs m parent name hret => returns_eq_of_node hwf' hnode' hfs hret

lemma lone_of_renameKeepsTree {w : World ρ} {e : Event ρ} (hw : w.state.Wf)
    (hkeeps : RenameKeepsTree R w e) {src dst : RemotePath} (hren : Renames R w src dst e)
    (hne : src ≠ dst) : LoneSource src dst w.state := by
  intro n p rest hp hkey hrest
  obtain ⟨q, hq, hpath, -⟩ := hkeeps src dst hren n p rest hp hkey hrest
  rw [(moved_of_renames hren).path] at hpath
  split at hpath
  · next hnode =>
      have hsrc := hw.node_path src n hnode
      rw [hp] at hsrc
      cases hsrc
      exact ⟨hnode, .inl rfl⟩
  · -- a node that stays where it is would need `src` and `dst` to be one path
    rw [hp] at hpath
    cases hpath
    exact absurd (RemotePath.ext (List.append_cancel_right (hkey.symm.trans hq))) hne

/-- **Identity below a renamed directory.**  In a run in which every successful rename finds a
lone source, every rename keeps the identity of everything at and below its source.  The
condition is needed: a rename to another path that keeps the identity of everything at and
below its source finds a lone source. -/
theorem renames_keep_tree (config : Config) (disk : Disk) (conn : Conn ρ)
    (es : List (Event ρ)) :
    (AllSteps (step R) (RenamesLone R) (World.new config disk conn) es →
      AllSteps (step R) (RenameKeepsTree R) (World.new config disk conn) es) ∧
    (AllSteps (step R) (RenameKeepsTree R) (World.new config disk conn) es →
      AllSteps (step R) (fun w e => ∀ src dst, Renames R w src dst e → src ≠ dst →
        LoneSource src dst w.state) (World.new config disk conn) es) := by
  have hstart : (World.new config disk conn).state.Wf := State.wf_new config.root
  constructor
  · exact allSteps_of_invariant (fun w e _ hw => wf_step w e hw)
      (fun w e hlone hw => renameKeepsTree_of_lone hw hlone) hstart
  · exact allSteps_of_invariant (fun w e _ hw => wf_step w e hw)
      (fun w e hkeeps hw src dst hren hne => lone_of_renameKeepsTree hw hkeeps hren hne) hstart

/-- After the directory `/d` has been renamed to `/e`, the node of `/d/x` still has the path
`/d/x`. -/
theorem rename_leaves_descendant :
    ¬ RenameKeepsTree Memory.filesystem (run (step Memory.filesystem) (mount .empty 5)
        [.call (.mkdir .root ['d'] 0), .call (.create ⟨2⟩ ['x'] 0 {})])
      (.call (.rename .root ['d'] .root ['e'])) := by
  intro h
  have hren := h ⟨['/', 'd'], by decide⟩ ⟨['/', 'e'], by decide⟩
    ⟨⟨.root, .root, by rfl⟩, by rfl⟩
  obtain ⟨q, hq, hpath, -⟩ := hren ⟨3⟩ ⟨['/', 'd', '/', 'x'], by decide⟩ ['/', 'x'] (by decide)
    (by decide) (by decide)
  have hstays : ((run (step Memory.filesystem) (mount .empty 5)
      [.call (.mkdir .root ['d'] 0), .call (.create ⟨2⟩ ['x'] 0 {})]).step Memory.filesystem
      (.call (.rename .root ['d'] .root ['e']))).state.path ⟨3⟩ =
        some ⟨['/', 'd', '/', 'x'], by decide⟩ := by decide
  rw [hstays] at hpath
  cases hpath
  exact absurd hq (by decide)

end World

end CacheShfs
