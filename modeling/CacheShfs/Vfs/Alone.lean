import CacheShfs.Vfs.Together

/-!
# One call at a time

A sequential call is a task that runs alone (`runs_exec`): its steps, taken one after the other,
lead to the answer and to the world of the call.  A sequential run of a mount is therefore one of
the interleavings of a session (`sequential_session`), and what every step keeps holds of sequential
runs too; here this is carried over for the registry and for the handle table.
-/

namespace CacheShfs

open Interleave Machine

variable {ρ : Type} {R : RemoteFilesystem ρ}

/-- The task of a call. -/
def Call.task : Call → SessionPc
  | .lookup parent name => .call (.lookup parent name)
  | .getattr node => .call (.getattr node)
  | .readdir node => .tree (.readdir node)
  | .openFile node flags => .tree (.openFile node flags)
  | .read handle offset size => .call (.read handle offset size)
  | .write handle offset data => .call (.write handle offset data)
  | .flush handle => .tree (.flush handle)
  | .release handle => .tree (.release handle)
  | .create parent name mode flags => .tree (.create parent name mode flags)
  | .mkdir parent name mode => .tree (.mkdir parent name mode)
  | .unlink parent name => .call (.unlink parent name)
  | .rmdir parent name => .tree (.rmdir parent name)
  | .rename parent name newParent newName => .tree (.rename parent name newParent newName)
  | .setattr node attributes => .tree (.setattr node attributes)

/-- The task of a call, once it has returned what the sequential call answers. -/
def World.returned (R : RemoteFilesystem ρ) (w : World ρ) : Call → SessionPc
  | .lookup parent name => .call (.done (.metadata (w.lookup R parent name).1))
  | .getattr node => .call (.done (.metadata (w.getattr R node).1))
  | .readdir node => .tree (.done (.entries (w.readdir R node).1))
  | .openFile node flags => .tree (.done (.opened (w.openFile R node flags).1))
  | .read handle offset size => .call (.done (.data (w.read R handle offset size).1))
  | .write handle offset data => .call (.done (.written (w.write R handle offset data).1))
  | .flush handle => .tree (.done (.done (w.flush handle).1))
  | .release handle => .tree (.done (.done (w.release handle).1))
  | .create parent name mode flags =>
      .tree (.done (.created (w.create R parent name mode flags).1))
  | .mkdir parent name mode => .tree (.done (.metadata (w.mkdir R parent name mode).1))
  | .unlink parent name => .call (.done (.done (w.unlink R parent name).1))
  | .rmdir parent name => .tree (.done (.done (w.rmdir R parent name).1))
  | .rename parent name newParent newName =>
      .tree (.done (.done (w.rename R parent name newParent newName).1))
  | .setattr node attributes => .tree (.done (.metadata (w.setattr R node attributes).1))

lemma Call.task_begins (call : Call) : call.task.Begins := by
  cases call <;> trivial

namespace SessionPc

/-- Some steps of a call lead from one place to another. -/
def Runs (R : RemoteFilesystem ρ) : SessionPc × World ρ → SessionPc × World ρ → Prop :=
  Relation.ReflTransGen fun x y => y = x.1.next R x.2

lemma runs_call {pc pc' : CallPc} {w w' : World ρ} (h : CallPc.Runs R (pc, w) (pc', w')) :
    Runs R (.call pc, w) (.call pc', w') := by
  let lift (x : CallPc × World ρ) : SessionPc × World ρ := (.call x.1, x.2)
  have hstep : ∀ x y, y = x.1.next R x.2 → lift y = (lift x).1.next R (lift x).2 := by
    rintro x y rfl
    rfl
  exact Relation.ReflTransGen.lift lift hstep _ _ h

lemma runs_tree {pc pc' : TreePc} {w w' : World ρ} (h : TreePc.Runs R (pc, w) (pc', w')) :
    Runs R (.tree pc, w) (.tree pc', w') := by
  let lift (x : TreePc × World ρ) : SessionPc × World ρ := (.tree x.1, x.2)
  have hstep : ∀ x y, y = x.1.next R x.2 → lift y = (lift x).1.next R (lift x).2 := by
    rintro x y rfl
    rfl
  exact Relation.ReflTransGen.lift lift hstep _ _ h

/-- What every step keeps, a call keeps. -/
lemma Runs.induction {P : SessionPc → World ρ → Prop}
    (hstep : ∀ {pc pc' w w'}, Steps R w pc pc' w' → P pc w → P pc' w')
    {x y : SessionPc × World ρ} (h : Runs R x y) (hx : P x.1 x.2) : P y.1 y.2 := by
  induction h with
  | refl => exact hx
  | @tail y z _ hyz ih =>
      subst hyz
      exact hstep (steps_next R y.2 y.1) ih

end SessionPc

/-- A call is a task that runs alone: the steps of the task, with none of another one between them,
lead to what the sequential call answers and to the world that it leaves. -/
lemma World.runs_exec (R : RemoteFilesystem ρ) (w : World ρ) (call : Call) :
    SessionPc.Runs R (call.task, w) (w.returned R call, w.exec R call) := by
  cases call with
  | lookup parent name => exact SessionPc.runs_call (CallPc.runs_lookup w parent name)
  | getattr node => exact SessionPc.runs_call (CallPc.runs_getattr w node)
  | readdir node => exact SessionPc.runs_tree (TreePc.runs_readdir w node)
  | openFile node flags => exact SessionPc.runs_tree (TreePc.runs_openFile w node flags)
  | read handle offset size => exact SessionPc.runs_call (CallPc.runs_read w handle offset size)
  | write handle offset data => exact SessionPc.runs_call (CallPc.runs_write w handle offset data)
  | flush handle => exact .single rfl
  | release handle => exact SessionPc.runs_tree (TreePc.runs_release w handle)
  | create parent name mode flags =>
      exact SessionPc.runs_tree (TreePc.runs_create w parent name mode flags)
  | mkdir parent name mode => exact SessionPc.runs_tree (TreePc.runs_mkdir w parent name mode)
  | unlink parent name => exact SessionPc.runs_call (CallPc.runs_unlink w parent name)
  | rmdir parent name => exact SessionPc.runs_tree (TreePc.runs_rmdir w parent name)
  | rename parent name newParent newName =>
      exact SessionPc.runs_tree (TreePc.runs_rename w parent name newParent newName)
  | setattr node attributes => exact SessionPc.runs_tree (TreePc.runs_setattr w node attributes)

/-! ## Sequential runs -/

namespace Session

/-- The task of an event: that of a call, or one that never gets a turn. -/
def taskOf : Event ρ → SessionPc
  | .call call => call.task
  | _ => .tree (.flush ⟨0⟩)

/-- A session that has gone through the first `n` events of a sequential run: the world is that of
the run, the calls among these events have returned what the run answered, and the others wait. -/
structure WentThrough (R : RemoteFilesystem ρ) (w : World ρ) (events : ℕ → Event ρ) (n : ℕ)
    (x : Session ℕ ρ) : Prop where
  shared : x.shared = run (World.step R) w ((List.range n).map events)
  returned : ∀ i < n, ∀ call, events i = .call call →
    x.tasks i = (run (World.step R) w ((List.range i).map events)).returned R call
  waits : ∀ i ≥ n, x.tasks i = taskOf (events i)

namespace WentThrough

variable {w : World ρ} {events : ℕ → Event ρ} {n : ℕ} {x : Session ℕ ρ}

lemma run_succ (hx : WentThrough R w events n x) :
    run (World.step R) w ((List.range (n + 1)).map events) = World.step R x.shared (events n) := by
  rw [List.range_succ, List.map_append, run_append, hx.shared]
  rfl

/-- What lies beside the calls is one move. -/
lemma beside (hx : WentThrough R w events n x) {e : Beside ρ}
    (hact : World.step R x.shared (events n) = e.act x.shared)
    (hcall : ∀ call, events n ≠ .call call) :
    WentThrough R w events (n + 1) (after R x [.env e]) where
  shared := by
    rw [hx.run_succ, hact]
    rfl
  returned i hi call hc := by
    rcases Nat.lt_succ_iff_lt_or_eq.mp hi with hlt | rfl
    · exact hx.returned i hlt call hc
    · exact absurd hc (hcall call)
  waits i hi := hx.waits i (Nat.le_of_succ_le hi)

/-- A call has all its turns, and the others none. -/
lemma call (hx : WentThrough R w events n x) {call : Call} (hevent : events n = .call call) :
    ∃ ms : List (Move ℕ (Beside ρ)), WentThrough R w events (n + 1) (after R x ms) := by
  have hwait : x.tasks n = call.task := by
    rw [hx.waits n (le_refl n), hevent]
    rfl
  obtain ⟨ms, hms⟩ := Pool.exists_turns_alone
    (f := fun pc w => SessionPc.next R w pc) (g := fun e w => Beside.act w e)
    (World.runs_exec R x.shared call) hwait rfl
  have hafter : after R x ms = ⟨Function.update x.tasks n (x.shared.returned R call),
      x.shared.exec R call⟩ := hms
  refine ⟨ms, ?_, fun i hi c hc => ?_, fun i hi => ?_⟩
  · rw [hx.run_succ, hevent, hafter]
    rfl
  · rw [hafter]
    rcases Nat.lt_succ_iff_lt_or_eq.mp hi with hlt | rfl
    · exact (Function.update_of_ne hlt.ne _ _).trans (hx.returned i hlt c hc)
    · rw [hevent] at hc
      injection hc with hc
      subst hc
      rw [← hx.shared]
      exact Function.update_self _ _ _
  · rw [hafter]
    exact (Function.update_of_ne (by omega) _ _).trans (hx.waits i (Nat.le_of_succ_le hi))

end WentThrough

/-- **Every sequential run of a mount is one of the interleavings of a session**: where each call
has all its turns one after the other, the session goes through the worlds of the run, and each task
ends with what the sequential call answers. -/
theorem sequential_session (R : RemoteFilesystem ρ) (w : World ρ) (events : ℕ → Event ρ)
    (hevents : ∀ i, World.InSession (events i)) (n : ℕ) :
    ∃ ms : List (Move ℕ (Beside ρ)),
      WentThrough R w events n (after R ⟨fun i => taskOf (events i), w⟩ ms) := by
  induction n with
  | zero => exact ⟨[], rfl, fun i hi => absurd hi (Nat.not_lt_zero i), fun _ _ => rfl⟩
  | succ n ih =>
      obtain ⟨ms, hx⟩ := ih
      suffices hnext : ∃ ms' : List (Move ℕ (Beside ρ)), WentThrough R w events (n + 1)
          (after R (after R ⟨fun i => taskOf (events i), w⟩ ms) ms') by
        obtain ⟨ms', hx'⟩ := hnext
        refine ⟨ms ++ ms', ?_⟩
        rw [after, run_append]
        exact hx'
      cases hevent : events n with
      | call call => exact hx.call hevent
      | tick d => exact ⟨_, hx.beside (e := .tick d) (by rw [hevent]; rfl) (by simp [hevent])⟩
      | external remote =>
          exact ⟨_, hx.beside (e := .external remote) (by rw [hevent]; rfl) (by simp [hevent])⟩
      | restart config => exact absurd (hevents n) (by rw [hevent]; exact id)

/-- A name is looked up, time passes, and the directory is listed. -/
def sampleEvents : ℕ → Event Memory
  | 0 => .call (.lookup NodeId.root ['f'])
  | 1 => .tick 7
  | _ => .call (.readdir NodeId.root)

theorem sequential_session_example :
    ∃ ms : List (Move ℕ (Beside Memory)),
      (after Memory.filesystem ⟨fun i => taskOf (sampleEvents i), sampleMount⟩ ms).shared =
        ((sampleMount.exec Memory.filesystem (.lookup NodeId.root ['f'])).step Memory.filesystem
          (.tick 7)).exec Memory.filesystem (.readdir NodeId.root) := by
  have hevents : ∀ i, World.InSession (sampleEvents i)
    | 0 => trivial
    | 1 => trivial
    | _ + 2 => trivial
  obtain ⟨ms, hms⟩ := sequential_session Memory.filesystem sampleMount sampleEvents hevents 3
  exact ⟨ms, hms.shared⟩

end Session

namespace World

variable {w : World ρ}

/-- What a call knows at its end: the nodes that it has answered, and those of before. -/
structure Informed (start : State) (pc : SessionPc) (w : World ρ) : Prop where
  wf : w.state.Wf
  handles : w.state.HandlesKnown
  nodes : w.state.Knows pc.nodes
  known : ∀ n, (start.path n).isSome → (w.state.path n).isSome

lemma Informed.step {start : State} {pc pc' : SessionPc} {w w' : World ρ}
    (hsteps : SessionPc.Steps R w pc pc' w') (h : Informed start pc w) :
    Informed start pc' w' := by
  have hsection := Session.section_of_steps hsteps h.wf h.nodes
  exact ⟨hsection.wf h.wf, hsection.handlesKnown h.wf h.handles,
    Session.knows_of_steps hsteps h.wf h.nodes, fun n hn => hsection.known h.wf (h.known n hn)⟩

/-- What is known when a call begins. -/
lemma informed_task (hw : Session.RegistryOk w.state) (call : Call) :
    Informed w.state call.task w := by
  refine ⟨hw.wf, hw.handles, ?_, fun _ hn => hn⟩
  rw [Session.nodes_of_begins call.task_begins]
  exact .nil

/-- The registry after a call. -/
lemma informed_exec (hw : Session.RegistryOk w.state) (call : Call) :
    Informed w.state (w.returned R call) (w.exec R call) :=
  SessionPc.Runs.induction (fun hsteps h => Informed.step hsteps h) (runs_exec R w call)
    (informed_task hw call)

/-- The handle table after a call that is no release: it is as it was, or has the handle that the
call answers, open on the node of the call. -/
inductive TableAfter (start : State) (call pc : SessionPc) (st : State) : Prop
  | same (hpc : Session.issued pc = none) (hnext : st.nextHandle = start.nextHandle)
      (hfile : ∀ g, st.file g = start.file g)
  | issued (hpc : Session.issued pc = some ⟨start.nextHandle⟩)
      (hnext : st.nextHandle = start.nextHandle + 1) (f : OpenFile)
      (hnode : Session.openedNode call pc = some f.node)
      (hfile : ∀ g, st.file g = if g = ⟨start.nextHandle⟩ then some f else start.file g)

lemma TableAfter.step {start : State} {call pc pc' : SessionPc} {v v' : World ρ}
    (hsteps : SessionPc.Steps R v pc pc' v') (hw : v.state.Wf) (hn : v.state.Knows pc.nodes)
    (hcall : ∀ n, Session.opening pc = some n → Session.opening call = some n)
    (hpc : ∀ h, pc ≠ .tree (.release h)) (ht : TableAfter start call pc v.state) :
    TableAfter start call pc' v'.state := by
  cases Session.handleStep_of_steps hsteps hw hn with
  | quiet hsame _ hnext hfile =>
      cases ht with
      | same hpc' hnext' hfile' =>
          exact .same (hsame.trans hpc') (hnext.trans hnext') fun g => (hfile g).trans (hfile' g)
      | issued hpc' hnext' f hnode hfile' =>
          obtain rfl := Session.done_of_issued hsteps hpc'
          exact .issued hpc' (hnext.trans hnext') f hnode fun g => (hfile g).trans (hfile' g)
  | issue hnone hsome hnext f hnode hfile =>
      cases ht with
      | same hpc' hnext' hfile' =>
          rw [hnext'] at hsome hnext hfile
          exact .issued hsome hnext f (Session.openedNode_of_opening hcall hnode)
            fun g => by rw [hfile, hfile']
      | issued hpc' _ _ _ _ =>
          rw [hnone] at hpc'
          cases hpc'
  | release h _ _ _ => exact absurd rfl (hpc h)

/-- The handle table after a call that is no release. -/
lemma table_exec (hw : Session.RegistryOk w.state) {call : Call} (hcall : ∀ h, call ≠ .release h) :
    TableAfter w.state call.task (w.returned R call) (w.exec R call).state := by
  have hkeeps : ∀ {pc pc' : SessionPc} {v v' : World ρ}, SessionPc.Steps R v pc pc' v' →
      Informed w.state pc v ∧ (∀ h, pc ≠ .tree (.release h)) ∧
        (∀ n, Session.opening pc = some n → Session.opening call.task = some n) ∧
        TableAfter w.state call.task pc v.state →
      Informed w.state pc' v' ∧ (∀ h, pc' ≠ .tree (.release h)) ∧
        (∀ n, Session.opening pc' = some n → Session.opening call.task = some n) ∧
        TableAfter w.state call.task pc' v'.state := by
    rintro pc pc' v v' hsteps ⟨hi, hpc, hopening, ht⟩
    refine ⟨hi.step hsteps, fun h hpc' => ?_,
      fun n hn => hopening n (Session.opening_of_steps hsteps hn),
      ht.step hsteps hi.wf hi.nodes hopening hpc⟩
    cases Session.handleStep_of_steps hsteps hi.wf hi.nodes with
    | quiet _ hnew _ _ => exact hnew h hpc'
    | issue _ hsome _ _ _ _ =>
        rw [hpc'] at hsome
        cases hsome
    | release g _ _ _ => exact hpc g rfl
  have hends := SessionPc.Runs.induction hkeeps (runs_exec R w call)
    ⟨informed_task hw call, ?_, fun n hn => hn, ?_⟩
  · exact hends.2.2.2
  · intro h htask
    cases call with
    | release g => exact hcall g rfl
    | _ => cases htask
  · exact .same (Session.issued_of_begins call.task_begins) rfl fun _ => rfl

/-! ## Handles that are given out -/

/-- A handle that has not been given out is not open. -/
lemma next_closed (hw : w.state.Wf) : w.state.file ⟨w.state.nextHandle⟩ = none := by
  cases hfile : w.state.file ⟨w.state.nextHandle⟩ with
  | none => rfl
  | some file => exact absurd (hw.handle_lt _ file hfile) (lt_irrefl _)

/-- The handle that `open` answers is new, and stands for the path of the node. -/
lemma openFile_table (hw : w.state.Wf) {node : NodeId} {flags : OpenFlags} {handle : FileHandle}
    (hok : (w.openFile R node flags).1 = .ok handle) :
    ∃ path, w.state.path node = some path ∧ w.state.file handle = none ∧
      ∀ fh, (w.exec R (.openFile node flags)).state.file fh =
        if fh = handle then some ⟨node, path⟩ else w.state.file fh := by
  simp only [World.exec]
  unfold openFile at hok ⊢
  split at hok
  · cases hok
  · split at hok
    · cases hok
    · next path hpath =>
        refine ⟨path, State.pathOf_ok.mp hpath, ?_⟩
        split at hok
        · next htruncate =>
            rw [if_pos htruncate]
            split at hok
            · cases hok
            · cases hok
              exact ⟨next_closed hw, fun fh => State.file_openHandle _ _ _ _⟩
        · next htruncate =>
            rw [if_neg htruncate]
            cases hok
            exact ⟨next_closed hw, fun fh => State.file_openHandle _ _ _ _⟩

section Create

variable {parent : NodeId} {name : Str} {mode : UInt32} {flags : OpenFlags} {created : CreatedFile}

/-- What `create` leaves if it succeeds. -/
lemma create_eq (hok : (w.create R parent name mode flags).1 = .ok created) :
    ∃ parentPath path attributes conn, w.resolve parent name = .ok (parentPath, path) ∧
      w.conn.create R path mode = (.ok attributes, conn) ∧
      w.create R parent name mode flags =
        (let interned := ((w.state.stamp path conn.now).unnegate parent name).intern path
        let opened := interned.2.openHandle interned.1 path
        (.ok ⟨⟨interned.1, attributes⟩, opened.1⟩,
          { w with
            conn := conn
            store := (w.store.putAttrs path attributes).invalidateChildren parentPath
            state := opened.2 })) := by
  unfold create at hok ⊢
  split at hok
  · cases hok
  · next parentPath path hres =>
      split at hok
      · cases hok
      · next attributes conn hcreate =>
          exact ⟨parentPath, path, attributes, conn, hres, hcreate, rfl⟩

/-- The handle that `create` answers is new, and stands for the path of the name. -/
lemma create_table (hw : w.state.Wf) (hok : (w.create R parent name mode flags).1 = .ok created) :
    ∃ path, w.childPath parent name = .ok path ∧ w.state.file created.handle = none ∧
      ∀ fh, (w.exec R (.create parent name mode flags)).state.file fh =
        if fh = created.handle then some ⟨created.metadata.node, path⟩
        else w.state.file fh := by
  obtain ⟨parentPath, path, attributes, conn, hres, -, hend⟩ := create_eq hok
  refine ⟨path, childPath_ok.mpr ⟨parentPath, (resolve_ok hres).1, (resolve_ok hres).2⟩, ?_,
    fun fh => ?_⟩
  · rw [hend] at hok
    cases hok
    show w.state.file ⟨(((w.state.stamp path conn.now).unnegate parent name).intern
      path).2.nextHandle⟩ = none
    rw [State.nextHandle_intern]
    exact next_closed hw
  · rw [hend] at hok
    cases hok
    simp only [World.exec, hend, State.file_openHandle, State.file_intern]
    rfl

end Create

end World

end CacheShfs
