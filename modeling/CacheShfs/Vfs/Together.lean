import CacheShfs.Vfs.Session

/-!
# What calls of every kind keep together

A pool of calls of every kind, and what holds of it after any moves: the calls step in any order,
the clock advances, and others change the remote.

* `session_keeps_registry`: the registry stays well formed, and a node that a call has answered, or
  that an open handle refers to, has a path.
* `session_keeps_objects`: every recorded chunk has its own object file, and the index on disk has
  the entries of the index in memory.
* `session_handles`: no handle is given out twice, an open handle has been given out, and a handle
  that nobody releases stays open on its node.
-/

namespace CacheShfs

open Interleave Machine

variable {ρ : Type} {R : RemoteFilesystem ρ}

/-- Where a call of any kind is. -/
inductive SessionPc
  | call (pc : CallPc)
  | tree (pc : TreePc)

namespace SessionPc

/-- Where one step leads. -/
def next (R : RemoteFilesystem ρ) (w : World ρ) : SessionPc → SessionPc × World ρ
  | .call pc => (.call (pc.next R w).1, (pc.next R w).2)
  | .tree pc => (.tree (pc.next R w).1, (pc.next R w).2)

/-- What one step does. -/
inductive Steps (R : RemoteFilesystem ρ) (w : World ρ) : SessionPc → SessionPc → World ρ → Prop
  | call {pc pc' w'} (h : CallPc.Steps R w pc pc' w') : Steps R w (.call pc) (.call pc') w'
  | tree {pc pc' w'} (h : TreePc.Steps R w pc pc' w') : Steps R w (.tree pc) (.tree pc') w'

lemma steps_next (R : RemoteFilesystem ρ) (w : World ρ) (pc : SessionPc) :
    Steps R w pc (pc.next R w).1 (pc.next R w).2 := by
  cases pc with
  | call pc => exact .call (CallPc.steps_next R w pc)
  | tree pc => exact .tree (TreePc.steps_next R w pc)

/-- The nodes that a call has resolved, or has named in its answer. -/
def nodes : SessionPc → List NodeId
  | .call pc => pc.nodes
  | .tree pc => pc.nodes

/-- The object that a call has allocated and not yet recorded. -/
def owns : SessionPc → Option ℕ
  | .call pc => pc.owns
  | .tree _ => none

/-- What holds of the object that a call owns. -/
def Owned (s : Store) : SessionPc → Prop
  | .call pc => pc.Owned s
  | .tree _ => True

end SessionPc

/-- A call on the tree that has not begun. -/
def TreePc.Begins : TreePc → Prop
  | .readdir _ => True
  | .openFile _ _ => True
  | .release _ => True
  | .flush _ => True
  | .create _ _ _ _ => True
  | .mkdir _ _ _ => True
  | .rmdir _ _ => True
  | .rename _ _ _ _ => True
  | .setattr _ _ => True
  | _ => False

/-- A call that has not begun. -/
def SessionPc.Begins : SessionPc → Prop
  | .call pc => pc.Begins
  | .tree pc => pc.Begins

/-- What happens beside the calls: time passes, and others change the remote. -/
inductive Beside (ρ : Type)
  | tick (nanoseconds : ℕ)
  | external (remote : ρ)

/-- The world after something has happened beside the calls. -/
def Beside.act (w : World ρ) : Beside ρ → World ρ
  | .tick d => { w with conn := { w.conn with now := w.conn.now + d } }
  | .external remote => { w with conn := { w.conn with remote := remote } }

/-- A pool of calls of a session. -/
abbrev Session (ι ρ : Type) := Pool ι SessionPc (World ρ)

namespace Session

variable {ι : Type} [DecidableEq ι]

/-- One move of a session. -/
def step (R : RemoteFilesystem ρ) (x : Session ι ρ) (m : Move ι (Beside ρ)) : Session ι ρ :=
  Pool.step (fun pc w => SessionPc.next R w pc) (fun e w => Beside.act w e) x m

/-- The session after some moves. -/
abbrev after (R : RemoteFilesystem ρ) (x : Session ι ρ) (ms : List (Move ι (Beside ρ))) :
    Session ι ρ :=
  run (step R) x ms

/-- What is beside the calls leaves the store and the state alone. -/
lemma act_store (e : Beside ρ) (w : World ρ) : (e.act w).store = w.store := by
  cases e <;> rfl

lemma act_state (e : Beside ρ) (w : World ρ) : (e.act w).state = w.state := by
  cases e <;> rfl

/-! ## The registry -/

/-- The registry is well formed, and the nodes that its handles refer to have paths. -/
structure RegistryOk (st : State) : Prop where
  wf : st.Wf
  handles : st.HandlesKnown

lemma section_of_steps {w w' : World ρ} {pc pc' : SessionPc} (h : SessionPc.Steps R w pc pc' w')
    (hw : w.state.Wf) (hn : w.state.Knows pc.nodes) : Section w.state w'.state := by
  cases h with
  | call h => exact .notes (h.notes hn)
  | tree h => exact h.section hn hw

lemma knows_of_steps {w w' : World ρ} {pc pc' : SessionPc} (h : SessionPc.Steps R w pc pc' w')
    (hw : w.state.Wf) (hn : w.state.Knows pc.nodes) : w'.state.Knows pc'.nodes := by
  cases h with
  | call h => exact h.knows hw hn
  | tree h => exact h.knows hw hn

/-- **The registry invariant of a session.** -/
def Registered : Session ι ρ → Prop :=
  Outline (fun w => RegistryOk w.state) (fun _ pc w => w.state.Knows pc.nodes) fun _ _ => True

lemma Registered.step {x : Session ι ρ} (hx : Registered x) (m : Move ι (Beside ρ)) :
    Registered (step R x m) := by
  cases m with
  | env e =>
      refine Outline.step_env hx ?_ fun i => ?_
      · rw [act_state]
        exact hx.shared
      · rw [act_state]
        exact hx.task i
  | task i =>
      have hsteps := SessionPc.steps_next R x.shared (x.tasks i)
      have hsection := section_of_steps hsteps hx.shared.wf (hx.task i)
      apply Outline.step_task hx
      · exact ⟨hsection.wf hx.shared.wf, hsection.handlesKnown hx.shared.wf hx.shared.handles⟩
      · exact knows_of_steps hsteps hx.shared.wf (hx.task i)
      · exact fun j _ n hn => hsection.known hx.shared.wf (hx.task j n hn)
      · exact fun _ _ => ⟨trivial, trivial⟩

omit [DecidableEq ι] in
lemma nodes_of_begins {pc : SessionPc} (h : pc.Begins) : pc.nodes = [] := by
  cases pc with
  | call pc => cases pc <;> first | rfl | exact h.elim
  | tree pc => cases pc <;> first | rfl | exact h.elim

omit [DecidableEq ι] in
lemma registered_start {calls : ι → SessionPc} (hcalls : ∀ i, (calls i).Begins) {w : World ρ}
    (hw : RegistryOk w.state) : Registered ⟨calls, w⟩ where
  shared := hw
  task i := by
    rw [nodes_of_begins (hcalls i)]
    exact .nil
  apart _ _ _ := trivial

/-- **In any session of calls of every kind, whatever their interleaving**, the registry stays well
formed, and a node that has been answered, or that an open handle refers to, has a path: a later
call on it is not answered with an unknown node. -/
theorem session_keeps_registry (R : RemoteFilesystem ρ) {calls : ι → SessionPc}
    (hcalls : ∀ i, (calls i).Begins) {w : World ρ} (hw : RegistryOk w.state)
    (ms : List (Move ι (Beside ρ))) :
    (after R ⟨calls, w⟩ ms).shared.state.Wf ∧
      (∀ i, ∀ n ∈ ((after R ⟨calls, w⟩ ms).tasks i).nodes,
        ∃ p, (after R ⟨calls, w⟩ ms).shared.state.pathOf n = .ok p) ∧
      ∀ h f, (after R ⟨calls, w⟩ ms).shared.state.file h = some f →
        ∃ p, (after R ⟨calls, w⟩ ms).shared.state.pathOf f.node = .ok p := by
  have hend : Registered (after R ⟨calls, w⟩ ms) :=
    invariant_of_step (fun x m hx => hx.step m) (registered_start hcalls hw) ms
  have hpath : ∀ {st : State} {n : NodeId}, (st.path n).isSome → ∃ p, st.pathOf n = .ok p := by
    intro st n hn
    obtain ⟨p, hp⟩ := Option.isSome_iff_exists.mp hn
    exact ⟨p, State.pathOf_ok.mpr hp⟩
  exact ⟨hend.shared.wf, fun i n hn => hpath (hend.task i n hn),
    fun h f hf => hpath (hend.shared.handles h f hf)⟩

omit [DecidableEq ι] in
lemma registryOk_new (config : Config) (disk : Disk) (conn : Conn ρ) :
    RegistryOk (World.new config disk conn).state :=
  ⟨State.wf_new _, fun _ _ hf => nomatch hf⟩

/-! A file is created while the root is listed, and the file is written to through the handle. -/

/-- The calls of the sample session. -/
def sampleCalls : Fin 3 → SessionPc
  | 0 => .tree (.create NodeId.root ['c'] 0o644 { write := true })
  | 1 => .tree (.readdir NodeId.root)
  | 2 => .call (.write ⟨1⟩ 0 [7])

/-- The listing is asked for before the file is created, and recorded after it has been written. -/
def sampleMoves : List (Move (Fin 3) (Beside Memory)) :=
  List.replicate 3 (.task 1) ++ List.replicate 5 (.task 0) ++ [.env (.tick 7)] ++
    List.replicate 4 (.task 2) ++ List.replicate 3 (.task 1)

lemma sampleCalls_begin : ∀ i, (sampleCalls i).Begins
  | 0 => trivial
  | 1 => trivial
  | 2 => trivial

/-- The mount before the calls of the sample session. -/
def sampleMount : World Memory := World.mount World.sampleTree (5 * 10 ^ 9)

theorem session_keeps_registry_example :
    ⟨2⟩ ∈ ((after Memory.filesystem ⟨sampleCalls, sampleMount⟩ sampleMoves).tasks 0).nodes ∧
      ∃ p, (after Memory.filesystem ⟨sampleCalls, sampleMount⟩
        sampleMoves).shared.state.pathOf ⟨2⟩ = .ok p := by
  have hnode : ⟨2⟩ ∈
      ((after Memory.filesystem ⟨sampleCalls, sampleMount⟩ sampleMoves).tasks 0).nodes :=
    List.mem_singleton.mpr rfl
  have hkeeps := session_keeps_registry Memory.filesystem sampleCalls_begin
    (registryOk_new _ _ _ : RegistryOk sampleMount.state) sampleMoves
  exact ⟨hnode, hkeeps.2.1 0 ⟨2⟩ hnode⟩

/-! ## Objects -/

lemma respects_tree {G : Str → Label → ℕ → Bytes → Prop} {w w' : World ρ} {pc pc' : TreePc}
    (h : TreePc.Steps R w pc pc' w') (hs : w.store.Sound G) :
    Store.Respects none w.store w'.store := by
  cases h with
  | record => exact hs.respects_recordListing _ _
  | invalidate => exact hs.respects_invalidateContent _
  | makePut => exact hs.respects_putAttrs _ _
  | makeUnlist => exact hs.respects_invalidateChildren _
  | remove => exact hs.respects_remove _
  | unlist => exact hs.respects_invalidateChildren _
  | move => exact hs.respects_rename _ _
  | unlistSrc => exact hs.respects_invalidateChildren _
  | unlistDst => exact hs.respects_invalidateChildren _
  | setattrPut => exact hs.respects_putAttrs _ _
  | _ => exact .refl _ _

lemma sound_tree {w w' : World ρ} {pc pc' : TreePc} (h : TreePc.Steps R w pc pc' w')
    (hs : w.store.Sound fun _ _ _ _ => True) : w'.store.Sound fun _ _ _ _ => True := by
  cases h with
  | record => exact hs.recordListing _ _
  | invalidate => exact hs.invalidateContent _
  | makePut => exact hs.putAttrs _ _
  | makeUnlist => exact hs.invalidateChildren _
  | remove => exact hs.remove _
  | unlist => exact hs.invalidateChildren _
  | move =>
      exact hs.rename (fun _ _ _ _ _ => trivial) (fun _ _ _ _ _ _ => trivial)
        (fun _ _ _ _ _ _ _ _ _ => trivial)
  | unlistSrc => exact hs.invalidateChildren _
  | unlistDst => exact hs.invalidateChildren _
  | setattrPut => exact hs.putAttrs _ _
  | _ => exact hs

lemma mirrors_tree {w w' : World ρ} {pc pc' : TreePc} (h : TreePc.Steps R w pc pc' w')
    (hm : w.store.Mirrors) : w'.store.Mirrors := by
  cases h with
  | record => exact Store.mirrors_recordListing _ _ _
  | invalidate => exact hm.invalidateContent _
  | makePut => exact Store.mirrors_putAttrs _ _ _
  | makeUnlist => exact hm.invalidateChildren _
  | remove => exact hm.remove _
  | unlist => exact hm.invalidateChildren _
  | move => exact Store.mirrors_rename _ _ _
  | unlistSrc => exact hm.invalidateChildren _
  | unlistDst => exact hm.invalidateChildren _
  | setattrPut => exact Store.mirrors_putAttrs _ _ _
  | _ => exact hm

/-- The store of a session: recorded chunks have object files, one each, and the entries on disk
are those in memory. -/
structure StoreOk (s : Store) : Prop where
  sound : s.Sound fun _ _ _ _ => True
  mirrors : s.Mirrors

/-- **The object invariant of a session.** -/
def Stocked : Session ι ρ → Prop :=
  Outline (fun w => StoreOk w.store) (fun _ pc w => pc.Owned w.store)
    fun pc other => ∀ o, pc.owns = some o → other.owns ≠ some o

lemma storeOk_of_steps {w w' : World ρ} {pc pc' : SessionPc} (h : SessionPc.Steps R w pc pc' w')
    (hs : StoreOk w.store) (ho : pc.Owned w.store) : StoreOk w'.store := by
  cases h with
  | call h =>
      exact ⟨h.sound hs.sound ho fun _ _ _ _ _ _ _ => trivial, h.mirrors hs.mirrors⟩
  | tree h => exact ⟨sound_tree h hs.sound, mirrors_tree h hs.mirrors⟩

lemma respects_of_steps {w w' : World ρ} {pc pc' : SessionPc}
    (h : SessionPc.Steps R w pc pc' w') (hs : StoreOk w.store) (ho : pc.Owned w.store) :
    Store.Respects pc.owns w.store w'.store := by
  cases h with
  | call h => exact h.respects hs.sound ho
  | tree h => exact respects_tree h hs.sound

lemma owned_of_steps {w w' : World ρ} {pc pc' : SessionPc} (h : SessionPc.Steps R w pc pc' w')
    (hs : StoreOk w.store) (ho : pc.Owned w.store) : pc'.Owned w'.store := by
  cases h with
  | call h => exact h.owned hs.sound ho
  | tree h => trivial

omit [DecidableEq ι] in
/-- A call that steps stays apart from the others: an object id that it takes is new. -/
lemma apart_of_steps {w w' : World ρ} {pc pc' other : SessionPc}
    (h : SessionPc.Steps R w pc pc' w') (hother : other.Owned w.store)
    (hapart : ∀ o, pc.owns = some o → other.owns ≠ some o) :
    (∀ o, pc'.owns = some o → other.owns ≠ some o) ∧
      ∀ o, other.owns = some o → pc'.owns ≠ some o := by
  cases h with
  | tree h => exact ⟨nofun, fun _ _ => nofun⟩
  | call h =>
      cases other with
      | tree other => exact ⟨fun _ _ => nofun, nofun⟩
      | call other => exact Calls.apart_step h hother hapart

lemma Stocked.step {x : Session ι ρ} (hx : Stocked x) (m : Move ι (Beside ρ)) :
    Stocked (step R x m) := by
  cases m with
  | env e =>
      refine Outline.step_env hx ?_ fun i => ?_
      · rw [act_store]
        exact hx.shared
      · rw [act_store]
        exact hx.task i
  | task i =>
      have hsteps := SessionPc.steps_next R x.shared (x.tasks i)
      have hrespects := respects_of_steps hsteps hx.shared (hx.task i)
      apply Outline.step_task hx
      · exact storeOk_of_steps hsteps hx.shared (hx.task i)
      · exact owned_of_steps hsteps hx.shared (hx.task i)
      · intro j hj
        have hframe := hx.task j
        cases hpc : x.tasks j with
        | tree pc => trivial
        | call pc =>
            rw [hpc] at hframe
            refine CallPc.Owned.frame hframe hrespects fun o ho hmine => ?_
            exact hx.apart i j (Ne.symm hj) o hmine (by rw [hpc]; exact ho)
      · exact fun j hj =>
          apart_of_steps hsteps (hx.task j) (hx.apart i j (Ne.symm hj))

omit [DecidableEq ι] in
lemma owns_of_begins {pc : SessionPc} (h : pc.Begins) : pc.owns = none := by
  cases pc with
  | call pc => cases pc <;> first | rfl | exact h.elim
  | tree pc => rfl

omit [DecidableEq ι] in
lemma stocked_start {calls : ι → SessionPc} (hcalls : ∀ i, (calls i).Begins) {w : World ρ}
    (hw : StoreOk w.store) : Stocked ⟨calls, w⟩ where
  shared := hw
  task i := by
    have hnone := owns_of_begins (hcalls i)
    show (calls i).Owned w.store
    cases hpc : calls i with
    | tree pc => trivial
    | call pc =>
        rw [hpc] at hnone
        exact CallPc.owned_of_owns_none hnone _
  apart i j _ o ho := by
    rw [owns_of_begins (hcalls i)] at ho
    cases ho

/-- **In any session of calls of every kind, whatever their interleaving**, each recorded chunk
refers to an object file that is there, no two chunks share one, and the index on disk has an entry
exactly where the index in memory has one. -/
theorem session_keeps_objects (R : RemoteFilesystem ρ) {calls : ι → SessionPc}
    (hcalls : ∀ i, (calls i).Begins) {w : World ρ}
    (hs : w.store.Sound fun _ _ _ _ => True) (hm : w.store.Mirrors)
    (ms : List (Move ι (Beside ρ))) :
    ((after R ⟨calls, w⟩ ms).shared.store.Sound fun _ _ _ _ => True) ∧
      (after R ⟨calls, w⟩ ms).shared.store.Mirrors := by
  have hend : Stocked (after R ⟨calls, w⟩ ms) :=
    invariant_of_step (fun x m hx => hx.step m) (stocked_start hcalls ⟨hs, hm⟩) ms
  exact ⟨hend.shared.sound, hend.shared.mirrors⟩

theorem session_keeps_objects_example :
    ((after Memory.filesystem ⟨sampleCalls, sampleMount⟩ sampleMoves).shared.store.Sound
        fun _ _ _ _ => True) ∧
      (after Memory.filesystem ⟨sampleCalls, sampleMount⟩ sampleMoves).shared.store.Mirrors :=
  session_keeps_objects Memory.filesystem sampleCalls_begin (Store.sound_new_empty _)
    (Store.mirrors_new _ _) sampleMoves

/-! ## Handles -/

/-- The handle that a call has given out. -/
def issued : SessionPc → Option FileHandle
  | .tree (.done (.opened (.ok handle))) => some handle
  | .tree (.done (.created (.ok answer))) => some answer.handle
  | _ => none

/-- The node that an `open` is about. -/
def opening : SessionPc → Option NodeId
  | .tree (.openFile node _) => some node
  | .tree (.truncate node _) => some node
  | .tree (.invalidate node _) => some node
  | .tree (.unstamp node _) => some node
  | .tree (.openHandle node _) => some node
  | _ => none

/-- The node of the file that a call has opened: for a `create` the node of its answer, for an
`open` the node that it was called with. -/
def openedNode (call pc : SessionPc) : Option NodeId :=
  match pc with
  | .tree (.done (.created (.ok answer))) => some answer.metadata.node
  | _ => opening call

/-- What a step does to the handle table: nothing, or it gives out the next handle, or it is a
release. -/
inductive HandleStep (st st' : State) : SessionPc → SessionPc → Prop
  | quiet {pc pc'} (hpc : issued pc' = issued pc) (hnew : ∀ h, pc' ≠ .tree (.release h))
      (hnext : st'.nextHandle = st.nextHandle) (hfile : ∀ g, st'.file g = st.file g) :
      HandleStep st st' pc pc'
  | issue {pc pc'} (hpc : issued pc = none) (hpc' : issued pc' = some ⟨st.nextHandle⟩)
      (hnext : st'.nextHandle = st.nextHandle + 1) (f : OpenFile)
      (hnode : openedNode pc pc' = some f.node)
      (hfile : ∀ g, st'.file g = if g = ⟨st.nextHandle⟩ then some f else st.file g) :
      HandleStep st st' pc pc'
  | release {pc'} (h : FileHandle) (hpc' : pc' = .tree (.done (.done (.ok ()))))
      (hnext : st'.nextHandle = st.nextHandle)
      (hfile : ∀ g, st'.file g = if g = h then none else st.file g) :
      HandleStep st st' (.tree (.release h)) pc'

/-- A step that only notes something. -/
lemma HandleStep.of_notes {st st' : State} {pc pc' : SessionPc} (h : Notes st st')
    (hpc : issued pc' = issued pc) (hnew : ∀ h, pc' ≠ .tree (.release h)) :
    HandleStep st st' pc pc' :=
  .quiet hpc hnew h.nextHandle h.file

lemma issued_unlisted (w : World ρ) (path : RemotePath) (error : Option Error) :
    issued (.tree (TreePc.unlisted w path error)) = none ∧
      ∀ h, SessionPc.tree (TreePc.unlisted w path error) ≠ .tree (.release h) := by
  unfold TreePc.unlisted
  split
  · exact ⟨rfl, nofun⟩
  · split
    · exact ⟨rfl, nofun⟩
    · exact ⟨rfl, nofun⟩

/-- The last section of a `create` gives out the next handle. -/
lemma handleStep_create {st noted st' : State} {place : Place} {attributes : FileAttributes}
    {answer : TreeAnswer}
    (h : Maker.create.answer place.path attributes noted = (answer, st'))
    (hnext : noted.nextHandle = st.nextHandle) (hfile : ∀ g, noted.file g = st.file g) :
    HandleStep st st' (.tree (.makeAnswer .create place attributes)) (.tree (.done answer)) := by
  rw [Maker.answer_create] at h
  obtain ⟨rfl, rfl⟩ := Prod.mk.inj h
  have hsame : (noted.intern place.path).2.nextHandle = st.nextHandle :=
    (State.nextHandle_intern _ _).trans hnext
  apply HandleStep.issue (f := ⟨(noted.intern place.path).1, place.path⟩)
  · rfl
  · rw [issued, hsame]
  · rw [← hsame]
    rfl
  · rfl
  · intro g
    rw [State.file_openHandle, hsame, State.file_intern, hfile]

lemma handleStep_of_steps {w w' : World ρ} {pc pc' : SessionPc}
    (h : SessionPc.Steps R w pc pc' w') (hw : w.state.Wf) (hn : w.state.Knows pc.nodes) :
    HandleStep w.state w'.state pc pc' := by
  cases h with
  | call h => exact .of_notes (h.notes hn) rfl nofun
  | tree h =>
      have hsection := h.section hn hw
      cases h with
      | release => exact .release _ rfl rfl (State.file_close _ _)
      | @openHandle node path =>
          exact .issue rfl rfl rfl ⟨node, path⟩ rfl (State.file_openHandle _ _ _)
      | noNames _ =>
          obtain ⟨hnone, hnew⟩ := issued_unlisted w _ _
          exact .quiet hnone hnew rfl fun _ => rfl
      | gatherBad _ =>
          obtain ⟨hnone, hnew⟩ := issued_unlisted w _ _
          exact .quiet hnone hnew rfl fun _ => rfl
      | @internAll found =>
          have hst : Interns (fun _ => True) w.state (World.internChildren found w.state).2 :=
            World.interns_internChildren found (fun _ _ => trivial) _
          exact .quiet rfl nofun hst.nextHandle hst.file
      | stampAll hst =>
          have hstamped := World.stampedBy_of_eq hst
          exact .quiet rfl nofun hstamped.nextHandle hstamped.file
      | stampPartly hst =>
          have hstamped := World.stampedBy_of_eq hst
          exact .quiet rfl nofun hstamped.nextHandle hstamped.file
      | @makeFailed maker _ _ _ _ _ =>
          cases maker with
          | create => exact .quiet rfl nofun rfl fun _ => rfl
          | mkdir => exact .quiet rfl nofun rfl fun _ => rfl
      | @makeAnswer maker place attributes answer st hst =>
          cases maker with
          | create => exact handleStep_create hst rfl fun _ => rfl
          | mkdir =>
              rw [Maker.answer_mkdir] at hst
              obtain ⟨rfl, rfl⟩ := Prod.mk.inj hst
              exact .quiet rfl nofun (State.nextHandle_intern _ _) (State.file_intern _ _)
      | repoint =>
          exact .quiet rfl nofun (State.nextHandle_renamePath _ _ _) (State.file_renamePath _ _ _)
      | _ => exact .quiet rfl nofun rfl fun _ => rfl

namespace HandleStep

variable {st st' : State} {pc pc' : SessionPc} {h : FileHandle}

/-- A handle that a step gives out is the next one. -/
lemma issued_new (hs : HandleStep st st' pc pc') (hh : issued pc' = some h) :
    issued pc = some h ∨ h = ⟨st.nextHandle⟩ := by
  cases hs with
  | quiet hpc _ _ _ => exact .inl (hpc ▸ hh)
  | issue _ hpc' _ _ _ _ => exact .inr (Option.some.inj (hh.symm.trans hpc'))
  | release _ hpc' _ _ =>
      rw [hpc'] at hh
      cases hh

/-- What a call has given out, it has still given out. -/
lemma issued_old (hs : HandleStep st st' pc pc') (hh : issued pc = some h) :
    issued pc' = some h := by
  cases hs with
  | quiet hpc _ _ _ => exact hpc.trans hh
  | issue hpc _ _ _ _ _ =>
      rw [hpc] at hh
      cases hh
  | release _ _ _ _ => cases hh

/-- A handle that a step opens is given out. -/
lemma file_new (hs : HandleStep st st' pc pc') {f : OpenFile} (hf : st'.file h = some f) :
    st.file h = some f ∨ issued pc' = some h := by
  cases hs with
  | quiet _ _ _ hfile => exact .inl (hfile h ▸ hf)
  | issue _ hpc' _ _ _ hfile =>
      rw [hfile] at hf
      split at hf
      · next hh => exact .inr (hh ▸ hpc')
      · exact .inl hf
  | release _ _ _ hfile =>
      rw [hfile] at hf
      split at hf
      · cases hf
      · exact .inl hf

end HandleStep

/-- No call of a session releases a handle. -/
def NeverReleased (calls : ι → SessionPc) (h : FileHandle) : Prop :=
  ∀ i, calls i ≠ .tree (.release h)

/-- What holds of a handle that a call has given out: it is newer than the handles at the start,
and it is open on the node of the call until a call releases it. -/
structure Given (calls : ι → SessionPc) (start st : State) (i : ι) (pc : SessionPc)
    (h : FileHandle) : Prop where
  old : start.nextHandle ≤ h.val
  below : h.val < st.nextHandle
  opened : NeverReleased calls h → ∃ f, st.file h = some f ∧ openedNode (calls i) pc = some f.node

/-- What holds of one call: it was begun as a release if it is one, it opens the node that it was
called with, and a handle that it has given out is accounted for. -/
structure Giver (calls : ι → SessionPc) (start : State) (i : ι) (pc : SessionPc) (w : World ρ) :
    Prop where
  release : ∀ h, pc = .tree (.release h) → calls i = .tree (.release h)
  knows : w.state.Knows pc.nodes
  opening : ∀ n, opening pc = some n → opening (calls i) = some n
  given : ∀ h, issued pc = some h → Given calls start w.state i pc h

/-- What holds of the handle table, compared to the start. -/
structure TableOk (calls : ι → SessionPc) (start st : State) : Prop where
  wf : st.Wf
  later : start.nextHandle ≤ st.nextHandle
  kept : ∀ h f, start.file h = some f → NeverReleased calls h → st.file h = some f

/-- **The handle invariant of a session.** -/
def Handled (calls : ι → SessionPc) (start : State) : Session ι ρ → Prop :=
  Outline (fun w => TableOk calls start w.state) (Giver calls start)
    fun pc other => ∀ h, issued pc = some h → issued other ≠ some h

omit [DecidableEq ι] in
/-- A handle stays accounted for, whatever a call does to the table. -/
lemma Given.frame {calls : ι → SessionPc} {start : State} {w w' : World ρ}
    {pc pc' other : SessionPc} {i j : ι} {h : FileHandle}
    (hh : Given calls start w.state j other h) (hi : Giver calls start i pc w)
    (hstep : HandleStep w.state w'.state pc pc') : Given calls start w'.state j other h := by
  refine ⟨hh.old, ?_, fun hnever => ?_⟩
  · cases hstep with
    | quiet _ _ hnext _ => rw [hnext]; exact hh.below
    | issue _ _ hnext _ _ _ => rw [hnext]; exact Nat.lt_succ_of_lt hh.below
    | release _ _ hnext _ => rw [hnext]; exact hh.below
  · have hopen := hh.opened hnever
    cases hstep with
    | quiet _ _ _ hfile => rw [hfile]; exact hopen
    | issue _ _ _ _ _ hfile =>
        have hne : h ≠ ⟨w.state.nextHandle⟩ := by
          rintro rfl
          exact lt_irrefl _ hh.below
        rw [hfile, if_neg hne]
        exact hopen
    | release g _ _ hfile =>
        have hne : h ≠ g := by
          rintro rfl
          exact hnever i (hi.release h rfl)
        rw [hfile, if_neg hne]
        exact hopen

omit [DecidableEq ι] in
lemma TableOk.step {calls : ι → SessionPc} {start : State} {w w' : World ρ}
    {pc pc' : SessionPc} {i : ι} (ht : TableOk calls start w.state)
    (hstart : start.Wf) (hi : Giver calls start i pc w) (hw : w'.state.Wf)
    (hstep : HandleStep w.state w'.state pc pc') : TableOk calls start w'.state := by
  refine ⟨hw, ?_, fun h f hf hnever => ?_⟩
  · cases hstep with
    | quiet _ _ hnext _ => rw [hnext]; exact ht.later
    | issue _ _ hnext _ _ _ => rw [hnext]; exact Nat.le_succ_of_le ht.later
    | release _ _ hnext _ => rw [hnext]; exact ht.later
  · have hold := ht.kept h f hf hnever
    cases hstep with
    | quiet _ _ _ hfile => rw [hfile]; exact hold
    | issue _ _ _ _ _ hfile =>
        have hne : h ≠ ⟨w.state.nextHandle⟩ := by
          rintro rfl
          exact absurd (hstart.handle_lt _ f hf) (not_lt.mpr ht.later)
        rw [hfile, if_neg hne]
        exact hold
    | release g _ _ hfile =>
        have hne : h ≠ g := by
          rintro rfl
          exact hnever i (hi.release h rfl)
        rw [hfile, if_neg hne]
        exact hold

omit [DecidableEq ι] in
/-- An `open` keeps the node that it was called with. -/
lemma opening_of_steps {w w' : World ρ} {pc pc' : SessionPc} (h : SessionPc.Steps R w pc pc' w')
    {n : NodeId} (hn : opening pc' = some n) : opening pc = some n := by
  cases h with
  | call h => cases hn
  | tree h =>
      cases h with
      | noNames _ =>
          unfold TreePc.unlisted at hn
          split at hn
          · cases hn
          · split at hn <;> cases hn
      | gatherBad _ =>
          unfold TreePc.unlisted at hn
          split at hn
          · cases hn
          · split at hn <;> cases hn
      | openTruncating _ _ _ => exact hn
      | openPlain _ => exact hn
      | truncated _ => exact hn
      | invalidate => exact hn
      | unstamp => exact hn
      | _ => cases hn

omit [DecidableEq ι] in
/-- A call that has given out a handle has returned. -/
lemma done_of_issued {w w' : World ρ} {pc pc' : SessionPc} (h : SessionPc.Steps R w pc pc' w')
    {g : FileHandle} (hissued : issued pc = some g) : pc' = pc := by
  cases h with
  | call h => cases hissued
  | tree h =>
      cases h with
      | idle => rfl
      | _ => cases hissued

omit [DecidableEq ι] in
/-- The node of an opened file, seen from the call and from the step that has opened it. -/
lemma openedNode_of_opening {call pc pc' : SessionPc} {n : NodeId}
    (hcall : ∀ n, opening pc = some n → opening call = some n)
    (h : openedNode pc pc' = some n) : openedNode call pc' = some n := by
  unfold openedNode at h ⊢
  split at h
  · exact h
  · exact hcall n h

omit [DecidableEq ι] in
lemma Giver.step {calls : ι → SessionPc} {start : State} {w w' : World ρ} {pc pc' : SessionPc}
    {i : ι} (ht : TableOk calls start w.state) (hi : Giver calls start i pc w)
    (hsteps : SessionPc.Steps R w pc pc' w') : Giver calls start i pc' w' := by
  have hstep := handleStep_of_steps hsteps ht.wf hi.knows
  refine ⟨fun h hpc => ?_, knows_of_steps hsteps ht.wf hi.knows,
    fun n hn => hi.opening n (opening_of_steps hsteps hn), fun h hissued => ?_⟩
  · cases hstep with
    | quiet _ hnew _ _ => exact absurd hpc (hnew h)
    | issue _ hpc' _ _ _ _ =>
        rw [hpc] at hpc'
        cases hpc'
    | release _ hpc' _ _ =>
        rw [hpc] at hpc'
        cases hpc'
  · cases hstep with
    | quiet hsame hnew hnext hfile =>
        have hold : issued pc = some h := hsame ▸ hissued
        obtain rfl := done_of_issued hsteps hold
        exact (hi.given h hold).frame hi (.quiet hsame hnew hnext hfile)
    | issue _ hpc' hnext f hnode hfile =>
        obtain rfl : ⟨w.state.nextHandle⟩ = h := Option.some.inj (hpc'.symm.trans hissued)
        refine ⟨ht.later, ?_, fun _ => ⟨f, ?_, openedNode_of_opening hi.opening hnode⟩⟩
        · rw [hnext]
          exact Nat.lt_succ_self _
        · rw [hfile, if_pos rfl]
    | release _ hpc' _ _ =>
        rw [hpc'] at hissued
        cases hissued

lemma Handled.step {calls : ι → SessionPc} {start : State} (hstart : start.Wf)
    {x : Session ι ρ} (hx : Handled calls start x) (m : Move ι (Beside ρ)) :
    Handled calls start (step R x m) := by
  cases m with
  | env e =>
      refine Outline.step_env hx ?_ fun i => ?_
      · rw [act_state]
        exact hx.shared
      · obtain ⟨hrelease, hknows, hopening, hgiven⟩ := hx.task i
        exact ⟨hrelease, by rwa [act_state], hopening,
          fun h hi => by rw [act_state]; exact hgiven h hi⟩
  | task i =>
      have hsteps := SessionPc.steps_next R x.shared (x.tasks i)
      have hi := hx.task i
      have hstep := handleStep_of_steps hsteps hx.shared.wf hi.knows
      have hsection := section_of_steps hsteps hx.shared.wf hi.knows
      apply Outline.step_task hx
      · exact hx.shared.step hstart hi (hsection.wf hx.shared.wf) hstep
      · exact hi.step hx.shared hsteps
      · intro j _
        obtain ⟨hrelease, hknows, hopening, hgiven⟩ := hx.task j
        exact ⟨hrelease, fun n hn => hsection.known hx.shared.wf (hknows n hn), hopening,
          fun h hj => (hgiven h hj).frame hi hstep⟩
      · -- a handle that is given out is newer than those that others have
        intro j hj
        have hnew : ∀ h, issued ((x.tasks i).next R x.shared).1 = some h →
            issued (x.tasks j) ≠ some h := by
          intro h hissued hother
          rcases hstep.issued_new hissued with hold | rfl
          · exact hx.apart i j (Ne.symm hj) h hold hother
          · exact lt_irrefl _ ((hx.task j).given _ hother).below
        exact ⟨hnew, fun h hother hissued => hnew h hissued hother⟩

/-- Every open handle was open at the start, or a call has given it out. -/
def Accounted (start : State) (x : Session ι ρ) : Prop :=
  ∀ h f, x.shared.state.file h = some f →
    start.file h = some f ∨ ∃ i, issued (x.tasks i) = some h

lemma Accounted.step {calls : ι → SessionPc} {start : State} {x : Session ι ρ}
    (ha : Accounted start x) (hx : Handled calls start x) (m : Move ι (Beside ρ)) :
    Accounted start (Session.step R x m) := by
  intro h f hf
  cases m with
  | env e =>
      refine ha h f ?_
      rwa [Session.step, Pool.step_env_shared, act_state] at hf
  | task i =>
      have hstep := handleStep_of_steps (SessionPc.steps_next R x.shared (x.tasks i)) hx.shared.wf
        (hx.task i).knows
      rcases hstep.file_new hf with hold | hnew
      · refine (ha h f hold).imp_right fun ⟨j, hj⟩ => ⟨j, ?_⟩
        by_cases hij : j = i
        · subst hij
          rw [Session.step, Pool.step_task_self]
          exact hstep.issued_old hj
        · rw [Session.step, Pool.step_task_of_ne hij]
          exact hj
      · refine .inr ⟨i, ?_⟩
        rw [Session.step, Pool.step_task_self]
        exact hnew

omit [DecidableEq ι] in
lemma issued_of_begins {pc : SessionPc} (h : pc.Begins) : issued pc = none := by
  cases pc with
  | call pc => rfl
  | tree pc => cases pc <;> first | rfl | exact h.elim

omit [DecidableEq ι] in
lemma handled_start {calls : ι → SessionPc} (hcalls : ∀ i, (calls i).Begins) {w : World ρ}
    (hw : w.state.Wf) : Handled calls w.state ⟨calls, w⟩ where
  shared := ⟨hw, le_refl _, fun _ _ hf _ => hf⟩
  task i := by
    refine ⟨fun h hpc => hpc, ?_, fun n hn => hn, fun h hissued => ?_⟩
    · rw [nodes_of_begins (hcalls i)]
      exact .nil
    · rw [issued_of_begins (hcalls i)] at hissued
      cases hissued
  apart i j _ h hissued := by
    rw [issued_of_begins (hcalls i)] at hissued
    cases hissued

/-- What the handle table owes to the calls of a session. -/
structure HandleTable (calls : ι → SessionPc) (start : State) (x : Session ι ρ) : Prop where
  /-- A handle that is given out was not open at the start. -/
  new : ∀ i h, issued (x.tasks i) = some h → start.file h = none
  /-- No handle is given out twice. -/
  distinct : ∀ i j h, i ≠ j → issued (x.tasks i) = some h → issued (x.tasks j) ≠ some h
  /-- An open handle was open at the start, or has been given out. -/
  accounted : ∀ h f, x.shared.state.file h = some f →
    start.file h = some f ∨ ∃ i, issued (x.tasks i) = some h
  /-- A handle that has been given out is open on the node of the call that has given it out, unless
  a call releases it. -/
  opened : ∀ i h, issued (x.tasks i) = some h → NeverReleased calls h →
    ∃ f, x.shared.state.file h = some f ∧ openedNode (calls i) (x.tasks i) = some f.node
  /-- A handle that was open stays what it was, unless a call releases it. -/
  kept : ∀ h f, start.file h = some f → NeverReleased calls h → x.shared.state.file h = some f

/-- **Handles in any session of calls of every kind, whatever their interleaving**: no handle is
given out twice or while it is open, an open handle has been given out, and a handle that no call
releases stays open on the node that it was given out for. -/
theorem session_handles (R : RemoteFilesystem ρ) {calls : ι → SessionPc}
    (hcalls : ∀ i, (calls i).Begins) {w : World ρ} (hw : w.state.Wf)
    (ms : List (Move ι (Beside ρ))) :
    HandleTable calls w.state (after R ⟨calls, w⟩ ms) := by
  have hstep : ∀ (x : Session ι ρ) (m : Move ι (Beside ρ)),
      Handled calls w.state x ∧ Accounted w.state x →
      Handled calls w.state (step R x m) ∧ Accounted w.state (step R x m) :=
    fun x m hx => ⟨hx.1.step hw m, hx.2.step hx.1 m⟩
  obtain ⟨hhandled, haccounted⟩ :=
    invariant_of_step hstep ⟨handled_start hcalls hw, fun h f hf => .inl hf⟩ ms
  refine ⟨fun i h hi => ?_, fun i j h hij => hhandled.apart i j hij h, haccounted,
    fun i h hi => ((hhandled.task i).given h hi).opened, hhandled.shared.kept⟩
  cases hf : w.state.file h with
  | none => rfl
  | some f => exact absurd (hw.handle_lt h f hf) (not_lt.mpr ((hhandled.task i).given h hi).old)

/-- The sample mount with `/a` open. -/
def openMount : World Memory :=
  ((sampleMount.exec Memory.filesystem (.lookup NodeId.root ['a'])).exec Memory.filesystem
    (.openFile ⟨2⟩ { write := true }))

/-- The file that is open at the start stays open, and the one that is created in the session is
open on the node of the answer. -/
theorem session_handles_example :
    (after Memory.filesystem ⟨sampleCalls, openMount⟩ sampleMoves).shared.state.file ⟨1⟩ =
        some ⟨⟨2⟩, World.pathA⟩ ∧
      ∃ f, (after Memory.filesystem ⟨sampleCalls, openMount⟩ sampleMoves).shared.state.file ⟨2⟩ =
        some f ∧ f.node = ⟨3⟩ := by
  have hnever : ∀ h, NeverReleased sampleCalls h
    | _, 0 => nofun
    | _, 1 => nofun
    | _, 2 => nofun
  have hw : openMount.state.Wf := World.wf_outcome (World.outcome_exec _ _ _)
    (World.wf_outcome (World.outcome_exec _ _ _) (State.wf_new _))
  have htable := session_handles Memory.filesystem sampleCalls_begin hw sampleMoves
  obtain ⟨f, hf, hnode⟩ := htable.opened 0 ⟨2⟩ rfl (hnever _)
  exact ⟨htable.kept ⟨1⟩ _ rfl (hnever _), f, hf, (Option.some.inj hnode).symm⟩

end Session

end CacheShfs
