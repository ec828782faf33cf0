import CacheShfs.Vfs.ListingAge
import CacheShfs.Vfs.Together

/-!
# One node for one path, in any interleaving

A node is given to a path in one section under the lock of the state, so that two calls which name
the same path at the same time get the same node, however their steps lie.  `session_same_node`:
in a session without renames, the nodes that any two calls answer for two names are equal exactly
if the names lead to the same path.

`Named` follows one call: the path of a name is resolved when the call begins, and stays what the
name leads to as long as nothing is renamed.
-/

namespace CacheShfs

open Interleave Machine

variable {ρ : Type} {R : RemoteFilesystem ρ}

namespace World

/-- What is known of the nodes of paths, and of the paths of nodes, stays so. -/
structure KeepsNames (w w' : World ρ) : Prop where
  path : ∀ n p, w.state.path n = some p → w'.state.path n = some p
  node : ∀ p n, w.state.node p = some n → w'.state.node p = some n

lemma KeepsNames.childPath {w w' : World ρ} (h : w.KeepsNames w') {parent : NodeId} {name : Str}
    {child : RemotePath} (hchild : w.childPath parent name = .ok child) :
    w'.childPath parent name = .ok child := by
  obtain ⟨p, hp, hjoin⟩ := childPath_ok.mp hchild
  exact childPath_ok.mpr ⟨p, h.path parent p hp, hjoin⟩

/-- The node is registered for the path to which the name leads. -/
def LeadsTo (w : World ρ) (parent : NodeId) (name : Str) (node : NodeId) : Prop :=
  ∃ child, w.childPath parent name = .ok child ∧ w.state.node child = some node

lemma LeadsTo.keeps {w w' : World ρ} (hk : w.KeepsNames w') {parent : NodeId} {name : Str}
    {node : NodeId} (h : w.LeadsTo parent name node) : w'.LeadsTo parent name node := by
  obtain ⟨child, hchild, hnode⟩ := h
  exact ⟨child, hk.childPath hchild, hk.node child node hnode⟩

end World

/-- A call that renames. -/
def TreePc.Renames : TreePc → Prop
  | .rename _ _ _ _ => True
  | .renameRemote _ _ => True
  | .move _ _ => True
  | .unlistSrc _ _ => True
  | .unlistDst _ _ => True
  | .repoint _ _ => True
  | _ => False

/-- A call that renames. -/
def SessionPc.Renames : SessionPc → Prop
  | .call _ => False
  | .tree pc => pc.Renames

lemma Notes.keepsNames {w w' : World ρ} (h : Notes w.state w'.state) (hw : w.state.Wf) :
    w.KeepsNames w' :=
  ⟨fun _ _ hp => h.path hw hp, fun _ _ hn => h.node hn⟩

namespace TreePc

variable {w w' : World ρ} {pc pc' : TreePc}

lemma not_renames_unlisted (w : World ρ) (path : RemotePath) (error : Option Error) :
    ¬ (unlisted w path error).Renames := by
  unfold unlisted
  split
  · exact id
  · split
    · exact id
    · exact id

/-- A call renames from its first step on, or never. -/
lemma Steps.not_renames (h : Steps R w pc pc' w') (hpc : ¬ pc.Renames) : ¬ pc'.Renames := by
  cases h with
  | noNames _ => exact not_renames_unlisted _ _ _
  | gatherBad _ => exact not_renames_unlisted _ _ _
  | rename _ => exact absurd trivial hpc
  | renamed _ => exact absurd trivial hpc
  | move => exact absurd trivial hpc
  | unlistSrc => exact absurd trivial hpc
  | unlistDst => exact absurd trivial hpc
  | _ => exact id

lemma Steps.keepsNames (h : Steps R w pc pc' w') (hw : w.state.Wf)
    (hn : w.state.Knows pc.nodes) (hpc : ¬ pc.Renames) : w.KeepsNames w' := by
  have hsection := h.section hn hw
  cases h with
  | repoint => exact absurd trivial hpc
  | release => exact ⟨fun _ _ hp => hp, fun _ _ hn => hn⟩
  | openHandle => exact ⟨fun _ _ hp => hp, fun _ _ hn => hn⟩
  | @internAll found =>
      have hst : Interns (fun _ => True) w.state (World.internChildren found w.state).2 :=
        World.interns_internChildren found (fun _ _ => trivial) _
      exact Notes.keepsNames (.of_interns hst) hw
  | stampAll hst =>
      exact Notes.keepsNames (.stamp _ _ (.of_stampedBy (World.stampedBy_of_eq hst) (.refl _))) hw
  | stampPartly hst =>
      exact Notes.keepsNames (.of_stampedBy (World.stampedBy_of_eq hst) (.refl _)) hw
  | unstamp => exact Notes.keepsNames (.unstamp _ (.refl _)) hw
  | @makeAnswer maker place attributes answer st hst =>
      have hnotes : Notes w.state (((w.state.stamp place.path w.conn.now).unnegate place.parent
          place.name).intern place.path).2 := .intern _ (.unnegate _ _ (.stamp _ _ (.refl _)))
      cases maker with
      | create =>
          rw [Maker.answer_create] at hst
          obtain ⟨-, rfl⟩ := Prod.mk.inj hst
          exact ⟨fun _ _ hp => hnotes.path hw hp, fun _ _ hn => hnotes.node hn⟩
      | mkdir =>
          rw [Maker.answer_mkdir] at hst
          obtain ⟨-, rfl⟩ := Prod.mk.inj hst
          exact ⟨fun _ _ hp => hnotes.path hw hp, fun _ _ hn => hnotes.node hn⟩
  | negate => exact Notes.keepsNames (.negate (hn _ List.mem_cons_self) _ _ (.refl _)) hw
  | setattrStamp => exact Notes.keepsNames (.stamp _ _ (.refl _)) hw
  | _ => exact ⟨fun _ _ hp => hp, fun _ _ hn => hn⟩

end TreePc

lemma SessionPc.Steps.not_renames {w w' : World ρ} {pc pc' : SessionPc}
    (h : SessionPc.Steps R w pc pc' w') (hpc : ¬ pc.Renames) : ¬ pc'.Renames := by
  cases h with
  | call _ => exact id
  | tree h => exact h.not_renames hpc

lemma SessionPc.Steps.keepsNames {w w' : World ρ} {pc pc' : SessionPc}
    (h : SessionPc.Steps R w pc pc' w') (hw : w.state.Wf) (hn : w.state.Knows pc.nodes)
    (hpc : ¬ pc.Renames) : w.KeepsNames w' := by
  cases h with
  | call h => exact (h.notes hn).keepsNames hw
  | tree h => exact h.keepsNames hw hn hpc

/-! ## A name that a call follows -/

/-- A `lookup` of the name: the path it works on is the one to which the name leads. -/
def CallPc.Follows (parent : NodeId) (name : Str) (w : World ρ) : CallPc → Prop
  | .lookup parent' name' => parent' = parent ∧ name' = name
  | .negative parent' name' child =>
      (parent' = parent ∧ name' = name) ∧ w.childPath parent name = .ok child
  | .fresh caller path => caller = .lookup parent name ∧ w.childPath parent name = .ok path
  | .cached caller path => caller = .lookup parent name ∧ w.childPath parent name = .ok path
  | .stat caller path => caller = .lookup parent name ∧ w.childPath parent name = .ok path
  | .put caller path _ => caller = .lookup parent name ∧ w.childPath parent name = .ok path
  | .stamp caller path _ => caller = .lookup parent name ∧ w.childPath parent name = .ok path
  | .drop caller _ => caller = .lookup parent name
  | .fallback caller path _ => caller = .lookup parent name ∧ w.childPath parent name = .ok path
  | .intern path _ => w.childPath parent name = .ok path
  | .negate _ _ answer => answer.nodes = []
  | .done (.metadata (.ok answer)) => w.LeadsTo parent name answer.node
  | .done _ => True
  | _ => False

/-- A `create` or `mkdir` of the name. -/
def TreePc.Makes (parent : NodeId) (name : Str) (w : World ρ) : TreePc → Prop
  | .create parent' name' _ _ => parent' = parent ∧ name' = name
  | .mkdir parent' name' _ => parent' = parent ∧ name' = name
  | .make _ place _ => w.childPath parent name = .ok place.path
  | .makePut _ place _ => w.childPath parent name = .ok place.path
  | .makeUnlist _ place _ => w.childPath parent name = .ok place.path
  | .makeAnswer _ place _ => w.childPath parent name = .ok place.path
  | .done (.created (.ok answer)) => w.LeadsTo parent name answer.metadata.node
  | .done (.metadata (.ok answer)) => w.LeadsTo parent name answer.node
  | .done _ => True
  | _ => False

/-- The children found so far are those to which their names lead. -/
def Found (path : RemotePath) (found : List (Str × RemotePath × FileAttributes)) : Prop :=
  ∀ c ∈ found, path.join c.1 = .ok c.2.1

/-- A `readdir` of the directory. -/
def TreePc.Lists (dir : NodeId) (w : World ρ) : TreePc → Prop
  | .readdir dir' => dir' = dir
  | .listFresh path => w.state.path dir = some path
  | .names _ path => w.state.path dir = some path
  | .gather _ path _ found => w.state.path dir = some path ∧ Found path found
  | .internAll found => ∃ path, w.state.path dir = some path ∧ Found path found
  | .listRemote path => w.state.path dir = some path
  | .listed path _ => w.state.path dir = some path
  | .record path _ _ => w.state.path dir = some path
  | .stampAll path _ _ => w.state.path dir = some path
  | .done (.entries (.ok listing)) => ∀ e ∈ listing, w.LeadsTo dir e.name e.metadata.node
  | .done _ => True
  | _ => False

section
variable {w w' : World ρ} {parent dir : NodeId} {name : Str}

lemma CallPc.Follows.keeps {pc : CallPc} (h : pc.Follows parent name w) (hk : w.KeepsNames w') :
    pc.Follows parent name w' := by
  cases pc with
  | negative _ _ _ => exact ⟨h.1, hk.childPath h.2⟩
  | fresh _ _ => exact ⟨h.1, hk.childPath h.2⟩
  | cached _ _ => exact ⟨h.1, hk.childPath h.2⟩
  | stat _ _ => exact ⟨h.1, hk.childPath h.2⟩
  | put _ _ _ => exact ⟨h.1, hk.childPath h.2⟩
  | stamp _ _ _ => exact ⟨h.1, hk.childPath h.2⟩
  | fallback _ _ _ => exact ⟨h.1, hk.childPath h.2⟩
  | intern _ _ => exact hk.childPath h
  | done answer =>
      cases answer with
      | metadata result =>
          cases result with
          | ok answer => exact World.LeadsTo.keeps hk h
          | error _ => trivial
      | _ => trivial
  | _ => exact h

lemma TreePc.Makes.keeps {pc : TreePc} (h : pc.Makes parent name w) (hk : w.KeepsNames w') :
    pc.Makes parent name w' := by
  cases pc with
  | make _ _ _ => exact hk.childPath h
  | makePut _ _ _ => exact hk.childPath h
  | makeUnlist _ _ _ => exact hk.childPath h
  | makeAnswer _ _ _ => exact hk.childPath h
  | done answer =>
      cases answer with
      | created result =>
          cases result with
          | ok answer => exact World.LeadsTo.keeps hk h
          | error _ => trivial
      | metadata result =>
          cases result with
          | ok answer => exact World.LeadsTo.keeps hk h
          | error _ => trivial
      | _ => trivial
  | _ => exact h

lemma TreePc.Lists.keeps {pc : TreePc} (h : pc.Lists dir w) (hk : w.KeepsNames w') :
    pc.Lists dir w' := by
  cases pc with
  | listFresh _ => exact hk.path _ _ h
  | names _ _ => exact hk.path _ _ h
  | gather _ _ _ _ => exact ⟨hk.path _ _ h.1, h.2⟩
  | internAll _ =>
      obtain ⟨path, hpath, hfound⟩ := h
      exact ⟨path, hk.path _ _ hpath, hfound⟩
  | listRemote _ => exact hk.path _ _ h
  | listed _ _ => exact hk.path _ _ h
  | record _ _ _ => exact hk.path _ _ h
  | stampAll _ _ _ => exact hk.path _ _ h
  | done answer =>
      cases answer with
      | entries result =>
          cases result with
          | ok listing => exact fun e he => World.LeadsTo.keeps hk (h e he)
          | error _ => trivial
      | _ => trivial
  | _ => exact h

lemma CallPc.Steps.follows {pc pc' : CallPc} (h : CallPc.Steps R w pc pc' w')
    (hk : w.KeepsNames w') (hpc : pc.Follows parent name w) : pc'.Follows parent name w' := by
  cases h with
  | lookup hchild =>
      obtain ⟨rfl, rfl⟩ := hpc
      exact ⟨⟨rfl, rfl⟩, hchild⟩
  | lookupBad _ => trivial
  | negativeHit _ => trivial
  | negativeMiss _ =>
      obtain ⟨⟨rfl, rfl⟩, hchild⟩ := hpc
      exact ⟨rfl, hchild⟩
  | fresh _ => exact hpc
  | expired _ => exact hpc
  | cached _ =>
      obtain ⟨rfl, hchild⟩ := hpc
      exact hchild
  | uncached _ _ => exact hpc
  | uncachedOffline _ _ =>
      obtain ⟨rfl, -⟩ := hpc
      trivial
  | statFound _ => exact ⟨hpc.1, hk.childPath hpc.2⟩
  | statMissing _ => exact hpc.1
  | statFailed _ _ => exact ⟨hpc.1, hk.childPath hpc.2⟩
  | put => exact ⟨hpc.1, hk.childPath hpc.2⟩
  | stampLookup =>
      obtain ⟨hcaller, hchild⟩ := hpc
      cases hcaller
      exact ⟨_, hk.childPath hchild, State.node_intern_self _⟩
  | stamp hcaller => exact absurd hpc.1 (hcaller _ _)
  | dropLookup => rfl
  | drop hcaller => exact absurd hpc (hcaller _ _)
  | fallback _ _ =>
      obtain ⟨rfl, hchild⟩ := hpc
      exact hchild
  | noFallback =>
      obtain ⟨rfl, -⟩ := hpc
      trivial
  | intern => exact ⟨_, hk.childPath hpc, State.node_intern_self _⟩
  | @negate _ _ answer =>
      -- a name that is missing is answered without a node
      cases answer with
      | metadata result =>
          cases result with
          | ok answer => cases hpc
          | error _ => trivial
      | _ => trivial
  | idle => exact CallPc.Follows.keeps hpc hk
  | _ => exact hpc.elim

lemma TreePc.Steps.makes {pc pc' : TreePc} (h : TreePc.Steps R w pc pc' w')
    (hk : w.KeepsNames w') (hpc : pc.Makes parent name w) : pc'.Makes parent name w' := by
  have hresolve : ∀ {parentPath child : RemotePath},
      w.resolve parent name = .ok (parentPath, child) → w.childPath parent name = .ok child := by
    intro parentPath child h
    obtain ⟨hp, hjoin⟩ := World.resolve_ok h
    exact World.childPath_ok.mpr ⟨parentPath, hp, hjoin⟩
  cases h with
  | create h =>
      obtain ⟨rfl, rfl⟩ := hpc
      exact hresolve h
  | createBad => trivial
  | mkdir h =>
      obtain ⟨rfl, rfl⟩ := hpc
      exact hresolve h
  | mkdirBad => trivial
  | made _ => exact hk.childPath hpc
  | @makeFailed maker _ _ _ _ _ => cases maker <;> trivial
  | makePut => exact hk.childPath hpc
  | makeUnlist => exact hk.childPath hpc
  | @makeAnswer maker place attributes answer st hst =>
      cases maker with
      | create =>
          rw [Maker.answer_create] at hst
          obtain ⟨rfl, rfl⟩ := Prod.mk.inj hst
          exact ⟨place.path, hk.childPath hpc, State.node_intern_self _⟩
      | mkdir =>
          rw [Maker.answer_mkdir] at hst
          obtain ⟨rfl, rfl⟩ := Prod.mk.inj hst
          exact ⟨place.path, hk.childPath hpc, State.node_intern_self _⟩
  | idle => exact TreePc.Makes.keeps hpc hk
  | _ => exact hpc.elim

lemma TreePc.lists_unlisted {path : RemotePath} (h : w.state.path dir = some path)
    (error : Option Error) : (TreePc.unlisted w path error).Lists dir w := by
  unfold TreePc.unlisted
  split
  · trivial
  · split
    · trivial
    · exact h

lemma TreePc.Steps.lists {pc pc' : TreePc} (h : TreePc.Steps R w pc pc' w')
    (hk : w.KeepsNames w') (hpc : pc.Lists dir w) : pc'.Lists dir w' := by
  cases h with
  | readdir hpath =>
      subst hpc
      exact hpath
  | readdirBad _ => trivial
  | listFresh _ => exact hpc
  | listExpired _ => exact hpc
  | names _ => exact ⟨hpc, fun c hc => nomatch hc⟩
  | noNames _ => exact lists_unlisted hpc _
  | gathered => exact ⟨_, hpc.1, hpc.2⟩
  | gatherBad _ => exact lists_unlisted hpc.1 _
  | gather hjoin _ =>
      refine ⟨hpc.1, fun c hc => ?_⟩
      rcases List.mem_append.mp hc with hold | hnew
      · exact hpc.2 c hold
      · rw [List.mem_singleton.mp hnew]
        exact hjoin
  | gatherSkip _ _ => exact hpc
  | @internAll found =>
      obtain ⟨path, hpath, hfound⟩ := hpc
      intro e he
      obtain ⟨c, hc, hname⟩ : ∃ c ∈ found, c.1 = e.name := by
        have hmem := List.mem_map_of_mem (f := DirectoryEntry.name) he
        rw [World.internChildren_names] at hmem
        exact List.mem_map.mp hmem
      have hjoin : path.join e.name = .ok c.2.1 := hname ▸ hfound c hc
      refine ⟨c.2.1, World.childPath_ok.mpr ⟨path, hk.path _ _ hpath, hjoin⟩, ?_⟩
      exact World.node_internChildren hfound e he _ hjoin
  | listed _ => exact hpc
  | listUnreachable _ _ => exact hpc
  | listFailed _ => trivial
  | dated => exact hpc
  | record => exact hpc
  | stampAll hst =>
      intro e he
      obtain ⟨child, -, -, hjoin, -⟩ := World.stampChildren_entry hst e he
      exact ⟨child, World.childPath_ok.mpr ⟨_, hk.path _ _ hpc, hjoin⟩,
        World.node_stampChildren hst e he child hjoin⟩
  | stampPartly _ => trivial
  | idle => exact TreePc.Lists.keeps hpc hk
  | _ => exact hpc.elim

end

/-! ## Sessions without renames -/

namespace Session

variable {ι : Type} [DecidableEq ι]

/-- What a call that was begun as `call` has come to. -/
def Faithful (call : SessionPc) (w : World ρ) (pc : SessionPc) : Prop :=
  match call, pc with
  | .call (.lookup parent name), .call pc => pc.Follows parent name w
  | .tree (.create parent name _ _), .tree pc => pc.Makes parent name w
  | .tree (.mkdir parent name _), .tree pc => pc.Makes parent name w
  | .tree (.readdir dir), .tree pc => pc.Lists dir w
  | .call _, .call _ => True
  | .tree _, .tree _ => True
  | _, _ => False

/-- The node that a call answers for a name. -/
inductive Answered : SessionPc → SessionPc → NodeId → Str → NodeId → Prop
  | lookup {parent name metadata} :
      Answered (.call (.lookup parent name)) (.call (.done (.metadata (.ok metadata)))) parent name
        metadata.node
  | create {parent name mode flags} {created : CreatedFile} :
      Answered (.tree (.create parent name mode flags)) (.tree (.done (.created (.ok created))))
        parent name created.metadata.node
  | mkdir {parent name mode} {metadata : FileMetadata} :
      Answered (.tree (.mkdir parent name mode)) (.tree (.done (.metadata (.ok metadata)))) parent
        name metadata.node
  | readdir {dir listing e} (h : e ∈ listing) :
      Answered (.tree (.readdir dir)) (.tree (.done (.entries (.ok listing)))) dir e.name
        e.metadata.node

omit [DecidableEq ι] in
lemma Faithful.leads {call pc : SessionPc} {w : World ρ} (h : Faithful call w pc) {parent : NodeId}
    {name : Str} {node : NodeId} (ha : Answered call pc parent name node) :
    w.LeadsTo parent name node := by
  cases ha with
  | lookup => exact h
  | create => exact h
  | mkdir => exact h
  | readdir he => exact h _ he

omit [DecidableEq ι] in
lemma faithful_start {call : SessionPc} (h : call.Begins) (w : World ρ) : Faithful call w call := by
  cases call with
  | call pc =>
      cases pc with
      | lookup parent name => exact ⟨rfl, rfl⟩
      | _ => trivial
  | tree pc =>
      cases pc with
      | create parent name mode flags => exact ⟨rfl, rfl⟩
      | mkdir parent name mode => exact ⟨rfl, rfl⟩
      | readdir dir => rfl
      | _ => trivial

omit [DecidableEq ι] in
lemma Faithful.keeps {call pc : SessionPc} {w w' : World ρ} (h : Faithful call w pc)
    (hk : w.KeepsNames w') : Faithful call w' pc := by
  unfold Faithful at h ⊢
  split at h
  · exact CallPc.Follows.keeps h hk
  · exact TreePc.Makes.keeps h hk
  · exact TreePc.Makes.keeps h hk
  · exact TreePc.Lists.keeps h hk
  · trivial
  · trivial
  · exact h.elim

omit [DecidableEq ι] in
lemma Faithful.step {call pc pc' : SessionPc} {w w' : World ρ} (h : Faithful call w pc)
    (hsteps : SessionPc.Steps R w pc pc' w') (hk : w.KeepsNames w') : Faithful call w' pc' := by
  cases hsteps with
  | call hsteps =>
      cases call with
      | call begun =>
          cases begun with
          | lookup parent name => exact hsteps.follows hk h
          | _ => trivial
      | tree begun => cases begun <;> exact h.elim
  | tree hsteps =>
      cases call with
      | call begun => cases begun <;> exact h.elim
      | tree begun =>
          cases begun with
          | create parent name mode flags => exact hsteps.makes hk h
          | mkdir parent name mode => exact hsteps.makes hk h
          | readdir dir => exact hsteps.lists hk h
          | _ => trivial

/-- What holds of one call of a session without renames. -/
structure Steady (calls : ι → SessionPc) (i : ι) (pc : SessionPc) (w : World ρ) : Prop where
  quiet : ¬ pc.Renames
  knows : w.state.Knows pc.nodes
  faithful : Faithful (calls i) w pc

/-- **The invariant of a session without renames.** -/
def Named (calls : ι → SessionPc) : Session ι ρ → Prop :=
  Outline (fun w => w.state.Wf) (Steady calls) fun _ _ => True

lemma Named.step {calls : ι → SessionPc} {x : Session ι ρ} (hx : Named calls x)
    (m : Move ι (Beside ρ)) : Named calls (Session.step R x m) := by
  cases m with
  | env e =>
      have hstate := act_state e x.shared
      have hk : x.shared.KeepsNames (e.act x.shared) :=
        ⟨fun _ _ hp => by rw [hstate]; exact hp, fun _ _ hn => by rw [hstate]; exact hn⟩
      refine Outline.step_env hx ?_ fun i => ?_
      · rw [hstate]
        exact hx.shared
      · obtain ⟨hquiet, hknows, hfaithful⟩ := hx.task i
        exact ⟨hquiet, by rwa [hstate], hfaithful.keeps hk⟩
  | task i =>
      have hsteps := SessionPc.steps_next R x.shared (x.tasks i)
      obtain ⟨hquiet, hknows, hfaithful⟩ := hx.task i
      have hsection := section_of_steps hsteps hx.shared hknows
      have hk := hsteps.keepsNames hx.shared hknows hquiet
      apply Outline.step_task hx
      · exact hsection.wf hx.shared
      · exact ⟨hsteps.not_renames hquiet, knows_of_steps hsteps hx.shared hknows,
          hfaithful.step hsteps hk⟩
      · intro j _
        obtain ⟨hquiet, hknows, hfaithful⟩ := hx.task j
        exact ⟨hquiet, fun n hn => hsection.known hx.shared (hknows n hn), hfaithful.keeps hk⟩
      · exact fun _ _ => ⟨trivial, trivial⟩

/-- **One node for one path.**  In a session without renames, whatever the interleaving, any two
nodes that `lookup`, `readdir`, `create` and `mkdir` have answered for two names are equal exactly
if the names lead to the same path. -/
theorem session_same_node (R : RemoteFilesystem ρ) {calls : ι → SessionPc}
    (hcalls : ∀ i, (calls i).Begins) (hquiet : ∀ i, ¬ (calls i).Renames) {w : World ρ}
    (hw : w.state.Wf) (ms : List (Move ι (Beside ρ))) {i j : ι} {parent parent' n n' : NodeId}
    {name name' : Str}
    (hi : Answered (calls i) ((after R ⟨calls, w⟩ ms).tasks i) parent name n)
    (hj : Answered (calls j) ((after R ⟨calls, w⟩ ms).tasks j) parent' name' n') :
    ∃ p p', (after R ⟨calls, w⟩ ms).shared.childPath parent name = .ok p ∧
      (after R ⟨calls, w⟩ ms).shared.childPath parent' name' = .ok p' ∧ (n = n' ↔ p = p') := by
  have hstart : Named calls (⟨calls, w⟩ : Session ι ρ) := by
    refine ⟨hw, fun k => ⟨hquiet k, ?_, faithful_start (hcalls k) w⟩, fun _ _ _ => trivial⟩
    show w.state.Knows (calls k).nodes
    rw [nodes_of_begins (hcalls k)]
    exact .nil
  have hend : Named calls (after R ⟨calls, w⟩ ms) :=
    invariant_of_step (fun x m hx => hx.step m) hstart ms
  obtain ⟨p, hp, hn⟩ := (hend.task i).faithful.leads hi
  obtain ⟨p', hp', hn'⟩ := (hend.task j).faithful.leads hj
  refine ⟨p, p', hp, hp', ?_⟩
  constructor
  · -- a node has one path
    rintro rfl
    have hpath := hend.shared.node_path p n hn
    have hpath' := hend.shared.node_path p' n hn'
    exact Option.some.inj (hpath.symm.trans hpath')
  · rintro rfl
    exact Option.some.inj (hn.symm.trans hn')

/-- Two lookups of one name, begun before either has interned it. -/
def twinCalls : Fin 3 → SessionPc
  | 0 => .call (.lookup NodeId.root ['a'])
  | 1 => .call (.lookup NodeId.root ['a'])
  | 2 => .tree (.create NodeId.root ['c'] 0o644 {})

lemma twinCalls_begin : ∀ i, (twinCalls i).Begins
  | 0 => trivial
  | 1 => trivial
  | 2 => trivial

lemma twinCalls_quiet : ∀ i, ¬ (twinCalls i).Renames
  | 0 => id
  | 1 => id
  | 2 => id

def twinMoves : List (Move (Fin 3) (Beside Memory)) :=
  List.replicate 4 (.task 0) ++ List.replicate 8 (.task 1) ++ List.replicate 4 (.task 0)

theorem session_same_node_example :
    ∃ m m', (after Memory.filesystem ⟨twinCalls, sampleMount⟩ twinMoves).tasks 0 =
        .call (.done (.metadata (.ok m))) ∧
      (after Memory.filesystem ⟨twinCalls, sampleMount⟩ twinMoves).tasks 1 =
        .call (.done (.metadata (.ok m'))) ∧ m.node = m'.node := by
  refine ⟨_, _, rfl, rfl, ?_⟩
  have hwf : sampleMount.state.Wf := State.wf_new _
  obtain ⟨p, p', hp, hp', hiff⟩ := session_same_node Memory.filesystem twinCalls_begin
    twinCalls_quiet hwf twinMoves (i := 0) (j := 1) (@Answered.lookup NodeId.root ['a'] _)
    (@Answered.lookup NodeId.root ['a'] _)
  exact hiff.mpr (Except.ok.inj (hp.symm.trans hp'))

end Session

end CacheShfs
