import CacheShfs.Sftp.Contract
import CacheShfs.Vfs.Alone
import CacheShfs.Vfs.Atomic
import CacheShfs.Vfs.Identity
import CacheShfs.Vfs.Listings
import CacheShfs.Vfs.Unreachable

/-!
# The only client

A mount that has its remote to itself and renames nothing.  The results about exclusive access ask
of each call that it leaves no negative entry and no handle behind that names another path by now;
without renames every call is of this kind, over a remote that keeps the `Contract`.  `Sole` puts
together what then holds in every state, and the lemmas after it say of each call, in terms of the
remote's tree alone, what it answers and what it changes.
-/

namespace CacheShfs

open Machine Slice

/-- The call is a rename. -/
def Call.Renames : Call → Prop
  | .rename _ _ _ _ => True
  | _ => False

/-! ## What the remote has refused -/

/-- The change that a call asked for in vain. -/
def RemoteCall.refused : RemoteCall → Option Mutation
  | .write path offset data (.error _) => some (.write path offset data)
  | .create path mode (.error _) => some (.create path mode)
  | .mkdir path mode (.error _) => some (.mkdir path mode)
  | .unlink path (.error _) => some (.unlink path)
  | .rmdir path (.error _) => some (.rmdir path)
  | .rename src dst (.error _) => some (.rename src dst)
  | .setattr path attributes (.error _) => some (.setattr path attributes)
  | _ => none

namespace Conn

variable {ρ : Type} {c c' : Conn ρ}

/-- The changes that the remote has refused so far, newest first. -/
def refused (c : Conn ρ) : List Mutation := c.log.filterMap fun x => x.2.refused

lemma refused_record {call : RemoteCall} {m : Mutation} {r : ρ} (h : call.refused = some m) :
    (c.record call r).refused = m :: c.refused :=
  List.filterMap_cons_some h

lemma refused_eq_of_asked (h : Asked (fun call => call.refused = none) c c') :
    c'.refused = c.refused := by
  obtain ⟨calls, hlog, hcalls⟩ := h
  have hnone : calls.filterMap (fun x => x.2.refused) = [] :=
    List.filterMap_eq_nil_iff.mpr hcalls
  rw [refused, hlog, List.filterMap_append, hnone]
  rfl

end Conn

namespace World

variable {ρ : Type} {R : RemoteFilesystem ρ} {view : ρ → Tree} {w : World ρ}

/-! ## What holds in every state -/

/-- **The invariant of a mount that is the only client and renames nothing.** -/
structure Sole (view : ρ → Tree) (w : World ρ) : Prop where
  coherent : Coherent view w
  handles : HandlesCoherent w.state
  registered : AllRegistered w.state
  listings : ListingsCoherent view w

lemma sole_new {config : Config} (hmode : config.cacheMode = .onDemand) (conn : Conn ρ) :
    Sole view (World.new config Disk.empty conn) where
  coherent := coherent_new hmode conn
  handles h f hf := by cases hf
  registered := allRegistered_new config.root
  listings := listingsCoherent_new (by rw [hmode]; decide) conn

lemma Sole.registryOk (h : Sole view w) : Session.RegistryOk w.state :=
  ⟨h.coherent.wf, fun fh f hf => by rw [h.handles fh f hf]; rfl⟩

/-- A path has one node, so a new path has no other negative entry. -/
lemma Sole.negativesCleared (h : Sole view w) {parent : NodeId} {name : Str}
    {parentPath child : RemotePath} (hres : w.resolve parent name = .ok (parentPath, child)) :
    w.NegativesCleared parent name child := by
  intro n x _ hne hchild
  obtain ⟨hparent, hjoin⟩ := resolve_ok hres
  obtain ⟨p, hp, hjoin'⟩ := childPath_ok.mp hchild
  obtain ⟨hvalid, hkey⟩ := RemotePath.join_ok_iff.mp hjoin
  obtain ⟨hvalid', hkey'⟩ := RemotePath.join_ok_iff.mp hjoin'
  have hnodes := h.listings.nodes
  have hsame := hkey'.symm.trans hkey
  obtain rfl : p = parentPath := RemotePath.ext
    ((hnodes n p hp).eq_of_childKey_eq (hnodes parent parentPath hparent) hvalid' hvalid hsame)
  have hnode := (h.registered.oneNode h.coherent.wf).injective n parent p hp hparent
  exact hne (Prod.ext hnode (childKey_right_inj hsame))

lemma Sole.careful (h : Sole view w) {call : Call} (hcall : ¬ call.Renames) :
    w.Careful R view (.call call) := by
  cases call with
  | rename _ _ _ _ => exact absurd trivial hcall
  | create _ _ _ _ => exact fun _ _ _ hres _ => h.negativesCleared hres
  | mkdir _ _ _ => exact fun _ _ _ hres _ => h.negativesCleared hres
  | read handle _ _ =>
      intro file p hfile hp hne
      rw [h.handles handle file hfile] at hp
      exact absurd (Option.some.inj hp).symm hne
  | _ => trivial

/-- A call that is no rename meets every condition on renames. -/
lemma not_renames {call : Call} (hcall : ¬ call.Renames) :
    w.ListingsCareful R view (.call call) ∧ w.RenamesClosed R (.call call) ∧
      FreeTarget R w (.call call) := by
  cases call with
  | rename _ _ _ _ => exact absurd trivial hcall
  | _ => exact ⟨trivial, trivial, fun _ _ hrename => absurd hrename id⟩

/-- **A call keeps the invariant.** -/
lemma Sole.exec (hR : Contract R view) (h : Sole view w) {call : Call} (hcall : ¬ call.Renames) :
    Sole view (w.exec R call) := by
  have hrenames : w.ListingsCareful R view (.call call) ∧ w.RenamesClosed R (.call call) ∧
      FreeTarget R w (.call call) := not_renames hcall
  obtain ⟨hlist, hclosed, hfree⟩ := hrenames
  have hwf := h.coherent.wf
  have horderly := orderly_of_mutates hR.answers hR.mutates w (.call call)
  exact {
    coherent := coherent_step hR.answers.toStatsTree hR.mutates.file_size w (.call call)
      ⟨trivial, horderly, failsUnseen_of_mutates hR.mutates w _, h.careful hcall⟩ h.coherent
    handles := (handlesCoherent_step w (.call call) hclosed ⟨hwf, h.handles⟩).2
    registered := (allRegistered_step w (.call call) hfree ⟨hwf, h.registered⟩).2
    listings := listingsCoherent_step hR.answers.toStatsTree hR.lists w (.call call)
      ⟨trivial, horderly, failsUnlisted_of_mutates hR.mutates w _, hlist⟩ h.listings }

lemma Sole.tick (hR : Contract R view) (h : Sole view w) (d : ℕ) :
    Sole view { w with conn := { w.conn with now := w.conn.now + d } } where
  coherent := coherent_step hR.answers.toStatsTree hR.mutates.file_size w (.tick d)
    ⟨trivial, trivial, trivial, trivial⟩ h.coherent
  handles := h.handles
  registered := h.registered
  listings := ⟨h.listings.online, h.listings.nodes, h.listings.listings⟩

/-! ## Names -/

/-- A node keeps its path. -/
lemma path_kept (hw : w.state.Wf) {call : Call} (hcall : ¬ call.Renames) {n : NodeId}
    {p : RemotePath} (hp : w.state.path n = some p) : (w.exec R call).state.path n = some p := by
  rcases registry_outcome (outcome_exec R w call) hw with hreg | ⟨src, dst, hrename, -⟩
  · rw [hreg.path_old n (hw.path_lt n p hp)]
    exact hp
  · cases call with
    | rename _ _ _ _ => exact absurd trivial hcall
    | _ => exact absurd hrename id

/-- The node that a call answers for a path has this path. -/
lemma path_returned (hw : w.state.Wf) {call : Call} {p : RemotePath} {n : NodeId}
    (h : Returns R w p n call) : (w.exec R call).state.path n = some p :=
  (wf_outcome (outcome_exec R w call) hw).node_path p n (node_of_returns h)

/-! ## Calls that change the tree -/

/-- A call is refused before it asks for anything. -/
def Unasked (w : World ρ) (call : Call) : Prop :=
  w.config.readOnly = true ∨ ∀ m, ¬ w.Asks call m

/-- A call has been refused before it asks, or the remote has answered what it asks for. -/
inductive Asked (R : RemoteFilesystem ρ) (w : World ρ) (call : Call) (failure : Option Error)
    (conn : Conn ρ) : Prop
  | unasked (hwhy : w.Unasked call) (hfailure : failure ≠ none) (hconn : conn = w.conn)
  | answered (m : Mutation) (hasks : w.Asks call m)
      (hremote : conn.remote = (m.run R w.conn.remote).2)
      (hanswer : failure = errorOf (m.run R w.conn.remote).1)
      (hrefused : failure ≠ none → conn.refused = m :: w.conn.refused)

lemma errorOf_map {α β : Type} (f : α → β) (answer : Except Error α) :
    errorOf (answer.map f) = errorOf answer := by
  cases answer <;> rfl

lemma Asked.of_answer {α : Type} {answer : Except Error α} {call : Call} {m : Mutation}
    (entry : Except Error α → RemoteCall) (hentry : ∀ e, (entry (.error e)).refused = some m)
    (hasks : w.Asks call m) (hrun : (m.run R w.conn.remote).1 = answer.map fun _ => ()) :
    Asked R w call (errorOf answer)
      (w.conn.record (entry answer) (m.run R w.conn.remote).2) := by
  refine .answered m hasks rfl (by rw [hrun, errorOf_map]) fun hfailure => ?_
  cases answer with
  | ok _ => exact absurd rfl hfailure
  | error e => exact Conn.refused_record (hentry e)

lemma readOnly_of_error {e : Error} (h : w.ensureWritable = .error e) :
    w.config.readOnly = true := by
  unfold ensureWritable at h
  split at h
  · assumption
  · cases h

/-- Without a path for the name, nothing is asked. -/
lemma resolve_error {parent : NodeId} {name : Str} {e : Error}
    (h : w.resolve parent name = .error e) :
    w.config.readOnly = true ∨ ∀ path, w.childPath parent name ≠ .ok path := by
  cases hwritable : w.ensureWritable with
  | error e' => exact .inl (readOnly_of_error hwritable)
  | ok _ =>
      refine .inr fun path hpath => ?_
      obtain ⟨p, hp, hjoin⟩ := childPath_ok.mp hpath
      simp [resolve, hwritable, State.pathOf_ok.mpr hp, hjoin, bind, Except.bind, pure,
        Except.pure] at h

lemma resolveRename_error {parent newParent : NodeId} {name newName : Str} {e : Error}
    (h : w.resolveRename parent name newParent newName = .error e) :
    w.config.readOnly = true ∨ ∀ src dst, w.childPath parent name = .ok src →
      w.childPath newParent newName ≠ .ok dst := by
  cases hwritable : w.ensureWritable with
  | error e' => exact .inl (readOnly_of_error hwritable)
  | ok _ =>
      refine .inr fun src dst hsrc hdst => ?_
      obtain ⟨p, hp, hjoin⟩ := childPath_ok.mp hsrc
      obtain ⟨q, hq, hjoin'⟩ := childPath_ok.mp hdst
      simp [resolveRename, hwritable, State.pathOf_ok.mpr hp, State.pathOf_ok.mpr hq, hjoin,
        hjoin', bind, Except.bind, pure, Except.pure] at h

lemma path_ne_of_pathOf {node : NodeId} {e : Error} (h : w.state.pathOf node = .error e)
    (path : RemotePath) : w.state.path node ≠ some path := by
  intro hpath
  rw [State.pathOf_ok.mpr hpath] at h
  cases h

/-! What each of the mutating calls asks for. -/

lemma requests_write (handle : FileHandle) (offset : UInt64) (data : Bytes) :
    Asked R w (.write handle offset data) (errorOf (w.write R handle offset data).1)
      (w.write R handle offset data).2.conn := by
  unfold write
  split
  · next hreadOnly => exact .unasked (.inl (readOnly_of_error hreadOnly)) nofun rfl
  · split
    · next hfile =>
        refine .unasked (.inr fun m hask => ?_) nofun rfl
        obtain ⟨file, hsome, -⟩ := hask
        rw [hfile] at hsome
        cases hsome
    · next file hfile =>
        have hask : w.Asks (.write handle offset data) (.write file.path offset data) :=
          ⟨file, hfile, rfl⟩
        split <;> next hcall =>
          obtain ⟨hans, rfl⟩ := Conn.write_eq hcall
          exact .of_answer (.write file.path offset data) (fun _ => rfl) hask
            (congrArg (Except.map fun _ => ()) hans)

lemma requests_create (parent : NodeId) (name : Str) (mode : UInt32) (flags : OpenFlags) :
    Asked R w (.create parent name mode flags) (errorOf (w.create R parent name mode flags).1)
      (w.create R parent name mode flags).2.conn := by
  unfold create
  split
  · next hres =>
      exact .unasked ((resolve_error hres).imp_right fun hno _ ⟨path, hpath, _⟩ => hno path hpath)
        nofun rfl
  · next child hres =>
      have hask : w.Asks (.create parent name mode flags) (.create child mode) :=
        ⟨child, childPath_of_resolve hres, rfl⟩
      split <;> next hcall =>
        obtain ⟨hans, rfl⟩ := Conn.create_eq hcall
        exact .of_answer (.create child mode) (fun _ => rfl) hask
          (congrArg (Except.map fun _ => ()) hans)

lemma requests_mkdir (parent : NodeId) (name : Str) (mode : UInt32) :
    Asked R w (.mkdir parent name mode) (errorOf (w.mkdir R parent name mode).1)
      (w.mkdir R parent name mode).2.conn := by
  unfold mkdir
  split
  · next hres =>
      exact .unasked ((resolve_error hres).imp_right fun hno _ ⟨path, hpath, _⟩ => hno path hpath)
        nofun rfl
  · next child hres =>
      have hask : w.Asks (.mkdir parent name mode) (.mkdir child mode) :=
        ⟨child, childPath_of_resolve hres, rfl⟩
      split <;> next hcall =>
        obtain ⟨hans, rfl⟩ := Conn.mkdir_eq hcall
        exact .of_answer (.mkdir child mode) (fun _ => rfl) hask
          (congrArg (Except.map fun _ => ()) hans)

lemma requests_unlink (parent : NodeId) (name : Str) :
    Asked R w (.unlink parent name) (errorOf (w.unlink R parent name).1)
      (w.unlink R parent name).2.conn := by
  unfold unlink
  split
  · next hres =>
      exact .unasked ((resolve_error hres).imp_right fun hno _ ⟨path, hpath, _⟩ => hno path hpath)
        nofun rfl
  · next child hres =>
      have hask : w.Asks (.unlink parent name) (.unlink child) :=
        ⟨child, childPath_of_resolve hres, rfl⟩
      split <;> next hcall =>
        obtain ⟨hans, rfl⟩ := Conn.unlink_eq hcall
        exact .of_answer (.unlink child) (fun _ => rfl) hask hans

lemma requests_rmdir (parent : NodeId) (name : Str) :
    Asked R w (.rmdir parent name) (errorOf (w.rmdir R parent name).1)
      (w.rmdir R parent name).2.conn := by
  unfold rmdir
  split
  · next hres =>
      exact .unasked ((resolve_error hres).imp_right fun hno _ ⟨path, hpath, _⟩ => hno path hpath)
        nofun rfl
  · next child hres =>
      have hask : w.Asks (.rmdir parent name) (.rmdir child) :=
        ⟨child, childPath_of_resolve hres, rfl⟩
      split <;> next hcall =>
        obtain ⟨hans, rfl⟩ := Conn.rmdir_eq hcall
        exact .of_answer (.rmdir child) (fun _ => rfl) hask hans

lemma requests_rename (parent : NodeId) (name : Str) (newParent : NodeId) (newName : Str) :
    Asked R w (.rename parent name newParent newName)
      (errorOf (w.rename R parent name newParent newName).1)
      (w.rename R parent name newParent newName).2.conn := by
  unfold rename
  split
  · next hres =>
      exact .unasked ((resolveRename_error hres).imp_right
        fun hno _ ⟨src, dst, hsrc, hdst, _⟩ => hno src dst hsrc hdst) nofun rfl
  · next srcParent dstParent src dst hres =>
      obtain ⟨hsrc, hdst⟩ := childPath_of_resolveRename hres
      have hask : w.Asks (.rename parent name newParent newName) (.rename src dst) :=
        ⟨src, dst, hsrc, hdst, rfl⟩
      split <;> next hcall =>
        obtain ⟨hans, rfl⟩ := Conn.rename_eq hcall
        exact .of_answer (.rename src dst) (fun _ => rfl) hask hans

lemma requests_setattr (node : NodeId) (attributes : SetAttributes) :
    Asked R w (.setattr node attributes) (errorOf (w.setattr R node attributes).1)
      (w.setattr R node attributes).2.conn := by
  unfold setattr
  split
  · next hreadOnly => exact .unasked (.inl (readOnly_of_error hreadOnly)) nofun rfl
  · split
    · next hpath =>
        exact .unasked (.inr fun _ ⟨path, hsome, _⟩ => path_ne_of_pathOf hpath path hsome) nofun rfl
    · next path hpath =>
        have hask : w.Asks (.setattr node attributes) (.setattr path attributes) :=
          ⟨path, State.pathOf_ok.mp hpath, rfl⟩
        split <;> next hcall =>
          obtain ⟨hans, rfl⟩ := Conn.setattr_eq hcall
          exact .of_answer (.setattr path attributes) (fun _ => rfl) hask
            (congrArg (Except.map fun _ => ()) hans)

lemma requests_openFile (node : NodeId) {flags : OpenFlags} (htruncate : flags.truncate = true) :
    Asked R w (.openFile node flags) (errorOf (w.openFile R node flags).1)
      (w.openFile R node flags).2.conn := by
  simp only [openFile, htruncate, Bool.or_true, if_true]
  split
  · next hreadOnly =>
      exact .unasked (.inl (readOnly_of_error hreadOnly)) (Option.some_ne_none _) rfl
  · split
    · next hpath =>
        refine .unasked (.inr ?_) (Option.some_ne_none _) rfl
        rintro m ⟨_, path, hsome, _⟩
        exact path_ne_of_pathOf hpath path hsome
    · next path hpath =>
        have hask : w.Asks (.openFile node flags) (.setattr path { size := some 0 }) :=
          ⟨htruncate, path, State.pathOf_ok.mp hpath, rfl⟩
        split <;> next hcall =>
          obtain ⟨hans, rfl⟩ := Conn.setattr_eq hcall
          exact .of_answer (.setattr path { size := some 0 }) (fun _ => rfl) hask
            (congrArg (Except.map fun _ => ()) hans)

/-- **A call that mutates asks for one change**, or has been refused before. -/
lemma asked_of_mutates {call : Call} (hmut : call.Mutates) :
    Asked R w call (w.failure R call) (w.exec R call).conn := by
  cases call with
  | write handle offset data => exact requests_write handle offset data
  | create parent name mode flags => exact requests_create parent name mode flags
  | mkdir parent name mode => exact requests_mkdir parent name mode
  | unlink parent name => exact requests_unlink parent name
  | rmdir parent name => exact requests_rmdir parent name
  | rename parent name newParent newName => exact requests_rename parent name newParent newName
  | setattr node attributes => exact requests_setattr node attributes
  | openFile node flags => exact requests_openFile node hmut
  | lookup _ _ | getattr _ | readdir _ | read _ _ _ | flush _ | release _ => exact hmut.elim

/-- A call that fails changes nothing. -/
lemma view_of_failure (hR : Contract R view) {call : Call} (hmut : call.Mutates) {e : Error}
    (h : w.failure R call = some e) : view (w.exec R call).conn.remote = view w.conn.remote := by
  cases asked_of_mutates (R := R) (w := w) hmut with
  | unasked _ _ hconn => rw [hconn]
  | answered m _ hremote hanswer _ =>
      rw [hremote]
      rw [h] at hanswer
      cases hrun : (m.run R w.conn.remote).1 with
      | ok _ =>
          rw [hrun] at hanswer
          cases hanswer
      | error e' => exact hR.mutates.refuses m _ e' hrun

/-- A call that succeeds makes the change that it asks for. -/
lemma effect_of_success (hR : Contract R view) (call : Call) (hmut : call.Mutates)
    (h : w.failure R call = none) : ∃ m, w.Asks call m ∧
      m.change.Effect (view w.conn.remote) (view (w.exec R call).conn.remote) := by
  cases asked_of_mutates (R := R) (w := w) hmut with
  | unasked _ hfailure _ => exact absurd h hfailure
  | answered m hasks hremote hanswer _ =>
      refine ⟨m, hasks, ?_⟩
      rw [hremote]
      rw [h] at hanswer
      cases hrun : (m.run R w.conn.remote).1 with
      | ok _ => exact hR.effect m _ hrun
      | error e =>
          rw [hrun] at hanswer
          cases hanswer

/-- The tree is as it was, and nothing has been refused. -/
def Unchanged (view : ρ → Tree) (c c' : Conn ρ) : Prop :=
  view c'.remote = view c.remote ∧ c'.refused = c.refused

lemma unchanged_stat (hR : Contract R view) {path : RemotePath} {conn : Conn ρ}
    {answer : Except Error FileAttributes} (h : w.conn.stat R path = (answer, conn)) :
    Unchanged view w.conn conn := by
  rw [(Conn.stat_eq h).2]
  exact ⟨hR.answers.view_stat _ _, rfl⟩

lemma unchanged_readDir (hR : Contract R view) {path : RemotePath} {conn : Conn ρ}
    {answer : Except Error (List RemoteDirectoryEntry)}
    (h : w.conn.readDir R path = (answer, conn)) : Unchanged view w.conn conn := by
  rw [(Conn.readDir_eq h).2]
  exact ⟨hR.answers.view_readDir _ _, rfl⟩

lemma unchanged_reads (hR : Contract R view) {path : RemotePath} {c c' : Conn ρ}
    (h : Store.OnlyReads R path c c') : Unchanged view c c' := by
  obtain ⟨calls, hlog, hcalls⟩ := h.log
  refine ⟨h.view hR.answers.toHonestReads, Conn.refused_eq_of_asked ⟨calls, hlog, fun x hx => ?_⟩⟩
  obtain ⟨o, n, answer, rfl⟩ := hcalls x hx
  rfl

lemma unchanged_of_outcome (hR : Contract R view) {w' : World ρ} {call : Call}
    (h : Outcome R w call w') (hmut : ¬ call.Mutates)
    (hopen : ∀ node flags, call ≠ .openFile node flags) : Unchanged view w.conn w'.conn := by
  induction h with
  | known _ => exact ⟨rfl, rfl⟩
  | failed hfail _ =>
      cases hfail with
      | stat hstat => exact unchanged_stat hR hstat
      | readDir hread => exact unchanged_readDir hR hread
      | asked hasks _ => exact absurd (mutates_of_asks hasks) hmut
  | lookupFound _ _ _ _ hstat => exact unchanged_stat hR hstat
  | lookupMissing _ _ hstat => exact unchanged_stat hR hstat
  | getattrFound _ _ _ hstat => exact unchanged_stat hR hstat
  | getattrMissing _ _ hstat => exact unchanged_stat hR hstat
  | listed _ _ _ hread _ => exact unchanged_readDir hR hread
  | listedPartly _ _ _ hread _ => exact unchanged_readDir hR hread
  | opened _ => exact absurd rfl (hopen _ _)
  | truncated _ _ _ => exact absurd rfl (hopen _ _)
  | readThrough _ _ => exact ⟨hR.answers.view_read _ _ _ _, rfl⟩
  | readRejected _ _ _ ih => exact ih id fun _ _ h => Call.noConfusion h
  | @readContent _ offset size file metadata w' _ _ _ _ ih =>
      have hattr : Unchanged view w.conn w'.conn := ih id fun _ _ h => Call.noConfusion h
      have hreads := unchanged_reads hR
        (Store.read_frame (R := R) file.path metadata.attributes offset size w'.store w'.conn).2
      exact ⟨hreads.1.trans hattr.1, hreads.2.trans hattr.2⟩
  | released => exact ⟨rfl, rfl⟩
  | _ => exact absurd trivial hmut

/-- A call that does not mutate leaves the tree alone, and nothing is refused. -/
lemma unchanged_of_not_mutates (hR : Contract R view) {call : Call} (hmut : ¬ call.Mutates) :
    Unchanged view w.conn (w.exec R call).conn := by
  cases call with
  | openFile node flags =>
      have hkeep : ¬ flags.truncate = true := hmut
      simp only [exec, openFile, hkeep]
      split
      · exact ⟨rfl, rfl⟩
      · split <;> exact ⟨rfl, rfl⟩
  | _ => exact unchanged_of_outcome hR (outcome_exec R w _) hmut fun _ _ h => Call.noConfusion h

lemma view_of_not_mutates (hR : Contract R view) {call : Call} (hmut : ¬ call.Mutates) :
    view (w.exec R call).conn.remote = view w.conn.remote :=
  (unchanged_of_not_mutates hR hmut).1

/-! ## What is answered -/

/-- Attributes that have been told of a path: they agree with the node that is there. -/
def Told (t : Tree) (path : RemotePath) (attributes : FileAttributes) : Prop :=
  ∃ node, t path.asStr = some node ∧ Agrees attributes node

lemma told_of_stat (hR : Contract R view) {path : RemotePath} {r : ρ}
    {told attributes : FileAttributes} (h : (R.stat path r).1 = .ok attributes)
    (hsame : SameFile told attributes) : Told (view r) path told := by
  cases hnode : view r path.asStr with
  | none =>
      rw [hR.answers.stat_none path r hnode] at h
      cases h
  | some node =>
      obtain ⟨a, ha, hdesc⟩ := hR.answers.stat_some path r node hnode
      obtain rfl : a = attributes := Except.ok.inj (ha.symm.trans h)
      refine ⟨node, hnode, hsame.1.trans hdesc.kind_eq, ?_⟩
      rintro f m rfl
      rw [hsame.2 (hsame.1.trans hdesc.1)]
      exact hdesc.2.1

lemma missing_of_stat (hR : Contract R view) {path : RemotePath} {r : ρ}
    (h : (R.stat path r).1 = .error .notFound) : view r path.asStr = none := by
  cases hnode : view r path.asStr with
  | none => rfl
  | some node =>
      obtain ⟨a, ha, -⟩ := hR.answers.stat_some path r node hnode
      rw [ha] at h
      cases h

lemma childPath_of_lookup {parent : NodeId} {name : Str} {metadata : FileMetadata}
    (hok : (w.lookup R parent name).1 = .ok metadata) :
    ∃ path, w.childPath parent name = .ok path := by
  cases hchild : w.childPath parent name with
  | ok path => exact ⟨path, rfl⟩
  | error e => simp [lookup, hchild] at hok

namespace Sole

variable {node parent : NodeId} {name : Str} {path : RemotePath} {metadata : FileMetadata}

/-- A lookup that answers tells of the path of the name. -/
lemma lookup_told (hR : Contract R view) (h : Sole view w)
    (hchild : w.childPath parent name = .ok path)
    (hok : (w.lookup R parent name).1 = .ok metadata) :
    Told (view w.conn.remote) path metadata.attributes ∧
      (w.exec R (.lookup parent name)).state.path metadata.node = some path := by
  obtain ⟨attributes, hstat, hsame⟩ :=
    (h.coherent.lookup_transparent hR.answers.toStatsTree parent name path hchild).1 metadata hok
  exact ⟨told_of_stat hR hstat hsame,
    path_returned h.coherent.wf ⟨hchild, metadata, hok, rfl⟩⟩

/-- A name that a lookup does not find does not exist. -/
lemma lookup_missing (hR : Contract R view) (h : Sole view w)
    (hchild : w.childPath parent name = .ok path)
    (hmissing : (w.lookup R parent name).1 = .error .notFound) :
    view w.conn.remote path.asStr = none :=
  missing_of_stat hR
    ((h.coherent.lookup_transparent hR.answers.toStatsTree parent name path hchild).2.mp hmissing)

lemma getattr_told (hR : Contract R view) (h : Sole view w)
    (hok : (w.getattr R node).1 = .ok metadata) :
    ∃ path, w.state.path node = some path ∧
      Told (view w.conn.remote) path metadata.attributes := by
  obtain ⟨path, attributes, hpath, hstat, hsame⟩ :=
    h.coherent.getattr_transparent hR.answers.toStatsTree node metadata hok
  exact ⟨path, hpath, told_of_stat hR hstat hsame⟩

/-- A read through a handle gives the bytes of the file that the handle was opened at. -/
lemma read_told (hR : Contract R view) (h : Sole view w) {handle : FileHandle} {file : OpenFile}
    {offset : UInt64} {size : UInt32} {data : Bytes} (hfile : w.state.file handle = some file)
    (hok : (w.read R handle offset size).1 = .ok data) :
    ∃ node, view w.conn.remote file.path.asStr = some node ∧
      ∀ f m, node = .file f m → data = Store.requested f offset size :=
  h.coherent.read_transparent hR.answers.toStatsTree hR.mutates.file_size handle offset size file
    data hfile (h.handles handle file hfile) hok

/-- A listing names the children of the directory, each once and with its kind. -/
lemma readdir_told (hR : Contract R view) (h : Sole view w) {entries : List DirectoryEntry}
    (hok : (w.readdir R node).1 = .ok entries) :
    ∃ path, w.state.path node = some path ∧
      ListsExactly (view w.conn.remote) path.asStr (entries.map DirectoryEntry.name) ∧
      ∀ e ∈ entries, ∃ child, view w.conn.remote (childKey path.asStr e.name) = some child ∧
        e.metadata.attributes.kind = child.kind ∧
        ∃ p, path.join e.name = .ok p ∧
          (w.exec R (.readdir node)).state.path e.metadata.node = some p := by
  obtain ⟨path, hpath, hexact⟩ :=
    h.listings.transparent hR.answers.toStatsTree hR.lists (.call (.readdir node))
      (orderly_of_mutates hR.answers hR.mutates w _) entries hok
  have hvalid : ∀ e ∈ entries, ValidComponent e.name := fun e he =>
    ((hexact.mem e.name).mp (List.mem_map_of_mem he)).1
  refine ⟨path, hpath, hexact, fun e he => ?_⟩
  have hjoin := path.join_eq_ok (hvalid e he)
  suffices hkind : ∃ child, view w.conn.remote (childKey path.asStr e.name) = some child ∧
      e.metadata.attributes.kind = child.kind by
    obtain ⟨child, hchild, hkind⟩ := hkind
    exact ⟨child, hchild, hkind, _, hjoin, path_returned h.coherent.wf
      ⟨path, entries, hpath, hok, e, he, hjoin, rfl⟩⟩
  obtain ⟨path', hpath', ⟨-, w', hcache, -⟩ | ⟨-, listed, hans, -, hresult, -⟩⟩ :=
    readdir_ok (fun p r m => hR.answers.readDir_reachable p r m) h.listings.online hok
  · obtain rfl : path' = path := Option.some.inj (hpath'.symm.trans hpath)
    obtain ⟨names, children, hnames, hchildren, rfl, -⟩ := readdirFromCache_ok hcache
    have hmem := List.mem_map_of_mem (f := DirectoryEntry.shown) he
    rw [internChildren_shown] at hmem
    obtain ⟨c, hc, hshown⟩ := List.mem_map.mp hmem
    obtain ⟨hname, hattributes⟩ := Prod.mk.inj hshown
    obtain ⟨-, hcjoin, hattrs⟩ := (mem_cachedChildren hchildren).mp hc
    rw [Store.getAttrs_eq] at hattrs
    obtain ⟨entry, hentry, hstored⟩ := Option.map_eq_some_iff.mp hattrs
    obtain ⟨child, hchild, hkind⟩ := h.coherent.entries _ entry hentry
    rw [(RemotePath.join_ok_iff.mp hcjoin).2, hname] at hchild
    exact ⟨child, hchild, by rw [← hattributes, ← hstored, hkind]⟩
  · obtain rfl : path' = path := Option.some.inj (hpath'.symm.trans hpath)
    have hmem : (e.name, e.metadata.attributes) ∈ realChildren listed := by
      rw [← hresult]
      exact List.mem_map_of_mem he
    obtain ⟨child, hchild, hdesc⟩ :=
      describes_of_listed (hR.answers.lists _ _) hans hmem (hvalid e he)
    exact ⟨child, hchild, hdesc.kind_eq⟩

/-! The calls that change the tree answer what they have made of it. -/

lemma told_of_described {t : Tree} {attributes : FileAttributes} {node : RemoteNode}
    (hdesc : Describes attributes node) :
    Told (Function.update t path.asStr (some node)) path attributes :=
  ⟨node, Function.update_self _ _ _, Describes.agrees hdesc⟩

lemma create_told (hR : Contract R view) (h : Sole view w) {mode : UInt32} {flags : OpenFlags}
    {created : CreatedFile} (hok : (w.create R parent name mode flags).1 = .ok created) :
    ∃ path, w.childPath parent name = .ok path ∧
      Told (view (w.exec R (.create parent name mode flags)).conn.remote) path
        created.metadata.attributes ∧
      (w.exec R (.create parent name mode flags)).state.path created.metadata.node = some path ∧
      w.state.file created.handle = none ∧
      ∀ fh, (w.exec R (.create parent name mode flags)).state.file fh =
        if fh = created.handle then some ⟨created.metadata.node, path⟩ else w.state.file fh := by
  obtain ⟨path, hchild, hnew, hfile⟩ := create_table h.coherent.wf hok
  obtain ⟨parentPath, path', attributes, conn, hres, hcreate, hend⟩ := create_eq hok
  obtain rfl : path' = path := Except.ok.inj ((childPath_of_resolve hres).symm.trans hchild)
  have hreturns : (w.exec R (.create parent name mode flags)).state.path created.metadata.node =
      some path' := path_returned h.coherent.wf ⟨⟨parentPath, hres⟩, created, hok, rfl⟩
  refine ⟨path', hchild, ?_, hreturns, hnew, hfile⟩
  rw [hend] at hok
  cases hok
  obtain ⟨hans, rfl⟩ := Conn.create_eq hcreate
  obtain ⟨f, m, -, hdesc, hview⟩ :=
    hR.mutates.does (.create path' mode) w.conn.remote attributes hans
  simp only [World.exec, hend, Conn.record_remote, hview]
  exact told_of_described hdesc

lemma mkdir_told (hR : Contract R view) (h : Sole view w) {mode : UInt32}
    (hok : (w.mkdir R parent name mode).1 = .ok metadata) :
    ∃ path, w.childPath parent name = .ok path ∧
      Told (view (w.exec R (.mkdir parent name mode)).conn.remote) path metadata.attributes ∧
      (w.exec R (.mkdir parent name mode)).state.path metadata.node = some path := by
  obtain ⟨parentPath, path, attributes, conn, hres, hmkdir, hend⟩ :
      ∃ parentPath path attributes conn, w.resolve parent name = .ok (parentPath, path) ∧
        w.conn.mkdir R path mode = (.ok attributes, conn) ∧
        w.mkdir R parent name mode = answerAs path attributes
          { w with
            conn := conn
            store := (w.store.putAttrs path attributes).invalidateChildren parentPath
            state := (w.state.stamp path conn.now).unnegate parent name } := by
    unfold mkdir at hok ⊢
    split at hok
    · cases hok
    · next parentPath path hres =>
        split at hok
        · cases hok
        · next attributes conn hmkdir =>
            exact ⟨parentPath, path, attributes, conn, hres, hmkdir, rfl⟩
  have hreturns : (w.exec R (.mkdir parent name mode)).state.path metadata.node = some path :=
    path_returned h.coherent.wf ⟨⟨parentPath, hres⟩, metadata, hok, rfl⟩
  refine ⟨path, childPath_of_resolve hres, ?_, hreturns⟩
  rw [hend] at hok
  cases hok
  obtain ⟨hans, rfl⟩ := Conn.mkdir_eq hmkdir
  obtain ⟨-, hdesc, hview⟩ := hR.mutates.does (.mkdir path mode) w.conn.remote attributes hans
  simp only [World.exec, hend, answerAs, Conn.record_remote, hview]
  exact told_of_described hdesc

lemma setattr_told (hR : Contract R view) {attributes : SetAttributes}
    (hok : (w.setattr R node attributes).1 = .ok metadata) :
    metadata.node = node ∧ ∃ path, w.state.path node = some path ∧
      Told (view (w.exec R (.setattr node attributes)).conn.remote) path metadata.attributes := by
  simp only [World.exec]
  unfold setattr at hok ⊢
  split at hok
  · cases hok
  · split at hok
    · cases hok
    · next path hpath =>
        split at hok
        · cases hok
        · next answer conn hset =>
            obtain ⟨hans, rfl⟩ := Conn.setattr_eq hset
            obtain ⟨old, new, -, -, hdesc, hview⟩ :=
              hR.mutates.does (.setattr path attributes) w.conn.remote answer hans
            cases hok
            refine ⟨rfl, path, State.pathOf_ok.mp hpath, ?_⟩
            simp only [Conn.record_remote, hview]
            exact told_of_described hdesc

/-- A write that answers has written everything. -/
lemma write_told (hR : Contract R view) {handle : FileHandle} {offset : UInt64} {data : Bytes}
    {written : UInt32} (hok : (w.write R handle offset data).1 = .ok written) :
    written = UInt32.ofNat data.length := by
  unfold write at hok
  split at hok
  · cases hok
  · split at hok
    · cases hok
    · next file _ =>
        split at hok
        · cases hok
        · next n conn hwrite =>
            cases hok
            exact hR.written file.path offset data w.conn.remote written (Conn.write_eq hwrite).1

end Sole

end World

end CacheShfs
