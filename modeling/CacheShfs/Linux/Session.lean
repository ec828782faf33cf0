import CacheShfs.Linux.Fs
import CacheShfs.Vfs.Alone

/-!
# What the kernel may rely on

A `Kernel` is a mount with what it has told the kernel: the inode numbers that replies have named,
the file handles that have been opened and not released, each with the inode number that it was
opened for, and all handles that have ever been given out.  The kernel sends requests in any
order and with any arguments, also with inode numbers and handles that it was never told.

`fuse_session`: every inode number that the kernel has been told is a node of the mount for as long
as the mount lives, the open files of the mount are exactly the handles that the kernel holds, each
open on its inode, no handle is given out twice, and neither is ever 0.  So a request is answered
with `ENOENT` on such an inode only where the remote itself has said so, or where an offline mount
has nothing cached (`getattr_noent`).
-/

namespace CacheShfs

open Machine

/-! ## Zero is no node and no handle -/

/-- No node and no handle has the number 0. -/
structure State.NoZero (st : State) : Prop where
  node : st.path ⟨0⟩ = none
  nextNode : 0 < st.nextNode
  nextHandle : 0 < st.nextHandle
  file : st.file ⟨0⟩ = none

namespace State.NoZero

variable {st st' : State}

lemma new (root : RemotePath) : (State.new root).NoZero := by
  refine ⟨?_, Nat.succ_pos _, Nat.one_pos, rfl⟩
  simp only [State.new, State.path, FMap.lookup_insert_eq_ite]
  rfl

lemma intern (h : st.NoZero) (path : RemotePath) : (st.intern path).2.NoZero where
  node := by
    cases hzero : (st.intern path).2.path ⟨0⟩ with
    | none => rfl
    | some p =>
        rcases State.path_intern_cases hzero with hold | ⟨-, hn⟩
        · rw [h.node] at hold
          cases hold
        · -- a new node has the next number
          have hnext := h.nextNode
          rw [← NodeId.mk.inj hn] at hnext
          exact absurd hnext (lt_irrefl _)
  nextNode := lt_of_lt_of_le h.nextNode (State.nextNode_le_intern path st)
  nextHandle := by rw [State.nextHandle_intern]; exact h.nextHandle
  file := by rw [State.file_intern]; exact h.file

lemma notes (h : st.NoZero) (hnotes : Notes st st') : st'.NoZero := by
  induction hnotes with
  | refl => exact h
  | stamp _ _ _ ih => exact ⟨ih.node, ih.nextNode, ih.nextHandle, ih.file⟩
  | unstamp _ _ ih => exact ⟨ih.node, ih.nextNode, ih.nextHandle, ih.file⟩
  | negate _ _ _ _ ih => exact ⟨ih.node, ih.nextNode, ih.nextHandle, ih.file⟩
  | unnegate _ _ _ ih => exact ⟨ih.node, ih.nextNode, ih.nextHandle, ih.file⟩
  | intern path _ ih => exact ih.intern path

lemma renamePath (h : st.NoZero) (hw : st.Wf) (src dst : RemotePath) :
    (st.renamePath src dst).NoZero where
  node := by
    rw [State.path_renamePath, if_neg]
    · exact h.node
    · intro hzero
      have hpath := hw.node_path src _ hzero
      rw [h.node] at hpath
      cases hpath
  nextNode := by
    have hnext : (st.renamePath src dst).nextNode = st.nextNode := by
      unfold State.renamePath
      split <;> rfl
    rw [hnext]
    exact h.nextNode
  nextHandle := by rw [State.nextHandle_renamePath]; exact h.nextHandle
  file := by rw [State.file_renamePath]; exact h.file

lemma sect (h : st.NoZero) (hw : st.Wf) (hsection : Section st st') : st'.NoZero := by
  cases hsection with
  | notes hnotes => exact h.notes hnotes
  | @opened mid hnotes node hnode path =>
      have hmid := h.notes hnotes
      refine ⟨hmid.node, hmid.nextNode, Nat.succ_pos _, ?_⟩
      rw [State.file_openHandle, if_neg]
      · exact hmid.file
      · intro hzero
        have hnext := hmid.nextHandle
        rw [← FileHandle.mk.inj hzero] at hnext
        exact absurd hnext (lt_irrefl _)
  | closed handle =>
      refine ⟨h.node, h.nextNode, h.nextHandle, ?_⟩
      rw [State.file_close]
      split
      · rfl
      · exact h.file
  | moved src dst hnotes => exact (h.renamePath hw src dst).notes hnotes

end State.NoZero

namespace World

variable {ρ : Type} {R : RemoteFilesystem ρ} {w : World ρ}

lemma noZero_exec (hw : Session.RegistryOk w.state) (h : w.state.NoZero) (call : Call) :
    (w.exec R call).state.NoZero := by
  have hkeeps : ∀ {pc pc' : SessionPc} {v v' : World ρ}, SessionPc.Steps R v pc pc' v' →
      Informed w.state pc v ∧ v.state.NoZero → Informed w.state pc' v' ∧ v'.state.NoZero := by
    rintro pc pc' v v' hsteps ⟨hi, hz⟩
    exact ⟨hi.step hsteps, hz.sect hi.wf (Session.section_of_steps hsteps hi.wf hi.nodes)⟩
  exact (SessionPc.Runs.induction hkeeps (runs_exec R w call) ⟨informed_task hw call, h⟩).2

end World

/-! ## Requests and calls -/

namespace Request

/-- The call of the mount that a request makes, if any. -/
def call (systemNow : Int) : Request → Option Call
  | .lookup parent name => name.toStr.map fun name => .lookup parent name
  | .getattr ino => some (.getattr ino)
  | .setattr ino mode size atime mtime =>
      some (.setattr ino
        { size := size
          mode := mode
          accessedUnixSeconds := timeOrNow systemNow atime
          modifiedUnixSeconds := timeOrNow systemNow mtime })
  | .mkdir parent name mode umask =>
      name.toStr.map fun name => .mkdir parent name (mode &&& ~~~umask)
  | .unlink parent name => name.toStr.map fun name => .unlink parent name
  | .rmdir parent name => name.toStr.map fun name => .rmdir parent name
  | .rename parent name newparent newname flags =>
      if flags ≠ 0 then none
      else name.toStr.bind fun name =>
        newname.toStr.map fun newname => .rename parent name newparent newname
  | .openFile ino flags => some (.openFile ino (openFlags flags))
  | .read fh offset size => some (.read fh offset size)
  | .write fh offset data => some (.write fh offset data)
  | .flush fh => some (.flush fh)
  | .release fh => some (.release fh)
  | .opendir _ => none
  | .readdir ino _ _ => some (.readdir ino)
  | .create parent name mode umask flags =>
      name.toStr.map fun name =>
        .create parent name (mode &&& ~~~umask) (openFlags flags)

end Request

namespace FuseReply

/-- The inode numbers that a reply names. -/
def inodes : FuseReply → List NodeId
  | .entry found => [found.ino]
  | .attr found => [found.ino]
  | .directory buffer => buffer.entries.map ReplyEntry.ino
  | .created found _ => [found.ino]
  | _ => []

/-- The file that a request has opened: its handle, and the inode number that it is opened for.  An
`opendir` opens none, whatever its reply names. -/
def filesOf : Request → FuseReply → List (FileHandle × NodeId)
  | .openFile ino _, .opened fh => [(fh, ino)]
  | .create _ _ _ _ _, .created found fh => [(fh, found.ino)]
  | _, _ => []

end FuseReply

namespace LinuxFilesystem

variable {ρ : Type} {R : RemoteFilesystem ρ} {owner : LinuxOwner} {systemNow : Int} {w : World ρ}

/-- What a reply owes to the call: it names no other nodes, and the handle that the call has given
out, with the node that it is open on. -/
structure Reports (call pc : SessionPc) (request : Request) (reply : FuseReply) : Prop where
  inodes : ∀ n ∈ reply.inodes, n ∈ pc.nodes
  opened : (FuseReply.filesOf request reply).map Prod.fst = (Session.issued pc).toList
  nodes : ∀ x ∈ FuseReply.filesOf request reply, Session.openedNode call pc = some x.2

lemma nodes_addEntries {entries : List DirectoryEntry} {offset capacity : ℕ} {n : NodeId}
    (h : n ∈ (addEntries (entries.zipIdx.drop offset) (.empty capacity)).entries.map
      ReplyEntry.ino) : n ∈ entries.map (·.metadata.node) := by
  rw [addEntries_entries] at h
  simp only [ReplyDirectory.empty, List.nil_append, List.map_map, List.mem_map] at h
  obtain ⟨e, he, rfl⟩ := h
  have hmem := List.mem_of_mem_drop (List.mem_of_mem_take he)
  exact List.mem_map.mpr ⟨e.1, List.fst_mem_of_mem_zipIdx hmem, rfl⟩

/-- A reply that opens nothing. -/
lemma reports_names {call pc : SessionPc} {request : Request} {reply : FuseReply}
    (hnames : ∀ n ∈ reply.inodes, n ∈ pc.nodes) (hopened : FuseReply.filesOf request reply = [])
    (hpc : Session.issued pc = none) : Reports call pc request reply where
  inodes := hnames
  opened := by
    rw [hopened, hpc]
    rfl
  nodes x hx := by
    rw [hopened] at hx
    cases hx

/-- A reply that names nothing. -/
lemma reports_nothing {call pc : SessionPc} {request : Request} {reply : FuseReply}
    (hreply : reply.inodes = []) (hopened : FuseReply.filesOf request reply = [])
    (hpc : Session.issued pc = none) : Reports call pc request reply :=
  reports_names (fun n hn => by rw [hreply] at hn; cases hn) hopened hpc

/-- **A request that makes a call** leaves the world of the call, and its reply reports it. -/
lemma handle_call (owner : LinuxOwner) {request : Request} {call : Call}
    (h : request.call systemNow = some call) :
    (handle R owner systemNow w request).2 = w.exec R call ∧
      Reports call.task (w.returned R call) request (handle R owner systemNow w request).1 := by
  cases request with
  | lookup parent name =>
      cases name with
      | other bytes => cases h
      | utf8 name =>
          cases h
          refine ⟨rfl, ?_⟩
          show Reports _ (.call (.done (.metadata (w.lookup R parent name).1))) _
            (.ofResult _ (w.lookup R parent name).1)
          cases (w.lookup R parent name).1 with
          | ok metadata => exact reports_names (fun n hn => hn) rfl rfl
          | error e => exact reports_nothing rfl rfl rfl
  | getattr ino =>
      cases h
      refine ⟨rfl, ?_⟩
      show Reports _ (.call (.done (.metadata (w.getattr R ino).1))) _
        (.ofResult _ (w.getattr R ino).1)
      cases (w.getattr R ino).1 with
      | ok metadata => exact reports_names (fun n hn => hn) rfl rfl
      | error e => exact reports_nothing rfl rfl rfl
  | setattr ino mode size atime mtime =>
      cases h
      refine ⟨rfl, ?_⟩
      simp only [World.returned, handle]
      cases (w.setattr R ino _).1 with
      | ok metadata => exact reports_names (fun n hn => hn) rfl rfl
      | error e => exact reports_nothing rfl rfl rfl
  | mkdir parent name mode umask =>
      cases name with
      | other bytes => cases h
      | utf8 name =>
          cases h
          refine ⟨rfl, ?_⟩
          simp only [World.returned, handle, OsStr.toStr]
          cases (w.mkdir R parent name (mode &&& ~~~umask)).1 with
          | ok metadata => exact reports_names (fun n hn => hn) rfl rfl
          | error e => exact reports_nothing rfl rfl rfl
  | unlink parent name =>
      cases name with
      | other bytes => cases h
      | utf8 name =>
          cases h
          refine ⟨rfl, ?_⟩
          simp only [World.returned, handle, OsStr.toStr]
          cases (w.unlink R parent name).1 <;> exact reports_nothing rfl rfl rfl
  | rmdir parent name =>
      cases name with
      | other bytes => cases h
      | utf8 name =>
          cases h
          refine ⟨rfl, ?_⟩
          simp only [World.returned, handle, OsStr.toStr]
          cases (w.rmdir R parent name).1 <;> exact reports_nothing rfl rfl rfl
  | rename parent name newparent newname flags =>
      simp only [Request.call] at h
      split at h
      · cases h
      · next hflags =>
          cases name with
          | other bytes => cases h
          | utf8 name =>
              cases newname with
              | other bytes => cases h
              | utf8 newname =>
                  cases h
                  simp only [World.returned, handle, OsStr.toStr, if_neg hflags]
                  refine ⟨rfl, ?_⟩
                  cases (w.rename R parent name newparent newname).1 <;>
                    exact reports_nothing rfl rfl rfl
  | openFile ino flags =>
      cases h
      refine ⟨rfl, ?_⟩
      simp only [World.returned, handle]
      cases (w.openFile R ino (openFlags flags)).1 with
      | ok fh =>
          refine ⟨fun _ hn => absurd hn List.not_mem_nil, rfl, fun x hx => ?_⟩
          obtain rfl := List.mem_singleton.mp hx
          rfl
      | error e => exact reports_nothing rfl rfl rfl
  | read fh offset size =>
      cases h
      refine ⟨rfl, ?_⟩
      simp only [World.returned, handle]
      cases (w.read R fh offset size).1 <;> exact reports_nothing rfl rfl rfl
  | write fh offset data =>
      cases h
      refine ⟨rfl, ?_⟩
      simp only [World.returned, handle]
      cases (w.write R fh offset data).1 <;> exact reports_nothing rfl rfl rfl
  | flush fh =>
      cases h
      exact ⟨rfl, reports_nothing rfl rfl rfl⟩
  | release fh =>
      cases h
      exact ⟨rfl, reports_nothing rfl rfl rfl⟩
  | opendir ino => cases h
  | readdir ino offset capacity =>
      cases h
      simp only [World.returned, handle, readdir, World.exec]
      cases hread : w.readdir R ino with
      | mk answer w' =>
          cases answer with
          | error e => exact ⟨rfl, reports_nothing rfl rfl rfl⟩
          | ok entries => exact ⟨rfl, reports_names (fun n hn => nodes_addEntries hn) rfl rfl⟩
  | create parent name mode umask flags =>
      cases name with
      | other bytes => cases h
      | utf8 name =>
          cases h
          refine ⟨rfl, ?_⟩
          simp only [World.returned, handle, OsStr.toStr]
          cases (w.create R parent name (mode &&& ~~~umask) (openFlags flags)).1 with
          | ok created =>
              refine ⟨fun n hn => hn, rfl, fun x hx => ?_⟩
              obtain rfl := List.mem_singleton.mp hx
              rfl
          | error e => exact reports_nothing rfl rfl rfl

/-- A request that makes no call leaves the world, and names no node and no file that is open. -/
lemma handle_none (owner : LinuxOwner) {request : Request} (h : request.call systemNow = none) :
    (handle R owner systemNow w request).2 = w ∧
      (handle R owner systemNow w request).1.inodes = [] ∧
      FuseReply.filesOf request (handle R owner systemNow w request).1 = [] := by
  cases request with
  | lookup parent name => cases name <;> first | exact ⟨rfl, rfl, rfl⟩ | cases h
  | mkdir parent name mode umask =>
      cases name <;> first | exact ⟨rfl, rfl, rfl⟩ | cases h
  | unlink parent name => cases name <;> first | exact ⟨rfl, rfl, rfl⟩ | cases h
  | rmdir parent name => cases name <;> first | exact ⟨rfl, rfl, rfl⟩ | cases h
  | rename parent name newparent newname flags =>
      simp only [Request.call] at h
      simp only [handle]
      split at h
      · next hflags =>
          rw [if_pos hflags]
          exact ⟨rfl, rfl, rfl⟩
      · next hflags =>
          rw [if_neg hflags]
          cases name with
          | other bytes => exact ⟨rfl, rfl, rfl⟩
          | utf8 name =>
              cases newname with
              | other bytes => exact ⟨rfl, rfl, rfl⟩
              | utf8 newname => cases h
  | opendir ino => exact ⟨rfl, rfl, rfl⟩
  | create parent name mode umask flags =>
      cases name <;> first | exact ⟨rfl, rfl, rfl⟩ | cases h
  | _ => cases h

/-- Only a `release` makes the call of one. -/
lemma request_release {request : Request} {fh : FileHandle}
    (h : request.call systemNow = some (.release fh)) : request = .release fh := by
  cases request with
  | release fh' =>
      cases h
      rfl
  | lookup parent name => cases name <;> cases h
  | mkdir parent name mode umask => cases name <;> cases h
  | unlink parent name => cases name <;> cases h
  | rmdir parent name => cases name <;> cases h
  | rename parent name newparent newname flags =>
      simp only [Request.call] at h
      split at h
      · cases h
      · cases name <;> cases newname <;> cases h
  | create parent name mode umask flags => cases name <;> cases h
  | _ => cases h

/-! ## What the kernel has been told -/

end LinuxFilesystem

/-- A mount, and what it has told the kernel: the inode numbers that replies have named, the handles
that have been opened and not released, each with the inode number that it was opened for, and the
handles that have ever been given out. -/
structure Kernel (ρ : Type) where
  world : World ρ
  inodes : List NodeId
  files : List (FileHandle × NodeId)
  given : List FileHandle

/-- What happens to a mount: a request at a time of the system's clock, or something beside. -/
inductive KernelEvent (ρ : Type)
  | request (systemNow : Int) (request : Request)
  | beside (event : Beside ρ)

namespace Kernel

variable {ρ : Type} (R : RemoteFilesystem ρ) (owner : LinuxOwner)

/-- The handles that the kernel holds after a request. -/
def filesAfter (files : List (FileHandle × NodeId)) (reply : FuseReply) :
    Request → List (FileHandle × NodeId)
  | .release fh => files.filter (·.1 ≠ fh)
  | request => FuseReply.filesOf request reply ++ files

/-- The mount and the kernel after an event. -/
def step (k : Kernel ρ) : KernelEvent ρ → Kernel ρ
  | .request systemNow request =>
      let (reply, w) := LinuxFilesystem.handle R owner systemNow k.world request
      ⟨w, reply.inodes ++ k.inodes, filesAfter k.files reply request,
        (FuseReply.filesOf request reply).map Prod.fst ++ k.given⟩
  | .beside event => { k with world := event.act k.world }

lemma step_request (k : Kernel ρ) (systemNow : Int) (request : Request) :
    k.step R owner (.request systemNow request) =
      ⟨(LinuxFilesystem.handle R owner systemNow k.world request).2,
        (LinuxFilesystem.handle R owner systemNow k.world request).1.inodes ++ k.inodes,
        filesAfter k.files (LinuxFilesystem.handle R owner systemNow k.world request).1 request,
        (FuseReply.filesOf request
          (LinuxFilesystem.handle R owner systemNow k.world request).1).map Prod.fst ++ k.given⟩ :=
  rfl

lemma step_beside (k : Kernel ρ) (event : Beside ρ) :
    k.step R owner (.beside event) = ⟨event.act k.world, k.inodes, k.files, k.given⟩ := rfl

/-- The kernel has been told of the root, and nothing else. -/
def start (w : World ρ) : Kernel ρ := ⟨w, [NodeId.root], [], []⟩

/-- **The kernel's handles and those of the mount**: it holds the open files, each under the node
that it is open on, and all handles that it has been given are different and below the next one. -/
structure Holds (files : List (FileHandle × NodeId)) (given : List FileHandle) (st : State) :
    Prop where
  opened : ∀ fh ino, (fh, ino) ∈ files ↔ ∃ path, st.file fh = some ⟨ino, path⟩
  once : given.Nodup
  below : ∀ fh ∈ given, fh.val < st.nextHandle
  held : ∀ x ∈ files, x.1 ∈ given
  nodup : (files.map Prod.fst).Nodup

/-- **What holds between a mount and the kernel.** -/
structure Ok (k : Kernel ρ) : Prop where
  registry : Session.RegistryOk k.world.state
  noZero : k.world.state.NoZero
  inodes : k.world.state.Knows k.inodes
  holds : Holds k.files k.given k.world.state
  positive : ⟨0⟩ ∉ k.given

variable {R owner}

lemma ok_start (config : Config) (disk : Disk) (conn : Conn ρ) :
    Ok (start (World.new config disk conn)) where
  registry := Session.registryOk_new config disk conn
  noZero := State.NoZero.new config.root
  inodes := State.Knows.one (AList.lookup_insert _)
  holds := by
    refine ⟨fun fh ino => ⟨fun h => ?_, ?_⟩, List.nodup_nil, fun _ h => ?_, fun _ h => ?_,
      List.nodup_nil⟩
    · cases h
    · rintro ⟨path, hfile⟩
      cases hfile
    · cases h
    · cases h
  positive h := by cases h

lemma filesAfter_of_not {files : List (FileHandle × NodeId)} {reply : FuseReply}
    {request : Request} (hrelease : ∀ fh, request ≠ .release fh) :
    filesAfter files reply request = FuseReply.filesOf request reply ++ files := by
  cases request with
  | release fh => exact absurd rfl (hrelease fh)
  | _ => rfl

/-- The handles of the kernel after a call that is no release. -/
lemma Holds.call {files : List (FileHandle × NodeId)} {given : List FileHandle}
    {st st' : State} {call pc : SessionPc} {reply : FuseReply} {request : Request} (hw : st.Wf)
    (ht : World.TableAfter st call pc st')
    (hreports : LinuxFilesystem.Reports call pc request reply)
    (h : Holds files given st) :
    Holds (FuseReply.filesOf request reply ++ files)
      ((FuseReply.filesOf request reply).map Prod.fst ++ given) st' := by
  have hopened := hreports.opened
  cases ht with
  | same hpc hnext hfile =>
      rw [hpc] at hopened
      have hnone : FuseReply.filesOf request reply = [] := List.map_eq_nil_iff.mp hopened
      rw [hnone]
      exact ⟨fun fh ino => by rw [hfile]; exact h.opened fh ino, h.once,
        by rw [hnext]; exact h.below, h.held, h.nodup⟩
  | issued hpc hnext f hnode hfile =>
      rw [hpc] at hopened
      obtain ⟨x, hx⟩ := List.length_eq_one_iff.mp
        ((List.length_map (f := Prod.fst)).symm.trans (congrArg List.length hopened))
      rw [hx] at hopened
      have hnew : x = (⟨st.nextHandle⟩, f.node) := by
        refine Prod.ext (List.singleton_inj.mp hopened) ?_
        exact Option.some.inj ((hreports.nodes x (by simp [hx])).symm.trans hnode)
      rw [hx, hnew]
      -- the new handle is none of those that have been given
      have hfresh : (⟨st.nextHandle⟩ : FileHandle) ∉ given := fun hmem =>
        lt_irrefl _ (h.below _ hmem)
      refine ⟨fun fh ino => ?_, List.nodup_cons.mpr ⟨hfresh, h.once⟩, fun fh hfh => ?_,
        fun y hy => ?_, List.nodup_cons.mpr ⟨fun hmem => ?_, h.nodup⟩⟩
      · rw [List.singleton_append, List.mem_cons, h.opened, hfile]
        split
        · next heq =>
            subst heq
            have hclosed : st.file ⟨st.nextHandle⟩ = none := by
              cases hold : st.file ⟨st.nextHandle⟩ with
              | none => rfl
              | some old => exact absurd (hw.handle_lt _ old hold) (lt_irrefl _)
            rw [hclosed]
            constructor
            · rintro (heq | ⟨path, hpath⟩)
              · obtain ⟨-, rfl⟩ := Prod.mk.inj heq
                exact ⟨f.path, rfl⟩
              · cases hpath
            · rintro ⟨path, hpath⟩
              obtain rfl := Option.some.inj hpath
              exact .inl rfl
        · next hne =>
            refine or_iff_right fun heq => hne ?_
            exact (Prod.mk.inj heq).1
      · rw [hnext]
        rcases List.mem_cons.mp hfh with rfl | hfh
        · exact Nat.lt_succ_self _
        · exact Nat.lt_succ_of_lt (h.below fh hfh)
      · rcases List.mem_cons.mp hy with rfl | hy
        · exact List.mem_cons_self
        · exact List.mem_cons_of_mem _ (h.held y hy)
      · obtain ⟨y, hy, heq⟩ := List.mem_map.mp hmem
        have hheld := h.held y hy
        rw [heq] at hheld
        exact hfresh hheld

/-- The handles of the kernel after a release. -/
lemma Holds.release {files : List (FileHandle × NodeId)} {given : List FileHandle} {st : State}
    (h : Holds files given st) (fh : FileHandle) :
    Holds (files.filter (·.1 ≠ fh)) given (st.close fh) where
  opened g ino := by
    rw [State.file_close, List.mem_filter, h.opened]
    split
    · next hg => simp [hg]
    · next hg => simp [hg]
  once := h.once
  below := h.below
  held x hx := h.held x (List.mem_of_mem_filter hx)
  nodup := h.nodup.sublist (List.filter_sublist.map _)

/-- A handle that a call gives out is not 0. -/
lemma positive_call {given : List FileHandle} {st st' : State} {call pc : SessionPc}
    {reply : FuseReply} {request : Request} (hzero : st.NoZero)
    (ht : World.TableAfter st call pc st')
    (hreports : LinuxFilesystem.Reports call pc request reply) (h : ⟨0⟩ ∉ given) :
    ⟨0⟩ ∉ (FuseReply.filesOf request reply).map Prod.fst ++ given := by
  rw [hreports.opened, List.mem_append, not_or]
  refine ⟨fun hmem => ?_, h⟩
  cases ht with
  | same hpc _ _ =>
      rw [hpc] at hmem
      cases hmem
  | issued hpc _ _ _ _ =>
      rw [hpc] at hmem
      have heq := FileHandle.mk.inj (List.mem_singleton.mp hmem)
      exact absurd hzero.nextHandle (by rw [← heq]; exact lt_irrefl _)

lemma Ok.step {k : Kernel ρ} (h : Ok k) (e : KernelEvent ρ) : Ok (k.step R owner e) := by
  cases e with
  | beside event =>
      have hstate := Session.act_state event k.world
      rw [step_beside]
      exact ⟨by rw [hstate]; exact h.registry, by rw [hstate]; exact h.noZero,
        by rw [hstate]; exact h.inodes, by rw [hstate]; exact h.holds, h.positive⟩
  | request systemNow request =>
      rw [step_request]
      cases hcall : request.call systemNow with
      | none =>
          obtain ⟨hworld, hinodes, hopened⟩ :=
            LinuxFilesystem.handle_none (R := R) (w := k.world) owner hcall
          have hno : ∀ fh, request ≠ .release fh := by
            rintro fh rfl
            cases hcall
          rw [filesAfter_of_not hno, hworld, hinodes, hopened]
          exact h
      | some call =>
          obtain ⟨hworld, hreports⟩ :=
            LinuxFilesystem.handle_call (R := R) (w := k.world) owner hcall
          rw [hworld]
          have hinformed := World.informed_exec (R := R) h.registry call
          have hknows : (k.world.exec R call).state.Knows
              ((LinuxFilesystem.handle R owner systemNow k.world request).1.inodes ++
                k.inodes) := by
            intro n hn
            rcases List.mem_append.mp hn with hn | hn
            · exact hinformed.nodes n (hreports.inodes n hn)
            · exact hinformed.known n (h.inodes n hn)
          have hzero := World.noZero_exec (R := R) h.registry h.noZero call
          by_cases hrelease : ∃ fh, request = .release fh
          · obtain ⟨fh, rfl⟩ := hrelease
            cases hcall
            exact ⟨⟨hinformed.wf, hinformed.handles⟩, hzero, hknows, h.holds.release fh,
              h.positive⟩
          · have hno : ∀ fh, request ≠ .release fh := fun fh hfh => hrelease ⟨fh, hfh⟩
            have hnotRelease : ∀ fh, call ≠ .release fh := fun fh hfh =>
              hno fh (LinuxFilesystem.request_release (hfh ▸ hcall))
            have htable := World.table_exec (R := R) h.registry hnotRelease
            rw [filesAfter_of_not hno]
            exact ⟨⟨hinformed.wf, hinformed.handles⟩, hzero, hknows,
              h.holds.call h.registry.wf htable hreports,
              positive_call h.noZero htable hreports h.positive⟩

/-- The mount and the kernel after a run from a new mount. -/
abbrev after (R : RemoteFilesystem ρ) (owner : LinuxOwner) (config : Config) (disk : Disk)
    (conn : Conn ρ) (es : List (KernelEvent ρ)) : Kernel ρ :=
  run (step R owner) (start (World.new config disk conn)) es

lemma ok_after (owner : LinuxOwner) (config : Config) (disk : Disk) (conn : Conn ρ)
    (es : List (KernelEvent ρ)) :
    Ok (after R owner config disk conn es) :=
  invariant_of_step (fun _ e h => h.step e) (ok_start config disk conn) es

/-- **What the kernel may rely on**, after any requests with any arguments: an inode number that it
has been told is not 0 and still a node of the mount; the open files of the mount are exactly the
handles that it holds, each open on the inode that it was opened for; in the whole run no handle is
given out twice, and the handle 0 of `opendir` is none of them; a read or write through a handle
that is not held is refused and changes nothing. -/
theorem fuse_session (R : RemoteFilesystem ρ) (owner : LinuxOwner) (config : Config) (disk : Disk)
    (conn : Conn ρ) (es : List (KernelEvent ρ)) :
    (∀ ino ∈ (after R owner config disk conn es).inodes, ino ≠ ⟨0⟩ ∧
      ∃ p, (after R owner config disk conn es).world.state.pathOf ino = .ok p) ∧
    (∀ fh ino, (fh, ino) ∈ (after R owner config disk conn es).files ↔
      ∃ path, (after R owner config disk conn es).world.state.file fh = some ⟨ino, path⟩) ∧
    (after R owner config disk conn es).given.Nodup ∧
    ⟨0⟩ ∉ (after R owner config disk conn es).given ∧
    (∀ x ∈ (after R owner config disk conn es).files,
      x.1 ∈ (after R owner config disk conn es).given) ∧
    ((after R owner config disk conn es).files.map Prod.fst).Nodup ∧
    ∀ systemNow fh, (∀ ino, (fh, ino) ∉ (after R owner config disk conn es).files) →
      (∀ offset size, LinuxFilesystem.handle R owner systemNow
        (after R owner config disk conn es).world (.read fh offset size) =
          (.error .inval, (after R owner config disk conn es).world)) ∧
      ∀ offset data, ∃ e, LinuxFilesystem.handle R owner systemNow
        (after R owner config disk conn es).world (.write fh offset data) =
          (.error e, (after R owner config disk conn es).world) := by
  have hok := ok_after (R := R) owner config disk conn es
  generalize after R owner config disk conn es = k at hok ⊢
  refine ⟨fun ino hino => ?_, hok.holds.opened, hok.holds.once, hok.positive, hok.holds.held,
    hok.holds.nodup, fun systemNow fh hfh => ?_⟩
  · obtain ⟨p, hp⟩ := Option.isSome_iff_exists.mp (hok.inodes ino hino)
    refine ⟨?_, p, State.pathOf_ok.mpr hp⟩
    rintro rfl
    rw [hok.noZero.node] at hp
    cases hp
  · have hclosed : k.world.state.file fh = none := by
      cases hfile : k.world.state.file fh with
      | none => rfl
      | some file => exact absurd ((hok.holds.opened fh file.node).mpr ⟨file.path, hfile⟩) (hfh _)
    constructor
    · intro offset size
      simp only [LinuxFilesystem.handle, World.read, hclosed]
      rfl
    · intro offset data
      simp only [LinuxFilesystem.handle, World.write, hclosed]
      cases k.world.ensureWritable with
      | ok _ => exact ⟨_, rfl⟩
      | error e => exact ⟨_, rfl⟩

lemma errno_noent {e : Error} (h : errno e = .noent) : e = .notFound := by
  cases e with
  | notFound => rfl
  | _ => cases h

/-- A `getattr` of a known node answers not-found where the remote says so, or where an offline
mount has nothing. -/
lemma getattr_notFound {w : World ρ} {node : NodeId} {p : RemotePath}
    (hp : w.state.path node = some p) (h : (w.getattr R node).1 = .error .notFound) :
    if w.offline then w.store.getAttrs p = none else (w.conn.stat R p).1 = .error .notFound := by
  unfold World.getattr at h
  rw [State.pathOf_ok.mpr hp] at h
  simp only at h
  cases hfresh : w.freshAttrs p with
  | some attributes =>
      rw [hfresh] at h
      cases h
  | none =>
      rw [hfresh] at h
      simp only at h
      by_cases hoffline : w.offline = true
      · -- what is known is fresh offline
        rw [if_pos hoffline]
        have hall : w.metadataFresh p = true := by simp [World.metadataFresh, hoffline]
        rw [World.freshAttrs, if_pos hall] at hfresh
        exact hfresh
      · rw [if_neg hoffline] at h ⊢
        unfold World.getattrRemote at h
        split at h
        · cases h
        · next hstat => rw [hstat]
        · next e conn hne hstat =>
            split at h
            · split at h
              · cases h
              · exact absurd (Except.error.inj h) fun heq => hne (heq ▸ rfl)
            · exact absurd (Except.error.inj h) fun heq => hne (heq ▸ rfl)

/-- **`ENOENT` is justified.**  On an inode that the kernel has been told, `getattr` answers
`ENOENT` only if the remote says in this request that the path of the inode is missing, or if an
offline mount has no attributes for it. -/
theorem getattr_noent (R : RemoteFilesystem ρ) (owner : LinuxOwner) (config : Config) (disk : Disk)
    (conn : Conn ρ) (es : List (KernelEvent ρ)) {ino : NodeId}
    (hino : ino ∈ (after R owner config disk conn es).inodes) (systemNow : Int)
    (h : (LinuxFilesystem.handle R owner systemNow (after R owner config disk conn es).world
      (.getattr ino)).1 = .error .noent) :
    ∃ p, (after R owner config disk conn es).world.state.pathOf ino = .ok p ∧
      if (after R owner config disk conn es).world.offline
        then (after R owner config disk conn es).world.store.getAttrs p = none
        else ((after R owner config disk conn es).world.conn.stat R p).1 = .error .notFound := by
  have hok := ok_after (R := R) owner config disk conn es
  generalize after R owner config disk conn es = k at hok hino h ⊢
  obtain ⟨p, hp⟩ := Option.isSome_iff_exists.mp (hok.inodes ino hino)
  refine ⟨p, State.pathOf_ok.mpr hp, getattr_notFound hp ?_⟩
  simp only [LinuxFilesystem.handle] at h
  cases hanswer : (k.world.getattr R ino).1 with
  | ok metadata =>
      rw [hanswer] at h
      cases h
  | error e =>
      rw [hanswer] at h
      rw [errno_noent (FuseReply.error.inj h)]

/-! The file `/a` is looked up and opened, and then removed by others. -/

def sampleOwner : LinuxOwner := ⟨1000, 1000⟩

def removedMeanwhile : List (KernelEvent Memory) :=
  [.request 0 (.lookup NodeId.root (.utf8 ['a'])), .request 0 (.openFile ⟨2⟩ ⟨.rdonly, 0⟩),
    .beside (.external Memory.empty), .beside (.tick (6 * 10 ^ 9))]

/-- The mount after that. -/
def afterRemoval : Kernel Memory :=
  after Memory.filesystem sampleOwner ⟨.root, false, .onDemand, 5 * 10 ^ 9, 4⟩ Disk.empty
    ⟨World.sampleTree, 0, []⟩ removedMeanwhile

theorem getattr_noent_example :
    ⟨2⟩ ∈ afterRemoval.inodes ∧ ∃ p, afterRemoval.world.state.pathOf ⟨2⟩ = .ok p := by
  have hino : ⟨2⟩ ∈ afterRemoval.inodes := List.mem_cons_self
  refine ⟨hino, ?_⟩
  obtain ⟨p, hp, -⟩ := getattr_noent Memory.filesystem sampleOwner _ _ _ removedMeanwhile hino
    0 rfl
  exact ⟨p, hp⟩

end Kernel

end CacheShfs
