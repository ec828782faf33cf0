import CacheShfs.Vfs.Deleted
import CacheShfs.Vfs.Identity
import CacheShfs.Vfs.TreeTasks
import CacheShfs.Vfs.Written

/-!
# Sessions of concurrent calls

Any number of calls of every kind, in any interleaving of their steps, with the clock and with
changes made to the remote by others.

`Notes` is what most sections under the lock of the state do to it: they note what has become
known, and give nodes to paths.  The handle table and the paths of nodes are changed by three kinds
of section only (`Section`).  What every call keeps of the registry is proved from these two.
-/

namespace CacheShfs

open Interleave Machine

/-! ## What a section does to the state -/

/-- The state after a section that notes what has become known: paths are stamped, names are
negated in known directories, and paths get nodes. -/
inductive Notes : State → State → Prop
  | refl (st : State) : Notes st st
  | stamp {st st' : State} (path : RemotePath) (now : ℕ) (h : Notes st st') :
      Notes st (st'.stamp path now)
  | unstamp {st st' : State} (path : RemotePath) (h : Notes st st') : Notes st (st'.unstamp path)
  | negate {st st' : State} {parent : NodeId} (hknown : (st.path parent).isSome) (name : Str)
      (now : ℕ) (h : Notes st st') : Notes st (st'.negate parent name now)
  | unnegate {st st' : State} (parent : NodeId) (name : Str) (h : Notes st st') :
      Notes st (st'.unnegate parent name)
  | intern {st st' : State} (path : RemotePath) (h : Notes st st') :
      Notes st (st'.intern path).2

namespace Notes

variable {st st' : State}

lemma wf_and_path (h : Notes st st') (hw : st.Wf) :
    st'.Wf ∧ ∀ n p, st.path n = some p → st'.path n = some p := by
  induction h with
  | refl => exact ⟨hw, fun _ _ => id⟩
  | stamp path now _ ih => exact ⟨ih.1.stamp path now, ih.2⟩
  | unstamp path _ ih => exact ⟨ih.1.unstamp path, ih.2⟩
  | negate hknown name now _ ih =>
      obtain ⟨p, hp⟩ := Option.isSome_iff_exists.mp hknown
      exact ⟨ih.1.negate (ih.2 _ p hp) name now, ih.2⟩
  | unnegate parent name _ ih => exact ⟨ih.1.unnegate parent name, ih.2⟩
  | intern path _ ih => exact ⟨ih.1.intern path, fun n p hp => ih.1.path_intern path (ih.2 n p hp)⟩

lemma wf (h : Notes st st') (hw : st.Wf) : st'.Wf := (h.wf_and_path hw).1

/-- Nodes keep their paths. -/
lemma path (h : Notes st st') (hw : st.Wf) {n : NodeId} {p : RemotePath}
    (hp : st.path n = some p) : st'.path n = some p := (h.wf_and_path hw).2 n p hp

lemma file (h : Notes st st') (handle : FileHandle) : st'.file handle = st.file handle := by
  induction h with
  | refl => rfl
  | intern path _ ih => rw [State.file_intern, ih]
  | _ => assumption

/-- Paths keep their nodes. -/
lemma node (h : Notes st st') {n : NodeId} {p : RemotePath} (hn : st.node p = some n) :
    st'.node p = some n := by
  induction h with
  | refl => exact hn
  | intern path _ ih => exact State.node_intern_old ih path
  | _ => assumption

lemma nextHandle (h : Notes st st') : st'.nextHandle = st.nextHandle := by
  induction h with
  | refl => rfl
  | intern path _ ih => rw [State.nextHandle_intern, ih]
  | _ => assumption

lemma of_interns {P : RemotePath → Prop} (h : Interns P st st') : Notes st st' := by
  induction h with
  | refl => exact .refl _
  | intern _ _ ih => exact .intern _ ih

lemma of_stampedBy {path : RemotePath} {now : ℕ} {children : List (Str × FileAttributes)}
    {start : State} (h : World.StampedBy path now children st st') (hstart : Notes start st) :
    Notes start st' := by
  induction h with
  | refl => exact hstart
  | cons _ _ ih => exact ih (.intern _ (.stamp _ _ hstart))

end Notes

/-- The state after a section. -/
inductive Section (st : State) : State → Prop
  | notes {st' : State} (h : Notes st st') : Section st st'
  | opened {st' : State} (h : Notes st st') {node : NodeId} (hnode : (st'.path node).isSome)
      (path : RemotePath) : Section st (st'.openHandle node path).2
  | closed (handle : FileHandle) : Section st (st.close handle)
  | moved {st' : State} (src dst : RemotePath) (h : Notes (st.renamePath src dst) st') :
      Section st st'

/-- The nodes of open handles have paths. -/
def State.HandlesKnown (st : State) : Prop :=
  ∀ h f, st.file h = some f → (st.path f.node).isSome

namespace Section

variable {st st' : State}

lemma wf (h : Section st st') (hw : st.Wf) : st'.Wf := by
  cases h with
  | notes h => exact h.wf hw
  | opened h _ path => exact (h.wf hw).openHandle _ path
  | closed handle => exact hw.close handle
  | moved src dst h => exact h.wf (hw.renamePath src dst)

/-- A node that has a path keeps one. -/
lemma known (h : Section st st') (hw : st.Wf) {n : NodeId} (hn : (st.path n).isSome) :
    (st'.path n).isSome := by
  obtain ⟨p, hp⟩ := Option.isSome_iff_exists.mp hn
  cases h with
  | notes h => rw [h.path hw hp]; rfl
  | opened h _ path => rw [State.path_openHandle, h.path hw hp]; rfl
  | closed handle => exact hn
  | moved src dst h =>
      have hmoved : ∃ q, (st.renamePath src dst).path n = some q := by
        rw [State.path_renamePath]
        split
        · exact ⟨dst, rfl⟩
        · exact ⟨p, hp⟩
      obtain ⟨q, hq⟩ := hmoved
      rw [h.path (hw.renamePath src dst) hq]
      rfl

lemma handlesKnown (h : Section st st') (hw : st.Wf) (hh : st.HandlesKnown) :
    st'.HandlesKnown := by
  intro g f hf
  have hold : st.file g = some f → (st'.path f.node).isSome := fun hg => h.known hw (hh g f hg)
  cases h with
  | notes h => rw [h.file] at hf; exact hold hf
  | opened h hnode path =>
      rw [State.file_openHandle] at hf
      split at hf
      · cases hf
        exact hnode
      · rw [h.file] at hf
        exact hold hf
  | closed handle =>
      rw [State.file_close] at hf
      split at hf
      · cases hf
      · exact hold hf
  | moved src dst h =>
      rw [h.file, State.file_renamePath] at hf
      exact hold hf

end Section

/-! ## The nodes that a call works on -/

/-- The nodes that a call has resolved. -/
def Caller.nodes : Caller → List NodeId
  | .lookup parent _ => [parent]
  | .getattr node => [node]
  | .read _ _ _ => []

/-- The nodes that an answer names. -/
def Answer.nodes : Answer → List NodeId
  | .metadata (.ok answer) => [answer.node]
  | _ => []

/-- The nodes that an answer names. -/
def TreeAnswer.nodes : TreeAnswer → List NodeId
  | .entries (.ok listing) => listing.map (·.metadata.node)
  | .created (.ok answer) => [answer.metadata.node]
  | .metadata (.ok answer) => [answer.node]
  | _ => []

/-- The nodes that a call has resolved, or has named in its answer. -/
def CallPc.nodes : CallPc → List NodeId
  | .negative parent _ _ => [parent]
  | .fresh caller _ => caller.nodes
  | .cached caller _ => caller.nodes
  | .stat caller _ => caller.nodes
  | .put caller _ _ => caller.nodes
  | .stamp caller _ _ => caller.nodes
  | .drop caller _ => caller.nodes
  | .fallback caller _ _ => caller.nodes
  | .negate parent _ answer => parent :: answer.nodes
  | .unlinkRemote parent _ _ _ => [parent]
  | .remove parent _ _ _ => [parent]
  | .unlist parent _ _ => [parent]
  | .done answer => answer.nodes
  | _ => []

/-- The nodes that a call has resolved, or has named in its answer. -/
def TreePc.nodes : TreePc → List NodeId
  | .truncate node _ => [node]
  | .invalidate node _ => [node]
  | .unstamp node _ => [node]
  | .openHandle node _ => [node]
  | .rmdirRemote place => [place.parent]
  | .remove place => [place.parent]
  | .unlist place => [place.parent]
  | .negate place => [place.parent]
  | .renameRemote src _ => [src.parent]
  | .move src _ => [src.parent]
  | .unlistSrc src _ => [src.parent]
  | .unlistDst src _ => [src.parent]
  | .repoint src _ => [src.parent]
  | .setattrRemote node _ _ => [node]
  | .setattrPut node _ _ => [node]
  | .setattrStamp node _ _ => [node]
  | .done answer => answer.nodes
  | _ => []

/-- The nodes of a list have paths. -/
def State.Knows (st : State) (nodes : List NodeId) : Prop := ∀ n ∈ nodes, (st.path n).isSome

namespace State.Knows

variable {st : State} {n : NodeId} {p : RemotePath}

lemma nil : st.Knows [] := fun _ hn => nomatch hn

lemma one (h : st.path n = some p) : st.Knows [n] := by
  intro m hm
  rw [List.mem_singleton.mp hm, h]
  rfl

/-- A node that is registered for a path has one. -/
lemma of_node (hw : st.Wf) (h : st.node p = some n) : st.Knows [n] := one (hw.node_path p n h)

end State.Knows

variable {ρ : Type} {R : RemoteFilesystem ρ} {w w' : World ρ}

namespace CallPc

variable {pc pc' : CallPc}

lemma knows_served {st : State} {caller : Caller} (h : st.Knows caller.nodes) (path : RemotePath)
    (attributes : FileAttributes) (chunkSize : ℕ) :
    st.Knows (caller.served path attributes chunkSize).nodes := by
  cases caller with
  | getattr node => exact h
  | _ => exact .nil

lemma knows_rejected (st : State) (caller : Caller) (e : Error) :
    st.Knows (caller.rejected e).nodes := by
  cases caller <;> exact .nil

/-- What a step does to the state. -/
lemma Steps.notes (h : Steps R w pc pc' w') (hn : w.state.Knows pc.nodes) :
    Notes w.state w'.state := by
  cases h with
  | stampLookup => exact .intern _ (.unnegate _ _ (.stamp _ _ (.refl _)))
  | stamp _ => exact .stamp _ _ (.refl _)
  | intern => exact .intern _ (.refl _)
  | negate => exact .negate (hn _ List.mem_cons_self) _ _ (.refl _)
  | unstamp => exact .unstamp _ (.refl _)
  | _ => exact .refl _

/-- The nodes of a call are known when it gets them. -/
lemma Steps.knows (h : Steps R w pc pc' w') (hw : w.state.Wf) (hn : w.state.Knows pc.nodes) :
    w'.state.Knows pc'.nodes := by
  cases h with
  | lookup hchild =>
      obtain ⟨p, hp, -⟩ := World.childPath_ok.mp hchild
      exact .one hp
  | getattr hpath => exact .one hpath
  | unlink hresolve => exact .one (World.resolve_ok hresolve).1
  | negativeMiss _ => exact hn
  | fresh _ => exact hn
  | expired _ => exact hn
  | cached _ => exact knows_served hn _ _ _
  | uncached _ _ => exact hn
  | uncachedOffline _ _ => exact knows_rejected _ _ _
  | statFound _ => exact hn
  | statMissing _ => exact hn
  | statFailed _ _ => exact hn
  | put => exact hn
  | stampLookup =>
      exact .of_node (((hw.stamp _ _).unnegate _ _).intern _) (State.node_intern_self _)
  | stamp _ => exact knows_served hn _ _ _
  | dropLookup => exact hn
  | drop _ => exact knows_rejected _ _ _
  | fallback _ _ => exact knows_served hn _ _ _
  | noFallback => exact knows_rejected _ _ _
  | intern => exact .of_node (hw.intern _) (State.node_intern_self _)
  | negate => exact fun n hmem => hn n (List.mem_cons_of_mem _ hmem)
  | unlinked _ => exact hn
  | remove => exact hn
  | unlist => exact hn
  | idle => exact hn
  | _ => exact .nil

end CallPc

namespace TreePc

variable {pc pc' : TreePc}

lemma nodes_unlisted (w : World ρ) (path : RemotePath) (error : Option Error) :
    (unlisted w path error).nodes = [] := by
  unfold unlisted
  split
  · rfl
  · split <;> rfl

/-- What a step does to the state. -/
lemma Steps.section (h : Steps R w pc pc' w') (hn : w.state.Knows pc.nodes) (hw : w.state.Wf) :
    Section w.state w'.state := by
  cases h with
  | release => exact .closed _
  | @internAll found =>
      have hst : Interns (fun _ => True) w.state (World.internChildren found w.state).2 :=
        World.interns_internChildren found (fun _ _ => trivial) _
      exact .notes (.of_interns hst)
  | stampAll hst =>
      exact .notes (.stamp _ _ (.of_stampedBy (World.stampedBy_of_eq hst) (.refl _)))
  | stampPartly hst => exact .notes (.of_stampedBy (World.stampedBy_of_eq hst) (.refl _))
  | unstamp => exact .notes (.unstamp _ (.refl _))
  | openHandle => exact .opened (.refl _) (hn _ List.mem_cons_self) _
  | @makeAnswer maker place attributes answer st hst =>
      have hnotes : Notes w.state ((w.state.stamp place.path w.conn.now).unnegate place.parent
          place.name) := .unnegate _ _ (.stamp _ _ (.refl _))
      cases maker with
      | create =>
          rw [Maker.answer_create] at hst
          obtain ⟨-, rfl⟩ := Prod.mk.inj hst
          have hknown := State.Knows.one (State.Wf.path_intern_self (hnotes.wf hw) place.path)
          exact .opened (.intern _ hnotes) (hknown _ List.mem_cons_self) _
      | mkdir =>
          rw [Maker.answer_mkdir] at hst
          obtain ⟨-, rfl⟩ := Prod.mk.inj hst
          exact .notes (.intern _ hnotes)
  | negate => exact .notes (.negate (hn _ List.mem_cons_self) _ _ (.refl _))
  | @repoint src dst =>
      refine .moved src.path dst.path (.unnegate _ _ (.negate ?_ _ _ (.unstamp _ (.refl _))))
      obtain ⟨p, hp⟩ := Option.isSome_iff_exists.mp (hn _ List.mem_cons_self)
      rw [State.path_renamePath]
      split
      · rfl
      · rw [hp]; rfl
  | setattrStamp => exact .notes (.stamp _ _ (.refl _))
  | _ => exact .notes (.refl _)

/-- The nodes of a cached listing have paths. -/
lemma knows_internChildren {st : State} (hw : st.Wf)
    (found : List (Str × RemotePath × FileAttributes)) :
    (World.internChildren found st).2.Knows
      ((World.internChildren found st).1.map (·.metadata.node)) := by
  induction found generalizing st with
  | nil => exact .nil
  | cons c rest ih =>
      obtain ⟨name, child, attributes⟩ := c
      intro n hn
      rcases List.mem_cons.mp hn with rfl | hn
      · -- the first child keeps its path while the others get nodes
        have hrest : Interns (fun _ => True) (st.intern child).2
            (World.internChildren rest (st.intern child).2).2 :=
          World.interns_internChildren rest (fun _ _ => trivial) _
        have hpath := hrest.path (hw.intern child) (hw.path_intern_self child)
        exact State.Knows.one hpath _ List.mem_cons_self
      · exact ih (hw.intern child) n hn

/-- The nodes of a listing by the remote have paths. -/
lemma knows_stampChildren {st st' : State} {path : RemotePath} {now : ℕ}
    {children : List (Str × FileAttributes)} {entries : List DirectoryEntry} (hw : st.Wf)
    (h : World.stampChildren path now children st = (.ok entries, st')) :
    st'.Knows (entries.map (·.metadata.node)) := by
  intro n hn
  obtain ⟨e, he, rfl⟩ := List.mem_map.mp hn
  obtain ⟨child, before, rest, hjoin, -, -⟩ := World.stampChildren_entry h e he
  have hnode := World.node_stampChildren h e he child hjoin
  have hwf := (World.stampedBy_of_eq h).wf hw
  exact State.Knows.of_node hwf hnode _ List.mem_cons_self

/-- The nodes of a call are known when it gets them. -/
lemma Steps.knows (h : Steps R w pc pc' w') (hw : w.state.Wf) (hn : w.state.Knows pc.nodes) :
    w'.state.Knows pc'.nodes := by
  cases h with
  | openTruncating hpath _ _ => exact .one hpath
  | openPlain hpath => exact .one hpath
  | rmdir hresolve => exact .one (World.resolve_ok hresolve).1
  | rename hresolve => exact .one (World.resolveRename_ok hresolve).1
  | setattr hpath _ => exact .one hpath
  | noNames _ => rw [nodes_unlisted]; exact .nil
  | gatherBad _ => rw [nodes_unlisted]; exact .nil
  | internAll => exact knows_internChildren hw _
  | stampAll hst =>
      have hlisted := knows_stampChildren hw hst
      exact fun n hmem => hlisted n hmem
  | truncated _ => exact hn
  | invalidate => exact hn
  | unstamp => exact hn
  | @makeAnswer maker place attributes answer st hst =>
      have hwf := (hw.stamp place.path w.conn.now).unnegate place.parent place.name
      cases maker with
      | create =>
          rw [Maker.answer_create] at hst
          obtain ⟨rfl, rfl⟩ := Prod.mk.inj hst
          exact .one (hwf.path_intern_self place.path)
      | mkdir =>
          rw [Maker.answer_mkdir] at hst
          obtain ⟨rfl, rfl⟩ := Prod.mk.inj hst
          exact .one (hwf.path_intern_self place.path)
  | rmdired _ => exact hn
  | remove => exact hn
  | unlist => exact hn
  | renamed _ => exact hn
  | move => exact hn
  | unlistSrc => exact hn
  | unlistDst => exact hn
  | set _ => exact hn
  | setattrPut => exact hn
  | setattrStamp => exact hn
  | idle => exact hn
  | createBad => exact .nil
  | mkdirBad => exact .nil
  | @makeFailed maker _ _ _ _ _ => cases maker <;> exact .nil
  | _ => exact .nil

end TreePc

end CacheShfs
