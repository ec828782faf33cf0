import CacheShfs.Lib.Fairness
import CacheShfs.Vfs.Together

/-!
# Every call returns

Under a schedule that gives a call turns again and again, it returns, whatever the other calls do
and however the remote changes.  Nothing in a call waits for another one.

How many steps a `readdir` takes is not known when it begins: it looks at the names of a cached
listing one by one, and learns how many there are when it gets the listing.  Its measure is
therefore a pair, the stage of the call and the names that are left, and goes down
lexicographically.
-/

namespace CacheShfs

open Interleave Machine

variable {ρ : Type} {R : RemoteFilesystem ρ} {w w' : World ρ}

namespace TreePc

variable {pc pc' : TreePc}

/-- The stage of a call: how many sections are left, a run over the names counted as one. -/
def stage : TreePc → ℕ
  | .readdir _ => 9
  | .listFresh _ => 8
  | .names none _ => 7
  | .gather none _ _ _ => 6
  | .listRemote _ => 5
  | .names (some _) _ => 4
  | .gather (some _) _ _ _ => 3
  | .listed _ _ => 4
  | .record _ _ _ => 3
  | .stampAll _ _ _ => 2
  | .internAll _ => 1
  | .openFile _ _ => 5
  | .truncate _ _ => 4
  | .invalidate _ _ => 3
  | .unstamp _ _ => 2
  | .openHandle _ _ => 1
  | .release _ => 1
  | .flush _ => 1
  | .create _ _ _ _ => 5
  | .mkdir _ _ _ => 5
  | .make _ _ _ => 4
  | .makePut _ _ _ => 3
  | .makeUnlist _ _ _ => 2
  | .makeAnswer _ _ _ => 1
  | .rmdir _ _ => 5
  | .rmdirRemote _ => 4
  | .remove _ => 3
  | .unlist _ => 2
  | .negate _ => 1
  | .rename _ _ _ _ => 6
  | .renameRemote _ _ => 5
  | .move _ _ => 4
  | .unlistSrc _ _ => 3
  | .unlistDst _ _ => 2
  | .repoint _ _ => 1
  | .setattr _ _ => 4
  | .setattrRemote _ _ _ => 3
  | .setattrPut _ _ _ => 2
  | .setattrStamp _ _ _ => 1
  | .done _ => 0

/-- The names of a cached listing that are left. -/
def namesLeft : TreePc → ℕ
  | .gather _ _ rest _ => rest.length
  | _ => 0

/-- One call is nearer to its end than another. -/
def Nearer : TreePc → TreePc → Prop :=
  InvImage (Prod.Lex (· < ·) (· < ·)) fun pc => (pc.stage, pc.namesLeft)

lemma nearer_wf : WellFounded Nearer := 
  InvImage.wf _ (WellFounded.prod_lex wellFounded_lt wellFounded_lt)

lemma nearer_of_stage (h : pc'.stage < pc.stage) : pc'.Nearer pc := Prod.Lex.left _ _ h

lemma stage_unlisted (w : World ρ) (path : RemotePath) (error : Option Error) :
    (unlisted w path error).stage < (TreePc.gather error path [] []).stage := by
  unfold unlisted
  split
  · exact Nat.succ_pos _
  · split
    · exact Nat.succ_pos _
    · exact Nat.lt_succ_self _

lemma stage_gather (error : Option Error) (path : RemotePath) (rest rest' : List Str)
    (found found' : List (Str × RemotePath × FileAttributes)) :
    (TreePc.gather error path rest found).stage =
      (TreePc.gather error path rest' found').stage := by
  cases error <;> rfl

/-- Every step brings a call nearer to its end. -/
lemma Steps.nearer (h : Steps R w pc pc' w') (hpc : ∀ answer, pc ≠ .done answer) :
    pc'.Nearer pc := by
  cases h with
  | @names error path listing _ =>
      apply nearer_of_stage
      cases error with
      | none => exact Nat.lt_succ_self _
      | some e => exact Nat.lt_succ_self _
  | @noNames error path _ =>
      apply nearer_of_stage
      apply (stage_unlisted w path error).trans
      cases error with
      | none => exact Nat.lt_succ_self _
      | some e => exact Nat.lt_succ_self _
  | @gathered error path found =>
      apply nearer_of_stage
      cases error with
      | none => show 1 < 6; omega
      | some e => show 1 < 3; omega
  | @gatherBad error path name rest found e _ =>
      apply nearer_of_stage
      rw [stage_gather error path _ [] _ []]
      exact stage_unlisted w path error
  | @gather error path name rest found child attributes _ _ =>
      cases error with
      | none => exact Prod.Lex.right _ (Nat.lt_succ_self _)
      | some e => exact Prod.Lex.right _ (Nat.lt_succ_self _)
  | @gatherSkip error path name rest found child _ _ =>
      cases error with
      | none => exact Prod.Lex.right _ (Nat.lt_succ_self _)
      | some e => exact Prod.Lex.right _ (Nat.lt_succ_self _)
  | idle => exact absurd rfl (hpc _)
  | _ => exact nearer_of_stage (by simp [stage])

/-- Every step of a call on the tree keeps the size of chunks. -/
lemma Steps.chunkSize (h : Steps R w pc pc' w') :
    w'.store.chunkSize = w.store.chunkSize := by
  cases h with
  | record => exact Store.recordListing_chunkSize _ _ _
  | invalidate => exact Store.invalidateContent_chunkSize _ _
  | makePut => exact Store.putAttrs_chunkSize _ _ _
  | makeUnlist => exact Store.invalidateChildren_chunkSize _ _
  | remove => exact Store.remove_chunkSize _ _
  | unlist => exact Store.invalidateChildren_chunkSize _ _
  | move => exact Store.rename_chunkSize _ _ _
  | unlistSrc => exact Store.invalidateChildren_chunkSize _ _
  | unlistDst => exact Store.invalidateChildren_chunkSize _ _
  | setattrPut => exact Store.putAttrs_chunkSize _ _ _
  | _ => rfl

end TreePc

lemma CallPc.Steps.chunkSize {pc pc' : CallPc} (h : CallPc.Steps R w pc pc' w') :
    w'.store.chunkSize = w.store.chunkSize := by
  cases h with
  | put => exact Store.putAttrs_chunkSize _ _ _
  | dropLookup => exact Store.remove_chunkSize _ _
  | drop _ => exact Store.remove_chunkSize _ _
  | content _ h => exact h.chunkSize
  | invalidate => exact Store.invalidateContent_chunkSize _ _
  | remove => exact Store.remove_chunkSize _ _
  | unlist => exact Store.invalidateChildren_chunkSize _ _
  | _ => rfl

namespace SessionPc

variable {pc pc' : SessionPc}

/-- The call has returned. -/
def Returned : SessionPc → Prop
  | .call (.done _) => True
  | .tree (.done _) => True
  | _ => False

/-- One call is nearer to its end than another. -/
inductive Nearer (chunkSize : ℕ) : SessionPc → SessionPc → Prop
  | call {pc pc' : CallPc} (h : pc'.work chunkSize < pc.work chunkSize) :
      Nearer chunkSize (.call pc') (.call pc)
  | tree {pc pc' : TreePc} (h : pc'.Nearer pc) : Nearer chunkSize (.tree pc') (.tree pc)

lemma nearer_wf (chunkSize : ℕ) : WellFounded (Nearer chunkSize) := by
  refine ⟨fun pc => ?_⟩
  cases pc with
  | call pc =>
      have hacc := (measure fun pc : CallPc => pc.work chunkSize).wf.apply pc
      induction hacc with
      | intro pc _ ih =>
          refine ⟨_, fun before hb => ?_⟩
          cases hb with
          | call h => exact ih _ h
  | tree pc =>
      have hacc := TreePc.nearer_wf.apply pc
      induction hacc with
      | intro pc _ ih =>
          refine ⟨_, fun before hb => ?_⟩
          cases hb with
          | tree h => exact ih _ h

lemma Steps.nearer (h : Steps R w pc pc' w') (hpc : ¬ pc.Returned) :
    Nearer w.store.chunkSize pc' pc := by
  cases h with
  | @call pc pc' _ h =>
      have hpos : pc.work w.store.chunkSize ≠ 0 := by
        intro hzero
        obtain ⟨answer, rfl⟩ := CallPc.done_of_work hzero
        exact hpc trivial
      have hwork := h.work
      exact .call (by omega)
  | tree h =>
      refine .tree (h.nearer fun answer hdone => ?_)
      rw [hdone] at hpc
      exact hpc trivial

lemma Steps.chunkSize (h : Steps R w pc pc' w') :
    w'.store.chunkSize = w.store.chunkSize := by
  cases h with
  | call h => exact h.chunkSize
  | tree h => exact h.chunkSize

/-- A call that has returned steps to itself. -/
lemma Returned.next (h : pc.Returned) (w : World ρ) : (pc.next R w).1 = pc := by
  cases pc with
  | call pc =>
      cases pc with
      | done answer => rfl
      | _ => exact h.elim
  | tree pc =>
      cases pc with
      | done answer => rfl
      | _ => exact h.elim

end SessionPc

namespace Session

variable {ι : Type} [DecidableEq ι]

/-- The session at each time of a schedule. -/
def atTime (R : RemoteFilesystem ρ) (x : Session ι ρ) (schedule : ℕ → Move ι (Beside ρ)) (n : ℕ) :
    Session ι ρ :=
  Pool.runTo (fun pc w => SessionPc.next R w pc) (fun e w => Beside.act w e) x schedule n

/-- **Every call returns.**  Whatever the other calls of a session do, and whatever others do to the
remote, a call that gets turns again and again has returned from some time on. -/
theorem session_calls_return (R : RemoteFilesystem ρ) (x : Session ι ρ) {i : ι}
    {schedule : ℕ → Move ι (Beside ρ)} (hfair : FairTo i schedule) :
    ∃ n, ∀ m ≥ n, ((atTime R x schedule m).tasks i).Returned := by
  have hstep : ∀ (y : Session ι ρ) (m : Move ι (Beside ρ)),
      y.shared.store.chunkSize = x.shared.store.chunkSize →
      (step R y m).shared.store.chunkSize = x.shared.store.chunkSize := by
    intro y m hy
    cases m with
    | env e => rw [Session.step, Pool.step_env_shared, act_store, hy]
    | task j =>
        have hsize := (SessionPc.steps_next R y.shared (y.tasks j)).chunkSize
        exact hsize.trans hy
  refine eventually_done (SessionPc.nearer_wf x.shared.store.chunkSize) hstep
    SessionPc.Returned ?_ ?_ rfl hfair
  · intro y _ hdone
    rw [hdone.next]
    exact hdone
  · intro y hy hdone
    rw [← hy]
    exact (SessionPc.steps_next R y.shared (y.tasks i)).nearer hdone

/-- The calls of the sample session take turns. -/
theorem session_calls_return_example :
    ∃ n, ∀ m ≥ n, ((atTime Memory.filesystem ⟨sampleCalls, sampleMount⟩
      (fun n => .task (Fin.ofNat 3 n)) m).tasks 1).Returned := by
  apply session_calls_return
  intro n
  refine ⟨3 * n + 1, by omega, ?_⟩
  have hturn : Fin.ofNat 3 (3 * n + 1) = 1 := by
    apply Fin.ext
    show (3 * n + 1) % 3 = 1
    omega
  exact congrArg Move.task hturn

end Session

end CacheShfs
