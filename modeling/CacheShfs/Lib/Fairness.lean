import CacheShfs.Lib.Interleave
import Mathlib.Data.Nat.Find
import Mathlib.Order.WellFounded

/-!
# Fair schedules

Infinite runs of interleaved tasks.  A schedule names the move made at each time; it is fair to a
task that gets a turn again and again.

`spent_le` bounds how long a task takes where its work is known when it starts.  Where a task learns
on the way how much it has to do, there is no such bound, but it still ends under a fair schedule if
each of its steps goes down in a well-founded order (`eventually_done`).
-/

namespace Interleave

open Machine

variable {ι τ σ ε : Type*} [DecidableEq ι] {f : τ → σ → τ × σ} {g : ε → σ → σ}

/-- The pool at each time. -/
def Pool.runTo (f : τ → σ → τ × σ) (g : ε → σ → σ) (x : Pool ι τ σ) (schedule : ℕ → Move ι ε) :
    ℕ → Pool ι τ σ
  | 0 => x
  | n + 1 => (runTo f g x schedule n).step f g (schedule n)

/-- The task gets a turn again and again. -/
def FairTo (i : ι) (schedule : ℕ → Move ι ε) : Prop := ∀ n, ∃ m ≥ n, schedule m = .task i

/-- What every move keeps holds at all times. -/
lemma runTo_invariant {inv : Pool ι τ σ → Prop} (hstep : ∀ x m, inv x → inv (x.step f g m))
    {x : Pool ι τ σ} (hx : inv x) (schedule : ℕ → Move ι ε) (n : ℕ) :
    inv (x.runTo f g schedule n) := by
  induction n with
  | zero => exact hx
  | succ n ih => exact hstep _ _ ih

/-- A task keeps still until its next turn. -/
lemma tasks_runTo_of_quiet {x : Pool ι τ σ} {schedule : ℕ → Move ι ε} {i : ι} {n k : ℕ}
    (h : ∀ m, n ≤ m → m < n + k → schedule m ≠ .task i) :
    (x.runTo f g schedule (n + k)).tasks i = (x.runTo f g schedule n).tasks i := by
  induction k with
  | zero => rfl
  | succ k ih =>
      have hlast : schedule (n + k) ≠ .task i := h (n + k) (Nat.le_add_right n k) (by omega)
      rw [← ih fun m hm hlt => h m hm (by omega)]
      show ((x.runTo f g schedule (n + k)).step f g (schedule (n + k))).tasks i = _
      cases hmove : schedule (n + k) with
      | env e => rfl
      | task j =>
          apply Pool.step_task_of_ne
          rintro rfl
          exact hlast hmove

/-- **The rule of fair progress.**  If each step of a task that has not ended goes down in a
well-founded order, and a task that has ended stays so, then it has ended from some time on in every
schedule that is fair to it. -/
theorem eventually_done {r : τ → τ → Prop} (hr : WellFounded r) {inv : Pool ι τ σ → Prop}
    (hstep : ∀ x m, inv x → inv (x.step f g m)) (done : τ → Prop) {i : ι}
    (hdone : ∀ x, inv x → done (x.tasks i) → done (f (x.tasks i) x.shared).1)
    (hdown : ∀ x, inv x → ¬ done (x.tasks i) → r (f (x.tasks i) x.shared).1 (x.tasks i))
    {x : Pool ι τ σ} (hx : inv x) {schedule : ℕ → Move ι ε} (hfair : FairTo i schedule) :
    ∃ n, ∀ m ≥ n, done ((x.runTo f g schedule m).tasks i) := by
  have hinv := runTo_invariant hstep hx schedule
  -- once the task has ended, no move changes that
  have hstays : ∀ n, done ((x.runTo f g schedule n).tasks i) →
      ∀ m ≥ n, done ((x.runTo f g schedule m).tasks i) := by
    intro n hn m hm
    induction m, hm using Nat.le_induction with
    | base => exact hn
    | succ m _ ih =>
        show done (((x.runTo f g schedule m).step f g (schedule m)).tasks i)
        cases schedule m with
        | env e => exact ih
        | task j =>
            by_cases hj : i = j
            · subst hj
              rw [Pool.step_task_self]
              exact hdone _ (hinv m) ih
            · rw [Pool.step_task_of_ne hj]
              exact ih
  -- from where the task is, by induction on the order
  have hends : ∀ t, ∀ n, (x.runTo f g schedule n).tasks i = t →
      ∃ m, done ((x.runTo f g schedule m).tasks i) := by
    intro t
    induction t using hr.induction with
    | _ t ih =>
        intro n hn
        by_cases hd : done t
        · exact ⟨n, hn ▸ hd⟩
        · -- the first turn from now on
          have hturn : ∃ k, schedule (n + k) = .task i := by
            obtain ⟨m, hm, hmove⟩ := hfair n
            exact ⟨m - n, by rw [Nat.add_sub_cancel' hm]; exact hmove⟩
          classical
          have hmove := Nat.find_spec hturn
          have hstill : (x.runTo f g schedule (n + Nat.find hturn)).tasks i = t := by
            rw [tasks_runTo_of_quiet fun m hm hlt hmi => ?_, hn]
            refine Nat.find_min hturn (m := m - n) (by omega) ?_
            rw [Nat.add_sub_cancel' hm]
            exact hmi
          have hnext : (x.runTo f g schedule (n + Nat.find hturn + 1)).tasks i =
              (f ((x.runTo f g schedule (n + Nat.find hturn)).tasks i)
                (x.runTo f g schedule (n + Nat.find hturn)).shared).1 := by
            show ((x.runTo f g schedule _).step f g (schedule _)).tasks i = _
            rw [hmove, Pool.step_task_self]
          refine ih _ ?_ _ hnext
          have hlower := hdown _ (hinv (n + Nat.find hturn)) (by rw [hstill]; exact hd)
          rw [hstill] at hlower ⊢
          exact hlower
  obtain ⟨n, hn⟩ := hends _ 0 rfl
  exact ⟨n, hstays n hn⟩

end Interleave
