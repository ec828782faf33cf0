import CacheShfs.Lib.Machine
import Mathlib.Logic.Function.Basic
import Mathlib.Logic.Relation

/-!
# Interleaved tasks

Tasks over a shared state.  One step of a task is a function of the task and the shared state;
a run is a list of moves, each a step of some task or a change made by the environment, in any
order.  A task that has ended steps to itself.

`Outline` is the shape of an invariant of such a pool: something about the shared state,
something about each task and the shared state, and something about each two tasks.  A step then
has to be checked three times: for the task that takes it, for what it does to the others, and
for the pairs it is in (`Outline.step_task`).  `spent_le` is the rule for progress: where every step
of a task uses up some of its measure, enough turns end the task, whatever the others do.
-/

namespace Interleave

open Machine

variable {ι τ σ ε : Type*}

/-- Tasks, and the state they share. -/
structure Pool (ι τ σ : Type*) where
  tasks : ι → τ
  shared : σ

/-- A move: a step of one task, or a change made by the environment. -/
inductive Move (ι ε : Type*)
  | task (i : ι)
  | env (e : ε)

namespace Pool

variable [DecidableEq ι]

/-- One move of a pool of tasks that step by `f`, in an environment that acts by `g`. -/
def step (f : τ → σ → τ × σ) (g : ε → σ → σ) (x : Pool ι τ σ) : Move ι ε → Pool ι τ σ
  | .task i =>
      ⟨Function.update x.tasks i (f (x.tasks i) x.shared).1, (f (x.tasks i) x.shared).2⟩
  | .env e => ⟨x.tasks, g e x.shared⟩

variable {f : τ → σ → τ × σ} {g : ε → σ → σ} {x : Pool ι τ σ}

@[simp] lemma step_task_shared (i : ι) :
    (x.step f g (.task i)).shared = (f (x.tasks i) x.shared).2 := rfl

@[simp] lemma step_task_self (i : ι) :
    (x.step f g (.task i)).tasks i = (f (x.tasks i) x.shared).1 :=
  Function.update_self _ _ _

lemma step_task_of_ne {i j : ι} (h : j ≠ i) : (x.step f g (.task i)).tasks j = x.tasks j :=
  Function.update_of_ne h _ _

@[simp] lemma step_env_tasks (e : ε) : (x.step f g (.env e)).tasks = x.tasks := rfl

@[simp] lemma step_env_shared (e : ε) : (x.step f g (.env e)).shared = g e x.shared := rfl

/-- Steps of one task, taken one after the other, are a run in which only this task has turns. -/
lemma exists_turns_alone {i : ι} {t t' : τ} {s s' : σ}
    (h : Relation.ReflTransGen (fun a b => b = f a.1 a.2) (t, s) (t', s'))
    (hx : x.tasks i = t) (hs : x.shared = s) :
    ∃ ms : List (Move ι ε), run (step f g) x ms = ⟨Function.update x.tasks i t', s'⟩ := by
  have hends : ∀ b, Relation.ReflTransGen (fun a b => b = f a.1 a.2) (t, s) b →
      ∃ ms : List (Move ι ε), run (step f g) x ms = ⟨Function.update x.tasks i b.1, b.2⟩ := by
    intro b hb
    induction hb with
    | refl =>
        refine ⟨[], ?_⟩
        rw [← hx, ← hs, Function.update_eq_self]
        rfl
    | @tail b c _ hbc ih =>
        obtain ⟨ms, hms⟩ := ih
        refine ⟨ms ++ [.task i], ?_⟩
        rw [run_append, hms, hbc]
        show step f g _ (.task i) = _
        simp only [step, Function.update_self, Function.update_idem]
  exact hends (t', s') h

end Pool

/-! ## Invariants -/

/-- A pool invariant: of the shared state, of each task, and of each two tasks. -/
structure Outline (I : σ → Prop) (A : ι → τ → σ → Prop) (D : τ → τ → Prop) (x : Pool ι τ σ) :
    Prop where
  shared : I x.shared
  task : ∀ i, A i (x.tasks i) x.shared
  apart : ∀ i j, i ≠ j → D (x.tasks i) (x.tasks j)

variable [DecidableEq ι] {f : τ → σ → τ × σ} {g : ε → σ → σ} {I : σ → Prop}
  {A : ι → τ → σ → Prop} {D : τ → τ → Prop} {x : Pool ι τ σ}

/-- A step of one task: it keeps the shared invariant and its own assertion, disturbs no other
task, and stays apart from them. -/
lemma Outline.step_task (hx : Outline I A D x) {i : ι}
    (hshared : I (f (x.tasks i) x.shared).2)
    (hown : A i (f (x.tasks i) x.shared).1 (f (x.tasks i) x.shared).2)
    (hothers : ∀ j, j ≠ i → A j (x.tasks j) (f (x.tasks i) x.shared).2)
    (hapart : ∀ j, j ≠ i → D (f (x.tasks i) x.shared).1 (x.tasks j) ∧
      D (x.tasks j) (f (x.tasks i) x.shared).1) :
    Outline I A D (x.step f g (.task i)) where
  shared := hshared
  task j := by
    by_cases hj : j = i
    · subst hj
      rw [Pool.step_task_self]
      exact hown
    · rw [Pool.step_task_of_ne hj]
      exact hothers j hj
  apart j k hjk := by
    by_cases hj : j = i
    · subst hj
      rw [Pool.step_task_self, Pool.step_task_of_ne (Ne.symm hjk)]
      exact (hapart k (Ne.symm hjk)).1
    · rw [Pool.step_task_of_ne hj]
      by_cases hk : k = i
      · subst hk
        rw [Pool.step_task_self]
        exact (hapart j hj).2
      · rw [Pool.step_task_of_ne hk]
        exact hx.apart j k hjk

/-- A change made by the environment. -/
lemma Outline.step_env (hx : Outline I A D x) {e : ε} (hshared : I (g e x.shared))
    (htask : ∀ i, A i (x.tasks i) (g e x.shared)) : Outline I A D (x.step f g (.env e)) where
  shared := hshared
  task := htask
  apart := hx.apart

/-! ## Progress -/

/-- How often task `i` gets a turn. -/
def turns (i : ι) (ms : List (Move ι ε)) : ℕ :=
  ms.countP fun m => match m with
    | .task j => decide (j = i)
    | .env _ => false

@[simp] lemma turns_nil (i : ι) : turns i ([] : List (Move ι ε)) = 0 := rfl

lemma turns_cons_self (i : ι) (ms : List (Move ι ε)) :
    turns i (.task i :: ms) = turns i ms + 1 := by simp [turns]

lemma turns_cons_of_ne {i j : ι} (h : j ≠ i) (ms : List (Move ι ε)) :
    turns i (.task j :: ms) = turns i ms := by simp [turns, h]

lemma turns_cons_env (i : ι) (e : ε) (ms : List (Move ι ε)) :
    turns i (.env e :: ms) = turns i ms := by simp [turns]

/-- **The progress rule.**  If every step of a task lowers its measure, unless this is zero, then
a run lowers it by the number of turns that the task gets. -/
theorem spent_le {cond : Pool ι τ σ → Move ι ε → Prop} {inv : Pool ι τ σ → Prop}
    (hstep : ∀ x m, cond x m → inv x → inv (x.step f g m)) {μ : τ → ℕ} {i : ι}
    (hspend : ∀ x, inv x → μ (f (x.tasks i) x.shared).1 ≤ μ (x.tasks i) - 1)
    {x : Pool ι τ σ} {ms : List (Move ι ε)} (hx : inv x)
    (hms : AllSteps (Pool.step f g) cond x ms) :
    μ ((run (Pool.step f g) x ms).tasks i) ≤ μ (x.tasks i) - turns i ms := by
  induction ms generalizing x with
  | nil => simp
  | cons m ms ih =>
      have hrest := ih (hstep x m hms.1 hx) hms.2
      rw [run_cons]
      cases m with
      | env e =>
          rw [turns_cons_env]
          exact hrest
      | task j =>
          by_cases hj : j = i
          · subst hj
            rw [turns_cons_self]
            rw [Pool.step_task_self] at hrest
            have hone := hspend x hx
            omega
          · rw [turns_cons_of_ne hj]
            rw [Pool.step_task_of_ne (Ne.symm hj)] at hrest
            exact hrest

end Interleave
