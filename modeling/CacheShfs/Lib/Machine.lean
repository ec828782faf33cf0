import Mathlib.Data.List.Basic

/-!
# Machines driven by a list of events

A machine is a step function `σ → ε → σ`; a run is a list of events folded over it.  The
rules here turn a fact about one step into a fact about every run: `invariant` for a predicate
that every admissible step keeps, `allSteps_of_invariant` for what such a predicate says about
each step.  `Visits` names the states a run passes through, for assumptions about a whole run.
-/

namespace Machine

variable {σ ε : Type*}

/-- The state after a list of events. -/
def run (step : σ → ε → σ) (s : σ) (es : List ε) : σ := es.foldl step s

/-- Every step of the run meets `cond`, which sees the state before the step. -/
def AllSteps (step : σ → ε → σ) (cond : σ → ε → Prop) : σ → List ε → Prop
  | _, [] => True
  | s, e :: es => cond s e ∧ AllSteps step cond (step s e) es

instance AllSteps.decidable (step : σ → ε → σ) (cond : σ → ε → Prop)
    [∀ s e, Decidable (cond s e)] : ∀ s es, Decidable (AllSteps step cond s es)
  | _, [] => isTrue trivial
  | s, e :: es =>
      have := decidable step cond (step s e) es
      inferInstanceAs (Decidable (_ ∧ _))

@[simp] lemma run_nil (step : σ → ε → σ) (s : σ) : run step s [] = s := rfl

@[simp] lemma run_cons (step : σ → ε → σ) (s : σ) (e : ε) (es : List ε) :
    run step s (e :: es) = run step (step s e) es := rfl

lemma run_append (step : σ → ε → σ) (s : σ) (es fs : List ε) :
    run step s (es ++ fs) = run step (run step s es) fs := by
  simp [run, List.foldl_append]

@[simp] lemma allSteps_nil (step : σ → ε → σ) (cond : σ → ε → Prop) (s : σ) :
    AllSteps step cond s [] := trivial

lemma allSteps_append {step : σ → ε → σ} {cond : σ → ε → Prop} {s : σ} {es fs : List ε} :
    AllSteps step cond s (es ++ fs) ↔
      AllSteps step cond s es ∧ AllSteps step cond (run step s es) fs := by
  induction es generalizing s with
  | nil => simp
  | cons e es ih =>
      simp only [List.cons_append, AllSteps, run_cons]
      rw [ih, and_assoc]

lemma allSteps_mono {step : σ → ε → σ} {c c' : σ → ε → Prop}
    (himp : ∀ s e, c s e → c' s e) {s : σ} {es : List ε} (h : AllSteps step c s es) :
    AllSteps step c' s es := by
  induction es generalizing s with
  | nil => trivial
  | cons e es ih => exact ⟨himp s e h.1, ih h.2⟩

/-- A condition on the events alone. -/
lemma allSteps_of_forall {step : σ → ε → σ} {good : ε → Prop} {s : σ} {es : List ε}
    (h : ∀ e ∈ es, good e) : AllSteps step (fun _ e => good e) s es := by
  induction es generalizing s with
  | nil => trivial
  | cons e es ih =>
      exact ⟨h e List.mem_cons_self, ih fun e he => h e (List.mem_cons_of_mem _ he)⟩

/-- **The invariant rule.**  What holds at the start and is kept by every admissible step
holds after every run of admissible steps. -/
theorem invariant {step : σ → ε → σ} {cond : σ → ε → Prop} {inv : σ → Prop}
    (hstep : ∀ s e, cond s e → inv s → inv (step s e))
    {s : σ} {es : List ε} (hs : inv s) (hes : AllSteps step cond s es) :
    inv (run step s es) := by
  induction es generalizing s with
  | nil => exact hs
  | cons e es ih => exact ih (hstep s e hes.1 hs) hes.2

/-- What the invariant gives at each step, holds at every step of the run. -/
theorem allSteps_of_invariant {step : σ → ε → σ} {cond good : σ → ε → Prop} {inv : σ → Prop}
    (hstep : ∀ s e, cond s e → inv s → inv (step s e))
    (hgood : ∀ s e, cond s e → inv s → good s e)
    {s : σ} {es : List ε} (hs : inv s) (hes : AllSteps step cond s es) :
    AllSteps step good s es := by
  induction es generalizing s with
  | nil => trivial
  | cons e es ih => exact ⟨hgood s e hes.1 hs, ih (hstep s e hes.1 hs) hes.2⟩

/-- What every step keeps, every run keeps. -/
lemma invariant_of_step {step : σ → ε → σ} {inv : σ → Prop}
    (hstep : ∀ s e, inv s → inv (step s e)) {s : σ} (hs : inv s) (es : List ε) :
    inv (run step s es) :=
  invariant (fun s e (_ : True) => hstep s e) hs (allSteps_of_forall fun _ _ => trivial)

lemma allSteps_of_step {step : σ → ε → σ} {good : σ → ε → Prop} {inv : σ → Prop}
    (hstep : ∀ s e, inv s → inv (step s e)) (hgood : ∀ s e, inv s → good s e) {s : σ}
    (hs : inv s) (es : List ε) : AllSteps step good s es :=
  allSteps_of_invariant (fun s e (_ : True) => hstep s e) (fun s e _ => hgood s e) hs
    (allSteps_of_forall fun _ _ => trivial)

/-- A property that every state has up to the step where a condition fails: if a step keeps it
exactly under the condition, a run keeps it exactly where all steps meet the condition. -/
theorem allSteps_iff {step : σ → ε → σ} {cond : σ → ε → Prop} (inv good : σ → Prop)
    (hinv : ∀ s e, inv s → inv (step s e))
    (hstep : ∀ s e, inv s → good s → (good (step s e) ↔ cond s e))
    {s : σ} {es : List ε} (hs : inv s) (hgood : good s) :
    AllSteps step (fun s e => good (step s e)) s es ↔ AllSteps step cond s es := by
  induction es generalizing s with
  | nil => exact Iff.rfl
  | cons e es ih =>
      simp only [AllSteps]
      rw [hstep s e hs hgood]
      refine and_congr_right fun hcond => ih (hinv s e hs) ?_
      exact (hstep s e hs hgood).mpr hcond

lemma AllSteps.and {step : σ → ε → σ} {c c' : σ → ε → Prop} {s : σ} {es : List ε}
    (h : AllSteps step c s es) (h' : AllSteps step c' s es) :
    AllSteps step (fun t e => c t e ∧ c' t e) s es := by
  induction es generalizing s with
  | nil => trivial
  | cons e es ih => exact ⟨⟨h.1, h'.1⟩, ih h.2 h'.2⟩

/-- The states a run passes through, its first and its last one included. -/
def Visits (step : σ → ε → σ) (s : σ) (es : List ε) (t : σ) : Prop :=
  ∃ fs, fs <+: es ∧ t = run step s fs

@[simp] lemma visits_nil {step : σ → ε → σ} {s t : σ} : Visits step s [] t ↔ t = s := by
  simp [Visits]

@[simp] lemma visits_cons {step : σ → ε → σ} {s t : σ} {e : ε} {es : List ε} :
    Visits step s (e :: es) t ↔ t = s ∨ Visits step (step s e) es t := by
  constructor
  · rintro ⟨fs, hfs, rfl⟩
    cases fs with
    | nil => exact .inl rfl
    | cons f fs =>
        obtain ⟨rfl, htail⟩ := List.cons_prefix_cons.mp hfs
        exact .inr ⟨fs, htail, rfl⟩
  · rintro (rfl | ⟨fs, hfs, rfl⟩)
    · exact ⟨[], List.nil_prefix, rfl⟩
    · exact ⟨e :: fs, List.cons_prefix_cons.mpr ⟨rfl, hfs⟩, rfl⟩

/-- Every step of a run has its place in it. -/
lemma allSteps_place (step : σ → ε → σ) (s : σ) (es : List ε) :
    AllSteps step (fun t e => ∃ fs gs, es = fs ++ e :: gs ∧ t = run step s fs) s es := by
  suffices h : ∀ fs gs, es = fs ++ gs →
      AllSteps step (fun t e => ∃ fs gs, es = fs ++ e :: gs ∧ t = run step s fs) (run step s fs)
        gs from h [] es rfl
  intro fs gs
  induction gs generalizing fs with
  | nil => exact fun _ => trivial
  | cons e gs ih =>
      intro hes
      refine ⟨⟨fs, gs, hes, rfl⟩, ?_⟩
      have hnext := ih (fs ++ [e]) (by rw [hes, List.append_assoc]; rfl)
      rwa [run_append] at hnext

/-- Every step of a run starts in a state the run visits. -/
lemma allSteps_visits (step : σ → ε → σ) (s : σ) (es : List ε) :
    AllSteps step (fun t _ => Visits step s es t) s es := by
  refine allSteps_mono (fun t e h => ?_) (allSteps_place step s es)
  obtain ⟨fs, gs, hes, ht⟩ := h
  exact ⟨fs, ⟨e :: gs, hes.symm⟩, ht⟩

/-- The invariant rule, for every state a run visits. -/
theorem visits_invariant {step : σ → ε → σ} {cond : σ → ε → Prop} {inv : σ → Prop}
    (hstep : ∀ s e, cond s e → inv s → inv (step s e))
    {s : σ} {es : List ε} (hs : inv s) (hes : AllSteps step cond s es) {t : σ}
    (ht : Visits step s es t) : inv t := by
  obtain ⟨fs, ⟨gs, rfl⟩, rfl⟩ := ht
  exact invariant hstep hs (allSteps_append.mp hes).1

lemma visits_of_step {step : σ → ε → σ} {inv : σ → Prop}
    (hstep : ∀ s e, inv s → inv (step s e)) {s t : σ} (hs : inv s) {es : List ε}
    (ht : Visits step s es t) : inv t := by
  obtain ⟨fs, -, rfl⟩ := ht
  exact invariant_of_step hstep hs fs

/-! ## Outputs -/

/-- What a run puts out, event by event. -/
def outputs {α : Type*} (step : σ → ε → σ) (out : σ → ε → List α) : σ → List ε → List α
  | _, [] => []
  | s, e :: es => out s e ++ outputs step out (step s e) es

lemma outputs_append {α : Type*} (step : σ → ε → σ) (out : σ → ε → List α) (s : σ)
    (es fs : List ε) : outputs step out s (es ++ fs) =
      outputs step out s es ++ outputs step out (run step s es) fs := by
  induction es generalizing s with
  | nil => rfl
  | cons e es ih => simp only [List.cons_append, outputs, run_cons, ih, List.append_assoc]

/-- **The simulation rule.**  Related states that put out the same, and stay related, put out the
same over every run. -/
theorem outputs_eq {α : Type*} {step : σ → ε → σ} {out : σ → ε → List α} (good : ε → Prop)
    (rel : σ → σ → Prop)
    (hstep : ∀ s t e, good e → rel s t → out t e = out s e ∧ rel (step s e) (step t e)) {s t : σ}
    {es : List ε} (h : rel s t) (hes : ∀ e ∈ es, good e) :
    outputs step out t es = outputs step out s es := by
  induction es generalizing s t with
  | nil => rfl
  | cons e es ih =>
      obtain ⟨hout, hrel⟩ := hstep s t e (hes e List.mem_cons_self) h
      simp only [outputs]
      rw [hout, ih hrel fun e he => hes e (List.mem_cons_of_mem _ he)]

end Machine
