import CacheShfs.Lib.Machine

/-!
# Programs over an interface

An interface is a type of queries with a type of answers for each.  A `Program` asks queries, each
of which may depend on the answers before it, and ends with a value.  A `Handler` answers them from
a state; `run` is what a program ends with under a handler, and `trace` what it has asked.

What the queries of a program have in common is said once, of the program alone (`Asks`): then an
invariant that the handler keeps at such queries is kept by the whole run (`Asks.keeps`), and a run
of the program is one of the machine that the handler is (`run_eq_trace`).

A program that may fail is one of `ExceptT`.  `Ends` is its weakest precondition, with one
postcondition for values and one for errors, and has a rule for each construct.
-/

/-- A program that asks queries and goes on with the answers. -/
inductive Program (Q : Type) (A : Q → Type) (α : Type)
  | done (value : α)
  | ask (query : Q) (next : A query → Program Q A α)

/-- What answers queries: from a state, and with a new state. -/
abbrev Handler (Q : Type) (A : Q → Type) (σ : Type) := (query : Q) → σ → A query × σ

namespace Program

variable {Q : Type} {A : Q → Type} {α β ε ε' σ τ : Type}

/-- The program that goes on with the value of another one. -/
protected def bind : Program Q A α → (α → Program Q A β) → Program Q A β
  | done value, f => f value
  | ask query next, f => ask query fun answer => (next answer).bind f

instance : Monad (Program Q A) where
  pure := done
  bind := Program.bind

/-- The program that asks one query and ends with the answer. -/
def query (q : Q) : Program Q A (A q) := ask q done

/-- What a program ends with, and the state then. -/
def run (h : Handler Q A σ) : Program Q A α → σ → α × σ
  | done value, s => (value, s)
  | ask q next, s => (next (h q s).1).run h (h q s).2

/-- The queries that a run asks. -/
def trace (h : Handler Q A σ) : Program Q A α → σ → List Q
  | done _, _ => []
  | ask q next, s => q :: (next (h q s).1).trace h (h q s).2

/-- Every query that a program can ask has a property, whatever is answered. -/
def Asks (P : Q → Prop) : Program Q A α → Prop
  | done _ => True
  | ask q next => P q ∧ ∀ answer, (next answer).Asks P

section Runs

variable {h : Handler Q A σ} {P : Q → Prop}

@[simp] lemma run_pure (value : α) (s : σ) :
    (pure value : Program Q A α).run h s = (value, s) := rfl

@[simp] lemma run_query (q : Q) (s : σ) : (query q : Program Q A (A q)).run h s = h q s := rfl

@[simp] lemma run_bind (p : Program Q A α) (f : α → Program Q A β) (s : σ) :
    (p >>= f).run h s = (f (p.run h s).1).run h (p.run h s).2 := by
  show (p.bind f).run h s = _
  induction p generalizing s with
  | done value => rfl
  | ask q next ih => exact ih _ _

@[simp] lemma run_map (g : α → β) (p : Program Q A α) (s : σ) :
    (g <$> p).run h s = (g (p.run h s).1, (p.run h s).2) :=
  run_bind p (pure ∘ g) s

/-- The handler as a machine. -/
def exec (h : Handler Q A σ) (s : σ) (q : Q) : σ := (h q s).2

/-- A run of the program is a run of the machine. -/
lemma run_eq_trace (p : Program Q A α) (s : σ) :
    (p.run h s).2 = Machine.run (exec h) s (p.trace h s) := by
  induction p generalizing s with
  | done value => rfl
  | ask q next ih => exact ih _ _

lemma asks_query {q : Q} (hq : P q) : (query q : Program Q A (A q)).Asks P :=
  ⟨hq, fun _ => trivial⟩

lemma Asks.bind {p : Program Q A α} {f : α → Program Q A β} (hp : p.Asks P)
    (hf : ∀ value, (f value).Asks P) : (p >>= f).Asks P := by
  show (p.bind f).Asks P
  induction p with
  | done value => exact hf value
  | ask q next ih => exact ⟨hp.1, fun answer => ih answer (hp.2 answer)⟩

lemma Asks.mono {P' : Q → Prop} {p : Program Q A α} (hp : p.Asks P) (himp : ∀ q, P q → P' q) :
    p.Asks P' := by
  induction p with
  | done value => trivial
  | ask q next ih => exact ⟨himp q hp.1, fun answer => ih answer (hp.2 answer)⟩

lemma Asks.trace {p : Program Q A α} (hp : p.Asks P) (s : σ) : ∀ q ∈ p.trace h s, P q := by
  induction p generalizing s with
  | done value =>
      intro q hq
      cases hq
  | ask q next ih =>
      intro q' hq'
      rcases List.mem_cons.mp hq' with rfl | hq'
      · exact hp.1
      · exact ih _ (hp.2 _) _ q' hq'

/-- **The invariant rule.**  What the handler keeps at every query of a program, its runs keep. -/
theorem Asks.keeps {I : σ → Prop} {p : Program Q A α} (hp : p.Asks P)
    (hstep : ∀ q s, P q → I s → I (h q s).2) {s : σ} (hs : I s) : I (p.run h s).2 := by
  induction p generalizing s with
  | done value => exact hs
  | ask q next ih => exact ih _ (hp.2 _) (hstep q s hp.1 hs)

end Runs

/-! ## Programs that may fail -/

/-- The value or the error of a program, as a value. -/
def attempt (p : ExceptT ε (Program Q A) α) : ExceptT ε' (Program Q A) (Except ε α) :=
  ExceptT.lift p.run

/-- **The weakest precondition** of a program that may fail: `ok` for its value, `failed` for its
error. -/
def Ends (h : Handler Q A σ) (p : ExceptT ε (Program Q A) α) (s : σ) (ok : α → σ → Prop)
    (failed : ε → σ → Prop) : Prop :=
  match Program.run h p.run s with
  | (.ok value, s) => ok value s
  | (.error e, s) => failed e s

section Ends

variable {h : Handler Q A σ} {s : σ} {ok ok' : α → σ → Prop} {failed failed' : ε → σ → Prop}

lemma ends_iff {p : ExceptT ε (Program Q A) α} : Ends h p s ok failed ↔
    (∀ value, (Program.run h p.run s).1 = .ok value → ok value (Program.run h p.run s).2) ∧
      ∀ e, (Program.run h p.run s).1 = .error e → failed e (Program.run h p.run s).2 := by
  unfold Ends
  rcases Program.run h p.run s with ⟨_ | _, _⟩ <;> simp

/-- The weakest precondition says all of a run. -/
lemma run_eq_iff {p : ExceptT ε (Program Q A) α} {r : Except ε α × σ} :
    Program.run h p.run s = r ↔
      Ends h p s (fun value s => (.ok value, s) = r) fun e s => (.error e, s) = r := by
  unfold Ends
  rcases Program.run h p.run s with ⟨_ | _, _⟩ <;> rfl

/-- A postcondition of the state alone. -/
lemma ends_state {p : ExceptT ε (Program Q A) α} {P : σ → Prop} :
    Ends h p s (fun _ => P) (fun _ => P) ↔ P (Program.run h p.run s).2 := by
  unfold Ends
  rcases Program.run h p.run s with ⟨_ | _, _⟩ <;> rfl

lemma ends_of_ok {p : ExceptT ε (Program Q A) α} {value : α} {s' : σ}
    (hp : Program.run h p.run s = (.ok value, s')) : Ends h p s ok failed ↔ ok value s' := by
  rw [Ends, hp]

lemma ends_of_error {p : ExceptT ε (Program Q A) α} {e : ε} {s' : σ}
    (hp : Program.run h p.run s = (.error e, s')) : Ends h p s ok failed ↔ failed e s' := by
  rw [Ends, hp]

@[simp] lemma ends_pure (value : α) :
    Ends h (pure value : ExceptT ε (Program Q A) α) s ok failed ↔ ok value s := Iff.rfl

@[simp] lemma ends_throw (e : ε) :
    Ends h (throw e : ExceptT ε (Program Q A) α) s ok failed ↔ failed e s := Iff.rfl

@[simp] lemma ends_bind {ok : β → σ → Prop} (p : ExceptT ε (Program Q A) α)
    (f : α → ExceptT ε (Program Q A) β) :
    Ends h (p >>= f) s ok failed ↔
      Ends h p s (fun value s => Ends h (f value) s ok failed) failed := by
  have hrun : Program.run h (p >>= f).run s =
      Program.run h (ExceptT.bindCont f (Program.run h p.run s).1) (Program.run h p.run s).2 :=
    run_bind p.run (ExceptT.bindCont f) s
  unfold Ends
  rw [hrun]
  rcases Program.run h p.run s with ⟨_ | _, _⟩ <;> rfl

@[simp] lemma ends_map (g : α → β) {ok : β → σ → Prop} (p : ExceptT ε (Program Q A) α) :
    Ends h (g <$> p) s ok failed ↔ Ends h p s (fun value s => ok (g value) s) failed :=
  ends_bind p (pure ∘ g)

/-- A part that cannot fail. -/
@[simp] lemma ends_lift (p : Program Q A α) :
    Ends h (ExceptT.lift p : ExceptT ε (Program Q A) α) s ok failed ↔
      ok (p.run h s).1 (p.run h s).2 := by
  have hrun : Program.run h (ExceptT.lift p : ExceptT ε (Program Q A) α).run s =
      (Except.ok (p.run h s).1, (p.run h s).2) := run_bind p (pure ∘ Except.ok) s
  unfold Ends
  rw [hrun]

@[simp] lemma ends_attempt {ok : Except ε' α → σ → Prop} (p : ExceptT ε' (Program Q A) α) :
    Ends h (attempt p : ExceptT ε (Program Q A) (Except ε' α)) s ok failed ↔
      Ends h p s (fun value s => ok (.ok value) s) fun e s => ok (.error e) s := by
  rw [attempt, ends_lift]
  unfold Ends
  rcases Program.run h p.run s with ⟨_ | _, _⟩ <;> rfl

/-- A part whose errors are translated. -/
@[simp] lemma ends_adapt (g : ε' → ε) (p : ExceptT ε' (Program Q A) α) :
    Ends h (ExceptT.adapt g p) s ok failed ↔ Ends h p s ok (fun e s => failed (g e) s) := by
  have hrun : Program.run h (ExceptT.adapt g p).run s =
      ((Program.run h p.run s).1.mapError g, (Program.run h p.run s).2) :=
    run_bind p.run (pure ∘ Except.mapError g) s
  unfold Ends
  rw [hrun]
  rcases Program.run h p.run s with ⟨_ | _, _⟩ <;> rfl

lemma Ends.mono {p : ExceptT ε (Program Q A) α} (hp : Ends h p s ok failed)
    (hok : ∀ value s, ok value s → ok' value s) (hfailed : ∀ e s, failed e s → failed' e s) :
    Ends h p s ok' failed' := by
  rw [ends_iff] at hp ⊢
  exact ⟨fun value hvalue => hok _ _ (hp.1 value hvalue), fun e he => hfailed _ _ (hp.2 e he)⟩

/-- What a program ends with is a value or an error. -/
lemma Ends.result {p : ExceptT ε (Program Q A) α} (hp : Ends h p s ok failed)
    (g : Except ε α → β) :
    (∃ value, ((g <$> p.run).run h s).1 = g (.ok value) ∧ ok value ((g <$> p.run).run h s).2) ∨
      ∃ e, ((g <$> p.run).run h s).1 = g (.error e) ∧ failed e ((g <$> p.run).run h s).2 := by
  rw [ends_iff] at hp
  rw [run_map]
  cases hresult : (Program.run h p.run s).1 with
  | ok value => exact .inl ⟨value, rfl, hp.1 value hresult⟩
  | error e => exact .inr ⟨e, rfl, hp.2 e hresult⟩

/-- An invariant of the queries holds at the end too. -/
lemma Ends.keeps {P : Q → Prop} {I : σ → Prop} {p : ExceptT ε (Program Q A) α}
    (hp : Ends h p s ok failed) (hasks : p.run.Asks P)
    (hstep : ∀ q s, P q → I s → I (h q s).2) (hs : I s) :
    Ends h p s (fun value s => I s ∧ ok value s) fun e s => I s ∧ failed e s := by
  have hend : I (Program.run h p.run s).2 := hasks.keeps hstep hs
  rw [ends_iff] at hp ⊢
  exact ⟨fun value hvalue => ⟨hend, hp.1 value hvalue⟩, fun e he => ⟨hend, hp.2 e he⟩⟩

end Ends

/-! The queries of a program that may fail. -/

section Queries

variable {P : Q → Prop}

lemma Asks.map {p : Program Q A α} (hp : p.Asks P) (g : α → β) : (g <$> p).Asks P :=
  Asks.bind hp fun _ => trivial

lemma Asks.andThen {p : ExceptT ε (Program Q A) α} {f : α → ExceptT ε (Program Q A) β}
    (hp : p.run.Asks P) (hf : ∀ value, (f value).run.Asks P) : (p >>= f).run.Asks P := by
  refine Asks.bind hp fun result => ?_
  cases result with
  | ok value => exact hf value
  | error e => trivial

lemma Asks.mapValue {p : ExceptT ε (Program Q A) α} (hp : p.run.Asks P) (g : α → β) :
    (g <$> p).run.Asks P :=
  hp.andThen fun _ => trivial

lemma Asks.adapt {p : ExceptT ε' (Program Q A) α} (hp : p.run.Asks P) (g : ε' → ε) :
    (ExceptT.adapt g p).run.Asks P :=
  Asks.bind hp fun _ => trivial

lemma Asks.attempt {p : ExceptT ε' (Program Q A) α} (hp : p.run.Asks P) :
    (Program.attempt p : ExceptT ε (Program Q A) (Except ε' α)).run.Asks P :=
  Asks.bind hp fun _ => trivial

end Queries

end Program
