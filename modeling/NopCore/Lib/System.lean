import Mathlib.Logic.Relation

/-!
# Clocked machines

A synchronous circuit is a state, updated on every clock edge from the state
and the inputs of that cycle. The update is a function; what the environment is
allowed to drive is a separate relation between the present state and the
inputs, so a handshake assumption is stated once and never folded into the
circuit itself.

Safety is a property of every reachable state. `Machine.invariant` is the only
induction over cycles that a verification needs: it asks for the reset states
and for one clock edge. `Machine.restrict` narrows the environment, which is how
a property that holds only under a side condition is stated over whole runs.
-/

namespace Clocked

/-- A synchronous circuit with states `σ` and per-cycle inputs `ι`. -/
structure Machine (σ ι : Type*) where
  /-- The states in which the circuit may leave reset. -/
  init : σ → Prop
  /-- What the environment may drive in a given state. -/
  legal : σ → ι → Prop
  /-- The registers after the clock edge. -/
  step : σ → ι → σ

namespace Machine

variable {σ ι : Type*} (M : Machine σ ι)

/-- States reachable from reset by clock edges with legal inputs. -/
inductive Reachable : σ → Prop
  | reset {s : σ} : M.init s → Reachable s
  | edge {s : σ} {i : ι} : Reachable s → M.legal s i → Reachable (M.step s i)

/-- Clock the machine through a list of input vectors. -/
def run (s : σ) : List ι → σ
  | [] => s
  | i :: is => run (M.step s i) is

/-- Every input vector of the list is legal in the state it meets. -/
def Legal (s : σ) : List ι → Prop
  | [] => True
  | i :: is => M.legal s i ∧ Legal (M.step s i) is

@[simp] theorem run_nil (s : σ) : M.run s [] = s := rfl

@[simp] theorem run_cons (s : σ) (i : ι) (is : List ι) :
    M.run s (i :: is) = M.run (M.step s i) is := rfl

instance decidableLegal [∀ s i, Decidable (M.legal s i)] (s : σ) (is : List ι) :
    Decidable (M.Legal s is) :=
  match is with
  | [] => inferInstanceAs (Decidable True)
  | i :: is =>
    let _ := decidableLegal (M.step s i) is
    inferInstanceAs (Decidable (M.legal s i ∧ M.Legal (M.step s i) is))

variable {M}

/-- Where the environment is free, every list of input vectors is legal. -/
theorem legal_of_forall (h : ∀ s i, M.legal s i) (s : σ) (is : List ι) : M.Legal s is := by
  induction is generalizing s with
  | nil => trivial
  | cons i is ih => exact ⟨h s i, ih _⟩

/-- A predicate that holds at reset and survives every legal clock edge holds in
every reachable state. -/
theorem invariant {P : σ → Prop} (hinit : ∀ s, M.init s → P s)
    (hedge : ∀ s i, P s → M.legal s i → P (M.step s i)) {s : σ}
    (h : M.Reachable s) : P s := by
  induction h with
  | reset h => exact hinit _ h
  | edge _ hi ih => exact hedge _ _ ih hi

/-- The same rule when earlier invariants of the machine may be used at the
state before the edge. -/
theorem invariant_of_reachable {P : σ → Prop} (hinit : ∀ s, M.init s → P s)
    (hedge : ∀ s i, M.Reachable s → P s → M.legal s i → P (M.step s i)) {s : σ}
    (h : M.Reachable s) : P s := by
  induction h with
  | reset h => exact hinit _ h
  | edge hr hi ih => exact hedge _ _ hr ih hi

theorem Reachable.run {s : σ} (h : M.Reachable s) {is : List ι} (his : M.Legal s is) :
    M.Reachable (M.run s is) := by
  induction is generalizing s with
  | nil => exact h
  | cons i is ih => exact ih (.edge h his.1) his.2

/-- The same circuit under an environment that also keeps to `C`. -/
def restrict (M : Machine σ ι) (C : σ → ι → Prop) : Machine σ ι :=
  { M with legal := fun s i => M.legal s i ∧ C s i }

@[simp] theorem restrict_init (C : σ → ι → Prop) : (M.restrict C).init = M.init := rfl

@[simp] theorem restrict_step (C : σ → ι → Prop) : (M.restrict C).step = M.step := rfl

@[simp] theorem restrict_legal (C : σ → ι → Prop) (s : σ) (i : ι) :
    (M.restrict C).legal s i ↔ M.legal s i ∧ C s i := Iff.rfl

instance decidableRestrict [∀ s i, Decidable (M.legal s i)] (C : σ → ι → Prop)
    [DecidableRel C] (s : σ) (i : ι) : Decidable ((M.restrict C).legal s i) :=
  inferInstanceAs (Decidable (M.legal s i ∧ C s i))

@[simp] theorem restrict_run (C : σ → ι → Prop) (s : σ) (is : List ι) :
    (M.restrict C).run s is = M.run s is := by
  induction is generalizing s with
  | nil => rfl
  | cons i is ih => exact ih _

/-- A run whose steps all meet `C`. -/
theorem reachable_restrict_run {C : σ → ι → Prop} {s : σ} (hs : M.init s) {is : List ι}
    (his : (M.restrict C).Legal s is) : (M.restrict C).Reachable (M.run s is) := by
  have hstart : (M.restrict C).Reachable s := .reset hs
  rw [← restrict_run (M := M) C]
  exact hstart.run his

/-- A run that keeps to a condition keeps to a weaker one. -/
theorem Reachable.weaken {C D : σ → ι → Prop} {s : σ} (h : (M.restrict C).Reachable s)
    (hweak : ∀ s i, C s i → D s i) : (M.restrict D).Reachable s := by
  induction h with
  | reset h => exact .reset h
  | edge _ hi ih => exact .edge ih ⟨hi.1, hweak _ _ hi.2⟩

/-- States reached from a state by legal clock edges that all meet `C`. -/
inductive From (M : Machine σ ι) (C : σ → ι → Prop) (s : σ) : σ → Prop
  | here : From M C s s
  | edge {t : σ} {i : ι} : From M C s t → M.legal t i → C t i → From M C s (M.step t i)

theorem From.reachable {C : σ → ι → Prop} {s t : σ} (h : M.From C s t) (hs : M.Reachable s) :
    M.Reachable t := by
  induction h with
  | here => exact hs
  | edge _ hi _ ih => exact .edge ih hi

/-- What holds in a state and survives these edges holds in every state reached. -/
theorem From.invariant {C : σ → ι → Prop} {P : σ → Prop} {s t : σ} (h : M.From C s t) (hs : P s)
    (hedge : ∀ t i, M.From C s t → P t → M.legal t i → C t i → P (M.step t i)) : P t := by
  induction h with
  | here => exact hs
  | edge ht hi hc ih => exact hedge _ _ ht ih hi hc

theorem From.run {C : σ → ι → Prop} {s : σ} {is : List ι} (his : (M.restrict C).Legal s is) :
    M.From C s (M.run s is) := by
  have hgo : ∀ t, M.From C s t → ∀ is, (M.restrict C).Legal t is → M.From C s (M.run t is) := by
    intro t ht is
    induction is generalizing t with
    | nil => exact fun _ => ht
    | cons i is ih => exact fun h => ih _ (.edge ht h.1.1 h.1.2) h.2
  exact hgo s .here is his

end Machine

/-! ## Traces

Two circuits with the same ports can be compared through what they drive in each
cycle. A relation that survives every cycle and determines what is driven makes the
traces equal. -/

section Trace

variable {σ τ ι ω : Type*}

/-- What is driven in each cycle of a run. -/
def trace (step : σ → ι → σ) (observe : σ → ω) (s : σ) : List ι → List ω
  | [] => []
  | i :: is => observe s :: trace step observe (step s i) is

theorem trace_eq {R : σ → τ → Prop} {P : ι → Prop} {step : σ → ι → σ} {step' : τ → ι → τ}
    {observe : σ → ω} {observe' : τ → ω} (hstep : ∀ s t i, R s t → P i → R (step s i) (step' t i))
    (hobserve : ∀ s t, R s t → observe s = observe' t) {s : σ} {t : τ} (h : R s t)
    {is : List ι} (his : ∀ i ∈ is, P i) : trace step observe s is = trace step' observe' t is := by
  induction is generalizing s t with
  | nil => rfl
  | cons i is ih =>
    rw [trace, trace, hobserve s t h]
    have hi := his i List.mem_cons_self
    rw [ih (hstep s t i h hi) fun j hj => his j (List.mem_cons_of_mem i hj)]

end Trace

/-! ## Sequential machines

A clock edge may do several steps of a machine that does one after the other, or none. If
every edge does the steps that it says, so does a run. -/

section Sequential

variable {α τ σ ι : Type*}

/-- The labelled steps of a sequential machine, one after the other. -/
inductive Steps (R : α → τ → τ → Prop) : List α → τ → τ → Prop
  | nil (t : τ) : Steps R [] t t
  | cons {a : α} {as : List α} {t u v : τ} : R a t u → Steps R as u v → Steps R (a :: as) t v

theorem Steps.append {R : α → τ → τ → Prop} {as bs : List α} {t u v : τ} (h : Steps R as t u)
    (h' : Steps R bs u v) : Steps R (as ++ bs) t v := by
  induction h with
  | nil => exact h'
  | cons hstep _ ih => exact .cons hstep (ih h')

theorem Steps.eq_of_nil {R : α → τ → τ → Prop} {t u : τ} (h : Steps R [] t u) : u = t := by
  cases h with
  | nil => rfl

/-- Steps through a sequence of states. -/
theorem Steps.of_getElem? {R : α → τ → τ → Prop} {as : List α} {t : Nat → τ}
    (h : ∀ m a, as[m]? = some a → R a (t m) (t (m + 1))) : Steps R as (t 0) (t as.length) := by
  induction as generalizing t with
  | nil => exact .nil _
  | cons a as ih =>
    exact .cons (h 0 a rfl) (ih (t := fun m => t (m + 1)) fun m b hb => h (m + 1) b hb)

/-- What the edges of a run do. -/
def Machine.does (M : Machine σ ι) (emit : σ → ι → List α) (s : σ) : List ι → List α
  | [] => []
  | i :: is => emit s i ++ M.does emit (M.step s i) is

@[simp] theorem Machine.does_restrict (M : Machine σ ι) (C : σ → ι → Prop) (emit : σ → ι → List α)
    (s : σ) (is : List ι) : (M.restrict C).does emit s is = M.does emit s is := by
  induction is generalizing s with
  | nil => rfl
  | cons i is ih => exact congrArg (emit s i ++ ·) (ih _)

/-- A run does its steps in order. -/
theorem Machine.steps_run {M : Machine σ ι} {R : α → τ → τ → Prop} {emit : σ → ι → List α}
    {observe : σ → τ} (hedge : ∀ s i, M.Reachable s → M.legal s i →
      Steps R (emit s i) (observe s) (observe (M.step s i)))
    {s : σ} (hs : M.Reachable s) {is : List ι} (his : M.Legal s is) :
    Steps R (M.does emit s is) (observe s) (observe (M.run s is)) := by
  induction is generalizing s with
  | nil => exact .nil _
  | cons i is ih => exact (hedge s i hs his.1).append (ih (.edge hs his.1) his.2)

end Sequential

end Clocked
