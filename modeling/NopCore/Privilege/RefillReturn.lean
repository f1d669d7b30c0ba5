import NopCore.Privilege.Csr

/-!
# Returning from a refill handler

A TLB refill switches the translation mode to direct access, and the return from
it switches page translation on again. Which return that is, the handler records
in the single flag `tlbrActive`: it is set by a refill and cleared by the next
return, whatever exception that return belongs to.

So every return leaves the mode that `returnMode` reads off the registers, and a
well-nested run can only move this mode by a refill.
-/

namespace NopCore

/-- What commit and the interrupt pins do in a cycle. -/
structure PrivilegedCycle where
  commit : CommitSignals := {}
  intrpt : BitVec 8 := 0

namespace PrivilegedCycle

/-- An exception or an interrupt is taken. Commit then makes no other effect. -/
structure Enters (c : PrivilegedCycle) : Prop where
  except : c.commit.request.except.valid = true
  ertn : c.commit.request.ertn = false
  csrWrite : c.commit.csrWrite = none

/-- An exception return retires. -/
structure Returns (c : PrivilegedCycle) : Prop where
  except : c.commit.request.except.valid = false
  ertn : c.commit.request.ertn = true
  csrWrite : c.commit.csrWrite = none

/-- The exception that is taken is a TLB refill. A pending interrupt goes
first. -/
def refills (c : PrivilegedCycle) : Bool :=
  c.commit.request.except.valid && !c.commit.request.intPending &&
    c.commit.request.except.isTLBRefill

end PrivilegedCycle

namespace PrivilegedUnit

/-- The translation mode `(DA, PG)`. -/
def mode (p : PrivilegedUnit) : Bool × Bool := (p.handler.crmdDA, p.handler.crmdPG)

/-- Page translation. -/
def mapped : Bool × Bool := (false, true)

/-- The mode that the next return leaves. -/
def returnMode (p : PrivilegedUnit) : Bool × Bool :=
  if p.handler.tlbrActive then mapped else p.mode

def cycle (innerCounterDownEvery : Nat) (p : PrivilegedUnit) (c : PrivilegedCycle) :
    PrivilegedUnit :=
  p.step innerCounterDownEvery c.commit c.intrpt

/-- A cycle that neither takes an exception nor returns, and in which software
leaves the mode as it is. -/
structure Quiet (p : PrivilegedUnit) (c : PrivilegedCycle) : Prop where
  except : c.commit.request.except.valid = false
  ertn : c.commit.request.ertn = false
  csrWrite : ∀ w ∈ c.commit.csrWrite, w.addr = CSRAddress.CRMD →
    (w.data.getLsbD 3, w.data.getLsbD 4) = p.mode

/-- Well-nested runs: every exception is matched by a return. -/
inductive WellNested (innerCounterDownEvery : Nat) :
    PrivilegedUnit → List PrivilegedCycle → PrivilegedUnit → Prop
  | nil (p : PrivilegedUnit) : WellNested innerCounterDownEvery p [] p
  | quiet {p q : PrivilegedUnit} {c : PrivilegedCycle} {rest : List PrivilegedCycle} :
      p.Quiet c → WellNested innerCounterDownEvery (p.cycle innerCounterDownEvery c) rest q →
      WellNested innerCounterDownEvery p (c :: rest) q
  | nest {p q r : PrivilegedUnit} {enter leave : PrivilegedCycle}
      {body rest : List PrivilegedCycle} :
      enter.Enters →
      WellNested innerCounterDownEvery (p.cycle innerCounterDownEvery enter) body q →
      leave.Returns →
      WellNested innerCounterDownEvery (q.cycle innerCounterDownEvery leave) rest r →
      WellNested innerCounterDownEvery p (enter :: body ++ leave :: rest) r

variable {innerCounterDownEvery : Nat} {p q : PrivilegedUnit} {c : PrivilegedCycle}

theorem cycle_of_quiet (h : p.Quiet c) :
    (p.cycle innerCounterDownEvery c).mode = p.mode ∧
      (p.cycle innerCounterDownEvery c).handler.tlbrActive = p.handler.tlbrActive := by
  obtain ⟨vppn, ps, hstep⟩ := @step_handler innerCounterDownEvery p c.commit c.intrpt
  have hserved : ({ p.handler with llbctlLLBIT := c.commit.llbit }.step c.commit.request) =
      { p.handler with llbctlLLBIT := c.commit.llbit } := by
    simp [ExceptionHandler.step, h.except, h.ertn]
  rw [hserved] at hstep
  simp only [mode, cycle, hstep]
  cases hw : c.commit.csrWrite with
  | none => exact ⟨rfl, rfl⟩
  | some w =>
    refine ⟨?_, rfl⟩
    by_cases hcrmd : w.addr = CSRAddress.CRMD
    · have hkeep : (w.data[3], w.data[4]) = p.mode := h.csrWrite w hw hcrmd
      simpa [ExceptionHandler.writeCSR, CSRWrite.update, hcrmd, mode] using hkeep
    · simp [ExceptionHandler.writeCSR, CSRWrite.update, hcrmd]

private theorem request_eq {r : ExceptionHandler.Request} (hertn : r.ertn = false)
    (hint : r.intPending = false) : r = { except := r.except, epc := r.epc } := by
  cases r
  simp_all

/-- Taking an exception moves the mode of the next return only if it is a
refill. -/
theorem cycle_of_enters (h : c.Enters) :
    (p.cycle innerCounterDownEvery c).returnMode =
      if c.refills then mapped else p.returnMode := by
  obtain ⟨vppn, ps, hstep⟩ := @step_handler innerCounterDownEvery p c.commit c.intrpt
  rw [h.csrWrite] at hstep
  simp only [returnMode, mode, cycle, hstep, PrivilegedCycle.refills, h.except, Bool.true_and]
  cases hint : c.commit.request.intPending with
  | true =>
    simp [ExceptionHandler.step, h.except, hint, ExceptionHandler.finishRefill, h.ertn,
      ExceptionHandler.enter]
  | false =>
    rw [request_eq h.ertn hint, ExceptionHandler.step_except _ _ _ h.except]
    cases c.commit.request.except.isTLBRefill <;> simp

/-- A return leaves the mode that the registers promise, and promises it to the
next one. -/
theorem cycle_of_returns (h : c.Returns) :
    (p.cycle innerCounterDownEvery c).mode = p.returnMode ∧
      (p.cycle innerCounterDownEvery c).returnMode = p.returnMode := by
  obtain ⟨vppn, ps, hstep⟩ := @step_handler innerCounterDownEvery p c.commit c.intrpt
  rw [h.csrWrite] at hstep
  simp only [returnMode, mode, cycle, hstep]
  cases p.handler.tlbrActive <;>
    simp [ExceptionHandler.step, h.except, h.ertn, ExceptionHandler.leave, mapped]

/-- A well-nested run moves the mode of the next return only by a refill. -/
theorem WellNested.returnMode {cs : List PrivilegedCycle}
    (h : WellNested innerCounterDownEvery p cs q) :
    q.returnMode = if cs.any PrivilegedCycle.refills then mapped else p.returnMode := by
  induction h with
  | nil p => rfl
  | @quiet p q c rest hquiet _ ih =>
    obtain ⟨hmode, hactive⟩ := @cycle_of_quiet innerCounterDownEvery p c hquiet
    have hkeep : (p.cycle innerCounterDownEvery c).returnMode = p.returnMode := by
      simp only [PrivilegedUnit.returnMode, hmode, hactive]
    have hno : c.refills = false := by simp [PrivilegedCycle.refills, hquiet.except]
    rw [ih, hkeep, List.any_cons, hno, Bool.false_or]
  | @nest p q r enter leave body rest henter _ hleave _ ihbody ihrest =>
    have hno : leave.refills = false := by simp [PrivilegedCycle.refills, hleave.except]
    rw [ihrest, (cycle_of_returns hleave).2, ihbody, cycle_of_enters henter]
    simp only [List.cons_append, List.any_cons, List.any_append, hno, Bool.false_or]
    cases enter.refills <;> cases body.any PrivilegedCycle.refills <;>
      cases rest.any PrivilegedCycle.refills <;> rfl

/-- The mode after a return is the one before the exception it matches exactly
if that was page translation, or if no refill is open at the exception or is
taken up to the return. -/
theorem return_mode_iff {enter leave : PrivilegedCycle} {body : List PrivilegedCycle}
    (henter : enter.Enters)
    (hbody : WellNested innerCounterDownEvery (p.cycle innerCounterDownEvery enter) body q)
    (hleave : leave.Returns) :
    (q.cycle innerCounterDownEvery leave).mode = p.mode ↔
      p.mode = mapped ∨
        (p.handler.tlbrActive = false ∧ (enter :: body).all fun c => !c.refills) := by
  have hafter : (q.cycle innerCounterDownEvery leave).mode =
      if (enter :: body).any PrivilegedCycle.refills then mapped else p.returnMode := by
    rw [(cycle_of_returns hleave).1, hbody.returnMode, cycle_of_enters henter, List.any_cons]
    cases enter.refills <;> cases body.any PrivilegedCycle.refills <;> rfl
  rw [hafter, List.all_eq_not_any_not]
  simp only [Bool.not_not]
  unfold PrivilegedUnit.returnMode
  cases (enter :: body).any PrivilegedCycle.refills <;> cases p.handler.tlbrActive <;>
    simp [eq_comm]

/-! ## A fault in the refill handler -/

def writeCycle (addr : BitVec 14) (data : UWord) : PrivilegedCycle :=
  { commit := { csrWrite := some { addr, data } } }

def takeCycle (code : ExceptionCode) (isTLBRefill : Bool) : PrivilegedCycle :=
  { commit := { request := { except := { valid := true, code, isTLBRefill } } } }

def returnCycle : PrivilegedCycle := { commit := { request := { ertn := true } } }

/-- Page translation is switched on, and a load misses the TLB. -/
def inRefillHandler : PrivilegedUnit :=
  [writeCycle CSRAddress.CRMD 0x10, takeCycle ExceptionCode.TLBR true].foldl (cycle 1) {}

/-- A refill that is handled without a fault returns to page translation. -/
theorem return_mode_refill :
    ∃ p q : PrivilegedUnit, p.mode = mapped ∧ (p.cycle 1 (takeCycle ExceptionCode.TLBR true)).mode =
        (true, false) ∧
      ((q.cycle 1 returnCycle).mode = p.mode ↔ p.mode = mapped ∨ (p.handler.tlbrActive = false ∧
        [takeCycle ExceptionCode.TLBR true].all fun c => !c.refills)) := by
  refine ⟨({} : PrivilegedUnit).cycle 1 (writeCycle CSRAddress.CRMD 0x10), _, by decide, by decide,
    return_mode_iff ⟨by decide, by decide, rfl⟩ (.nil _ : WellNested 1 _ [] _)
      ⟨by decide, by decide, rfl⟩⟩

/-- An address error inside the refill handler: its return switches page
translation on, although the refill has not returned. -/
theorem fault_in_refill_handler_maps :
    inRefillHandler.mode = (true, false) ∧
      ((inRefillHandler.cycle 1 (takeCycle ExceptionCode.ADEM false)).cycle 1 returnCycle).mode =
        (false, true) ∧
      ¬ ∀ (p q : PrivilegedUnit) (enter leave : PrivilegedCycle) (body : List PrivilegedCycle),
        enter.Enters → WellNested 1 (p.cycle 1 enter) body q → leave.Returns →
          (q.cycle 1 leave).mode = p.mode := by
  refine ⟨by decide, by decide, fun hclaim => ?_⟩
  have hsame := hclaim inRefillHandler _ (takeCycle ExceptionCode.ADEM false) returnCycle []
    ⟨by decide, by decide, rfl⟩ (.nil _) ⟨by decide, by decide, rfl⟩
  exact absurd hsame (by decide)

end PrivilegedUnit

end NopCore
