import NopCore.Privilege.Csr

/-!
# Interrupts at commit

Commit takes a pending interrupt in place of the instruction at port 0, unless an
uncached load is executing there. The pending line is gated by the link bit: from
a load-linked on, no interrupt is taken until a store-conditional, an exception
return or a write to `LLBCTL` clears the bit.

The pop ports are inputs here, so the results hold whatever instructions arrive.
-/

namespace NopCore

/-- Commit and the privileged registers. -/
structure CommitUnit where
  fsm : UncachedState := .stateBoot
  unit : PrivilegedUnit := {}

namespace CommitUnit

/-- The pop ports, the report of the memory pipeline and the interrupt pins. -/
structure Inputs where
  ports : Nat → PopPort := fun _ => {}
  uncachedDone : Bool := false
  intrpt : BitVec 8 := 0

variable (innerCounterDownEvery : Nat) (s : CommitUnit) (i : Inputs)

def commitInputs : CommitInputs where
  intPending := s.unit.intPending
  handler := s.unit.handler
  uncachedDone := i.uncachedDone

/-- The instruction at port 0 leaves the reorder buffer. -/
def fires : Bool := Commit.fire i.ports s.fsm (s.commitInputs i) 0

def retires : Bool := Commit.retires i.ports s.fsm (s.commitInputs i) 0

def signals : CommitSignals := Commit.signals i.ports s.fsm (s.commitInputs i)

/-- An exception or an interrupt takes the place of the instruction at port 0. -/
def takesException : Bool := (s.signals i).request.except.valid

/-- It is an interrupt. -/
def takesInterrupt : Bool := s.takesException i && s.unit.intPending

def step : CommitUnit where
  fsm := Commit.nextFsm i.ports s.fsm (s.commitInputs i)
  unit := s.unit.step innerCounterDownEvery (s.signals i) i.intrpt

def machine : Clocked.Machine CommitUnit Inputs where
  init s := s = {}
  legal _ _ := True
  step := step innerCounterDownEvery

/-- Interrupts are enabled, and an enabled line is pending. -/
def Pending : Prop := s.unit.handler.crmdIE = true ∧ s.unit.interrupts.enabledPending = true

instance : Decidable s.Pending := inferInstanceAs (Decidable (_ ∧ _))

variable {innerCounterDownEvery s i}

theorem Pending.intPending (h : s.Pending) :
    s.unit.intPending = !s.unit.handler.llbctlLLBIT := by
  simp [PrivilegedUnit.intPending, InterruptHandler.intPending, h.1, h.2]

theorem takesException_eq : s.takesException i =
    (s.fires i && Commit.hasExcept i.ports s.fsm (s.commitInputs i)) := rfl

theorem hasExcept_of_intPending (h : s.unit.intPending = true) (hfsm : s.fsm = .stateBoot) :
    Commit.hasExcept i.ports s.fsm (s.commitInputs i) = true := by
  simp [Commit.hasExcept, commitInputs, h, hfsm]

/-- What taking an interrupt does: nothing retires, and the handler is entered
with the address of the instruction that was at port 0. -/
theorem step_of_takesInterrupt (h : s.takesInterrupt i = true) :
    s.retires i = false ∧
      (s.step innerCounterDownEvery i).unit.handler.crmdPLV = 0 ∧
      (s.step innerCounterDownEvery i).unit.handler.crmdIE = false ∧
      (s.step innerCounterDownEvery i).unit.handler.estat = ExceptionCode.INT ∧
      (s.step innerCounterDownEvery i).unit.handler.eraPC = (i.ports 0).uop.pc := by
  simp only [takesInterrupt, Bool.and_eq_true] at h
  obtain ⟨hexcept, hint⟩ := h
  have hhas : Commit.hasExcept i.ports s.fsm (s.commitInputs i) = true := by
    rw [takesException_eq, Bool.and_eq_true] at hexcept
    exact hexcept.2
  have hretires : s.retires i = false := by simp [retires, Commit.retires, hhas]
  have hwrite : (s.signals i).csrWrite = none := by
    change Commit.csrWrite i.ports s.fsm (s.commitInputs i) = none
    rw [Commit.csrWrite,
      show Commit.retires i.ports s.fsm (s.commitInputs i) 0 = false from hretires]
    rfl
  obtain ⟨vppn, ps, hstep⟩ := @PrivilegedUnit.step_handler innerCounterDownEvery s.unit
    (s.signals i) i.intrpt
  rw [hwrite] at hstep
  have hvalid : (s.signals i).request.except.valid = true := hexcept
  have hpending : (s.signals i).request.intPending = true := hint
  refine ⟨hretires, ?_⟩
  simp only [step, hstep, Option.elim_none, id, ExceptionHandler.step, hvalid, hpending, if_true,
    ExceptionHandler.enter]
  exact ⟨trivial, trivial, trivial, rfl⟩

/-- Only a load-linked that retires sets the link bit. -/
theorem link_of_step (h : (s.step innerCounterDownEvery i).unit.handler.llbctlLLBIT = true) :
    s.unit.handler.llbctlLLBIT = true ∨ (s.retires i = true ∧ (i.ports 0).uop.isLL = true) := by
  have hllbit : (s.signals i).llbit = true := by
    obtain ⟨vppn, ps, hstep⟩ := @PrivilegedUnit.step_handler innerCounterDownEvery s.unit
      (s.signals i) i.intrpt
    have hset : ({ s.unit.handler with llbctlLLBIT := (s.signals i).llbit }.step
        (s.signals i).request).llbctlLLBIT = true := by
      simp only [step, hstep] at h
      cases hw : (s.signals i).csrWrite with
      | none => simpa [hw] using h
      | some w =>
        simp only [hw, Option.elim_some, ExceptionHandler.writeCSR, CSRWrite.update] at h
        split_ifs at h
        · exact (Bool.and_eq_true _ _ ▸ h).2
        · exact h
    exact ExceptionHandler.llbit_of_step hset
  have hcommit : Commit.llbit i.ports s.fsm (s.commitInputs i) = true := hllbit
  unfold Commit.llbit at hcommit
  split_ifs at hcommit
  rw [Bool.or_eq_true, Bool.and_eq_true] at hcommit
  exact hcommit.symm

/-- An instruction at the head of the reorder buffer gives way to a pending
interrupt exactly if the link bit is clear. -/
theorem takesInterrupt_iff (h : s.Pending) (hfsm : s.fsm = .stateBoot)
    (hfire : s.fires i = true) :
    s.takesInterrupt i = true ↔ s.unit.handler.llbctlLLBIT = false := by
  rw [takesInterrupt, takesException_eq, hfire, Bool.true_and, h.intPending]
  cases hlink : s.unit.handler.llbctlLLBIT with
  | true => simp
  | false =>
    have hint : s.unit.intPending = true := by rw [h.intPending, hlink]; rfl
    simp [hasExcept_of_intPending hint hfsm]

/-! ## Runs -/

/-- Through the whole run an enabled interrupt is pending, no exception is taken
and no load-linked retires. -/
def Held (innerCounterDownEvery : Nat) (s : CommitUnit) : List Inputs → Prop
  | [] => True
  | i :: is =>
    s.Pending ∧ s.takesException i = false ∧
      (s.retires i = true → (i.ports 0).uop.isLL = false) ∧
      Held innerCounterDownEvery (s.step innerCounterDownEvery i) is

/-- The number of cycles of a run in which the head of the reorder buffer
leaves. -/
def departures (innerCounterDownEvery : Nat) (s : CommitUnit) : List Inputs → Nat
  | [] => 0
  | i :: is => (if s.fires i then 1 else 0) +
      departures innerCounterDownEvery (s.step innerCounterDownEvery i) is

/-- While an interrupt is pending and the link bit is clear, the head leaves only
to give way to the interrupt; an uncached load that is already executing goes
first. -/
theorem departures_le_of_unlinked {is : List Inputs}
    (hlink : s.unit.handler.llbctlLLBIT = false) (hheld : Held innerCounterDownEvery s is) :
    departures innerCounterDownEvery s is ≤ if s.fsm = .execute then 1 else 0 := by
  induction is generalizing s with
  | nil => exact Nat.zero_le _
  | cons i is ih =>
    obtain ⟨hpend, hnone, hll, hrest⟩ := hheld
    have hint : s.unit.intPending = true := by rw [hpend.intPending, hlink]; rfl
    have hlink' : (s.step innerCounterDownEvery i).unit.handler.llbctlLLBIT = false := by
      rw [← Bool.not_eq_true]
      intro hset
      rcases link_of_step hset with hwas | ⟨hretires, hisLL⟩
      · simp [hlink] at hwas
      · simp [hll hretires] at hisLL
    have hlater := ih hlink' hrest
    rw [takesException_eq, Bool.and_eq_false_iff] at hnone
    rw [departures]
    cases hfsm : s.fsm with
    | stateBoot =>
      have hhas := hasExcept_of_intPending (i := i) hint hfsm
      have hstay : s.fires i = false := by simpa [hhas] using hnone
      have hboot : (s.step innerCounterDownEvery i).fsm = .stateBoot := by
        simp [step, Commit.nextFsm, hfsm, Commit.startUncached, hfsm ▸ hhas]
      simpa [hstay, hboot] using hlater
    | execute =>
      cases hfire : s.fires i with
      | false =>
        simp only [Bool.false_eq_true, if_false, Nat.zero_add, if_true]
        exact hlater.trans (by split <;> omega)
      | true =>
        have hboot : (s.step innerCounterDownEvery i).fsm = .stateBoot :=
          Commit.nextFsm_of_fire hfire
        simpa [hboot] using hlater

/-- With an interrupt pending, the instruction that reaches the head of the
reorder buffer gives way to it exactly if the link bit is clear. Then nothing
retires, and the handler is entered with the address of that instruction. So from
a state with a clear link bit on, a run without a load-linked retires nothing but
the uncached load that is executing and what leaves with it. -/
theorem interrupt_taken_iff_unlinked (h : s.Pending) :
    (s.fsm = .stateBoot → s.fires i = true →
      (s.takesInterrupt i = true ↔ s.unit.handler.llbctlLLBIT = false)) ∧
    (s.takesInterrupt i = true → s.retires i = false ∧
      (s.step innerCounterDownEvery i).unit.handler.crmdPLV = 0 ∧
      (s.step innerCounterDownEvery i).unit.handler.estat = ExceptionCode.INT ∧
      (s.step innerCounterDownEvery i).unit.handler.eraPC = (i.ports 0).uop.pc) ∧
    (s.unit.handler.llbctlLLBIT = false → ∀ is, Held innerCounterDownEvery s is →
      departures innerCounterDownEvery s is ≤ if s.fsm = .execute then 1 else 0) := by
  refine ⟨takesInterrupt_iff h, fun htaken => ?_, fun hlink is => departures_le_of_unlinked hlink⟩
  obtain ⟨hretires, hplv, -, hestat, hera⟩ :=
    @step_of_takesInterrupt innerCounterDownEvery s i htaken
  exact ⟨hretires, hplv, hestat, hera⟩

/-! ## A user program that is never interrupted -/

/-- A complete instruction at port 0. -/
def oldest (uop : MicroOp) (intResult : UWord) (intrpt : BitVec 8) : Inputs where
  ports j :=
    if j = 0 then ⟨true, { uop }, { complete := true, intResult }⟩ else {}
  intrpt := intrpt

/-- `CSRWR`, with the register in bits 23 to 10 of the word. -/
def csrwr (addr : BitVec 14) (data : UWord) : Inputs :=
  oldest { fuType := .csr, writeCSR := true, inst := 0x04#8 ++ addr ++ 0x2c#10 } data 0

/-- Enable hardware line 0, and return to privilege level 3 with interrupts on. -/
def enterUser : List Inputs :=
  [csrwr CSRAddress.ECFG 0x4, csrwr CSRAddress.PRMD 0x7,
    oldest { fuType := .none, isErtn := true } 0 0]

def loadLinked : Inputs := oldest { fuType := .lsu, isLoad := true, isLL := true } 0 1

def nop : Inputs := oldest { fuType := .alu } 0 1

/-- User mode, behind a load-linked, with line 0 pending. -/
def linkedUser : CommitUnit := (machine 1).run {} (enterUser ++ [loadLinked])

theorem interrupt_taken_iff_unlinked_user :
    let user := (machine 1).run {} (enterUser ++ [nop])
    user.takesInterrupt nop = true ∧ user.retires nop = false := by
  intro user
  have htaken : user.takesInterrupt nop = true :=
    ((@interrupt_taken_iff_unlinked 1 user nop (by decide +kernel)).1 (by decide +kernel)
      (by decide +kernel)).mpr (by decide +kernel)
  exact ⟨htaken, by decide +kernel⟩

/-- A user program that executes a load-linked and then any number of other
instructions is not interrupted. -/
theorem linked_user_never_interrupted :
    (machine 1).Reachable linkedUser ∧ linkedUser.unit.handler.crmdPLV = 3 ∧
      ∀ n, let s := (machine 1).run linkedUser (List.replicate n nop)
        s.Pending ∧ s.unit.handler.crmdPLV = 3 ∧ s.fsm = .stateBoot ∧ s.fires nop = true ∧
          s.retires nop = true ∧ s.takesInterrupt nop = false := by
  have hstay : linkedUser.step 1 nop = linkedUser := by rfl
  refine ⟨.run (.reset rfl) ?_, by decide +kernel, fun n => ?_⟩
  · exact ⟨trivial, trivial, trivial, trivial, trivial⟩
  · have hsame : (machine 1).run linkedUser (List.replicate n nop) = linkedUser := by
      induction n with
      | zero => rfl
      | succ n ih =>
        rw [List.replicate_succ, Clocked.Machine.run_cons]
        exact (congrArg (fun s => (machine 1).run s _) hstay).trans ih
    rw [hsame]
    exact ⟨by decide +kernel, by decide +kernel, by decide +kernel, by decide +kernel,
      by decide +kernel, by decide +kernel⟩

end CommitUnit

end NopCore
