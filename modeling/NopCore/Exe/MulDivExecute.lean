import NopCore.Exe.MulDivOperation
import NopCore.Lib.Divider
import NopCore.Lib.System

/-!
# The multiply and divide pipe

Instructions issue one at a time and pass through register read (RRD), execute (EXE)
and write-back (WB). EXE holds a multiplication until the counter shows that the
multiplier has its product, and a division until the divider that suits the
operands responds. The small divider runs beside the large one, and nobody takes
what it says unless both operands are small.

A flush takes the instruction out of EXE but not the operation: the flag that it
was valid on entry stays, and the stage is occupied until the operation is over.

The consumers of the result are woken early. The busy bit is cleared when the result
is sure to be at the write port two cycles later, which is when a consumer that
issues at once reads its registers.
-/

namespace NopCore

def multiplyLatency : Nat := 2

structure MulDivIssueSlot where
  uop : MulDivIQMicroOp := {}
  wReg : Nat := 0
  deriving DecidableEq

/-- The issue queue takes only multiplications and divisions, and renaming hands out
no register 0. -/
structure MulDivIssueSlot.WellFormed (slot : MulDivIssueSlot) : Prop where
  operation : (slot.uop.isMultiply || slot.uop.isDivision) = true
  wReg : slot.uop.doRegWrite = true → slot.wReg ≠ 0

/-- The multiplier: the product of what stood at its inputs two cycles ago. -/
structure Multiplier where
  stage1 : BitVec 64 := 0
  P : BitVec 64 := 0

def Multiplier.step (m : Multiplier) (a b : UWord) : Multiplier where
  stage1 := a.setWidth 64 * b.setWidth 64
  P := m.stage1

structure MulDivPipe where
  rrdValid : Bool := false
  rrdSlot : MulDivIssueSlot := {}
  exeValid : Bool := false
  exeValidOnEntry : Bool := false
  exeSlot : MulDivIssueSlot := {}
  regData : Fin 2 → UWord := fun _ => 0
  multiplier : Multiplier := {}
  mulCounter : Nat := 0
  isFirstCycle : Bool := false
  divider : UnsignedDivider 32 := {}
  divider16 : UnsignedDivider 16 := {}
  wbValid : Bool := false
  wbSlot : MulDivIssueSlot := {}
  wbResult : UWord := 0

namespace MulDivPipe

/-- The head of the issue queue and whether it is valid and awake, the halt of
register read after a failed wake-up, the flush, and what the registers read. -/
structure Inputs where
  slot : MulDivIssueSlot := {}
  issueReq : Bool := false
  regWakeupFailed : Bool := false
  flush : Bool := false
  rrdRsp : Fin 2 → UWord := fun _ => 0

variable (useEarlyOut : Bool) (s : MulDivPipe) (i : Inputs)

/-! ## Execute -/

def uop : MulDivIQMicroOp := s.exeSlot.uop

def rj : UWord := s.regData 0

def rk : UWord := s.regData 1

def absRj : UWord := absWord s.uop.signed s.rj

def absRk : UWord := absWord s.uop.signed s.rk

def isMultiply : Bool := s.exeValidOnEntry && s.uop.isMultiply

def isDivision : Bool := s.exeValidOnEntry && s.uop.isDivision

def small : Bool := in16Bits useEarlyOut s.uop.signed s.rj s.rk

def negates : Bool := s.uop.signed && (s.rj.msb ^^ s.rk.msb)

def mulResult : BitVec 64 := twoComplement s.negates s.multiplier.P

def quotient : UWord :=
  twoComplement s.negates
    (if s.small useEarlyOut then s.divider16.numerator.setWidth 32 else s.divider.numerator)

def remainder : UWord :=
  twoComplement (s.uop.signed && s.rj.msb)
    (if s.small useEarlyOut then s.divider16.remainder.setWidth 32 else s.divider.remainder)

def exeResult : UWord :=
  match s.uop.fuType with
  | .mul => s.mulResult.extractLsb' 0 32
  | .mulh => s.mulResult.extractLsb' 32 32
  | .div => s.quotient useEarlyOut
  | .mod => s.remainder useEarlyOut
  | _ => 0

def exeStuck : Bool :=
  (s.isMultiply && s.mulCounter != multiplyLatency) ||
    (s.isDivision && !s.small useEarlyOut && !s.divider.waitRsp) ||
    (s.isDivision && s.small useEarlyOut && !s.divider16.waitRsp)

def wakeupCycle : Bool :=
  if s.isMultiply then s.mulCounter == multiplyLatency - 1 else !s.exeStuck useEarlyOut

/-- The register whose busy bit is cleared. -/
def clrBusy : Option Nat :=
  if s.exeValid && s.wakeupCycle useEarlyOut && s.uop.doRegWrite then some s.exeSlot.wReg else none

def dividerInputs : UnsignedDivider.Inputs 32 where
  cmdValid := s.isDivision && s.isFirstCycle && !s.small useEarlyOut
  numerator := s.absRj
  denominator := s.absRk
  rspReady := true

/-- The small divider is there only for the early out. -/
def divider16Inputs : UnsignedDivider.Inputs 16 where
  cmdValid := useEarlyOut && s.isDivision && s.isFirstCycle
  numerator := s.absRj.setWidth 16
  denominator := s.absRk.setWidth 16
  rspReady := true

/-! ## The stages -/

def rrdStuck : Bool := i.regWakeupFailed || s.exeStuck useEarlyOut

/-- An instruction enters register read. -/
def issFires : Bool := !s.rrdStuck useEarlyOut i && i.issueReq && !i.flush

/-- What register read hands over. -/
def rrdFires : Bool := !s.rrdStuck useEarlyOut i && !i.flush

def exeFires : Bool := !s.exeStuck useEarlyOut && !i.flush

def wPort : Option (Nat × UWord) :=
  if s.wbValid && s.wbSlot.uop.doRegWrite then some (s.wbSlot.wReg, s.wbResult) else none

def step : MulDivPipe where
  rrdValid :=
    if s.issFires useEarlyOut i then true
    else if !s.rrdStuck useEarlyOut i || i.flush then false
    else s.rrdValid
  rrdSlot := if s.rrdStuck useEarlyOut i then s.rrdSlot else i.slot
  exeValid :=
    if s.rrdFires useEarlyOut i then s.rrdValid
    else if !s.exeStuck useEarlyOut || i.flush then false
    else s.exeValid
  exeValidOnEntry :=
    if s.rrdFires useEarlyOut i then s.rrdValid
    else if !s.exeStuck useEarlyOut then false
    else s.exeValidOnEntry
  exeSlot := if s.exeStuck useEarlyOut then s.exeSlot else s.rrdSlot
  regData := if s.exeStuck useEarlyOut then s.regData else i.rrdRsp
  multiplier := s.multiplier.step s.absRj s.absRk
  mulCounter :=
    if s.isMultiply then
      if s.mulCounter = multiplyLatency then 0 else s.mulCounter + 1
    else s.mulCounter
  isFirstCycle := !s.exeStuck useEarlyOut
  divider := s.divider.step (s.dividerInputs useEarlyOut)
  divider16 := s.divider16.step (s.divider16Inputs useEarlyOut)
  wbValid := s.exeFires useEarlyOut i && s.exeValid
  wbSlot := s.exeSlot
  wbResult := s.exeResult useEarlyOut

/-- How long EXE holds an operation, from its operands. -/
def latency : Nat :=
  if s.isMultiply then multiplyLatency
  else if s.isDivision then if s.small useEarlyOut then 17 else 33
  else 0

variable {useEarlyOut s i}

/-- What is in register read was there or has just issued. -/
theorem rrdValid_step (h : (s.step useEarlyOut i).rrdValid = true) :
    (s.rrdStuck useEarlyOut i = true ∧ s.rrdValid = true) ∨
      (s.rrdStuck useEarlyOut i = false ∧ i.issueReq = true) := by
  simp only [step, issFires] at h
  cases hstuck : s.rrdStuck useEarlyOut i <;> simp only [hstuck] at h ⊢ <;> grind

theorem exeValidOnEntry_step (h : (s.step useEarlyOut i).exeValidOnEntry = true) :
    (s.exeStuck useEarlyOut = true ∧ s.exeValidOnEntry = true) ∨
      (s.exeStuck useEarlyOut = false ∧ s.rrdValid = true) := by
  simp only [step, rrdFires, rrdStuck] at h
  cases hstuck : s.exeStuck useEarlyOut <;> simp only [hstuck] at h ⊢ <;> grind

theorem exeValid_step (hentry : s.exeValid = true → s.exeValidOnEntry = true)
    (h : (s.step useEarlyOut i).exeValid = true) :
    (s.step useEarlyOut i).exeValidOnEntry = true := by
  simp only [step] at h ⊢
  split_ifs at h ⊢ <;> simp_all

end MulDivPipe

/-! ## Runs -/

/-- The pipe with the registers as far as it writes them. The rest is a record: how
long the operation in EXE has been there, the operands of the instruction in WB, the
register whose busy bit was cleared in the cycle before, and what each register is
to hold for consumers that were woken two cycles ago or earlier. -/
structure MulDivTrace where
  pipe : MulDivPipe := {}
  regs : Nat → UWord := fun _ => 0
  age : Nat := 0
  operands : Fin 2 → UWord := fun _ => 0
  woken : Option (Nat × UWord) := none
  readable : Nat → Option UWord := fun _ => none

namespace MulDivTrace

open MulDivPipe (Inputs)

variable (useEarlyOut : Bool) (t : MulDivTrace) (i : Inputs)

/-- A register read. What is being written is passed on. -/
def readPort (addr : Nat) : UWord :=
  if addr = 0 then 0
  else
    match t.pipe.wPort with
    | some (w, data) => if w = addr then data else t.regs addr
    | none => t.regs addr

/-- What the instruction in EXE computes. -/
def result : UWord := t.pipe.uop.result useEarlyOut t.pipe.rj t.pipe.rk

/-- A flush takes the consumers away as well. -/
def step : MulDivTrace where
  pipe := t.pipe.step useEarlyOut i
  regs := fun addr =>
    match t.pipe.wPort with
    | some (w, data) => if w = addr then data else t.regs addr
    | none => t.regs addr
  age := if t.pipe.exeStuck useEarlyOut then t.age + 1 else 0
  operands := t.pipe.regData
  woken :=
    if i.flush then none
    else (t.pipe.clrBusy useEarlyOut).map fun w => (w, t.result useEarlyOut)
  readable := fun addr =>
    if t.pipe.clrBusy useEarlyOut = some addr then none
    else if i.flush then t.readable addr
    else
      match t.woken with
      | some (w, data) => if w = addr then some data else t.readable addr
      | none => t.readable addr

structure Init (t : MulDivTrace) : Prop where
  rrdValid : t.pipe.rrdValid = false
  exeValid : t.pipe.exeValid = false
  exeValidOnEntry : t.pipe.exeValidOnEntry = false
  mulCounter : t.pipe.mulCounter = 0
  divider : t.pipe.divider.Idle
  divider16 : t.pipe.divider16.Idle
  wbValid : t.pipe.wbValid = false
  age : t.age = 0
  woken : t.woken = none
  readable : ∀ addr, t.readable addr = none

def Legal (i : Inputs) : Prop := i.issueReq = true → i.slot.WellFormed

def machine : Clocked.Machine MulDivTrace Inputs where
  init := Init
  legal _ i := Legal i
  step t i := t.step useEarlyOut i

/-- The pipe in every state. -/
structure Executes (t : MulDivTrace) : Prop where
  /-- What comes to WB is the result of the operands it was read with. -/
  result : t.pipe.wbValid = true →
    t.pipe.wbResult = t.pipe.wbSlot.uop.result useEarlyOut (t.operands 0) (t.operands 1)
  /-- Its busy bit has been cleared. -/
  cleared : t.pipe.wbValid = true → t.pipe.wbSlot.uop.doRegWrite = true →
    t.woken = some (t.pipe.wbSlot.wReg, t.pipe.wbResult) ∨
      t.readable t.pipe.wbSlot.wReg = some t.pipe.wbResult
  /-- Two cycles after the clearing, and until the next one, the result is read. -/
  readable : ∀ addr data, t.readable addr = some data → t.readPort addr = data
  /-- Nothing is left over when an operation begins. -/
  begins : t.age = 0 → t.pipe.mulCounter = 0 ∧ t.pipe.divider.Idle ∧ t.pipe.divider16.Idle
  first : (t.pipe.isMultiply || t.pipe.isDivision) = true →
    t.pipe.isFirstCycle = decide (t.age = 0)
  /-- It ends, flushed or not, when its time is over. -/
  ends : t.age ≤ t.pipe.latency useEarlyOut ∧
    (t.pipe.exeStuck useEarlyOut = true ↔ t.age < t.pipe.latency useEarlyOut)

variable {useEarlyOut t i}

/-! ## The operation in EXE -/

variable (useEarlyOut) in
/-- The operation in EXE and the units that work on it. -/
structure Operates (t : MulDivTrace) : Prop where
  first : (t.pipe.isMultiply || t.pipe.isDivision) = true →
    t.pipe.isFirstCycle = decide (t.age = 0)
  age_le : t.age ≤ t.pipe.latency useEarlyOut
  mulCounter : t.pipe.mulCounter = if t.pipe.isMultiply then t.age else 0
  stage1 : t.pipe.isMultiply = true → 1 ≤ t.age →
    t.pipe.multiplier.stage1 = t.pipe.absRj.setWidth 64 * t.pipe.absRk.setWidth 64
  product : t.pipe.isMultiply = true → t.age = 2 →
    t.pipe.multiplier.P = t.pipe.absRj.setWidth 64 * t.pipe.absRk.setWidth 64
  divider : if t.pipe.isDivision && !t.pipe.small useEarlyOut then
      t.pipe.divider.Serves t.pipe.absRj t.pipe.absRk t.age
    else t.pipe.divider.Idle
  divider16 : if t.pipe.isDivision && useEarlyOut then
      t.pipe.divider16.Serves (t.pipe.absRj.setWidth 16) (t.pipe.absRk.setWidth 16) t.age
    else t.pipe.divider16.Idle

theorem not_isDivision_of_isMultiply {s : MulDivPipe} (h : s.isMultiply = true) :
    s.isDivision = false := by
  simp only [MulDivPipe.isMultiply, MulDivIQMicroOp.isMultiply, Bool.and_eq_true,
    Bool.or_eq_true, beq_iff_eq] at h
  obtain ⟨-, h | h⟩ := h <;> simp [MulDivPipe.isDivision, MulDivIQMicroOp.isDivision, h]

theorem not_isMultiply_of_isDivision {s : MulDivPipe} (h : s.isDivision = true) :
    s.isMultiply = false := by
  by_contra hmul
  rw [not_isDivision_of_isMultiply (Bool.of_not_eq_false hmul)] at h
  cases h

theorem useEarlyOut_of_small {s : MulDivPipe} (h : s.small useEarlyOut = true) :
    useEarlyOut = true := by
  simp only [MulDivPipe.small, in16Bits, Bool.and_eq_true] at h
  exact h.1.1

/-- EXE is held exactly as long as the operation takes. -/
theorem Operates.exeStuck_iff (h : t.Operates useEarlyOut) :
    t.pipe.exeStuck useEarlyOut = true ↔ t.age < t.pipe.latency useEarlyOut := by
  have hle := h.age_le
  have hcounter := h.mulCounter
  have hdivider := h.divider
  have hdivider16 := h.divider16
  cases hmul : t.pipe.isMultiply with
  | true =>
    have hdiv := not_isDivision_of_isMultiply hmul
    simp only [hmul, if_true] at hcounter
    simp only [MulDivPipe.latency, hmul, if_true, multiplyLatency] at hle ⊢
    simp only [MulDivPipe.exeStuck, hmul, hdiv, hcounter, multiplyLatency]
    simp
    omega
  | false =>
    cases hdiv : t.pipe.isDivision with
    | false => simp [MulDivPipe.latency, MulDivPipe.exeStuck, hmul, hdiv]
    | true =>
      cases hsmall : t.pipe.small useEarlyOut with
      | true =>
        simp only [hdiv, useEarlyOut_of_small hsmall, Bool.and_self, if_true] at hdivider16
        have hrsp := hdivider16.rsp
        simp only [MulDivPipe.latency, hmul, hdiv, hsmall, if_true, Bool.false_eq_true,
          if_false] at hle ⊢
        simp only [MulDivPipe.exeStuck, hmul, hdiv, hsmall]
        simp [← Bool.not_eq_true, hrsp]
        omega
      | false =>
        simp only [hdiv, hsmall, Bool.not_false, Bool.and_self, if_true] at hdivider
        have hrsp := hdivider.rsp
        simp only [MulDivPipe.latency, hmul, hdiv, hsmall, if_true, Bool.false_eq_true,
          if_false] at hle ⊢
        simp only [MulDivPipe.exeStuck, hmul, hdiv, hsmall]
        simp [← Bool.not_eq_true, hrsp]
        omega

/-- What leaves EXE has been there for as long as the operation takes. -/
theorem Operates.age_of_leaves (h : t.Operates useEarlyOut)
    (hleaves : t.pipe.exeStuck useEarlyOut = false) : t.age = t.pipe.latency useEarlyOut := by
  have hle := h.age_le
  have hiff := h.exeStuck_iff
  rw [hleaves] at hiff
  simp at hiff
  omega

/-- What leaves EXE is the result. -/
theorem Operates.exeResult_eq (h : t.Operates useEarlyOut)
    (hvalid : (t.pipe.isMultiply || t.pipe.isDivision) = true)
    (hleaves : t.pipe.exeStuck useEarlyOut = false) :
    t.pipe.exeResult useEarlyOut = t.result useEarlyOut := by
  have hage := h.age_of_leaves hleaves
  rw [result, MulDivIQMicroOp.result, MulDivPipe.exeResult]
  cases hmul : t.pipe.isMultiply with
  | true =>
    have htwo : t.age = 2 := by
      rw [hage, MulDivPipe.latency, if_pos hmul]
      rfl
    have hproduct : t.pipe.mulResult = t.pipe.uop.product t.pipe.rj t.pipe.rk := by
      rw [MulDivPipe.mulResult, h.product hmul htwo]
      exact product_eq _ _ _
    simp only [MulDivPipe.isMultiply, MulDivIQMicroOp.isMultiply, Bool.and_eq_true,
      Bool.or_eq_true, beq_iff_eq] at hmul
    obtain ⟨-, hfu | hfu⟩ := hmul
    · simp only [hfu, hproduct, product_low]
    · simp only [hfu, hproduct]
  | false =>
    have hdiv : t.pipe.isDivision = true := by simpa [hmul] using hvalid
    have hunits : (if t.pipe.small useEarlyOut then t.pipe.divider16.numerator.setWidth 32
          else t.pipe.divider.numerator) =
          absQuotient useEarlyOut t.pipe.uop.signed t.pipe.rj t.pipe.rk ∧
        (if t.pipe.small useEarlyOut then t.pipe.divider16.remainder.setWidth 32
          else t.pipe.divider.remainder) =
          absRemainder useEarlyOut t.pipe.uop.signed t.pipe.rj t.pipe.rk := by
      have hdivider := h.divider
      have hdivider16 := h.divider16
      rw [absQuotient, absRemainder]
      change _ = (if t.pipe.small useEarlyOut then _ else _) ∧
        _ = if t.pipe.small useEarlyOut then _ else _
      cases hsmall : t.pipe.small useEarlyOut with
      | true =>
        have hlatency : t.pipe.latency useEarlyOut = 16 + 1 := by
          simp [MulDivPipe.latency, hmul, hdiv, hsmall]
        rw [hage, hlatency, if_pos (by simp [hdiv, useEarlyOut_of_small hsmall])] at hdivider16
        obtain ⟨hq, hr⟩ := hdivider16.result
        simp only [if_true, hq, hr]
        exact ⟨rfl, rfl⟩
      | false =>
        have hlatency : t.pipe.latency useEarlyOut = 32 + 1 := by
          simp [MulDivPipe.latency, hmul, hdiv, hsmall]
        rw [hage, hlatency, if_pos (by simp [hdiv, hsmall])] at hdivider
        exact hdivider.result
    simp only [MulDivPipe.isDivision, MulDivIQMicroOp.isDivision, Bool.and_eq_true,
      Bool.or_eq_true, beq_iff_eq] at hdiv
    obtain ⟨-, hfu | hfu⟩ := hdiv
    · simp only [hfu, MulDivPipe.quotient, hunits.1]
      exact quotient_eq _ _ _ _
    · simp only [hfu, MulDivPipe.remainder, hunits.2]
      exact remainder_eq _ _ _ _

section Held

/-! While EXE is held, nothing about the operation changes, flushed or not. -/

variable {s : MulDivPipe} (h : s.exeStuck useEarlyOut = true)

include h

theorem held_exeSlot : (s.step useEarlyOut i).exeSlot = s.exeSlot := by
  simp [MulDivPipe.step, h]

theorem held_regData : (s.step useEarlyOut i).regData = s.regData := by
  simp [MulDivPipe.step, h]

theorem held_exeValidOnEntry :
    (s.step useEarlyOut i).exeValidOnEntry = s.exeValidOnEntry := by
  simp [MulDivPipe.step, MulDivPipe.rrdFires, MulDivPipe.rrdStuck, h]

theorem held_uop : (s.step useEarlyOut i).uop = s.uop :=
  congrArg MulDivIssueSlot.uop (held_exeSlot h)

theorem held_rj : (s.step useEarlyOut i).rj = s.rj := congrFun (held_regData h) 0

theorem held_rk : (s.step useEarlyOut i).rk = s.rk := congrFun (held_regData h) 1

theorem held_isMultiply : (s.step useEarlyOut i).isMultiply = s.isMultiply := by
  rw [MulDivPipe.isMultiply, MulDivPipe.isMultiply, held_uop h, held_exeValidOnEntry h]

theorem held_isDivision : (s.step useEarlyOut i).isDivision = s.isDivision := by
  rw [MulDivPipe.isDivision, MulDivPipe.isDivision, held_uop h, held_exeValidOnEntry h]

theorem held_absRj : (s.step useEarlyOut i).absRj = s.absRj := by
  rw [MulDivPipe.absRj, MulDivPipe.absRj, held_uop h, held_rj h]

theorem held_absRk : (s.step useEarlyOut i).absRk = s.absRk := by
  rw [MulDivPipe.absRk, MulDivPipe.absRk, held_uop h, held_rk h]

theorem held_small : (s.step useEarlyOut i).small useEarlyOut = s.small useEarlyOut := by
  rw [MulDivPipe.small, MulDivPipe.small, held_uop h, held_rj h, held_rk h]

theorem held_latency : (s.step useEarlyOut i).latency useEarlyOut = s.latency useEarlyOut := by
  rw [MulDivPipe.latency, MulDivPipe.latency, held_isMultiply h, held_isDivision h, held_small h]

end Held

theorem held_result (h : t.pipe.exeStuck useEarlyOut = true) :
    (t.step useEarlyOut i).result useEarlyOut = t.result useEarlyOut := by
  have hpipe : (t.step useEarlyOut i).pipe = t.pipe.step useEarlyOut i := rfl
  rw [result, result, hpipe, held_uop h, held_rj h, held_rk h]

theorem dividerInputs_eq {s : MulDivPipe} (h : (s.isDivision && !s.small useEarlyOut) = true)
    {age : Nat} (hfirst : s.isFirstCycle = decide (age = 0)) :
    (s.dividerInputs useEarlyOut).cmdValid = decide (age = 0) := by
  simp only [Bool.and_eq_true, Bool.not_eq_true'] at h
  simp [MulDivPipe.dividerInputs, h, hfirst]

/-- The large divider after the cycle. -/
theorem Operates.divider_next (h : t.Operates useEarlyOut) :
    if t.pipe.isDivision && !t.pipe.small useEarlyOut then
      (t.pipe.step useEarlyOut i).divider.Serves t.pipe.absRj t.pipe.absRk (t.age + 1)
    else (t.pipe.step useEarlyOut i).divider.Idle := by
  have hdivider := h.divider
  cases huses : t.pipe.isDivision && !t.pipe.small useEarlyOut with
  | true =>
    have hfirst := h.first (by
      simp only [Bool.and_eq_true] at huses
      simp [huses.1])
    rw [huses, if_pos rfl] at hdivider
    exact hdivider.step (i := t.pipe.dividerInputs useEarlyOut) (by omega)
      (dividerInputs_eq huses hfirst) (fun _ => rfl) rfl
  | false =>
    rw [huses] at hdivider
    refine UnsignedDivider.Idle.step (i := t.pipe.dividerInputs useEarlyOut) hdivider ?_
    cases hfirst : t.pipe.isFirstCycle <;>
      simp_all [MulDivPipe.dividerInputs]

theorem Operates.divider16_next (h : t.Operates useEarlyOut) :
    if t.pipe.isDivision && useEarlyOut then
      (t.pipe.step useEarlyOut i).divider16.Serves (t.pipe.absRj.setWidth 16)
        (t.pipe.absRk.setWidth 16) (t.age + 1)
    else (t.pipe.step useEarlyOut i).divider16.Idle := by
  have hdivider := h.divider16
  cases huses : t.pipe.isDivision && useEarlyOut with
  | true =>
    have hfirst := h.first (by
      simp only [Bool.and_eq_true] at huses
      simp [huses.1])
    rw [huses, if_pos rfl] at hdivider
    refine hdivider.step (i := t.pipe.divider16Inputs useEarlyOut) (by omega) ?_ (fun _ => rfl) rfl
    simp only [Bool.and_eq_true] at huses
    simp [MulDivPipe.divider16Inputs, huses, hfirst]
  | false =>
    rw [huses] at hdivider
    refine UnsignedDivider.Idle.step (i := t.pipe.divider16Inputs useEarlyOut) hdivider ?_
    rw [Bool.and_comm] at huses
    simp [MulDivPipe.divider16Inputs, huses]

theorem mulCounter_step (s : MulDivPipe) : (s.step useEarlyOut i).mulCounter =
    if s.isMultiply then if s.mulCounter = multiplyLatency then 0 else s.mulCounter + 1
    else s.mulCounter := rfl

theorem age_step : (t.step useEarlyOut i).age =
    if t.pipe.exeStuck useEarlyOut then t.age + 1 else 0 := rfl

theorem isFirstCycle_step (s : MulDivPipe) :
    (s.step useEarlyOut i).isFirstCycle = !s.exeStuck useEarlyOut := rfl

/-- An operation that is held. -/
theorem Operates.step_held (h : t.Operates useEarlyOut)
    (hstuck : t.pipe.exeStuck useEarlyOut = true) :
    (t.step useEarlyOut i).Operates useEarlyOut := by
  have hlt := h.exeStuck_iff.mp hstuck
  have hage : (t.step useEarlyOut i).age = t.age + 1 := by rw [age_step, if_pos hstuck]
  have hpipe : (t.step useEarlyOut i).pipe = t.pipe.step useEarlyOut i := rfl
  constructor
  · intro _
    rw [hage, hpipe, isFirstCycle_step, hstuck]
    simp
  · rw [hage, hpipe, held_latency hstuck]
    exact hlt
  · rw [hage, hpipe, held_isMultiply hstuck, mulCounter_step, h.mulCounter]
    cases hm : t.pipe.isMultiply with
    | false => rfl
    | true =>
      rw [MulDivPipe.latency, if_pos hm] at hlt
      simp only [if_true]
      rw [if_neg (by omega)]
  · intro _ _
    rw [hpipe, held_absRj hstuck, held_absRk hstuck]
    rfl
  · intro hm htwo
    rw [hpipe, held_isMultiply hstuck] at hm
    rw [hage] at htwo
    rw [hpipe, held_absRj hstuck, held_absRk hstuck]
    exact h.stage1 hm (by omega)
  · rw [hage, hpipe, held_isDivision hstuck, held_small hstuck, held_absRj hstuck,
      held_absRk hstuck]
    exact h.divider_next
  · rw [hage, hpipe, held_isDivision hstuck, held_absRj hstuck, held_absRk hstuck]
    exact h.divider16_next

/-- When an operation leaves, the units are at rest. -/
theorem Operates.rest_of_leaves (h : t.Operates useEarlyOut)
    (hleaves : t.pipe.exeStuck useEarlyOut = false) :
    (t.pipe.step useEarlyOut i).mulCounter = 0 ∧ (t.pipe.step useEarlyOut i).divider.Idle ∧
      (t.pipe.step useEarlyOut i).divider16.Idle := by
  have hage := h.age_of_leaves hleaves
  have hdivider := h.divider_next (i := i)
  have hdivider16 := h.divider16_next (i := i)
  refine ⟨?_, ?_, ?_⟩
  · rw [mulCounter_step, h.mulCounter]
    cases hm : t.pipe.isMultiply with
    | false => rfl
    | true =>
      rw [MulDivPipe.latency, if_pos hm] at hage
      simp [hage]
  · cases huses : t.pipe.isDivision && !t.pipe.small useEarlyOut with
    | false => simpa [huses] using hdivider
    | true =>
      rw [huses, if_pos rfl] at hdivider
      refine hdivider.idle (.inr ?_)
      simp only [Bool.and_eq_true, Bool.not_eq_true'] at huses
      have hmul := not_isMultiply_of_isDivision huses.1
      simp [hage, MulDivPipe.latency, hmul, huses]
  · cases huses : t.pipe.isDivision && useEarlyOut with
    | false => simpa [huses] using hdivider16
    | true =>
      rw [huses, if_pos rfl] at hdivider16
      refine hdivider16.idle (.inr ?_)
      simp only [Bool.and_eq_true] at huses
      have hmul := not_isMultiply_of_isDivision huses.1
      rw [hage, MulDivPipe.latency, hmul, huses.1]
      simp only [Bool.false_eq_true, if_false, if_true]
      split_ifs <;> omega

theorem Operates.step_leaves (h : t.Operates useEarlyOut)
    (hleaves : t.pipe.exeStuck useEarlyOut = false) :
    (t.step useEarlyOut i).Operates useEarlyOut := by
  obtain ⟨hcounter, hdivider, hdivider16⟩ := h.rest_of_leaves (i := i) hleaves
  have hage : (t.step useEarlyOut i).age = 0 := by
    rw [age_step, hleaves, if_neg Bool.false_ne_true]
  have hpipe : (t.step useEarlyOut i).pipe = t.pipe.step useEarlyOut i := rfl
  constructor
  · intro _
    rw [hage, hpipe, isFirstCycle_step, hleaves]
    rfl
  · rw [hage]
    omega
  · rw [hage, hpipe, hcounter]
    split_ifs <;> rfl
  · intro _ hone
    rw [hage] at hone
    omega
  · intro _ htwo
    rw [hage] at htwo
    omega
  · rw [hage, hpipe]
    split_ifs
    · exact .start hdivider
    · exact hdivider
  · rw [hage, hpipe]
    split_ifs
    · exact .start hdivider16
    · exact hdivider16

theorem Operates.step (h : t.Operates useEarlyOut) :
    (t.step useEarlyOut i).Operates useEarlyOut := by
  cases hstuck : t.pipe.exeStuck useEarlyOut with
  | true => exact h.step_held hstuck
  | false => exact h.step_leaves hstuck

theorem Operates.of_init (h : Init t) : t.Operates useEarlyOut := by
  have hmul : t.pipe.isMultiply = false := by simp [MulDivPipe.isMultiply, h.exeValidOnEntry]
  have hdiv : t.pipe.isDivision = false := by simp [MulDivPipe.isDivision, h.exeValidOnEntry]
  constructor <;> simp [hmul, hdiv, h.age, h.mulCounter, h.divider, h.divider16]

/-! ## Waking the consumers -/

variable (useEarlyOut) in
/-- Where a result is, from the clearing of its busy bit to the register. -/
structure Wakes (t : MulDivTrace) : Prop where
  operates : t.Operates useEarlyOut
  rrdSlot : t.pipe.rrdValid = true → t.pipe.rrdSlot.WellFormed
  exeSlot : t.pipe.exeValidOnEntry = true → t.pipe.exeSlot.WellFormed
  exeValid : t.pipe.exeValid = true → t.pipe.exeValidOnEntry = true
  wbSlot : t.pipe.wbValid = true → t.pipe.wbSlot.uop.doRegWrite = true → t.pipe.wbSlot.wReg ≠ 0
  wbResult : t.pipe.wbValid = true →
    t.pipe.wbResult = t.pipe.wbSlot.uop.result useEarlyOut (t.operands 0) (t.operands 1)
  /-- One cycle after the clearing a product is still in EXE, a quotient is in WB. -/
  woken : ∀ w data, t.woken = some (w, data) → t.readable w = none ∧
    ((t.pipe.exeValid = true ∧ t.pipe.isMultiply = true ∧ t.age = 2 ∧
        t.pipe.uop.doRegWrite = true ∧ t.pipe.exeSlot.wReg = w ∧ t.result useEarlyOut = data) ∨
      t.pipe.wPort = some (w, data))
  product : t.pipe.exeValid = true → t.pipe.isMultiply = true → t.age = 2 →
    t.pipe.uop.doRegWrite = true → t.woken = some (t.pipe.exeSlot.wReg, t.result useEarlyOut)
  cleared : ∀ w data, t.pipe.wPort = some (w, data) →
    t.woken = some (w, data) ∨ t.readable w = some data
  readable : ∀ addr data, t.readable addr = some data → addr ≠ 0 ∧ t.readPort addr = data

theorem wbValid_step : (t.step useEarlyOut i).pipe.wbValid =
    (t.pipe.exeFires useEarlyOut i && t.pipe.exeValid) := rfl

theorem woken_next : (t.step useEarlyOut i).woken =
    if i.flush then none
    else (t.pipe.clrBusy useEarlyOut).map fun w => (w, t.result useEarlyOut) := rfl

theorem wPort_eq_some {s : MulDivPipe} {w : Nat} {data : UWord} :
    s.wPort = some (w, data) ↔ s.wbValid = true ∧ s.wbSlot.uop.doRegWrite = true ∧
      s.wbSlot.wReg = w ∧ s.wbResult = data := by
  rw [MulDivPipe.wPort]
  split_ifs with h
  · simp only [Bool.and_eq_true] at h
    simp [h]
  · simp only [Bool.and_eq_true, not_and] at h
    simp only [false_iff, not_and]
    exact fun hvalid hwrite => absurd hwrite (h hvalid)

theorem Wakes.operation (h : t.Wakes useEarlyOut) (hvalid : t.pipe.exeValid = true) :
    (t.pipe.isMultiply || t.pipe.isDivision) = true := by
  have hentry := h.exeValid hvalid
  have hslot : (t.pipe.uop.isMultiply || t.pipe.uop.isDivision) = true :=
    (h.exeSlot hentry).operation
  simpa [MulDivPipe.isMultiply, MulDivPipe.isDivision, hentry] using hslot

/-- A multiplication clears the busy bit one cycle before it leaves EXE, a division
when it leaves. -/
theorem Wakes.clrBusy_iff (h : t.Wakes useEarlyOut) {w : Nat} :
    t.pipe.clrBusy useEarlyOut = some w ↔ t.pipe.exeValid = true ∧
      t.pipe.uop.doRegWrite = true ∧ t.pipe.exeSlot.wReg = w ∧
      ((t.pipe.isMultiply = true ∧ t.age = 1) ∨
        (t.pipe.isDivision = true ∧ t.pipe.exeStuck useEarlyOut = false)) := by
  have hcounter := h.operates.mulCounter
  rw [MulDivPipe.clrBusy, MulDivPipe.wakeupCycle]
  by_cases hvalid : t.pipe.exeValid = true
  · have hoperation := h.operation hvalid
    cases hmul : t.pipe.isMultiply with
    | true =>
      have hdiv := not_isDivision_of_isMultiply hmul
      simp only [hmul, if_true] at hcounter
      simp [hvalid, hcounter, hdiv, multiplyLatency]
      tauto
    | false =>
      have hdiv : t.pipe.isDivision = true := by simpa [hmul] using hoperation
      simp [hvalid, hdiv]
      tauto
  · simp [hvalid]

/-- The instruction that leaves EXE for WB. -/
theorem Wakes.leaves (h : t.Wakes useEarlyOut)
    (hvalid : (t.step useEarlyOut i).pipe.wbValid = true) :
    t.pipe.exeValid = true ∧ t.pipe.exeStuck useEarlyOut = false ∧ i.flush = false ∧
      (t.step useEarlyOut i).pipe.wbResult = t.result useEarlyOut ∧
      ((t.pipe.isMultiply = true ∧ t.age = 2) ∨ t.pipe.isDivision = true) := by
  rw [wbValid_step, MulDivPipe.exeFires] at hvalid
  simp only [Bool.and_eq_true, Bool.not_eq_true'] at hvalid
  obtain ⟨⟨hleaves, hflush⟩, hexe⟩ := hvalid
  have hoperation := h.operation hexe
  refine ⟨hexe, hleaves, hflush, h.operates.exeResult_eq hoperation hleaves, ?_⟩
  cases hmul : t.pipe.isMultiply with
  | false => exact .inr (by simpa [hmul] using hoperation)
  | true =>
    refine .inl ⟨rfl, ?_⟩
    rw [h.operates.age_of_leaves hleaves, MulDivPipe.latency, if_pos hmul]
    rfl

/-- A write of the next cycle was announced by the clearing, in this cycle or the one
before. -/
theorem Wakes.wPort_step (h : t.Wakes useEarlyOut) {w : Nat} {data : UWord}
    (hwrite : (t.step useEarlyOut i).pipe.wPort = some (w, data)) :
    i.flush = false ∧ data = t.result useEarlyOut ∧ w = t.pipe.exeSlot.wReg ∧
      (t.woken = some (w, data) ∨ t.pipe.clrBusy useEarlyOut = some w) := by
  obtain ⟨hvalid, hreg, hw, hdata⟩ := wPort_eq_some.mp hwrite
  obtain ⟨hexe, hleaves, hflush, hresult, hkind⟩ := h.leaves hvalid
  have hslot : (t.step useEarlyOut i).pipe.wbSlot = t.pipe.exeSlot := rfl
  rw [hslot] at hreg hw
  rw [hresult] at hdata
  refine ⟨hflush, hdata.symm, hw.symm, ?_⟩
  obtain ⟨hmul, hage⟩ | hdiv := hkind
  · left
    rw [h.product hexe hmul hage hreg, hw, hdata]
  · right
    exact h.clrBusy_iff.mpr ⟨hexe, hreg, hw, .inr ⟨hdiv, hleaves⟩⟩

theorem readPort_of_ne {addr : Nat} (haddr : addr ≠ 0) : t.readPort addr =
    match t.pipe.wPort with
    | some (w, data) => if w = addr then data else t.regs addr
    | none => t.regs addr := if_neg haddr

/-- What was read before is read again, unless the register is written. -/
theorem readPort_step {addr : Nat} (haddr : addr ≠ 0) :
    (t.step useEarlyOut i).readPort addr =
      match (t.step useEarlyOut i).pipe.wPort with
      | some (w, data) => if w = addr then data else t.readPort addr
      | none => t.readPort addr := by
  have hregs : (t.step useEarlyOut i).regs addr = t.readPort addr := (readPort_of_ne haddr).symm
  rw [readPort_of_ne haddr, hregs]

/-- The registers that are readable after the cycle: those that were, and the one
whose clearing was in the cycle before. -/
theorem readable_step {addr : Nat} {data : UWord}
    (hread : (t.step useEarlyOut i).readable addr = some data) :
    t.pipe.clrBusy useEarlyOut ≠ some addr ∧
      ((i.flush = false ∧ t.woken = some (addr, data)) ∨ t.readable addr = some data) := by
  have hnext : (t.step useEarlyOut i).readable addr =
      if t.pipe.clrBusy useEarlyOut = some addr then none
      else if i.flush then t.readable addr
      else
        match t.woken with
        | some (w, data) => if w = addr then some data else t.readable addr
        | none => t.readable addr := rfl
  rw [hnext] at hread
  split_ifs at hread with hclear hflush
  · exact ⟨hclear, .inr hread⟩
  · refine ⟨hclear, ?_⟩
    match hwoken : t.woken with
    | none => exact .inr (by simpa [hwoken] using hread)
    | some (w, data') =>
      simp only [hwoken] at hread
      split_ifs at hread with hw
      · left
        cases hread
        exact ⟨by simpa using hflush, by rw [hw]⟩
      · exact .inr hread

theorem Wakes.readable_next (h : t.Wakes useEarlyOut) {addr : Nat} {data : UWord}
    (hread : (t.step useEarlyOut i).readable addr = some data) :
    addr ≠ 0 ∧ (t.step useEarlyOut i).readPort addr = data := by
  obtain ⟨hclear, hbefore⟩ := readable_step hread
  have haddr : addr ≠ 0 := by
    obtain ⟨-, hwoken⟩ | hold := hbefore
    · obtain ⟨hexe, -, -, hreg, hw, -⟩ | hwrite := (h.woken addr data hwoken).2
      · rw [← hw]
        exact (h.exeSlot (h.exeValid hexe)).wReg hreg
      · obtain ⟨hvalid, hreg, hw, -⟩ := wPort_eq_some.mp hwrite
        rw [← hw]
        exact h.wbSlot hvalid hreg
    · exact (h.readable addr data hold).1
  refine ⟨haddr, ?_⟩
  rw [readPort_step haddr]
  have hwrites : ∀ data', (t.step useEarlyOut i).pipe.wPort = some (addr, data') →
      data' = data := by
    intro data' hwrite
    obtain ⟨-, -, -, hwoken' | hcleared⟩ := h.wPort_step hwrite
    · obtain ⟨-, hwoken⟩ | hold := hbefore
      · rw [hwoken'] at hwoken
        cases hwoken
        rfl
      · rw [(h.woken addr data' hwoken').1] at hold
        cases hold
    · exact absurd hcleared hclear
  have hkept : (∀ data', (t.step useEarlyOut i).pipe.wPort ≠ some (addr, data')) →
      t.readPort addr = data := by
    intro hnone
    obtain ⟨hflush, hwoken⟩ | hold := hbefore
    · obtain ⟨hexe, hmul, hage, hreg, hw, hresult⟩ | hwrite := (h.woken addr data hwoken).2
      · -- the product leaves EXE now
        exfalso
        have hleaves : t.pipe.exeStuck useEarlyOut = false := by
          by_contra hstuck
          have hlt := h.operates.exeStuck_iff.mp (Bool.of_not_eq_false hstuck)
          rw [MulDivPipe.latency, if_pos hmul, multiplyLatency] at hlt
          omega
        have hvalid : (t.step useEarlyOut i).pipe.wbValid = true := by
          simp [wbValid_step, MulDivPipe.exeFires, hleaves, hflush, hexe]
        refine hnone _ (wPort_eq_some.mpr ⟨hvalid, hreg, hw, rfl⟩)
      · rw [readPort_of_ne haddr, hwrite]
        exact if_pos rfl
    · exact (h.readable addr data hold).2
  match hwrite : (t.step useEarlyOut i).pipe.wPort with
  | none => exact hkept (by simp [hwrite])
  | some (w, data') =>
    by_cases hw : w = addr
    · subst hw
      rw [hwrites data' hwrite]
      exact if_pos rfl
    · refine (if_neg hw).trans (hkept ?_)
      intro data'' hsome
      rw [hwrite] at hsome
      cases hsome
      exact hw rfl

/-- The register cleared in this cycle: its result is in EXE for one cycle more, or
comes to WB. -/
theorem Wakes.woken_step (h : t.Wakes useEarlyOut) {w : Nat} {data : UWord}
    (hwoken : (t.step useEarlyOut i).woken = some (w, data)) :
    (t.step useEarlyOut i).readable w = none ∧
      (((t.step useEarlyOut i).pipe.exeValid = true ∧
          (t.step useEarlyOut i).pipe.isMultiply = true ∧ (t.step useEarlyOut i).age = 2 ∧
          (t.step useEarlyOut i).pipe.uop.doRegWrite = true ∧
          (t.step useEarlyOut i).pipe.exeSlot.wReg = w ∧
          (t.step useEarlyOut i).result useEarlyOut = data) ∨
        (t.step useEarlyOut i).pipe.wPort = some (w, data)) := by
  rw [woken_next] at hwoken
  split_ifs at hwoken with hflush
  obtain ⟨w', hclear, hpair⟩ := Option.map_eq_some_iff.mp hwoken
  obtain ⟨rfl, rfl⟩ := Prod.mk.injEq .. ▸ hpair
  refine ⟨?_, ?_⟩
  · change (if t.pipe.clrBusy useEarlyOut = some w' then none else _) = none
    rw [if_pos hclear]
  obtain ⟨hexe, hreg, hw, hkind⟩ := h.clrBusy_iff.mp hclear
  have hpipe : (t.step useEarlyOut i).pipe = t.pipe.step useEarlyOut i := rfl
  obtain ⟨hmul, hage⟩ | ⟨-, hleaves⟩ := hkind
  · left
    have hstuck : t.pipe.exeStuck useEarlyOut = true := by
      rw [h.operates.exeStuck_iff, hage, MulDivPipe.latency, if_pos hmul]
      decide
    refine ⟨?_, ?_, ?_, ?_, ?_, held_result hstuck⟩
    · simp [hpipe, MulDivPipe.step, MulDivPipe.rrdFires, MulDivPipe.rrdStuck, hstuck, hflush, hexe]
    · exact (held_isMultiply hstuck).trans hmul
    · rw [age_step, if_pos hstuck, hage]
    · rw [hpipe, held_uop hstuck, hreg]
    · rw [hpipe, held_exeSlot hstuck, hw]
  · right
    have hvalid : (t.step useEarlyOut i).pipe.wbValid = true := by
      simp [wbValid_step, MulDivPipe.exeFires, hleaves, hflush, hexe]
    exact wPort_eq_some.mpr ⟨hvalid, hreg, hw, (h.leaves hvalid).2.2.2.1⟩

/-- A product that is about to leave was announced in the cycle before. -/
theorem Wakes.product_step (h : t.Wakes useEarlyOut)
    (hexe : (t.step useEarlyOut i).pipe.exeValid = true)
    (hmul : (t.step useEarlyOut i).pipe.isMultiply = true)
    (hage : (t.step useEarlyOut i).age = 2)
    (hreg : (t.step useEarlyOut i).pipe.uop.doRegWrite = true) :
    (t.step useEarlyOut i).woken = some ((t.step useEarlyOut i).pipe.exeSlot.wReg,
      (t.step useEarlyOut i).result useEarlyOut) := by
  have hpipe : (t.step useEarlyOut i).pipe = t.pipe.step useEarlyOut i := rfl
  rw [age_step] at hage
  split_ifs at hage with hstuck
  rw [hpipe, held_isMultiply hstuck] at hmul
  rw [hpipe, held_uop hstuck] at hreg
  have hvalid : t.pipe.exeValid = true ∧ i.flush = false := by
    rw [hpipe] at hexe
    simp only [MulDivPipe.step, MulDivPipe.rrdFires, MulDivPipe.rrdStuck, hstuck] at hexe
    simpa [and_comm] using hexe
  have hclear : t.pipe.clrBusy useEarlyOut = some t.pipe.exeSlot.wReg :=
    h.clrBusy_iff.mpr ⟨hvalid.1, hreg, rfl, .inl ⟨hmul, by omega⟩⟩
  rw [woken_next, hvalid.2, hclear, hpipe, held_exeSlot hstuck, held_result hstuck]
  rfl

theorem Wakes.cleared_step (h : t.Wakes useEarlyOut) {w : Nat} {data : UWord}
    (hwrite : (t.step useEarlyOut i).pipe.wPort = some (w, data)) :
    (t.step useEarlyOut i).woken = some (w, data) ∨
      (t.step useEarlyOut i).readable w = some data := by
  obtain ⟨hflush, hdata, hw, hbefore⟩ := h.wPort_step hwrite
  by_cases hclear : t.pipe.clrBusy useEarlyOut = some w
  · left
    rw [woken_next, hflush, hclear, hdata]
    rfl
  · right
    have hwoken : t.woken = some (w, data) := hbefore.resolve_right hclear
    change (if t.pipe.clrBusy useEarlyOut = some w then none
      else if i.flush then t.readable w
      else
        match t.woken with
        | some (w', data) => if w' = w then some data else t.readable w
        | none => t.readable w) = some data
    rw [if_neg hclear, hflush, hwoken]
    simp

theorem Wakes.of_init (h : Init t) : t.Wakes useEarlyOut where
  operates := .of_init h
  rrdSlot hvalid := by simp [h.rrdValid] at hvalid
  exeSlot hvalid := by simp [h.exeValidOnEntry] at hvalid
  exeValid hvalid := by simp [h.exeValid] at hvalid
  wbSlot hvalid := by simp [h.wbValid] at hvalid
  wbResult hvalid := by simp [h.wbValid] at hvalid
  woken w data hwoken := by simp [h.woken] at hwoken
  product hvalid := by simp [h.exeValid] at hvalid
  cleared w data hwrite := by simp [MulDivPipe.wPort, h.wbValid] at hwrite
  readable addr data hread := by simp [h.readable] at hread

theorem Wakes.step (h : t.Wakes useEarlyOut) (hlegal : Legal i) :
    (t.step useEarlyOut i).Wakes useEarlyOut where
  operates := h.operates.step
  rrdSlot hvalid := by
    have hslot : (t.step useEarlyOut i).pipe.rrdSlot =
        if t.pipe.rrdStuck useEarlyOut i then t.pipe.rrdSlot else i.slot := rfl
    rw [hslot]
    obtain ⟨hstuck, hold⟩ | ⟨hstuck, hreq⟩ := MulDivPipe.rrdValid_step hvalid
    · rw [if_pos hstuck]
      exact h.rrdSlot hold
    · rw [hstuck]
      exact hlegal hreq
  exeSlot hvalid := by
    have hslot : (t.step useEarlyOut i).pipe.exeSlot =
        if t.pipe.exeStuck useEarlyOut then t.pipe.exeSlot else t.pipe.rrdSlot := rfl
    rw [hslot]
    obtain ⟨hstuck, hold⟩ | ⟨hstuck, hnew⟩ := MulDivPipe.exeValidOnEntry_step hvalid
    · rw [if_pos hstuck]
      exact h.exeSlot hold
    · rw [hstuck]
      exact h.rrdSlot hnew
  exeValid hvalid := MulDivPipe.exeValid_step h.exeValid hvalid
  wbSlot hvalid hreg := by
    obtain ⟨hexe, -⟩ := h.leaves hvalid
    exact (h.exeSlot (h.exeValid hexe)).wReg hreg
  wbResult hvalid := (h.leaves hvalid).2.2.2.1
  woken _ _ hwoken := h.woken_step hwoken
  product hexe hmul hage hreg := h.product_step hexe hmul hage hreg
  cleared _ _ hwrite := h.cleared_step hwrite
  readable _ _ hread := h.readable_next hread

theorem wakes_of_reachable (h : (machine useEarlyOut).Reachable t) : t.Wakes useEarlyOut :=
  Clocked.Machine.invariant (P := Wakes useEarlyOut) (fun _ => .of_init)
    (fun _ _ hwakes hlegal => hwakes.step hlegal) h

/-- The pipe computes what it is asked for, in every run and whenever it is flushed. -/
theorem executes_of_reachable (h : (machine useEarlyOut).Reachable t) :
    Executes useEarlyOut t := by
  have hwakes := wakes_of_reachable h
  have hoperates := hwakes.operates
  refine ⟨hwakes.wbResult, ?_, fun addr data hread => (hwakes.readable addr data hread).2, ?_,
    hoperates.first, hoperates.age_le, hoperates.exeStuck_iff⟩
  · intro hvalid hreg
    exact hwakes.cleared _ _ (wPort_eq_some.mpr ⟨hvalid, hreg, rfl, rfl⟩)
  · intro hage
    have hcounter := hoperates.mulCounter
    have hdivider := hoperates.divider
    have hdivider16 := hoperates.divider16
    rw [hage] at hcounter hdivider hdivider16
    refine ⟨?_, ?_, ?_⟩
    · rw [hcounter]
      split_ifs <;> rfl
    · split_ifs at hdivider
      · exact hdivider.idle (.inl rfl)
      · exact hdivider
    · split_ifs at hdivider16
      · exact hdivider16.idle (.inl rfl)
      · exact hdivider16

instance (slot : MulDivIssueSlot) : Decidable slot.WellFormed :=
  decidable_of_iff ((slot.uop.isMultiply || slot.uop.isDivision) = true ∧
      (slot.uop.doRegWrite = true → slot.wReg ≠ 0))
    ⟨fun ⟨h1, h2⟩ => ⟨h1, h2⟩, fun ⟨h1, h2⟩ => ⟨h1, h2⟩⟩

instance (useEarlyOut : Bool) (t : MulDivTrace) (i : Inputs) :
    Decidable ((machine useEarlyOut).legal t i) :=
  inferInstanceAs (Decidable (i.issueReq = true → i.slot.WellFormed))

theorem init_atReset : Init {} :=
  ⟨rfl, rfl, rfl, rfl, ⟨rfl, rfl⟩, ⟨rfl, rfl⟩, rfl, rfl, rfl, fun _ => rfl⟩

def issue (fuType : FUType) (wReg : Nat) : Inputs :=
  { issueReq := true
    slot := { uop := { fuType := fuType, doRegWrite := true, signed := true }, wReg := wReg } }

def read (rj rk : UWord) : Inputs := { rrdRsp := fun k => if k = 0 then rj else rk }

/-- A multiplication is flushed in its first cycle. A division of -7 by 2 issues as
soon as EXE is free. -/
def flushThenDivide : List Inputs :=
  [issue .mul 3, read 3 4, ({ flush := true } : Inputs), {}, issue .div 5, read (-7) 2] ++
    List.replicate 18 ({} : Inputs)

theorem executes_flushThenDivide :
    ((machine true).run {} flushThenDivide).pipe.wPort = some (5, -3) ∧
      Executes true ((machine true).run {} flushThenDivide) :=
  ⟨by decide +kernel, executes_of_reachable
    (Clocked.Machine.Reachable.run (.reset init_atReset) (by decide +kernel))⟩

end MulDivTrace

end NopCore
