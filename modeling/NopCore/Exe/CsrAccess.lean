import NopCore.Exe.Wakeup
import NopCore.Decode.Decoder
import NopCore.Privilege.CsrRead

/-!
# The pipe that accesses the control registers

Only the first integer pipe is connected to the control registers. In EXE an instruction
reads the register that its word names, for `rd`, and computes what it will write; in WB it
writes `rd` and reports to the reorder buffer. The register is written by commit, when the
instruction retires.

The operands come from the register file, read in RRD, or from what a pipe writes while
the instruction is in EXE. The register file and the last two stages are added to the core
of the queues, and the privileged registers that commit changes. What the other pipes
write to the register file is an input.

The record has what an instruction has read in EXE, by its entry in the reorder buffer, and
whether commit has changed the privileged registers since then.
-/

namespace NopCore

/-- The instruction reads a control register. -/
def MicroOp.readCSR (uop : MicroOp) : Bool := (Decoder.signals uop.inst).readCSR

/-- The address of the control register. -/
def MicroOp.csrAddr (uop : MicroOp) : BitVec 14 := uop.inst.extractLsb' 10 14

structure RegWrite where
  addr : Nat
  data : UWord
  deriving DecidableEq, Repr

/-- The write to a register, if there is one. -/
def RegWrite.at? (writes : List RegWrite) (addr : Nat) : Option UWord :=
  (writes.find? fun w => w.addr == addr).map RegWrite.data

structure ExeStage where
  slot : IssueSlot
  regReadRsp : Nat → UWord := fun _ => 0

structure WbStage where
  slot : IssueSlot
  exeResult : UWord := 0
  actualTarget : UWord := 0
  condition : Bool := false

def WbStage.completion (w : WbStage) : Completion where
  unit := .int0
  robIdx := w.slot.robIdx
  uop := w.slot.uop
  result := w.exeResult
  condition := w.condition
  target := w.actualTarget

/-- What an instruction has read in EXE: its operands and the control register. -/
structure CsrSample where
  rj : UWord
  rd : UWord
  old : UWord
  disturbed : Bool := false
  deriving DecidableEq, Repr

structure CsrCore where
  wakeup : WakeupCore
  unit : PrivilegedUnit := {}
  regs : Nat → UWord := fun _ => 0
  exe : Option ExeStage := none
  wb : Option WbStage := none
  samples : Nat → Option CsrSample := fun _ => none

namespace CsrCore

/-- The inputs of a cycle: the entries that are decoded, what the other pipes report and
write to registers, what holds up the pipes, and the interrupt pins. The last three are the
results of the instruction in EXE if it does not access a control register. -/
structure Inputs where
  nextValid : Bool := false
  entries : List FetchEntry := []
  completions : List Completion := []
  uncachedDone : Bool := false
  clrBusys : List Nat := []
  regWakeupFailed : Bool := false
  stBufProgFull : Bool := false
  mulDivHalts : Bool := false
  memHalts : Bool := false
  intWrites : List RegWrite := []
  regWrites : List RegWrite := []
  intrpt : BitVec 8 := 0
  exeResult : UWord := 0
  actualTarget : UWord := 0
  condition : Bool := false

variable (innerCounterDownEvery : Nat) (s : CsrCore) (i : Inputs)

def regFlush : Bool := s.wakeup.regFlush

/-! ## Commit -/

def commitInputs : CommitInputs where
  intPending := s.unit.intPending
  handler := s.unit.handler
  uncachedDone := i.uncachedDone

def ports : Nat → PopPort := s.wakeup.dispatch.core.ports

def signals : CommitSignals :=
  Commit.signals s.ports s.wakeup.dispatch.core.fsm (s.commitInputs i)

/-- The instruction at port `j` retires. -/
def retires (j : Nat) : Bool :=
  Commit.retires s.ports s.wakeup.dispatch.core.fsm (s.commitInputs i) j

def needFlush : Bool :=
  Commit.needFlush s.ports s.wakeup.dispatch.core.fsm (s.commitInputs i)

/-- Commit changes the privileged registers: by an exception or an interrupt, by an
exception return, a control-register write, a TLB instruction, or a load-linked or
store-conditional. -/
def changesCSRs : Bool :=
  (s.signals i).request.except.valid || (s.signals i).request.ertn ||
    (s.signals i).csrWrite.isSome || (s.signals i).tlbOp != .none ||
    (s.retires i 0 && ((s.ports 0).uop.isLL || (s.ports 0).uop.isSC))

/-! ## The register file -/

/-- Register 0 is zero. -/
def reg (addr : Nat) : UWord := if addr = 0 then 0 else s.regs (addr - 1)

/-- What the pipe writes in WB. -/
def wPort : Option RegWrite :=
  s.wb.bind fun w =>
    if w.slot.uop.doRegWrite then some { addr := w.slot.wReg, data := w.exeResult } else none

/-- The writes of the three integer pipes, which are those that EXE sees. -/
def bypass : List RegWrite := s.wPort.toList ++ i.intWrites

def writes : List RegWrite := s.bypass i ++ i.regWrites

/-- A read port shows what is written in the same cycle. -/
def readPort (addr : Nat) : UWord := (RegWrite.at? (s.writes i) addr).getD (s.reg addr)

/-! ## EXE and WB -/

/-- The operands of the instruction in EXE. -/
def regData (e : ExeStage) (j : Nat) : UWord :=
  (RegWrite.at? (s.bypass i) (operand e.slot.rRegs j)).getD (e.regReadRsp j)

/-- The control register that the instruction in EXE reads. -/
def readData (e : ExeStage) : UWord := s.unit.readData e.slot.uop.csrAddr

/-- What EXE computes. Of the target the branch unit makes the default, `INVTLB` its
operands, and a control-register write the new value, which is masked by `rj` if this is
used. -/
def execute (e : ExeStage) : WbStage where
  slot := e.slot
  exeResult := if e.slot.uop.readCSR then s.readData e else i.exeResult
  actualTarget :=
    if e.slot.uop.operateTLB then
      0#3 ++ (s.regData i e 1).extractLsb' 13 19 ++ (s.regData i e 0).extractLsb' 0 10
    else if e.slot.uop.writeCSR then
      if e.slot.uop.useRj then
        (s.regData i e 0 &&& s.regData i e 1) ||| (~~~s.regData i e 0 &&& s.readData e)
      else s.regData i e 1
    else i.actualTarget
  condition := i.condition

/-- What WB reports. -/
def report : Option Completion := s.wb.map WbStage.completion

/-- The instructions in the pipe. -/
def stages : List IssueSlot :=
  (s.wakeup.regRead .int0).toList ++
    ((s.exe.map ExeStage.slot).toList ++ (s.wb.map WbStage.slot).toList)

/-! ## One cycle -/

/-- The entries are decoded at the privilege level of the cycle. -/
def wakeupInputs : WakeupCore.Inputs where
  nextValid := i.nextValid
  nextGroup := i.entries.map (Decoder.decode s.unit.handler.crmdPLV)
  completions := s.report.toList ++ i.completions
  commit := s.commitInputs i
  clrBusys := i.clrBusys
  regWakeupFailed := i.regWakeupFailed
  stBufProgFull := i.stBufProgFull
  mulDivHalts := i.mulDivHalts
  memHalts := i.memHalts

def nextExe : Option ExeStage :=
  if s.regFlush || i.regWakeupFailed then none
  else (s.wakeup.regRead .int0).map fun slot =>
    { slot, regReadRsp := fun j => s.readPort i (operand slot.rRegs j) }

def nextWb : Option WbStage := if s.regFlush then none else s.exe.map (s.execute i)

/-- The sample that is taken in this cycle for an entry. -/
def taken (idx : Nat) : Option CsrSample :=
  (s.exe.filter fun e => e.slot.robIdx == idx).map fun e =>
    { rj := s.regData i e 0
      rd := s.regData i e 1
      old := s.readData e
      disturbed := s.changesCSRs i }

def nextSamples (idx : Nat) : Option CsrSample :=
  (s.taken i idx).or ((s.samples idx).map fun sample =>
    { sample with disturbed := sample.disturbed || s.changesCSRs i })

def step : CsrCore where
  wakeup := s.wakeup.step (s.wakeupInputs i)
  unit := s.unit.step innerCounterDownEvery (s.signals i) i.intrpt
  regs k := (RegWrite.at? (s.writes i) (k + 1)).getD (s.regs k)
  exe := s.nextExe i
  wb := s.nextWb i
  samples := s.nextSamples i

structure Init (s : CsrCore) : Prop where
  wakeup : s.wakeup.Init
  unit : s.unit = {}
  exe : s.exe = none
  wb : s.wb = none

/-- The other pipes report what they have been issued, and write the registers of
instructions in flight that they can execute. What they write after a flush does not
matter. -/
structure Legal (s : CsrCore) (i : Inputs) : Prop where
  width : i.entries.length ≤ decodeWidth
  issued : ∀ c ∈ i.completions, (∃ slot ∈ s.wakeup.executing, slot.robIdx = c.robIdx) ∧
    ∀ slot ∈ s.stages, slot.robIdx ≠ c.robIdx
  writes : s.regFlush = false → ∀ w ∈ i.intWrites ++ i.regWrites,
    ∃ d ∈ s.wakeup.dispatch.renamed.drop s.wakeup.dispatch.popped,
      d.uop.doRegWrite = true ∧ d.rename.wReg = w.addr ∧
        ∃ u, u ≠ ExecUnit.int0 ∧ u.executes d.uop.fuType = true

def machine : Clocked.Machine CsrCore Inputs where
  init := Init
  legal := Legal
  step := step innerCounterDownEvery

end CsrCore

/-! ## The three instructions -/

/-- What an instruction writes to the control register, from the value of the register and
of its operands: `CSRRD` nothing, `CSRWR` the value of `rd`, and `CSRXCHG` that part of it
that is selected by `rj`. -/
def csrData (inst rj rd old : UWord) : Option UWord :=
  match (Decoder.fields inst).rj with
  | 0 => none
  | 1 => some rd
  | _ => some ((rd &&& rj) ||| (old &&& ~~~rj))

end NopCore
