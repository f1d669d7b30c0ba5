import NopCore.Core.ByteLanes
import NopCore.Core.UncachedLoad
import NopCore.Exe.IntExecute
import NopCore.Exe.MulDivExecute

/-!
# Operands and results

The core from rename on: the queues, the three integer pipes, the multiply and divide pipe,
the memory pipeline, and the register file that the results are written to.

The pipes read their registers in RRD. A read port shows what is written in the same cycle;
besides, the integer pipes see in EXE what they write themselves. When a consumer is woken,
its operand is not in the register file yet. It is there, or at one of the write ports, when
the consumer looks for it. The wake-up by a load is a guess, which fails if MEM2 holds the
load. In the cycle after that RRD of the other pipes is held, and so is issue behind it.

The reorder buffer is in the core of the queues and in that of the memory pipeline; they do
the same with it. The memory pipeline has the address and the data of an access from the
start.

The record has the numbers under which the instructions in the reorder buffer were renamed,
and the results that have been written, by these numbers.
-/

namespace NopCore

open LoongArch in
/-- Whether a multiplication or division is signed. -/
def MicroOp.signed (uop : MicroOp) : Bool :=
  [MUL, MULH, DIV, MOD].any fun m => m.covers uop.inst

/-- What the multiply and divide pipe takes of a slot. -/
def IssueSlot.mulDiv (slot : IssueSlot) : MulDivIssueSlot where
  uop := { fuType := slot.uop.fuType, doRegWrite := slot.uop.doRegWrite, signed := slot.uop.signed }
  wReg := slot.wReg

/-- The write of a result, with the entry of the instruction that it is the result of. -/
structure ResultWrite extends RegWrite where
  robIdx : Nat

/-- The units of the integer pipes. -/
def IntExecutePlugin.ofUnit : ExecUnit → IntExecutePlugin
  | .int0 => int0
  | .int1 => { withTimer := true }
  | _ => {}

/-- `mulDivRrd`, `mulDivExe`, `mulDivWb` and `memRrd` are what the stages have of a slot besides
that which their pipes take of it. -/
structure OperandCore where
  wakeup : WakeupCore
  memory : MemCore := {}
  exe : ExecUnit → Option ExeStage := fun _ => none
  wb : ExecUnit → Option WbStage := fun _ => none
  mulDiv : MulDivPipe := {}
  mulDivRrd : IssueSlot := {}
  mulDivExe : IssueSlot := {}
  mulDivWb : IssueSlot := {}
  memRrd : IssueSlot := {}
  regWakeupFailed : Bool := false
  regs : Nat → UWord := fun _ => 0
  numbers : Nat → Nat := fun _ => 0
  results : Nat → Option UWord := fun _ => none

namespace OperandCore

/-- The inputs of a cycle: the entries that are decoded and the privilege level they are
decoded at, what commit reads, what the stages of the integer pipes read besides registers,
and what the address stages and the buses contribute to the memory pipeline. `unset` are the
operations where no encoding sets one. -/
structure Inputs where
  nextValid : Bool := false
  plv : BitVec 2 := 0
  entries : List FetchEntry := []
  commit : CommitInputs := {}
  reads : ExecUnit → ExeReads := fun _ => {}
  unset : ExecuteSignals := { aluOp := .add, cmpOp := .eq }
  mem : MemPipeline.Inputs := {}
  memExcept : ExceptionPayload := {}
  memResult : UWord := 0

variable (useEarlyOut : Bool) (s : OperandCore) (i : Inputs)

def regFlush : Bool := s.wakeup.regFlush

/-! ## The memory pipeline -/

/-- The slot that a queue shows at its head. -/
def headSlot (q : IssueQueue) : IssueSlot := ((s.wakeup.slots q 0).map QueueSlot.payload).getD {}

/-- The inputs of the memory pipeline but for what is renamed and what the other pipes
report. -/
def memFront : MemCore.Inputs where
  commit := i.commit
  mem := { i.mem with headReady := IssueQueue.waken (s.wakeup.slots .mem) 0 }
  except := i.memExcept
  result := i.memResult

def memInputs : MemPipeline.Inputs := s.memory.memInputs (s.memFront i)

def memStuck1 : Bool := s.memory.pipeline.stuck1 (s.memInputs i)

def memStuck2 : Bool := s.memory.pipeline.stuck2 (s.memInputs i)

/-- The register that MEM1 clears the busy bit of. Store data goes before the instruction,
whether it is a load or not. -/
def mem1ClrBusy : Option Nat :=
  let st := s.memory.pipeline.mem1
  let isLDU := st.std.any fun std => !std.isStore
  if ((st.isValid && (st.uop.cached || st.uop.isSC)) || isLDU) && !s.memStuck1 i then
    match st.std with
    | some std => std.wReg
    | none => st.uop.wReg
  else none

/-- The register of the instruction in MEM2, or of the uncached load there. -/
def mem2WriteReg : Option Nat :=
  match s.memory.pipeline.mem2.std with
  | some std => if std.isStore then s.memory.pipeline.uop2.wReg else std.wReg
  | none => s.memory.pipeline.uop2.wReg

def wakeupFailed : Bool := s.memStuck2 i && (s.mem2WriteReg).isSome

/-! ## The register file -/

/-- Register 0 is zero. -/
def reg (addr : Nat) : UWord := if addr = 0 then 0 else s.regs (addr - 1)

/-- What the integer pipes write in WB. -/
def intWrites : List ResultWrite :=
  (IssueQueue.units .int).filterMap fun u => (s.wb u).bind fun w =>
    if w.slot.uop.doRegWrite then
      some { addr := w.slot.wReg, data := w.exeResult, robIdx := w.slot.robIdx }
    else none

def mulDivWrites : List ResultWrite :=
  s.mulDiv.wPort.toList.map fun w => { addr := w.1, data := w.2, robIdx := s.mulDivWb.robIdx }

/-- The entry of the instruction that WB of the memory pipeline writes a register for. -/
def memWbIdx : Nat :=
  match s.memory.pipeline.wb with
  | some std => if std.isStore then s.memory.wb.uop.robIdx else std.robIdx
  | none => s.memory.wb.uop.robIdx

def memWrites : List ResultWrite :=
  (s.memory.regWrite (s.memFront i)).toList.map fun w =>
    { addr := w.1, data := ofLanes w.2, robIdx := s.memWbIdx }

def writes : List ResultWrite := s.intWrites ++ s.mulDivWrites ++ s.memWrites i

/-- What the integer pipes see in EXE. -/
def bypass (addr : Nat) : Option UWord := RegWrite.at? (s.intWrites.map ResultWrite.toRegWrite) addr

/-- A read port shows what is written in the same cycle. -/
def readPort (addr : Nat) : UWord :=
  (RegWrite.at? ((s.writes i).map ResultWrite.toRegWrite) addr).getD (s.reg addr)

/-! ## The integer pipes -/

/-- The operands of the instruction in EXE. -/
def regData (e : ExeStage) (j : Nat) : UWord :=
  (s.bypass (operand e.slot.rRegs j)).getD (e.regReadRsp j)

def exeInputs (u : ExecUnit) (e : ExeStage) : ExeInputs where
  toExeReads := i.reads u
  uop := e.slot.uop
  signals := Decoder.executeSignals i.unset e.slot.uop.inst
  regData := s.regData e

def execute (u : ExecUnit) (e : ExeStage) : WbStage where
  slot := e.slot
  exeResult := (IntExecutePlugin.ofUnit u).exeResult (s.exeInputs i u e)
  actualTarget := (IntExecutePlugin.ofUnit u).actualTarget (s.exeInputs i u e)
  condition := (s.exeInputs i u e).condition

/-- What the integer pipes and the multiply and divide pipe report. -/
def reports : List Completion :=
  ((IssueQueue.units .int).filterMap fun u =>
    (s.wb u).map fun w => { w.completion with unit := u }) ++
    if s.mulDiv.wbValid then
      [{ unit := .mulDiv, robIdx := s.mulDivWb.robIdx, uop := s.mulDivWb.uop }]
    else []

/-! ## One cycle -/

def mulDivInputs : MulDivPipe.Inputs where
  slot := (s.headSlot .mulDiv).mulDiv
  issueReq := IssueQueue.waken (s.wakeup.slots .mulDiv) 0
  regWakeupFailed := s.regWakeupFailed
  flush := s.regFlush
  rrdRsp j := s.readPort i (operand s.mulDivRrd.rRegs j)

def wakeupInputs : WakeupCore.Inputs where
  nextValid := i.nextValid
  nextGroup := i.entries.map (Decoder.decode i.plv)
  completions := s.memory.memCompletion (s.memFront i) ++ s.reports
  commit := s.memory.commitInputs (s.memFront i)
  clrBusys := (s.mulDiv.clrBusy useEarlyOut).toList ++ (s.mem1ClrBusy i).toList
  regWakeupFailed := s.regWakeupFailed
  stBufProgFull := s.memory.pipeline.storeBuffer.valid (storeBufferDepth - 5)
  mulDivHalts := s.mulDiv.exeStuck useEarlyOut
  memHalts := s.memStuck1 i

def dispatchInputs : DispatchCore.Inputs := s.wakeup.dispatchInputs (s.wakeupInputs useEarlyOut i)

/-- The instructions that leave RENAME. -/
def leaving : List DispatchSlot := s.wakeup.dispatch.leaving (s.dispatchInputs useEarlyOut i)

/-- The instructions that retire. -/
def retired : List PushPort :=
  s.wakeup.dispatch.rename.retired
    (s.wakeup.dispatch.renameInputs (s.dispatchInputs useEarlyOut i))

def memoryInputs : MemCore.Inputs :=
  { s.memFront i with
    push := s.wakeup.dispatch.issued (s.dispatchInputs useEarlyOut i)
    completions := s.reports }

def nextNumbers (idx : Nat) : Nat :=
  match (s.leaving useEarlyOut i).findIdx? fun d => d.robIdx == idx with
  | some k => s.wakeup.producers.seq + k
  | none => s.numbers idx

/-- The results, with those that are written in this cycle. -/
def nextResults (n : Nat) : Option UWord :=
  (((s.writes i).find? fun w => s.numbers w.robIdx == n).map fun w => w.data).or (s.results n)

def step : OperandCore where
  wakeup := s.wakeup.step (s.wakeupInputs useEarlyOut i)
  memory := s.memory.step (s.memoryInputs useEarlyOut i)
  exe u :=
    if s.regFlush || s.regWakeupFailed then none
    else (s.wakeup.regRead u).map fun slot =>
      { slot, regReadRsp := fun j => s.readPort i (operand slot.rRegs j) }
  wb u := if s.regFlush then none else (s.exe u).map (s.execute i u)
  mulDiv := s.mulDiv.step useEarlyOut (s.mulDivInputs i)
  mulDivRrd :=
    if s.mulDiv.rrdStuck useEarlyOut (s.mulDivInputs i) then s.mulDivRrd else s.headSlot .mulDiv
  mulDivExe := if s.mulDiv.exeStuck useEarlyOut then s.mulDivExe else s.mulDivRrd
  mulDivWb := s.mulDivExe
  memRrd := if s.memStuck1 i then s.memRrd else s.headSlot .mem
  regWakeupFailed := s.wakeupFailed i
  regs k := (RegWrite.at? ((s.writes i).map ResultWrite.toRegWrite) (k + 1)).getD (s.regs k)
  numbers := s.nextNumbers useEarlyOut i
  results := s.nextResults i

structure Init (s : OperandCore) : Prop where
  wakeup : s.wakeup.Init
  memory : s.memory.Init
  core : s.memory.core = s.wakeup.dispatch.core
  exe : ∀ u, s.exe u = none
  wb : ∀ u, s.wb u = none
  mulDiv : MulDivTrace.Init { pipe := s.mulDiv }
  regs : ∀ k, s.regs k = 0
  results : ∀ n, s.results n = none

/-- The decoder's promise, that of the front end on where it goes on after a flush, and what
the queue of the memory pipeline keeps to in the cycle of a flush. -/
structure Legal (s : OperandCore) (i : Inputs) : Prop where
  width : i.entries.length ≤ decodeWidth
  follows : ∀ target, s.wakeup.dispatch.core.redirected = some target →
    ∀ p ∈ (s.wakeup.dispatch.issued (s.dispatchInputs useEarlyOut i)).head?, p.uop.pc = target
  stale : ¬ (i.mem.head.isLoad = true ∧ i.mem.head.isStore = true)

def machine : Clocked.Machine OperandCore Inputs where
  init := Init
  legal := Legal useEarlyOut
  step := step useEarlyOut

/-! ## Stale operands -/

/-- What an operand has to be: the result of the instruction that its register was given to
before the consumer was renamed. A register that has not been given to any has what it has
after reset. -/
def supplied (slot : IssueSlot) (j : Nat) : Option UWord :=
  match s.wakeup.producers.sources slot.robIdx j with
  | some n => s.nextResults i n
  | none => some 0

/-- No instruction uses a stale operand. -/
structure NoStaleOperand : Prop where
  int : ∀ u ∈ IssueQueue.units .int, ∀ e, s.exe u = some e → ∀ j < 2,
    IssueQueue.int.uses e.slot.uop j = true → s.supplied i e.slot j = some (s.regData e j)
  mulDiv : s.mulDiv.exeValid = true → ∀ j : Fin 2,
    IssueQueue.mulDiv.uses s.mulDivExe.uop j = true →
      s.supplied i s.mulDivExe j = some (s.mulDiv.regData j)
  mem : s.memory.pipeline.rrd.isValid = true → ∀ j < 2,
    IssueQueue.mem.uses s.memRrd.uop j = true →
      s.supplied i s.memRrd j = some (s.readPort i (operand s.memRrd.rRegs j))

end OperandCore

end NopCore
