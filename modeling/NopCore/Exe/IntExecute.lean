import NopCore.Exe.CsrAccess

/-!
# Operands and results in EXE

The decoder also sets the signals by which an integer pipe chooses its operation: the
operation of the ALU, the comparison, and how a short immediate is extended. Where an
encoding does not set an operation it is not said which one the pipe is given.

In EXE the operands are chosen among the registers, the address of the instruction and the
immediates of its word. The ALU has an input of its own for the amount of a shift. The
branch unit has the target, and the comparator the direction. Each pipe has an ALU; the
other units belong to one pipe each.
-/

namespace NopCore

open Encoding (MaskedLiteral)

/-! ## Operations -/

inductive ExtendType
  | sign | zero
  deriving DecidableEq, Repr

inductive ALUOpType
  | add | addu | sub | subu
  | and | or | xor | nor
  | slt | sltu
  | sll | srl | sra
  | lu12i | pcaddi | pcaddu12i
  | cpucfg
  | iocsr
  deriving DecidableEq, Repr

inductive CompareOpType
  | eq | ne
  | eqz | nez
  | ge | lt | le | gt
  | geu | ltu | leu | gtu
  | gez | ltz | lez | gtz
  deriving DecidableEq, Repr

/-! ## Decoding them -/

structure ExecuteSignals where
  immExtendType : ExtendType := .sign
  aluOp : ALUOpType
  cmpOp : CompareOpType

/-- What an encoding sets of them. -/
structure ExecuteActions where
  immExtendType : Option ExtendType := none
  aluOp : Option ALUOpType := none
  cmpOp : Option CompareOpType := none
  deriving DecidableEq

namespace ExecuteActions

def apply (a : ExecuteActions) (s : ExecuteSignals) : ExecuteSignals where
  immExtendType := a.immExtendType.getD s.immExtendType
  aluOp := a.aluOp.getD s.aluOp
  cmpOp := a.cmpOp.getD s.cmpOp

def alu (op : ALUOpType) : ExecuteActions := { aluOp := some op }

/-- The short immediate is unsigned. -/
def aluUnsignedImm (op : ALUOpType) : ExecuteActions :=
  { immExtendType := some .zero, aluOp := some op }

def branch (op : CompareOpType) : ExecuteActions := { cmpOp := some op }

end ExecuteActions

namespace Decoder

open LoongArch ExecuteActions in
/-- The encodings that set one of these signals. -/
def executeActions : List (MaskedLiteral × ExecuteActions) :=
  [(ADD, alu .add), (SUB, alu .sub), (SLT, alu .slt), (SLTU, alu .sltu), (NOR, alu .nor),
    (AND, alu .and), (OR, alu .or), (XOR, alu .xor), (SLL, alu .sll), (SRL, alu .srl),
    (SRA, alu .sra),
    (SLLI, alu .sll), (SRLI, alu .srl), (SRAI, alu .sra), (SLTI, alu .slt),
    (SLTUI, alu .sltu), (ADDI, alu .add), (ANDI, aluUnsignedImm .and),
    (ORI, aluUnsignedImm .or), (XORI, aluUnsignedImm .xor),
    (LU12I, alu .lu12i), (PCADDI, alu .pcaddi), (PCADDU12I, alu .pcaddu12i),
    (BEQ, branch .eq), (BNE, branch .ne), (BLT, branch .lt), (BGE, branch .ge),
    (BLTU, branch .ltu), (BGEU, branch .geu),
    (CPUCFG, alu .cpucfg),
    (IOCSRRD_B, alu .iocsr), (IOCSRRD_H, alu .iocsr), (IOCSRRD_W, alu .iocsr),
    (IOCSRWR_B, alu .iocsr), (IOCSRWR_H, alu .iocsr), (IOCSRWR_W, alu .iocsr)]

def executeEncodings : List (MaskedLiteral × (ExecuteSignals → ExecuteSignals)) :=
  executeActions.map fun line => (line.1, line.2.apply)

theorem executeWellFormed : Encoding.WellFormed 32 executeEncodings :=
  ⟨by decide +kernel, by decide +kernel⟩

/-- The signals of a word. `x` has the operations where no encoding sets them. -/
def executeSignals (x : ExecuteSignals) (inst : UWord) : ExecuteSignals :=
  Encoding.apply executeEncodings inst { x with immExtendType := .sign }

section

variable {m : MaskedLiteral} {inst : UWord}

theorem executeSignals_of_covers (x : ExecuteSignals) {a : ExecuteActions}
    (hline : (m, a) ∈ executeActions) (h : m.covers inst = true) :
    executeSignals x inst = a.apply { x with immExtendType := .sign } := by
  have hmem : (m, a.apply) ∈ executeEncodings := List.mem_map.mpr ⟨(m, a), hline, rfl⟩
  exact executeWellFormed.apply_of_covers hmem h

deriving instance DecidableEq for DecodeSignals

theorem signals_of_line {s : DecodeSignals} (hline : ∃ line ∈ encodings, line.1 = m ∧ line.2 {} = s)
    (h : m.covers inst = true) : signals inst = s := by
  obtain ⟨line, hline, rfl, rfl⟩ := hline
  exact signals_of_covers hline h

end

end Decoder

/-! ## Immediates -/

namespace InstructionParser

variable (p : InstructionParser)

def sa : BitVec 5 := p.inst.extractLsb' 10 5

def imm12 : BitVec 12 := p.inst.extractLsb' 10 12
def signExtendImm12 : UWord := p.imm12.signExtend 32
def zeroExtendImm12 : UWord := p.imm12.setWidth 32

def imm20 : BitVec 20 := p.inst.extractLsb' 5 20
def signExtendImm20_2 : UWord := (p.imm20 ++ 0#2).signExtend 32
def signExtendImm20_12 : UWord := p.imm20 ++ 0#12

end InstructionParser

/-! ## The units -/

/-- The constants that `CPUCFG` reads, by the number of the word. -/
def cpucfgWord (word : UWord) : UWord :=
  match word.toNat with
  | 0 => 0x00144200
  | 1 => 0x0001f1fc
  | 2 => 0x00004000
  | 4 => 105000000
  | 5 => 0x00010001
  | _ => 0

/-- The result of the ALU. -/
def ALU.result (src1 src2 : UWord) (sa : BitVec 5) : ALUOpType → UWord
  | .add | .lu12i | .pcaddi | .pcaddu12i => src1 + src2
  | .addu => src1 + src2
  | .sub => src1 - src2
  | .subu => src1 - src2
  | .and => src1 &&& src2
  | .or => src1 ||| src2
  | .xor => src1 ^^^ src2
  | .nor => ~~~(src1 ||| src2)
  | .slt => (BitVec.ofBool (src1.slt src2)).setWidth 32
  | .sltu => (BitVec.ofBool (src1.ult src2)).setWidth 32
  | .sll => src1 <<< sa.toNat
  | .srl => src1 >>> sa.toNat
  | .sra => src1.sshiftRight sa.toNat
  | .cpucfg => cpucfgWord src1
  | .iocsr => 0

/-- The result of the comparator. -/
def Comparator.result (src1 src2 : UWord) (op : CompareOpType) : Bool :=
  let eq := src1 == src2
  let lt := src1.slt src2
  let le := lt || eq
  let gt := !le
  let ge := !lt
  let ltu := src1.ult src2
  let leu := ltu || eq
  let gtu := !leu
  let geu := !ltu
  let ltz := src1.msb
  let eqz := src1 == 0
  let lez := ltz || eqz
  match op with
  | .eq => eq
  | .ne => !eq
  | .eqz => eqz
  | .nez => !eqz
  | .ge => ge
  | .lt => lt
  | .le => le
  | .gt => gt
  | .geu => geu
  | .ltu => ltu
  | .leu => leu
  | .gtu => gtu
  | .gez => !ltz
  | .gtz => !lez
  | .lez => lez
  | .ltz => ltz

namespace BRU

/-- The offset of a branch. -/
def branchOffset (inst : UWord) : UWord := (inst.extractLsb' 10 16 ++ 0#2).signExtend 32

/-- The offset of a jump has its upper part in the lower bits of the word. -/
def jumpOffset (inst : UWord) : UWord :=
  (inst.extractLsb' 0 10 ++ inst.extractLsb' 10 16 ++ 0#2).signExtend 32

def jumpTarget (pc inst : UWord) : UWord := pc + jumpOffset inst

def linkTarget (rj inst : UWord) : UWord := rj + (inst.extractLsb' 10 16 ++ 0#2).signExtend 32

/-- Where the instruction goes if it is taken. -/
def actualTarget (uop : MicroOp) (rj : UWord) : UWord :=
  if uop.isBranch then uop.pc + branchOffset uop.inst
  else if uop.isJump then jumpTarget uop.pc uop.inst
  else linkTarget rj uop.inst

end BRU

/-! ## The stage -/

namespace MicroOp

variable (uop : MicroOp)

def fields : InstructionParser := ⟨uop.inst⟩

/-- The architectural registers that rename reads for the two operands. -/
def readAddr (j : Nat) : Nat :=
  if j = 0 then uop.fields.rj else if uop.useRk then uop.fields.rk else uop.fields.rd

/-- The ports through which rename reads the operands. -/
theorem rRegs_record (rat payload : Nat → Nat) (older : List RegRename) :
    (Rename.record rat payload older uop).rRegs =
      (Rename.readPort rat older (uop.readAddr 0), Rename.readPort rat older (uop.readAddr 1)) :=
  rfl

def readTimer64H : Bool := (Decoder.signals uop.inst).readTimer64H

/-- `RDTIMEID` is the encoding of `RDTIMEL` with `rd` = 0. -/
def readTimer64ID : Bool := uop.fuType == .timer && !uop.readTimer64H && uop.fields.rd == 0

def readTimer64L : Bool := uop.fuType == .timer && !uop.readTimer64H && uop.fields.rd != 0

end MicroOp

/-- The units that an integer pipe has besides its ALU. -/
structure IntExecutePlugin where
  withBRU : Bool := false
  withCSR : Bool := false
  withTimer : Bool := false
  withINVTLB : Bool := false
  deriving DecidableEq, Repr

/-- What the stage reads from the control registers and the timer. -/
structure ExeReads where
  readData : UWord := 0
  counterId : UWord := 0
  lowBits : UWord := 0
  highBits : UWord := 0

/-- What the stage has of an instruction. -/
structure ExeInputs extends ExeReads where
  uop : MicroOp
  signals : ExecuteSignals
  regData : Nat → UWord

namespace ExeInputs

/-- A decoded entry whose operands are the values of the registers that it reads. -/
def decoded (x : ExecuteSignals) (plv : BitVec 2) (entry : FetchEntry) (regs : Nat → UWord)
    (reads : ExeReads) : ExeInputs where
  toExeReads := reads
  uop := Decoder.decode plv entry
  signals := Decoder.executeSignals x entry.inst
  regData j := regs ((Decoder.decode plv entry).readAddr j)

variable (e : ExeInputs)

def imm12 : UWord :=
  match e.signals.immExtendType with
  | .sign => e.uop.fields.signExtendImm12
  | .zero => e.uop.fields.zeroExtendImm12

def src1Alternative : UWord :=
  match e.signals.aluOp with
  | .lu12i => 0
  | .pcaddi => e.uop.pc
  | .pcaddu12i => e.uop.pc
  | _ => 0xdeadbeef

def src1 : UWord := if e.uop.useRj then e.regData 0 else e.src1Alternative

def src2Alternative : UWord :=
  match e.signals.aluOp with
  | .lu12i => e.uop.fields.signExtendImm20_12
  | .pcaddi => e.uop.fields.signExtendImm20_2
  | .pcaddu12i => e.uop.fields.signExtendImm20_12
  | _ => e.imm12

def src2 : UWord := if e.uop.useRk then e.regData 1 else e.src2Alternative

def sa : BitVec 5 := if e.uop.useRk then (e.regData 1).setWidth 5 else e.uop.fields.sa

def aluResult : UWord := ALU.result e.src1 e.src2 e.sa e.signals.aluOp

/-- The comparator has `rd` as its second operand, if the instruction uses it. -/
def condition : Bool :=
  Comparator.result (e.regData 0) (if e.uop.useRd then e.regData 1 else e.imm12) e.signals.cmpOp

end ExeInputs

namespace IntExecutePlugin

variable (p : IntExecutePlugin) (e : ExeInputs)

/-- The result of the ALU, overridden by the other units. -/
def exeResult : UWord :=
  if p.withTimer && e.uop.readTimer64H then e.highBits
  else if p.withTimer && e.uop.readTimer64L then e.lowBits
  else if p.withTimer && e.uop.readTimer64ID then e.counterId
  else if p.withCSR && e.uop.readCSR then e.readData
  else if p.withBRU && (e.uop.isJump || e.uop.isJR) then e.uop.pc + 4
  else e.aluResult

/-- What the pipe with the branch unit reports instead of its result. -/
def actualTarget : UWord :=
  if p.withINVTLB && e.uop.operateTLB then
    0#3 ++ (e.regData 1).extractLsb' 13 19 ++ (e.regData 0).extractLsb' 0 10
  else if p.withCSR && e.uop.writeCSR then
    if e.uop.useRj then
      (e.regData 0 &&& e.regData 1) ||| (~~~e.regData 0 &&& e.readData)
    else e.regData 1
  else BRU.actualTarget e.uop (e.regData 0)

/-- The write of the result to an architectural register. -/
def archWrite : Option RegWrite :=
  if e.uop.doRegWrite then some { addr := e.uop.wbAddr, data := p.exeResult e } else none

/-- The first pipe has the branch unit, the control registers and `INVTLB`. -/
def int0 : IntExecutePlugin := { withBRU := true, withCSR := true, withINVTLB := true }

def completion (unit : ExecUnit) (robIdx : Nat) : Completion where
  unit
  robIdx
  uop := e.uop
  result := p.exeResult e
  condition := e.condition
  target := p.actualTarget e

end IntExecutePlugin

namespace CsrCore

variable (x : ExecuteSignals) (s : CsrCore) (i : Inputs) (e : ExeStage)

/-- What the instruction in EXE has. -/
def exeInputs : ExeInputs where
  uop := e.slot.uop
  signals := Decoder.executeSignals x e.slot.uop.inst
  regData := s.regData i e
  readData := s.readData e

/-- The results that do not come from the control registers are those of the ALU and of the
branch unit. -/
structure Executes : Prop where
  exeResult : i.exeResult =
    if e.slot.uop.isJump || e.slot.uop.isJR then e.slot.uop.pc + 4
    else (s.exeInputs x i e).aluResult
  actualTarget : i.actualTarget = BRU.actualTarget e.slot.uop (s.regData i e 0)
  condition : i.condition = (s.exeInputs x i e).condition

/-- The stage of the pipe that accesses the control registers is the stage of the first
integer pipe. -/
theorem execute_completion (h : Executes x s i e) :
    (s.execute i e).completion =
      IntExecutePlugin.int0.completion (s.exeInputs x i e) .int0 e.slot.robIdx := by
  simp only [WbStage.completion, execute, IntExecutePlugin.completion, h.exeResult,
    h.actualTarget, h.condition, IntExecutePlugin.exeResult, IntExecutePlugin.actualTarget,
    IntExecutePlugin.int0, Bool.false_and, Bool.true_and, Bool.false_eq_true, if_false]
  rfl

end CsrCore

end NopCore
