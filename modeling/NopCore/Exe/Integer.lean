import NopCore.Exe.IntExecute
import NopCore.Lib.Words

/-!
# Integer instructions

The architecture says what an instruction computes on the integers that its operands stand
for, and on their bits. The decoder, the choice of the operands and the ALU together give
the same, and a word that is no instruction is reported as such.
-/

namespace NopCore

open Encoding (MaskedLiteral)
open Words

/-! ## The architecture -/

inductive IntInst
  | add | sub | slt | sltu | nor | and | or | xor | sll | srl | sra
  | slli | srli | srai
  | slti | sltui | addi | andi | ori | xori
  | lu12i | pcaddi | pcaddu12i
  deriving DecidableEq, Repr

namespace IntInst

def encoding : IntInst → MaskedLiteral
  | add => LoongArch.ADD
  | sub => LoongArch.SUB
  | slt => LoongArch.SLT
  | sltu => LoongArch.SLTU
  | nor => LoongArch.NOR
  | and => LoongArch.AND
  | or => LoongArch.OR
  | xor => LoongArch.XOR
  | sll => LoongArch.SLL
  | srl => LoongArch.SRL
  | sra => LoongArch.SRA
  | slli => LoongArch.SLLI
  | srli => LoongArch.SRLI
  | srai => LoongArch.SRAI
  | slti => LoongArch.SLTI
  | sltui => LoongArch.SLTUI
  | addi => LoongArch.ADDI
  | andi => LoongArch.ANDI
  | ori => LoongArch.ORI
  | xori => LoongArch.XORI
  | lu12i => LoongArch.LU12I
  | pcaddi => LoongArch.PCADDI
  | pcaddu12i => LoongArch.PCADDU12I

/-- The value that the instruction computes. The immediates of comparison and addition are
signed, those of the operations on bits are not; an unsigned comparison takes the word that
its signed immediate stands for. -/
def value (inst pc rj rk : UWord) : IntInst → UWord
  | add => BitVec.ofInt 32 (rj.toInt + rk.toInt)
  | sub => BitVec.ofInt 32 (rj.toInt - rk.toInt)
  | slt => if rj.toInt < rk.toInt then 1 else 0
  | sltu => if rj.toNat < rk.toNat then 1 else 0
  | nor => ~~~(rj ||| rk)
  | and => rj &&& rk
  | or => rj ||| rk
  | xor => rj ^^^ rk
  | sll => BitVec.ofNat 32 (rj.toNat * 2 ^ (rk.toNat % 32))
  | srl => BitVec.ofNat 32 (rj.toNat / 2 ^ (rk.toNat % 32))
  | sra => BitVec.ofInt 32 (rj.toInt / 2 ^ (rk.toNat % 32))
  | slli => BitVec.ofNat 32 (rj.toNat * 2 ^ (inst.extractLsb' 10 5).toNat)
  | srli => BitVec.ofNat 32 (rj.toNat / 2 ^ (inst.extractLsb' 10 5).toNat)
  | srai => BitVec.ofInt 32 (rj.toInt / 2 ^ (inst.extractLsb' 10 5).toNat)
  | slti => if rj.toInt < (inst.extractLsb' 10 12).toInt then 1 else 0
  | sltui => if rj.toNat < (BitVec.ofInt 32 (inst.extractLsb' 10 12).toInt).toNat then 1 else 0
  | addi => BitVec.ofInt 32 (rj.toInt + (inst.extractLsb' 10 12).toInt)
  | andi => rj &&& BitVec.ofNat 32 (inst.extractLsb' 10 12).toNat
  | ori => rj ||| BitVec.ofNat 32 (inst.extractLsb' 10 12).toNat
  | xori => rj ^^^ BitVec.ofNat 32 (inst.extractLsb' 10 12).toNat
  | lu12i => BitVec.ofInt 32 ((inst.extractLsb' 5 20).toInt * 2 ^ 12)
  | pcaddi => BitVec.ofInt 32 (pc.toInt + (inst.extractLsb' 5 20).toInt * 2 ^ 2)
  | pcaddu12i => BitVec.ofInt 32 (pc.toInt + (inst.extractLsb' 5 20).toInt * 2 ^ 12)

/-- What the instruction writes. Register 0 is never written. -/
def write (i : IntInst) (inst pc : UWord) (regs : Nat → UWord) : Option RegWrite :=
  let rd := (inst.extractLsb' 0 5).toNat
  let rj := (inst.extractLsb' 5 5).toNat
  let rk := (inst.extractLsb' 10 5).toNat
  if rd = 0 then none
  else some { addr := rd, data := i.value inst pc (regs rj) (regs rk) }

/-! ## The words of an instruction -/

/-- The signals of the words of the instruction. -/
def signals : IntInst → DecodeSignals
  | add | sub | slt | sltu | nor | and | or | xor | sll | srl | sra => .reg2R1W {}
  | slli | srli | srai | slti | sltui | addi | andi | ori | xori => .reg1R1W {}
  | lu12i | pcaddi | pcaddu12i => .reg1W {}

def actions : IntInst → ExecuteActions
  | add | addi => .alu .add
  | sub => .alu .sub
  | slt | slti => .alu .slt
  | sltu | sltui => .alu .sltu
  | nor => .alu .nor
  | and => .alu .and
  | or => .alu .or
  | xor => .alu .xor
  | sll | slli => .alu .sll
  | srl | srli => .alu .srl
  | sra | srai => .alu .sra
  | andi => .aluUnsignedImm .and
  | ori => .aluUnsignedImm .or
  | xori => .aluUnsignedImm .xor
  | lu12i => .alu .lu12i
  | pcaddi => .alu .pcaddi
  | pcaddu12i => .alu .pcaddu12i

/-- Only where it is used, the second register matters. -/
theorem value_congr (i : IntInst) {inst pc rj rk rk' : UWord}
    (h : i.signals.useRk = true → rk = rk') :
    i.value inst pc rj rk = i.value inst pc rj rk' := by
  cases i <;> first | rfl | rw [h rfl]

variable {i : IntInst} {inst : UWord}

theorem signals_eq (h : i.encoding.covers inst = true) : Decoder.signals inst = i.signals := by
  apply Decoder.signals_of_line _ h
  cases i <;> decide +kernel

theorem executeSignals_eq (x : ExecuteSignals) (h : i.encoding.covers inst = true) :
    Decoder.executeSignals x inst = i.actions.apply { x with immExtendType := .sign } := by
  apply Decoder.executeSignals_of_covers x _ h
  cases i <;> decide +kernel

end IntInst

/-! ## The stage -/

namespace IntInst

/-- The ALU computes the value of the instruction from the operands that its signals
choose. -/
theorem aluResult_eq (i : IntInst) (x : ExecuteSignals) (e : ExeInputs)
    (hrj : e.uop.useRj = i.signals.useRj) (hrk : e.uop.useRk = i.signals.useRk)
    (hsignals : e.signals = i.actions.apply { x with immExtendType := .sign }) :
    e.aluResult = i.value e.uop.inst e.uop.pc (e.regData 0) (e.regData 1) := by
  have hadd : ∀ a b : UWord, a + b = BitVec.ofInt 32 (a.toInt + b.toInt) := fun a b => by
    rw [← add_ofInt, BitVec.ofInt_toInt]
  have himm := setWidth_eq_ofNat e.uop.fields.imm12 32
  rw [ExeInputs.aluResult, ExeInputs.src1, ExeInputs.src2, ExeInputs.sa,
    ExeInputs.src1Alternative, ExeInputs.src2Alternative, ExeInputs.imm12, hrj, hrk, hsignals]
  cases i with
  | add => exact hadd _ _
  | sub => exact sub_eq_ofInt _ _
  | slt => exact setWidth_ofBool 32 _
  | sltu => exact setWidth_ofBool 32 _
  | nor | and | or | xor => rfl
  | sll =>
    have h := shiftLeft_eq_ofNat (e.regData 0) ((e.regData 1).setWidth 5).toNat
    rw [BitVec.toNat_setWidth] at h
    exact h
  | srl =>
    have h := ushiftRight_eq_ofNat (e.regData 0) ((e.regData 1).setWidth 5).toNat
    rw [BitVec.toNat_setWidth] at h
    exact h
  | sra =>
    have h := sshiftRight_eq_ofInt (e.regData 0) ((e.regData 1).setWidth 5).toNat
    rw [BitVec.toNat_setWidth] at h
    exact h
  | slli => exact shiftLeft_eq_ofNat _ _
  | srli => exact ushiftRight_eq_ofNat _ _
  | srai => exact sshiftRight_eq_ofInt _ _
  | slti =>
    have hsign : e.uop.fields.signExtendImm12.toInt = e.uop.fields.imm12.toInt :=
      BitVec.toInt_signExtend_of_le (by decide)
    calc (BitVec.ofBool ((e.regData 0).slt e.uop.fields.signExtendImm12)).setWidth 32
        = if (e.regData 0).toInt < e.uop.fields.signExtendImm12.toInt then 1 else 0 :=
          setWidth_ofBool 32 _
      _ = _ := by
        rw [hsign]
        rfl
  | sltui => exact setWidth_ofBool 32 _
  | addi => exact add_ofInt _ _
  | andi => exact congrArg (e.regData 0 &&& ·) himm
  | ori => exact congrArg (e.regData 0 ||| ·) himm
  | xori => exact congrArg (e.regData 0 ^^^ ·) himm
  | lu12i =>
    calc (0 : UWord) + e.uop.fields.signExtendImm20_12
        = e.uop.fields.signExtendImm20_12 := BitVec.zero_add _
      _ = _ := append_zero_eq_ofInt _ 12
  | pcaddi =>
    have h := append_zero_signExtend e.uop.fields.imm20 32 2
    calc e.uop.pc + e.uop.fields.signExtendImm20_2
        = e.uop.pc + BitVec.ofInt 32 (e.uop.fields.imm20.toInt * 2 ^ 2) := by
          rw [← h, InstructionParser.signExtendImm20_2]
      _ = _ := add_ofInt _ _
  | pcaddu12i =>
    have h := append_zero_eq_ofInt e.uop.fields.imm20 12
    calc e.uop.pc + e.uop.fields.signExtendImm20_12
        = e.uop.pc + BitVec.ofInt 32 (e.uop.fields.imm20.toInt * 2 ^ 12) := by
          rw [InstructionParser.signExtendImm20_12, h]
      _ = _ := add_ofInt _ _

section

variable {i : IntInst} {x : ExecuteSignals} {plv : BitVec 2} {entry : FetchEntry}

theorem doRegWrite_decode (h : i.encoding.covers entry.inst = true) :
    (Decoder.decode plv entry).doRegWrite = ((Decoder.decode plv entry).fields.rd != 0) ∧
      (Decoder.decode plv entry).wbAddr = (Decoder.decode plv entry).fields.rd := by
  have hwbAddr : Decoder.wbAddr entry.inst = (Decoder.fields entry.inst).rd := by
    rw [Decoder.wbAddr, Decoder.overrideRdToRj, signals_eq h]
    cases i <;> rfl
  have hwrite : i.signals.isRegWrite = true := by cases i <;> rfl
  refine ⟨?_, hwbAddr⟩
  change ((Decoder.signals entry.inst).isRegWrite && Decoder.wbAddr entry.inst != 0) = _
  rw [signals_eq h, hwrite, Bool.true_and, hwbAddr]
  rfl

/-- None of the units beside the ALU is used. -/
theorem exeResult_eq (p : IntExecutePlugin) {e : ExeInputs}
    (h : i.encoding.covers entry.inst = true)
    (huop : e.uop = Decoder.decode plv entry) : p.exeResult e = e.aluResult := by
  have hsignals : Decoder.signals e.uop.inst = i.signals := by
    rw [huop]
    exact signals_eq h
  have hfu : e.uop.fuType = .alu := by
    rw [huop]
    change (Decoder.signals entry.inst).fuType = .alu
    rw [signals_eq h]
    cases i <;> rfl
  have hjump : (e.uop.isJump || e.uop.isJR) = false := by
    rw [huop]
    change ((Decoder.signals entry.inst).isJump || (Decoder.signals entry.inst).isJR) = false
    rw [signals_eq h]
    cases i <;> rfl
  have htimer : e.uop.readTimer64H = false := by
    rw [MicroOp.readTimer64H, hsignals]
    cases i <;> rfl
  have hcsr : e.uop.readCSR = false := by
    rw [MicroOp.readCSR, hsignals]
    cases i <;> rfl
  have hlow : e.uop.readTimer64L = false := by
    rw [MicroOp.readTimer64L, hfu]
    rfl
  have hid : e.uop.readTimer64ID = false := by
    rw [MicroOp.readTimer64ID, hfu]
    rfl
  simp only [IntExecutePlugin.exeResult, htimer, hlow, hid, hcsr, hjump, Bool.and_false,
    Bool.false_eq_true, if_false]

/-- A word that no encoding of privilege level 0 covers is not checked for one. -/
theorem not_special
    (hnot : ∀ m ∈ LoongArch.INVTLB :: privInst, m.covers entry.inst = false) :
    (privInst.any fun m => m.covers entry.inst) = false ∧
      Decoder.isInvtlb entry.inst = false := by
  constructor
  · apply List.any_eq_false.mpr
    intro m hm
    rw [hnot m (List.mem_cons_of_mem _ hm)]
    exact Bool.false_ne_true
  · rw [Decoder.isInvtlb, hnot _ List.mem_cons_self]
    rfl

/-- The decoder finds no exception. -/
theorem except_decode (h : i.encoding.covers entry.inst = true) :
    (Decoder.decode plv entry).except.valid = entry.except := by
  have hdisjoint : ∀ m ∈ LoongArch.INVTLB :: privInst, i.encoding.Disjoint m ∧ m.width ≤ 32 := by
    cases i <;> decide +kernel
  have hwidth : i.encoding.width ≤ 32 := by cases i <;> decide
  have hnot : ∀ m ∈ LoongArch.INVTLB :: privInst, m.covers entry.inst = false := fun m hm =>
    (hdisjoint m hm).1.covers hwidth (hdisjoint m hm).2 h
  obtain ⟨hpriv, hinvtlb⟩ := not_special hnot
  have hlegal : Decoder.illegalEncoding entry.inst = false := by
    have hline : ∃ line ∈ encodings, line.1 = i.encoding := by cases i <;> decide +kernel
    obtain ⟨line, hline, hencoding⟩ := hline
    rw [Decoder.illegalEncoding, Encoding.illegal, Bool.not_eq_false', List.any_eq_true]
    exact ⟨line, hline, hencoding ▸ h⟩
  have hcalls : (i.signals.isBreak || i.signals.isSyscall) = false := by cases i <;> rfl
  rw [Bool.or_eq_false_iff] at hcalls
  change (Decoder.except plv entry).valid = entry.except
  rw [Decoder.except, hpriv, hinvtlb, hlegal, signals_eq h, hcalls.1, hcalls.2]
  cases entry.except with
  | true => rfl
  | false =>
    rw [Bool.and_false]
    rfl

end

end IntInst

/-- No encoding covers the word, so the decoder reports it, at every privilege level. -/
theorem Decoder.except_of_illegal {plv : BitVec 2} {entry : FetchEntry}
    (hfetch : entry.except = false) (h : ∀ line ∈ encodings, line.1.covers entry.inst = false) :
    (Decoder.decode plv entry).except.valid = true ∧
      (Decoder.decode plv entry).except.code = ExceptionCode.INE := by
  have hregistered : ∀ m ∈ LoongArch.INVTLB :: privInst, ∃ line ∈ encodings, line.1 = m := by
    decide +kernel
  have hnot : ∀ m ∈ LoongArch.INVTLB :: privInst, m.covers entry.inst = false := by
    intro m hm
    obtain ⟨line, hline, rfl⟩ := hregistered m hm
    exact h line hline
  obtain ⟨hpriv, hinvtlb⟩ := IntInst.not_special hnot
  have hillegal : Decoder.illegalEncoding entry.inst = true := by
    rw [Decoder.illegalEncoding, Encoding.illegal, Bool.not_eq_true', List.any_eq_false]
    exact fun line hline => by
      rw [h line hline]
      exact Bool.false_ne_true
  change (Decoder.except plv entry).valid = true ∧ (Decoder.except plv entry).code = _
  rw [Decoder.except, hfetch, if_neg Bool.false_ne_true, hpriv, hinvtlb, hillegal, Bool.and_false]
  exact ⟨rfl, rfl⟩

/-- For all operands an integer instruction is executed as the architecture has it: without
an exception of its own, by every pipe, whatever the signals are that its encoding does not
set. A word that is no instruction raises `INE`. -/
theorem integer_semantics (x : ExecuteSignals) (p : IntExecutePlugin) (plv : BitVec 2)
    (entry : FetchEntry) (regs : Nat → UWord) (reads : ExeReads) :
    (∀ i : IntInst, i.encoding.covers entry.inst = true →
      (Decoder.decode plv entry).fuType = .alu ∧
        (Decoder.decode plv entry).except.valid = entry.except ∧
        p.archWrite (.decoded x plv entry regs reads) = i.write entry.inst entry.pc regs) ∧
      (entry.except = false → (∀ line ∈ encodings, line.1.covers entry.inst = false) →
        (Decoder.decode plv entry).except.valid = true ∧
          (Decoder.decode plv entry).except.code = ExceptionCode.INE) := by
  refine ⟨fun i h => ⟨?_, IntInst.except_decode h, ?_⟩, Decoder.except_of_illegal⟩
  · change (Decoder.signals entry.inst).fuType = .alu
    rw [IntInst.signals_eq h]
    cases i <;> rfl
  · have huse : (Decoder.decode plv entry).useRj = i.signals.useRj ∧
        (Decoder.decode plv entry).useRk = i.signals.useRk := by
      change Decoder.useRj entry.inst = _ ∧ (Decoder.signals entry.inst).useRk = _
      rw [Decoder.useRj, Decoder.writeCSR, IntInst.signals_eq h]
      cases i <;> exact ⟨rfl, rfl⟩
    have hresult := i.aluResult_eq x (.decoded x plv entry regs reads) huse.1 huse.2
      (IntInst.executeSignals_eq x h)
    have hvalue : p.exeResult (.decoded x plv entry regs reads) =
        i.value entry.inst entry.pc (regs (Decoder.fields entry.inst).rj)
          (regs (Decoder.fields entry.inst).rk) := by
      rw [IntInst.exeResult_eq p h rfl, hresult]
      exact i.value_congr fun hrk => congrArg regs (if_pos (huse.2.trans hrk))
    obtain ⟨hwrite, haddr⟩ := @IntInst.doRegWrite_decode i plv entry h
    change (if (Decoder.decode plv entry).doRegWrite = true then
        some (⟨(Decoder.decode plv entry).wbAddr, p.exeResult _⟩ : RegWrite) else none) =
      if (Decoder.decode plv entry).fields.rd = 0 then none
      else some ⟨(Decoder.decode plv entry).fields.rd, _⟩
    rw [hwrite, haddr, hvalue]
    by_cases hrd : (Decoder.decode plv entry).fields.rd = 0
    · rw [hrd]
      rfl
    · rw [if_neg hrd, if_pos (bne_iff_ne.mpr hrd)]
      rfl

/-- `addi.w $a0, $a1, -1`, and a word that is no instruction. -/
theorem integer_semantics_addi (x : ExecuteSignals) :
    IntExecutePlugin.int0.archWrite
        (.decoded x 3 { pc := 0x1c000000, inst := 0x02bffca4 } (fun k => k) {}) = some ⟨4, 4⟩ ∧
      (Decoder.decode 3 { inst := 0xffffffff }).except.code = ExceptionCode.INE :=
  ⟨(((integer_semantics x .int0 3 { pc := 0x1c000000, inst := 0x02bffca4 } (fun k => k) {}).1
      .addi (by decide)).2.2).trans (by decide +kernel),
    ((integer_semantics x .int0 3 { inst := 0xffffffff } (fun k => k) {}).2 rfl
      (by decide +kernel)).2⟩

end NopCore
