import NopCore.Exe.IntExecute
import NopCore.Lib.Words

/-!
# Branches and jumps

The architecture says from the operands whether a branch is taken and where it goes. The
branch unit compares this with the prediction. What it reports is saved with the
instruction, and commit makes the next address from it, when the instruction retires.
-/

namespace NopCore

open Encoding (MaskedLiteral)
open Words

/-! ## The architecture -/

inductive BranchInst
  | beq | bne | blt | bge | bltu | bgeu
  | b | bl
  | jirl
  deriving DecidableEq, Repr

namespace BranchInst

def encoding : BranchInst → MaskedLiteral
  | beq => LoongArch.BEQ
  | bne => LoongArch.BNE
  | blt => LoongArch.BLT
  | bge => LoongArch.BGE
  | bltu => LoongArch.BLTU
  | bgeu => LoongArch.BGEU
  | b => LoongArch.B
  | bl => LoongArch.BL
  | jirl => LoongArch.JIRL

def taken (rj rd : UWord) : BranchInst → Bool
  | beq => rj = rd
  | bne => rj ≠ rd
  | blt => rj.toInt < rd.toInt
  | bge => rd.toInt ≤ rj.toInt
  | bltu => rj.toNat < rd.toNat
  | bgeu => rd.toNat ≤ rj.toNat
  | b | bl | jirl => true

/-- The signed offset, in words. -/
def offset (inst : UWord) : BranchInst → Int
  | beq | bne | blt | bge | bltu | bgeu | jirl => (inst.extractLsb' 10 16).toInt
  | b | bl => (inst.extractLsb' 0 10 ++ inst.extractLsb' 10 16).toInt

/-- Where the instruction goes if it is taken. -/
def target (i : BranchInst) (inst pc rj : UWord) : UWord :=
  match i with
  | jirl => BitVec.ofInt 32 (rj.toInt + i.offset inst * 2 ^ 2)
  | _ => BitVec.ofInt 32 (pc.toInt + i.offset inst * 2 ^ 2)

def nextPC (i : BranchInst) (inst pc rj rd : UWord) : UWord :=
  if i.taken rj rd then i.target inst pc rj else pc + 4

/-- The link is written to register 1 by `BL`, and by `JIRL` to the register that it
names. -/
def write (i : BranchInst) (inst pc : UWord) : Option RegWrite :=
  let rd := (inst.extractLsb' 0 5).toNat
  match i with
  | bl => some { addr := 1, data := pc + 4 }
  | jirl => if rd = 0 then none else some { addr := rd, data := pc + 4 }
  | _ => none

/-! ## The words of an instruction -/

def signals : BranchInst → DecodeSignals
  | beq | bne | blt | bge | bltu | bgeu => .branch {}
  | b => .jump {}
  | bl => { DecodeSignals.jump {} with isRegWrite := true, overrideRdToRA := true }
  | jirl => { DecodeSignals.jumpLink {} with isRegWrite := true }

/-- The comparison of a branch. -/
def cmpOp? : BranchInst → Option CompareOpType
  | beq => some .eq
  | bne => some .ne
  | blt => some .lt
  | bge => some .ge
  | bltu => some .ltu
  | bgeu => some .geu
  | b | bl | jirl => none

variable {i : BranchInst} {inst : UWord}

theorem signals_eq (h : i.encoding.covers inst = true) : Decoder.signals inst = i.signals := by
  apply Decoder.signals_of_line _ h
  cases i <;> decide +kernel

theorem cmpOp_eq (x : ExecuteSignals) (h : i.encoding.covers inst = true) {op : CompareOpType}
    (hop : i.cmpOp? = some op) : (Decoder.executeSignals x inst).cmpOp = op := by
  have hline : (i.encoding, ExecuteActions.branch op) ∈ Decoder.executeActions := by
    cases i <;> cases hop <;> decide +kernel
  rw [Decoder.executeSignals_of_covers x hline h]
  rfl

/-- The instruction is taken as the architecture says: a branch by its comparison, the
others always. -/
theorem taken_eq (i : BranchInst) (e : ExeInputs) (huseRd : e.uop.useRd = i.signals.useRd)
    (hcmp : ∀ op, i.cmpOp? = some op → e.signals.cmpOp = op) :
    (e.condition || i.signals.isJR || i.signals.isJump) = i.taken (e.regData 0) (e.regData 1) := by
  rw [ExeInputs.condition, huseRd]
  cases i with
  | beq | bne =>
    rw [hcmp _ rfl]
    simp [Comparator.result, signals, DecodeSignals.branch, DecodeSignals.reg1R, taken,
      beq_eq_decide]
  | blt | bge | bltu | bgeu =>
    rw [hcmp _ rfl]
    simp [Comparator.result, signals, DecodeSignals.branch, DecodeSignals.reg1R, taken,
      BitVec.slt, BitVec.ult, ← decide_not]
  | b | bl | jirl => simp [signals, DecodeSignals.jump, DecodeSignals.jumpLink, taken]

/-- The branch unit adds the offset of the instruction. -/
theorem actualTarget_eq (i : BranchInst) (uop : MicroOp) (rj : UWord)
    (hbranch : uop.isBranch = i.signals.isBranch) (hjump : uop.isJump = i.signals.isJump) :
    BRU.actualTarget uop rj = i.target uop.inst uop.pc rj := by
  rw [BRU.actualTarget, hbranch, hjump]
  cases i with
  | beq | bne | blt | bge | bltu | bgeu | jirl =>
    have hoffset := append_zero_signExtend (uop.inst.extractLsb' 10 16) 32 2
    exact (congrArg (_ + ·) hoffset).trans (add_ofInt _ _)
  | b | bl =>
    have hoffset := append_zero_signExtend
      (uop.inst.extractLsb' 0 10 ++ uop.inst.extractLsb' 10 16) 32 2
    exact (congrArg (_ + ·) hoffset).trans (add_ofInt _ _)

/-! ## Decoded branches -/

section

variable {plv : BitVec 2} {entry : FetchEntry}

/-- The signals of the words reach the micro-operation as they are. -/
structure Decodes (i : BranchInst) (uop : MicroOp) : Prop where
  fuType : uop.fuType = .cmp
  useRk : uop.useRk = false
  useRd : uop.useRd = i.signals.useRd
  isBranch : uop.isBranch = i.signals.isBranch
  isJump : uop.isJump = i.signals.isJump
  isJR : uop.isJR = i.signals.isJR
  readCSR : uop.readCSR = false
  flushState : uop.flushState = false
  doRegWrite : uop.doRegWrite = (i.signals.isRegWrite && uop.wbAddr != 0)
  wbAddr : uop.wbAddr = if i.signals.overrideRdToRA then 1 else uop.fields.rd

theorem decodes (h : i.encoding.covers entry.inst = true) :
    i.Decodes (Decoder.decode plv entry) := by
  have hsignals := signals_eq h
  have hwriteCSR : Decoder.writeCSR entry.inst = false := by
    rw [Decoder.writeCSR, hsignals]
    cases i <;> rfl
  have hinvtlb : Decoder.isInvtlb entry.inst = false := by
    have huseRk : i.signals.useRk = false := by cases i <;> rfl
    rw [Decoder.isInvtlb, hsignals, huseRk, Bool.and_false]
  have htlbOp : Decoder.tlbOp entry = .none := by
    rw [Decoder.tlbOp, hinvtlb, Bool.and_false, if_neg Bool.false_ne_true, hsignals]
    cases i <;> rfl
  constructor
  · change (Decoder.signals entry.inst).fuType = .cmp
    rw [hsignals]
    cases i <;> rfl
  · change (Decoder.signals entry.inst).useRk = false
    rw [hsignals]
    cases i <;> rfl
  · change Decoder.useRd entry.inst = i.signals.useRd
    rw [Decoder.useRd, hwriteCSR, Bool.or_false, hsignals]
  · exact congrArg DecodeSignals.isBranch hsignals
  · exact congrArg DecodeSignals.isJump hsignals
  · exact congrArg DecodeSignals.isJR hsignals
  · change (Decoder.signals entry.inst).readCSR = false
    rw [hsignals]
    cases i <;> rfl
  · change ((Decoder.signals entry.inst).isErtn || Decoder.writeCSR entry.inst ||
      (Decoder.signals entry.inst).isWait || Decoder.tlbOp entry != .none ||
      (Decoder.signals entry.inst).operateCache || (Decoder.signals entry.inst).isBar ||
      (Decoder.signals entry.inst).isLL || (Decoder.signals entry.inst).isSC) = false
    rw [hwriteCSR, htlbOp, hsignals]
    cases i <;> rfl
  · change ((Decoder.signals entry.inst).isRegWrite && _) = _
    rw [hsignals]
    rfl
  · change Decoder.wbAddr entry.inst = _
    rw [Decoder.wbAddr, Decoder.overrideRdToRj, hsignals]
    cases i <;> rfl

/-- The link is written. -/
theorem archWrite_eq {e : ExeInputs} (h : i.Decodes e.uop) :
    IntExecutePlugin.int0.archWrite e = i.write e.uop.inst e.uop.pc := by
  have hresult : (i.signals.isJump || i.signals.isJR) = true →
      IntExecutePlugin.int0.exeResult e = e.uop.pc + 4 := by
    intro hlink
    simp only [IntExecutePlugin.exeResult, IntExecutePlugin.int0, h.readCSR, h.isJump, h.isJR,
      hlink, Bool.and_false, Bool.and_true, Bool.false_and, Bool.false_eq_true, if_false, if_true]
  rw [IntExecutePlugin.archWrite, h.doRegWrite, h.wbAddr]
  cases i with
  | beq | bne | blt | bge | bltu | bgeu | b => rfl
  | bl =>
    rw [hresult rfl]
    rfl
  | jirl =>
    rw [hresult rfl]
    change (if (e.uop.fields.rd != 0) = true then _ else _) =
      if e.uop.fields.rd = 0 then _ else _
    by_cases hrd : e.uop.fields.rd = 0
    · rw [if_pos hrd, hrd]
      rfl
    · rw [if_neg hrd, if_pos (bne_iff_ne.mpr hrd)]
      rfl

end

end BranchInst

/-- The address from which the instructions behind were fetched. -/
def MicroOp.predictedPC (uop : MicroOp) : UWord :=
  if uop.predInfo.predictTaken then uop.predInfo.predictAddr else uop.pc + 4

namespace BranchInst

/-- The prediction is not to be followed: the direction is wrong, or the target of a taken
one. -/
def Mispredicted (predInfo : BranchPredictInfo) (taken : Bool) (target : UWord) : Prop :=
  predInfo.predictTaken ≠ taken ∨ taken = true ∧ predInfo.predictAddr ≠ target

theorem bruMispredict_iff {uop : MicroOp} (hbranch : uop.branchLike = true) (condition : Bool)
    (target : UWord) :
    bruMispredict uop condition target = true ↔
      Mispredicted uop.predInfo (condition || uop.isJR || uop.isJump) target := by
  rw [bruMispredict, hbranch, if_pos rfl, Bool.or_eq_true, Bool.and_eq_true, bne_iff_ne,
    bne_iff_ne, Mispredicted, ne_comm (a := target)]

theorem Decodes.branchLike {i : BranchInst} {uop : MicroOp} (h : i.Decodes uop) :
    uop.branchLike = true := by
  rw [MicroOp.branchLike, h.isBranch, h.isJump, h.isJR]
  cases i <;> rfl

/-- Where the prediction is to be followed, the instructions behind were fetched from the
right address. -/
theorem predictedPC_eq {i : BranchInst} {uop : MicroOp} {rj rd : UWord}
    (h : ¬Mispredicted uop.predInfo (i.taken rj rd) (i.target uop.inst uop.pc rj)) :
    uop.predictedPC = i.nextPC uop.inst uop.pc rj rd := by
  obtain ⟨hdirection, htarget⟩ := not_or.mp h
  rw [not_not] at hdirection
  rw [MicroOp.predictedPC, nextPC, hdirection]
  cases htaken : i.taken rj rd with
  | false => rfl
  | true => exact not_not.mp fun hne => htarget ⟨htaken, hne⟩

/-- Commit sends what the branch unit has saved: the next address, if the prediction is not
to be followed, and otherwise nothing. -/
theorem jumpInterface_eq {i : BranchInst} {uop : MicroOp} (h : i.Decodes uop) {rj rd : UWord}
    {ports : Nat → PopPort} {fsm : UncachedState} {inp : CommitInputs}
    (huop : (ports 0).uop = uop)
    (htaken : (ports 0).state.actualTaken = i.taken rj rd)
    (htarget : (ports 0).state.intResult = i.target uop.inst uop.pc rj)
    (hretires : Commit.retires ports fsm inp 0 = true) :
    Commit.jumpInterface ports fsm inp =
      if (ports 0).state.mispredict then some (i.nextPC uop.inst uop.pc rj rd) else none := by
  have hlinear : Commit.linearRecover ports = false := by
    rw [Commit.linearRecover, huop, h.flushState, h.branchLike]
    rfl
  have hjump : Commit.jumpTarget ports = i.nextPC uop.inst uop.pc rj rd := by
    simp only [Commit.jumpTarget, huop, htaken, htarget, nextPC]
    by_cases hlink : (uop.isJump || uop.isJR) = true
    · have hyes : i.taken rj rd = true := by
        rw [h.isJump, h.isJR] at hlink
        cases i <;> first | rfl | cases hlink
      rw [if_pos hlink, if_pos hyes]
    · rw [if_neg hlink]
  have hcalm : inp.handler.jump (Commit.handlerRequest ports fsm inp) = none := by
    have hexcept : Commit.hasExcept ports fsm inp = false := by
      simp only [Commit.retires, Bool.and_eq_true, Bool.not_eq_true'] at hretires
      exact hretires.2
    have hertn : uop.isErtn = false := by
      have hflush := h.flushState
      simp only [MicroOp.flushState, Bool.or_eq_false_iff] at hflush
      exact hflush.1.1.1.1.1.1.1
    simp only [ExceptionHandler.jump, Commit.handlerRequest, Commit.except, Commit.ertn, huop,
      hexcept, hertn, Bool.and_false, Bool.false_eq_true, if_false]
  rw [Commit.jumpInterface, hretires, huop, h.branchLike, hlinear, hjump, hcalm, Bool.true_and,
    Bool.and_true, Bool.and_false, Bool.false_and, if_neg Bool.false_ne_true]

end BranchInst

/-- For all operands and predictions a branch or jump is resolved as the architecture has
it. A mispredict is reported exactly if the prediction is not to be followed; then commit
redirects the fetch to the next address, and otherwise the fetch is on the way to it. The
link is written. -/
theorem branch_resolution (x : ExecuteSignals) (plv : BitVec 2) (entry : FetchEntry)
    (regs : Nat → UWord) (reads : ExeReads) (robIdx : Nat) (i : BranchInst)
    (h : i.encoding.covers entry.inst = true) :
    let uop := Decoder.decode plv entry
    let rj := regs uop.fields.rj
    let rd := regs uop.fields.rd
    let e := ExeInputs.decoded x plv entry regs reads
    let state := (IntExecutePlugin.int0.completion e .int0 robIdx).state
    (∀ u : ExecUnit, u.executes uop.fuType = true → u = .int0) ∧
      (state.mispredict = true ↔
        BranchInst.Mispredicted uop.predInfo (i.taken rj rd) (i.target uop.inst uop.pc rj)) ∧
      (state.mispredict = false → uop.predictedPC = i.nextPC uop.inst uop.pc rj rd) ∧
      (∀ ports fsm inp j, (ports j).uop = uop → (ports j).state = state →
        Commit.retires ports fsm inp j = true →
          j = 0 ∧ Commit.jumpInterface ports fsm inp =
            if state.mispredict then some (i.nextPC uop.inst uop.pc rj rd) else none) ∧
      IntExecutePlugin.int0.archWrite e = i.write uop.inst uop.pc := by
  intro uop rj rd e state
  have hdecodes : i.Decodes uop := BranchInst.decodes h
  have hrj : e.regData 0 = rj := rfl
  have hrd : e.regData 1 = rd := by
    change regs (if uop.useRk = true then uop.fields.rk else uop.fields.rd) = rd
    rw [hdecodes.useRk, if_neg Bool.false_ne_true]
  have htaken : state.actualTaken = i.taken rj rd := by
    have htaken := i.taken_eq e hdecodes.useRd fun op hop => BranchInst.cmpOp_eq x h hop
    rw [hrj, hrd] at htaken
    change (e.condition || uop.isJR || uop.isJump) = _
    rw [hdecodes.isJR, hdecodes.isJump, htaken]
  have htarget : state.intResult = i.target uop.inst uop.pc rj := by
    have hcalm := hdecodes.flushState
    simp only [MicroOp.flushState, Bool.or_eq_false_iff] at hcalm
    change IntExecutePlugin.int0.actualTarget e = _
    rw [IntExecutePlugin.actualTarget, show e.uop.operateTLB = false from hcalm.1.1.1.1.2,
      show e.uop.writeCSR = false from hcalm.1.1.1.1.1.1.2, Bool.and_false,
      if_neg Bool.false_ne_true, Bool.and_false, if_neg Bool.false_ne_true]
    exact i.actualTarget_eq uop rj hdecodes.isBranch hdecodes.isJump
  have hmispredict : state.mispredict = true ↔
      BranchInst.Mispredicted uop.predInfo (i.taken rj rd) (i.target uop.inst uop.pc rj) := by
    rw [← htaken, ← htarget]
    exact BranchInst.bruMispredict_iff hdecodes.branchLike _ _
  refine ⟨?_, hmispredict, ?_, ?_, BranchInst.archWrite_eq hdecodes⟩
  · intro u hu
    rw [hdecodes.fuType] at hu
    cases u <;> first | rfl | cases hu
  · intro hright
    apply BranchInst.predictedPC_eq
    rw [← hmispredict, hright]
    exact Bool.false_ne_true
  · intro ports fsm inp j huop hstate hretires
    have hunique : (ports j).uop.uniqueRetire = true := by
      rw [huop, MicroOp.uniqueRetire, hdecodes.branchLike, Bool.or_true]
      rfl
    obtain rfl := Commit.eq_zero_of_uniqueRetire (Bool.and_eq_true_iff.mp hretires).1 hunique
    refine ⟨rfl, ?_⟩
    rw [BranchInst.jumpInterface_eq hdecodes huop ((congrArg _ hstate).trans htaken)
      ((congrArg _ hstate).trans htarget) hretires, hstate]

/-- `beq $a0, $a0, 8` that is predicted not taken. -/
theorem branch_resolution_beq :
    (IntExecutePlugin.int0.completion
      (.decoded { aluOp := .add, cmpOp := .ne } 0 { pc := 0x1c000000, inst := 0x58000884 }
        (fun _ => 5) {}) .int0 7).state.mispredict = true :=
  (branch_resolution { aluOp := .add, cmpOp := .ne } 0 { pc := 0x1c000000, inst := 0x58000884 }
    (fun _ => 5) {} 7 .beq (by decide)).2.1.mpr (.inl (by decide +kernel))

end NopCore
