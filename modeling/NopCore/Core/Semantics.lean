import NopCore.Core.MemResults
import NopCore.Core.Operands
import NopCore.Exe.CsrAtomic
import NopCore.Exe.Integer
import NopCore.Exe.MulDivArithmetic

/-!
# One instruction on the architectural registers

The architecture says what an integer instruction, a multiplication, a division or a link
writes, by the registers as the instructions in front leave them. What is loaded, what the
control registers and the timer hold, and what a division by zero gives is not said. A pipe
computes from the values that it is given for the operands; if they are those of the registers
that the instruction names, it computes what the architecture says.
-/

namespace NopCore

/-! ## The architecture -/

/-- What the instruction writes. Register 0 is never written. -/
def MulDivInst.write (i : MulDivInst) (inst : UWord) (regs : Nat → UWord) : Option RegWrite :=
  let fields : InstructionParser := ⟨inst⟩
  if fields.rd = 0 then none
  else some { addr := fields.rd, data := i.value (regs fields.rj) (regs fields.rk) }

namespace MicroOp

variable (uop : MicroOp)

/-- The instruction may write this. -/
structure Writes (regs : Nat → UWord) (write : Option RegWrite) : Prop where
  addr : write.map RegWrite.addr = if uop.doRegWrite then some uop.wbAddr else none
  int : ∀ i : IntInst, i.encoding.covers uop.inst = true →
    write = i.write uop.inst uop.pc regs
  mulDiv : ∀ i : MulDivInst, i.encoding.covers uop.inst = true →
    (i.divides = true → regs uop.fields.rk ≠ 0) → write = i.write uop.inst regs
  link : uop.isJump = true ∨ uop.isJR = true → ∀ w ∈ write, w.data = uop.pc + 4

/-- One step of the sequential machine. -/
def Executes (regs regs' : Nat → UWord) : Prop :=
  ∃ write, uop.Writes regs write ∧
    regs' = write.elim regs fun w => Function.update regs w.addr w.data

/-- The operands that the result depends on. -/
def reads (j : Nat) : Bool := if j = 0 then uop.useRj else uop.useRk

/-- What a pipe computes from the values of the operands. -/
inductive Yields (useEarlyOut : Bool) (data : Nat → UWord) : UWord → Prop
  | int (u : ExecUnit) (unset : ExecuteSignals) (reads : ExeReads) :
    u ∈ IssueQueue.units .int → u.executes uop.fuType = true → Yields useEarlyOut data
      ((IntExecutePlugin.ofUnit u).exeResult
        { toExeReads := reads
          uop := uop
          signals := Decoder.executeSignals unset uop.inst
          regData := data })
  | mulDiv : IssueQueue.mulDiv.fuMatch uop.fuType = true → Yields useEarlyOut data
      (({ uop := uop } : IssueSlot).mulDiv.uop.result useEarlyOut (data 0) (data 1))

end MicroOp

/-! ## The results of the pipes -/

theorem IntInst.value_congr_rj (i : IntInst) {inst pc rj rj' rk : UWord}
    (h : i.signals.useRj = true → rj = rj') :
    i.value inst pc rj rk = i.value inst pc rj' rk := by
  cases i <;> first | rfl | rw [h rfl]

namespace MulDivInst

theorem signed_eq (i : MulDivInst) {uop : MicroOp} (h : i.encoding.covers uop.inst = true) :
    uop.signed = i.microOp.signed := by
  have hwidth : i.encoding.width ≤ 32 := by cases i <;> decide
  have hcases : ∀ m ∈ [LoongArch.MUL, LoongArch.MULH, LoongArch.DIV, LoongArch.MOD],
      m.width ≤ 32 ∧ (m = i.encoding ∨ i.encoding.Disjoint m) := by
    cases i <;> decide +kernel
  cases hsigned : i.microOp.signed with
  | true =>
    have hmem : i.encoding ∈ [LoongArch.MUL, LoongArch.MULH, LoongArch.DIV, LoongArch.MOD] := by
      cases i <;> revert hsigned <;> decide +kernel
    exact List.any_eq_true.mpr ⟨_, hmem, h⟩
  | false =>
    have hnot : i.encoding ∉ [LoongArch.MUL, LoongArch.MULH, LoongArch.DIV, LoongArch.MOD] := by
      cases i <;> revert hsigned <;> decide +kernel
    apply List.any_eq_false.mpr
    intro m hm
    obtain ⟨hm32, rfl | hdisjoint⟩ := hcases m hm
    · exact absurd hm hnot
    · rw [hdisjoint.covers hwidth hm32 h]
      exact Bool.false_ne_true

/-- The operation of the pipe is that of the instruction. -/
theorem result_eq (i : MulDivInst) (useEarlyOut : Bool) {uop : MulDivIQMicroOp}
    (hfu : uop.fuType = i.microOp.fuType) (hsigned : uop.signed = i.microOp.signed)
    {rj rk : UWord} (hrk : i.divides = true → rk ≠ 0) :
    uop.result useEarlyOut rj rk = i.value rj rk := by
  rw [MulDivIQMicroOp.result, MulDivIQMicroOp.product, hfu, hsigned]
  cases i with
  | mul => exact low_eq rj rk
  | mulh => exact high_signed rj rk
  | mulhu => exact high_unsigned rj rk
  | div => exact (if_neg (hrk rfl)).trans (sdiv_eq_ofInt rj rk)
  | mod => exact srem_eq_ofInt rj rk
  | divu => exact (if_neg (hrk rfl)).trans (udiv_eq_ofNat rj rk)
  | modu => exact umod_eq_ofNat rj rk

end MulDivInst

/-- The write register of a multiplication or division, and the pipes of jumps and loads. -/
def DecodeSignals.Plain (s : DecodeSignals) : Prop :=
  (s.fuType = .mul ∨ s.fuType = .mulh ∨ s.fuType = .div ∨ s.fuType = .mod →
      s.isRegWrite = true ∧ s.overrideRdToRA = false ∧ s.overrideRdToRj = false) ∧
    (s.isJump = true ∨ s.isJR = true → s.fuType = .cmp ∧ s.readCSR = false) ∧
    (s.isLoad = true → s.fuType = .lsu)

instance : DecidablePred DecodeSignals.Plain := fun _ => inferInstanceAs (Decidable (_ ∧ _))

theorem Decoder.plain (inst : UWord) : (Decoder.signals inst).Plain :=
  Decoder.wellFormed.apply_of_lines (by decide) (by decide +kernel)

section

variable {plv : BitVec 2} {entry : FetchEntry}

theorem IntInst.fuType_decode (i : IntInst) (h : i.encoding.covers entry.inst = true) :
    (Decoder.decode plv entry).fuType = .alu := by
  change (Decoder.signals entry.inst).fuType = .alu
  rw [IntInst.signals_eq h]
  cases i <;> rfl

theorem IntInst.useRj_decode (i : IntInst) (h : i.encoding.covers entry.inst = true) :
    (Decoder.decode plv entry).useRj = i.signals.useRj := by
  have hsignals := IntInst.signals_eq h
  have hcsr : Decoder.writeCSR entry.inst = false := by
    rw [Decoder.writeCSR, hsignals]
    cases i <;> rfl
  change Decoder.useRj entry.inst = _
  rw [Decoder.useRj, hcsr, hsignals, Bool.false_and, Bool.or_false]

theorem IntInst.useRk_decode (i : IntInst) (h : i.encoding.covers entry.inst = true) :
    (Decoder.decode plv entry).useRk = i.signals.useRk :=
  congrArg DecodeSignals.useRk (IntInst.signals_eq h)

theorem MulDivInst.fuType_decode (i : MulDivInst) (h : i.encoding.covers entry.inst = true) :
    (Decoder.decode plv entry).fuType = i.microOp.fuType := i.fuType_signals h

theorem MulDivInst.operation (i : MulDivInst) {fu : FUType} (h : fu = i.microOp.fuType) :
    fu = .mul ∨ fu = .mulh ∨ fu = .div ∨ fu = .mod := by
  rw [h]
  cases i <;> decide

theorem MulDivInst.doRegWrite_decode (i : MulDivInst) (h : i.encoding.covers entry.inst = true) :
    (Decoder.decode plv entry).doRegWrite = ((Decoder.decode plv entry).fields.rd != 0) ∧
      (Decoder.decode plv entry).wbAddr = (Decoder.decode plv entry).fields.rd := by
  have hop := i.operation (i.fuType_signals h)
  obtain ⟨hwrite, hra, hrj⟩ := (Decoder.plain entry.inst).1 hop
  have htimer : ((Decoder.signals entry.inst).fuType == .timer) = false := by
    rcases hop with hop | hop | hop | hop <;> rw [hop] <;> rfl
  have hwbAddr : Decoder.wbAddr entry.inst = (Decoder.fields entry.inst).rd := by
    rw [Decoder.wbAddr, Decoder.overrideRdToRj, hra, hrj, htimer]
    rfl
  refine ⟨?_, hwbAddr⟩
  change ((Decoder.signals entry.inst).isRegWrite && Decoder.wbAddr entry.inst != 0) = _
  rw [hwrite, Bool.true_and, hwbAddr]
  rfl

end

namespace MicroOp

variable {uop : MicroOp} {useEarlyOut : Bool} {data regs : Nat → UWord} {value : UWord}

/-- What the architecture says of the result, by the values of the operands. -/
theorem Yields.int_value (h : uop.Yields useEarlyOut data value) (hdec : uop.IsDecoded)
    (i : IntInst) (hcovers : i.encoding.covers uop.inst = true) :
    value = i.value uop.inst uop.pc (data 0) (data 1) := by
  obtain ⟨plv, entry, rfl⟩ := hdec
  cases h with
  | int u unset reads hu hexecutes =>
    rw [i.exeResult_eq _ hcovers rfl]
    exact i.aluResult_eq unset _ (i.useRj_decode hcovers) (i.useRk_decode hcovers)
      (IntInst.executeSignals_eq unset hcovers)
  | mulDiv hmatch =>
    rw [i.fuType_decode hcovers] at hmatch
    cases hmatch

theorem Yields.mulDiv_value (h : uop.Yields useEarlyOut data value) (hdec : uop.IsDecoded)
    (i : MulDivInst) (hcovers : i.encoding.covers uop.inst = true)
    (hrk : i.divides = true → data 1 ≠ 0) : value = i.value (data 0) (data 1) := by
  obtain ⟨plv, entry, rfl⟩ := hdec
  cases h with
  | int u unset reads hu hexecutes =>
    have hno : ∀ u ∈ IssueQueue.units .int, u.executes i.microOp.fuType = false := by
      cases i <;> decide
    rw [i.fuType_decode hcovers, hno u hu] at hexecutes
    cases hexecutes
  | mulDiv hmatch =>
    have hfu : (Decoder.decode plv entry).fuType = _ := i.fuType_decode hcovers
    exact i.result_eq useEarlyOut hfu (i.signed_eq hcovers) hrk

/-- Only the pipe with the branch unit takes jumps. -/
theorem Yields.link_value (h : uop.Yields useEarlyOut data value) (hdec : uop.IsDecoded)
    (hjump : uop.isJump = true ∨ uop.isJR = true) : value = uop.pc + 4 := by
  obtain ⟨plv, entry, rfl⟩ := hdec
  obtain ⟨hfu, hcsr⟩ := (Decoder.plain entry.inst).2.1 hjump
  have hfu : (Decoder.decode plv entry).fuType = .cmp := hfu
  cases h with
  | int u unset reads hu hexecutes =>
    have honly : ∀ u ∈ IssueQueue.units .int, u.executes .cmp = true → u = .int0 := by decide
    rw [hfu] at hexecutes
    obtain rfl := honly u hu hexecutes
    have hreads : (Decoder.decode plv entry).readCSR = false := hcsr
    have hlinks : ((Decoder.decode plv entry).isJump || (Decoder.decode plv entry).isJR) = true :=
      Bool.or_eq_true _ _ ▸ hjump
    simp only [IntExecutePlugin.exeResult, IntExecutePlugin.ofUnit, IntExecutePlugin.int0, hreads,
      hlinks, Bool.false_and, Bool.and_false, Bool.and_true, Bool.false_eq_true, if_false, if_true]
  | mulDiv hmatch =>
    rw [hfu] at hmatch
    cases hmatch

/-! ## The step -/

/-- The operands have the values of the registers that the instruction names. -/
def Reads (uop : MicroOp) (regs data : Nat → UWord) : Prop :=
  ∀ j < 2, uop.reads j = true → data j = regs (uop.readAddr j)

theorem writes_none (hdec : uop.IsDecoded) (hwrites : uop.doRegWrite = false) :
    uop.Writes regs none where
  addr := by rw [hwrites]; rfl
  int i hcovers := by
    obtain ⟨plv, entry, rfl⟩ := hdec
    rw [(IntInst.doRegWrite_decode hcovers).1, bne_eq_false_iff_eq] at hwrites
    exact (if_pos hwrites).symm
  mulDiv i hcovers _ := by
    obtain ⟨plv, entry, rfl⟩ := hdec
    rw [(i.doRegWrite_decode hcovers).1, bne_eq_false_iff_eq] at hwrites
    exact (if_pos hwrites).symm
  link _ w hw := by cases hw

/-- What is loaded may be anything. -/
theorem writes_of_lsu (hdec : uop.IsDecoded) (hfu : uop.fuType = .lsu)
    (hwrites : uop.doRegWrite = true) (value : UWord) :
    uop.Writes regs (some { addr := uop.wbAddr, data := value }) where
  addr := by rw [hwrites]; rfl
  int i hcovers := by
    obtain ⟨plv, entry, rfl⟩ := hdec
    cases (i.fuType_decode hcovers).symm.trans hfu
  mulDiv i hcovers _ := by
    obtain ⟨plv, entry, rfl⟩ := hdec
    have hop := i.operation (hfu.symm.trans (i.fuType_decode hcovers))
    simp at hop
  link hjump := by
    obtain ⟨plv, entry, rfl⟩ := hdec
    cases ((Decoder.plain entry.inst).2.1 hjump).1.symm.trans hfu

theorem Reads.rj (h : uop.Reads regs data) (huse : uop.useRj = true) :
    data 0 = regs uop.fields.rj := h 0 (by decide) huse

theorem Reads.rk (h : uop.Reads regs data) (huse : uop.useRk = true) :
    data 1 = regs uop.fields.rk := by
  have hread := h 1 (by decide) huse
  rw [readAddr, if_neg Nat.one_ne_zero, if_pos huse] at hread
  exact hread

/-- A pipe that has the values of the registers writes what the architecture says. -/
theorem Yields.writes (h : uop.Yields useEarlyOut data value) (hdec : uop.IsDecoded)
    (hreads : uop.Reads regs data) (hwrites : uop.doRegWrite = true) :
    uop.Writes regs (some { addr := uop.wbAddr, data := value }) where
  addr := by rw [hwrites]; rfl
  int i hcovers := by
    have hcomputed := h.int_value hdec i hcovers
    obtain ⟨plv, entry, rfl⟩ := hdec
    have hvalue := calc value
      _ = i.value entry.inst entry.pc (data 0) (data 1) := hcomputed
      _ = i.value entry.inst entry.pc (regs (Decoder.fields entry.inst).rj) (data 1) :=
          i.value_congr_rj fun huse => hreads.rj ((i.useRj_decode hcovers).trans huse)
      _ = i.value entry.inst entry.pc (regs (Decoder.fields entry.inst).rj)
            (regs (Decoder.fields entry.inst).rk) :=
          i.value_congr fun huse => hreads.rk ((i.useRk_decode hcovers).trans huse)
    obtain ⟨hwrite, haddr⟩ : (Decoder.decode plv entry).doRegWrite = _ ∧
      (Decoder.decode plv entry).wbAddr = _ := IntInst.doRegWrite_decode hcovers
    rw [hwrite, bne_iff_ne] at hwrites
    rw [haddr, hvalue]
    exact (if_neg hwrites).symm
  mulDiv i hcovers hrk := by
    have hdecoded := hdec
    obtain ⟨plv, entry, rfl⟩ := hdec
    obtain ⟨hwrite, haddr⟩ : (Decoder.decode plv entry).doRegWrite = _ ∧
      (Decoder.decode plv entry).wbAddr = _ := i.doRegWrite_decode hcovers
    rw [hwrite, bne_iff_ne] at hwrites
    obtain ⟨hrjUsed, hrkUsed⟩ :=
      (Decoder.hasResult entry.inst).2.2 (i.operation (i.fuType_signals hcovers))
    have hrjData := hreads.rj (by
      change ((Decoder.signals entry.inst).useRj || _) = true
      rw [hrjUsed, Bool.true_or])
    have hrkData := hreads.rk hrkUsed
    rw [← hrkData] at hrk
    rw [haddr, h.mulDiv_value hdecoded i hcovers hrk, hrjData, hrkData]
    exact (if_neg hwrites).symm
  link hjump w hw := by
    obtain rfl := Option.some.inj hw
    exact h.link_value hdec hjump

end MicroOp

end NopCore
