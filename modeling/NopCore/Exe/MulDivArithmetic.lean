import NopCore.Decode.Decoder
import NopCore.Exe.MulDivExecute

/-!
# The arithmetic of multiplication and division

What the seven instructions compute is stated on integers: the two words of an operand
read as signed or unsigned numbers, the product of which one half is asked for, and the
quotient rounded towards zero with the remainder that goes with it. A result that does
not fit in a word is cut off, which concerns the quotient of -2³¹ by -1 only.

The pipe works with absolute values, an unsigned multiplier or divider, and the negation
of a number that is one bit wider than its operand. If both operands are below 2¹⁶ it
may take quotient and remainder from a divider of half the width.
-/

namespace NopCore

inductive MulDivInst
  | mul | mulh | mulhu | div | mod | divu | modu
  deriving DecidableEq, Repr

namespace MulDivInst

def encoding : MulDivInst → Encoding.MaskedLiteral
  | .mul => LoongArch.MUL
  | .mulh => LoongArch.MULH
  | .mulhu => LoongArch.MULHU
  | .div => LoongArch.DIV
  | .mod => LoongArch.MOD
  | .divu => LoongArch.DIVU
  | .modu => LoongArch.MODU

/-- What the decoder makes of each of them. -/
def microOp : MulDivInst → MulDivIQMicroOp
  | .mul => { fuType := .mul, signed := true }
  | .mulh => { fuType := .mulh, signed := true }
  | .mulhu => { fuType := .mulh, signed := false }
  | .div => { fuType := .div, signed := true }
  | .mod => { fuType := .mod, signed := true }
  | .divu => { fuType := .div, signed := false }
  | .modu => { fuType := .mod, signed := false }

def divides : MulDivInst → Bool
  | .mul | .mulh | .mulhu => false
  | .div | .mod | .divu | .modu => true

/-- What each of them computes. -/
def value (inst : MulDivInst) (rj rk : UWord) : UWord :=
  match inst with
  | .mul => BitVec.ofInt 32 (rj.toInt * rk.toInt)
  | .mulh => BitVec.ofInt 32 (rj.toInt * rk.toInt / 2 ^ 32)
  | .mulhu => BitVec.ofNat 32 (rj.toNat * rk.toNat / 2 ^ 32)
  | .div => BitVec.ofInt 32 (rj.toInt.tdiv rk.toInt)
  | .mod => BitVec.ofInt 32 (rj.toInt.tmod rk.toInt)
  | .divu => BitVec.ofNat 32 (rj.toNat / rk.toNat)
  | .modu => BitVec.ofNat 32 (rj.toNat % rk.toNat)

end MulDivInst

/-! ## The data path -/

/-- The negation of a number with a sign bit in front. -/
def twoComplementWide {w : Nat} (enable : Bool) (x : BitVec w) : BitVec (w + 1) :=
  (if enable then ~~~x else x).setWidth (w + 1) + (BitVec.ofBool enable).setWidth (w + 1)

namespace MulDivIQMicroOp

variable (useEarlyOut : Bool) (uop : MulDivIQMicroOp) (rj rk : UWord)

/-- The product of the absolute values, 65 bits wide with its sign, of which 64 are
taken. -/
def mulResult : BitVec 64 :=
  (twoComplementWide (uop.signed && (rj.msb ^^ rk.msb))
    ((absWord uop.signed rj).setWidth 64 * (absWord uop.signed rk).setWidth 64)).setWidth 64

def quotient : UWord :=
  (twoComplementWide (uop.signed && (rj.msb ^^ rk.msb))
    (absQuotient useEarlyOut uop.signed rj rk)).setWidth 32

def remainder : UWord :=
  (twoComplementWide (uop.signed && rj.msb)
    (absRemainder useEarlyOut uop.signed rj rk)).setWidth 32

/-- What the pipe computes from its operands. -/
def exeResult : UWord :=
  match uop.fuType with
  | .mul => (uop.mulResult rj rk).extractLsb' 0 32
  | .mulh => (uop.mulResult rj rk).extractLsb' 32 32
  | .div => uop.quotient useEarlyOut rj rk
  | .mod => uop.remainder useEarlyOut rj rk
  | _ => 0

end MulDivIQMicroOp

/-- Cut off, the wide negation is the one in the width of the operand. -/
theorem setWidth_twoComplementWide {w : Nat} (enable : Bool) (x : BitVec w) :
    (twoComplementWide enable x).setWidth w = twoComplement enable x := by
  rw [twoComplementWide, BitVec.setWidth_add _ _ (Nat.le_succ w)]
  cases enable with
  | false =>
    apply BitVec.eq_of_toNat_eq
    simp [twoComplement]
  | true =>
    have hone : ((BitVec.ofBool true).setWidth (w + 1)).setWidth w = (1 : BitVec w) := by
      apply BitVec.eq_of_toNat_eq
      simp
    rw [hone, twoComplement, if_pos rfl, if_pos rfl]
    simp

/-- What the pipe computes is what it has been shown to write back. -/
theorem MulDivIQMicroOp.exeResult_eq (useEarlyOut : Bool) (uop : MulDivIQMicroOp)
    (rj rk : UWord) : uop.exeResult useEarlyOut rj rk = uop.result useEarlyOut rj rk := by
  have hproduct : uop.mulResult rj rk = uop.product rj rk := by
    rw [mulResult, setWidth_twoComplementWide, product_eq]
  rw [exeResult, hproduct, product_low, quotient, setWidth_twoComplementWide, quotient_eq,
    remainder, setWidth_twoComplementWide, remainder_eq]
  rfl

/-! ## Integers -/

/-- The high half of a product of words. -/
theorem high_signed (a b : UWord) :
    (a.signExtend 64 * b.signExtend 64).extractLsb' 32 32 =
      BitVec.ofInt 32 (a.toInt * b.toInt / 2 ^ 32) := by
  have hwide : a.signExtend 64 * b.signExtend 64 = BitVec.ofInt 64 (a.toInt * b.toInt) := by
    have ha := BitVec.toInt_signExtend_of_le (x := a) (v := 64) (by omega)
    have hb := BitVec.toInt_signExtend_of_le (x := b) (v := 64) (by omega)
    rw [BitVec.ofInt_mul, ← ha, ← hb, BitVec.ofInt_toInt, BitVec.ofInt_toInt]
  rw [hwide]
  generalize a.toInt * b.toInt = p
  apply BitVec.eq_of_toNat_eq
  rw [BitVec.extractLsb'_toNat, BitVec.toNat_ofInt, BitVec.toNat_ofInt, Nat.shiftRight_eq_div_pow]
  omega

theorem high_unsigned (a b : UWord) :
    (a.setWidth 64 * b.setWidth 64).extractLsb' 32 32 =
      BitVec.ofNat 32 (a.toNat * b.toNat / 2 ^ 32) := by
  have ha := a.isLt
  have hb := b.isLt
  have hfits : a.toNat * b.toNat < 2 ^ 64 := by
    calc a.toNat * b.toNat < 2 ^ 32 * 2 ^ 32 := Nat.mul_lt_mul'' ha hb
      _ = 2 ^ 64 := by decide
  apply BitVec.eq_of_toNat_eq
  rw [BitVec.extractLsb'_toNat, BitVec.toNat_mul, BitVec.toNat_setWidth, BitVec.toNat_setWidth,
    BitVec.toNat_ofNat, Nat.shiftRight_eq_div_pow, Nat.mod_eq_of_lt (a := a.toNat) (by omega),
    Nat.mod_eq_of_lt (a := b.toNat) (by omega), Nat.mod_eq_of_lt hfits]

theorem low_eq (a b : UWord) : a * b = BitVec.ofInt 32 (a.toInt * b.toInt) := by
  rw [BitVec.ofInt_mul, BitVec.ofInt_toInt, BitVec.ofInt_toInt]

/-- Division rounds towards zero; -2³¹ by -1 gives -2³¹ again. -/
theorem sdiv_eq_ofInt (a b : UWord) : a.sdiv b = BitVec.ofInt 32 (a.toInt.tdiv b.toInt) := by
  apply BitVec.eq_of_toInt_eq
  rw [BitVec.toInt_sdiv, BitVec.toInt_ofInt]

/-- The remainder has the sign of the dividend. -/
theorem srem_eq_ofInt (a b : UWord) : a.srem b = BitVec.ofInt 32 (a.toInt.tmod b.toInt) := by
  rw [← BitVec.toInt_srem, BitVec.ofInt_toInt]

theorem udiv_eq_ofNat (a b : UWord) : a / b = BitVec.ofNat 32 (a.toNat / b.toNat) := by
  rw [← BitVec.toNat_udiv, BitVec.ofNat_toNat, BitVec.setWidth_eq]

theorem umod_eq_ofNat (a b : UWord) : a % b = BitVec.ofNat 32 (a.toNat % b.toNat) := by
  rw [← BitVec.toNat_umod, BitVec.ofNat_toNat, BitVec.setWidth_eq]

namespace MulDivInst

/-- The decoder sends a word with the encoding of one of the instructions to the operation
of its micro-operation. -/
theorem fuType_signals (inst : MulDivInst) {word : UWord} (h : inst.encoding.covers word = true) :
    (Decoder.signals word).fuType = inst.microOp.fuType := by
  obtain ⟨line, hline, heq, hfu⟩ : ∃ line ∈ encodings,
      line.1 = inst.encoding ∧ (line.2 {}).fuType = inst.microOp.fuType := by
    cases inst <;> decide +kernel
  rw [← heq] at h
  rw [Decoder.signals_of_covers hline h]
  exact hfu

/-- The pipe computes what the instructions compute, for all operands and with both
settings of the early out; and where the operands are small, the small divider gives what
the large one does. -/
theorem exeResult_eq_value (inst : MulDivInst) (useEarlyOut : Bool) (rj rk : UWord)
    (hrk : inst.divides = true → rk ≠ 0) :
    inst.microOp.exeResult useEarlyOut rj rk = inst.value rj rk ∧
      (inst.divides = true → in16Bits true inst.microOp.signed rj rk = true →
        absQuotient true inst.microOp.signed rj rk =
            absQuotient false inst.microOp.signed rj rk ∧
          absRemainder true inst.microOp.signed rj rk =
            absRemainder false inst.microOp.signed rj rk) := by
  refine ⟨?_, fun hdiv _ => ⟨?_, ?_⟩⟩
  · rw [MulDivIQMicroOp.exeResult_eq]
    cases inst with
    | mul => exact low_eq rj rk
    | mulh => exact high_signed rj rk
    | mulhu => exact high_unsigned rj rk
    | div =>
      have hne : rk ≠ 0 := hrk rfl
      change (if rk = 0 then _ else if true = true then rj.sdiv rk else rj / rk) = _
      rw [if_neg hne, if_pos rfl]
      exact sdiv_eq_ofInt rj rk
    | mod => exact srem_eq_ofInt rj rk
    | divu =>
      have hne : rk ≠ 0 := hrk rfl
      change (if rk = 0 then _ else if false = true then rj.sdiv rk else rj / rk) = _
      rw [if_neg hne, if_neg Bool.false_ne_true]
      exact udiv_eq_ofNat rj rk
    | modu => exact umod_eq_ofNat rj rk
  · rw [absQuotient_eq _ _ _ (hrk hdiv), absQuotient_eq _ _ _ (hrk hdiv)]
  · rw [absRemainder_eq, absRemainder_eq]

/-- The most negative number by -1, where the quotient does not fit, and by itself, where
the absolute values are 2³¹. -/
theorem exeResult_intMin :
    let intMin : UWord := 0x80000000
    MulDivInst.div.microOp.exeResult true intMin (-1) = MulDivInst.div.value intMin (-1) ∧
      MulDivInst.div.value intMin (-1) = intMin ∧ MulDivInst.mod.value intMin (-1) = 0 ∧
      MulDivInst.mulh.microOp.exeResult true intMin intMin = 0x40000000 :=
  ⟨(exeResult_eq_value .div true _ _ fun _ => by decide).1, by decide, by decide, by decide⟩

end MulDivInst

end NopCore
