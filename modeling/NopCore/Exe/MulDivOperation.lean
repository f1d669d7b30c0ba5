import NopCore.Core.MicroOp
import Mathlib.Algebra.Group.Nat.Defs

/-!
# Multiplication and division

The multiplier and the dividers are unsigned. A signed operation takes the absolute
values of its operands and corrects the sign of what comes out.

The instruction set leaves the quotient of a division by zero open. Here it is all
ones in the width of the divider that is used, with the sign of the numerator.
-/

namespace NopCore

structure MulDivIQMicroOp where
  fuType : FUType := .mul
  doRegWrite : Bool := false
  signed : Bool := false
  deriving DecidableEq

/-- The negation of a word, or the word. -/
def twoComplement {w : Nat} (neg : Bool) (x : BitVec w) : BitVec w :=
  (if neg then ~~~x else x) + (if neg then 1 else 0)

def absWord (signed : Bool) (x : UWord) : UWord := twoComplement (signed && x.msb) x

/-- Operands that the small divider can take. -/
def in16Bits (useEarlyOut signed : Bool) (rj rk : UWord) : Bool :=
  useEarlyOut && (absWord signed rj).extractLsb' 16 16 == 0 &&
    (absWord signed rk).extractLsb' 16 16 == 0

namespace MulDivIQMicroOp

variable (useEarlyOut : Bool) (uop : MulDivIQMicroOp) (rj rk : UWord)

def isMultiply : Bool := uop.fuType == .mul || uop.fuType == .mulh

def isDivision : Bool := uop.fuType == .div || uop.fuType == .mod

/-- The product, of which an instruction asks for one half. -/
def product : BitVec 64 :=
  if uop.signed then rj.signExtend 64 * rk.signExtend 64 else rj.setWidth 64 * rk.setWidth 64

def divideByZero : UWord :=
  twoComplement (uop.signed && rj.msb)
    (if in16Bits useEarlyOut uop.signed rj 0 then 0xffff else 0xffffffff)

/-- What the instruction computes. -/
def result : UWord :=
  match uop.fuType with
  | .mul => rj * rk
  | .mulh => (uop.product rj rk).extractLsb' 32 32
  | .div =>
    if rk = 0 then uop.divideByZero useEarlyOut rj
    else if uop.signed then rj.sdiv rk else rj / rk
  | .mod => if uop.signed then rj.srem rk else rj % rk
  | _ => 0

end MulDivIQMicroOp

/-! ## Signs -/

theorem twoComplement_eq {w : Nat} (neg : Bool) (x : BitVec w) :
    twoComplement neg x = if neg then -x else x := by
  cases neg with
  | false => simp [twoComplement]
  | true => simp [twoComplement, BitVec.neg_eq_not_add]

theorem absWord_eq (signed : Bool) (x : UWord) :
    absWord signed x = if signed && x.msb then -x else x := twoComplement_eq _ _

theorem absWord_eq_zero (signed : Bool) (x : UWord) : absWord signed x = 0 ↔ x = 0 := by
  rw [absWord_eq]
  split_ifs <;> simp

/-- A word extended by its sign. -/
theorem signExtend_eq (x : UWord) :
    x.signExtend 64 = twoComplement x.msb ((absWord true x).setWidth 64) := by
  rw [twoComplement_eq, absWord_eq, Bool.true_and]
  cases hmsb : x.msb with
  | false => rw [BitVec.signExtend_eq_setWidth_of_msb_false hmsb]; rfl
  | true =>
    rw [BitVec.signExtend_eq_not_setWidth_not_of_msb_true hmsb]
    have hle : 2 ^ 31 ≤ x.toNat := by simpa [BitVec.msb_eq_decide] using hmsb
    have hlt := x.isLt
    apply BitVec.eq_of_toNat_eq
    simp only [if_true, BitVec.toNat_not, BitVec.toNat_neg, BitVec.toNat_setWidth]
    omega

/-! ## Products -/

/-- The product of the absolute values, with its sign. -/
theorem product_eq (uop : MulDivIQMicroOp) (rj rk : UWord) :
    twoComplement (uop.signed && (rj.msb ^^ rk.msb))
      ((absWord uop.signed rj).setWidth 64 * (absWord uop.signed rk).setWidth 64) =
      uop.product rj rk := by
  rw [MulDivIQMicroOp.product]
  cases uop.signed with
  | false => simp [twoComplement_eq, absWord_eq]
  | true =>
    rw [if_pos rfl, signExtend_eq, signExtend_eq]
    simp only [twoComplement_eq, Bool.true_and]
    cases rj.msb <;> cases rk.msb <;> simp

theorem setWidth_signExtend (x : UWord) : (x.signExtend 64).setWidth 32 = x := by
  apply BitVec.eq_of_getLsbD_eq
  intro k hk
  rw [BitVec.getLsbD_setWidth, BitVec.getLsbD_signExtend]
  simp only [hk, decide_true, Bool.true_and, if_true]
  simpa using fun _ => Nat.lt_trans hk (by omega)

theorem product_low (uop : MulDivIQMicroOp) (rj rk : UWord) :
    (uop.product rj rk).extractLsb' 0 32 = rj * rk := by
  have hlow : ∀ x : BitVec 64, x.extractLsb' 0 32 = x.setWidth 32 := by
    intro x
    rw [BitVec.setWidth_eq_extractLsb' (by omega)]
  rw [hlow, MulDivIQMicroOp.product]
  split_ifs
  · rw [BitVec.setWidth_mul _ _ (by omega)]
    rw [setWidth_signExtend, setWidth_signExtend]
  · rw [BitVec.setWidth_mul _ _ (by omega)]
    simp

/-! ## Quotients -/

/-- The quotient of the absolute values that the dividers give. -/
def absQuotient (useEarlyOut signed : Bool) (rj rk : UWord) : UWord :=
  if in16Bits useEarlyOut signed rj rk then
    (((absWord signed rj).setWidth 16).smtUDiv ((absWord signed rk).setWidth 16)).setWidth 32
  else (absWord signed rj).smtUDiv (absWord signed rk)

def absRemainder (useEarlyOut signed : Bool) (rj rk : UWord) : UWord :=
  if in16Bits useEarlyOut signed rj rk then
    (((absWord signed rj).setWidth 16) % ((absWord signed rk).setWidth 16)).setWidth 32
  else absWord signed rj % absWord signed rk

theorem toNat_lt_of_high {x : UWord} (h : x.extractLsb' 16 16 = 0) : x.toNat < 2 ^ 16 := by
  have hnat := congrArg BitVec.toNat h
  simp only [BitVec.extractLsb'_toNat, Nat.shiftRight_eq_div_pow] at hnat
  have hlt := x.isLt
  simp at hnat
  omega

theorem in16Bits_lt {useEarlyOut signed : Bool} {rj rk : UWord}
    (h : in16Bits useEarlyOut signed rj rk = true) :
    (absWord signed rj).toNat < 2 ^ 16 ∧ (absWord signed rk).toNat < 2 ^ 16 := by
  simp only [in16Bits, Bool.and_eq_true, beq_iff_eq] at h
  exact ⟨toNat_lt_of_high h.1.2, toNat_lt_of_high h.2⟩

theorem toNat_setWidth_small {x : UWord} (h : x.toNat < 2 ^ 16) :
    (x.setWidth 16).toNat = x.toNat := by
  rw [BitVec.toNat_setWidth, Nat.mod_eq_of_lt h]

/-- The small divider gives the same quotient as the large one. -/
theorem absQuotient_eq (useEarlyOut signed : Bool) (rj : UWord) {rk : UWord} (h : rk ≠ 0) :
    absQuotient useEarlyOut signed rj rk = absWord signed rj / absWord signed rk := by
  have hne : absWord signed rk ≠ 0#32 := fun hzero => h ((absWord_eq_zero signed rk).mp hzero)
  rw [absQuotient]
  split_ifs with hsmall
  · obtain ⟨hj, hk⟩ := in16Bits_lt hsmall
    have hne' : (absWord signed rk).setWidth 16 ≠ 0#16 := by
      intro hzero
      have hnat := congrArg BitVec.toNat hzero
      rw [toNat_setWidth_small hk] at hnat
      exact hne (BitVec.eq_of_toNat_eq hnat)
    rw [BitVec.smtUDiv_eq, if_neg hne']
    apply BitVec.eq_of_toNat_eq
    have hdiv := Nat.div_le_self (absWord signed rj).toNat (absWord signed rk).toNat
    rw [BitVec.toNat_setWidth, BitVec.toNat_udiv, BitVec.toNat_udiv, toNat_setWidth_small hj,
      toNat_setWidth_small hk, Nat.mod_eq_of_lt]
    omega
  · rw [BitVec.smtUDiv_eq, if_neg hne]

theorem absRemainder_eq (useEarlyOut signed : Bool) (rj rk : UWord) :
    absRemainder useEarlyOut signed rj rk = absWord signed rj % absWord signed rk := by
  rw [absRemainder]
  split_ifs with hsmall
  · obtain ⟨hj, hk⟩ := in16Bits_lt hsmall
    apply BitVec.eq_of_toNat_eq
    have hmod := Nat.mod_le (absWord signed rj).toNat (absWord signed rk).toNat
    rw [BitVec.toNat_setWidth, BitVec.toNat_umod, BitVec.toNat_umod, toNat_setWidth_small hj,
      toNat_setWidth_small hk, Nat.mod_eq_of_lt]
    omega
  · rfl

theorem quotient_eq (useEarlyOut : Bool) (uop : MulDivIQMicroOp) (rj rk : UWord) :
    twoComplement (uop.signed && (rj.msb ^^ rk.msb))
      (absQuotient useEarlyOut uop.signed rj rk) =
      if rk = 0 then uop.divideByZero useEarlyOut rj
      else if uop.signed then rj.sdiv rk else rj / rk := by
  by_cases hzero : rk = 0
  · subst hzero
    have habs : absWord uop.signed 0 = 0#32 := (absWord_eq_zero _ _).mpr rfl
    rw [if_pos rfl, MulDivIQMicroOp.divideByZero, absQuotient, habs]
    congr 1
    simp
  · rw [if_neg hzero, absQuotient_eq useEarlyOut uop.signed rj hzero]
    cases uop.signed with
    | false => simp [twoComplement_eq, absWord_eq]
    | true =>
      simp only [if_true, BitVec.sdiv_eq, absWord_eq, twoComplement_eq, Bool.true_and]
      cases rj.msb <;> cases rk.msb <;> simp

theorem remainder_eq (useEarlyOut : Bool) (uop : MulDivIQMicroOp) (rj rk : UWord) :
    twoComplement (uop.signed && rj.msb) (absRemainder useEarlyOut uop.signed rj rk) =
      if uop.signed then rj.srem rk else rj % rk := by
  rw [absRemainder_eq]
  cases uop.signed with
  | false => simp [twoComplement_eq, absWord_eq]
  | true =>
    simp only [if_true, BitVec.srem_eq, absWord_eq, twoComplement_eq, Bool.true_and]
    cases rj.msb <;> cases rk.msb <;> simp

end NopCore
