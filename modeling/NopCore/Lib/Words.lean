import Mathlib.Data.Int.Basic
import Mathlib.Tactic.NormNum

/-!
# Words and integers

A word stands for an integer, signed or not, and an operation on words is that operation on
the integers, reduced to the width.
-/

namespace Words

variable {w : Nat} (a b : BitVec w)

theorem sub_eq_ofInt : a - b = BitVec.ofInt w (a.toInt - b.toInt) := by
  rw [Int.sub_eq_add_neg, BitVec.ofInt_add, BitVec.ofInt_neg, BitVec.ofInt_toInt,
    BitVec.ofInt_toInt, BitVec.sub_eq_add_neg]

theorem shiftLeft_eq_ofNat (n : Nat) : a <<< n = BitVec.ofNat w (a.toNat * 2 ^ n) := by
  apply BitVec.eq_of_toNat_eq
  rw [BitVec.toNat_shiftLeft, BitVec.toNat_ofNat, Nat.shiftLeft_eq]

theorem ushiftRight_eq_ofNat (n : Nat) : a >>> n = BitVec.ofNat w (a.toNat / 2 ^ n) := by
  apply BitVec.eq_of_toNat_eq
  have hlt : a.toNat / 2 ^ n < 2 ^ w := Nat.lt_of_le_of_lt (Nat.div_le_self _ _) a.isLt
  rw [BitVec.toNat_ushiftRight, BitVec.toNat_ofNat, Nat.shiftRight_eq_div_pow,
    Nat.mod_eq_of_lt hlt]

theorem sshiftRight_eq_ofInt (n : Nat) :
    a.sshiftRight n = BitVec.ofInt w (a.toInt / 2 ^ n) := by
  rw [BitVec.sshiftRight, Int.shiftRight_eq_div_pow]
  norm_cast

/-- Zeros behind a word multiply it. -/
theorem append_zero_signExtend (v k : Nat) :
    (a ++ 0#k).signExtend v = BitVec.ofInt v (a.toInt * 2 ^ k) := by
  rw [BitVec.signExtend, BitVec.toInt_append_zero, Int.mul_comm]

theorem append_zero_eq_ofInt (k : Nat) :
    a ++ 0#k = BitVec.ofInt (w + k) (a.toInt * 2 ^ k) := by
  rw [← append_zero_signExtend, BitVec.signExtend_eq]

theorem add_ofInt (n : Int) : a + BitVec.ofInt w n = BitVec.ofInt w (a.toInt + n) := by
  rw [BitVec.ofInt_add, BitVec.ofInt_toInt]

theorem setWidth_eq_ofNat (v : Nat) : a.setWidth v = BitVec.ofNat v a.toNat := by
  apply BitVec.eq_of_toNat_eq
  rw [BitVec.toNat_setWidth, BitVec.toNat_ofNat]

theorem toNat_append {k : Nat} (b : BitVec k) :
    (a ++ b).toNat = a.toNat * 2 ^ k + b.toNat := by
  rw [BitVec.toNat_append, ← Nat.shiftLeft_add_eq_or_of_lt b.isLt, Nat.shiftLeft_eq]

theorem append_eq_ofNat {k : Nat} (b : BitVec k) :
    a ++ b = BitVec.ofNat (w + k) (a.toNat * 2 ^ k + b.toNat) := by
  rw [← toNat_append, BitVec.ofNat_toNat, BitVec.setWidth_eq]

/-- A comparison as a word. -/
theorem setWidth_ofBool (v : Nat) (p : Prop) [Decidable p] :
    (BitVec.ofBool (decide p)).setWidth v = if p then 1#v else 0#v := by
  apply BitVec.eq_of_toNat_eq
  by_cases h : p
  · simp [h]
  · simp [h]

/-- A word in front of which its sign is repeated, or zeros. -/
theorem extend_eq_append {v : Nat} (signed : Bool) (h : w ≤ v) :
    (if signed then a.signExtend v else a.setWidth v) =
      ((if signed && a.msb then BitVec.allOnes (v - w) else 0#(v - w)) ++ a).cast (by omega) := by
  cases signed with
  | true => exact BitVec.signExtend_eq_append_of_le h
  | false => exact BitVec.setWidth_eq_append h

end Words
