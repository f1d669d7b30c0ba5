import Mathlib.Tactic.Ring

/-!
# A restoring divider

The divider produces one bit of the quotient in a cycle. A register holds the bits
of the numerator that are left above the bits of the quotient found so far; another
holds the remainder of the bits that have gone. The denominator is not stored: it
must be held outside until the response.

A division by zero ends like any other. Its quotient has all bits set.
-/

/-- The registers of a divider for words of `w` bits. -/
structure UnsignedDivider (w : Nat) where
  done : Bool := true
  waitRsp : Bool := false
  counter : Nat := 0
  numerator : BitVec w := 0
  remainder : BitVec w := 0

namespace UnsignedDivider

variable {w : Nat}

structure Inputs (w : Nat) where
  cmdValid : Bool := false
  numerator : BitVec w := 0
  denominator : BitVec w := 0
  rspReady : Bool := false

variable (d : UnsignedDivider w) (i : Inputs w)

def remainderShifted : BitVec (w + 1) := d.remainder.concat d.numerator.msb

def remainderMinusDenominator : BitVec (w + 1) :=
  d.remainderShifted - i.denominator.setWidth (w + 1)

/-- A command may start. -/
def accepts : Bool := d.done && (!d.waitRsp || i.rspReady)

def step : UnsignedDivider w where
  done := if d.done then !(d.accepts i && i.cmdValid) else d.counter + 1 == w
  waitRsp := (!d.done && d.counter + 1 == w) || (d.waitRsp && !i.rspReady)
  counter := if d.accepts i then 0 else if d.done then d.counter else (d.counter + 1) % w
  numerator :=
    if d.accepts i then i.numerator
    else if d.done then d.numerator
    else (d.numerator.concat !(d.remainderMinusDenominator i).msb).setWidth w
  remainder :=
    if d.accepts i then 0
    else if d.done then d.remainder
    else if (d.remainderMinusDenominator i).msb then d.remainderShifted.setWidth w
    else (d.remainderMinusDenominator i).setWidth w

/-! ## Long division -/

/-- After `k` bits: the high part of the numerator has been divided, the low part is
left. -/
structure Partial (a b : BitVec w) (k : Nat) (numerator remainder : BitVec w) (hi lo q : Nat) :
    Prop where
  split : a.toNat = hi * 2 ^ (w - k) + lo
  lo_lt : lo < 2 ^ (w - k)
  numerator : numerator.toNat = lo * 2 ^ k + q
  q_lt : q < 2 ^ k
  divided : if b = 0#w then q = 2 ^ k - 1 ∧ remainder.toNat = hi
    else hi = q * b.toNat + remainder.toNat ∧ remainder.toNat < b.toNat

variable {d i}

theorem Partial.hi_lt {a b n r : BitVec w} {k hi lo q : Nat} (h : Partial a b k n r hi lo q)
    (hk : k ≤ w) : hi < 2 ^ k := by
  have hlt := a.isLt
  rw [h.split] at hlt
  have hpow : 2 ^ w = 2 ^ k * 2 ^ (w - k) := by rw [← Nat.pow_add, Nat.add_sub_cancel' hk]
  rw [hpow] at hlt
  exact Nat.lt_of_mul_lt_mul_right (Nat.lt_of_le_of_lt (Nat.le_add_right _ _) hlt)

/-- The bit that moves to the remainder is the top bit of what is left. -/
theorem Partial.msb {a b n r : BitVec w} {k hi lo q : Nat} (h : Partial a b k n r hi lo q)
    (hk : k < w) : n.msb = decide (2 ^ (w - k - 1) ≤ lo) := by
  have hpow : 2 ^ (w - 1) = 2 ^ (w - k - 1) * 2 ^ k := by
    rw [← Nat.pow_add]
    congr 1
    omega
  have hq := h.q_lt
  rw [BitVec.msb_eq_decide, h.numerator, hpow]
  congr 1
  rw [eq_iff_iff]
  constructor
  · intro hle
    by_contra hlt
    have hmul : (lo + 1) * 2 ^ k ≤ 2 ^ (w - k - 1) * 2 ^ k := Nat.mul_le_mul_right _ (by omega)
    rw [Nat.add_mul] at hmul
    omega
  · intro hle
    have hmul : 2 ^ (w - k - 1) * 2 ^ k ≤ lo * 2 ^ k := Nat.mul_le_mul_right _ hle
    omega

/-- The trial subtraction is negative exactly if the denominator is larger. -/
theorem sub_setWidth (s : BitVec (w + 1)) (b : BitVec w) (h : s.toNat < b.toNat + 2 ^ w) :
    (s - b.setWidth (w + 1)).msb = decide (s.toNat < b.toNat) ∧
      (b.toNat ≤ s.toNat → ((s - b.setWidth (w + 1)).setWidth w).toNat = s.toNat - b.toNat) := by
  have hb := b.isLt
  have hs := s.isLt
  have hpow : 2 ^ (w + 1) = 2 * 2 ^ w := by ring
  have hwide : (b.setWidth (w + 1)).toNat = b.toNat := by
    rw [BitVec.toNat_setWidth, Nat.mod_eq_of_lt]
    omega
  have hsub : (s - b.setWidth (w + 1)).toNat =
      if s.toNat < b.toNat then 2 ^ (w + 1) + s.toNat - b.toNat else s.toNat - b.toNat := by
    rw [BitVec.toNat_sub, hwide]
    split_ifs with hlt
    · rw [Nat.mod_eq_of_lt] <;> omega
    · rw [show 2 ^ (w + 1) - b.toNat + s.toNat = s.toNat - b.toNat + 2 ^ (w + 1) by omega,
        Nat.add_mod_right, Nat.mod_eq_of_lt]
      omega
  constructor
  · rw [BitVec.msb_eq_decide, hsub]
    congr 1
    rw [Nat.add_sub_cancel, eq_iff_iff]
    split_ifs <;> omega
  · intro hle
    rw [BitVec.toNat_setWidth, hsub, if_neg (by omega), Nat.mod_eq_of_lt]
    omega

/-- The low part loses its top bit to the remainder. -/
theorem Partial.top_bit {a b n r : BitVec w} {k hi lo q : Nat} (h : Partial a b k n r hi lo q)
    (hk : k < w) : ∃ rest, lo = n.msb.toNat * 2 ^ (w - k - 1) + rest ∧
      rest < 2 ^ (w - k - 1) := by
  have hhalf : 2 ^ (w - k) = 2 * 2 ^ (w - k - 1) := by
    rw [← Nat.pow_succ', show w - k = (w - k - 1).succ by omega]
    rfl
  have hlt := h.lo_lt
  have htop := h.msb hk
  by_cases hle : 2 ^ (w - k - 1) ≤ lo
  · exact ⟨lo - 2 ^ (w - k - 1), by simp only [htop, hle]; simp; omega, by omega⟩
  · exact ⟨lo, by simp [htop, hle], by omega⟩

theorem toNat_remainderShifted :
    d.remainderShifted.toNat = 2 * d.remainder.toNat + d.numerator.msb.toNat := by
  rw [remainderShifted, BitVec.toNat_concat]
  ring

theorem Partial.remainderShifted_lt {a : BitVec w} {k hi lo q : Nat}
    (h : Partial a i.denominator k d.numerator d.remainder hi lo q) (hk : k < w) :
    d.remainderShifted.toNat < i.denominator.toNat + 2 ^ w := by
  have hb := i.denominator.isLt
  have hbit := d.numerator.msb.toNat_le
  have hdiv := h.divided
  rw [toNat_remainderShifted]
  split_ifs at hdiv
  · have hhi := h.hi_lt hk.le
    have htwo : 2 ^ k * 2 ≤ 2 ^ w := by
      rw [← Nat.pow_succ]
      exact Nat.pow_le_pow_right (by omega) hk
    omega
  · omega

/-- The numerator register moves up and takes in a bit of the quotient. -/
theorem Partial.shift_numerator {a b n r : BitVec w} {k hi lo q rest : Nat}
    (h : Partial a b k n r hi lo q) (hk : k < w)
    (hlo : lo = n.msb.toNat * 2 ^ (w - k - 1) + rest) (hrest : rest < 2 ^ (w - k - 1)) (s : Bool) :
    ((n.concat s).setWidth w).toNat = rest * 2 ^ (k + 1) + (2 * q + s.toNat) := by
  have hq := h.q_lt
  have hs := s.toNat_le
  have htop : 2 ^ (w - k - 1) * 2 ^ (k + 1) = 2 ^ w := by
    rw [← Nat.pow_add]
    congr 1
    omega
  have hsucc : 2 ^ (k + 1) = 2 * 2 ^ k := by ring
  have hfit : rest * 2 ^ (k + 1) + (2 * q + s.toNat) < 2 ^ w := by
    have hmul : (rest + 1) * 2 ^ (k + 1) ≤ 2 ^ (w - k - 1) * 2 ^ (k + 1) :=
      Nat.mul_le_mul_right _ hrest
    rw [htop, Nat.add_mul] at hmul
    omega
  have hsum : n.toNat * 2 + s.toNat =
      rest * 2 ^ (k + 1) + (2 * q + s.toNat) + 2 ^ w * n.msb.toNat := by
    rw [h.numerator, ← htop, hsucc]
    conv_lhs => rw [hlo]
    ring
  rw [BitVec.toNat_setWidth, BitVec.toNat_concat, hsum, Nat.add_mul_mod_self_left,
    Nat.mod_eq_of_lt hfit]

/-- One bit more of the quotient. -/
theorem Partial.step {a : BitVec w} {k hi lo q : Nat}
    (h : Partial a i.denominator k d.numerator d.remainder hi lo q) (hk : k < w) :
    ∃ hi' lo' q', Partial a i.denominator (k + 1)
      ((d.numerator.concat !(d.remainderMinusDenominator i).msb).setWidth w)
      (if (d.remainderMinusDenominator i).msb then d.remainderShifted.setWidth w
        else (d.remainderMinusDenominator i).setWidth w) hi' lo' q' := by
  obtain ⟨rest, hlo, hrest⟩ := h.top_bit hk
  have hnumerator := h.shift_numerator hk hlo hrest
  have hshift := toNat_remainderShifted (d := d)
  obtain ⟨hneg, hdiff⟩ := sub_setWidth d.remainderShifted i.denominator
    (h.remainderShifted_lt hk)
  rw [← remainderMinusDenominator] at hneg hdiff
  have hsplit : a.toNat = (2 * hi + d.numerator.msb.toNat) * 2 ^ (w - (k + 1)) + rest := by
    have hhalf : 2 ^ (w - k) = 2 * 2 ^ (w - (k + 1)) := by
      rw [← Nat.pow_succ', show w - k = (w - (k + 1)).succ by omega]
    rw [Nat.sub_sub] at hlo
    rw [h.split, hhalf]
    conv_lhs => rw [hlo]
    ring
  have hq := h.q_lt
  have hbit := d.numerator.msb.toNat_le
  have hdiv := h.divided
  have hsucc : 2 ^ (k + 1) = 2 * 2 ^ k := by ring
  by_cases hlt : d.remainderShifted.toNat < i.denominator.toNat
  · refine ⟨_, rest, 2 * q, hsplit, hrest, ?_, by omega, ?_⟩
    · simpa [hneg, hlt] using hnumerator false
    · have hzero : i.denominator ≠ 0#w := by
        rintro hzero
        simp [hzero] at hlt
      have hwide : (d.remainderShifted.setWidth w).toNat = d.remainderShifted.toNat := by
        rw [BitVec.toNat_setWidth, Nat.mod_eq_of_lt (hlt.trans i.denominator.isLt)]
      rw [if_neg hzero] at hdiv
      rw [if_neg hzero, hneg, decide_eq_true hlt, if_pos rfl, hwide]
      refine ⟨?_, hlt⟩
      rw [hshift, hdiv.1]
      ring
  · refine ⟨_, rest, 2 * q + 1, hsplit, hrest, ?_, by omega, ?_⟩
    · simpa [hneg, hlt] using hnumerator true
    · rw [hneg, decide_eq_false hlt, if_neg Bool.false_ne_true, hdiff (not_lt.mp hlt)]
      split_ifs at hdiv ⊢ with hzero
      · rw [hshift, hdiv.2, hdiv.1, hzero]
        simp only [BitVec.toNat_zero, Nat.sub_zero, and_true]
        omega
      · rw [hshift] at hlt ⊢
        refine ⟨?_, by omega⟩
        rw [hdiv.1, Nat.add_mul, Nat.mul_assoc, Nat.mul_add, Nat.one_mul]
        omega

theorem Partial.start (a b : BitVec w) : Partial a b 0 a 0 0 a.toNat 0 where
  split := by simp
  lo_lt := by simpa using a.isLt
  numerator := by simp
  q_lt := by simp
  divided := by
    split_ifs with hzero
    · simp
    · have hne : b.toNat ≠ 0 := fun h => hzero (BitVec.eq_of_toNat_eq (by simpa using h))
      simp
      omega

/-- When all bits have gone, the registers hold quotient and remainder. -/
theorem Partial.finish {a b n r : BitVec w} {hi lo q : Nat} (h : Partial a b w n r hi lo q) :
    n = a.smtUDiv b ∧ r = a % b := by
  have hlo : lo = 0 := by
    have hlt := h.lo_lt
    simpa using hlt
  have hhi : a.toNat = hi := by simpa [hlo] using h.split
  have hn : n.toNat = q := by simpa [hlo] using h.numerator
  have hdiv := h.divided
  rw [BitVec.smtUDiv_eq]
  split_ifs at hdiv ⊢ with hzero
  · refine ⟨BitVec.eq_of_toNat_eq ?_, BitVec.eq_of_toNat_eq ?_⟩
    · rw [hn, hdiv.1]
      simp
    · rw [hdiv.2, ← hhi, hzero]
      simp
  · obtain ⟨heq, hlt⟩ := hdiv
    rw [← hhi] at heq
    have hq : a.toNat / b.toNat = q ∧ a.toNat % b.toNat = r.toNat := by
      rw [Nat.div_mod_unique (by omega)]
      exact ⟨by rw [heq]; ring, hlt⟩
    refine ⟨BitVec.eq_of_toNat_eq ?_, BitVec.eq_of_toNat_eq ?_⟩
    · rw [hn, BitVec.toNat_udiv, hq.1]
    · rw [BitVec.toNat_umod, hq.2]

/-! ## Commands -/

structure Idle (d : UnsignedDivider w) : Prop where
  done : d.done = true
  waitRsp : d.waitRsp = false

/-- The divider `j` cycles after a command: it works for `w` cycles, responds, and is
idle again. -/
def Serves (d : UnsignedDivider w) (a b : BitVec w) (j : Nat) : Prop :=
  if j = 0 ∨ w + 1 < j then d.Idle
  else if j = w + 1 then
    d.done = true ∧ d.waitRsp = true ∧ d.numerator = a.smtUDiv b ∧ d.remainder = a % b
  else d.done = false ∧ d.waitRsp = false ∧ d.counter + 1 = j ∧
    ∃ hi lo q, Partial a b (j - 1) d.numerator d.remainder hi lo q

theorem Idle.step (h : d.Idle) (hcmd : i.cmdValid = false) : (d.step i).Idle := by
  constructor <;> simp [UnsignedDivider.step, accepts, h.done, h.waitRsp, hcmd]

theorem Serves.start {a b : BitVec w} (h : d.Idle) : d.Serves a b 0 := by
  rw [Serves, if_pos (.inl rfl)]
  exact h

theorem Serves.idle {a b : BitVec w} {j : Nat} (h : d.Serves a b j) (hj : j = 0 ∨ w + 1 < j) :
    d.Idle := by
  rw [Serves, if_pos hj] at h
  exact h

/-- The divider responds in one cycle. -/
theorem Serves.rsp {a b : BitVec w} {j : Nat} (h : d.Serves a b j) :
    d.waitRsp = true ↔ j = w + 1 := by
  rw [Serves] at h
  split_ifs at h with hidle hrsp
  · simp only [h.waitRsp, Bool.false_eq_true, false_iff]
    omega
  · simp [h.2.1, hrsp]
  · simp [h.2.1, hrsp]

theorem Serves.result {a b : BitVec w} (h : d.Serves a b (w + 1)) :
    d.numerator = a.smtUDiv b ∧ d.remainder = a % b := by
  rw [Serves, if_neg (by omega), if_pos rfl] at h
  exact h.2.2

/-- One cycle. The command is given at first, and responses are always taken. -/
theorem Serves.step {a : BitVec w} {j : Nat} (h : d.Serves a i.denominator j) (hw : 0 < w)
    (hcmd : i.cmdValid = decide (j = 0)) (hnum : j = 0 → i.numerator = a)
    (hready : i.rspReady = true) : (d.step i).Serves a i.denominator (j + 1) := by
  rw [Serves] at h
  split_ifs at h with hidle hrsp
  · by_cases hj : j = 0
    · -- the command starts the division
      subst hj
      rw [Serves, if_neg (by omega), if_neg (by omega)]
      refine ⟨?_, ?_, ?_, 0, a.toNat, 0, ?_⟩
      · simp [UnsignedDivider.step, accepts, h.done, h.waitRsp, hcmd]
      · simp [UnsignedDivider.step, h.done, h.waitRsp]
      · simp [UnsignedDivider.step, accepts, h.done, h.waitRsp]
      · simpa [UnsignedDivider.step, accepts, h.done, h.waitRsp, hnum rfl] using
          Partial.start a i.denominator
    · rw [Serves, if_pos (by omega)]
      exact h.step (by simpa [hj] using hcmd)
  · have hj : i.cmdValid = false := by simpa [hrsp] using hcmd
    rw [Serves, if_pos (by omega)]
    constructor <;> simp [UnsignedDivider.step, accepts, h.1, hready, hj]
  · obtain ⟨hdone, hwait, hcounter, hi, lo, q, hpartial⟩ := h
    have hlt : j ≤ w := by omega
    obtain ⟨hi', lo', q', hnext⟩ := hpartial.step (by omega)
    rw [show j - 1 + 1 = j by omega] at hnext
    have hbusy : d.accepts i = false := by simp [accepts, hdone]
    rw [Serves, if_neg (by omega)]
    split_ifs with hlast
    · -- the last bit
      obtain rfl : j = w := by omega
      refine ⟨?_, ?_, ?_⟩
      · simp [UnsignedDivider.step, hdone, hcounter]
      · simp [UnsignedDivider.step, hdone, hcounter]
      · simpa [UnsignedDivider.step, hbusy, hdone] using hnext.finish
    · refine ⟨?_, ?_, ?_, hi', lo', q', ?_⟩
      · simp only [UnsignedDivider.step, hdone, hcounter]
        simpa using (show j ≠ w by omega)
      · simp only [UnsignedDivider.step, hdone, hcounter, hwait]
        simpa using (show j ≠ w by omega)
      · simp only [UnsignedDivider.step, hbusy, hdone, hcounter]
        simp [Nat.mod_eq_of_lt (show j < w by omega)]
      · simpa [UnsignedDivider.step, hbusy, hdone] using hnext

end UnsignedDivider
