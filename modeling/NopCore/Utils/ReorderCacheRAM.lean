import NopCore.Lib.Compressed
import NopCore.Lib.Ring
import Mathlib.Data.Nat.Log

/-!
# A memory in banks

A memory whose words are spread over banks, a word and its neighbour in neighbouring
banks. Any run of words that is no longer than there are banks can be read, and another
one written, in a cycle: each bank is used once, the ones in front of the first word of
the run one row further on. The words read are loaded into a register; a word written in
the same cycle is read as it is written.
-/

namespace NopCore

structure ReorderCacheRAMOutReg (α : Type*) where
  mem : Nat → Nat → α
  rsp : Nat → α

namespace ReorderCacheRAMOutReg

variable {α : Type*}

/-- Enough banks for every port, as a power of two. -/
def bankCount (rPortCount wPortCount : Nat) : Nat := 2 ^ Nat.clog 2 (max rPortCount wPortCount)

section Banks

variable (banks words wPortCount : Nat) (ram : ReorderCacheRAMOutReg α)

/-- The row in which bank `idx` is used by a run of words from `address` on. -/
def bankAddress (address idx : Nat) : Nat :=
  (address / banks + if idx < address % banks then 1 else 0) % words

/-- The write port that is connected to bank `idx`. -/
def writePort (address idx : Nat) : Option Nat :=
  (List.range wPortCount).reverse.find? fun i => address % banks == (idx + banks - i) % banks

/-- What is written to bank `idx`, if anything. -/
def bankWrite (valid : Bool) (address : Nat) (data : Nat → Option α) (idx : Nat) : Option α :=
  if valid then (writePort banks wPortCount address idx).bind data else none

/-- A cycle: write the words of the ports whose mask is set, and read a run of words. -/
def step (valid : Bool) (address : Nat) (data : Nat → Option α) (readAddress : Nat) :
    ReorderCacheRAMOutReg α where
  mem idx row :=
    if row = bankAddress banks words address idx then
      (bankWrite banks wPortCount valid address data idx).getD (ram.mem idx row)
    else ram.mem idx row
  rsp j :=
    let idx := (readAddress % banks + j) % banks
    let row := bankAddress banks words readAddress idx
    if (bankWrite banks wPortCount valid address data idx).isSome &&
        bankAddress banks words address idx == row then
      (bankWrite banks wPortCount valid address data idx).getD (ram.mem idx row)
    else ram.mem idx row

/-- The memory as one run of words. -/
def word (n : Nat) : α := ram.mem (n % banks) (n / banks)

end Banks

variable {banks words wPortCount : Nat} {ram : ReorderCacheRAMOutReg α}

theorem ports_le_bankCount (rPortCount wPortCount : Nat) :
    rPortCount ≤ bankCount rPortCount wPortCount ∧
      wPortCount ≤ bankCount rPortCount wPortCount := by
  have hmax := Nat.le_pow_clog (b := 2) (by decide) (max rPortCount wPortCount)
  exact ⟨(Nat.le_max_left _ _).trans hmax, (Nat.le_max_right _ _).trans hmax⟩

/-- Ports that do not outnumber the words of a memory leave room for the banks. -/
theorem bankCount_dvd {rPortCount wPortCount n : Nat} (hr : rPortCount ≤ 2 ^ n)
    (hw : wPortCount ≤ 2 ^ n) : bankCount rPortCount wPortCount ∣ 2 ^ n := by
  apply Nat.pow_dvd_pow
  exact (Nat.clog_le_iff_le_pow (by decide)).mpr (Nat.max_le.mpr ⟨hr, hw⟩)

/-- Word `j` of a run is in row and bank as computed. -/
theorem slot_eq (words base : Nat) {j : Nat} (hbanks : 0 < banks) (hj : j < banks) :
    Ring.slot (banks * words) base j % banks = (base % banks + j) % banks ∧
      Ring.slot (banks * words) base j / banks =
        bankAddress banks words base ((base % banks + j) % banks) := by
  have hcarry : (base + j) / banks =
      base / banks + if (base % banks + j) % banks < base % banks then 1 else 0 := by
    have hoff := Nat.mod_lt base hbanks
    have hbase := Nat.div_add_mod base banks
    by_cases hover : base % banks + j < banks
    · rw [Nat.mod_eq_of_lt hover, if_neg (by omega)]
      have hsum : base + j = (base % banks + j) + banks * (base / banks) := by omega
      rw [hsum, Nat.add_mul_div_left _ _ hbanks, Nat.div_eq_of_lt hover]
      omega
    · have hwrap : (base % banks + j) % banks = base % banks + j - banks := by
        rw [Nat.mod_eq_sub_mod (by omega), Nat.mod_eq_of_lt (by omega)]
      rw [hwrap, if_pos (by omega)]
      have hsum : base + j = (base % banks + j - banks) + banks * (base / banks + 1) := by
        rw [Nat.mul_add, Nat.mul_one]
        omega
      rw [hsum, Nat.add_mul_div_left _ _ hbanks, Nat.div_eq_of_lt (by omega)]
      omega
  constructor
  · rw [Ring.slot, Nat.mod_mul_right_mod, Nat.mod_add_mod]
  · rw [Ring.slot, Nat.mod_mul_right_div_self, hcarry, bankAddress]

/-- Each bank has the port whose word it holds, if there is one. -/
theorem writePort_slot {base j : Nat} (hj : j < banks) (hports : wPortCount ≤ banks) :
    writePort banks wPortCount base ((base % banks + j) % banks) =
      if j < wPortCount then some j else none := by
  have hbanks : 0 < banks := by omega
  have hoff := Nat.mod_lt base hbanks
  have hconnects : ∀ i < banks, (base % banks == ((base % banks + j) % banks + banks - i) % banks)
      = decide (i = j) := by
    intro i hi
    rw [Bool.eq_iff_iff, beq_iff_eq, decide_eq_true_eq]
    change base % banks = Ring.offset banks i (Ring.slot banks (base % banks) j) ↔ i = j
    have hcomm : Ring.slot banks i (base % banks) = Ring.slot banks (base % banks) i := by
      rw [Ring.slot, Ring.slot, Nat.add_comm]
    constructor
    · intro heq
      have hslot := Ring.slot_offset hi (Ring.slot_lt hbanks (base % banks) j)
      rw [← heq, hcomm] at hslot
      exact Ring.slot_inj hi hj hslot
    · rintro rfl
      rw [← hcomm, Ring.offset_slot hi hoff]
  split_ifs with hport
  · refine Compressed.find?_reverse (List.mem_range.mpr hport) ?_ List.pairwise_lt_range ?_
    · rw [hconnects j hj, decide_eq_true rfl]
    · intro i hi hlt
      have hrange := List.mem_range.mp hi
      rw [hconnects i (by omega), decide_eq_false (by omega)]
  · apply Compressed.find?_reverse_eq_none
    intro i hi
    have hrange := List.mem_range.mp hi
    rw [hconnects i (by omega), decide_eq_false (by omega)]

/-- What the banks hold when each one is written in its row of a run, if at all. -/
def store (banks words : Nat) (mem : Nat → Nat → α) (address : Nat) (w : Nat → Option α)
    (idx row : Nat) : α :=
  if row = bankAddress banks words address idx then (w idx).getD (mem idx row) else mem idx row

/-- A word is written by what its bank gets, if it has a place in the run. -/
theorem store_word (mem : Nat → Nat → α) {n address : Nat} {w d : Nat → Option α}
    (hbanks : 0 < banks) (haddress : address < banks * words) (hn : n < banks * words)
    (hw : ∀ j < banks, w ((address % banks + j) % banks) = d j)
    (hd : ∀ j, banks ≤ j → d j = none) :
    store banks words mem address w (n % banks) (n / banks) =
      (d (Ring.offset (banks * words) address n)).getD (mem (n % banks) (n / banks)) := by
  have hslot := Ring.slot_offset haddress hn
  rw [store]
  by_cases hnear : Ring.offset (banks * words) address n < banks
  · obtain ⟨hbank, hrow⟩ := slot_eq words address hbanks hnear
    rw [hslot] at hbank hrow
    rw [← hw _ hnear, hbank, ← hrow, if_pos rfl]
  · -- the place of this word in the run is behind all banks
    have hother : ¬n / banks = bankAddress banks words address (n % banks) := by
      intro hsame
      have hoff := Nat.mod_lt address hbanks
      have hmod := Nat.mod_lt n hbanks
      have hnearer := Ring.offset_lt hbanks (address % banks) (n % banks)
      obtain ⟨hbank, hrow⟩ := slot_eq words address hbanks hnearer
      have hback : (address % banks + Ring.offset banks (address % banks) (n % banks)) % banks =
          n % banks := Ring.slot_offset hoff hmod
      rw [hback] at hbank hrow
      have heq : Ring.slot (banks * words) address
          (Ring.offset banks (address % banks) (n % banks)) = n := by
        rw [← Nat.div_add_mod (Ring.slot _ _ _) banks, hbank, hrow, ← hsame, Nat.div_add_mod]
      have hle : banks ≤ banks * words := Nat.le_mul_of_pos_right _ (by
        apply Nat.pos_of_ne_zero
        rintro rfl
        omega)
      have hplaces := Ring.slot_inj (by omega) (Ring.offset_lt (by omega) _ _)
        (heq.trans hslot.symm)
      omega
    rw [if_neg hother, hd _ (Nat.le_of_not_lt hnear)]
    rfl

section Step

variable {valid : Bool} {address readAddress : Nat} {data : Nat → Option α}

theorem bankWrite_slot {j : Nat} (hj : j < banks) (hports : wPortCount ≤ banks)
    (hdata : ∀ i, wPortCount ≤ i → data i = none) :
    bankWrite banks wPortCount valid address data ((address % banks + j) % banks) =
      if valid then data j else none := by
  rw [bankWrite, writePort_slot hj hports]
  refine if_congr Iff.rfl ?_ rfl
  split_ifs with hport
  · rfl
  · exact (hdata j (Nat.le_of_not_lt hport)).symm

/-- A word is written by the port that has its place in the run. -/
theorem word_step {n : Nat} (hbanks : 0 < banks) (haddress : address < banks * words)
    (hn : n < banks * words) (hports : wPortCount ≤ banks)
    (hdata : ∀ i, wPortCount ≤ i → data i = none) :
    (ram.step banks words wPortCount valid address data readAddress).word banks n =
      (if valid then data (Ring.offset (banks * words) address n) else none).getD
        (ram.word banks n) := by
  have hport := store_word ram.mem hbanks haddress hn
    (d := fun j => if valid then data j else none)
    (fun j hj => bankWrite_slot hj hports hdata) (fun j hj => by
      rw [hdata j (hports.trans hj), ite_self])
  exact hport

/-- What is read is what the words hold after the write. -/
theorem rsp_step {j : Nat} (hj : j < banks) :
    (ram.step banks words wPortCount valid address data readAddress).rsp j =
      (ram.step banks words wPortCount valid address data readAddress).word banks
        (Ring.slot (banks * words) readAddress j) := by
  obtain ⟨hbank, hrow⟩ := slot_eq words readAddress (by omega) hj
  rw [word, hbank, hrow, step]
  dsimp only
  cases hwrite : bankWrite banks wPortCount valid address data
      ((readAddress % banks + j) % banks) with
  | none => simp
  | some x =>
    simp only [Option.isSome_some, Bool.true_and, beq_iff_eq]
    exact if_congr eq_comm rfl rfl

end Step

end ReorderCacheRAMOutReg

end NopCore
