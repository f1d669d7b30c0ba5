import NopCore.Boot.ElfLoader

/-!
# The window check of the ELF loader

A segment that is handled without a warning should be stored within the memory of the board.
The check adds the size in memory to the destination, and the sum is a word. The bytes that
are stored are as many as the larger one of the sizes in memory and in the file.

So the check does what it is for unless the copied bytes go on past the end of the window
where those in memory do not, or the sum wraps to an address that is not above the window.
-/

namespace NopCore

namespace Boot

namespace Elf

open ByteMemory Text

/-- The machine in front of a segment that the loader handles, and behind it. -/
def Handles (s : Machine) (img : U32) (h : ProgramHeader) (before after : Machine) : Prop :=
  let start := checkMachine s img
  let e := elfHeader start.mem img
  Accepted s.mem img ∧ ∃ i < e.phnum.toNat,
    before = loop img e start i ∧ after = loop img e start (i + 1) ∧
      h = programHeader before.mem (e.ph img i) ∧ h.IsLoad

/-- A warning is among what has been printed in between. -/
def PrintsWarning (before after : Machine) : Prop :=
  ∃ front rest, after.uart = before.uart ++ front ++ warning ++ rest

/-- The addresses that have been stored to in between. -/
def storedBy (before after : Machine) : List U32 := after.stored.drop before.stored.length

def InWindow (a : U32) : Prop := ddrBase ≤ a ∧ a < ddrEnd

instance (a : U32) : Decidable (InWindow a) := inferInstanceAs (Decidable (_ ∧ _))

/-- The destination is below the window, or neither does the file reach past the end of the
window where the memory does not, nor does the end wrap to an address below it. -/
def ProgramHeader.Guarded (h : ProgramHeader) : Prop :=
  h.dst < ddrBase ∨
    (h.dst.toNat + h.memsz.toNat ≤ ddrEnd.toNat → h.dst.toNat + h.filesz.toNat ≤ ddrEnd.toNat) ∧
      (2 ^ 32 ≤ h.dst.toNat + h.memsz.toNat →
        2 ^ 32 + ddrEnd.toNat < h.dst.toNat + h.memsz.toNat)

variable {s before after : Machine} {img : U32} {h : ProgramHeader}

theorem Handles.after_eq (hrun : Handles s img h before after) :
    after = loadSegment before img h := by
  obtain ⟨_, i, _, hbefore, hafter, hhead, hload⟩ := hrun
  rw [hafter, loop_succ, ← hbefore, handle, ← hhead, if_pos hload]

theorem storedBy_loadSegment : storedBy before (loadSegment before img h) = segmentAddresses h := by
  rw [storedBy, loadSegment_eq, List.drop_left]

/-! ## What is printed -/

theorem hexDigit_ne (nib : U32) : Machine.hexDigit (nib &&& 0xf) ≠ 0x57 := by
  have hdigits : ∀ n < 16, Machine.hexDigit (BitVec.ofNat 32 n) ≠ 0x57 := by decide
  have hlt : (nib &&& 0xf).toNat < 16 := by
    rw [BitVec.toNat_and]
    exact Nat.lt_of_le_of_lt Nat.and_le_right (by decide)
  have hnib := hdigits _ hlt
  rw [BitVec.ofNat_toNat, BitVec.setWidth_eq] at hnib
  exact hnib

theorem not_mem_hexText (v : U32) : (0x57 : U8) ∉ Machine.hexText v := by
  rw [Machine.hexText, List.mem_append, not_or]
  refine ⟨by decide, ?_⟩
  rw [List.mem_map]
  rintro ⟨i, _, hi⟩
  exact hexDigit_ne _ hi

/-- The initial of the warning is in no announcement. -/
theorem not_mem_announced (h : ProgramHeader) : (0x57 : U8) ∉ announced h := by
  have hsent : ∀ c : U8, (0x57 : U8) ∈ Machine.transmitted c → c = 0x57 := by decide
  rw [announced, List.mem_flatMap]
  rintro ⟨c, hc, hmem⟩
  obtain rfl := hsent c hmem
  simp only [List.mem_append] at hc
  have hdst := not_mem_hexText h.dst
  have hfilesz := not_mem_hexText h.filesz
  have hmemsz := not_mem_hexText h.memsz
  have htexts : (0x57 : U8) ∉ ascii [' ', ' ', 'L', 'O', 'A', 'D', ' '] ∧
      (0x57 : U8) ∉ ascii [' ', 'f', 'i', 'l', 'e', 's', 'z', '='] ∧
      (0x57 : U8) ∉ ascii [' ', 'm', 'e', 'm', 's', 'z', '='] ∧ (0x57 : U8) ∉ ascii ['\n'] := by
    decide
  tauto

theorem printsWarning_loadSegment :
    PrintsWarning before (loadSegment before img h) ↔ h.warns = true := by
  rw [PrintsWarning, loadSegment_eq]
  constructor
  · rintro ⟨front, rest, huart⟩
    by_contra hwarns
    rw [if_neg hwarns, List.append_nil, List.append_assoc, List.append_assoc,
      List.append_cancel_left_eq] at huart
    apply not_mem_announced h
    have hinitial : (0x57 : U8) ∈ warning := by decide
    rw [huart, List.mem_append, List.mem_append]
    exact .inr (.inl hinitial)
  · intro hwarns
    refine ⟨announced h, [], ?_⟩
    rw [if_pos hwarns, List.append_nil, List.append_assoc]

/-! ## What is checked -/

/-- A wrapped sum stands for a smaller number. -/
theorem toNat_end (h : ProgramHeader) :
    (h.dst + h.memsz).toNat =
      if h.dst.toNat + h.memsz.toNat < 2 ^ 32 then h.dst.toNat + h.memsz.toNat
      else h.dst.toNat + h.memsz.toNat - 2 ^ 32 := by
  have hdst := h.dst.isLt
  have hmemsz := h.memsz.isLt
  rw [BitVec.toNat_add]
  split_ifs with hwrap
  · exact Nat.mod_eq_of_lt hwrap
  · rw [Nat.mod_eq_sub_mod (not_lt.mp hwrap), Nat.mod_eq_of_lt (by omega)]

theorem not_warns_iff (h : ProgramHeader) :
    h.warns = false ↔ ddrBase ≤ h.dst ∧ (h.dst + h.memsz).toNat ≤ ddrEnd.toNat := by
  rw [ProgramHeader.warns, Bool.or_eq_false_iff, decide_eq_false_iff_not,
    decide_eq_false_iff_not, BitVec.not_lt, BitVec.not_lt, BitVec.le_def (x := h.dst + h.memsz)]

/-- Bytes that begin behind the beginning of the window are all in it if and only if their end
is. -/
theorem forall_inWindow_iff {dst : U32} {n : Nat} (hdst : ddrBase ≤ dst) (hn : n ≤ 2 ^ 32) :
    (∀ a : U32, (a - dst).toNat < n → InWindow a) ↔ n = 0 ∨ dst.toNat + n ≤ ddrEnd.toNat := by
  have hend : ddrEnd.toNat = 0x1D000000 := rfl
  have hdst' := BitVec.le_def.mp hdst
  have haddr (k : Nat) (hk : dst.toNat + k < 2 ^ 32) :
      (dst + BitVec.ofNat 32 k).toNat = dst.toNat + k := by
    rw [BitVec.toNat_add, BitVec.toNat_ofNat, Nat.add_mod_mod, Nat.mod_eq_of_lt hk]
  constructor
  · intro hall
    by_contra hout
    rw [not_or, not_le] at hout
    -- the first byte that is not below the end of the window
    have hlt : dst.toNat + (ddrEnd.toNat - dst.toNat) < 2 ^ 32 := by
      have hisLt := dst.isLt
      omega
    have hin := hall (dst + BitVec.ofNat 32 (ddrEnd.toNat - dst.toNat)) (by
      rw [add_sub_cancel_left, BitVec.toNat_ofNat, Nat.mod_eq_of_lt (by omega)]
      omega)
    have hbelow := BitVec.lt_def.mp hin.2
    rw [haddr _ hlt] at hbelow
    omega
  · rintro hbound a ha
    have hle : dst.toNat + n ≤ ddrEnd.toNat := by omega
    have hself : a = dst + BitVec.ofNat 32 (a - dst).toNat := by
      rw [BitVec.ofNat_toNat, BitVec.setWidth_eq]
      ring
    have hnum : a.toNat = dst.toNat + (a - dst).toNat := by
      conv_lhs => rw [hself]
      exact haddr _ (by omega)
    rw [InWindow, BitVec.le_def, BitVec.lt_def]
    omega

/-- A segment that is handled without a warning is stored within the window if and only if the
check covers what is stored. -/
theorem windowCheck_iff (hrun : Handles s img h before after) :
    (¬PrintsWarning before after → ∀ a ∈ storedBy before after, InWindow a) ↔ h.Guarded := by
  rw [hrun.after_eq, printsWarning_loadSegment, storedBy_loadSegment, Bool.not_eq_true,
    not_warns_iff]
  simp only [mem_segmentAddresses]
  have hmax : max h.filesz.toNat h.memsz.toNat ≤ 2 ^ 32 := by omega
  have hend : ddrEnd.toNat = 0x1D000000 := rfl
  have hsum := toNat_end h
  have hmemsz := h.memsz.isLt
  rw [ProgramHeader.Guarded]
  constructor
  · intro hsound
    by_cases hbase : h.dst < ddrBase
    · exact .inl hbase
    · refine .inr ⟨fun hfit => ?_, fun hwrap => ?_⟩
      · rw [if_pos (by omega)] at hsum
        have hin := (forall_inWindow_iff (BitVec.not_lt.mp hbase) hmax).mp
          (hsound ⟨BitVec.not_lt.mp hbase, by omega⟩)
        omega
      · by_contra hlow
        rw [if_neg (by omega)] at hsum
        have hin := (forall_inWindow_iff (BitVec.not_lt.mp hbase) hmax).mp
          (hsound ⟨BitVec.not_lt.mp hbase, by omega⟩)
        have hdst := h.dst.isLt
        omega
  · rintro hguard ⟨hbase, hfit⟩
    rcases hguard with hbelow | ⟨hfile, hwrap⟩
    · exact absurd hbase (BitVec.not_le.mpr hbelow)
    · rw [forall_inWindow_iff hbase hmax]
      split_ifs at hsum
      · have hcopied := hfile (by omega)
        omega
      · have hhigh := hwrap (by omega)
        omega

/-- The first header of an image for this machine is handled in the memory that holds the
image. -/
theorem handles_first (haccepted : Accepted s.mem img)
    (hmachine : s.mem.rd16 (img + 18) = emLoongArch)
    (hnum : 0 < (elfHeader s.mem img).phnum.toNat)
    (hhead : programHeader s.mem ((elfHeader s.mem img).ph img 0) = h) (hload : h.IsLoad) :
    Handles s img h s (loadSegment s img h) := by
  have hstart : checkMachine s img = s := if_neg (not_not.mpr hmachine)
  rw [Handles, hstart]
  refine ⟨haccepted, 0, hnum, rfl, ?_, hhead.symm, hload⟩
  rw [loop_succ, handle]
  change _ = if (programHeader s.mem _).IsLoad then loadSegment s img (programHeader s.mem _) else s
  rw [hhead, if_pos hload]

/-- A segment of one byte in memory and of two in the file, at the last byte of the window. -/
def overrun : ProgramHeader := ⟨1, 84, 0x1CFFFFFF, 0x1CFFFFFF, 2, 1⟩

def overrunMachine : Machine := loaded 0x1C400000 0x1CFFFFFF [overrun] [0x11, 0x22]

/-- The second one of two bytes from the last byte of the window is stored without a warning. -/
theorem windowCheck_overrun :
    ∃ after, Handles overrunMachine 0x1C400000 overrun overrunMachine after ∧
      ¬PrintsWarning overrunMachine after ∧
      ¬∀ a ∈ storedBy overrunMachine after, InWindow a := by
  refine ⟨loadSegment overrunMachine 0x1C400000 overrun, ?_, ?_, ?_⟩
  · apply handles_first
    all_goals decide +kernel
  · rw [printsWarning_loadSegment]
    decide
  · rw [storedBy_loadSegment]
    intro hall
    exact absurd (hall 0x1D000000 (by decide)) (by decide)

/-- A segment with bytes to clear, within the window. -/
def inside : ProgramHeader := ⟨1, 84, 0x9C000100, 0x9C000100, 2, 4⟩

def insideMachine : Machine := loaded 0x1C400000 0x9C000100 [inside] [0x11, 0x22]

theorem windowCheck_inside :
    Handles insideMachine 0x1C400000 inside insideMachine
        (loadSegment insideMachine 0x1C400000 inside) ∧
      ((¬PrintsWarning insideMachine (loadSegment insideMachine 0x1C400000 inside) →
          ∀ a ∈ storedBy insideMachine (loadSegment insideMachine 0x1C400000 inside),
            InWindow a) ↔
        inside.Guarded) := by
  have hrun : Handles insideMachine 0x1C400000 inside insideMachine
      (loadSegment insideMachine 0x1C400000 inside) := by
    apply handles_first
    all_goals decide +kernel
  exact ⟨hrun, windowCheck_iff hrun⟩

end Elf

end Boot

end NopCore
