import NopCore.Boot.ElfLoader

/-!
# Loading an image

The copied bytes, the headers and the destinations share one memory. An image can be loaded if
no segment is stored over what the loader has still to read: the rest of the segment's own
bytes, and the headers and the bytes of the segments behind it. Then every segment is found
at its destination, with the bytes of the file and zeros behind them, and everything else is
as it was.

Ranges of addresses may go on from the first address behind the last one. Nothing depends on
it.
-/

namespace NopCore

namespace Boot

namespace Elf

open ByteMemory

/-- A program header of an image, as it is in memory. -/
def header (m : Memory) (img : U32) (i : Nat) : ProgramHeader :=
  programHeader m ((elfHeader m img).ph img i)

/-- Where a segment is to be. -/
def ProgramHeader.range (h : ProgramHeader) : List U32 := addresses h.dst h.memsz.toNat

/-- Where the bytes of a segment are in the image. -/
def ProgramHeader.source (h : ProgramHeader) (img : U32) : List U32 :=
  addresses (img + h.off) h.filesz.toNat

/-- What is read for a program header: its type, and for a segment to be loaded its fields and
its bytes. -/
def readFor (m : Memory) (img : U32) (i : Nat) : List U32 :=
  let ph := (elfHeader m img).ph img i
  if (header m img i).IsLoad then addresses ph 24 ++ (header m img i).source img
  else addresses ph 4

/-- No address is in both. -/
def Apart (xs ys : List U32) : Prop := ∀ a ∈ xs, a ∉ ys

instance (xs ys : List U32) : Decidable (Apart xs ys) := List.decidableBAll _ xs

/-- The segments of an image are apart, and none is stored over what is still to be read. -/
structure Loadable (m : Memory) (img : U32) : Prop where
  size : ∀ i < (elfHeader m img).phnum.toNat, (header m img i).IsLoad →
    (header m img i).filesz ≤ (header m img i).memsz
  own : ∀ i < (elfHeader m img).phnum.toNat, (header m img i).IsLoad →
    ∀ j < (header m img i).filesz.toNat, ∀ k < j, (header m img i).dst + BitVec.ofNat 32 k ≠
      img + (header m img i).off + BitVec.ofNat 32 j
  apart : ∀ j < (elfHeader m img).phnum.toNat, (header m img j).IsLoad → ∀ i < j,
    (header m img i).IsLoad → Apart (header m img i).range (header m img j).range
  ahead : ∀ j < (elfHeader m img).phnum.toNat, ∀ i < j,
    (header m img i).IsLoad → Apart (header m img i).range (readFor m img j)

/-- The byte of a segment at an address of its range. -/
def ProgramHeader.byte (h : ProgramHeader) (m : Memory) (img : U32) (a : U32) : U8 :=
  if (a - h.dst).toNat < h.filesz.toNat then m (img + h.off + (a - h.dst)) else 0

/-- The memory in which the first `n` segments have been placed. -/
structure Placed (m : Memory) (img : U32) (n : Nat) (m' : Memory) : Prop where
  segment : ∀ i < n, (header m img i).IsLoad → ∀ a ∈ (header m img i).range,
    m' a = (header m img i).byte m img a
  rest : ∀ a, (∀ i < n, (header m img i).IsLoad → a ∉ (header m img i).range) → m' a = m a

variable {m m' : Memory} {img : U32} {h : ProgramHeader} {i n : Nat}

/-! ## One segment -/

theorem ProgramHeader.mem_range (a : U32) : a ∈ h.range ↔ (a - h.dst).toNat < h.memsz.toNat :=
  mem_addresses h.memsz.isLt.le

/-- The distance to the end of the copied bytes. -/
theorem toNat_sub_add (a dst v : U32) :
    (a - (dst + v)).toNat =
      if v.toNat ≤ (a - dst).toNat then (a - dst).toNat - v.toNat
      else 2 ^ 32 + (a - dst).toNat - v.toNat := by
  have hlt := (a - dst).isLt
  have hv := v.isLt
  have hsub : a - (dst + v) = a - dst - v := by ring
  rw [hsub, BitVec.toNat_sub]
  split_ifs <;> omega

theorem segmentMem_apply (hsize : h.filesz ≤ h.memsz)
    (hown : ∀ j < h.filesz.toNat, ∀ k < j,
      h.dst + BitVec.ofNat 32 k ≠ img + h.off + BitVec.ofNat 32 j) (a : U32) :
    segmentMem m img h a = if a ∈ h.range then h.byte m img a else m a := by
  have hmemsz := h.memsz.isLt
  have hle := BitVec.le_def.mp hsize
  have hcopy := copy_apply (m := m) (by omega) (fun k j hkj hj => hown j hj k hkj) a
  simp only [ProgramHeader.mem_range]
  rw [segmentMem, ProgramHeader.byte]
  by_cases hlt : h.filesz < h.memsz
  · have hrest : (h.memsz - h.filesz).toNat = h.memsz.toNat - h.filesz.toNat :=
      BitVec.toNat_sub_of_le hsize
    simp only [if_pos hlt]
    rw [memFill_apply _ _ _ _ (by omega), hcopy, hrest, toNat_sub_add]
    split_ifs <;> first | rfl | omega
  · have heq : h.memsz.toNat = h.filesz.toNat := by
      rw [BitVec.lt_def] at hlt
      omega
    simp only [if_neg hlt]
    rw [hcopy, heq]
    split_ifs <;> rfl

/-! ## What is read -/

theorem rd32_congr {a : U32} (hsame : ∀ x ∈ addresses a 4, m' x = m x) :
    m'.rd32 a = m.rd32 a := by
  have hbyte (k : Nat) (hk : k < 4) : m' (a + BitVec.ofNat 32 k) = m (a + BitVec.ofNat 32 k) :=
    hsame _ (List.mem_map.mpr ⟨k, List.mem_range.mpr hk, rfl⟩)
  have hfirst := hbyte 0 (by omega)
  rw [show BitVec.ofNat 32 0 = 0 from rfl, add_zero] at hfirst
  rw [rd32, rd32, hfirst]
  change _ ||| (m' (a + BitVec.ofNat 32 1)).setWidth 32 <<< 8 |||
    (m' (a + BitVec.ofNat 32 2)).setWidth 32 <<< 16 |||
    (m' (a + BitVec.ofNat 32 3)).setWidth 32 <<< 24 = _
  rw [hbyte 1 (by omega), hbyte 2 (by omega), hbyte 3 (by omega)]
  rfl

/-- A header is read as it was if its bytes are as they were. -/
theorem programHeader_congr {ph : U32} (hsame : ∀ x ∈ addresses ph 24, m' x = m x) :
    programHeader m' ph = programHeader m ph := by
  have hfield (k : Nat) (hk : k ≤ 20) :
      m'.rd32 (ph + BitVec.ofNat 32 k) = m.rd32 (ph + BitVec.ofNat 32 k) := by
    apply rd32_congr
    intro x hx
    obtain ⟨j, hj, rfl⟩ := List.mem_map.mp hx
    rw [List.mem_range] at hj
    apply hsame
    rw [BitVec.add_assoc, ← BitVec.ofNat_add]
    exact List.mem_map.mpr ⟨k + j, List.mem_range.mpr (by omega), rfl⟩
  rw [programHeader, programHeader, ProgramHeader.mk.injEq]
  exact ⟨hfield 0 (by omega), hfield 4 (by omega), hfield 8 (by omega), hfield 12 (by omega),
    hfield 16 (by omega), hfield 20 (by omega)⟩

/-! ## The program headers -/

/-- What is still to be read is as it was. -/
theorem Placed.unread (hplaced : Placed m img n m') (hloadable : Loadable m img)
    (hn : n < (elfHeader m img).phnum.toNat) : ∀ x ∈ readFor m img n, m' x = m x := by
  intro x hx
  apply hplaced.rest
  intro i hi hload hin
  exact hloadable.ahead n hn i hi hload x hin hx

theorem Placed.skip (hplaced : Placed m img n m') (hskip : ¬(header m img n).IsLoad) :
    Placed m img (n + 1) m' where
  segment := by
    intro i hi hload
    rcases Nat.lt_succ_iff_lt_or_eq.mp hi with hlt | rfl
    · exact hplaced.segment i hlt hload
    · exact absurd hload hskip
  rest := by
    intro a hout
    apply hplaced.rest
    exact fun i hi => hout i (Nat.lt_succ_of_lt hi)

/-- A segment is placed where no other one is. -/
theorem Placed.place (hplaced : Placed m img n m') (hloadable : Loadable m img)
    (hn : n < (elfHeader m img).phnum.toNat) (hload : (header m img n).IsLoad)
    (hsource : ∀ x ∈ (header m img n).source img, m' x = m x) :
    Placed m img (n + 1) (segmentMem m' img (header m img n)) := by
  have happly := segmentMem_apply (m := m') (hloadable.size n hn hload) (hloadable.own n hn hload)
  constructor
  · intro i hi hloadi a ha
    rw [happly]
    rcases Nat.lt_succ_iff_lt_or_eq.mp hi with hlt | rfl
    · rw [if_neg (hloadable.apart n hn hload i hlt hloadi a ha), hplaced.segment i hlt hloadi a ha]
    · rw [if_pos ha, ProgramHeader.byte, ProgramHeader.byte]
      split_ifs with hfile
      · apply hsource
        apply (mem_addresses (by omega)).mpr
        rw [add_sub_cancel_left]
        exact hfile
      · rfl
  · intro a hout
    rw [happly, if_neg (hout n (Nat.lt_succ_self n) hload)]
    apply hplaced.rest
    exact fun i hi => hout i (Nat.lt_succ_of_lt hi)

theorem Placed.handle {s : Machine} (hplaced : Placed m img n s.mem) (hloadable : Loadable m img)
    (hn : n < (elfHeader m img).phnum.toNat) :
    Placed m img (n + 1) (handle img (elfHeader m img) s n).mem := by
  have hunread := hplaced.unread hloadable hn
  rw [readFor] at hunread
  rw [Elf.handle]
  by_cases hload : (header m img n).IsLoad
  · simp only [if_pos hload, List.mem_append] at hunread
    have hread : programHeader s.mem ((elfHeader m img).ph img n) = header m img n :=
      programHeader_congr fun x hx => hunread x (.inl hx)
    rw [hread, if_pos hload, loadSegment_eq]
    exact hplaced.place hloadable hn hload fun x hx => hunread x (.inr hx)
  · simp only [if_neg hload] at hunread
    have htype : (programHeader s.mem ((elfHeader m img).ph img n)).type =
        (header m img n).type := by
      apply rd32_congr
      rw [add_zero]
      exact hunread
    have hskip : ¬(programHeader s.mem ((elfHeader m img).ph img n)).IsLoad :=
      fun h => hload (htype.symm.trans h)
    rw [if_neg hskip]
    exact hplaced.skip hload

theorem placed_loop {s : Machine} (hs : s.mem = m) (hloadable : Loadable m img)
    (hn : n ≤ (elfHeader m img).phnum.toNat) :
    Placed m img n (loop img (elfHeader m img) s n).mem := by
  induction n with
  | zero =>
    refine ⟨fun i hi => absurd hi (Nat.not_lt_zero i), fun a _ => ?_⟩
    exact congrFun hs a
  | succ n ih =>
    rw [loop_succ]
    exact (ih (Nat.le_of_succ_le hn)).handle hloadable hn

/-- A segment that has been placed is its bytes in the image and zeros behind them. -/
theorem Placed.load (hplaced : Placed m img n m') (hi : i < n) (hload : (header m img i).IsLoad)
    (hsize : (header m img i).filesz ≤ (header m img i).memsz) :
    m'.load (header m img i).dst (header m img i).memsz.toNat =
      m.load (img + (header m img i).off) (header m img i).filesz.toNat ++
        List.replicate ((header m img i).memsz.toNat - (header m img i).filesz.toNat) 0 := by
  have hmemsz := (header m img i).memsz.isLt
  have hle := BitVec.le_def.mp hsize
  apply List.ext_getElem?
  intro k
  by_cases hk : k < (header m img i).memsz.toNat
  · have hoffset : (header m img i).dst + BitVec.ofNat 32 k - (header m img i).dst =
        BitVec.ofNat 32 k := add_sub_cancel_left _ _
    have hnum : (BitVec.ofNat 32 k).toNat = k := by
      rw [BitVec.toNat_ofNat, Nat.mod_eq_of_lt (by omega)]
    rw [getElem?_load hk, hplaced.segment i hi hload _ (ProgramHeader.mem_range _ |>.mpr (by
      rw [hoffset, hnum]; exact hk)), ProgramHeader.byte, hoffset, hnum]
    by_cases hfile : k < (header m img i).filesz.toNat
    · rw [if_pos hfile, List.getElem?_append_left (by rw [length_load]; exact hfile),
        getElem?_load hfile]
    · rw [if_neg hfile, List.getElem?_append_right (by rw [length_load]; omega), length_load,
        List.getElem?_replicate, if_pos (by omega)]
  · rw [List.getElem?_eq_none (by rw [length_load]; omega), List.getElem?_eq_none (by
      rw [List.length_append, length_load, List.length_replicate]; omega)]

theorem checkMachine_mem (s : Machine) (img : U32) : (checkMachine s img).mem = s.mem := by
  rw [checkMachine]
  split_ifs <;> rfl

/-- An image that can be loaded is placed, and one that is not accepted leaves the memory as it
is. -/
theorem elfLoad_placed (s : Machine) (img entry : U32) :
    (Accepted s.mem img → Loadable s.mem img →
      ∃ s', elfLoad s img entry = (0, s.mem.rd32 (img + 24), s') ∧
        (∀ i < (elfHeader s.mem img).phnum.toNat, (header s.mem img i).IsLoad →
          s'.mem.load (header s.mem img i).dst (header s.mem img i).memsz.toNat =
            s.mem.load (img + (header s.mem img i).off) (header s.mem img i).filesz.toNat ++
              List.replicate
                ((header s.mem img i).memsz.toNat - (header s.mem img i).filesz.toNat) 0) ∧
        ∀ a, (∀ i < (elfHeader s.mem img).phnum.toNat, (header s.mem img i).IsLoad →
          a ∉ (header s.mem img i).range) → s'.mem a = s.mem a) ∧
    (¬Accepted s.mem img →
      ∃ s', elfLoad s img entry = (-1, entry, s') ∧ s'.mem = s.mem ∧ s'.stored = s.stored) := by
  constructor
  · rintro ⟨hmagic, hclass⟩ hloadable
    have hmem := checkMachine_mem s img
    have hplaced := placed_loop hmem hloadable le_rfl
    refine ⟨loop img (elfHeader s.mem img) (checkMachine s img) _, ?_, ?_, hplaced.rest⟩
    · simp only [elfLoad, if_neg (not_not.mpr hmagic), if_neg (not_not.mpr hclass), hmem]
      rfl
    · intro i hi hload
      exact hplaced.load hi hload (hloadable.size i hi hload)
  · intro hrejected
    rw [elfLoad]
    by_cases hmagic : s.mem.rd32 img = 0x464c457f
    · have hclass : s.mem (img + 4) ≠ 1 := fun h => hrejected ⟨hmagic, h⟩
      rw [if_neg (not_not.mpr hmagic), if_pos hclass]
      exact ⟨_, rfl, rfl, rfl⟩
    · rw [if_pos hmagic]
      exact ⟨_, rfl, rfl, rfl⟩

/-- Two segments and a header of another type in between. The first one has zeros behind its
bytes and the second one has an upper address. -/
def twoSegments : Machine :=
  loaded 0x1C400000 0x1C000100
    [⟨1, 148, 0x1C000100, 0, 2, 4⟩, ⟨4, 148, 0, 0, 4, 4⟩, ⟨1, 150, 0x80000000, 0x9C000000, 2, 2⟩]
    [0x11, 0x22, 0x33, 0x44]

theorem header_twoSegments :
    header twoSegments.mem 0x1C400000 0 = ⟨1, 148, 0x1C000100, 0, 2, 4⟩ ∧
      header twoSegments.mem 0x1C400000 1 = ⟨4, 148, 0, 0, 4, 4⟩ ∧
      header twoSegments.mem 0x1C400000 2 = ⟨1, 150, 0x80000000, 0x9C000000, 2, 2⟩ := by
  decide +kernel

theorem loadable_twoSegments : Loadable twoSegments.mem 0x1C400000 :=
  ⟨by decide +kernel, by decide +kernel, by decide +kernel, by decide +kernel⟩

theorem elfLoad_twoSegments :
    ∃ s', elfLoad twoSegments 0x1C400000 0 = (0, 0x1C000100, s') ∧
      s'.mem.load 0x1C000100 4 = [0x11, 0x22, 0, 0] ∧ s'.mem.load 0x1C000000 2 = [0x33, 0x44] := by
  have haccepted : Accepted twoSegments.mem 0x1C400000 := by decide +kernel
  obtain ⟨s', hresult, hsegments, _⟩ :=
    (elfLoad_placed twoSegments 0x1C400000 0).1 haccepted loadable_twoSegments
  have hentry : twoSegments.mem.rd32 (0x1C400000 + 24) = 0x1C000100 := by decide +kernel
  obtain ⟨hfirst, _, hlast⟩ := header_twoSegments
  refine ⟨s', by rw [hresult, hentry], ?_, ?_⟩
  · have hload := hsegments 0 (by decide +kernel) (by decide +kernel)
    rw [hfirst] at hload
    exact hload.trans (by decide +kernel)
  · have hload := hsegments 2 (by decide +kernel) (by decide +kernel)
    rw [hlast] at hload
    exact hload.trans (by decide +kernel)

end Elf

end Boot

end NopCore
