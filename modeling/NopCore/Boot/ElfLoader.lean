import NopCore.Boot.FwArg

/-!
# The ELF loader

The loader goes through the program headers of an image that lies in memory. The bytes of a
segment are copied to its destination one by one, and what is left of its size is cleared.
Headers, images and destinations are in one memory, so what a segment overwrites is what a
later header is read from.

A segment is announced on the console, with a warning if it does not seem to lie in the
memory of the board. The warning is decided by the destination and the size in memory; what
is copied has the size in the file, and the sum of a destination and a size is a word.

The machine keeps what has been sent to the console, and the addresses that have been stored
to.
-/

namespace NopCore

namespace Boot

open ByteMemory Text

structure Machine where
  mem : Memory
  uart : Bytes := []
  stored : List U32 := []

namespace Machine

variable (s : Machine)

def store8 (addr : U32) (val : U8) : Machine :=
  { s with mem := Function.update s.mem addr val, stored := s.stored ++ [addr] }

def memFill (s : Machine) (dst : U32) (val : U8) : Nat → Machine
  | 0 => s
  | n + 1 => (s.store8 dst val).memFill (dst + 1) val n

def memCopy (s : Machine) (dst src : U32) : Nat → Machine
  | 0 => s
  | n + 1 => (s.store8 dst (s.mem src)).memCopy (dst + 1) (src + 1) n

/-- A newline is followed by a carriage return. -/
def transmitted (c : U8) : Bytes := if c = newline then [newline, carriageReturn] else [c]

def puts (text : Bytes) : Machine := { s with uart := s.uart ++ text.flatMap transmitted }

def hexDigit (nib : U32) : U8 := (if nib < 10 then 0x30 + nib else 0x61 + nib - 10).setWidth 8

def hexText (v : U32) : Bytes :=
  ascii ['0', 'x'] ++ [7, 6, 5, 4, 3, 2, 1, 0].map fun i => hexDigit ((v >>> (i * 4)) &&& 0xf)

def puthex (v : U32) : Machine := s.puts (hexText v)

end Machine

namespace Elf

def emLoongArch : BitVec 16 := 258

def not32Bit : Bytes :=
  ascii ['E', 'L', 'F', ':', ' ', 'n', 'o', 't', ' ', '3', '2', '-', 'b', 'i', 't', '\n']

def notLoongArch : Bytes :=
  ascii ['E', 'L', 'F', ':', ' ', 'w', 'a', 'r', 'n', 'i', 'n', 'g', ':', ' ', 'e', '_', 'm',
    'a', 'c', 'h', 'i', 'n', 'e', ' ', 'i', 's', ' ', 'n', 'o', 't', ' ', 'L', 'o', 'o', 'n', 'g',
    'A', 'r', 'c', 'h', '\n']

def outsideWindow : Bytes :=
  ascii [' ', ' ', 'W', 'A', 'R', 'N', 'I', 'N', 'G', ':', ' ', 's', 'e', 'g', 'm', 'e', 'n', 't',
    ' ', 'o', 'u', 't', 's', 'i', 'd', 'e', ' ', 'D', 'D', 'R', ' ', 'w', 'i', 'n', 'd', 'o', 'w',
    '\n']

/-- The fields of the file header that the loader goes by. -/
structure ElfHeader where
  entry : U32
  phoff : U32
  phentsize : U32
  phnum : U32

def elfHeader (m : Memory) (img : U32) : ElfHeader where
  entry := m.rd32 (img + 24)
  phoff := m.rd32 (img + 28)
  phentsize := (m.rd16 (img + 42)).setWidth 32
  phnum := (m.rd16 (img + 44)).setWidth 32

/-- The address of a program header. -/
def ElfHeader.ph (e : ElfHeader) (img : U32) (i : Nat) : U32 :=
  img + e.phoff + BitVec.ofNat 32 i * e.phentsize

structure ProgramHeader where
  type : U32
  off : U32
  vaddr : U32
  paddr : U32
  filesz : U32
  memsz : U32
  deriving DecidableEq, Repr

def programHeader (m : Memory) (ph : U32) : ProgramHeader where
  type := m.rd32 (ph + 0)
  off := m.rd32 (ph + 4)
  vaddr := m.rd32 (ph + 8)
  paddr := m.rd32 (ph + 12)
  filesz := m.rd32 (ph + 16)
  memsz := m.rd32 (ph + 20)

namespace ProgramHeader

variable (h : ProgramHeader)

/-- `PT_LOAD` -/
def IsLoad : Prop := h.type = 1

instance : Decidable h.IsLoad := inferInstanceAs (Decidable (_ = _))

/-- The upper segments of the address space are folded onto the lower one. -/
def dst : U32 :=
  let dst := if h.paddr ≠ 0 then h.paddr else h.vaddr
  if 0x80000000 ≤ dst then dst &&& 0x1fffffff else dst

/-- The segment does not seem to lie in the memory of the board. -/
def warns : Bool := decide (h.dst < ddrBase) || decide (ddrEnd < h.dst + h.memsz)

end ProgramHeader

def announce (s : Machine) (h : ProgramHeader) : Machine :=
  let s := s.puts (ascii [' ', ' ', 'L', 'O', 'A', 'D', ' '])
  let s := s.puthex h.dst
  let s := s.puts (ascii [' ', 'f', 'i', 'l', 'e', 's', 'z', '='])
  let s := s.puthex h.filesz
  let s := s.puts (ascii [' ', 'm', 'e', 'm', 's', 'z', '='])
  let s := s.puthex h.memsz
  s.puts (ascii ['\n'])

def loadSegment (s : Machine) (img : U32) (h : ProgramHeader) : Machine :=
  let s := announce s h
  let s := if h.warns then s.puts outsideWindow else s
  let s := s.memCopy h.dst (img + h.off) h.filesz.toNat
  if h.filesz < h.memsz then s.memFill (h.dst + h.filesz) 0 (h.memsz - h.filesz).toNat else s

def handle (img : U32) (e : ElfHeader) (s : Machine) (i : Nat) : Machine :=
  if (programHeader s.mem (e.ph img i)).IsLoad then
    loadSegment s img (programHeader s.mem (e.ph img i))
  else s

/-- The machine in front of program header `n`. -/
def loop (img : U32) (e : ElfHeader) (s : Machine) (n : Nat) : Machine :=
  (List.range n).foldl (handle img e) s

theorem loop_succ (img : U32) (e : ElfHeader) (s : Machine) (n : Nat) :
    loop img e s (n + 1) = handle img e (loop img e s n) n := by
  rw [loop, List.range_succ, List.foldl_concat, loop]

/-- The image is one that the loader accepts. -/
def Accepted (m : Memory) (img : U32) : Prop := m.rd32 img = 0x464c457f ∧ m (img + 4) = 1

instance (m : Memory) (img : U32) : Decidable (Accepted m img) :=
  inferInstanceAs (Decidable (_ ∧ _))

/-- The machine in front of the program headers of an image that is accepted. -/
def checkMachine (s : Machine) (img : U32) : Machine :=
  if s.mem.rd16 (img + 18) ≠ emLoongArch then s.puts notLoongArch else s

/-- What is returned, the entry that is set, and the machine. -/
def elfLoad (s : Machine) (img entry : U32) : Int × U32 × Machine :=
  if s.mem.rd32 img ≠ 0x464c457f then (-1, entry, s)
  else if s.mem (img + 4) ≠ 1 then (-1, entry, s.puts not32Bit)
  else
    let s := checkMachine s img
    let e := elfHeader s.mem img
    (0, e.entry, loop img e s e.phnum.toNat)

/-! ## What a segment stores and prints -/

/-- The addresses of as many bytes from one on. -/
def addresses (dst : U32) (n : Nat) : List U32 :=
  (List.range n).map fun k => dst + BitVec.ofNat 32 k

theorem addresses_succ (dst : U32) (n : Nat) :
    addresses dst (n + 1) = dst :: addresses (dst + 1) n := by
  rw [addresses, List.range_succ_eq_map, List.map_cons, List.map_map]
  congr 1
  · simp
  · apply List.map_congr_left
    intro k _
    exact (add_succ k).symm

theorem addresses_append (dst : U32) (m n : Nat) :
    addresses dst m ++ addresses (dst + BitVec.ofNat 32 m) n = addresses dst (m + n) := by
  rw [addresses, addresses, addresses, List.range_add, List.map_append, List.map_map]
  congr 1
  apply List.map_congr_left
  intro k _
  rw [BitVec.add_assoc, ← BitVec.ofNat_add]
  rfl

theorem mem_addresses {dst a : U32} {n : Nat} (hn : n ≤ 2 ^ 32) :
    a ∈ addresses dst n ↔ (a - dst).toNat < n := by
  rw [addresses, List.mem_map]
  constructor
  · rintro ⟨k, hk, rfl⟩
    rw [List.mem_range] at hk
    rw [add_sub_cancel_left, BitVec.toNat_ofNat, Nat.mod_eq_of_lt (by omega)]
    exact hk
  · intro ha
    refine ⟨(a - dst).toNat, List.mem_range.mpr ha, ?_⟩
    rw [BitVec.ofNat_toNat, BitVec.setWidth_eq]
    ring

theorem memFill_eq (s : Machine) (dst : U32) (val : U8) (n : Nat) :
    s.memFill dst val n =
      { s with
        mem := Boot.memFill s.mem dst val n
        stored := s.stored ++ addresses dst n } := by
  induction n generalizing s dst with
  | zero => simp [Machine.memFill, Boot.memFill, ByteMemory.store, addresses]
  | succ n ih =>
    rw [Machine.memFill, ih, addresses_succ]
    simp [Machine.store8, Boot.memFill, List.replicate_succ, ByteMemory.store]

theorem memCopy_eq (s : Machine) (dst src : U32) (n : Nat) :
    s.memCopy dst src n =
      { s with
        mem := ByteMemory.copy s.mem dst src n
        stored := s.stored ++ addresses dst n } := by
  induction n generalizing s dst src with
  | zero => simp [Machine.memCopy, ByteMemory.copy, addresses]
  | succ n ih =>
    rw [Machine.memCopy, ih, addresses_succ]
    simp [Machine.store8, ByteMemory.copy]

/-- What is printed about a segment in front of a warning. -/
def announced (h : ProgramHeader) : Bytes :=
  (ascii [' ', ' ', 'L', 'O', 'A', 'D', ' '] ++ Machine.hexText h.dst ++
    ascii [' ', 'f', 'i', 'l', 'e', 's', 'z', '='] ++ Machine.hexText h.filesz ++
    ascii [' ', 'm', 'e', 'm', 's', 'z', '='] ++ Machine.hexText h.memsz ++
    ascii ['\n']).flatMap Machine.transmitted

def warning : Bytes := outsideWindow.flatMap Machine.transmitted

/-- The memory that a segment leaves. -/
def segmentMem (m : Memory) (img : U32) (h : ProgramHeader) : Memory :=
  let m := ByteMemory.copy m h.dst (img + h.off) h.filesz.toNat
  if h.filesz < h.memsz then
    Boot.memFill m (h.dst + h.filesz) 0 (h.memsz - h.filesz).toNat
  else m

/-- The addresses that a segment stores to. -/
def segmentAddresses (h : ProgramHeader) : List U32 :=
  addresses h.dst h.filesz.toNat ++
    if h.filesz < h.memsz then addresses (h.dst + h.filesz) (h.memsz - h.filesz).toNat else []

/-- What is stored to covers the larger one of the two sizes. -/
theorem segmentAddresses_eq (h : ProgramHeader) :
    segmentAddresses h = addresses h.dst (max h.filesz.toNat h.memsz.toNat) := by
  rw [segmentAddresses]
  split_ifs with hsz
  · rw [BitVec.lt_def] at hsz
    have hrest : (h.memsz - h.filesz).toNat = h.memsz.toNat - h.filesz.toNat :=
      BitVec.toNat_sub_of_le (BitVec.le_def.mpr hsz.le)
    have happend := addresses_append h.dst h.filesz.toNat (h.memsz.toNat - h.filesz.toNat)
    rw [BitVec.ofNat_toNat, BitVec.setWidth_eq, Nat.add_sub_of_le hsz.le] at happend
    rw [hrest, happend, max_eq_right hsz.le]
  · rw [BitVec.lt_def, not_lt] at hsz
    rw [List.append_nil, max_eq_left hsz]

theorem mem_segmentAddresses (h : ProgramHeader) (a : U32) :
    a ∈ segmentAddresses h ↔ (a - h.dst).toNat < max h.filesz.toNat h.memsz.toNat := by
  rw [segmentAddresses_eq, mem_addresses (by omega)]

theorem loadSegment_eq (s : Machine) (img : U32) (h : ProgramHeader) :
    loadSegment s img h =
      { mem := segmentMem s.mem img h
        uart := s.uart ++ (announced h ++ if h.warns then warning else [])
        stored := s.stored ++ segmentAddresses h } := by
  have hannounce : announce s h = { s with uart := s.uart ++ announced h } := by
    simp [announce, announced, Machine.puts, Machine.puthex]
  have hprint : (if h.warns then (announce s h).puts outsideWindow else announce s h) =
      { s with uart := s.uart ++ (announced h ++ if h.warns then warning else []) } := by
    rw [hannounce]
    cases h.warns <;> simp [Machine.puts, warning]
  rw [loadSegment, hprint, memCopy_eq, segmentMem, segmentAddresses]
  by_cases hsz : h.filesz < h.memsz
  · simp only [if_pos hsz, memFill_eq, List.append_assoc]
  · simp only [if_neg hsz, List.append_nil]

/-! ## Images -/

def halfBytes (v : BitVec 16) : Bytes := [(v &&& 0xff).setWidth 8, (v >>> 8).setWidth 8]

/-- The file header of an image whose program headers follow at once. -/
def fileHeader (entry : U32) (phnum : Nat) : Bytes :=
  [0x7f, 0x45, 0x4c, 0x46, 1, 1, 1] ++ List.replicate 9 0 ++ halfBytes 2 ++ halfBytes emLoongArch ++
    wordBytes 1 ++ wordBytes entry ++ wordBytes 52 ++ wordBytes 0 ++ wordBytes 0 ++ halfBytes 52 ++
    halfBytes 32 ++ halfBytes (BitVec.ofNat 16 phnum) ++ halfBytes 0 ++ halfBytes 0 ++ halfBytes 0

def segmentHeader (h : ProgramHeader) : Bytes :=
  wordBytes h.type ++ wordBytes h.off ++ wordBytes h.vaddr ++ wordBytes h.paddr ++
    wordBytes h.filesz ++ wordBytes h.memsz ++ wordBytes 0 ++ wordBytes 0

/-- The machine with an image in a memory that is clear otherwise. -/
def loaded (img entry : U32) (hs : List ProgramHeader) (payload : Bytes) : Machine where
  mem a :=
    (fileHeader entry hs.length ++ hs.flatMap segmentHeader ++ payload).getD (a - img).toNat 0

end Elf

end Boot

end NopCore
