import NopCore.Lib.ByteMemory
import NopCore.Lib.Text
import Mathlib.Tactic

/-!
# Firmware arguments

The boot loader hands a block of memory to the system that it starts. The block has the
pointers to the arguments, the arguments, the boot parameters and a list of extensions,
whose one node is a map of the memory. Fields are packed, and the offsets of most of them
are computed by hand.

A string literal is the list of its characters.
-/

namespace NopCore

namespace Boot

open ByteMemory Text

abbrev Memory := ByteMemory 32

abbrev U32 := BitVec 32

abbrev U8 := BitVec 8

/-! ## The memory map -/

def ddrBase : U32 := 0x1C000000

def ddrSize : U32 := 0x01000000

def ddrEnd : U32 := ddrBase + ddrSize

def fwargPhys : U32 := ddrEnd - 0x10000

def kvirt (x : U32) : U32 := 0xA0000000 ||| x

def offArgv : U32 := 0x000

def offArgv0Str : U32 := 0x020

def offCmdline : U32 := 0x040

def offBpi : U32 := 0x140

def offMemnode : U32 := 0x160

def addrTypeSysram : U32 := 1

def addrTypeReserved : U32 := 2

/-! ## Copying -/

def memFill (m : Memory) (dst : U32) (val : U8) (n : Nat) : Memory :=
  m.store dst (List.replicate n val)

/-- The first bytes of a literal are copied. -/
def memCopy (m : Memory) (dst : U32) (src : List U8) (n : Nat) : Memory :=
  m.store dst (src.take n)

/-- A string is copied with the zero at its end. -/
def strCopy (m : Memory) (dst : U32) (s : List U8) : Memory := m.store dst (s ++ [0])

/-! ## The block -/

/-- The length of the node: a header and two entries. -/
def nodeLen : U32 := 19 + 2 * 12

/-- The block but for the checksum of the node. -/
def writeFwArg (m : Memory) (cmdline : List U8) (memBase memSize : U32) : Memory :=
  let a := fwargPhys
  let mem := a + offMemnode
  let m := memFill m a 0 0x400
  let m := m.wr32 (a + offArgv + 0) (kvirt (a + offArgv0Str))
  let m := m.wr32 (a + offArgv + 4) (kvirt (a + offCmdline))
  let m := strCopy m (a + offArgv0Str) (ascii ['b', 'o', 'o', 't'])
  let m := strCopy m (a + offCmdline) cmdline
  let m := memCopy m (a + offBpi) (ascii ['B', 'P', 'I', '0', '1', '0', '0', '0']) 8
  let m := m.wr32 (a + offBpi + 8) 0
  let m := m.wr32 (a + offBpi + 12) (kvirt mem)
  let m := m.wr32 (a + offBpi + 16) 0
  let m := m.wr32 (a + offBpi + 20) 0
  let m := memCopy m mem (ascii ['M', 'E', 'M']) 3
  let m := m.wr32 (mem + 8) nodeLen
  let m := m.wr32 (mem + 14) 0
  let m := m.store (mem + 18) [2]
  let m := m.wr32 (mem + 19 + 0) addrTypeSysram
  let m := m.wr32 (mem + 19 + 4) memBase
  let m := m.wr32 (mem + 19 + 8) memSize
  let m := m.wr32 (mem + 19 + 12) addrTypeReserved
  let m := m.wr32 (mem + 19 + 16) fwargPhys
  m.wr32 (mem + 19 + 20) 0x10000

/-- The sum of the bytes of the node. -/
def nodeSum (m : Memory) (mem len : U32) : U32 :=
  (List.range len.toNat).foldl (fun sum i => sum + (m (mem + BitVec.ofNat 32 i)).setWidth 32) 0

def nodeChecksum (m : Memory) : U8 :=
  (0 - nodeSum m (fwargPhys + offMemnode) nodeLen).setWidth 8

/-- `BOOT_CMDLINE`, `MEM_BASE` and `MEM_SIZE` are set when the loader is built. -/
def buildFwArg (m : Memory) (cmdline : List U8) (memBase memSize : U32) : Memory :=
  let m := writeFwArg m cmdline memBase memSize
  m.store (fwargPhys + offMemnode + 13) [nodeChecksum m]

/-! ## Its fields -/

/-- The fields that keep the zeros with which the block is cleared: the end of the argument
vector, the rest of the node's signature, and its revision. -/
def clearedFields : List Field :=
  [⟨0x008, List.replicate 8 0⟩, ⟨0x163, List.replicate 5 0⟩, ⟨0x16c, [0]⟩]

/-- The fields that are written before the checksum of the node. -/
def writtenFields (cmdline : List U8) (memBase memSize : U32) : List Field :=
  [⟨0x000, wordBytes (kvirt (fwargPhys + offArgv0Str))⟩,
    ⟨0x004, wordBytes (kvirt (fwargPhys + offCmdline))⟩,
    ⟨0x020, ascii ['b', 'o', 'o', 't'] ++ [0]⟩, ⟨0x040, cmdline ++ [0]⟩,
    ⟨0x140, ascii ['B', 'P', 'I', '0', '1', '0', '0', '0']⟩, ⟨0x148, wordBytes 0⟩,
    ⟨0x14c, wordBytes (kvirt (fwargPhys + offMemnode))⟩, ⟨0x150, wordBytes 0⟩,
    ⟨0x154, wordBytes 0⟩, ⟨0x160, ascii ['M', 'E', 'M']⟩, ⟨0x168, wordBytes nodeLen⟩,
    ⟨0x16e, wordBytes 0⟩, ⟨0x172, [2]⟩, ⟨0x173, wordBytes addrTypeSysram⟩,
    ⟨0x177, wordBytes memBase⟩, ⟨0x17b, wordBytes memSize⟩,
    ⟨0x17f, wordBytes addrTypeReserved⟩, ⟨0x183, wordBytes fwargPhys⟩,
    ⟨0x187, wordBytes 0x10000⟩]

/-- The last field to be written. -/
def checksumField (c : U8) : Field := ⟨0x16d, [c]⟩

/-- All fields of the block. They cover it but for what is behind the strings and the last
entry. -/
def fields (cmdline : List U8) (memBase memSize : U32) (c : U8) : List Field :=
  clearedFields ++ writtenFields cmdline memBase memSize ++ [checksumField c]

variable {prior : Memory} {cmdline : List U8} {memBase memSize : U32} {c : U8}

theorem fields_disjoint (h : cmdline.length ≤ 240) :
    (fields cmdline memBase memSize c).Pairwise Field.Disjoint := by
  simp [fields, clearedFields, writtenFields, checksumField, Field.Disjoint, Field.stop, ascii]
  omega

theorem fields_stop (h : cmdline.length ≤ 240) :
    ∀ f ∈ fields cmdline memBase memSize c, f.stop ≤ 0x400 := by
  simp [fields, clearedFields, writtenFields, checksumField, Field.stop, ascii]
  omega

/-- The statements of the loader are the stores of the fields, one after the other. -/
theorem writeFwArg_eq : writeFwArg prior cmdline memBase memSize =
    (memFill prior fwargPhys 0 0x400).storeFields fwargPhys
      (writtenFields cmdline memBase memSize) := by
  rw [writeFwArg]
  generalize memFill prior fwargPhys 0 0x400 = m
  rfl

/-- A memory is cleared where it is said to be. -/
theorem memFill_apply (m : Memory) (dst a : U32) (val : U8) {n : Nat} (hn : n ≤ 2 ^ 32) :
    memFill m dst val n a = if (a - dst).toNat < n then val else m a := by
  rw [memFill, store_apply (by rw [List.length_replicate]; exact hn), List.getElem?_replicate]
  split_ifs <;> rfl

theorem memFill_block {k : Nat} (h : k < 0x400) :
    memFill prior fwargPhys 0 0x400 (fwargPhys + BitVec.ofNat 32 k) = 0 := by
  have hdist : (fwargPhys + BitVec.ofNat 32 k - fwargPhys).toNat = k := by
    rw [add_sub_cancel_left, BitVec.toNat_ofNat, Nat.mod_eq_of_lt (by omega)]
  rw [memFill_apply _ _ _ _ (by decide), hdist, if_pos h]

/-- The fields that are never written have their zeros from the clearing. -/
theorem storeFields_clearedFields :
    (memFill prior fwargPhys 0 0x400).storeFields fwargPhys clearedFields =
      memFill prior fwargPhys 0 0x400 := by
  apply storeFields_eq_self
  intro f hf
  have hstop : f.stop ≤ 0x400 ∧ f.bytes = List.replicate f.bytes.length 0 := by
    revert f
    decide
  apply storeField_eq_self (hstop.1.trans (by decide))
  rw [load_eq_iff]
  intro k hk
  rw [Field.stop] at hstop
  rw [BitVec.add_assoc, ← BitVec.ofNat_add, memFill_block (by omega), List.getElem_of_eq hstop.2,
    List.getElem_replicate]

/-- What the loader does is to store the fields of a block that has been cleared. -/
theorem buildFwArg_eq : buildFwArg prior cmdline memBase memSize =
    (memFill prior fwargPhys 0 0x400).storeFields fwargPhys (fields cmdline memBase memSize
      (nodeChecksum (writeFwArg prior cmdline memBase memSize))) := by
  rw [fields, storeFields_append, storeFields_append, storeFields_clearedFields, ← writeFwArg_eq]
  rfl

/-- Every field of the block is in memory. -/
theorem load_buildFwArg (h : cmdline.length ≤ 240) {f : Field}
    (hf : f ∈ fields cmdline memBase memSize
      (nodeChecksum (writeFwArg prior cmdline memBase memSize))) :
    (buildFwArg prior cmdline memBase memSize).load (fwargPhys + BitVec.ofNat 32 f.offset)
      f.bytes.length = f.bytes := by
  rw [buildFwArg_eq]
  apply load_storeFields _ (fields_disjoint h) hf
  exact fun f hf => (fields_stop h f hf).trans (by decide)

/-- Nothing is changed outside of the block. -/
theorem buildFwArg_frame (h : cmdline.length ≤ 240) {x : U32}
    (hx : 0x400 ≤ (x - fwargPhys).toNat) :
    buildFwArg prior cmdline memBase memSize x = prior x := by
  rw [buildFwArg_eq, storeFields_frame (by decide) (fields_stop h) hx, memFill,
    store_apply (by rw [List.length_replicate]; decide),
    List.getElem?_eq_none (by rw [List.length_replicate]; exact hx)]
  rfl

/-! ## The checksum -/

theorem foldl_add_setWidth (bytes : List U8) (sum : U32) :
    (bytes.foldl (fun sum b => sum + b.setWidth 32) sum).setWidth 8 =
      sum.setWidth 8 + bytes.sum := by
  induction bytes generalizing sum with
  | nil => simp
  | cons b bytes ih =>
    rw [List.foldl_cons, ih, List.sum_cons, ← add_assoc, BitVec.setWidth_add _ _ (by decide)]
    simp

/-- The lower byte of the sum is the sum of bytes. -/
theorem nodeSum_setWidth (m : Memory) (mem len : U32) :
    (nodeSum m mem len).setWidth 8 = (m.load mem len.toNat).sum := by
  have hload : m.load mem len.toNat =
      (List.range len.toNat).map fun i => m (mem + BitVec.ofNat 32 i) := by
    apply List.ext_getElem?
    intro k
    rcases Nat.lt_or_ge k len.toNat with hk | hk
    · rw [getElem?_load hk, List.getElem?_map, List.getElem?_range hk]
      rfl
    · rw [List.getElem?_eq_none (by simpa using hk), List.getElem?_eq_none (by simpa using hk)]
  have hfold := foldl_add_setWidth (m.load mem len.toNat) 0
  rw [hload, List.foldl_map] at hfold
  rw [nodeSum, hfold, hload]
  simp

/-- The checksum makes the bytes of the node sum up to zero. It is one of them, but it is
zero when the sum is taken. -/
theorem sum_node (h : cmdline.length ≤ 240) :
    ((buildFwArg prior cmdline memBase memSize).load (fwargPhys + offMemnode)
      nodeLen.toNat).sum = 0 := by
  set m := writeFwArg prior cmdline memBase memSize with hm
  have hzero : m (fwargPhys + BitVec.ofNat 32 0x16d) = 0 := by
    have hfields : ∀ f ∈ fields cmdline memBase memSize 0, f.stop ≤ 0x400 := fields_stop h
    have hdisjoint : (fields cmdline memBase memSize 0).Pairwise Field.Disjoint :=
      fields_disjoint h
    rw [fields, List.append_assoc, List.forall_mem_append] at hfields
    rw [fields, List.append_assoc, List.pairwise_append] at hdisjoint
    have hwritten := hfields.2
    rw [List.forall_mem_append] at hwritten
    have hlast := List.pairwise_append.mp hdisjoint.2.1
    rw [hm, writeFwArg_eq, storeFields_outside, memFill_block (by decide)]
    · exact fun f hf => (hwritten.1 f hf).trans (by decide)
    · decide
    · intro f hf
      have hf := hlast.2.2 f hf (checksumField 0) (List.mem_singleton_self _)
      simp only [Field.Disjoint, Field.stop, checksumField, List.length_singleton] at hf ⊢
      omega
  have hstore : buildFwArg prior cmdline memBase memSize =
      m.store (fwargPhys + offMemnode + BitVec.ofNat 32 13) [nodeChecksum m] := rfl
  have hsum := nodeSum_setWidth m (fwargPhys + offMemnode) nodeLen
  have hlength : 13 < (m.load (fwargPhys + offMemnode) nodeLen.toNat).length := by
    rw [length_load]
    decide
  have hbyte : (m.load (fwargPhys + offMemnode) nodeLen.toNat)[13] = 0 := by
    have hget := getElem?_load (m := m) (a := fwargPhys + offMemnode) (n := nodeLen.toNat)
      (k := 13) (by decide)
    rw [List.getElem?_eq_getElem hlength] at hget
    exact (Option.some.inj hget).trans hzero
  rw [hstore, load_store_byte (by decide) (by decide), List.sum_set', dif_pos hlength, hbyte,
    nodeChecksum, ← hsum, neg_zero, zero_add, ← BitVec.setWidth_add _ _ (by decide),
    add_sub_cancel]
  rfl

end Boot

end NopCore
