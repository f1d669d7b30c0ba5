import NopCore.Boot.FwArg

/-!
# The handoff

The loader enters its payload with the number of arguments and pointers to the argument
vector and to the boot parameters. The payload reads the whole block by these pointers, byte
by byte, and prints it. It runs inside two windows through which an address is folded to a
physical one.

What it prints is what the loader has been told: for every command line that fits, for every
memory map, and whatever has been in memory before.
-/

namespace NopCore

namespace Boot

open ByteMemory Text

/-- Memory as the payload sees it. One window folds the upper addresses, and the other one
leaves the lower ones as they are. -/
def windows (m : Memory) : Memory := fun va => m (va &&& 0x1fffffff)

/-- What the loader passes in the argument registers. -/
def bootArgc : U32 := 2

def bootArgv : U32 := kvirt (fwargPhys + offArgv)

def bootBpi : U32 := kvirt (fwargPhys + offBpi)

/-- An entry of the memory map. -/
structure MapEntry where
  type : U32
  start : U32
  size : U32
  deriving DecidableEq, Repr

/-- What the payload prints. A null pointer has no string. -/
structure Report where
  argv : List (U32 × Option (List U8))
  bpiSignature : List U8
  nodeSignature : List U8
  len : U32
  revision : U8
  next : U32
  checksum : U32
  entries : List MapEntry
  deriving DecidableEq, Repr

namespace Payload

variable (m : Memory)

/-- `n` bounds the length of a string. -/
def readArg (n : Nat) (argvAddr : U32) (i : Nat) : Option (U32 × Option (List U8)) :=
  let p := m.rd32 (argvAddr + 4 * BitVec.ofNat 32 i)
  if p ≠ 0 then (m.cString p n).map fun s => (p, some s) else some (p, none)

/-- The sum is cut to a byte after each step. -/
def sumNode (mem len : U32) : U32 :=
  (List.range len.toNat).foldl (fun cs i =>
    ((cs + (m (mem + BitVec.ofNat 32 i)).setWidth 32).setWidth 8).setWidth 32) 0

def readEntry (mem : U32) (i : Nat) : MapEntry :=
  let e := mem + 19 + 12 * BitVec.ofNat 32 i
  ⟨m.rd32 e, m.rd32 (e + 4), m.rd32 (e + 8)⟩

def main (n : Nat) (argc argvAddr bpiAddr : U32) : Option Report :=
  ((List.range argc.toNat).mapM (readArg m n argvAddr)).map fun argv =>
    let mem := m.rd32 (bpiAddr + 12)
    let len := m.rd32 (mem + 8)
    { argv
      bpiSignature := m.load bpiAddr 8
      nodeSignature := m.load mem 3
      len
      revision := m (mem + 12)
      next := m.rd32 (mem + 14)
      checksum := sumNode m mem len
      entries := (List.range (m (mem + 18)).toNat).map (readEntry m mem) }

end Payload

/-- The nodes of the extension list up to the null pointer at its end. -/
def extList (m : Memory) (node : U32) : Nat → Option (List U32)
  | 0 => none
  | n + 1 => if node = 0 then some [] else (extList m (m.rd32 (node + 14)) n).map (node :: ·)

variable {m : Memory}

/-- Through a window the block is at its kernel address. -/
theorem windows_apply {k : Nat} (h : k < 0x10000) :
    windows m (kvirt fwargPhys + BitVec.ofNat 32 k) = m (fwargPhys + BitVec.ofNat 32 k) := by
  rw [windows]
  congr 1
  apply BitVec.eq_of_toNat_eq
  have hmask : (0x1fffffff : U32).toNat = 2 ^ 29 - 1 := rfl
  have hkvirt : (kvirt fwargPhys).toNat = 0xBCFF0000 := rfl
  have hphys : fwargPhys.toNat = 0x1CFF0000 := rfl
  rw [BitVec.toNat_and, hmask, Nat.and_two_pow_sub_one_eq_mod, BitVec.toNat_add, BitVec.toNat_add,
    hkvirt, hphys, BitVec.toNat_ofNat]
  omega

theorem windows_load {k n : Nat} (h : k + n ≤ 0x10000) :
    (windows m).load (kvirt fwargPhys + BitVec.ofNat 32 k) n =
      m.load (fwargPhys + BitVec.ofNat 32 k) n := by
  apply load_congr
  intro j hj
  rw [BitVec.add_assoc, BitVec.add_assoc, ← BitVec.ofNat_add]
  exact windows_apply (by omega)

/-! ## Reading the fields -/

section Reading

variable {prior : Memory} {cmdline : List U8} {memBase memSize : U32}

/-- The fields with the checksum that the loader computes. -/
def written (prior : Memory) (cmdline : List U8) (memBase memSize : U32) : List Field :=
  fields cmdline memBase memSize (nodeChecksum (writeFwArg prior cmdline memBase memSize))

/-- The payload finds each field at its offset. -/
theorem load_field (h : cmdline.length ≤ 240) {f : Field}
    (hf : f ∈ written prior cmdline memBase memSize) :
    (windows (buildFwArg prior cmdline memBase memSize)).load
      (kvirt fwargPhys + BitVec.ofNat 32 f.offset) f.bytes.length = f.bytes := by
  have hstop := fields_stop h f hf
  rw [Field.stop] at hstop
  rw [windows_load (by omega), load_buildFwArg h hf]

theorem rd32_field (h : cmdline.length ≤ 240) (off : Nat) {v : U32}
    (hf : ⟨off, wordBytes v⟩ ∈ written prior cmdline memBase memSize) :
    (windows (buildFwArg prior cmdline memBase memSize)).rd32
      (kvirt fwargPhys + BitVec.ofNat 32 off) = v :=
  rd32_of_load (load_field h hf)

theorem byte_field (h : cmdline.length ≤ 240) (off : Nat) {b : U8}
    (hf : ⟨off, [b]⟩ ∈ written prior cmdline memBase memSize) :
    windows (buildFwArg prior cmdline memBase memSize)
      (kvirt fwargPhys + BitVec.ofNat 32 off) = b :=
  (List.cons.inj (load_field h hf)).1

theorem cString_field (h : cmdline.length ≤ 240) (off : Nat) {s : List U8} {n : Nat} (hnul : 0 ∉ s)
    (hn : s.length < n) (hf : ⟨off, s ++ [0]⟩ ∈ written prior cmdline memBase memSize) :
    (windows (buildFwArg prior cmdline memBase memSize)).cString
      (kvirt fwargPhys + BitVec.ofNat 32 off) n = some s := by
  apply cString_of_load _ hnul hn
  have hload := load_field h hf
  rwa [List.length_append, List.length_singleton] at hload

theorem sumNode_eq (m : Memory) (mem len : U32) :
    Payload.sumNode m mem len = ((nodeSum m mem len).setWidth 8).setWidth 32 := by
  rw [Payload.sumNode, nodeSum]
  generalize List.range len.toNat = l
  induction l using List.reverseRecOn with
  | nil => rfl
  | append_singleton l i ih =>
    rw [List.foldl_append, List.foldl_append, ih, List.foldl_cons, List.foldl_cons, List.foldl_nil,
      List.foldl_nil]
    congr 1
    rw [BitVec.setWidth_add _ _ (by decide), BitVec.setWidth_add _ _ (by decide)]
    simp

/-- The checksum that the payload computes is the sum of the bytes of the node. -/
theorem sumNode_buildFwArg (h : cmdline.length ≤ 240) :
    Payload.sumNode (windows (buildFwArg prior cmdline memBase memSize))
      (kvirt (fwargPhys + offMemnode)) nodeLen = 0 := by
  have hload : (windows (buildFwArg prior cmdline memBase memSize)).load
      (kvirt (fwargPhys + offMemnode)) nodeLen.toNat = _ := windows_load (k := 0x160) (by decide)
  rw [sumNode_eq, nodeSum_setWidth, hload]
  exact congrArg (BitVec.setWidth 32) (sum_node h)

end Reading

/-- What the loader has been told. -/
def handedOver (cmdline : List U8) (memBase memSize : U32) : Report where
  argv := [(kvirt (fwargPhys + offArgv0Str), some (ascii ['b', 'o', 'o', 't'])),
    (kvirt (fwargPhys + offCmdline), some cmdline)]
  bpiSignature := ascii ['B', 'P', 'I', '0', '1', '0', '0', '0']
  nodeSignature := ascii ['M', 'E', 'M']
  len := 43
  revision := 0
  next := 0
  checksum := 0
  entries := [⟨addrTypeSysram, memBase, memSize⟩, ⟨addrTypeReserved, fwargPhys, 0x10000⟩]

section Handoff

variable {prior : Memory} {cmdline : List U8} {memBase memSize : U32}

theorem readArg_buildFwArg (h : cmdline.length ≤ 240) (off strOff : Nat) {i : Nat} {s : List U8}
    {n : Nat} {p : U32} (hnul : 0 ∉ s) (hn : s.length < n) (hp : p ≠ 0)
    (hoff : bootArgv + 4 * BitVec.ofNat 32 i = kvirt fwargPhys + BitVec.ofNat 32 off)
    (hstr : p = kvirt fwargPhys + BitVec.ofNat 32 strOff)
    (hptr : ⟨off, wordBytes p⟩ ∈ written prior cmdline memBase memSize)
    (hf : ⟨strOff, s ++ [0]⟩ ∈ written prior cmdline memBase memSize) :
    Payload.readArg (windows (buildFwArg prior cmdline memBase memSize)) n bootArgv i =
      some (p, some s) := by
  have hread := rd32_field h off hptr
  have hstring := cString_field h strOff hnul hn hf
  rw [← hoff] at hread
  rw [← hstr] at hstring
  rw [Payload.readArg, hread, if_pos hp, hstring]
  rfl

theorem readEntry_buildFwArg (h : cmdline.length ≤ 240) (off : Nat) {i : Nat}
    {type start size : U32}
    (hoff : kvirt (fwargPhys + offMemnode) + 19 + 12 * BitVec.ofNat 32 i =
      kvirt fwargPhys + BitVec.ofNat 32 off)
    (htype : ⟨off, wordBytes type⟩ ∈ written prior cmdline memBase memSize)
    (hstart : ⟨off + 4, wordBytes start⟩ ∈ written prior cmdline memBase memSize)
    (hsize : ⟨off + 8, wordBytes size⟩ ∈ written prior cmdline memBase memSize) :
    Payload.readEntry (windows (buildFwArg prior cmdline memBase memSize))
      (kvirt (fwargPhys + offMemnode)) i = ⟨type, start, size⟩ := by
  have hfour := rd32_field h (off + 4) hstart
  have height := rd32_field h (off + 8) hsize
  rw [BitVec.ofNat_add, ← BitVec.add_assoc, ← hoff] at hfour height
  have hzero := rd32_field h off htype
  rw [← hoff] at hzero
  rw [Payload.readEntry]
  exact congr (congr (congrArg MapEntry.mk hzero) hfour) height

/-- The pointers that the loader writes, read by the payload. -/
theorem rd32_bootBpi (h : cmdline.length ≤ 240) :
    (windows (buildFwArg prior cmdline memBase memSize)).rd32 (bootBpi + 12) =
      kvirt (fwargPhys + offMemnode) :=
  rd32_field h 0x14c (by simp [written, fields, writtenFields])

theorem rd32_next (h : cmdline.length ≤ 240) :
    (windows (buildFwArg prior cmdline memBase memSize)).rd32
      (kvirt (fwargPhys + offMemnode) + 14) = 0 :=
  rd32_field h 0x16e (by simp [written, fields, writtenFields])

theorem argv_buildFwArg (h : cmdline.length ≤ 240) (hnul : 0 ∉ cmdline) {n : Nat} (hn : 240 < n) :
    (List.range bootArgc.toNat).mapM
      (Payload.readArg (windows (buildFwArg prior cmdline memBase memSize)) n bootArgv) =
        some (handedOver cmdline memBase memSize).argv := by
  have hboot : (ascii ['b', 'o', 'o', 't']).length < n := (by decide : 4 ≤ 240).trans_lt hn
  have hfirst := readArg_buildFwArg (i := 0) h 0x000 0x020 (by decide) hboot
    (p := kvirt (fwargPhys + offArgv0Str)) (by decide) rfl rfl
    (by simp [written, fields, writtenFields] : _ ∈ written prior cmdline memBase memSize)
    (by simp [written, fields, writtenFields])
  have hsecond := readArg_buildFwArg (i := 1) h 0x004 0x040 hnul (h.trans_lt hn)
    (p := kvirt (fwargPhys + offCmdline)) (by decide) rfl rfl
    (by simp [written, fields, writtenFields] : _ ∈ written prior cmdline memBase memSize)
    (by simp [written, fields, writtenFields])
  have hrange : List.range bootArgc.toNat = [0, 1] := rfl
  rw [hrange, List.mapM_cons, hfirst, List.mapM_cons, hsecond]
  rfl

theorem entries_buildFwArg (h : cmdline.length ≤ 240) :
    (List.range ((windows (buildFwArg prior cmdline memBase memSize))
      (kvirt (fwargPhys + offMemnode) + 18)).toNat).map
        (Payload.readEntry (windows (buildFwArg prior cmdline memBase memSize))
          (kvirt (fwargPhys + offMemnode))) = (handedOver cmdline memBase memSize).entries := by
  have hcount : windows (buildFwArg prior cmdline memBase memSize)
      (kvirt (fwargPhys + offMemnode) + 18) = 2 :=
    byte_field h 0x172 (by simp [written, fields, writtenFields])
  have hfirst := readEntry_buildFwArg (i := 0) h 0x173 rfl
    (by simp [written, fields, writtenFields] :
      ⟨0x173, wordBytes addrTypeSysram⟩ ∈ written prior cmdline memBase memSize)
    (by simp [written, fields, writtenFields] :
      ⟨0x177, wordBytes memBase⟩ ∈ written prior cmdline memBase memSize)
    (by simp [written, fields, writtenFields] :
      ⟨0x17b, wordBytes memSize⟩ ∈ written prior cmdline memBase memSize)
  have hsecond := readEntry_buildFwArg (i := 1) h 0x17f rfl
    (by simp [written, fields, writtenFields] :
      ⟨0x17f, wordBytes addrTypeReserved⟩ ∈ written prior cmdline memBase memSize)
    (by simp [written, fields, writtenFields] :
      ⟨0x183, wordBytes fwargPhys⟩ ∈ written prior cmdline memBase memSize)
    (by simp [written, fields, writtenFields] :
      ⟨0x187, wordBytes 0x10000⟩ ∈ written prior cmdline memBase memSize)
  have hrange : List.range (2 : U8).toNat = [0, 1] := rfl
  rw [hcount, hrange, List.map_cons, List.map_cons, hfirst, hsecond]
  rfl

theorem main_buildFwArg (h : cmdline.length ≤ 240) (hnul : 0 ∉ cmdline) {n : Nat} (hn : 240 < n) :
    Payload.main (windows (buildFwArg prior cmdline memBase memSize)) n bootArgc bootArgv bootBpi =
      some (handedOver cmdline memBase memSize) := by
  have hlen : (windows (buildFwArg prior cmdline memBase memSize)).rd32
      (kvirt (fwargPhys + offMemnode) + 8) = nodeLen :=
    rd32_field h 0x168 (by simp [written, fields, writtenFields])
  have hrevision : windows (buildFwArg prior cmdline memBase memSize)
      (kvirt (fwargPhys + offMemnode) + 12) = 0 :=
    byte_field h 0x16c (by simp [written, fields, clearedFields])
  have hsignature : (windows (buildFwArg prior cmdline memBase memSize)).load bootBpi 8 =
      ascii ['B', 'P', 'I', '0', '1', '0', '0', '0'] :=
    load_field (f := ⟨0x140, ascii ['B', 'P', 'I', '0', '1', '0', '0', '0']⟩) h
      (by simp [written, fields, writtenFields])
  have hnode : (windows (buildFwArg prior cmdline memBase memSize)).load
      (kvirt (fwargPhys + offMemnode)) 3 = ascii ['M', 'E', 'M'] :=
    load_field (f := ⟨0x160, ascii ['M', 'E', 'M']⟩) h (by simp [written, fields, writtenFields])
  rw [Payload.main, argv_buildFwArg h hnul hn, Option.map_some, rd32_bootBpi h]
  dsimp only
  rw [hlen, hsignature, hnode, hrevision, rd32_next h, sumNode_buildFwArg h, entries_buildFwArg h]
  rfl

theorem extList_buildFwArg (h : cmdline.length ≤ 240) {n : Nat} (hn : 2 ≤ n) :
    extList (windows (buildFwArg prior cmdline memBase memSize))
      ((windows (buildFwArg prior cmdline memBase memSize)).rd32 (bootBpi + 12)) n =
        some [kvirt (fwargPhys + offMemnode)] := by
  obtain ⟨n, rfl⟩ := Nat.exists_eq_add_of_le' hn
  rw [rd32_bootBpi h, extList, if_neg (by decide), rd32_next h, extList, if_pos rfl]
  rfl

/-- The payload recovers what the loader has been told, the extension list has the one node,
the fields of the block are all in memory and do not overlap, and nothing else is changed. -/
theorem handoff (h : cmdline.length ≤ 240) (hnul : 0 ∉ cmdline) :
    (∀ n, 240 < n → Payload.main (windows (buildFwArg prior cmdline memBase memSize)) n bootArgc
        bootArgv bootBpi = some (handedOver cmdline memBase memSize)) ∧
      (∀ n, 2 ≤ n → extList (windows (buildFwArg prior cmdline memBase memSize))
        ((windows (buildFwArg prior cmdline memBase memSize)).rd32 (bootBpi + 12)) n =
          some [kvirt (fwargPhys + offMemnode)]) ∧
      (written prior cmdline memBase memSize).Pairwise Field.Disjoint ∧
      (∀ f ∈ written prior cmdline memBase memSize, f.stop ≤ 0x400 ∧
        (buildFwArg prior cmdline memBase memSize).load (fwargPhys + BitVec.ofNat 32 f.offset)
          f.bytes.length = f.bytes) ∧
      ∀ x : U32, x < fwargPhys ∨ fwargPhys + 0x400 ≤ x →
        buildFwArg prior cmdline memBase memSize x = prior x := by
  refine ⟨?_, ?_, ?_, ?_, ?_⟩
  · intro n hn
    exact main_buildFwArg h hnul hn
  · intro n hn
    exact extList_buildFwArg h hn
  · exact fields_disjoint h
  · intro f hf
    exact ⟨fields_stop h f hf, load_buildFwArg h hf⟩
  · intro x hx
    apply buildFwArg_frame h
    have hphys : fwargPhys = 0x1CFF0000 := rfl
    rw [hphys] at hx ⊢
    bv_omega

/-- The longest command line, a memory that is full of ones, and a map that wraps. -/
theorem handoff_longest :
    let cmdline : List U8 := List.replicate 240 0x61
    Payload.main (windows (buildFwArg (fun _ => 0xff) cmdline 0xFFFFFFFF 0xDEADBEEF)) 241 bootArgc
      bootArgv bootBpi = some (handedOver cmdline 0xFFFFFFFF 0xDEADBEEF) :=
  (handoff (by rw [List.length_replicate])
    (fun hmem => absurd (List.eq_of_mem_replicate hmem) (by decide))).1 241 (by decide)

end Handoff

end Boot

end NopCore
