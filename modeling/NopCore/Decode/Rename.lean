import NopCore.Core.Commit
import NopCore.Lib.Renaming
import NopCore.Lib.System
import NopCore.Utils.MultiPortFifo

/-!
# Register renaming

Physical register 0 is architectural register 0. The other 31 architectural
registers are mapped by two tables: `sRAT` as the next instruction to be renamed
sees it, `aRAT` as the retired instructions left it. The registers that neither
maps are in the free list, a ring of 32 slots that starts full.

A group of up to three instructions is renamed in one cycle. Sources and the old
mapping of a destination are read from `sRAT`, overridden by the older writes of
the same group. A retired write gives its old register back. A flush takes two
cycles: in the second one the free list is declared full again from its pop
pointer on, and `sRAT` is copied from `aRAT`.

The stage is followed together with the instructions it has renamed. `inFlight`
holds those that have neither retired nor been flushed, from the oldest on, and
`flushed` those given up in the previous cycle.
-/

namespace NopCore

def nArchRegs : Nat := 32
def nPhysRegs : Nat := 63
def freeListDepth : Nat := nPhysRegs + 1 - nArchRegs

/-- The fields of an instruction word that name registers. -/
structure InstructionParser where
  inst : BitVec 32

namespace InstructionParser

def rd (p : InstructionParser) : Nat := (p.inst.extractLsb' 0 5).toNat
def rj (p : InstructionParser) : Nat := (p.inst.extractLsb' 5 5).toNat
def rk (p : InstructionParser) : Nat := (p.inst.extractLsb' 10 5).toNat

end InstructionParser

/-- A write port of the stage: the register written, what it is mapped to, and
the pop port of the free list it is connected to. -/
structure RegRename where
  valid : Bool := false
  addr : Nat := 0
  rsp : Nat := 0
  popIdx : Nat := 0
  deriving DecidableEq, Repr

namespace Rename

/-- Read a register alias table, which has no entry for register 0. -/
def ratRead (rat : Nat → Nat) (addr : Nat) : Nat := if addr = 0 then 0 else rat (addr - 1)

/-- A read port: the table, overridden by the older writes of the group. -/
def readPort (rat : Nat → Nat) (older : List RegRename) (addr : Nat) : Nat :=
  older.foldl (fun rsp p => if p.valid && addr == p.addr then p.rsp else rsp) (ratRead rat addr)

/-- The write port of an instruction. The pop ports are handed out in order, so
that the popped ones are the first. -/
def writePort (payload : Nat → Nat) (older : List RegRename) (uop : Option MicroOp) : RegRename :=
  let popIdx := older.countP RegRename.valid
  match uop with
  | some uop => ⟨uop.doRegWrite, uop.wbAddr, if uop.doRegWrite then payload popIdx else 0, popIdx⟩
  | none => ⟨false, 0, 0, popIdx⟩

def record (rat payload : Nat → Nat) (older : List RegRename) (uop : MicroOp) : RenameRecord :=
  let fields : InstructionParser := ⟨uop.inst⟩
  { rRegs := (readPort rat older fields.rj,
      readPort rat older (if uop.useRk then fields.rk else fields.rd))
    wReg := (writePort payload older (some uop)).rsp
    wPrevReg := readPort rat older uop.wbAddr }

/-- The write ports of a group behind the write ports `older`. -/
def writePorts (payload : Nat → Nat) (older : List RegRename) :
    List (Option MicroOp) → List RegRename
  | [] => []
  | uop :: group =>
    let port := writePort payload older uop
    port :: writePorts payload (older ++ [port]) group

/-- The valid instructions of a group with their registers. -/
def renamed (rat payload : Nat → Nat) (older : List RegRename) :
    List (Option MicroOp) → List PushPort
  | [] => []
  | uop :: group =>
    let rest := renamed rat payload (older ++ [writePort payload older uop]) group
    match uop with
    | some u => { uop := u, rename := record rat payload older u } :: rest
    | none => rest

/-- The table after the valid write ports, a later one over an earlier one. -/
def writeRAT (rat : Nat → Nat) (ports : List RegRename) : Nat → Nat :=
  ports.foldl (fun rat p => if p.valid then Function.update rat (p.addr - 1) p.rsp else rat) rat

/-- The table after the commits of a cycle. -/
def commitRAT (rat : Nat → Nat) (commits : List RegFileMapping) : Nat → Nat :=
  commits.foldl (fun rat c => Function.update rat (c.addr - 1) c.prfAddr) rat

end Rename

def MultiPortFIFOVecOutReg.recover {α : Type*} (f next : MultiPortFIFOVecOutReg α) :
    MultiPortFIFOVecOutReg α :=
  { next with ptr := { next.ptr with push := f.ptr.pop, rising := true } }

structure RenameStage where
  sRAT : Nat → Nat
  aRAT : Nat → Nat
  freeList : MultiPortFIFOVecOutReg Nat
  isValid : Bool
  decPacket : List (Option MicroOp)
  regFlush : Bool
  inFlight : List PushPort
  flushed : List PushPort

namespace RenameStage

open Rename

/-- The inputs of a cycle: the group that may enter the stage, the stall of the
stages behind, and what commit does. `retire` instructions leave the reorder
buffer; with `hasExcept` the oldest of them leaves without retiring. -/
structure Inputs where
  nextValid : Bool := false
  nextPacket : List (Option MicroOp) := []
  haltByOther : Bool := false
  retire : Nat := 0
  hasExcept : Bool := false
  needFlush : Bool := false

variable (s : RenameStage) (i : Inputs)

def ports : List RegRename := writePorts s.freeList.popPayload [] s.decPacket

def noFreeRegs : Bool :=
  s.isValid && s.ports.any fun p => p.valid && !s.freeList.ptr.popValid freeListDepth p.popIdx

def isStuck : Bool := i.haltByOther || s.noFreeRegs

def isValidNotStuck : Bool := s.isValid && !s.isStuck i

/-- The instructions renamed in this cycle. -/
def issued : List PushPort :=
  if s.isValidNotStuck i then renamed s.sRAT s.freeList.popPayload [] s.decPacket else []

/-- The instructions that retire in this cycle. -/
def retired : List PushPort := if i.hasExcept then [] else s.inFlight.take i.retire

/-- What remains in flight, unless the cycle flushes. -/
def remaining : List PushPort := if i.hasExcept then s.inFlight else s.inFlight.drop i.retire

def arfCommits : List RegFileMapping :=
  ((s.retired i).filter fun p => p.uop.doRegWrite).map fun p =>
    { addr := p.uop.wbAddr, prevAddr := p.rename.wPrevReg, prfAddr := p.rename.wReg }

def popReady : Nat := if s.isValidNotStuck i then s.ports.countP RegRename.valid else 0

def nextFreeList : MultiPortFIFOVecOutReg Nat :=
  s.freeList.step freeListDepth ((s.arfCommits i).map RegFileMapping.prevAddr) (s.popReady i)

def step : RenameStage where
  sRAT :=
    if s.regFlush then s.aRAT
    else if s.isValidNotStuck i then writeRAT s.sRAT s.ports else s.sRAT
  aRAT := commitRAT s.aRAT (s.arfCommits i)
  freeList := if s.regFlush then s.freeList.recover (s.nextFreeList i) else s.nextFreeList i
  isValid :=
    if i.needFlush then false else if s.isStuck i then s.isValid else i.nextValid
  decPacket := if s.isStuck i then s.decPacket else i.nextPacket
  regFlush := i.needFlush
  inFlight := if i.needFlush then [] else s.remaining i ++ s.issued i
  flushed := if i.needFlush then s.remaining i ++ s.issued i else []

/-- A decoded group: at most three instructions, of which those that write a
register write one of registers 1 to 31. -/
structure Decoded (group : List (Option MicroOp)) : Prop where
  width : group.length ≤ decodeWidth
  wbAddr : ∀ uop, some uop ∈ group → uop.doRegWrite = true →
    1 ≤ uop.wbAddr ∧ uop.wbAddr < nArchRegs

/-- What the decoder and commit keep to. -/
structure Legal : Prop where
  decoded : i.nextValid = true → Decoded i.nextPacket
  width : i.retire ≤ retireWidth
  retire : i.retire ≤ s.inFlight.length
  flush_retires : i.needFlush = true → 0 < i.retire
  except_flushes : i.hasExcept = true → 0 < i.retire → i.needFlush = true

/-- The tables start as the identity on registers 1 to 31, and the free list
holds the others. -/
structure Init : Prop where
  sRAT : s.sRAT = fun i => i + 1
  aRAT : s.aRAT = fun i => i + 1
  dataVec : s.freeList.dataVec = fun i => i + nArchRegs
  ptr : s.freeList.ptr = { rising := true }
  isValid : s.isValid = false
  regFlush : s.regFlush = false
  inFlight : s.inFlight = []
  flushed : s.flushed = []

def machine : Clocked.Machine RenameStage Inputs where
  init := Init
  legal := Legal
  step := step

end RenameStage

end NopCore
