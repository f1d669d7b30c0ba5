import Mathlib.Logic.Function.Basic
import Mathlib.Tactic.TypeStar

/-!
# Memories with a port to read and a port to write

The vendor's memory is a parameter: of what it does with an address only the rows that it
has are described, and nothing is known of an address past the last row. Around it are the
two memories of the core. `SDPRAM` answers from a register, or from a second one behind it;
a read that meets a write of the same row gets what was there before. The write-first
memory reads without a register and passes on what is written to the row that is read.
-/

universe u

namespace NopCore

/-- The array of a memory with `depth` rows, as the vendor describes it. -/
structure XpmMemory (α : Type u) (depth : Nat) where
  Mem : Type u
  read : Mem → Nat → α
  write : Mem → Nat → α → Mem
  read_write : ∀ (mem : Mem) (x : α) {row addr : Nat}, row < depth → addr < depth →
    read (write mem row x) addr = if addr = row then x else read mem addr

namespace XpmMemory

/-- A memory that drops a write past its last row. -/
def rows (α : Type u) (depth : Nat) : XpmMemory α depth where
  Mem := Nat → α
  read mem addr := mem addr
  write mem row x := if row < depth then Function.update mem row x else mem
  read_write mem x row addr hrow _ := by
    rw [if_pos hrow, Function.update_apply]

end XpmMemory

/-- The inputs of both ports in a cycle. There is no `data` when nothing is written. -/
structure SDPRAMPorts (α : Type u) where
  valid : Bool
  payload : Nat
  address : Nat
  data : Option α

/-- A write is to a row that the memory has. -/
def SDPRAMPorts.InRange {α : Type u} (depth : Nat) (p : SDPRAMPorts α) : Prop :=
  p.data.isSome → p.address < depth

/-- A memory and its output registers; `dout` is behind `latch`. -/
structure SDPRAMSync {α : Type u} {depth : Nat} (xpm : XpmMemory α depth) where
  mem : xpm.Mem
  latch : α
  dout : α

section Memories

variable {α : Type u} {depth : Nat} {xpm : XpmMemory α depth}
variable {ram : SDPRAMSync xpm} {p : SDPRAMPorts α}

/-- The array after the write of a cycle. -/
def SDPRAMSync.written (ram : SDPRAMSync xpm) (p : SDPRAMPorts α) : xpm.Mem :=
  match p.data with
  | some x => xpm.write ram.mem p.address x
  | none => ram.mem

theorem SDPRAMSync.read_written {addr : Nat} (hp : p.InRange depth) (haddr : addr < depth) :
    xpm.read (ram.written p) addr =
      if addr = p.address then p.data.getD (xpm.read ram.mem addr) else xpm.read ram.mem addr := by
  rw [written]
  cases hdata : p.data with
  | none => exact (ite_self _).symm
  | some x =>
    have hrow : p.address < depth := hp (by rw [hdata, Option.isSome_some])
    exact xpm.read_write ram.mem x hrow haddr

namespace SDPRAM

/-- Both registers move in the cycles with a read. -/
def step (ram : SDPRAMSync xpm) (p : SDPRAMPorts α) : SDPRAMSync xpm where
  mem := ram.written p
  latch := if p.valid then xpm.read ram.mem p.payload else ram.latch
  dout := if p.valid then ram.latch else ram.dout

/-- The answer, with one register or with two. -/
def rsp (outputReg : Bool) (ram : SDPRAMSync xpm) : α :=
  if outputReg then ram.dout else ram.latch

end SDPRAM

namespace SDPRAMAsyncToSyncWriteFirst

/-- What is read in this cycle: what is being written to the row, or what is in it. -/
def rsp (ram : SDPRAMSync xpm) (p : SDPRAMPorts α) : α :=
  if p.data.isSome && p.address == p.payload then p.data.getD (xpm.read ram.mem p.payload)
  else xpm.read ram.mem p.payload

/-- The one register, where the memory is built with it, is `latch`. -/
def step (ram : SDPRAMSync xpm) (p : SDPRAMPorts α) : SDPRAMSync xpm where
  mem := ram.written p
  latch := if p.valid then rsp ram p else ram.latch
  dout := ram.dout

/-- A row is read as if it had been written before. -/
theorem rsp_eq (hp : p.InRange depth) (hpayload : p.payload < depth) :
    rsp ram p = xpm.read (ram.written p) p.payload := by
  rw [SDPRAMSync.read_written hp hpayload, rsp]
  cases p.data with
  | none => simp
  | some x =>
    simp only [Option.isSome_some, Bool.true_and, beq_iff_eq]
    exact if_congr eq_comm rfl rfl

end SDPRAMAsyncToSyncWriteFirst

end Memories

end NopCore
