import NopCore.Core.StoreCommit
import NopCore.Privilege.Csr

/-!
# The memory core and the privileged registers

The link bit is read in two places. WB reads it when a store-conditional passes, to
write the result; commit reads it many cycles later, to decide whether the store is
made. Commit is also what changes it, as it changes all privileged registers, for the
instruction at port 0 and on behalf of whatever runs ahead of the store-conditional.

The record has, for every store-conditional that has passed WB, the link bit that was
read and what was written.
-/

namespace NopCore

/-- A store-conditional in WB: its number, the link bit, and the register write. -/
structure LinkSample where
  number : Nat
  llbit : Bool
  write : Option (Nat × BWord)
  deriving DecidableEq

structure PrivilegedCore where
  mem : MemCore := {}
  unit : PrivilegedUnit := {}
  samples : List LinkSample := []

namespace PrivilegedCore

/-- What the rest of the core contributes, and the interrupt pins. -/
structure Inputs where
  mem : MemCore.Inputs := {}
  intrpt : BitVec 8 := 0

variable (innerCounterDownEvery : Nat) (s : PrivilegedCore) (i : Inputs)

/-- Commit sees the privileged registers of the cycle. -/
def memInputs : MemCore.Inputs :=
  { i.mem with
    commit := { i.mem.commit with intPending := s.unit.intPending, handler := s.unit.handler } }

def commitInputs : CommitInputs := s.mem.commitInputs (s.memInputs i)

def signals : CommitSignals :=
  Commit.signals s.mem.core.ports s.mem.core.fsm (s.commitInputs i)

/-- The instruction at port `j` retires. -/
def retires (j : Nat) : Bool :=
  Commit.retires s.mem.core.ports s.mem.core.fsm (s.commitInputs i) j

def needFlush : Bool := s.mem.needFlush (s.memInputs i)

/-- An exception or an interrupt is entered. -/
def entersHandler : Bool := (s.signals i).request.except.valid

def commitStore : Bool := s.mem.commitStore (s.memInputs i)

def llbit : Bool := s.unit.handler.llbctlLLBIT

/-- The store-conditionals in WB that no flush removes. -/
def sampled : List MemUop :=
  if s.mem.regFlush then [] else s.mem.wbUops.filter fun u => u.isSC

def step : PrivilegedCore where
  mem := s.mem.step (s.memInputs i)
  unit := s.unit.step innerCounterDownEvery (s.signals i) i.intrpt
  samples := s.samples ++
    s.sampled.map fun u => ⟨u.number, s.llbit, s.mem.regWrite (s.memInputs i)⟩

structure Init (s : PrivilegedCore) : Prop where
  mem : s.mem.Init
  unit : s.unit = {}
  samples : s.samples = []

def machine : Clocked.Machine PrivilegedCore Inputs where
  init := Init
  legal s i := MemCore.machine.legal s.mem (s.memInputs i)
  step := step innerCounterDownEvery

instance (s : PrivilegedCore) (i : Inputs) :
    Decidable ((machine innerCounterDownEvery).legal s i) :=
  inferInstanceAs (Decidable (MemCore.machine.legal s.mem (s.memInputs i)))

variable {innerCounterDownEvery s i}

/-- The memory core runs as it does under any privileged registers. -/
theorem reachable_mem (h : (machine innerCounterDownEvery).Reachable s) :
    MemCore.machine.Reachable s.mem := by
  induction h with
  | reset hs =>
    have hmem : MemCore.machine.init _ := hs.mem
    exact .reset hmem
  | edge _ hi ih => exact .edge ih hi

/-- Without a flush the link bit stays as it is. -/
theorem llbit_step (hflush : s.needFlush i = false) :
    (s.step innerCounterDownEvery i).llbit = s.llbit := by
  have hcommit : Commit.needFlush s.mem.core.ports s.mem.core.fsm (s.commitInputs i) = false :=
    hflush
  obtain ⟨hplain, hlink⟩ := Commit.plain_of_not_needFlush hcommit
  have hplain : (s.signals i).Plain := hplain
  change (s.unit.step innerCounterDownEvery (s.signals i) i.intrpt).handler.llbctlLLBIT = _
  rw [PrivilegedUnit.step_plain hplain]
  exact hlink

end PrivilegedCore

/-- Numbers are not used again. -/
theorem MemCore.InStep.next_le_step {t : MemCore} {i : MemCore.Inputs} (h : t.InStep)
    (hi : t.Legal i) : t.next ≤ (t.step i).next := by
  cases hflush : t.needFlush i with
  | true =>
    have hold : (t.step i).oldest = t.next + i.push.length := if_pos hflush
    change t.next ≤ (t.step i).oldest + _
    rw [hold, Nat.add_assoc]
    exact Nat.le_add_right _ _
  | false =>
    rw [next_step h.order.core (h.order.legal hi) hflush]
    exact Nat.le_add_right _ _

end NopCore
