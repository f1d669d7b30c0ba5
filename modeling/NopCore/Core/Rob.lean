import NopCore.Core.MicroOp
import NopCore.Lib.Ring

/-!
# The reorder buffer

A ring of 32 entries in two parts. The information written at rename lives in a
banked RAM whose read port is registered and write-first; the state of execution
lives in registers that every completion port can write. The three pop ports are
registered as well: in each cycle they load the entries that will be oldest
after the pops of that cycle, and every write of that cycle to one of those
entries is forwarded into them.

A completion overwrites the whole state of an entry. Only the port of the first
integer pipe carries a mispredict bit; through the others the bit becomes false.
-/

namespace NopCore

def robDepth : Nat := 32
def retireWidth : Nat := 3
def decodeWidth : Nat := 3

structure RenameRecord where
  rRegs : Nat × Nat := (0, 0)
  wReg : Nat := 0
  wPrevReg : Nat := 0
  deriving DecidableEq, Repr

/-- Written at rename, never changed by execution. -/
structure ROBEntryInfo where
  uop : MicroOp := {}
  rename : RenameRecord := {}
  frontendExc : Bool := false

/-- Changed by execution. -/
structure ROBEntryState where
  complete : Bool := false
  except : ExceptionPayload := {}
  mispredict : Bool := false
  actualTaken : Bool := false
  lsuUncached : Bool := false
  intResult : UWord := 0
  deriving DecidableEq, Repr

/-- A renamed instruction at a push port. -/
structure PushPort where
  uop : MicroOp := {}
  rename : RenameRecord := {}

def PushPort.info (p : PushPort) : ROBEntryInfo :=
  { uop := p.uop, rename := p.rename, frontendExc := p.uop.except.valid }

/-- The push port drives only part of the state; the remaining registers, among
them the bad address, keep what the previous owner of the entry left. -/
def PushPort.state (p : PushPort) (old : ROBEntryState) : ROBEntryState :=
  { old with
    complete := p.uop.needNotExecute
    except := { p.uop.except with badVA := old.except.badVA }
    mispredict := !p.uop.branchLike && p.uop.predInfo.predictTaken
    actualTaken := false }

/-- The pipes that report completion. -/
inductive ExecUnit
  | int0 | int1 | int2 | mulDiv | mem
  deriving DecidableEq, Repr

/-- The pipes that can execute an operation. -/
def ExecUnit.executes : ExecUnit → FUType → Bool
  | .int0, fu => fu == .alu || fu == .cmp || fu == .csr || fu == .invtlb
  | .int1, fu => fu == .alu || fu == .timer
  | .int2, fu => fu == .alu
  | .mulDiv, fu => fu == .mul || fu == .mulh || fu == .div || fu == .mod
  | .mem, fu => fu == .lsu

/-- A completion write. `condition` is the comparator output of the branch unit
and `target` its target or the result it stands for. -/
structure Completion where
  unit : ExecUnit
  robIdx : Nat
  uop : MicroOp
  result : UWord := 0
  condition : Bool := false
  target : UWord := 0
  except : ExceptionPayload := {}
  lsuUncached : Bool := false

/-- The branch unit's verdict on the prediction. -/
def bruMispredict (uop : MicroOp) (condition : Bool) (actualTarget : UWord) : Bool :=
  if uop.branchLike then
    (uop.predInfo.predictTaken ^^ (condition || uop.isJR || uop.isJump)) ||
      ((condition || uop.isJR || uop.isJump) && actualTarget != uop.predInfo.predictAddr)
  else uop.predInfo.predictTaken

/-- The state an entry is given by a completion: the default state, complete,
with the fields the port carries. -/
def Completion.state (c : Completion) : ROBEntryState :=
  match c.unit with
  | .int0 =>
    { complete := true
      intResult := c.target
      mispredict := bruMispredict c.uop c.condition c.target
      actualTaken := c.condition || c.uop.isJR || c.uop.isJump }
  | .int1 | .int2 => { complete := true, intResult := c.result }
  | .mem =>
    { complete := true, except := c.except, lsuUncached := c.lsuUncached
      intResult := c.result }
  | .mulDiv => { complete := true }

structure ROBFIFO where
  robInfo : Nat → ROBEntryInfo := fun _ => {}
  robState : Nat → ROBEntryState := fun _ => {}
  ptr : Ring.Pointers := {}
  popInfo : Nat → ROBEntryInfo := fun _ => {}
  popState : Nat → ROBEntryState := fun _ => {}

namespace ROBFIFO

/-- Write the instruction at push port `i` to the two parts and to the pop
registers it overtakes. `next` is the pop pointer after this cycle. -/
def writePush (next : Nat) (r : ROBFIFO) (i : Nat) (p : PushPort) : ROBFIFO :=
  let idx := Ring.slot robDepth r.ptr.push i
  { r with
    robInfo := Function.update r.robInfo idx p.info
    robState := Function.update r.robState idx (p.state (r.robState idx))
    popState := fun j =>
      if i ≤ j ∧ idx = Ring.slot robDepth next j then p.state (r.popState j)
      else r.popState j }

def writePushes (next : Nat) (r : ROBFIFO) : Nat → List PushPort → ROBFIFO
  | _, [] => r
  | i, p :: ps => writePushes next (writePush next r i p) (i + 1) ps

/-- Write a completed state through a completion port. -/
def writeState (next : Nat) (r : ROBFIFO) (c : Completion) : ROBFIFO :=
  { r with
    robState := Function.update r.robState c.robIdx c.state
    popState := fun j =>
      if c.robIdx = Ring.slot robDepth next j then c.state else r.popState j }

/-- The order in which the completion ports are elaborated. -/
def portOrder : List ExecUnit := [.int1, .int2, .int0, .mem, .mulDiv]

/-- The completions of a cycle in the order of their ports. -/
def inPortOrder (cs : List Completion) : List Completion :=
  portOrder.flatMap fun u => cs.filter fun c => c.unit == u

/-- The pop registers load the entries that will be oldest. -/
def load (next : Nat) (r : ROBFIFO) : ROBFIFO :=
  { r with popState := fun j => r.robState (Ring.slot robDepth next j) }

/-- One cycle: `popCount` entries leave, `push` enters, completions are written,
and a flush empties the ring. -/
def step (r : ROBFIFO) (push : List PushPort) (popCount : Nat) (completions : List Completion)
    (flush : Bool) : ROBFIFO :=
  let next := Ring.slot robDepth r.ptr.pop popCount
  let pushed := writePushes next (r.load next) 0 push
  let written := (inPortOrder completions).foldl (writeState next) pushed
  { written with
    -- the RAM is write-first, so the registered read sees this cycle's pushes
    popInfo := fun j => written.robInfo (Ring.slot robDepth next j)
    ptr := if flush then {} else r.ptr.advance robDepth push.length popCount }

/-! ## What a cycle writes

Every register of the ring is written by at most one push and then by any number
of completions, the last of which stays. -/

section Writes

variable (next : Nat) (r : ROBFIFO)

/-- The push, if any, that writes entry `idx` when ports `i`, `i + 1`, … push `ps`. -/
def pushAt (pushPtr idx i : Nat) (ps : List PushPort) : Option PushPort :=
  let o := Ring.offset robDepth pushPtr idx
  if i ≤ o then ps[o - i]? else none

/-- The completion, if any, that writes entry `idx` last. -/
def completionAt (idx : Nat) (cs : List Completion) : Option Completion :=
  cs.reverse.find? fun c => c.robIdx == idx

theorem mem_of_completionAt {idx : Nat} {cs : List Completion} {c : Completion}
    (h : completionAt idx (inPortOrder cs) = some c) : c ∈ cs ∧ c.robIdx = idx := by
  have hidx : c.robIdx = idx := by simpa using List.find?_some h
  have hmem : c ∈ inPortOrder cs := List.mem_reverse.mp (List.mem_of_find?_eq_some h)
  simp only [inPortOrder, List.mem_flatMap, List.mem_filter] at hmem
  obtain ⟨_, _, hc, _⟩ := hmem
  exact ⟨hc, hidx⟩

/-- A completion is written, if no later one overtakes it. -/
theorem exists_completionAt {idx : Nat} {cs : List Completion} {c : Completion} (hc : c ∈ cs)
    (hidx : c.robIdx = idx) : ∃ c', completionAt idx (inPortOrder cs) = some c' := by
  have hmem : c ∈ inPortOrder cs := by
    simp only [inPortOrder, List.mem_flatMap, List.mem_filter, beq_iff_eq]
    exact ⟨c.unit, by cases c.unit <;> decide, hc, rfl⟩
  refine Option.ne_none_iff_exists'.mp fun hnone => ?_
  have hno := List.find?_eq_none.mp hnone c (List.mem_reverse.mpr hmem)
  exact hno (beq_iff_eq.mpr hidx)

private theorem pushAt_cons {pushPtr idx i : Nat} (hptr : pushPtr < robDepth)
    (hidx : idx < robDepth) (hi : i < robDepth) (p : PushPort) (ps : List PushPort) :
    pushAt pushPtr idx i (p :: ps) =
      if idx = Ring.slot robDepth pushPtr i then some p else pushAt pushPtr idx (i + 1) ps := by
  have hslot : idx = Ring.slot robDepth pushPtr i ↔ Ring.offset robDepth pushPtr idx = i := by
    constructor
    · rintro rfl
      exact Ring.offset_slot hptr hi
    · intro h
      rw [← h, Ring.slot_offset hptr hidx]
  simp only [pushAt, hslot]
  rcases Nat.lt_trichotomy (Ring.offset robDepth pushPtr idx) i with h | h | h
  · rw [if_neg (by omega), if_neg (by omega), if_neg (by omega)]
  · rw [if_pos (by omega), if_pos h, h, Nat.sub_self]
    rfl
  · rw [if_pos (by omega), if_neg (by omega), if_pos (by omega),
      show Ring.offset robDepth pushPtr idx - i =
        (Ring.offset robDepth pushPtr idx - (i + 1)) + 1 by omega, List.getElem?_cons_succ]

@[simp] theorem writePushes_ptr (i : Nat) (ps : List PushPort) :
    (writePushes next r i ps).ptr = r.ptr := by
  induction ps generalizing r i with
  | nil => rfl
  | cons p ps ih => exact ih _ _

@[simp] theorem writeStates_ptr (cs : List Completion) :
    (cs.foldl (writeState next) r).ptr = r.ptr := by
  induction cs generalizing r with
  | nil => rfl
  | cons c cs ih => exact ih _

@[simp] theorem writeStates_robInfo (cs : List Completion) :
    (cs.foldl (writeState next) r).robInfo = r.robInfo := by
  induction cs generalizing r with
  | nil => rfl
  | cons c cs ih => exact ih _

theorem writePushes_robInfo {idx i : Nat} (hptr : r.ptr.push < robDepth) (hidx : idx < robDepth)
    (ps : List PushPort) (hi : i + ps.length ≤ robDepth) :
    (writePushes next r i ps).robInfo idx =
      ((pushAt r.ptr.push idx i ps).map PushPort.info).getD (r.robInfo idx) := by
  induction ps generalizing r i with
  | nil => simp [writePushes, pushAt]
  | cons p ps ih =>
    rw [List.length_cons] at hi
    rw [writePushes, ih (writePush next r i p) hptr (by omega),
      pushAt_cons hptr hidx (by omega)]
    change ((pushAt r.ptr.push idx (i + 1) ps).map PushPort.info).getD
      (Function.update r.robInfo (Ring.slot robDepth r.ptr.push i) p.info idx) = _
    split_ifs with h
    · have hlater : pushAt r.ptr.push idx (i + 1) ps = none := by
        rw [pushAt, h, Ring.offset_slot hptr (by omega), if_neg (by omega)]
      rw [hlater, h, Function.update_self]
      rfl
    · rw [Function.update_of_ne h]

theorem writePushes_robState {idx i : Nat} (hptr : r.ptr.push < robDepth) (hidx : idx < robDepth)
    (ps : List PushPort) (hi : i + ps.length ≤ robDepth) :
    (writePushes next r i ps).robState idx =
      ((pushAt r.ptr.push idx i ps).map fun p => p.state (r.robState idx)).getD
        (r.robState idx) := by
  induction ps generalizing r i with
  | nil => simp [writePushes, pushAt]
  | cons p ps ih =>
    rw [List.length_cons] at hi
    rw [writePushes, ih (writePush next r i p) hptr (by omega),
      pushAt_cons hptr hidx (by omega)]
    have hrob : (writePush next r i p).robState idx =
        if idx = Ring.slot robDepth r.ptr.push i then p.state (r.robState idx)
        else r.robState idx := by
      simp only [writePush, Function.update_apply]
      split_ifs with h
      · rw [h]
      · rfl
    change ((pushAt r.ptr.push idx (i + 1) ps).map fun q =>
      q.state ((writePush next r i p).robState idx)).getD _ = _
    rw [hrob]
    split_ifs with h
    · have hlater : pushAt r.ptr.push idx (i + 1) ps = none := by
        rw [pushAt, h, Ring.offset_slot hptr (by omega), if_neg (by omega)]
      rw [hlater]
      rfl
    · rfl

theorem writeStates_robState (idx : Nat) (cs : List Completion) :
    (cs.foldl (writeState next) r).robState idx =
      ((completionAt idx cs).map Completion.state).getD (r.robState idx) := by
  induction cs using List.reverseRecOn with
  | nil => rfl
  | append_singleton cs c ih =>
    rw [List.foldl_append, completionAt, List.reverse_append]
    simp only [List.foldl_cons, List.foldl_nil, List.reverse_cons, List.reverse_nil,
      List.nil_append, List.singleton_append, List.find?_cons, writeState,
      Function.update_apply]
    by_cases h : c.robIdx = idx
    · simp [h]
    · have hne : (c.robIdx == idx) = false := by simpa using h
      rw [hne, if_neg (Ne.symm h)]
      exact ih

/-- The first `n` pop registers hold the states of the entries they stand for. -/
def Synced (n : Nat) : Prop :=
  ∀ j < n, r.popState j = r.robState (Ring.slot robDepth next j)

variable {next r}

-- A push at port `i` is forwarded only to the pop registers from `i` on; a
-- register in front of that is never the one being written.
theorem Synced.writePushes {n i : Nat} (h : Synced next r n) (ps : List PushPort)
    (hbehind : ∀ k, ∀ j < n, Ring.slot robDepth r.ptr.push k = Ring.slot robDepth next j →
      i ≤ k → k < i + ps.length → k ≤ j) :
    Synced next (writePushes next r i ps) n := by
  induction ps generalizing r i with
  | nil => exact h
  | cons p ps ih =>
    rw [List.length_cons] at hbehind
    refine ih (r := writePush next r i p) ?_ ?_
    · intro j hj
      simp only [writePush, Function.update_apply]
      by_cases hslot : Ring.slot robDepth next j = Ring.slot robDepth r.ptr.push i
      · have hle : i ≤ j := hbehind i j hj hslot.symm (Nat.le_refl i) (by omega)
        rw [if_pos ⟨hle, hslot.symm⟩, if_pos hslot, h j hj, hslot]
      · rw [if_neg (fun hc => hslot hc.2.symm), if_neg hslot]
        exact h j hj
    · intro k j hj hslot hik hkl
      exact hbehind k j hj hslot (by omega) (by omega)

theorem Synced.writeStates {n : Nat} (h : Synced next r n) (cs : List Completion) :
    Synced next (cs.foldl (writeState next) r) n := by
  induction cs generalizing r with
  | nil => exact h
  | cons c cs ih =>
    refine ih (r := writeState next r c) ?_
    intro j hj
    simp only [writeState, Function.update_apply]
    by_cases hidx : c.robIdx = Ring.slot robDepth next j
    · rw [if_pos hidx, if_pos hidx.symm]
    · rw [if_neg hidx, if_neg (Ne.symm hidx)]
      exact h j hj

end Writes

section Step

variable {r : ROBFIFO} {push : List PushPort} {popCount : Nat} {completions : List Completion}
  {flush : Bool}

/-- Seen from the oldest entry, the pushed instructions lie behind the occupied
entries. -/
theorem pushAt_slot {o : Nat} (h : r.ptr.InRange robDepth) (ho : o < robDepth)
    (hpush : r.ptr.count robDepth + push.length ≤ robDepth) :
    pushAt r.ptr.push (Ring.slot robDepth r.ptr.pop o) 0 push =
      if r.ptr.count robDepth ≤ o then push[o - r.ptr.count robDepth]? else none := by
  simp only [pushAt, Nat.zero_le, if_true, Nat.sub_zero]
  split_ifs with hle
  · have hslot : Ring.slot robDepth r.ptr.pop o =
        Ring.slot robDepth r.ptr.push (o - r.ptr.count robDepth) := by
      rw [Ring.Pointers.push_eq_slot h, Ring.slot_slot, Nat.add_sub_cancel' hle]
    rw [hslot, Ring.offset_slot h.push (by omega)]
  · have hslot : Ring.slot robDepth r.ptr.pop o =
        Ring.slot robDepth r.ptr.push (robDepth - r.ptr.count robDepth + o) := by
      conv_lhs => rw [Ring.Pointers.pop_eq_slot h]
      rw [Ring.slot_slot]
    rw [hslot, Ring.offset_slot h.push (by omega)]
    exact List.getElem?_eq_none (by omega)

theorem step_robInfo {idx : Nat} (hptr : r.ptr.push < robDepth) (hidx : idx < robDepth)
    (hpush : push.length ≤ robDepth) :
    (r.step push popCount completions flush).robInfo idx =
      ((pushAt r.ptr.push idx 0 push).map PushPort.info).getD (r.robInfo idx) := by
  simp only [step, writeStates_robInfo]
  exact writePushes_robInfo _ (r.load _) hptr hidx push (by omega)

theorem step_robState {idx : Nat} (hptr : r.ptr.push < robDepth) (hidx : idx < robDepth)
    (hpush : push.length ≤ robDepth) :
    (r.step push popCount completions flush).robState idx =
      ((completionAt idx (inPortOrder completions)).map Completion.state).getD
        (((pushAt r.ptr.push idx 0 push).map fun p => p.state (r.robState idx)).getD
          (r.robState idx)) := by
  simp only [step, writeStates_robState]
  congr 1
  exact writePushes_robState _ (r.load _) hptr hidx push (by omega)

theorem step_ptr : (r.step push popCount completions flush).ptr =
    if flush then {} else r.ptr.advance robDepth push.length popCount := rfl

theorem step_inRange (h : r.ptr.InRange robDepth) :
    (r.step push popCount completions flush).ptr.InRange robDepth := by
  rw [step_ptr]
  split_ifs
  · exact ⟨by decide, by decide⟩
  · exact h.advance _ _

theorem step_popInfo (j : Nat) :
    (r.step push popCount completions flush).popInfo j =
      (r.step push popCount completions flush).robInfo
        (Ring.slot robDepth (Ring.slot robDepth r.ptr.pop popCount) j) := rfl

theorem step_popState {j : Nat} (h : r.ptr.InRange robDepth)
    (hpop : popCount ≤ r.ptr.count robDepth)
    (hpush : r.ptr.count robDepth + push.length ≤ robDepth)
    (hj : j < r.ptr.count robDepth + push.length - popCount) :
    (r.step push popCount completions flush).popState j =
      (r.step push popCount completions flush).robState
        (Ring.slot robDepth (Ring.slot robDepth r.ptr.pop popCount) j) := by
  have hloaded : Synced (Ring.slot robDepth r.ptr.pop popCount)
      (r.load (Ring.slot robDepth r.ptr.pop popCount))
      (r.ptr.count robDepth + push.length - popCount) := fun j _ => rfl
  refine ((hloaded.writePushes push ?_).writeStates _) j hj
  intro k i hi hslot _ hk
  change Ring.slot robDepth r.ptr.push k = _ at hslot
  rw [Ring.Pointers.push_eq_slot h, Ring.slot_slot, Ring.slot_slot] at hslot
  have heq := Ring.slot_inj (by omega) (by omega) hslot
  omega

end Step

end ROBFIFO

end NopCore
