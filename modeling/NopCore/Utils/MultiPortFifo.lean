import NopCore.Lib.Ring

/-!
# Multi-port queues

A queue in registers with several push and several pop ports. The valid push
ports and the ready pop ports of a cycle are the first ones, so a cycle is given
by the list of pushed elements and the number of ready pop ports. The pop ports
are registered: in each cycle they load the elements that will be oldest after
the pops of that cycle, and an element pushed in that cycle is forwarded.
-/

namespace NopCore

structure MultiPortFIFOVecOutReg (α : Type*) where
  dataVec : Nat → α
  ptr : Ring.Pointers
  popPayload : Nat → α

namespace MultiPortFIFOVecOutReg

variable {α : Type*} (depth : Nat) (f : MultiPortFIFOVecOutReg α)

/-- The element written through push port `i`. -/
def pushFire (push : List α) (i : Nat) : Option α :=
  if f.ptr.pushReady depth i then push[i]? else none

def pushCount (push : List α) : Nat :=
  Ring.leading push.length fun i => (f.pushFire depth push i).isSome

/-- `ready` pop ports are ready. -/
def popCount (ready : Nat) : Nat := Ring.leading ready (f.ptr.popValid depth)

/-- The element written to entry `idx`, and the port it comes through. -/
def writeAt (push : List α) (idx : Nat) : Option α :=
  f.pushFire depth push (Ring.offset depth f.ptr.push idx)

def step (push : List α) (ready : Nat) : MultiPortFIFOVecOutReg α :=
  let next := Ring.slot depth f.ptr.pop (f.popCount depth ready)
  { dataVec := fun idx => (f.writeAt depth push idx).getD (f.dataVec idx)
    ptr := f.ptr.advance depth (f.pushCount depth push) (f.popCount depth ready)
    popPayload := fun j =>
      let idx := Ring.slot depth next j
      if Ring.offset depth f.ptr.push idx ≤ j then
        (f.writeAt depth push idx).getD (f.dataVec idx)
      else f.dataVec idx }

/-- The elements in the queue from the oldest on. -/
def contents : List α := Ring.window depth f.dataVec f.ptr.pop (f.ptr.count depth)

/-- What the free slots hold, from the push pointer on. -/
def outside : List α :=
  Ring.window depth f.dataVec f.ptr.push (depth - f.ptr.count depth)

/-- The pop ports show the oldest elements. -/
def Shown : Prop :=
  ∀ j < f.ptr.count depth, f.popPayload j = f.dataVec (Ring.slot depth f.ptr.pop j)

variable {depth f} {push : List α} {ready : Nat}

@[simp] theorem length_contents : (f.contents depth).length = f.ptr.count depth := by
  simp [contents]

@[simp] theorem length_outside : (f.outside depth).length = depth - f.ptr.count depth := by
  simp [outside]

/-- The queue and what lies outside it go once around the ring. -/
theorem contents_append_outside (h : f.ptr.InRange depth) :
    f.contents depth ++ f.outside depth = Ring.window depth f.dataVec f.ptr.pop depth := by
  have hadd := Ring.window_add (D := depth) f.dataVec f.ptr.pop (f.ptr.count depth)
    (depth - f.ptr.count depth)
  rw [← Ring.Pointers.push_eq_slot h, Nat.add_sub_cancel' (Ring.Pointers.count_le h)] at hadd
  exact hadd.symm

theorem contents_append_outside_perm (h : f.ptr.InRange depth) :
    (f.contents depth ++ f.outside depth).Perm ((List.range depth).map f.dataVec) := by
  rw [contents_append_outside h]
  exact Ring.window_perm f.dataVec h.pop

/-- The pushed elements for which there is room. -/
def accepted (depth : Nat) (f : MultiPortFIFOVecOutReg α) (push : List α) : List α :=
  push.take (depth - f.ptr.count depth)

/-- The number of elements that leave. -/
def taken (depth : Nat) (f : MultiPortFIFOVecOutReg α) (ready : Nat) : Nat :=
  min ready (f.ptr.count depth)

theorem count_add_accepted_le (push : List α) (h : f.ptr.InRange depth) :
    f.ptr.count depth + (f.accepted depth push).length ≤ depth := by
  have hle := Ring.Pointers.count_le h
  rw [accepted, List.length_take]
  omega

theorem taken_le (depth : Nat) (f : MultiPortFIFOVecOutReg α) (ready : Nat) :
    f.taken depth ready ≤ f.ptr.count depth := Nat.min_le_right _ _

theorem pushFire_eq (h : f.ptr.InRange depth) {i : Nat} (hi : i < depth) :
    f.pushFire depth push i = (f.accepted depth push)[i]? := by
  rw [pushFire, accepted, List.getElem?_take]
  refine if_congr ?_ rfl rfl
  rw [Ring.Pointers.pushReady_iff h hi]
  omega

theorem pushCount_eq (h : f.ptr.InRange depth) (hwidth : push.length ≤ depth) :
    f.pushCount depth push = (f.accepted depth push).length := by
  rw [accepted, List.length_take, Nat.min_comm]
  refine Ring.leading_eq_min fun i hi => ?_
  rw [pushFire_eq h (by omega), isSome_getElem?, accepted, List.length_take]
  omega

theorem popCount_eq (hready : ready ≤ depth) : f.popCount depth ready = f.taken depth ready :=
  Ring.leading_eq_min fun _ hi => Ring.Pointers.popValid_iff (by omega)

theorem writeAt_eq (h : f.ptr.InRange depth) (idx : Nat) :
    (f.writeAt depth push idx).getD (f.dataVec idx) =
      Ring.write depth f.dataVec f.ptr.push (f.accepted depth push) idx := by
  rw [writeAt, pushFire_eq h (Ring.offset_lt h.pos _ _)]
  rfl

/-! ## One cycle -/

section Step

variable (h : f.ptr.InRange depth) (hwidth : push.length ≤ depth) (hready : ready ≤ depth)

include h hwidth hready

theorem ptr_step : (f.step depth push ready).ptr =
    f.ptr.advance depth (f.accepted depth push).length (f.taken depth ready) := by
  rw [← pushCount_eq h hwidth, ← popCount_eq hready]
  rfl

theorem inRange_step : (f.step depth push ready).ptr.InRange depth := by
  rw [ptr_step h hwidth hready]
  exact h.advance _ _

theorem count_step : (f.step depth push ready).ptr.count depth =
    f.ptr.count depth + (f.accepted depth push).length - f.taken depth ready := by
  rw [ptr_step h hwidth hready]
  exact Ring.Pointers.count_advance h (count_add_accepted_le push h)
    (taken_le depth f ready)

omit hwidth hready in
theorem dataVec_step : (f.step depth push ready).dataVec =
    Ring.write depth f.dataVec f.ptr.push (f.accepted depth push) :=
  funext fun idx => writeAt_eq h idx

/-- The queue drops what was taken and appends what was accepted. -/
theorem contents_step : (f.step depth push ready).contents depth =
    (f.contents depth ++ f.accepted depth push).drop (f.taken depth ready) := by
  have hroom := count_add_accepted_le push h
  have hbase := Ring.window_write_of_le f.dataVec h.push (f.accepted depth push)
    (i := depth - f.ptr.count depth) (n := f.ptr.count depth) (by omega) (by omega)
  rw [← Ring.Pointers.pop_eq_slot h] at hbase
  have hnew := Ring.window_write_self f.dataVec h.push (f.accepted depth push) (by omega)
  have hall : f.contents depth ++ f.accepted depth push =
      Ring.window depth (f.step depth push ready).dataVec f.ptr.pop
        (f.ptr.count depth + (f.accepted depth push).length) := by
    rw [Ring.window_add, ← Ring.Pointers.push_eq_slot h, dataVec_step h, hbase, hnew]
    rfl
  have htaken := taken_le depth f ready
  rw [hall, Ring.window_drop _ _ (by omega), contents, count_step h hwidth hready,
    ptr_step h hwidth hready]
  rfl

/-- The free slots lose those written and gain those taken, whose elements stay. -/
theorem outside_step : (f.step depth push ready).outside depth =
    (f.outside depth).drop (f.accepted depth push).length ++
      (f.contents depth).take (f.taken depth ready) := by
  have hroom := count_add_accepted_le push h
  have htaken := taken_le depth f ready
  have hfree := Ring.window_write_of_le f.dataVec h.push (f.accepted depth push)
    (n := depth - f.ptr.count depth - (f.accepted depth push).length) le_rfl (by omega)
  have hpopped := Ring.window_write_of_le f.dataVec h.push (f.accepted depth push)
    (i := depth - f.ptr.count depth) (n := f.taken depth ready) (by omega) (by omega)
  have hsplit : depth - (f.ptr.count depth + (f.accepted depth push).length -
      f.taken depth ready) =
      depth - f.ptr.count depth - (f.accepted depth push).length + f.taken depth ready := by
    omega
  have hbehind : Ring.slot depth (Ring.slot depth f.ptr.push (f.accepted depth push).length)
      (depth - f.ptr.count depth - (f.accepted depth push).length) =
      Ring.slot depth f.ptr.push (depth - f.ptr.count depth) := by
    rw [Ring.slot_slot, Nat.add_sub_cancel' (by omega)]
  rw [outside, outside, contents, Ring.window_drop _ _ (by omega), Ring.window_take _ _ htaken,
    count_step h hwidth hready, hsplit, ptr_step h hwidth hready, dataVec_step h]
  change Ring.window depth _ (Ring.slot depth f.ptr.push _) _ = _
  rw [Ring.window_add, hbehind, hfree, hpopped, ← Ring.Pointers.pop_eq_slot h]

/-- The pop ports are loaded with what the cycle leaves in the memory. -/
theorem shown_step : (f.step depth push ready).Shown depth := by
  intro j hj
  rw [count_step h hwidth hready] at hj
  have hroom := count_add_accepted_le push h
  have htaken := taken_le depth f ready
  have hnext : (f.step depth push ready).ptr.pop =
      Ring.slot depth f.ptr.pop (f.popCount depth ready) := rfl
  rw [hnext, dataVec_step h]
  change ite _ _ _ = _
  rw [writeAt_eq h]
  split_ifs with hbypass
  · rfl
  · -- a slot in front of the bypass is one of those that were occupied
    rw [Ring.write, List.getElem?_eq_none]
    · rfl
    · rw [popCount_eq hready, Ring.slot_slot] at hbypass ⊢
      by_cases hold : f.taken depth ready + j < f.ptr.count depth
      · have hslot : Ring.slot depth f.ptr.pop (f.taken depth ready + j) =
            Ring.slot depth f.ptr.push
              (depth - f.ptr.count depth + (f.taken depth ready + j)) := by
          conv_lhs => rw [Ring.Pointers.pop_eq_slot h]
          rw [Ring.slot_slot]
        rw [hslot, Ring.offset_slot h.push (by omega)]
        omega
      · have hslot : Ring.slot depth f.ptr.pop (f.taken depth ready + j) =
            Ring.slot depth f.ptr.push (f.taken depth ready + j - f.ptr.count depth) := by
          conv_rhs => rw [Ring.Pointers.push_eq_slot h]
          rw [Ring.slot_slot, Nat.add_sub_cancel' (by omega)]
        rw [hslot, Ring.offset_slot h.push (by omega)] at hbypass
        omega

end Step

end MultiPortFIFOVecOutReg

/-! ## Without registered pop ports -/

/-- The queue whose pop ports read the memory in the same cycle. -/
structure MultiPortFIFOVec (α : Type*) where
  dataVec : Nat → α
  ptr : Ring.Pointers

namespace MultiPortFIFOVec

variable {α : Type*} (depth : Nat) (f : MultiPortFIFOVec α)

def popPayload (j : Nat) : α := f.dataVec (Ring.slot depth f.ptr.pop j)

/-- The queue with registered pop ports that has the same entries. Both have the
same logic for pushes and for the pointers. -/
def outReg : MultiPortFIFOVecOutReg α := ⟨f.dataVec, f.ptr, f.popPayload depth⟩

/-- A flush clears the pointers, whatever is pushed or popped. -/
def step (push : List α) (ready : Nat) (flush : Bool) : MultiPortFIFOVec α where
  dataVec := ((f.outReg depth).step depth push ready).dataVec
  ptr := if flush then {} else ((f.outReg depth).step depth push ready).ptr

/-- The elements that the ready pop ports hand over. -/
def popped (ready : Nat) : List α :=
  (List.range ((f.outReg depth).popCount depth ready)).map (f.popPayload depth)

def contents : List α := (f.outReg depth).contents depth

variable {depth f} {push : List α} {ready : Nat}

theorem contents_flush : (f.step depth push ready true).contents depth = [] := rfl

theorem inRange_step (h : f.ptr.InRange depth) (hwidth : push.length ≤ depth)
    (hready : ready ≤ depth) (flush : Bool) :
    (f.step depth push ready flush).ptr.InRange depth := by
  cases flush with
  | true => exact ⟨h.pos, h.pos⟩
  | false => exact MultiPortFIFOVecOutReg.inRange_step (f := f.outReg depth) h hwidth hready

/-- What was there and what is pushed is handed over or stays, in this order. -/
theorem popped_append_contents (h : f.ptr.InRange depth)
    (hpush : ∀ k < push.length, f.ptr.pushReady depth k = true) (hwidth : push.length ≤ depth)
    (hready : ready ≤ depth) :
    f.popped depth ready ++ (f.step depth push ready false).contents depth =
      f.contents depth ++ push := by
  have hroom := Ring.Pointers.room h hwidth hpush
  have hall : (f.outReg depth).accepted depth push = push := by
    refine List.take_of_length_le ?_
    change push.length ≤ depth - f.ptr.count depth
    omega
  have hle : (f.outReg depth).taken depth ready ≤ (f.contents depth).length := by
    simp [contents, MultiPortFIFOVecOutReg.taken]
  have hpopped : f.popped depth ready =
      (f.contents depth).take ((f.outReg depth).taken depth ready) := by
    rw [popped, MultiPortFIFOVecOutReg.popCount_eq hready, contents,
      MultiPortFIFOVecOutReg.contents,
      Ring.window_take _ _ (MultiPortFIFOVecOutReg.taken_le depth (f.outReg depth) ready)]
    rfl
  have hcontents : (f.step depth push ready false).contents depth =
      (f.contents depth ++ push).drop ((f.outReg depth).taken depth ready) := by
    conv_rhs => rw [← hall]
    exact MultiPortFIFOVecOutReg.contents_step (f := f.outReg depth) h hwidth hready
  rw [hpopped, hcontents, List.drop_append_of_le_length hle, ← List.append_assoc,
    List.take_append_drop]

end MultiPortFIFOVec

end NopCore
