import Mathlib.Data.List.ReduceOption
import NopCore.Core.Precise
import NopCore.Decode.Dispatch

/-!
# Dispatch is atomic

Every stage makes all of a group's entries or none of them, whatever halts it. Over a
run this means: since the last flush, the instructions that have left RENAME are in the
reorder buffer one after the other, each at the index in its slot, and each queue has
been given those that it takes, in the same order, except for those that are still in
DISPATCH.
-/

namespace NopCore

open Rename

namespace DispatchCore

/-- The part of some instructions that goes to a queue. -/
def part (q : IssueQueue) (slots : List DispatchSlot) : List IssueSlot :=
  (slots.filter fun slot => q.takes slot.uop).map DispatchSlot.issueSlot

@[simp] theorem part_nil (q : IssueQueue) : part q [] = [] := rfl

@[simp] theorem part_append (q : IssueQueue) (l l' : List DispatchSlot) :
    part q (l ++ l') = part q l ++ part q l' := by
  simp [part]

theorem length_part (q : IssueQueue) (slots : List DispatchSlot) :
    (part q slots).length = (slots.filter fun slot => q.takes slot.uop).length :=
  List.length_map _

theorem length_part_le (q : IssueQueue) (slots : List DispatchSlot) :
    (part q slots).length ≤ slots.length := by
  rw [length_part]
  exact List.length_filter_le _ _

variable {t : DispatchCore} {i : Inputs}

/-! ## DISPATCH -/

/-- The instructions in the stage fit its lanes, and the ports of the integer queue are
connected to those it takes. -/
structure Routed (t : DispatchCore) : Prop where
  width : t.slots.length ≤ decodeWidth
  pushIndexes : ∀ j, t.pushIndexes j = Compressed.portIndex decodeWidth (t.enqueueMask .int) j

theorem Routed.portIndex_eq (h : t.Routed) (q : IssueQueue) (j : Nat) :
    t.portIndex q j = Compressed.portIndex decodeWidth (t.enqueueMask q) j := by
  cases q with
  | int => exact h.pushIndexes j
  | mulDiv | mem => rfl

/-- The ports of a queue show the part of the group that goes there. -/
theorem Routed.pushPort_eq (h : t.Routed) (hfire : (t.isValid && !t.isStuck) = true)
    (q : IssueQueue) (j : Nat) : t.pushPort q j = (part q t.slots)[j]? := by
  rw [pushPort, if_pos hfire, h.portIndex_eq, part, List.getElem?_map]
  congr 1
  exact Compressed.portIndex_bind h.width j

theorem pushPort_of_stuck (hfire : (t.isValid && !t.isStuck) = false) (q : IssueQueue) (j : Nat) :
    t.pushPort q j = none := by
  rw [pushPort, hfire, if_neg Bool.false_ne_true]

/-- The group is pushed as a whole, each instruction to the queue that takes it, or
nothing is pushed. -/
theorem pushes_eq (h : t.isValid = true → t.Routed) (q : IssueQueue) :
    t.pushes q = if t.isValid && !t.isStuck then part q t.slots else [] := by
  rw [pushes]
  split_ifs with hfire
  · have hrouted := h (Bool.and_eq_true _ _ ▸ hfire).1
    rw [funext (hrouted.pushPort_eq hfire q), Compressed.filterMap_range_getElem?]
    exact List.take_of_length_le ((length_part_le q _).trans hrouted.width)
  · rw [funext (pushPort_of_stuck (Bool.not_eq_true _ ▸ hfire) q)]
    simp

theorem pushPort_getElem? (h : t.isValid = true → t.Routed) (q : IssueQueue) (j : Nat) :
    t.pushPort q j = (t.pushes q)[j]? := by
  rw [pushes_eq h]
  split_ifs with hfire
  · exact (h (Bool.and_eq_true _ _ ▸ hfire).1).pushPort_eq hfire q j
  · rw [pushPort_of_stuck (Bool.not_eq_true _ ▸ hfire)]
    rfl

/-- A queue halts the stage exactly if a port it would use is not ready. -/
theorem Routed.haltsFor_iff (h : t.Routed) (q : IssueQueue) :
    t.haltsFor q = true ↔ ∃ j < (part q t.slots).length, t.pushReady q j = false := by
  have hlanes : (List.range decodeWidth).any (fun k => t.enqueueMask q k &&
      !t.pushReady q (Nat.count (fun k => t.enqueueMask q k) k)) = true ↔
      ∃ j < (part q t.slots).length, t.pushReady q j = false := by
    simp only [List.any_eq_true, List.mem_range, Bool.and_eq_true, Bool.not_eq_true']
    constructor
    · rintro ⟨k, -, hused, hfull⟩
      refine ⟨_, ?_, hfull⟩
      rw [length_part]
      exact Compressed.count_lt_of_any hused
    · rintro ⟨j, hj, hfull⟩
      rw [length_part] at hj
      obtain ⟨k, hk, hused, hrank, -⟩ := Compressed.filter_getElem? t.slots hj
      refine ⟨k, hk.trans_le h.width, hused, ?_⟩
      rw [← hrank] at hfull
      exact hfull
  cases q with
  | int =>
    simp only [haltsFor, List.any_eq_true, List.mem_range, Bool.and_eq_true, Bool.not_eq_true',
      h.pushIndexes]
    have hsome : ∀ j, (Compressed.portIndex decodeWidth (t.enqueueMask .int) j).isSome =
        decide (j < (part .int t.slots).length) := by
      intro j
      rw [length_part]
      exact Compressed.portIndex_isSome h.width j
    simp only [hsome, decide_eq_true_eq]
    constructor
    · rintro ⟨j, -, hj, hfull⟩
      exact ⟨j, hj, hfull⟩
    · rintro ⟨j, hj, hfull⟩
      exact ⟨j, hj.trans_le ((length_part_le _ _).trans h.width), hj, hfull⟩
  | mulDiv => exact hlanes
  | mem => exact hlanes

/-- The queue has room for its part of the group exactly if it does not halt the stage. -/
theorem Routed.room_iff (h : t.Routed) {q : IssueQueue} {l : List IssueSlot}
    (hl : Compressed.Holds q.depth (t.queue q) l) :
    t.haltsFor q = false ↔ l.length + (part q t.slots).length ≤ q.depth := by
  have hdepth : decodeWidth ≤ q.depth := by cases q <;> decide
  have hwidth := (length_part_le q t.slots).trans h.width
  have hready : ∀ j < (part q t.slots).length,
      t.pushReady q j = true ↔ l.length + j < q.depth := by
    intro j hj
    exact hl.pushReady_iff (by omega)
  rw [← Bool.not_eq_true, h.haltsFor_iff]
  constructor
  · intro hno
    rcases Nat.eq_zero_or_pos (part q t.slots).length with hzero | hpos
    · have hle := hl.length_le
      omega
    · have hlast : t.pushReady q ((part q t.slots).length - 1) = true := by
        by_contra hfull
        exact hno ⟨_, by omega, Bool.not_eq_true _ ▸ hfull⟩
      rw [hready _ (by omega)] at hlast
      omega
  · rintro hroom ⟨j, hj, hfull⟩
    rw [← Bool.not_eq_true, hready j hj] at hfull
    omega

/-- A valid group moves on exactly if every queue has room for its part. -/
theorem Routed.isStuck_iff (h : t.Routed) (hvalid : t.isValid = true)
    {l : IssueQueue → List IssueSlot}
    (hl : ∀ q, Compressed.Holds q.depth (t.queue q) (l q)) :
    t.isStuck = false ↔ ∀ q, (l q).length + (part q t.slots).length ≤ q.depth := by
  have hall : t.isStuck = false ↔ ∀ q, t.haltsFor q = false := by
    simp only [isStuck, hvalid, Bool.true_and, Bool.or_eq_false_iff]
    constructor
    · rintro ⟨⟨hint, hmulDiv⟩, hmem⟩ q
      cases q <;> assumption
    · intro hq
      exact ⟨⟨hq .int, hq .mulDiv⟩, hq .mem⟩
  rw [hall]
  exact forall_congr' fun q => h.room_iff (hl q)

/-! ## RENAME -/

theorem uop_renamed (rat payload : Nat → Nat) (older : List RegRename) (group : List MicroOp) :
    (Rename.renamed rat payload older (group.map some)).map PushPort.uop = group := by
  induction group generalizing older with
  | nil => rfl
  | cons uop group ih => exact congrArg (uop :: ·) (ih _)

theorem leaving_getElem? (k : Nat) : (t.leaving i)[k]? = (t.issued i)[k]?.map fun p =>
    { uop := p.uop, rename := p.rename, robIdx := Ring.slot robDepth t.core.rob.ptr.push k } := by
  rw [leaving, List.getElem?_mapIdx]

@[simp] theorem length_leaving : (t.leaving i).length = (t.issued i).length :=
  List.length_mapIdx

theorem pushPort_leaving : (t.leaving i).map DispatchSlot.pushPort = t.issued i := by
  apply List.ext_getElem?
  intro k
  rw [List.getElem?_map, leaving_getElem?, Option.map_map]
  exact Option.map_id_apply

/-- What is in the stages and in the reorder buffer, from the records on. -/
structure Inv (t : DispatchCore) : Prop where
  stage : t.rename.Inv
  range : t.core.rob.ptr.InRange robDepth
  group : t.rename.isValid = true → ∃ g : List MicroOp, t.rename.decPacket = g.map some
  popInfo : ∀ j < t.core.rob.ptr.count robDepth,
    t.core.rob.popInfo j = t.core.rob.robInfo (t.core.entry j)
  pop : t.core.rob.ptr.pop = Ring.slot robDepth 0 t.popped
  length : t.popped + t.core.rob.ptr.count robDepth = t.renamed.length
  inFlight : t.rename.inFlight = (t.renamed.drop t.popped).map DispatchSlot.pushPort
  robIdx : ∀ n slot, t.renamed[n]? = some slot → slot.robIdx = Ring.slot robDepth 0 n
  rob : ∀ n slot, t.popped ≤ n → t.renamed[n]? = some slot →
    t.core.rob.robInfo slot.robIdx = slot.pushPort.info
  idle : t.rename.regFlush = true → t.isValid = false ∧ t.renamed = []
  routed : t.isValid = true → t.Routed
  enters : ∀ q, t.entered q ++ part q t.pending = part q t.renamed
  holds : t.rename.regFlush = false → ∀ q, ∃ l, Compressed.Holds q.depth (t.queue q) l ∧
    l.Sublist (t.entered q)

theorem Inv.of_init (h : Init t) : t.Inv := by
  have hcount : t.core.rob.ptr.count robDepth = 0 := by rw [h.pointers]; rfl
  have hpending : t.pending = [] := by rw [pending, h.isValid, if_neg Bool.false_ne_true]
  refine ⟨RenameStage.inv_of_init h.rename, ?_, ?_, ?_, ?_, ?_, ?_, ?_, ?_, ?_, ?_, ?_, ?_⟩
  · rw [h.pointers]
    exact ⟨by decide, by decide⟩
  · intro hvalid
    rw [h.rename.isValid] at hvalid
    cases hvalid
  · intro j hj
    omega
  · rw [h.pointers, h.popped]
    rfl
  · rw [h.popped, hcount, h.renamed]
    rfl
  · rw [h.rename.inFlight, h.renamed, List.drop_nil]
    rfl
  · simp [h.renamed]
  · simp [h.renamed]
  · exact fun _ => ⟨h.isValid, h.renamed⟩
  · intro hvalid
    rw [h.isValid] at hvalid
    cases hvalid
  · intro q
    rw [h.entered, h.renamed, hpending]
    rfl
  · intro _ q
    refine ⟨[], ?_, List.nil_sublist _⟩
    rw [funext (h.queue q)]
    exact Compressed.Holds.nil

section Cycle

variable (h : t.Inv)

include h

/-- An entry of the reorder buffer has the index of its instruction. -/
theorem Inv.entry_eq {n : Nat} (hn : t.popped ≤ n) :
    t.core.entry (n - t.popped) = Ring.slot robDepth 0 n := by
  rw [CommitCore.entry, h.pop, Ring.slot_slot, Nat.add_sub_cancel' hn]

/-- The pop ports show the oldest instructions in flight. -/
theorem Inv.shows : t.rename.Shows t.core.ports where
  valid j := CommitCore.valid_of_succ j
  entry j hj hvalid := by
    have hlt := CommitCore.lt_of_valid hj hvalid
    have hlength := h.length
    obtain ⟨slot, hslot⟩ : ∃ slot, t.renamed[t.popped + j]? = some slot :=
      ⟨_, List.getElem?_eq_getElem (by omega)⟩
    have hinfo : t.core.rob.popInfo j = slot.pushPort.info := by
      have hentry := h.entry_eq (n := t.popped + j) (by omega)
      rw [Nat.add_sub_cancel_left, ← h.robIdx _ _ hslot] at hentry
      rw [h.popInfo j hlt, hentry]
      exact h.rob _ _ (by omega) hslot
    refine ⟨slot.pushPort, ?_, ?_, ?_⟩
    · rw [h.inFlight, List.getElem?_map, List.getElem?_drop, hslot]
      rfl
    · exact congrArg ROBEntryInfo.uop hinfo
    · exact congrArg ROBEntryInfo.rename hinfo

theorem Inv.renameLegal (hi : t.Legal i) : t.rename.Legal (t.renameInputs i) :=
  RenameStage.legal_fromCommit h.shows hi.decoded

/-- The whole group leaves RENAME, or nothing. -/
theorem Inv.uop_issued : (t.issued i).map PushPort.uop =
    if t.rename.isValidNotStuck (t.renameInputs i) then t.rename.decPacket.reduceOption
    else [] := by
  rw [issued, RenameStage.issued]
  split_ifs with hfire
  · obtain ⟨g, hg⟩ := h.group (RenameStage.ports_valid hfire).1
    rw [hg, uop_renamed, List.reduceOption, List.filterMap_map]
    exact (List.filterMap_some).symm
  · rfl

/-- The entries of a group that leaves RENAME are free. -/
theorem Inv.pushReady {k : Nat} (hk : k < (t.issued i).length) :
    t.core.rob.ptr.pushReady robDepth k = true := by
  have huops := congrArg List.length (h.uop_issued (i := i))
  rw [List.length_map] at huops
  split_ifs at huops with hfire
  · obtain ⟨hvalid, -⟩ := RenameStage.ports_valid hfire
    obtain ⟨g, hg⟩ := h.group hvalid
    have hlength : (t.issued i).length = g.length := by
      rw [huops, hg, List.reduceOption, List.filterMap_map]
      exact congrArg List.length List.filterMap_some
    have hroom : t.robFull = false := by
      simp only [RenameStage.isValidNotStuck, RenameStage.isStuck, Bool.and_eq_true,
        Bool.not_eq_true', Bool.or_eq_false_iff] at hfire
      have hhalt : (t.robFull || t.isStuck) = false := hfire.2.1
      exact (Bool.or_eq_false_iff.mp hhalt).1
    by_contra hfull
    have hsome : t.robFull = true := by
      simp only [robFull, hvalid, Bool.true_and, List.any_eq_true]
      refine ⟨(some g[k], k), ?_, ?_⟩
      · rw [hg, List.mem_zipIdx_iff_getElem?, List.getElem?_map,
          List.getElem?_eq_getElem (by omega)]
        rfl
      · rw [Bool.not_eq_true] at hfull
        simp [hfull]
    rw [hroom] at hsome
    cases hsome
  · rw [List.length_nil] at huops
    omega

theorem Inv.length_issued_le : (t.issued i).length ≤ decodeWidth := by
  have huops := congrArg List.length (h.uop_issued (i := i))
  rw [List.length_map] at huops
  rw [huops]
  split_ifs with hfire
  · exact (List.reduceOption_length_le _).trans
      (h.stage.decoded (RenameStage.ports_valid hfire).1).width
  · exact Nat.zero_le _

theorem Inv.room : t.core.rob.ptr.count robDepth + (t.issued i).length ≤ robDepth := by
  have hwidth : (t.issued i).length ≤ 3 := h.length_issued_le
  exact Ring.Pointers.room h.range (by simp only [robDepth]; omega) fun k => h.pushReady

theorem Inv.popCount_le : t.popCount i ≤ t.renamed.length - t.popped := by
  have hpop := CommitCore.popCount_le t.core (t.coreInputs i)
  have hlength := h.length
  have hcount : t.popCount i = t.core.popCount (t.coreInputs i) := rfl
  omega

/-- The entry for the `k`-th instruction of the group is behind those renamed before. -/
theorem Inv.slot_push (k : Nat) : Ring.slot robDepth t.core.rob.ptr.push k =
    Ring.slot robDepth 0 (t.renamed.length + k) := by
  rw [Ring.Pointers.push_eq_slot h.range, h.pop, Ring.slot_slot, Ring.slot_slot, ← h.length,
    Nat.add_assoc]

/-- The records of the instructions, the new ones behind the old ones. -/
theorem Inv.robIdx_leaving {n : Nat} {slot : DispatchSlot}
    (hslot : (t.renamed ++ t.leaving i)[n]? = some slot) :
    slot.robIdx = Ring.slot robDepth 0 n := by
  rw [List.getElem?_append] at hslot
  split_ifs at hslot with hold
  · exact h.robIdx n slot hslot
  · rw [leaving_getElem?, Option.map_eq_some_iff] at hslot
    obtain ⟨p, -, rfl⟩ := hslot
    rw [h.slot_push, Nat.add_sub_cancel' (Nat.le_of_not_lt hold)]

/-- The cycle writes the entries of the new instructions and keeps those of the old. -/
theorem Inv.rob_step {n : Nat} {slot : DispatchSlot} (hn : t.popped ≤ n)
    (hslot : (t.renamed ++ t.leaving i)[n]? = some slot) :
    (t.step i).core.rob.robInfo slot.robIdx = slot.pushPort.info := by
  have hroom := h.room (i := i)
  have hlength := h.length
  have hlt : n < t.renamed.length + (t.issued i).length := by
    obtain ⟨hlt, -⟩ := List.getElem?_eq_some_iff.mp hslot
    rwa [List.length_append, length_leaving] at hlt
  have hidx : slot.robIdx = Ring.slot robDepth t.core.rob.ptr.pop (n - t.popped) := by
    rw [h.robIdx_leaving hslot, ← h.entry_eq hn]
    rfl
  have hfits : (t.coreInputs i).push.length ≤ robDepth := (Nat.le_add_left _ _).trans hroom
  have hinfo : (t.step i).core.rob.robInfo slot.robIdx = _ :=
    ROBFIFO.step_robInfo h.range.push (hidx ▸ Ring.slot_lt h.range.pos _ _) hfits
  have hpush : ROBFIFO.pushAt t.core.rob.ptr.push slot.robIdx 0 (t.issued i) = _ :=
    hidx ▸ ROBFIFO.pushAt_slot h.range (by omega) hroom
  rw [hinfo]
  change ((ROBFIFO.pushAt t.core.rob.ptr.push slot.robIdx 0 (t.issued i)).map _).getD _ = _
  rw [hpush]
  rw [List.getElem?_append] at hslot
  split_ifs at hslot with hold
  · rw [if_neg (by omega)]
    exact h.rob n slot hn hslot
  · rw [leaving_getElem?, Option.map_eq_some_iff] at hslot
    obtain ⟨p, hp, rfl⟩ := hslot
    rw [if_pos (by omega), show n - t.popped - t.core.rob.ptr.count robDepth =
      n - t.renamed.length by omega, hp]
    rfl

/-! ## One cycle -/

omit h in
theorem ptr_step : (t.step i).core.rob.ptr = if t.needFlush i then {} else
    t.core.rob.ptr.advance robDepth (t.issued i).length (t.popCount i) := ROBFIFO.step_ptr

/-- The reorder buffer after a cycle that does not flush. -/
theorem Inv.core_step (hflush : t.needFlush i = false) :
    (t.step i).core.rob.ptr.pop = Ring.slot robDepth 0 (t.popped + t.popCount i) ∧
      t.popped + t.popCount i + (t.step i).core.rob.ptr.count robDepth =
        (t.renamed ++ t.leaving i).length := by
  have hptr := ptr_step (t := t) (i := i)
  have hpop : t.popCount i ≤ t.core.rob.ptr.count robDepth :=
    CommitCore.popCount_le t.core (t.coreInputs i)
  have hcount := Ring.Pointers.count_advance h.range (h.room (i := i)) hpop
  have hlength := h.length
  rw [hflush, if_neg Bool.false_ne_true] at hptr
  rw [hptr, hcount, List.length_append, length_leaving]
  refine ⟨?_, by omega⟩
  change Ring.slot robDepth t.core.rob.ptr.pop (t.popCount i) = _
  rw [h.pop, Ring.slot_slot]

theorem Inv.inFlight_step (hflush : t.needFlush i = false) : (t.step i).rename.inFlight =
    ((t.renamed ++ t.leaving i).drop (t.popped + t.popCount i)).map DispatchSlot.pushPort := by
  have hpop := h.popCount_le (i := i)
  have hlength := h.length
  have hfire : Commit.hasExcept t.core.ports t.core.fsm i.commit = true → t.popCount i = 0 := by
    intro hexc
    apply Commit.popCount_eq_zero
    by_contra hleaves
    have hneed : t.needFlush i = true := by
      change Commit.needFlush t.core.ports t.core.fsm i.commit = true
      simp only [Commit.needFlush, Bool.and_eq_true, Bool.or_eq_true]
      exact ⟨Bool.not_eq_false _ ▸ hleaves, .inl (.inl hexc)⟩
    rw [hflush] at hneed
    cases hneed
  have hremaining : t.rename.remaining (t.renameInputs i) =
      (t.renamed.drop (t.popped + t.popCount i)).map DispatchSlot.pushPort := by
    have hdrop : t.rename.remaining (t.renameInputs i) =
        t.rename.inFlight.drop (t.popCount i) := by
      rw [RenameStage.remaining]
      split_ifs with hexc
      · rw [hfire hexc, List.drop_zero]
      · rfl
    rw [hdrop, h.inFlight, ← List.map_drop, List.drop_drop]
  have hstep : (t.step i).rename.inFlight =
      if t.needFlush i then [] else t.rename.remaining (t.renameInputs i) ++ t.issued i := rfl
  rw [hstep, hflush, if_neg Bool.false_ne_true, hremaining, ← pushPort_leaving,
    List.drop_append_of_le_length (by omega), List.map_append]

end Cycle

/-- A stage that is stuck lets nothing go. -/
theorem issued_of_stuck (hstuck : t.renameStuck i = true) : t.issued i = [] := by
  have hhalts : t.rename.isValidNotStuck (t.renameInputs i) = false := by
    rw [RenameStage.isValidNotStuck, show t.rename.isStuck (t.renameInputs i) = true from hstuck]
    simp
  rw [issued, RenameStage.issued, hhalts, if_neg Bool.false_ne_true]

theorem leaving_of_stuck (hstuck : t.renameStuck i = true) : t.leaving i = [] := by
  rw [leaving, issued_of_stuck hstuck, List.mapIdx_nil]

theorem leaving_of_invalid (hvalid : t.rename.isValid = false) : t.leaving i = [] := by
  have hidle : t.rename.isValidNotStuck (t.renameInputs i) = false := by
    rw [RenameStage.isValidNotStuck, hvalid, Bool.false_and]
  rw [leaving, issued, RenameStage.issued, hidle, if_neg Bool.false_ne_true, List.mapIdx_nil]

/-- RENAME does not move a group onto one that stays. -/
theorem not_stuck_of_renameStuck (hmoves : t.renameStuck i = false) : t.isStuck = false := by
  have hhalt : (t.robFull || t.isStuck) = false := by
    simp only [renameStuck, RenameStage.isStuck, Bool.or_eq_false_iff] at hmoves
    exact hmoves.1
  exact (Bool.or_eq_false_iff.mp hhalt).2

theorem renameStuck_of_stuck (hstuck : t.isStuck = true) : t.renameStuck i = true := by
  by_contra hmoves
  have hno := not_stuck_of_renameStuck (Bool.not_eq_true _ ▸ hmoves)
  rw [hstuck] at hno
  cases hno

/-- The group in DISPATCH after a cycle that does not flush. -/
theorem pending_step (hflush : t.needFlush i = false) :
    (t.step i).pending = (if t.isValid && !t.isStuck then [] else t.pending) ++ t.leaving i := by
  simp only [pending, step, hflush, if_neg Bool.false_ne_true]
  cases hstuck : t.renameStuck i with
  | true =>
    rw [leaving_of_stuck hstuck]
    cases hvalid : t.isValid <;> cases hhalts : t.isStuck <;> simp
  | false =>
    have hhalts := not_stuck_of_renameStuck hstuck
    cases hnext : t.rename.isValid with
    | true => cases hvalid : t.isValid <;> simp [hhalts]
    | false =>
      rw [leaving_of_invalid hnext]
      cases hvalid : t.isValid <;> simp [hhalts]

/-- The ports of the integer queue are connected for the group that comes next. -/
theorem Inv.routed_step (h : t.Inv) (hvalid : (t.step i).isValid = true) :
    (t.step i).Routed := by
  cases hstuck : t.renameStuck i with
  | true =>
    have hslots : (t.step i).slots = t.slots := by simp only [step, hstuck, if_true]
    have hports : (t.step i).pushIndexes = t.pushIndexes := by simp only [step, hstuck, if_true]
    have hstays : t.isValid = true := by
      simp only [step, hstuck, if_true] at hvalid
      split_ifs at hvalid
      exact (Bool.and_eq_true _ _ ▸ hvalid).1
    have hrouted := h.routed hstays
    refine ⟨by rw [hslots]; exact hrouted.width, fun j => ?_⟩
    have hmask : (t.step i).enqueueMask .int = t.enqueueMask .int := by
      funext k
      rw [enqueueMask, enqueueMask, hslots]
    rw [hports, hrouted.pushIndexes, hmask]
  | false =>
    have hslots : (t.step i).slots = t.leaving i := by
      simp only [step, hstuck, Bool.false_eq_true, if_false]
    have hports : (t.step i).pushIndexes = t.nextPushIndexes := by
      simp only [step, hstuck, Bool.false_eq_true, if_false]
    have hnext : t.rename.isValid = true := by
      simp only [step, hstuck, Bool.false_eq_true, if_false] at hvalid
      split_ifs at hvalid
      exact hvalid
    have hfire : t.rename.isValidNotStuck (t.renameInputs i) = true := by
      have hmoves : t.rename.isStuck (t.renameInputs i) = false := hstuck
      rw [RenameStage.isValidNotStuck, hnext, hmoves]
      rfl
    obtain ⟨g, hg⟩ := h.group hnext
    have huops : (t.issued i).map PushPort.uop = g := by
      rw [h.uop_issued, if_pos hfire, hg, List.reduceOption, List.filterMap_map]
      exact List.filterMap_some
    refine ⟨by rw [hslots, length_leaving]; exact h.length_issued_le, fun j => ?_⟩
    rw [hports, nextPushIndexes]
    congr 1
    funext k
    simp only [enqueueMask, hslots, leaving_getElem?, hg, ← huops, List.getElem?_map]
    cases (t.issued i)[k]? <;> rfl

theorem Inv.enters_step (h : t.Inv) (hflush : t.needFlush i = false) (q : IssueQueue) :
    (t.entered q ++ t.pushes q) ++ part q (t.step i).pending =
      part q (t.renamed ++ t.leaving i) := by
  rw [pending_step hflush, part_append, part_append, ← h.enters q, pushes_eq h.routed]
  split_ifs with hfire
  · rw [pending, if_pos (Bool.and_eq_true _ _ ▸ hfire).1]
    simp
  · simp

/-- What is pushed to a queue finds room there. -/
theorem Inv.queue_room (h : t.Inv) {q : IssueQueue} {l : List IssueSlot}
    (hl : Compressed.Holds q.depth (t.queue q) l) :
    l.length + (t.pushes q).length ≤ q.depth := by
  rw [pushes_eq h.routed]
  split_ifs with hfire
  · rw [Bool.and_eq_true, Bool.not_eq_true'] at hfire
    have hmoves := hfire.2
    rw [isStuck, hfire.1, Bool.true_and, Bool.or_eq_false_iff, Bool.or_eq_false_iff] at hmoves
    rw [← (h.routed hfire.1).room_iff hl]
    cases q with
    | int => exact hmoves.1.1
    | mulDiv => exact hmoves.1.2
    | mem => exact hmoves.2
  · exact hl.length_le

theorem length_pushes_le (q : IssueQueue) :
    (t.pushes q).length ≤ decodeWidth := by
  rw [pushes]
  exact (List.length_filterMap_le _ _).trans_eq List.length_range

theorem Inv.holds_step (h : t.Inv) (q : IssueQueue) :
    ∃ l, Compressed.Holds q.depth ((t.step i).queue q) l ∧
      l.Sublist (t.entered q ++ t.pushes q) := by
  change ∃ l, Compressed.Holds q.depth (q.next _ _ _ _ t.rename.regFlush) l ∧ _
  cases hclear : t.rename.regFlush with
  | true => exact ⟨[], Compressed.Holds.nil, List.nil_sublist _⟩
  | false =>
    obtain ⟨l, hl, hsub⟩ := h.holds hclear q
    obtain ⟨l', hl', hsub'⟩ := IssueQueue.holds_next hl (h.queue_room hl)
      (length_pushes_le q) (pushPort_getElem? h.routed q)
    exact ⟨l', hl', hsub'.trans (hsub.append_right _)⟩

theorem Inv.group_step (h : t.Inv) (hvalid : (t.step i).rename.isValid = true) :
    ∃ g : List MicroOp, (t.step i).rename.decPacket = g.map some := by
  rcases RenameStage.isValid_step hvalid with ⟨hstuck, hstays⟩ | ⟨hmoves, -⟩
  · obtain ⟨g, hg⟩ := h.group hstays
    refine ⟨g, ?_⟩
    simp only [step, RenameStage.step, hstuck, if_true]
    exact hg
  · refine ⟨i.nextGroup, ?_⟩
    simp only [step, RenameStage.step, hmoves, Bool.false_eq_true, if_false]
    rfl

theorem Inv.stage_step (h : t.Inv) (hi : t.Legal i) : (t.step i).rename.Inv := by
  cases hclear : t.rename.regFlush with
  | false => exact RenameStage.inv_step h.stage (h.renameLegal hi) hclear
  | true => exact RenameStage.inv_recover h.stage (h.renameLegal hi) hclear

theorem Inv.step (h : t.Inv) (hi : t.Legal i) : (t.step i).Inv := by
  have hstage := h.stage_step hi
  have hrange : (t.step i).core.rob.ptr.InRange robDepth := ROBFIFO.step_inRange h.range
  cases hflush : t.needFlush i with
  | true =>
    -- the stages and the reorder buffer are empty, and the queues no longer matter
    have hptr := ptr_step (t := t) (i := i)
    rw [hflush, if_pos rfl] at hptr
    have hcount : (t.step i).core.rob.ptr.count robDepth = 0 := by rw [hptr]; rfl
    have hrenamed : (t.step i).renamed = [] := by simp only [DispatchCore.step, hflush, if_true]
    have hpopped : (t.step i).popped = 0 := by simp only [DispatchCore.step, hflush, if_true]
    have hvalid : (t.step i).isValid = false := by simp only [DispatchCore.step, hflush, if_true]
    have hentered : ∀ q, (t.step i).entered q = [] := fun q => by
      simp only [DispatchCore.step, hflush, if_true]
    have hregFlush : (t.step i).rename.regFlush = true := hflush
    refine ⟨hstage, hrange, h.group_step, fun j hj => by omega, ?_, ?_, ?_, ?_, ?_,
      fun _ => ⟨hvalid, hrenamed⟩, h.routed_step, fun q => ?_, fun hno => ?_⟩
    · rw [hptr, hpopped]
      rfl
    · rw [hpopped, hcount, hrenamed]
      rfl
    · rw [(hstage.idle hregFlush).2, hrenamed, List.drop_nil]
      rfl
    · simp [hrenamed]
    · simp [hrenamed]
    · rw [hentered, hrenamed, pending, hvalid, if_neg Bool.false_ne_true]
      rfl
    · rw [hregFlush] at hno
      cases hno
  | false =>
    obtain ⟨hpop, hlength⟩ := h.core_step hflush
    have hrenamed : (t.step i).renamed = t.renamed ++ t.leaving i := by
      simp only [DispatchCore.step, hflush, Bool.false_eq_true, if_false]
    have hpopped : (t.step i).popped = t.popped + t.popCount i := by
      simp only [DispatchCore.step, hflush, Bool.false_eq_true, if_false]
    have hentered : ∀ q, (t.step i).entered q = t.entered q ++ t.pushes q := fun q => by
      simp only [DispatchCore.step, hflush, Bool.false_eq_true, if_false]
    have hregFlush : (t.step i).rename.regFlush = false := hflush
    refine ⟨hstage, hrange, h.group_step, fun j _ => ?_, ?_, ?_, ?_, ?_, ?_, fun hclear => ?_,
      h.routed_step, fun q => ?_, fun _ q => ?_⟩
    · have hentry : (t.step i).core.entry j = _ := CommitCore.entry_step hflush j
      rw [hentry]
      exact (ROBFIFO.step_popInfo j).trans (by rw [Ring.slot_slot]; rfl)
    · rw [hpop, hpopped]
    · rw [hpopped, hrenamed]
      exact hlength
    · rw [h.inFlight_step hflush, hrenamed, hpopped]
    · rw [hrenamed]
      exact fun n slot => h.robIdx_leaving
    · rw [hrenamed, hpopped]
      exact fun n slot hn => h.rob_step ((Nat.le_add_right _ _).trans hn)
    · rw [hregFlush] at hclear
      cases hclear
    · rw [hentered, hrenamed]
      exact h.enters_step hflush q
    · rw [hentered]
      exact h.holds_step q

theorem inv_of_reachable (h : machine.Reachable t) : t.Inv :=
  Clocked.Machine.invariant (fun _ => Inv.of_init) (fun _ _ hinv => hinv.step) h

/-! ## Atomicity -/

/-- Since the last flush, the instructions that have left RENAME have been given
consecutive indexes, and the entries with the indexes of those that have not left the
reorder buffer hold them; no two of these write the same physical register. An
instruction that has still to be executed is taken by one queue, which issues to a pipe
that can do it, and one that is complete from the start by none. Each queue has been
given what it takes, in order, but for what is still in DISPATCH, and holds nothing
else. -/
structure Dispatched (t : DispatchCore) : Prop where
  robIdx : ∀ n slot, t.renamed[n]? = some slot → slot.robIdx = n % robDepth
  rob : ∀ n slot, t.popped ≤ n → t.renamed[n]? = some slot →
    t.core.rob.robInfo slot.robIdx = slot.pushPort.info
  occupied : t.popped + t.core.rob.ptr.count robDepth = t.renamed.length
  registers : (((t.renamed.drop t.popped).filter fun slot => slot.uop.doRegWrite).map
    fun slot => slot.rename.wReg).Nodup
  executed : ∀ slot ∈ t.renamed, slot.uop.needNotExecute = false →
    ∃! q, IssueQueue.takes q slot.uop = true ∧ ∃ u ∈ q.units, u.executes slot.uop.fuType = true
  complete : ∀ slot ∈ t.renamed,
    (slot.pushPort.state {}).complete = true ↔ ∀ q, IssueQueue.takes q slot.uop = false
  enters : ∀ q, t.entered q ++ part q t.pending = part q t.renamed
  queued : t.rename.regFlush = false → ∀ q, ∃ l, Compressed.Holds q.depth (t.queue q) l ∧
    l.Sublist (t.entered q)

/-- In a cycle the whole group leaves RENAME or nothing does, and what leaves takes the
next entries of the reorder buffer and, for each write, the next register of the free
list. Every queue is pushed the part of the group that it takes, or none is pushed
anything. A group that is held up stays as it is, and holds up the one behind it; the
group in DISPATCH goes as soon as every queue has room for its part. -/
structure Atomic (t : DispatchCore) (i : Inputs) : Prop where
  whole : (t.issued i).map PushPort.uop =
    if t.rename.isValid && !t.renameStuck i then t.rename.decPacket.reduceOption else []
  entries : t.core.rob.ptr.count robDepth + (t.issued i).length ≤ robDepth ∧
    (t.step i).core.rob.ptr.push = if t.needFlush i then 0
      else Ring.slot robDepth t.core.rob.ptr.push (t.issued i).length
  registers : ((t.issued i).filter fun p => p.uop.doRegWrite).map (fun p => p.rename.wReg) =
    (t.rename.freeList.contents freeListDepth).take (t.rename.popReady (t.renameInputs i))
  pops : t.rename.popReady (t.renameInputs i) =
    ((t.issued i).filter fun p => p.uop.doRegWrite).length ∧
      (t.step i).rename.freeList.ptr.pop = Ring.slot freeListDepth t.rename.freeList.ptr.pop
        (t.rename.popReady (t.renameInputs i))
  pushes : ∀ q, t.pushes q = if t.isValid && !t.isStuck then part q t.slots else []
  renameHeld : t.renameStuck i = true → (t.step i).rename.decPacket = t.rename.decPacket ∧
    (t.step i).rename.isValid = (t.rename.isValid && !t.needFlush i)
  dispatchHeld : t.isStuck = true → t.renameStuck i = true ∧ (t.step i).slots = t.slots ∧
    (t.step i).isValid = (t.isValid && !t.needFlush i)
  moves : t.rename.regFlush = false → t.isValid = true → ∃ l : IssueQueue → List IssueSlot,
    (∀ q, Compressed.Holds q.depth (t.queue q) (l q)) ∧
      (t.isStuck = false ↔ ∀ q, (l q).length + (part q t.slots).length ≤ q.depth)

theorem Inv.dispatched (h : t.Inv) : t.Dispatched where
  robIdx n slot hslot := by
    rw [h.robIdx n slot hslot, Ring.slot, Nat.zero_add]
  rob := h.rob
  occupied := h.length
  registers := by
    have hall := h.stage.registers.nodup_iff.mpr (List.nodup_range' 1)
    rw [RenameStage.registers_eq] at hall
    have hlive := (List.nodup_append.mp (List.nodup_append.mp hall).1).2.1
    rw [RenameStage.liveRegs, RenameStage.live, List.filter_append, List.map_append, h.inFlight,
      List.filter_map, List.map_map] at hlive
    exact (List.nodup_append.mp hlive).2.1
  executed slot _ hexec := by
    obtain ⟨q, hq, hunique⟩ := (IssueQueue.takes_iff slot.uop).2 hexec
    refine ⟨q, ⟨hq, ?_⟩, fun q' hq' => hunique q' hq'.1⟩
    rw [IssueQueue.takes, Bool.and_eq_true] at hq
    exact (IssueQueue.fuMatch_iff q slot.uop.fuType).mp hq.1
  complete slot _ := (IssueQueue.takes_iff slot.uop).1
  enters := h.enters
  queued := h.holds

/-- The free list moves on by the registers taken, in a recovery cycle as well. -/
theorem Inv.pop_step (h : t.Inv) (hi : t.Legal i) : (t.step i).rename.freeList.ptr.pop =
    Ring.slot freeListDepth t.rename.freeList.ptr.pop (t.rename.popReady (t.renameInputs i)) := by
  have hptr := MultiPortFIFOVecOutReg.ptr_step h.stage.range
    (RenameStage.length_arfCommits_le (h.renameLegal hi))
    (RenameStage.popReady_le_depth (i := t.renameInputs i) h.stage)
  rw [RenameStage.taken_popReady h.stage] at hptr
  have hnext := congrArg Ring.Pointers.pop hptr
  simp only [DispatchCore.step, RenameStage.step, RenameStage.nextFreeList]
  split_ifs
  · exact hnext
  · exact hnext

theorem Inv.atomic (h : t.Inv) (hi : t.Legal i) : t.Atomic i := by
  have hwrites : (writes (t.issued i)).map Renaming.Write.new =
      ((t.issued i).filter fun p => p.uop.doRegWrite).map fun p => p.rename.wReg := by
    rw [writes, List.map_map]
    rfl
  refine ⟨?_, ⟨h.room, ?_⟩, ?_, ⟨?_, ?_⟩, pushes_eq h.routed, ?_, ?_, ?_⟩
  · exact h.uop_issued
  · have hptr := ptr_step (t := t) (i := i)
    rw [hptr]
    split_ifs <;> rfl
  · rw [← hwrites]
    exact RenameStage.new_issued h.stage
  · have hlength := RenameStage.length_issued (i := t.renameInputs i) h.stage
    rw [← hlength, writes, List.length_map]
    rfl
  · exact h.pop_step hi
  · intro hstuck
    have hhalts : t.rename.isStuck (t.renameInputs i) = true := hstuck
    have hneed : (t.renameInputs i).needFlush = t.needFlush i := rfl
    simp only [DispatchCore.step, RenameStage.step, hhalts, hneed, if_true, true_and]
    cases t.needFlush i <;> simp
  · intro hstuck
    have hheld := renameStuck_of_stuck (i := i) hstuck
    simp only [DispatchCore.step, hheld, hstuck, if_true, true_and, Bool.and_true]
    cases t.needFlush i <;> simp
  · intro hclear hvalid
    choose l hl _ using h.holds hclear
    exact ⟨l, hl, (h.routed hvalid).isStuck_iff hvalid hl⟩

/-- In every reachable state the records agree with the stages, the reorder buffer and
the queues, and every cycle makes all entries of a group or none. -/
theorem atomic_of_reachable (h : machine.Reachable t) :
    t.Dispatched ∧ ∀ i, t.Legal i → t.Atomic i :=
  ⟨(inv_of_reachable h).dispatched, fun _ hi => (inv_of_reachable h).atomic hi⟩

instance (t : DispatchCore) (i : Inputs) : Decidable (machine.legal t i) :=
  decidable_of_iff (i.nextValid = true → RenameStage.Decoded (i.nextGroup.map some))
    ⟨fun h => ⟨h⟩, fun h => h.decoded⟩

/-- Two groups of four multiplications in all, which do not fit in their queue, with a
store, and an instruction that faults. -/
def multiplications : List Inputs :=
  let mul : MicroOp := { fuType := .mul, doRegWrite := true, wbAddr := 5 }
  let store : MicroOp := { fuType := .lsu, isStore := true }
  let fault : MicroOp := { fuType := .alu, except := { valid := true } }
  [{ nextValid := true, nextGroup := [mul, store, mul] },
   { nextValid := true, nextGroup := [mul, fault, mul] },
   {}, {}, {},
   { waken := fun q _ => q == .mulDiv }, {}]

theorem atomic_multiplications :
    let t := machine.run { rename := RenameStage.atReset } multiplications
    (t.entered .mulDiv).map IssueSlot.robIdx = [0, 2, 3, 5] ∧ t.Dispatched :=
  have hreset : Init { rename := RenameStage.atReset } :=
    ⟨⟨rfl, rfl, rfl, rfl, rfl, rfl, rfl, rfl⟩, rfl, rfl, fun _ _ => rfl, rfl, rfl, fun _ => rfl⟩
  have hstart : machine.Reachable { rename := RenameStage.atReset } := .reset hreset
  ⟨by decide +kernel, (atomic_of_reachable (hstart.run (by decide +kernel))).1⟩

end DispatchCore

end NopCore
