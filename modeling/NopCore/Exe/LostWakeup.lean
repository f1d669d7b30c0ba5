import NopCore.Exe.Wakeup

/-!
# No wake-up is lost

An operand that is not ready waits for a busy register. The bit can only be cleared by a
broadcast, and a broadcast reaches every operand that waits for its register, wherever it
is in that cycle. So it is enough that the register still belongs to the instruction that
the operand waits for, which is the case as long as the one with the operand is in flight.

It is in flight as long as it is in a queue: an instruction retires when it is complete,
it is complete when a pipe has reported it, and a pipe reports what has been issued.
-/

namespace NopCore

/-! ## The record of the producers -/

namespace Producers

variable {g : Producers} {slots : List DispatchSlot}

/-- The registers that some instructions take. -/
def taken (slots : List DispatchSlot) : List Nat :=
  (slots.filter fun slot => slot.uop.doRegWrite).map fun slot => slot.rename.wReg

theorem taken_cons (slot : DispatchSlot) (slots : List DispatchSlot) :
    taken (slot :: slots) =
      if slot.uop.doRegWrite then slot.rename.wReg :: taken slots else taken slots := by
  rw [taken, List.filter_cons]
  split_ifs <;> rfl

theorem last_rename_of_not_mem {slot : DispatchSlot} {p : Nat} (hp : p ∉ taken [slot]) :
    (g.rename slot).last p = g.last p := by
  rw [taken_cons] at hp
  rw [rename]
  dsimp only
  split_ifs at hp ⊢
  · rw [List.mem_cons, not_or] at hp
    exact Function.update_of_ne hp.1 _ _
  · rfl

/-- A register that is not taken keeps its producer. -/
theorem last_of_not_mem {p : Nat} (hp : p ∉ taken slots) :
    (slots.foldl rename g).last p = g.last p := by
  induction slots generalizing g with
  | nil => rfl
  | cons slot slots ih =>
    have hsplit : taken (slot :: slots) = taken [slot] ++ taken slots := by
      simp only [taken_cons]
      split_ifs <;> rfl
    rw [hsplit, List.mem_append, not_or] at hp
    rw [List.foldl_cons, ih hp.2, last_rename_of_not_mem hp.1]

/-- One that is taken gets a producer that has not been told. -/
theorem last_of_mem {p : Nat} (hp : p ∈ taken slots) :
    ∃ n, (slots.foldl rename g).last p = some { seq := n } := by
  induction slots generalizing g with
  | nil => cases hp
  | cons slot slots ih =>
    by_cases hlater : p ∈ taken slots
    · exact ih hlater
    · rw [List.foldl_cons, last_of_not_mem hlater, rename]
      rw [taken_cons] at hp
      dsimp only
      split_ifs at hp ⊢
      · obtain rfl : p = slot.rename.wReg := (List.mem_cons.mp hp).resolve_right hlater
        exact ⟨g.seq, Function.update_self _ _ _⟩
      · exact absurd hp hlater

theorem sources_of_not_mem {idx : Nat} (hidx : ∀ slot ∈ slots, slot.robIdx ≠ idx) :
    (slots.foldl rename g).sources idx = g.sources idx := by
  induction slots generalizing g with
  | nil => rfl
  | cons slot slots ih =>
    rw [List.foldl_cons, ih fun s hs => hidx s (List.mem_cons_of_mem _ hs), rename]
    exact Function.update_of_ne (hidx slot List.mem_cons_self).symm _ _

/-- The operands of an instruction of the group have the producers they have behind the
group, if the registers are not taken by the instruction or one behind it. -/
theorem sources_getElem {k : Nat} {slot : DispatchSlot} (hslot : slots[k]? = some slot)
    (hnodup : (slots.map DispatchSlot.robIdx).Nodup) {j : Nat}
    (hp : operand slot.rename.rRegs j ∉ taken (slots.drop k)) :
    (slots.foldl rename g).sources slot.robIdx j =
      ((slots.foldl rename g).last (operand slot.rename.rRegs j)).map Producer.seq := by
  induction slots generalizing g k with
  | nil => cases hslot
  | cons first slots ih =>
    rw [List.map_cons, List.nodup_cons] at hnodup
    cases k with
    | zero =>
      obtain rfl : first = slot := Option.some.inj hslot
      have hlater : ∀ s ∈ slots, s.robIdx ≠ first.robIdx := by
        rintro s hs heq
        exact hnodup.1 (heq ▸ List.mem_map_of_mem hs)
      rw [List.drop_zero] at hp
      rw [last_of_not_mem hp, List.foldl_cons, sources_of_not_mem hlater, rename]
      dsimp only
      rw [Function.update_self]
    | succ k => exact ih hslot hnodup.2 hp

@[simp] theorem sources_tell (clearBusys : List Nat) : (g.tell clearBusys).sources = g.sources :=
  rfl

theorem seq_tell (clearBusys : List Nat) (p : Nat) :
    ((g.tell clearBusys).last p).map Producer.seq = (g.last p).map Producer.seq := by
  rw [tell, Option.map_map]
  rfl

end Producers

/-! ## Instructions in flight -/

namespace DispatchCore

open Producers

variable {t : DispatchCore} {i : Inputs}

theorem new_writes (slots : List DispatchSlot) :
    (writes (slots.map DispatchSlot.pushPort)).map Renaming.Write.new = taken slots := by
  rw [writes, List.filter_map, List.map_map, List.map_map]
  rfl

theorem taken_leaving : taken (t.leaving i) =
    (writes (t.issued i)).map Renaming.Write.new := by
  rw [← pushPort_leaving, new_writes]

/-- What an instruction in flight reads is not given to another one. -/
theorem Inv.operand_not_taken (h : t.Inv) (hs : t.rename.Sourced) {n : Nat} {d : DispatchSlot}
    (hn : t.popped ≤ n) (hd : t.renamed[n]? = some d) (j : Nat) :
    operand d.rename.rRegs j ∉ taken (t.leaving i) := by
  rw [taken_leaving]
  intro hmem
  rw [issued, RenameStage.new_issued h.stage] at hmem
  have hfree := List.mem_of_mem_take hmem
  have hnodup := h.stage.registers.nodup_iff.mpr (List.nodup_range' 1)
  have hport : t.rename.inFlight[n - t.popped]? = some d.pushPort := by
    rw [h.inFlight, List.getElem?_map, List.getElem?_drop, Nat.add_sub_cancel' hn, hd]
    rfl
  rcases hs _ _ hport j with hzero | hmaps
  · have hphys : operand d.rename.rRegs j ∈ RenameStage.physRegs := by
      apply h.stage.registers.mem_iff.mp
      rw [Renaming.State.registers, List.append_assoc]
      exact List.mem_append_left _ hfree
    have hzero : operand d.rename.rRegs j = 0 := hzero
    rw [hzero] at hphys
    simp [RenameStage.physRegs] at hphys
  · exact hmaps.not_mem_free hnodup hfree

/-- Nor is it given to an instruction of its own group, but for those in front. -/
theorem Inv.operand_not_taken_behind (h : t.Inv) (hi : t.Legal i) {k : Nat} {d : DispatchSlot}
    (hd : (t.leaving i)[k]? = some d) (j : Nat) :
    operand d.rename.rRegs j ∉ taken ((t.leaving i).drop k) := by
  have hlegal := h.renameLegal hi
  have hport : (t.issued i)[k]? = some d.pushPort := by
    rw [← pushPort_leaving, List.getElem?_map, hd]
    rfl
  cases hclear : t.rename.regFlush with
  | true =>
    have hvalid := (h.stage.idle hclear).1
    rw [leaving_of_invalid hvalid] at hd
    cases hd
  | false =>
    rw [← new_writes, List.map_drop, pushPort_leaving, ← writes_drop]
    have hnew : (writes (t.issued i)).map Renaming.Write.new =
        t.rename.abs.free.take (writes (t.issued i)).length := by
      rw [issued, RenameStage.new_issued h.stage, RenameStage.length_issued h.stage]
      rfl
    have hregisters : ((t.rename.abs.allocate (writes (t.issued i))).registers
        RenameStage.archRegs).Perm RenameStage.physRegs :=
      (Renaming.State.registers_allocate hnew).trans h.stage.registers
    have hnodup := hregisters.nodup_iff.mpr (List.nodup_range' 1)
    rcases RenameStage.operand_issued h.stage hclear hport j with hzero | ⟨a, ha, hread⟩
    · have hzero : operand d.rename.rRegs j = 0 := hzero
      rw [hzero]
      intro hmem
      have hphys : 0 ∈ RenameStage.physRegs := by
        apply h.stage.registers.mem_iff.mp
        rw [Renaming.State.registers, List.append_assoc]
        apply List.mem_append_left
        apply List.mem_of_mem_take (i := (writes (t.issued i)).length)
        rw [← hnew]
        exact ((List.drop_sublist _ _).map _).subset hmem
      simp [RenameStage.physRegs] at hphys
    · have hmaps : (t.rename.abs.allocate (writes (t.issued i))).Maps RenameStage.archRegs
          (t.rename.abs.pending.length + (writes ((t.issued i).take k)).length)
          (operand d.rename.rRegs j) := by
        have htake := writes_take (t.issued i) k
        have hle := congrArg List.length htake
        rw [List.length_take] at hle
        refine ⟨?_, a, ha, ?_⟩
        · rw [Renaming.State.allocate, List.length_append]
          omega
        · rw [Renaming.State.allocate, List.take_length_add_append, Renaming.apply_append, htake]
          exact hread.symm
      have hapart := hmaps.not_mem_later hnodup
      rw [Renaming.State.allocate, List.drop_length_add_append] at hapart
      exact hapart

/-- The entries of the instructions in flight are different. -/
theorem Inv.robIdx_inj (h : t.Inv) {n m : Nat} (hn : t.popped ≤ n) (hm : t.popped ≤ m)
    (hnlt : n < t.renamed.length + (t.issued i).length)
    (hmlt : m < t.renamed.length + (t.issued i).length)
    (heq : Ring.slot robDepth 0 n = Ring.slot robDepth 0 m) : n = m := by
  have hroom := h.room (i := i)
  have hlength := h.length
  obtain ⟨a, rfl⟩ := Nat.exists_eq_add_of_le hn
  obtain ⟨b, rfl⟩ := Nat.exists_eq_add_of_le hm
  rw [← Ring.slot_slot, ← Ring.slot_slot] at heq
  have hsame := Ring.slot_inj (by omega) (by omega) heq
  omega

/-- The instructions in flight are told apart by their entries. -/
theorem Inv.nodup_robIdx (h : t.Inv) (i : Inputs) :
    (((t.renamed ++ t.leaving i).drop t.popped).map DispatchSlot.robIdx).Nodup := by
  rw [List.Nodup, List.pairwise_iff_getElem]
  intro a b ha hb hlt heq
  rw [List.length_map, List.length_drop, List.length_append, length_leaving] at ha hb
  have hread : ∀ k (hk : t.popped + k < (t.renamed ++ t.leaving i).length),
      (t.renamed ++ t.leaving i)[t.popped + k].robIdx = Ring.slot robDepth 0 (t.popped + k) :=
    fun k hk => h.robIdx_leaving (List.getElem?_eq_getElem hk)
  rw [List.getElem_map, List.getElem_map, List.getElem_drop, List.getElem_drop,
    hread a (by rw [List.length_append, length_leaving]; omega),
    hread b (by rw [List.length_append, length_leaving]; omega)] at heq
  have hsame := h.robIdx_inj (i := i) (Nat.le_add_right _ a) (Nat.le_add_right _ b)
    (by omega) (by omega) heq
  omega

theorem Inv.robState_step (h : t.Inv) {n : Nat} (hn : t.popped ≤ n)
    (hlt : n < t.renamed.length + (t.issued i).length)
    (hno : ∀ c ∈ i.completions, c.robIdx ≠ Ring.slot robDepth 0 n) :
    (t.step i).core.rob.robState (Ring.slot robDepth 0 n) =
      ((if t.renamed.length ≤ n then (t.issued i)[n - t.renamed.length]? else none).map
        fun p => p.state (t.core.rob.robState (Ring.slot robDepth 0 n))).getD
          (t.core.rob.robState (Ring.slot robDepth 0 n)) := by
  have hroom := h.room (i := i)
  have hlength := h.length
  have hidx : Ring.slot robDepth 0 n = Ring.slot robDepth t.core.rob.ptr.pop (n - t.popped) := by
    rw [h.pop, Ring.slot_slot, Nat.add_sub_cancel' hn]
  have hfits : (t.coreInputs i).push.length ≤ robDepth := (Nat.le_add_left _ _).trans hroom
  have hstate : (t.step i).core.rob.robState (Ring.slot robDepth 0 n) = _ :=
    ROBFIFO.step_robState h.range.push (Ring.slot_lt h.range.pos _ _) hfits
  have hpush : ROBFIFO.pushAt t.core.rob.ptr.push (Ring.slot robDepth 0 n) 0 (t.issued i) = _ :=
    hidx ▸ ROBFIFO.pushAt_slot h.range (by omega) hroom
  have hnone : ROBFIFO.completionAt (Ring.slot robDepth 0 n)
      (ROBFIFO.inPortOrder (t.coreInputs i).completions) = none := by
    rw [Option.eq_none_iff_forall_not_mem]
    intro c hc
    obtain ⟨hmem, hrob⟩ := ROBFIFO.mem_of_completionAt hc
    exact hno c hmem hrob
  rw [hstate, hnone]
  change ((ROBFIFO.pushAt t.core.rob.ptr.push (Ring.slot robDepth 0 n) 0 (t.issued i)).map
    _).getD _ = _
  rw [hpush]
  have hle : t.core.rob.ptr.count robDepth ≤ n - t.popped ↔ t.renamed.length ≤ n := by omega
  have hsub : n - t.popped - t.core.rob.ptr.count robDepth = n - t.renamed.length := by omega
  simp only [hle, hsub]

/-- The pop ports show the state of the oldest entries. -/
def PopSynced (t : DispatchCore) : Prop :=
  ∀ j < t.core.rob.ptr.count robDepth, t.core.rob.popState j = t.core.rob.robState (t.core.entry j)

theorem PopSynced.step (h : t.Inv) : (t.step i).PopSynced := by
  intro j hj
  cases hflush : t.needFlush i with
  | true =>
    have hptr := ptr_step (t := t) (i := i)
    rw [hflush, if_pos rfl] at hptr
    rw [hptr] at hj
    exact absurd hj (Nat.not_lt_zero j)
  | false =>
    obtain ⟨-, hcount⟩ := h.core_step hflush
    rw [List.length_append, length_leaving] at hcount
    have hlength := h.length
    have hentry : (t.step i).core.entry j = _ := CommitCore.entry_step hflush j
    have hstate : (t.step i).core.rob.popState j = _ :=
      ROBFIFO.step_popState h.range (CommitCore.popCount_le t.core (t.coreInputs i)) h.room (by
        have hpops : t.core.popCount (t.coreInputs i) = t.popCount i := rfl
        have hpush : (t.coreInputs i).push.length = (t.issued i).length := rfl
        omega)
    rw [hstate, hentry, Ring.slot_slot]
    rfl

/-- What leaves the reorder buffer is complete. -/
theorem complete_of_popped (h : t.Inv) (hsynced : t.PopSynced) {n : Nat} (hn : t.popped ≤ n)
    (hlt : n < t.popped + t.popCount i) :
    (t.core.rob.robState (Ring.slot robDepth 0 n)).complete = true := by
  have hpop : t.popCount i ≤ t.core.rob.ptr.count robDepth :=
    CommitCore.popCount_le t.core (t.coreInputs i)
  have hready : Commit.fire t.core.ports t.core.fsm i.commit (n - t.popped) = true :=
    Commit.fire_of_lt_popCount (by change _ < t.popCount i; omega)
  simp only [Commit.fire, Commit.ready, Commit.completeMask, Bool.and_eq_true,
    List.all_eq_true, List.mem_range] at hready
  have hcomplete := hready.2.1.1.1.1 (n - t.popped) (Nat.lt_succ_self _)
  rw [← h.entry_eq hn, ← hsynced _ (by omega)]
  exact hcomplete

end DispatchCore

/-! ## The invariant -/

namespace WakeupCore

open DispatchCore Producers

variable (t : WakeupCore) (q : IssueQueue)

/-- The busy bit of a register. -/
def busy (p : Nat) : Bool := p != 0 && t.busys (p - 1)

/-- The `j`-th operand of an instruction waits for a busy register. It has been given last to
the producer that the operand had when it was renamed, and not been broadcast since. -/
structure Awaits (slot : IssueSlot) (j : Nat) : Prop where
  busy : t.busy (operand slot.rRegs j) = true
  producer : ∃ n, t.producers.sources slot.robIdx j = some n ∧
    t.producers.last (operand slot.rRegs j) = some { seq := n, told := false }

/-- The entry of an instruction is in the reorder buffer and not complete. -/
structure Open (idx : Nat) : Prop where
  inFlight : ∃ n, t.dispatch.popped ≤ n ∧ n < t.dispatch.renamed.length ∧
    idx = Ring.slot robDepth 0 n
  incomplete : (t.dispatch.core.rob.robState idx).complete = false

/-- The instructions that a queue holds, with those that come to it from DISPATCH, are in
flight in program order. They are not complete and not executing. -/
structure Waits (l : List IssueSlot) : Prop where
  holds : Compressed.Holds q.depth (t.dispatch.queue q) l
  inOrder : (l ++ part q t.dispatch.pending).Sublist
    (part q (t.dispatch.renamed.drop t.dispatch.popped))
  incomplete : ∀ slot ∈ l ++ part q t.dispatch.pending,
    (t.dispatch.core.rob.robState slot.robIdx).complete = false
  apart : ∀ slot ∈ l ++ part q t.dispatch.pending, ∀ e ∈ t.executing, e.robIdx ≠ slot.robIdx

structure Inv : Prop where
  dispatch : t.dispatch.Inv
  sourced : t.dispatch.rename.Sourced
  popState : t.dispatch.PopSynced
  erased : ∀ q, t.dispatch.queue q = IssueQueue.erase (t.slots q)
  waits : t.regFlush = false → ∀ q, ∃ l, t.Waits q l
  executing : t.regFlush = false → ∀ e ∈ t.executing, t.Open e.robIdx
  matched : ∀ n d, t.dispatch.popped ≤ n → t.dispatch.renamed[n]? = some d →
    ∀ j, t.producers.sources d.robIdx j =
      (t.producers.last (operand d.rename.rRegs j)).map Producer.seq
  busys : ∀ k, t.busys k = true ↔ ∃ n, t.producers.last (k + 1) = some { seq := n }
  flagged : ∀ (q : IssueQueue) k slot, k < q.depth → t.slots q k = some slot →
    ∀ j, slot.ready j = true ∨ t.Awaits slot.payload j

variable {t q} {i : Inputs} {l : List IssueSlot}

theorem mem_part {slots : List DispatchSlot} {slot : IssueSlot} (h : slot ∈ part q slots) :
    ∃ d ∈ slots, q.takes d.uop = true ∧ d.issueSlot = slot := by
  obtain ⟨d, hd, rfl⟩ := List.mem_map.mp h
  exact ⟨d, (List.mem_filter.mp hd).1, (List.mem_filter.mp hd).2, rfl⟩

/-- What waits is in flight. -/
theorem Waits.exists_renamed (h : t.Waits q l) {slot : IssueSlot}
    (hslot : slot ∈ l ++ part q t.dispatch.pending) :
    ∃ n d, t.dispatch.popped ≤ n ∧ t.dispatch.renamed[n]? = some d ∧ q.takes d.uop = true ∧
      d.issueSlot = slot := by
  obtain ⟨d, hd, htakes, heq⟩ := mem_part (h.inOrder.subset hslot)
  obtain ⟨k, hk⟩ := List.mem_iff_getElem?.mp hd
  rw [List.getElem?_drop] at hk
  exact ⟨t.dispatch.popped + k, d, Nat.le_add_right _ _, hk, htakes, heq⟩

theorem lt_renamed {n : Nat} {d : DispatchSlot} (hd : t.dispatch.renamed[n]? = some d) :
    n < t.dispatch.renamed.length := (List.getElem?_eq_some_iff.mp hd).1

theorem nodup_part (h : t.dispatch.Inv) (q : IssueQueue) :
    ((part q (t.dispatch.renamed.drop t.dispatch.popped)).map IssueSlot.robIdx).Nodup := by
  have hall : (t.dispatch.renamed.drop t.dispatch.popped).Sublist
      ((t.dispatch.renamed ++ t.dispatch.leaving {}).drop t.dispatch.popped) :=
    (List.sublist_append_left _ _).drop _
  rw [part, List.map_map]
  exact (h.nodup_robIdx {}).sublist ((List.filter_sublist.trans hall).map _)

/-- Two queues do not wait for the same entry. -/
theorem Waits.queue_eq {q' : IssueQueue} {l' : List IssueSlot} (hinv : t.dispatch.Inv)
    (h : t.Waits q l) (h' : t.Waits q' l') {slot slot' : IssueSlot}
    (hslot : slot ∈ l ++ part q t.dispatch.pending)
    (hslot' : slot' ∈ l' ++ part q' t.dispatch.pending) (heq : slot.robIdx = slot'.robIdx) :
    q = q' := by
  obtain ⟨n, d, hn, hd, htakes, rfl⟩ := h.exists_renamed hslot
  obtain ⟨m, d', hm, hd', htakes', rfl⟩ := h'.exists_renamed hslot'
  have hsame : Ring.slot robDepth 0 n = Ring.slot robDepth 0 m := by
    rw [← hinv.robIdx n d hd, ← hinv.robIdx m d' hd']
    exact heq
  have hnlt := lt_renamed hd
  have hmlt := lt_renamed hd'
  obtain rfl := hinv.robIdx_inj (i := {}) hn hm (by omega) (by omega) hsame
  obtain rfl := Option.some.inj (hd.symm.trans hd')
  have hexec : d.uop.needNotExecute = false := by
    by_contra hno
    have hnone := (IssueQueue.takes_iff d.uop).1.mp (Bool.of_not_eq_false hno) q
    rw [htakes] at hnone
    cases hnone
  exact ((IssueQueue.takes_iff d.uop).2 hexec).unique htakes htakes'

/-- What waits has an open entry. -/
theorem Waits.isOpen (hinv : t.dispatch.Inv) (h : t.Waits q l) {slot : IssueSlot}
    (hslot : slot ∈ l ++ part q t.dispatch.pending) : t.Open slot.robIdx := by
  obtain ⟨n, d, hn, hd, -, rfl⟩ := h.exists_renamed hslot
  exact ⟨⟨n, hn, lt_renamed hd, hinv.robIdx n d hd⟩, h.incomplete _ hslot⟩

/-! ## One cycle of the queues -/

section Cycle

theorem renamed_step (hflush : t.dispatch.needFlush (t.dispatchInputs i) = false) :
    (t.step i).dispatch.renamed =
      t.dispatch.renamed ++ t.dispatch.leaving (t.dispatchInputs i) := by
  simp only [WakeupCore.step, DispatchCore.step, hflush, Bool.false_eq_true, if_false]

theorem popped_step (hflush : t.dispatch.needFlush (t.dispatchInputs i) = false) :
    (t.step i).dispatch.popped =
      t.dispatch.popped + t.dispatch.popCount (t.dispatchInputs i) := by
  simp only [WakeupCore.step, DispatchCore.step, hflush, Bool.false_eq_true, if_false]

variable (hinv : t.Inv)

include hinv

/-- What a pipe reports is in flight and not complete. -/
theorem Inv.reported (hclear : t.regFlush = false) (hi : t.Legal i) {c : Completion}
    (hc : c ∈ i.completions) : t.Open c.robIdx := by
  obtain ⟨e, he, hidx⟩ := hi.issued c hc
  exact hidx ▸ hinv.executing hclear e he

/-- An entry stays open unless it is reported. -/
theorem Open.step {idx : Nat} (h : t.Open idx)
    (hflush : t.dispatch.needFlush (t.dispatchInputs i) = false)
    (hno : ∀ c ∈ i.completions, c.robIdx ≠ idx) : (t.step i).Open idx := by
  obtain ⟨⟨n, hn, hlt, rfl⟩, hincomplete⟩ := h
  refine ⟨⟨n, ?_, ?_, rfl⟩, ?_⟩
  · rw [popped_step hflush]
    by_contra hpop
    have hcomplete := complete_of_popped hinv.dispatch hinv.popState hn (Nat.lt_of_not_le hpop)
    rw [hincomplete] at hcomplete
    cases hcomplete
  · rw [renamed_step hflush, List.length_append]
    omega
  · have hstate : (t.step i).dispatch.core.rob.robState (Ring.slot robDepth 0 n) = _ :=
      hinv.dispatch.robState_step hn (Nat.lt_add_right _ hlt) hno
    rw [hstate, if_neg (by omega)]
    exact hincomplete

/-- The entries of what leaves RENAME are not open yet. -/
theorem Open.ne_leaving {idx k : Nat} {d : DispatchSlot} (h : t.Open idx)
    (hd : (t.dispatch.leaving (t.dispatchInputs i))[k]? = some d) :
    idx ≠ Ring.slot robDepth 0 (t.dispatch.renamed.length + k) := by
  obtain ⟨⟨n, hn, hlt, rfl⟩, -⟩ := h
  have hk : k < (t.dispatch.issued (t.dispatchInputs i)).length := by
    rw [← length_leaving]
    exact (List.getElem?_eq_some_iff.mp hd).1
  have hlength := hinv.dispatch.length
  intro heq
  have hsame := hinv.dispatch.robIdx_inj (i := t.dispatchInputs i) hn
    (m := t.dispatch.renamed.length + k) (by omega) (by omega) (by omega) heq
  omega

/-- An instruction that leaves RENAME for a queue gets an open entry. -/
theorem Inv.open_leaving (hclear : t.regFlush = false) (hi : t.Legal i)
    (hflush : t.dispatch.needFlush (t.dispatchInputs i) = false) {k : Nat} {d : DispatchSlot}
    (hd : (t.dispatch.leaving (t.dispatchInputs i))[k]? = some d)
    (htakes : q.takes d.uop = true) : (t.step i).Open d.robIdx := by
  have hlength := hinv.dispatch.length
  have hpop := hinv.dispatch.popCount_le (i := t.dispatchInputs i)
  have hk : k < (t.dispatch.issued (t.dispatchInputs i)).length := by
    rw [← length_leaving]
    exact (List.getElem?_eq_some_iff.mp hd).1
  have hget : (t.dispatch.renamed ++ t.dispatch.leaving (t.dispatchInputs i))[
      t.dispatch.renamed.length + k]? = some d := by
    rw [List.getElem?_append_right (Nat.le_add_right _ _), Nat.add_sub_cancel_left, hd]
  have hidx := hinv.dispatch.robIdx_leaving hget
  have hexec : d.uop.needNotExecute = false := by
    by_contra hno
    have hnone := (IssueQueue.takes_iff d.uop).1.mp (Bool.of_not_eq_false hno) q
    rw [htakes] at hnone
    cases hnone
  refine ⟨⟨t.dispatch.renamed.length + k, ?_, ?_, hidx⟩, ?_⟩
  · rw [popped_step hflush]
    omega
  · rw [renamed_step hflush, List.length_append, length_leaving]
    omega
  · have hno : ∀ c ∈ i.completions,
        c.robIdx ≠ Ring.slot robDepth 0 (t.dispatch.renamed.length + k) := fun c hc =>
      (hinv.reported hclear hi hc).ne_leaving hinv hd
    have hstate : (t.step i).dispatch.core.rob.robState
        (Ring.slot robDepth 0 (t.dispatch.renamed.length + k)) = _ :=
      hinv.dispatch.robState_step (by omega) (by omega) hno
    rw [leaving_getElem?, Option.map_eq_some_iff] at hd
    obtain ⟨p, hp, rfl⟩ := hd
    rw [hidx, hstate, if_pos (Nat.le_add_right _ _), Nat.add_sub_cancel_left, hp]
    exact hexec

omit hinv in
/-- The slots of a queue that leave it. -/
theorem leaves_iff (hinv : t.Inv) (hl : t.Waits q l) {slot : IssueSlot} :
    slot ∈ t.issued i q ↔ ∃ k, q.leaves (t.dispatch.queue q) (t.issuable i q) (issueFire i q) k ∧
      l[k]? = some slot := by
  rw [issued, ← hinv.erased, List.mem_filterMap]
  constructor
  · rintro ⟨k, hk, hslot⟩
    rw [hl.holds.slot k (List.mem_range.mp hk)] at hslot
    split_ifs at hslot with hleaves
    exact ⟨k, hleaves, hslot⟩
  · rintro ⟨k, hleaves, hslot⟩
    have hlt := (List.getElem?_eq_some_iff.mp hslot).1
    refine ⟨k, List.mem_range.mpr (hlt.trans_le hl.holds.length_le), ?_⟩
    rw [hl.holds.slot k (hlt.trans_le hl.holds.length_le), if_pos hleaves, hslot]

/-- The instructions of a queue that stay, with those in DISPATCH, have other entries than
those that leave the queue. -/
theorem issued_apart (hl : t.Waits q l) {slot e : IssueSlot} (he : e ∈ t.issued i q)
    (hslot : slot ∈ Compressed.survivors
      (q.leaves (t.dispatch.queue q) (t.issuable i q) (issueFire i q)) l ++
        part q t.dispatch.pending) : e.robIdx ≠ slot.robIdx := by
  obtain ⟨k, hleaves, hk⟩ := (leaves_iff hinv hl).mp he
  have hnodup := (nodup_part hinv.dispatch q).sublist (hl.inOrder.map IssueSlot.robIdx)
  rw [List.map_append, List.nodup_append] at hnodup
  rcases List.mem_append.mp hslot with hstays | hcomes
  · rw [Compressed.survivors_eq_filterMap, List.mem_filterMap] at hstays
    obtain ⟨m, hm, hslot⟩ := hstays
    have hstay := (List.mem_filter.mp hm).2
    intro heq
    have hidx : (l.map IssueSlot.robIdx)[k]? = (l.map IssueSlot.robIdx)[m]? := by
      rw [List.getElem?_map, List.getElem?_map, hk, hslot, Option.map_some, Option.map_some, heq]
    have hlt : k < (l.map IssueSlot.robIdx).length := by
      rw [List.length_map]
      exact (List.getElem?_eq_some_iff.mp hk).1
    obtain rfl := (List.getElem?_inj hlt hnodup.1).mp hidx
    rw [hleaves] at hstay
    cases hstay
  · exact fun heq => hnodup.2.2 _ (List.mem_map_of_mem (List.mem_of_getElem? hk)) _
      (List.mem_map_of_mem hcomes) heq

/-- What comes to a queue in this cycle, and what still comes to it after the cycle. -/
theorem pushes_pending (hflush : t.dispatch.needFlush (t.dispatchInputs i) = false)
    (q : IssueQueue) : t.dispatch.pushes q ++ part q (t.step i).dispatch.pending =
      part q t.dispatch.pending ++ part q (t.dispatch.leaving (t.dispatchInputs i)) := by
  have hpending : (t.step i).dispatch.pending = _ := pending_step hflush
  rw [hpending, pushes_eq hinv.dispatch.routed, part_append, ← List.append_assoc]
  congr 1
  split_ifs with hfire
  · rw [pending, if_pos (Bool.and_eq_true _ _ ▸ hfire).1]
    exact List.append_nil _
  · exact List.nil_append _

theorem holds_step (hclear : t.regFlush = false) (hl : t.Waits q l) :
    Compressed.Holds q.depth ((t.step i).dispatch.queue q)
      (Compressed.survivors (q.leaves (t.dispatch.queue q) (t.issuable i q) (issueFire i q)) l ++
        t.dispatch.pushes q) := by
  have hnext : Compressed.Holds q.depth (q.next (t.dispatch.queue q) (t.issuable i q)
      (t.dispatch.pushPort q) (issueFire i q) false) _ :=
    IssueQueue.holds_next_leaves hl.holds (hinv.dispatch.queue_room hl.holds)
      (length_pushes_le q) (pushPort_getElem? hinv.dispatch.routed q)
  rw [← hclear] at hnext
  exact hnext

/-- What a queue waits for after a cycle: the instructions that stay, those that were in
DISPATCH, and those that come there. -/
theorem mem_waiting {slot : IssueSlot}
    (hslot : slot ∈ (Compressed.survivors
      (q.leaves (t.dispatch.queue q) (t.issuable i q) (issueFire i q)) l ++
        part q t.dispatch.pending) ++ part q (t.dispatch.leaving (t.dispatchInputs i))) :
    slot ∈ Compressed.survivors
        (q.leaves (t.dispatch.queue q) (t.issuable i q) (issueFire i q)) l ++
          part q t.dispatch.pending ∨
      ∃ k d, (t.dispatch.leaving (t.dispatchInputs i))[k]? = some d ∧ q.takes d.uop = true ∧
        d.issueSlot = slot ∧
        slot.robIdx = Ring.slot robDepth 0 (t.dispatch.renamed.length + k) := by
  rcases List.mem_append.mp hslot with hold | hnew
  · exact .inl hold
  · obtain ⟨d, hd, htakes, rfl⟩ := mem_part hnew
    obtain ⟨k, hk⟩ := List.mem_iff_getElem?.mp hd
    refine .inr ⟨k, d, hk, htakes, rfl, ?_⟩
    apply hinv.dispatch.robIdx_leaving (n := t.dispatch.renamed.length + k)
    rw [List.getElem?_append_right (Nat.le_add_right _ _), Nat.add_sub_cancel_left, hk]

omit hinv in
theorem mem_executing_step (hclear : t.regFlush = false) {e : IssueSlot}
    (he : e ∈ (t.step i).executing) :
    (e ∈ t.executing ∧ ∀ c ∈ i.completions, c.robIdx ≠ e.robIdx) ∨ ∃ q, e ∈ t.issued i q := by
  simp only [WakeupCore.step, hclear, Bool.false_eq_true, if_false, List.mem_append,
    List.mem_filter, Bool.not_eq_true', List.any_eq_false, beq_iff_eq] at he
  rcases he with hold | (hint | hmulDiv) | hmem
  · exact .inl hold
  · exact .inr ⟨_, hint⟩
  · exact .inr ⟨_, hmulDiv⟩
  · exact .inr ⟨_, hmem⟩

theorem mem_of_issued (hl : t.Waits q l) {e : IssueSlot} (he : e ∈ t.issued i q) : e ∈ l := by
  obtain ⟨k, -, hk⟩ := (leaves_iff hinv hl).mp he
  exact List.mem_of_getElem? hk

omit hinv in
/-- What waits is not reported. -/
theorem Waits.not_reported (hl : t.Waits q l) (hi : t.Legal i) {slot : IssueSlot}
    (hslot : slot ∈ l ++ part q t.dispatch.pending) :
    ∀ c ∈ i.completions, c.robIdx ≠ slot.robIdx := by
  intro c hc
  obtain ⟨e, he, hidx⟩ := hi.issued c hc
  exact hidx ▸ hl.apart slot hslot e he

/-- The instructions that are executing are in flight and not complete. -/
theorem Inv.executing_step (hi : t.Legal i) (hclear : t.regFlush = false)
    (hflush : t.dispatch.needFlush (t.dispatchInputs i) = false) :
    ∀ e ∈ (t.step i).executing, (t.step i).Open e.robIdx := by
  intro e he
  rcases mem_executing_step hclear he with ⟨hold, hno⟩ | ⟨q, hissued⟩
  · exact (hinv.executing hclear e hold).step hinv hflush hno
  · obtain ⟨l, hl⟩ := hinv.waits hclear q
    have hmem := List.mem_append_left (part q t.dispatch.pending) (mem_of_issued hinv hl hissued)
    exact (hl.isOpen hinv.dispatch hmem).step hinv hflush (hl.not_reported hi hmem)

theorem Inv.waits_step (hi : t.Legal i) (hclear : t.regFlush = false)
    (hflush : t.dispatch.needFlush (t.dispatchInputs i) = false) (q : IssueQueue) :
    ∃ l, (t.step i).Waits q l := by
  obtain ⟨l, hl⟩ := hinv.waits hclear q
  set stay := Compressed.survivors
    (q.leaves (t.dispatch.queue q) (t.issuable i q) (issueFire i q)) l with hstay
  have hlist : (stay ++ t.dispatch.pushes q) ++ part q (t.step i).dispatch.pending =
      (stay ++ part q t.dispatch.pending) ++
        part q (t.dispatch.leaving (t.dispatchInputs i)) := by
    rw [List.append_assoc, pushes_pending hinv hflush, ← List.append_assoc]
  have hold : (stay ++ part q t.dispatch.pending).Sublist (l ++ part q t.dispatch.pending) :=
    (Compressed.survivors_sublist _ _).append_right _
  refine ⟨stay ++ t.dispatch.pushes q, holds_step hinv hclear hl, ?_, ?_, ?_⟩
  · have hpop := hinv.dispatch.popCount_le (i := t.dispatchInputs i)
    have hlength := hinv.dispatch.length
    rw [hlist, renamed_step hflush, popped_step hflush,
      List.drop_append_of_le_length (by omega), part_append]
    apply List.Sublist.append _ (List.Sublist.refl _)
    -- what leaves the reorder buffer is complete, what waits is not
    have hsub := hold.trans hl.inOrder
    rw [← List.take_append_drop (t.dispatch.popCount (t.dispatchInputs i))
      (t.dispatch.renamed.drop t.dispatch.popped), part_append, List.drop_drop,
      List.sublist_append_iff] at hsub
    obtain ⟨gone, left, heq, hgone, hleft⟩ := hsub
    cases gone with
    | nil =>
      rw [heq]
      exact hleft
    | cons slot gone =>
      exfalso
      have hmem : slot ∈ stay ++ part q t.dispatch.pending := by
        rw [heq]
        exact List.mem_cons_self
      have hincomplete := hl.incomplete slot (hold.subset hmem)
      obtain ⟨d, hd, -, rfl⟩ := mem_part (hgone.subset List.mem_cons_self)
      obtain ⟨k, hk⟩ := List.mem_iff_getElem?.mp hd
      rw [List.getElem?_take, List.getElem?_drop] at hk
      split_ifs at hk with hlt
      have hidx : d.issueSlot.robIdx = _ := hinv.dispatch.robIdx _ d hk
      rw [hidx, complete_of_popped hinv.dispatch hinv.popState (Nat.le_add_right _ k)
        (Nat.add_lt_add_left hlt _)] at hincomplete
      cases hincomplete
  · intro slot hslot
    rw [hlist] at hslot
    rcases mem_waiting hinv hslot with hwas | ⟨k, d, hd, htakes, rfl, -⟩
    · have hmem := hold.subset hwas
      exact ((hl.isOpen hinv.dispatch hmem).step hinv hflush
        (hl.not_reported hi hmem)).incomplete
    · exact (hinv.open_leaving hclear hi hflush hd htakes).incomplete
  · intro slot hslot e he
    rw [hlist] at hslot
    rcases mem_executing_step hclear he with ⟨hexec, -⟩ | ⟨q', hissued⟩
    · rcases mem_waiting hinv hslot with hwas | ⟨k, d, hd, -, -, hidx⟩
      · exact hl.apart slot (hold.subset hwas) e hexec
      · rw [hidx]
        exact (hinv.executing hclear e hexec).ne_leaving hinv hd
    · obtain ⟨l', hl'⟩ := hinv.waits hclear q'
      have hmem := List.mem_append_left (part q' t.dispatch.pending)
        (mem_of_issued hinv hl' hissued)
      rcases mem_waiting hinv hslot with hwas | ⟨k, d, hd, -, -, hidx⟩
      · intro heq
        obtain rfl := hl'.queue_eq hinv.dispatch hl hmem (hold.subset hwas) heq
        exact issued_apart hinv hl hissued hwas heq
      · rw [hidx]
        exact (hl'.isOpen hinv.dispatch hmem).ne_leaving hinv hd

/-! ## One cycle of the registers and the flags -/

omit hinv in
/-- The registers taken from the free list are those that the group is given. -/
theorem popped_eq : t.popped i = taken (t.dispatch.leaving (t.dispatchInputs i)) := by
  rw [taken_leaving, popped, DispatchCore.issued, RenameStage.issued, RenameStage.popReady]
  split_ifs
  · rw [Rename.new_renamed]
    simp [RenameStage.ports]
  · rfl

/-- An operand of an instruction in flight keeps its producer. -/
theorem Inv.matched_kept {n : Nat} {d : DispatchSlot} (hn : t.dispatch.popped ≤ n)
    (hd : t.dispatch.renamed[n]? = some d) (j : Nat) :
    (t.step i).producers.sources d.robIdx j =
      ((t.step i).producers.last (operand d.rename.rRegs j)).map Producer.seq := by
  have hother : ∀ slot ∈ t.dispatch.leaving (t.dispatchInputs i), slot.robIdx ≠ d.robIdx := by
    intro slot hslot
    obtain ⟨k, hk⟩ := List.mem_iff_getElem?.mp hslot
    have hget : (t.dispatch.renamed ++ t.dispatch.leaving (t.dispatchInputs i))[
        t.dispatch.renamed.length + k]? = some slot := by
      rw [List.getElem?_append_right (Nat.le_add_right _ _), Nat.add_sub_cancel_left, hk]
    have hklt : k < (t.dispatch.issued (t.dispatchInputs i)).length := by
      rw [← length_leaving]
      exact (List.getElem?_eq_some_iff.mp hk).1
    have hlt := lt_renamed hd
    have hlength := hinv.dispatch.length
    rw [hinv.dispatch.robIdx_leaving hget, hinv.dispatch.robIdx n d hd]
    intro heq
    have hsame := hinv.dispatch.robIdx_inj (i := t.dispatchInputs i)
      (n := t.dispatch.renamed.length + k) (by omega) hn (by omega) (by omega) heq
    omega
  rw [WakeupCore.step]
  dsimp only
  rw [sources_of_not_mem hother,
    last_of_not_mem (hinv.dispatch.operand_not_taken hinv.sourced hn hd j), sources_tell,
    seq_tell]
  exact hinv.matched n d hn hd j

theorem Inv.matched_step (hi : t.Legal i) {n : Nat} {d : DispatchSlot}
    (hn : (t.step i).dispatch.popped ≤ n) (hd : (t.step i).dispatch.renamed[n]? = some d)
    (j : Nat) : (t.step i).producers.sources d.robIdx j =
      ((t.step i).producers.last (operand d.rename.rRegs j)).map Producer.seq := by
  cases hflush : t.dispatch.needFlush (t.dispatchInputs i) with
  | true =>
    have hempty : (t.step i).dispatch.renamed = [] := by
      simp only [WakeupCore.step, DispatchCore.step, hflush, if_true]
    rw [hempty] at hd
    cases hd
  | false =>
    rw [renamed_step hflush] at hd
    rw [popped_step hflush] at hn
    by_cases hold : n < t.dispatch.renamed.length
    · rw [List.getElem?_append_left hold] at hd
      exact hinv.matched_kept ((Nat.le_add_right _ _).trans hn) hd j
    · obtain ⟨k, rfl⟩ := Nat.exists_eq_add_of_le (Nat.le_of_not_lt hold)
      rw [List.getElem?_append_right (Nat.le_add_right _ _), Nat.add_sub_cancel_left] at hd
      have hnew : (t.dispatch.leaving (t.dispatchInputs i)).Sublist
          ((t.dispatch.renamed ++ t.dispatch.leaving (t.dispatchInputs i)).drop
            t.dispatch.popped) := by
        have hlength := hinv.dispatch.length
        rw [List.drop_append_of_le_length (by omega)]
        exact List.sublist_append_right _ _
      have hnodup := (hinv.dispatch.nodup_robIdx (t.dispatchInputs i)).sublist (hnew.map _)
      exact sources_getElem hd hnodup
        (hinv.dispatch.operand_not_taken_behind ⟨hi.decoded⟩ hd j)

theorem Inv.busys_step (k : Nat) : (t.step i).busys k = true ↔
    ∃ n, (t.step i).producers.last (k + 1) = some { seq := n } := by
  rw [WakeupCore.step]
  dsimp only
  rw [popped_eq, List.contains_eq_mem, List.contains_eq_mem]
  by_cases htaken : k + 1 ∈ taken (t.dispatch.leaving (t.dispatchInputs i))
  · rw [if_pos (decide_eq_true htaken)]
    exact ⟨fun _ => last_of_mem htaken, fun _ => rfl⟩
  · rw [if_neg (by simpa using htaken), last_of_not_mem htaken, Producers.tell]
    dsimp only
    by_cases hclear : k + 1 ∈ t.clearBusys i
    · rw [if_pos (decide_eq_true hclear)]
      cases t.producers.last (k + 1) <;> simp [hclear]
    · rw [if_neg (by simpa using hclear), hinv.busys]
      cases t.producers.last (k + 1) with
      | none => simp
      | some producer =>
        obtain ⟨n, told⟩ := producer
        simp [hclear]

omit hinv in
/-- A bit that is not cleared stays. -/
theorem busy_step {p : Nat} (h : t.busy p = true) (hclear : p ∉ t.clearBusys i) :
    (t.step i).busy p = true := by
  rw [busy, Bool.and_eq_true, bne_iff_ne] at h ⊢
  refine ⟨h.1, ?_⟩
  obtain ⟨k, rfl⟩ := Nat.exists_eq_succ_of_ne_zero h.1
  rw [WakeupCore.step]
  dsimp only
  split_ifs with hpop hcleared
  · rfl
  · rw [List.contains_eq_mem, decide_eq_true_eq] at hcleared
    exact absurd hcleared hclear
  · exact h.2

/-- An instruction in flight whose register is busy still waits for its producer. -/
theorem Inv.awaits_step {n : Nat} {d : DispatchSlot} (hn : t.dispatch.popped ≤ n)
    (hd : t.dispatch.renamed[n]? = some d) {j : Nat}
    (hbusy : t.busy (operand d.rename.rRegs j) = true)
    (hclear : operand d.rename.rRegs j ∉ t.clearBusys i) :
    (t.step i).Awaits d.issueSlot j := by
  have hstays := busy_step hbusy hclear
  have hmatch := hinv.matched_kept (i := i) hn hd j
  refine ⟨hstays, ?_⟩
  rw [busy, Bool.and_eq_true, bne_iff_ne] at hstays
  have hreg : operand d.rename.rRegs j - 1 + 1 = operand d.rename.rRegs j := by omega
  obtain ⟨m, hm⟩ := (hinv.busys_step _).mp hstays.2
  rw [hreg] at hm
  rw [hm] at hmatch
  exact ⟨m, hmatch, hm⟩

omit hinv in
/-- The busy bit as DISPATCH reads it. -/
theorem readBusy_iff {p : Nat} :
    t.readBusy i p = true ↔ t.busy p = true ∧ p ∉ t.clearBusys i := by
  rw [readBusy, busy, List.contains_eq_mem]
  by_cases hclear : p ∈ t.clearBusys i
  · simp [hclear]
  · by_cases hzero : p = 0 <;> simp [hclear, hzero]

omit hinv in
theorem payload_of_pushPort {k : Nat} {slot : QueueSlot IssueSlot}
    (h : t.pushPort i q k = some slot) :
    t.dispatch.pushPort q k = some slot.payload ∧
      slot.ready = fun j => !q.uses slot.payload.uop j ||
        !t.readBusy i (operand slot.payload.rRegs j) := by
  obtain ⟨payload, hpayload, rfl⟩ := Option.map_eq_some_iff.mp h
  exact ⟨hpayload, rfl⟩

/-- What is in a slot or is pushed to it is in flight. -/
theorem Inv.exists_of_slot (hclear : t.regFlush = false) {k : Nat} (hk : k < q.depth)
    {slot : QueueSlot IssueSlot} (hslot : t.slots q k = some slot) :
    ∃ n d, t.dispatch.popped ≤ n ∧ t.dispatch.renamed[n]? = some d ∧
      d.issueSlot = slot.payload := by
  obtain ⟨l, hl⟩ := hinv.waits hclear q
  have hread := hl.holds.slot k hk
  rw [hinv.erased, IssueQueue.erase, hslot] at hread
  obtain ⟨n, d, hn, hd, -, heq⟩ :=
    hl.exists_renamed (List.mem_append_left _ (List.mem_of_getElem? hread.symm))
  exact ⟨n, d, hn, hd, heq⟩

theorem Inv.exists_of_pushPort (hclear : t.regFlush = false) {k : Nat}
    {slot : QueueSlot IssueSlot} (hslot : t.pushPort i q k = some slot) :
    ∃ n d, t.dispatch.popped ≤ n ∧ t.dispatch.renamed[n]? = some d ∧
      d.issueSlot = slot.payload := by
  obtain ⟨l, hl⟩ := hinv.waits hclear q
  have hport := (payload_of_pushPort hslot).1
  rw [pushPort_getElem? hinv.dispatch.routed] at hport
  have hmem := List.mem_of_getElem? hport
  rw [pushes_eq hinv.dispatch.routed] at hmem
  split_ifs at hmem with hfire
  · have hpending : slot.payload ∈ part q t.dispatch.pending := by
      rwa [pending, if_pos (Bool.and_eq_true _ _ ▸ hfire).1]
    obtain ⟨n, d, hn, hd, -, heq⟩ := hl.exists_renamed (List.mem_append_right _ hpending)
    exact ⟨n, d, hn, hd, heq⟩
  · cases hmem

/-- The operands of every slot of the next cycle. -/
theorem Inv.flagged_step {k : Nat} (hk : k < q.depth) {slot : QueueSlot IssueSlot}
    (hslot : (t.step i).slots q k = some slot) (j : Nat) :
    slot.ready j = true ∨ (t.step i).Awaits slot.payload j := by
  obtain ⟨hclear, ⟨k', hk', slot', hold, rfl⟩ | ⟨lane, hpush⟩⟩ :=
    IssueQueue.origin_nextSlots hk hslot
  · obtain ⟨n, d, hn, hd, heq⟩ := hinv.exists_of_slot hclear hk' hold
    dsimp only
    rcases hinv.flagged q k' slot' hk' hold j with hready | hawaits
    · left
      rw [hready]
      rfl
    · by_cases htold : operand slot'.payload.rRegs j ∈ t.clearBusys i
      · -- the broadcast reaches the slot, wherever it goes
        left
        rw [wake, hold]
        simp [htold]
      · right
        rw [← heq] at hawaits htold ⊢
        exact hinv.awaits_step hn hd hawaits.busy htold
  · obtain ⟨n, d, hn, hd, heq⟩ := hinv.exists_of_pushPort hclear hpush
    obtain ⟨-, hready⟩ := payload_of_pushPort hpush
    rw [hready]
    cases hbusy : t.readBusy i (operand slot.payload.rRegs j) with
    | false =>
      left
      dsimp only
      rw [hbusy, Bool.not_false, Bool.or_true]
    | true =>
      right
      rw [readBusy_iff, ← heq] at hbusy
      rw [← heq]
      exact hinv.awaits_step hn hd hbusy.1 hbusy.2

theorem Inv.erased_step (q : IssueQueue) :
    (t.step i).dispatch.queue q = IssueQueue.erase ((t.step i).slots q) := by
  have hpush : t.dispatch.pushPort q = IssueQueue.erase (t.pushPort i q) := by
    funext k
    rw [IssueQueue.erase, WakeupCore.pushPort, Option.map_map]
    exact Option.map_id_apply.symm
  rw [WakeupCore.step]
  dsimp only
  rw [IssueQueue.erase_nextSlots, ← hinv.erased, ← hpush]
  rfl

theorem Inv.step (hi : t.Legal i) : (t.step i).Inv := by
  have hlegal : t.dispatch.Legal (t.dispatchInputs i) := ⟨hi.decoded⟩
  refine ⟨hinv.dispatch.step hlegal,
    hinv.sourced.step hinv.dispatch.stage (hinv.dispatch.renameLegal hlegal),
    PopSynced.step hinv.dispatch, hinv.erased_step, fun hnext => ?_, fun hnext => ?_,
    fun n d hn hd => hinv.matched_step hi hn hd, hinv.busys_step,
    fun q k slot hk hslot => hinv.flagged_step hk hslot⟩
  · have hflush : t.dispatch.needFlush (t.dispatchInputs i) = false := hnext
    cases hclear : t.regFlush with
    | false => exact hinv.waits_step hi hclear hflush
    | true =>
      -- the queues are empty, and so are the stages in front of them
      intro q
      have hvalid := (hinv.dispatch.idle hclear).1
      have hstage := (hinv.dispatch.stage.idle hclear).1
      have hpending : (t.step i).dispatch.pending = [] := by
        have hnone : t.dispatch.pending = [] := by rw [pending, hvalid, if_neg Bool.false_ne_true]
        refine (pending_step hflush).trans ?_
        rw [leaving_of_invalid hstage, hnone]
        split_ifs <;> rfl
      have hqueue : (t.step i).dispatch.queue q = fun _ => none := by
        change q.next _ _ _ _ t.regFlush = _
        rw [hclear]
        rfl
      refine ⟨[], ?_, ?_, ?_, ?_⟩
      · rw [hqueue]
        exact Compressed.Holds.nil
      all_goals simp [hpending]
  · have hflush : t.dispatch.needFlush (t.dispatchInputs i) = false := hnext
    cases hclear : t.regFlush with
    | false => exact hinv.executing_step hi hclear hflush
    | true =>
      have hempty : (t.step i).executing = [] := by simp [WakeupCore.step, hclear]
      simp [hempty]

end Cycle

theorem Inv.of_init (h : t.Init) : t.Inv := by
  have hcount : t.dispatch.core.rob.ptr.count robDepth = 0 := by
    rw [h.dispatch.pointers]
    rfl
  have hpending : t.dispatch.pending = [] := by
    rw [pending, h.dispatch.isValid, if_neg Bool.false_ne_true]
  refine ⟨.of_init h.dispatch, RenameStage.sourced_of_empty h.dispatch.rename.inFlight,
    fun j hj => absurd hj (by omega), fun q => ?_, fun _ q => ⟨[], ?_, ?_, ?_, ?_⟩,
    fun _ => ?_, fun n d _ hd => ?_, fun k => ?_, fun q k slot _ hslot => ?_⟩
  · funext k
    rw [h.dispatch.queue, IssueQueue.erase, h.slots]
    rfl
  · rw [funext (h.dispatch.queue q)]
    exact Compressed.Holds.nil
  · simp [hpending]
  · simp [hpending]
  · simp [hpending]
  · simp [h.executing]
  · rw [h.dispatch.renamed] at hd
    cases hd
  · rw [h.busys, h.last]
    simp
  · rw [h.slots] at hslot
    cases hslot

theorem inv_of_reachable (h : machine.Reachable t) : t.Inv :=
  Clocked.Machine.invariant (fun _ => Inv.of_init) (fun _ _ hinv => hinv.step) h

/-! ## No wake-up is lost -/

/-- An operand of a valid slot is ready or waits for a broadcast that is still to come. -/
def NoneLost (t : WakeupCore) : Prop :=
  ∀ (q : IssueQueue) k slot, k < q.depth → t.slots q k = some slot →
    ∀ j < 2, slot.ready j = true ∨ t.Awaits slot.payload j

/-- What happens to the flags in a cycle. -/
structure Wakes (t : WakeupCore) (i : Inputs) : Prop where
  /-- A broadcast reaches every operand that waits for its register after the cycle: in
  slots that stay, that move up, that are woken otherwise, and that are entered. -/
  broadcast : ∀ p ∈ t.clearBusys i, ∀ (q : IssueQueue) k slot, k < q.depth →
    (t.step i).slots q k = some slot → ∀ j, operand slot.payload.rRegs j = p →
      slot.ready j = true
  /-- A slot comes from DISPATCH, or it has been in the queue and keeps its flags; a wake-up
  by an integer pipe reaches the latter. -/
  origin : ∀ (q : IssueQueue) k slot, k < q.depth → (t.step i).slots q k = some slot →
    (∃ lane, t.pushPort i q lane = some slot) ∨
      ∃ k' < q.depth, ∃ slot', t.slots q k' = some slot' ∧ slot.payload = slot'.payload ∧
        ∀ j, (slot'.ready j = true → slot.ready j = true) ∧
          (q = .int → t.localWakeup i (operand slot.payload.rRegs j) = true →
            slot.ready j = true)
  /-- The instruction by which a pipe wakes the slots is in the next stage of the pipe after
  the cycle, unless that is flushed. -/
  localWakeup : t.regFlush = false → i.regWakeupFailed = false →
    ∀ u ∈ IssueQueue.units .int, (t.step i).regRead u = t.issSlot i u
  /-- There it stays until it broadcasts its register. -/
  later : ∀ u ∈ IssueQueue.units .int, ∀ slot, t.regRead u = some slot →
    slot.uop.doRegWrite = true →
      if i.regWakeupFailed then t.regFlush = false → (t.step i).regRead u = some slot
      else slot.wReg ∈ t.clearBusys i

theorem wakes (t : WakeupCore) (i : Inputs) : t.Wakes i where
  broadcast := by
    intro p hp q k slot hk hslot j hj
    obtain ⟨-, ⟨k', -, slot', hold, rfl⟩ | ⟨lane, hpush⟩⟩ :=
      IssueQueue.origin_nextSlots hk hslot
    · dsimp only at hj ⊢
      rw [wake, hold]
      simp [hj, hp]
    · rw [(payload_of_pushPort hpush).2]
      simp [hj, readBusy, hp]
  origin := by
    intro q k slot hk hslot
    obtain ⟨-, ⟨k', hk', slot', hold, rfl⟩ | hpush⟩ := IssueQueue.origin_nextSlots hk hslot
    · refine .inr ⟨k', hk', slot', hold, rfl, fun j => ⟨fun hready => ?_, fun hq hwakes => ?_⟩⟩
      · dsimp only
        rw [hready]
        rfl
      · dsimp only at hwakes ⊢
        rw [wake, hold]
        simp [hq, hwakes]
    · exact .inl hpush
  localWakeup := by
    intro hclear hmoves u _
    rw [step]
    dsimp only
    rw [hclear, hmoves]
    rfl
  later := by
    intro u hu slot hslot hwrites
    split_ifs with hstuck
    · intro hclear
      rw [step]
      dsimp only
      rw [hclear, hstuck]
      exact hslot
    · apply List.mem_append_left
      rw [intClrBusys, List.mem_filterMap]
      exact ⟨u, hu, by rw [hslot]; simp [hstuck, hwrites]⟩

/-- In every reachable state an operand of a valid slot is ready, or its register is busy
and has not been broadcast since it was given to the operand's producer. In every cycle the
broadcasts reach all slots, and what an integer pipe's wake-up does not reach is reached by
the broadcast that follows it. -/
theorem noLostWakeup (h : machine.Reachable t) : t.NoneLost ∧ ∀ i, t.Wakes i :=
  ⟨fun q k slot hk hslot j _ => (inv_of_reachable h).flagged q k slot hk hslot j, wakes t⟩

instance (t : WakeupCore) (i : Inputs) : Decidable (machine.legal t i) :=
  decidable_of_iff ((i.nextValid = true → RenameStage.Decoded (i.nextGroup.map some)) ∧
    ∀ c ∈ i.completions, ∃ slot ∈ t.executing, slot.robIdx = c.robIdx)
    ⟨fun h => ⟨h.1, h.2⟩, fun h => ⟨h.decoded, h.issued⟩⟩

/-- A multiplication and an addition of its result. The addition waits in the queue, and is
woken when the multiplication broadcasts. -/
def multiplyAdd : List Inputs :=
  let mul : MicroOp := { fuType := .mul, doRegWrite := true, wbAddr := 5 }
  let add : MicroOp := { inst := 0xa0, useRj := true, doRegWrite := true, wbAddr := 6 }
  [{ nextValid := true, nextGroup := [mul, add] }, {}, {}, {}]

theorem noLostWakeup_multiplyAdd :
    let t := machine.run { dispatch := { rename := RenameStage.atReset } } multiplyAdd
    (t.slots .int 0).map (fun slot => slot.ready 0) = some false ∧
      ((t.step { clrBusys := [32] }).slots .int 0).map (fun slot => slot.ready 0) = some true ∧
      t.NoneLost :=
  have hreset : Init { dispatch := { rename := RenameStage.atReset } } :=
    ⟨⟨⟨rfl, rfl, rfl, rfl, rfl, rfl, rfl, rfl⟩, rfl, rfl, fun _ _ => rfl, rfl, rfl, fun _ => rfl⟩,
      fun _ _ => rfl, fun _ => rfl, fun _ => rfl, rfl, fun _ => rfl⟩
  have hstart : machine.Reachable { dispatch := { rename := RenameStage.atReset } } :=
    .reset hreset
  ⟨by decide +kernel, by decide +kernel, (noLostWakeup (hstart.run (by decide +kernel))).1⟩

end WakeupCore

end NopCore
