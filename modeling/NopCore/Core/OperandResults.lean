import NopCore.Core.MemResults
import NopCore.Core.OperandPipes
import NopCore.Core.SourceOrder

/-!
# Results

Every write of the register file is that of an instruction to which the register has been
given last. So the register has the result of the instruction as soon as there is one, and
keeps it until the register is given away again. It is not as long as an instruction that
reads the register is in flight, nor as long as it is that of an architectural register.
-/

namespace NopCore

namespace Producers

variable {g : Producers} {slots : List DispatchSlot}

/-- An instruction has been given one register at most, and none is to come before it is
renamed. -/
structure Distinct (g : Producers) : Prop where
  lt : ∀ p producer, g.last p = some producer → producer.seq < g.seq
  inj : ∀ p q a b, g.last p = some a → g.last q = some b → a.seq = b.seq → p = q

theorem Distinct.tell (h : g.Distinct) (clearBusys : List Nat) : (g.tell clearBusys).Distinct where
  lt p producer hp := by
    obtain ⟨old, hold, rfl⟩ := Option.map_eq_some_iff.mp hp
    exact h.lt p old hold
  inj p q a b hp hq heq := by
    obtain ⟨a', ha, rfl⟩ := Option.map_eq_some_iff.mp hp
    obtain ⟨b', hb, rfl⟩ := Option.map_eq_some_iff.mp hq
    exact h.inj p q a' b' ha hb heq

theorem Distinct.rename (h : g.Distinct) (slot : DispatchSlot) : (g.rename slot).Distinct := by
  have hlast : ∀ p producer, (g.rename slot).last p = some producer →
      (p = slot.rename.wReg ∧ producer.seq = g.seq) ∨ g.last p = some producer := by
    intro p producer hp
    rw [Producers.rename] at hp
    dsimp only at hp
    split_ifs at hp
    · rw [Function.update_apply] at hp
      split_ifs at hp with heq
      · obtain rfl := Option.some.inj hp
        exact .inl ⟨heq, rfl⟩
      · exact .inr hp
    · exact .inr hp
  refine ⟨fun p producer hp => ?_, fun p q a b hp hq heq => ?_⟩
  · change producer.seq < g.seq + 1
    rcases hlast p producer hp with ⟨-, hseq⟩ | hold
    · omega
    · exact (h.lt p producer hold).trans (Nat.lt_succ_self _)
  · rcases hlast p a hp with ⟨rfl, hseq⟩ | hold
    · rcases hlast q b hq with ⟨rfl, -⟩ | hold'
      · rfl
      · have := h.lt q b hold'
        omega
    · rcases hlast q b hq with ⟨rfl, hseq⟩ | hold'
      · have := h.lt p a hold
        omega
      · exact h.inj p q a b hold hold' heq

theorem Distinct.renames (h : g.Distinct) (slots : List DispatchSlot) :
    (slots.foldl Producers.rename g).Distinct := by
  induction slots generalizing g with
  | nil => exact h
  | cons slot slots ih => exact ih (h.rename slot)

theorem seq_renames (g : Producers) (slots : List DispatchSlot) :
    (slots.foldl rename g).seq = g.seq + slots.length := by
  induction slots generalizing g with
  | nil => rfl
  | cons slot slots ih =>
    rw [List.foldl_cons, ih, List.length_cons, Nat.add_comm slots.length, ← Nat.add_assoc]
    rfl

/-- The registers of a group belong to its instructions. -/
theorem last_getElem {k : Nat} {slot : DispatchSlot} (hslot : slots[k]? = some slot)
    (hwrites : slot.uop.doRegWrite = true) (hnodup : (taken slots).Nodup) :
    (slots.foldl rename g).last slot.rename.wReg = some { seq := g.seq + k } := by
  induction slots generalizing g k with
  | nil => cases hslot
  | cons first slots ih =>
    rw [List.foldl_cons]
    rw [taken_cons] at hnodup
    cases k with
    | zero =>
      obtain rfl : first = slot := Option.some.inj hslot
      rw [if_pos hwrites, List.nodup_cons] at hnodup
      rw [last_of_not_mem hnodup.1, rename]
      dsimp only
      rw [if_pos hwrites, Function.update_self]
      rfl
    | succ k =>
      have hrest : (taken slots).Nodup := by
        split_ifs at hnodup
        · exact (List.nodup_cons.mp hnodup).2
        · exact hnodup
      rw [ih hslot hrest, Nat.add_comm k, ← Nat.add_assoc]
      rfl

end Producers

namespace DispatchCore

open Producers

variable {t : DispatchCore} {i : Inputs}

/-- A group takes registers of the free list. -/
theorem Inv.taken_leaving_sublist (h : t.Inv) :
    (taken (t.leaving i)).Sublist t.rename.abs.free := by
  rw [taken_leaving, issued, RenameStage.new_issued h.stage]
  exact List.take_sublist _ _

theorem Inv.nodup_taken_leaving (h : t.Inv) : (taken (t.leaving i)).Nodup := by
  have hnodup := h.stage.registers.nodup_iff.mpr (List.nodup_range' 1)
  rw [Renaming.State.registers, List.append_assoc] at hnodup
  exact (List.nodup_append.mp hnodup).1.sublist h.taken_leaving_sublist

theorem Inv.taken_leaving_ne_zero (h : t.Inv) : 0 ∉ taken (t.leaving i) := by
  intro hmem
  have hphys : 0 ∈ RenameStage.physRegs := by
    apply h.stage.registers.mem_iff.mp
    rw [Renaming.State.registers, List.append_assoc]
    exact List.mem_append_left _ (h.taken_leaving_sublist.subset hmem)
  simp [RenameStage.physRegs] at hphys

/-- What an instruction in flight writes is not given to another one. -/
theorem Inv.wReg_not_taken (h : t.Inv) (hclear : t.rename.regFlush = false) {n : Nat}
    {d : DispatchSlot} (hn : t.popped ≤ n) (hd : t.renamed[n]? = some d)
    (hwrites : d.uop.doRegWrite = true) : d.rename.wReg ∉ taken (t.leaving i) := by
  have hpending : t.rename.abs.pending.map Renaming.Write.new =
      taken (t.renamed.drop t.popped) := by
    rw [RenameStage.abs, RenameStage.live, h.stage.settled hclear, List.nil_append, h.inFlight,
      new_writes]
  have hnodup := h.stage.registers.nodup_iff.mpr (List.nodup_range' 1)
  rw [Renaming.State.registers, List.append_assoc] at hnodup
  have hmem : d.rename.wReg ∈ t.rename.abs.pending.map Renaming.Write.new := by
    rw [hpending]
    exact mem_taken (mem_drop_popped hn hd) hwrites
  intro htaken
  exact (List.nodup_append.mp hnodup).2.2 _ (h.taken_leaving_sublist.subset htaken) _
    (List.mem_append_left _ hmem) rfl

/-- Nor is that of an architectural register. -/
theorem Inv.mapped_not_taken (h : t.Inv) {a : Nat} (ha : a ∈ RenameStage.archRegs) :
    t.rename.abs.map a ∉ taken (t.leaving i) := by
  have hnodup := h.stage.registers.nodup_iff.mpr (List.nodup_range' 1)
  rw [Renaming.State.registers, List.append_assoc] at hnodup
  intro htaken
  exact (List.nodup_append.mp hnodup).2.2 _ (h.taken_leaving_sublist.subset htaken) _
    (List.mem_append_right _ (List.mem_map_of_mem ha)) rfl

/-- What retires is in flight. -/
theorem Inv.retired_getElem? (h : t.Inv) {j : Nat} {p : PushPort}
    (hp : (t.rename.retired (t.renameInputs i))[j]? = some p) :
    Commit.hasExcept t.core.ports t.core.fsm i.commit = false ∧ j < t.popCount i ∧
      ∃ d, t.renamed[t.popped + j]? = some d ∧ d.pushPort = p := by
  rw [RenameStage.retired] at hp
  split_ifs at hp with hexc
  · cases hp
  · rw [List.getElem?_take] at hp
    split_ifs at hp with hj
    rw [h.inFlight, List.getElem?_map, List.getElem?_drop, Option.map_eq_some_iff] at hp
    exact ⟨eq_false_of_ne_true hexc, hj, hp⟩

/-- Behind any of the instructions that retire, an architectural register is where one was, or
it is what one of them writes. -/
theorem Inv.mapped_retired (h : t.Inv) (m : Nat) {a : Nat} (ha : a ∈ RenameStage.archRegs) :
    (∃ b ∈ RenameStage.archRegs, Renaming.apply t.rename.abs.map
        (writes ((t.rename.retired (t.renameInputs i)).take m)) a = t.rename.abs.map b) ∨
      (t.rename.regFlush = false ∧
        Commit.hasExcept t.core.ports t.core.fsm i.commit = false ∧
        ∃ j < t.popCount i, ∃ d, t.renamed[t.popped + j]? = some d ∧ d.uop.doRegWrite = true ∧
          Renaming.apply t.rename.abs.map
            (writes ((t.rename.retired (t.renameInputs i)).take m)) a = d.rename.wReg) := by
  rcases List.mem_append.mp (Renaming.State.apply_mem ha) with hnew | hold
  · right
    obtain ⟨w, hw, hnew⟩ := List.mem_map.mp hnew
    obtain ⟨p, hp, rfl⟩ := List.mem_map.mp hw
    obtain ⟨hp, hwrites⟩ := List.mem_filter.mp hp
    obtain ⟨j, hj⟩ := List.mem_iff_getElem?.mp (List.mem_of_mem_take hp)
    obtain ⟨hexc, hlt, d, hd, rfl⟩ := h.retired_getElem? hj
    refine ⟨?_, hexc, j, hlt, d, hd, hwrites, hnew.symm⟩
    by_contra hset
    rw [(h.idle (Bool.of_not_eq_false hset)).2] at hd
    cases hd
  · obtain ⟨b, hb, heq⟩ := List.mem_map.mp hold
    exact .inl ⟨b, hb, heq.symm⟩

end DispatchCore

namespace OperandCore

open DispatchCore WakeupCore Producers

variable {useEarlyOut : Bool} {s : OperandCore} {i : Inputs}

/-! ## Numbers -/

/-- The number of the instruction that a register was given to last. -/
def owner (s : OperandCore) (p : Nat) : Option Nat :=
  (s.wakeup.producers.last p).map Producer.seq

/-- The register of an instruction has not been given to another one. -/
def Owns (s : OperandCore) (x : IssueSlot) : Prop :=
  x.uop.doRegWrite = true → s.owner x.wReg = some (s.numbers x.robIdx)

/-- The instructions in flight have been numbered in program order, and their registers and
those of the instructions in the pipes are still theirs. -/
structure Numbered (s : OperandCore) : Prop where
  distinct : s.wakeup.producers.Distinct
  zero : s.owner 0 = none
  inOrder : ∀ n d, s.wakeup.dispatch.popped ≤ n → s.wakeup.dispatch.renamed[n]? = some d →
    s.numbers d.robIdx + s.wakeup.dispatch.renamed.length = s.wakeup.producers.seq + n
  owns : ∀ n d, s.wakeup.dispatch.popped ≤ n → s.wakeup.dispatch.renamed[n]? = some d →
    s.Owns d.issueSlot
  stages : ∀ u st x, s.slotAt u st = some x → s.Owns x

theorem Numbered.owner_inj (h : s.Numbered) {p q n : Nat} (hp : s.owner p = some n)
    (hq : s.owner q = some n) : p = q := by
  obtain ⟨a, ha, rfl⟩ := Option.map_eq_some_iff.mp hp
  obtain ⟨b, hb, heq⟩ := Option.map_eq_some_iff.mp hq
  exact h.distinct.inj p q a b ha hb heq.symm

theorem Numbered.owner_lt (h : s.Numbered) {p n : Nat} (hp : s.owner p = some n) :
    n < s.wakeup.producers.seq := by
  obtain ⟨a, ha, rfl⟩ := Option.map_eq_some_iff.mp hp
  exact h.distinct.lt p a ha

theorem producers_step : (s.step useEarlyOut i).wakeup.producers =
    (s.leaving useEarlyOut i).foldl Producers.rename
      (s.wakeup.producers.tell (s.wakeup.clearBusys (s.wakeupInputs useEarlyOut i))) := rfl

theorem seq_step : (s.step useEarlyOut i).wakeup.producers.seq =
    s.wakeup.producers.seq + (s.leaving useEarlyOut i).length := by
  rw [producers_step, seq_renames]
  rfl

/-- A register keeps its owner unless it is taken. -/
theorem owner_step {p : Nat} (hp : p ∉ taken (s.leaving useEarlyOut i)) :
    (s.step useEarlyOut i).owner p = s.owner p := by
  rw [owner, producers_step, last_of_not_mem hp]
  exact seq_tell _ p

namespace Joined

variable (h : s.Joined)

include h

theorem robIdx_leaving {k : Nat} {d : DispatchSlot}
    (hd : (s.leaving useEarlyOut i)[k]? = some d) :
    d.robIdx = Ring.slot robDepth 0 (s.wakeup.dispatch.renamed.length + k) := by
  apply h.dispatch.robIdx_leaving (i := s.dispatchInputs useEarlyOut i)
  rw [List.getElem?_append_right (Nat.le_add_right _ _), Nat.add_sub_cancel_left]
  exact hd

omit h in
theorem lt_leaving {k : Nat} {d : DispatchSlot} (hd : (s.leaving useEarlyOut i)[k]? = some d) :
    k < (s.wakeup.dispatch.issued (s.dispatchInputs useEarlyOut i)).length := by
  rw [← length_leaving]
  exact (List.getElem?_eq_some_iff.mp hd).1

/-- An instruction in flight was in flight, or it has left RENAME in this cycle. -/
theorem origin_of_renamed {n : Nat} {d : DispatchSlot}
    (hn : (s.step useEarlyOut i).wakeup.dispatch.popped ≤ n)
    (hd : (s.step useEarlyOut i).wakeup.dispatch.renamed[n]? = some d) :
    s.wakeup.dispatch.needFlush (s.dispatchInputs useEarlyOut i) = false ∧
      ((s.regFlush = false ∧ s.wakeup.dispatch.popped +
          s.wakeup.dispatch.popCount (s.dispatchInputs useEarlyOut i) ≤ n ∧
          s.wakeup.dispatch.renamed[n]? = some d) ∨
        ∃ k, n = s.wakeup.dispatch.renamed.length + k ∧
          (s.leaving useEarlyOut i)[k]? = some d) := by
  cases hflush : s.wakeup.dispatch.needFlush (s.dispatchInputs useEarlyOut i) with
  | true =>
    have hnone : (s.step useEarlyOut i).wakeup.dispatch.renamed = [] := if_pos hflush
    rw [hnone] at hd
    cases hd
  | false =>
    have hrenamed : (s.step useEarlyOut i).wakeup.dispatch.renamed =
      s.wakeup.dispatch.renamed ++ s.leaving useEarlyOut i := renamed_step hflush
    have hpopped : (s.step useEarlyOut i).wakeup.dispatch.popped = _ := popped_step hflush
    rw [hpopped] at hn
    rw [hrenamed] at hd
    refine ⟨rfl, ?_⟩
    by_cases hold : n < s.wakeup.dispatch.renamed.length
    · rw [List.getElem?_append_left hold] at hd
      refine .inl ⟨?_, hn, hd⟩
      by_contra hset
      rw [(h.dispatch.idle (Bool.of_not_eq_false hset)).2] at hold
      exact absurd hold (Nat.not_lt_zero n)
    · obtain ⟨k, rfl⟩ := Nat.exists_eq_add_of_le (Nat.le_of_not_lt hold)
      rw [List.getElem?_append_right (Nat.le_add_right _ _), Nat.add_sub_cancel_left] at hd
      exact .inr ⟨k, rfl, hd⟩

theorem numbers_kept {n : Nat} {d : DispatchSlot} (hn : s.wakeup.dispatch.popped ≤ n)
    (hd : s.wakeup.dispatch.renamed[n]? = some d) :
    (s.step useEarlyOut i).numbers d.robIdx = s.numbers d.robIdx := by
  have hnone : (s.leaving useEarlyOut i).findIdx? (fun d' => d'.robIdx == d.robIdx) = none := by
    rw [List.findIdx?_eq_none_iff]
    intro d' hd'
    obtain ⟨k, hk⟩ := List.mem_iff_getElem?.mp hd'
    have hlt := lt_leaving hk
    have hnlt := lt_renamed hd
    have hlength := h.dispatch.length
    rw [beq_eq_false_iff_ne, h.robIdx_leaving hk, h.dispatch.robIdx n d hd]
    intro heq
    have hsame := h.dispatch.robIdx_inj (i := s.dispatchInputs useEarlyOut i)
      (n := s.wakeup.dispatch.renamed.length + k) (by omega) hn (by omega) (by omega) heq
    omega
  change s.nextNumbers useEarlyOut i d.robIdx = _
  rw [nextNumbers, hnone]

theorem numbers_new {k : Nat} {d : DispatchSlot} (hd : (s.leaving useEarlyOut i)[k]? = some d) :
    (s.step useEarlyOut i).numbers d.robIdx = s.wakeup.producers.seq + k := by
  have hsome : (s.leaving useEarlyOut i).findIdx? (fun d' => d'.robIdx == d.robIdx) = some k := by
    obtain ⟨hk, hget⟩ := List.getElem?_eq_some_iff.mp hd
    rw [List.findIdx?_eq_some_iff_getElem]
    refine ⟨hk, by simp [hget], fun j hj => ?_⟩
    have hjd : (s.leaving useEarlyOut i)[j]? = some (s.leaving useEarlyOut i)[j] :=
      List.getElem?_eq_getElem _
    have hlt := lt_leaving hd
    have hlength := h.dispatch.length
    rw [beq_iff_eq, h.robIdx_leaving hjd, h.robIdx_leaving hd]
    intro heq
    have hsame := h.dispatch.robIdx_inj (i := s.dispatchInputs useEarlyOut i)
      (n := s.wakeup.dispatch.renamed.length + j) (by omega)
      (m := s.wakeup.dispatch.renamed.length + k) (by omega) (by omega) (by omega) heq
    omega
  change s.nextNumbers useEarlyOut i d.robIdx = _
  rw [nextNumbers, hsome]

theorem owns_kept (hclear : s.regFlush = false) {n : Nat} {d : DispatchSlot}
    (hn : s.wakeup.dispatch.popped ≤ n) (hd : s.wakeup.dispatch.renamed[n]? = some d)
    (howns : s.Owns d.issueSlot) : (s.step useEarlyOut i).Owns d.issueSlot := by
  intro hwrites
  have hidx : (s.step useEarlyOut i).numbers d.robIdx = _ := h.numbers_kept hn hd
  have howner : (s.step useEarlyOut i).owner d.rename.wReg = _ :=
    owner_step (h.dispatch.wReg_not_taken hclear hn hd hwrites)
  exact howner.trans ((howns hwrites).trans (congrArg some hidx.symm))

theorem owns_new {k : Nat} {d : DispatchSlot} (hd : (s.leaving useEarlyOut i)[k]? = some d) :
    (s.step useEarlyOut i).Owns d.issueSlot := by
  intro hwrites
  have hidx : (s.step useEarlyOut i).numbers d.robIdx = _ := h.numbers_new hd
  have hlast := last_getElem (g := s.wakeup.producers.tell (s.wakeup.clearBusys
    (s.wakeupInputs useEarlyOut i))) hd hwrites h.dispatch.nodup_taken_leaving
  change ((s.step useEarlyOut i).wakeup.producers.last d.rename.wReg).map Producer.seq =
    some ((s.step useEarlyOut i).numbers d.robIdx)
  rw [producers_step, hlast, hidx]
  rfl

/-- What is in a stage or enters one is in flight. -/
theorem inFlight_of_slotAt_step {u : ExecUnit} {st : PipeStage} {x : IssueSlot}
    (hx : (s.step useEarlyOut i).slotAt u st = some x) :
    s.regFlush = false ∧ s.wakeup.InFlight x := by
  obtain ⟨hclear, ⟨-, hmoves, hissued⟩ | ⟨st', -, hold, -⟩⟩ := origin_of_slotAt hx
  · refine ⟨hclear, ?_⟩
    obtain ⟨l, hl⟩ := h.wakeup.waits hclear u.queue
    have hmem := mem_of_issued h.wakeup hl (mem_issued_of_issuedTo hmoves hissued)
    obtain ⟨n, d, hn, hd, -, heq⟩ := hl.exists_renamed (List.mem_append_left _ hmem)
    exact ⟨n, d, hn, hd, heq⟩
  · exact ⟨hclear, h.inFlight hclear x (h.pipes.executing u st' x hold)⟩

theorem numbered_step (hnum : s.Numbered) : (s.step useEarlyOut i).Numbered where
  distinct := (hnum.distinct.tell _).renames _
  zero := (owner_step h.dispatch.taken_leaving_ne_zero).trans hnum.zero
  inOrder n d hn hd := by
    obtain ⟨hflush, hkept⟩ := h.origin_of_renamed hn hd
    have hrenamed : (s.step useEarlyOut i).wakeup.dispatch.renamed =
      s.wakeup.dispatch.renamed ++ s.leaving useEarlyOut i := renamed_step hflush
    rw [hrenamed, seq_step, List.length_append]
    rcases hkept with ⟨-, hn, hold⟩ | ⟨k, rfl, hnew⟩
    · have hn := (Nat.le_add_right _ _).trans hn
      have := hnum.inOrder n d hn hold
      rw [h.numbers_kept hn hold]
      omega
    · rw [h.numbers_new hnew]
      omega
  owns n d hn hd := by
    obtain ⟨-, ⟨hclear, hn, hd⟩ | ⟨k, -, hd⟩⟩ := h.origin_of_renamed hn hd
    · have hn := (Nat.le_add_right _ _).trans hn
      exact h.owns_kept hclear hn hd (hnum.owns n d hn hd)
    · exact h.owns_new hd
  stages u st x hx := by
    obtain ⟨hclear, n, d, hn, hd, rfl⟩ := h.inFlight_of_slotAt_step hx
    exact h.owns_kept hclear hn hd (hnum.owns n d hn hd)

end Joined

/-! ## Writes -/

theorem mem_intWrites {w : ResultWrite} (hw : w ∈ s.intWrites) : ∃ u b, u.queue = .int ∧
    s.wb u = some b ∧ b.slot.uop.doRegWrite = true ∧
      w = { addr := b.slot.wReg, data := b.exeResult, robIdx := b.slot.robIdx } := by
  obtain ⟨u, hu, hw⟩ := List.mem_filterMap.mp hw
  obtain ⟨b, hb, hw⟩ := Option.bind_eq_some_iff.mp hw
  split_ifs at hw with hwrites
  exact ⟨u, b, ExecUnit.mem_units_int.mp hu, hb, hwrites, (Option.some.inj hw).symm⟩

theorem slotAt_of_wb {u : ExecUnit} (hu : u.queue = .int) {b : WbStage} (hb : s.wb u = some b) :
    s.slotAt u .wb = some b.slot := by
  cases u <;> simp [ExecUnit.queue] at hu <;> simp [slotAt, hb]

theorem slotAt_of_exe {u : ExecUnit} (hu : u.queue = .int) {e : ExeStage}
    (he : s.exe u = some e) : s.slotAt u .exe = some e.slot := by
  cases u <;> simp [ExecUnit.queue] at hu <;> simp [slotAt, he]

theorem slotAt_of_regRead {u : ExecUnit} (hu : u.queue = .int) :
    s.slotAt u .rrd = s.wakeup.regRead u := by
  cases u <;> simp [ExecUnit.queue] at hu <;> rfl

theorem mem_mulDivWrites (h : s.Pipes) {w : ResultWrite} (hw : w ∈ s.mulDivWrites) :
    s.slotAt .mulDiv .wb = some s.mulDivWb ∧ s.mulDivWb.uop.doRegWrite = true ∧
      w = { addr := s.mulDivWb.wReg, data := s.mulDiv.wbResult, robIdx := s.mulDivWb.robIdx } := by
  obtain ⟨port, hport, rfl⟩ := List.mem_map.mp hw
  rw [Option.mem_toList, MulDivPipe.wPort] at hport
  split_ifs at hport with hwrites
  rw [Bool.and_eq_true] at hwrites
  obtain ⟨hvalid, hwrites⟩ := hwrites
  rw [h.wbSlot hvalid] at hwrites hport
  obtain rfl := Option.some.inj hport
  exact ⟨by simp [slotAt, hvalid], hwrites, rfl⟩

theorem mem_memWrites {w : ResultWrite} (hw : w ∈ s.memWrites i) : ∃ data,
    s.memory.regWrite (s.memFront i) = some (w.addr, data) ∧ w.robIdx = s.memory.wbIdx := by
  obtain ⟨port, hport, rfl⟩ := List.mem_map.mp hw
  exact ⟨port.2, Option.mem_toList.mp hport, rfl⟩

/-- The core with its record. -/
structure Recorded (s : OperandCore) : Prop where
  joined : s.Joined
  port : s.memory.ResultPort
  numbered : s.Numbered

theorem Recorded.step (h : s.Recorded) (hi : s.Legal useEarlyOut i) :
    (s.step useEarlyOut i).Recorded where
  joined := h.joined.step hi
  port := h.port.step
  numbered := h.joined.numbered_step h.numbered

/-- A write of the memory pipeline is that of an instruction in flight. -/
theorem Recorded.writesFor (h : s.Recorded) {addr : Nat} {data : BWord}
    (hwrite : s.memory.regWrite (s.memFront i) = some (addr, data)) :
    ∃ n m d, s.memory.WritesFor (s.memFront i) addr m ∧
      n = s.wakeup.dispatch.popped + (m - s.memory.oldest) ∧
      s.wakeup.dispatch.renamed[n]? = some d ∧ d.robIdx = s.memory.wbIdx ∧
      d.uop.doRegWrite = true ∧ d.rename.wReg = addr := by
  obtain ⟨m, hm⟩ := MemCore.writesFor h.joined.memory h.port hwrite
  obtain ⟨d, hd, hidx, hinfo⟩ := h.joined.exists_of_number hm.oldest_le hm.lt_next
  refine ⟨_, m, d, hm, rfl, hd, hidx.trans hm.idx, ?_, ?_⟩
  · have hwrites := hm.writes
    rw [hinfo] at hwrites
    exact hwrites
  · have hreg := hm.wReg
    rw [hinfo] at hreg
    exact hreg

/-- A register is written by its owner. -/
theorem Recorded.owner_of_write (h : s.Recorded) {w : ResultWrite} (hw : w ∈ s.writes i) :
    s.owner w.addr = some (s.numbers w.robIdx) := by
  rw [writes, List.mem_append, List.mem_append] at hw
  rcases hw with (hint | hmulDiv) | hmem
  · obtain ⟨u, b, hu, hb, hwrites, rfl⟩ := mem_intWrites hint
    exact h.numbered.stages u .wb b.slot (slotAt_of_wb hu hb) hwrites
  · obtain ⟨hslot, hwrites, rfl⟩ := mem_mulDivWrites h.joined.pipes hmulDiv
    exact h.numbered.stages .mulDiv .wb _ hslot hwrites
  · obtain ⟨data, hwrite, hidx⟩ := mem_memWrites hmem
    obtain ⟨n, m, d, -, hn, hd, hrob, hwrites, haddr⟩ := h.writesFor hwrite
    have howns := h.numbered.owns n d (by omega) hd hwrites
    rw [← haddr, hidx, ← hrob]
    exact howns

/-! ## Settled registers -/

/-- A register has the result of its owner. -/
def Settled (s : OperandCore) (p : Nat) : Prop :=
  match s.owner p with
  | some n => s.results n = some (s.reg p)
  | none => s.reg p = 0

/-- Some pipe writes the register in this cycle. -/
def Written (s : OperandCore) (i : Inputs) (p : Nat) : Prop := ∃ w ∈ s.writes i, w.addr = p

theorem at?_writes (l : List ResultWrite) (p : Nat) :
    RegWrite.at? (l.map ResultWrite.toRegWrite) p = (l.find? fun w => w.addr == p).map fun w =>
      w.data := by
  rw [RegWrite.at?, List.find?_map, Option.map_map]
  rfl

theorem reg_step {p : Nat} (hp : p ≠ 0) : (s.step useEarlyOut i).reg p =
    (((s.writes i).find? fun w => w.addr == p).map fun w => w.data).getD (s.reg p) := by
  obtain ⟨k, rfl⟩ := Nat.exists_eq_succ_of_ne_zero hp
  rw [← at?_writes]
  rfl

theorem results_step (n : Nat) : (s.step useEarlyOut i).results n =
    (((s.writes i).find? fun w => s.numbers w.robIdx == n).map fun w => w.data).or
      (s.results n) := rfl

namespace Recorded

variable (h : s.Recorded)

include h

/-- The write of a register and that of the result of its owner are the same. -/
theorem find_eq {p n : Nat} (howner : s.owner p = some n) :
    (s.writes i).find? (fun w => s.numbers w.robIdx == n) =
      (s.writes i).find? (fun w => w.addr == p) := by
  apply List.find?_congr
  intro w hw
  have hown := h.owner_of_write hw
  rw [Bool.eq_iff_iff, beq_iff_eq, beq_iff_eq]
  constructor
  · rintro rfl
    exact h.numbered.owner_inj hown howner
  · rintro rfl
    exact Option.some.inj (hown.symm.trans howner)

/-- A register that is settled or written is settled after the cycle, unless it is taken. -/
theorem settled_step {p : Nat} (hp : p ∉ taken (s.leaving useEarlyOut i))
    (hsettled : s.Settled p ∨ s.Written i p) : (s.step useEarlyOut i).Settled p := by
  rw [Settled, owner_step hp]
  cases howner : s.owner p with
  | none =>
    have hnone : ∀ w ∈ s.writes i, ¬ w.addr = p := by
      rintro w hw rfl
      have hown := h.owner_of_write hw
      rw [howner] at hown
      cases hown
    have hreg : s.reg p = 0 := by
      rcases hsettled with hsettled | ⟨w, hw, haddr⟩
      · rwa [Settled, howner] at hsettled
      · exact absurd haddr (hnone w hw)
    by_cases hzero : p = 0
    · subst hzero
      rfl
    · change OperandCore.reg _ _ = _
      rw [reg_step hzero, List.find?_eq_none.mpr (by simpa using hnone)]
      exact hreg
  | some n =>
    have hzero : p ≠ 0 := by
      rintro rfl
      rw [h.numbered.zero] at howner
      cases howner
    change OperandCore.results _ _ = some (OperandCore.reg _ _)
    rw [results_step, h.find_eq howner, reg_step hzero]
    cases hfind : (s.writes i).find? fun w => w.addr == p with
    | some w => rfl
    | none =>
      rcases hsettled with hsettled | ⟨w, hw, haddr⟩
      · rw [Settled, howner] at hsettled
        exact hsettled
      · rw [List.find?_eq_none] at hfind
        exact absurd (beq_iff_eq.mpr haddr) (hfind w hw)

/-- What is reported for an instruction in flight is in WB of one of the pipes. -/
theorem reported (hclear : s.regFlush = false) {n : Nat} {d : DispatchSlot}
    (hn : s.wakeup.dispatch.popped ≤ n) (hd : s.wakeup.dispatch.renamed[n]? = some d)
    {c : Completion} (hc : c ∈ (s.wakeupInputs useEarlyOut i).completions)
    (hidx : c.robIdx = d.robIdx) :
    (c.unit ≠ .mem ∧ s.slotAt c.unit .wb = some d.issueSlot) ∨
      (c = s.memory.memReport (s.memFront i) ∧ s.memory.wb.isValid = true ∧
        s.memory.wb.uop.toMemRequest = s.memory.requestOf s.memory.wb.uop.number ∧
        s.memory.info s.memory.wb.uop.number = d.pushPort.info ∧
        n = s.wakeup.dispatch.popped + (s.memory.wb.uop.number - s.memory.oldest)) := by
  rcases List.mem_append.mp hc with hmem | hreport
  · obtain ⟨hflushed, hvalid, rfl⟩ := mem_memCompletion hmem
    obtain ⟨done, hordered⟩ := h.joined.memory.inStep.order.ordered hflushed
    obtain ⟨hnumber, hrequest⟩ :=
      hordered.mem_passed (List.mem_append_right done (MemCore.mem_wbUops hvalid))
    obtain ⟨⟨hold, hlt⟩, -⟩ := MemCore.mem_memNumbers.mp hnumber
    obtain ⟨d', hd', hidx', hinfo⟩ := h.joined.exists_of_number hold hlt
    have hrob : s.memory.wb.uop.robIdx = s.memory.idx s.memory.wb.uop.number :=
      congrArg MemRequest.robIdx hrequest
    obtain ⟨hsame, rfl⟩ := h.joined.dispatch.eq_of_robIdx hn (Nat.le_add_right _ _) hd hd'
      (hidx.symm.trans (hrob.trans hidx'.symm))
    exact .inr ⟨rfl, hvalid, hrequest, hinfo, hsame⟩
  · obtain ⟨u, x, hx, rfl, hrob, -⟩ := mem_reports hreport
    have hflying := h.joined.inFlight hclear x (h.joined.pipes.executing _ .wb x hx)
    have hsame := hflying.eq h.joined.dispatch hn hd (hidx.symm.trans hrob)
    exact .inl ⟨ne_mem_of_slotAt hx, hsame ▸ hx⟩

/-- A write is that of an instruction in flight. -/
theorem inFlight_of_write (hclear : s.regFlush = false) {w : ResultWrite}
    (hw : w ∈ s.writes i) : ∃ n d, s.wakeup.dispatch.popped ≤ n ∧
      s.wakeup.dispatch.renamed[n]? = some d ∧ d.robIdx = w.robIdx ∧
      ((∃ u, u ≠ .mem ∧ s.slotAt u .wb = some d.issueSlot) ∨
        ∃ m, s.memory.Source (s.memFront i) m ∧ s.memory.oldest ≤ m ∧
          n = s.wakeup.dispatch.popped + (m - s.memory.oldest)) := by
  have hslot : ∀ u x, s.slotAt u .wb = some x → x.robIdx = w.robIdx →
      ∃ n d, s.wakeup.dispatch.popped ≤ n ∧ s.wakeup.dispatch.renamed[n]? = some d ∧
        d.robIdx = w.robIdx ∧ ((∃ u, u ≠ .mem ∧ s.slotAt u .wb = some d.issueSlot) ∨
          ∃ m, s.memory.Source (s.memFront i) m ∧ s.memory.oldest ≤ m ∧
            n = s.wakeup.dispatch.popped + (m - s.memory.oldest)) := by
    intro u x hx hidx
    obtain ⟨n, d, hn, hd, rfl⟩ :=
      h.joined.inFlight hclear x (h.joined.pipes.executing u .wb x hx)
    exact ⟨n, d, hn, hd, hidx, .inl ⟨u, ne_mem_of_slotAt hx, hx⟩⟩
  have hw' := hw
  rw [writes, List.mem_append, List.mem_append] at hw'
  rcases hw' with (hint | hmulDiv) | hmem
  · obtain ⟨u, b, hu, hb, -, rfl⟩ := mem_intWrites hint
    exact hslot u b.slot (slotAt_of_wb hu hb) rfl
  · obtain ⟨hx, -, rfl⟩ := mem_mulDivWrites h.joined.pipes hmulDiv
    exact hslot .mulDiv _ hx rfl
  · obtain ⟨data, hwrite, hidx⟩ := mem_memWrites hmem
    obtain ⟨n, m, d, hm, hn, hd, hrob, -⟩ := h.writesFor hwrite
    exact ⟨n, d, by omega, hd, hrob.trans hidx.symm, .inr ⟨m, hm.source, hm.oldest_le, hn⟩⟩

/-- The numbers tell the instructions in flight apart. -/
theorem eq_of_numbers {n m : Nat} {d d' : DispatchSlot} (hn : s.wakeup.dispatch.popped ≤ n)
    (hd : s.wakeup.dispatch.renamed[n]? = some d) (hm : s.wakeup.dispatch.popped ≤ m)
    (hd' : s.wakeup.dispatch.renamed[m]? = some d')
    (heq : s.numbers d.robIdx = s.numbers d'.robIdx) : n = m ∧ d = d' := by
  have hfirst := h.numbered.inOrder n d hn hd
  have hsecond := h.numbered.inOrder m d' hm hd'
  obtain rfl : n = m := by omega
  exact ⟨rfl, Option.some.inj (hd.symm.trans hd')⟩

end Recorded

/-! ## Finished instructions -/

/-- What the reorder buffer has on an instruction. -/
def entryState (s : OperandCore) (d : DispatchSlot) : ROBEntryState :=
  s.wakeup.dispatch.core.rob.robState d.robIdx

/-- The instruction has not been executed. An uncached load is complete before it reads. -/
def Unfinished (s : OperandCore) (d : DispatchSlot) : Prop :=
  (s.entryState d).complete = false ∨
    (d.uop.isLoad = true ∧ (s.entryState d).lsuUncached = true)

namespace Recorded

variable (h : s.Recorded)

include h

/-- The entry of an instruction stays as it is, or WB writes it. -/
theorem entryState_step {n : Nat} {d : DispatchSlot} (hn : s.wakeup.dispatch.popped ≤ n)
    (hd : s.wakeup.dispatch.renamed[n]? = some d) :
    ((∀ c ∈ (s.wakeupInputs useEarlyOut i).completions, c.robIdx ≠ d.robIdx) ∧
        (s.step useEarlyOut i).entryState d = s.entryState d) ∨
      ∃ c ∈ (s.wakeupInputs useEarlyOut i).completions, c.robIdx = d.robIdx ∧
        (s.step useEarlyOut i).entryState d = c.state := by
  have hdispatch := h.joined.dispatch
  have hidx := hdispatch.robIdx n d hd
  by_cases hreported : ∃ c ∈ (s.wakeupInputs useEarlyOut i).completions, c.robIdx = d.robIdx
  · right
    obtain ⟨c, hc, heq⟩ := hreported
    obtain ⟨c', hat⟩ := ROBFIFO.exists_completionAt hc heq
    obtain ⟨hc', heq'⟩ := ROBFIFO.mem_of_completionAt hat
    refine ⟨c', hc', heq', ?_⟩
    refine hdispatch.robState_reported (i := s.dispatchInputs useEarlyOut i) ?_ hat
    rw [hidx]
    exact Ring.slot_lt (by decide) _ _
  · left
    have hno : ∀ c ∈ (s.wakeupInputs useEarlyOut i).completions, c.robIdx ≠ d.robIdx :=
      fun c hc heq => hreported ⟨c, hc, heq⟩
    refine ⟨hno, ?_⟩
    have hlt := lt_renamed hd
    rw [hidx] at hno
    have hstep : (s.step useEarlyOut i).wakeup.dispatch.core.rob.robState
        (Ring.slot robDepth 0 n) = _ :=
      hdispatch.robState_step (i := s.dispatchInputs useEarlyOut i) hn (Nat.lt_add_right _ hlt) hno
    rw [entryState, entryState, hidx, hstep, if_neg (Nat.not_le_of_lt hlt)]
    rfl

/-- An instruction that leaves RENAME brings its own. -/
theorem entryState_new (hi : s.Legal useEarlyOut i) (hclear : s.regFlush = false) {k : Nat}
    {d : DispatchSlot} (hd : (s.leaving useEarlyOut i)[k]? = some d) :
    ∃ old, (s.step useEarlyOut i).entryState d = d.pushPort.state old := by
  have hdispatch := h.joined.dispatch
  have hidx := h.joined.robIdx_leaving hd
  have hlength := hdispatch.length
  have hk := Joined.lt_leaving hd
  have hno : ∀ c ∈ (s.wakeupInputs useEarlyOut i).completions,
      c.robIdx ≠ Ring.slot robDepth 0 (s.wakeup.dispatch.renamed.length + k) := fun c hc =>
    (h.joined.wakeup.reported hclear (h.joined.wakeupLegal hi) hc).ne_leaving h.joined.wakeup hd
  have hstep : (s.step useEarlyOut i).wakeup.dispatch.core.rob.robState
      (Ring.slot robDepth 0 (s.wakeup.dispatch.renamed.length + k)) = _ :=
    hdispatch.robState_step (i := s.dispatchInputs useEarlyOut i) (by omega) (by omega) hno
  change (DispatchCore.leaving _ _)[k]? = some d at hd
  rw [leaving_getElem?, Option.map_eq_some_iff] at hd
  obtain ⟨p, hp, rfl⟩ := hd
  rw [if_pos (Nat.le_add_right _ _), Nat.add_sub_cancel_left, hp] at hstep
  rw [entryState, hidx]
  exact ⟨_, hstep⟩

end Recorded

/-- Finished instructions have their results, and the architectural registers have those that
were committed last. -/
structure Results (s : OperandCore) : Prop where
  recorded : s.Recorded
  bounded : ∀ n v, s.results n = some v → n < s.wakeup.producers.seq
  unfinished : ∀ n d, s.wakeup.dispatch.popped ≤ n → s.wakeup.dispatch.renamed[n]? = some d →
    s.Unfinished d → s.results (s.numbers d.robIdx) = none
  finished : ∀ n d, s.wakeup.dispatch.popped ≤ n → s.wakeup.dispatch.renamed[n]? = some d →
    d.uop.doRegWrite = true → ¬ s.Unfinished d → (s.entryState d).except.valid = false →
    s.Settled d.rename.wReg
  committed : ∀ a ∈ RenameStage.archRegs, s.Settled (s.wakeup.dispatch.rename.abs.map a)

theorem state_of_ne_mem {c : Completion} (h : c.unit ≠ .mem) :
    c.state.complete = true ∧ c.state.lsuUncached = false := by
  rw [Completion.state]
  cases hunit : c.unit with
  | mem => exact absurd hunit h
  | int0 | int1 | int2 | mulDiv => exact ⟨rfl, rfl⟩

/-- What is in WB is reported. -/
theorem exists_report {u : ExecUnit} {x : IssueSlot} (hx : s.slotAt u .wb = some x) :
    ∃ c ∈ s.reports, c.robIdx = x.robIdx := by
  cases u with
  | int0 | int1 | int2 =>
    obtain ⟨b, hb, rfl⟩ := Option.map_eq_some_iff.mp hx
    refine ⟨_, List.mem_append_left _ (List.mem_filterMap.mpr ⟨_, ?_, Option.map_eq_some_iff.mpr
      ⟨b, hb, rfl⟩⟩), rfl⟩
    decide
  | mulDiv =>
    rw [slotAt] at hx
    split_ifs at hx with hvalid
    obtain rfl := Option.some.inj hx
    refine ⟨{ unit := .mulDiv, robIdx := s.mulDivWb.robIdx, uop := s.mulDivWb.uop },
      List.mem_append_right _ ?_, rfl⟩
    rw [if_pos hvalid]
    exact List.mem_singleton_self _
  | mem => cases hx

namespace Results

variable (h : s.Results)

include h

/-- What the memory pipeline holds in WB is reported. -/
theorem memReport_mem (hclear : s.regFlush = false) (hvalid : s.memory.wb.isValid = true) :
    s.memory.memReport (s.memFront i) ∈ (s.wakeupInputs useEarlyOut i).completions := by
  apply List.mem_append_left
  rw [MemCore.memCompletion, hvalid, h.recorded.joined.regFlush, hclear]
  exact List.mem_singleton_self _

/-- Only what is reported is written, besides the uncached load that retires. -/
theorem reported_of_write (hclear : s.regFlush = false) {n : Nat} {d : DispatchSlot}
    (hn : s.wakeup.dispatch.popped + s.wakeup.dispatch.popCount (s.dispatchInputs useEarlyOut i) ≤ n)
    (hd : s.wakeup.dispatch.renamed[n]? = some d) {w : ResultWrite} (hw : w ∈ s.writes i)
    (hnumber : s.numbers w.robIdx = s.numbers d.robIdx) :
    (∃ u, s.slotAt u .wb = some d.issueSlot) ∨ (s.memory.wb.isValid = true ∧
      s.memory.wb.uop.robIdx = d.robIdx ∧
        (s.memory.wb.uop.cached = true ∨ s.memory.wb.uop.isSC = true)) := by
  have hn' : s.wakeup.dispatch.popped ≤ n := (Nat.le_add_right _ _).trans hn
  obtain ⟨m, d', hm, hd', hidx, hsource⟩ := h.recorded.inFlight_of_write hclear hw
  rw [← hidx] at hnumber
  obtain ⟨rfl, rfl⟩ := h.recorded.eq_of_numbers hm hd' hn' hd hnumber
  rcases hsource with ⟨u, -, hx⟩ | ⟨q, hsource, hold, hq⟩
  · exact .inl ⟨u, hx⟩
  · cases hsource with
    | held hvalid hkind hnumber =>
      obtain ⟨done, hordered⟩ :=
        h.recorded.joined.memory.inStep.order.ordered (h.recorded.joined.regFlush.trans hclear)
      obtain ⟨hmem, hrequest⟩ :=
        hordered.mem_passed (List.mem_append_right done (MemCore.mem_wbUops hvalid))
      obtain ⟨⟨hge, hlt⟩, -⟩ := MemCore.mem_memNumbers.mp hmem
      obtain ⟨d'', hd'', hidx'', -⟩ := h.recorded.joined.exists_of_number hge hlt
      rw [← hnumber, ← hq] at hd''
      obtain rfl := Option.some.inj (hd.symm.trans hd'')
      refine .inr ⟨hvalid, ?_, hkind⟩
      rw [hidx'']
      exact congrArg MemRequest.robIdx hrequest
    | uncached hfsm hfires hnumber =>
      -- the load leaves the reorder buffer in this cycle
      exfalso
      have hpos : 0 < s.memory.popCount (s.memFront i) := MemCore.popCount_of_fires hfires
      have hcount : s.wakeup.dispatch.popCount (s.dispatchInputs useEarlyOut i) =
          s.memory.popCount (s.memFront i) := by
        change s.wakeup.dispatch.core.popCount _ = s.memory.core.popCount _
        rw [h.recorded.joined.core]
        rfl
      omega

/-- What is written is complete after the cycle. -/
theorem unfinished_step (hi : s.Legal useEarlyOut i) {n : Nat} {d : DispatchSlot}
    (hn : (s.step useEarlyOut i).wakeup.dispatch.popped ≤ n)
    (hd : (s.step useEarlyOut i).wakeup.dispatch.renamed[n]? = some d)
    (hun : (s.step useEarlyOut i).Unfinished d) :
    (s.step useEarlyOut i).results ((s.step useEarlyOut i).numbers d.robIdx) = none := by
  have hjoined := h.recorded.joined
  have hkey : (s.results ((s.step useEarlyOut i).numbers d.robIdx) = none) →
      (∀ w ∈ s.writes i, s.numbers w.robIdx ≠ (s.step useEarlyOut i).numbers d.robIdx) →
      (s.step useEarlyOut i).results ((s.step useEarlyOut i).numbers d.robIdx) = none := by
    intro hnone hno
    rw [results_step, List.find?_eq_none.mpr (by simpa using hno), hnone]
    rfl
  obtain ⟨hflush, ⟨hclear, hn, hd⟩ | ⟨k, -, hd⟩⟩ := hjoined.origin_of_renamed hn hd
  · have hn' : s.wakeup.dispatch.popped ≤ n := (Nat.le_add_right _ _).trans hn
    rw [hjoined.numbers_kept hn' hd] at hkey ⊢
    have hold : s.Unfinished d ∧ ∀ w ∈ s.writes i, s.numbers w.robIdx ≠ s.numbers d.robIdx := by
      rcases h.recorded.entryState_step hn' hd with ⟨hno, hstate⟩ | ⟨c, hc, hidx, hstate⟩
      · rw [Unfinished, hstate] at hun
        refine ⟨hun, fun w hw hnumber => ?_⟩
        rcases h.reported_of_write hclear hn hd hw hnumber with ⟨u, hx⟩ | ⟨hvalid, hidx, -⟩
        · obtain ⟨c, hc, hidx⟩ := exists_report hx
          exact hno c (List.mem_append_right _ hc) hidx
        · exact hno _ (h.memReport_mem hclear hvalid) hidx
      · have hincomplete := (hjoined.wakeup.reported hclear (hjoined.wakeupLegal hi) hc).incomplete
        rw [hidx] at hincomplete
        refine ⟨.inl hincomplete, fun w hw hnumber => ?_⟩
        rw [Unfinished, hstate] at hun
        rcases h.recorded.reported hclear hn' hd hc hidx with ⟨hunit, -⟩ | ⟨rfl, hvalid, hrequest,
          hinfo, -⟩
        · obtain ⟨hcomplete, huncached⟩ := state_of_ne_mem hunit
          rw [hcomplete, huncached] at hun
          simp at hun
        · -- an uncached load that has not read
          have hload : d.uop.isLoad = true ∧ s.memory.wb.uop.cached = false := by
            rcases hun with hcomplete | ⟨hload, huncached⟩
            · cases hcomplete
            · have huncached : (!s.memory.wb.uop.cached) = true := huncached
              exact ⟨hload, by simpa using huncached⟩
          rcases h.reported_of_write hclear hn hd hw hnumber with ⟨u, hx⟩ | ⟨-, -, hkind⟩
          · obtain ⟨e, he, hrob, htakes⟩ := hjoined.mem.executing s.memory.wb.uop.toMemRequest
              (List.mem_append_left _ (List.mem_map_of_mem (MemCore.mem_wbUops hvalid)))
            exact hjoined.mem_apart hclear hx he htakes (hidx.symm.trans hrob.symm)
          · have hlink : d.uop.isSC = true := by
              have hlink := hkind.resolve_left (by simp [hload.2])
              have hsame : s.memory.wb.uop.isSC = _ := congrArg MemRequest.isSC hrequest
              rw [hsame, MemCore.requestOf, MemCore.request, hinfo] at hlink
              exact hlink
            obtain ⟨plv, entry, heq⟩ := hjoined.decoded.renamed d (List.mem_of_getElem? hd)
            have hdecodes := Decoder.decodes plv entry
            rw [← heq] at hdecodes
            exact hdecodes.one ⟨hload.1, hdecodes.isSC hlink⟩
    exact hkey (h.unfinished n d hn' hd hold.1) hold.2
  · rw [hjoined.numbers_new hd] at hkey ⊢
    refine hkey ?_ fun w hw heq => ?_
    · rw [Option.eq_none_iff_forall_ne_some]
      intro v hv
      have := h.bounded _ v hv
      omega
    · have := h.recorded.numbered.owner_lt (h.recorded.owner_of_write hw)
      omega

omit h in
/-- A pipe writes the register of the instruction in WB. -/
theorem written_of_slotAt (h : s.Pipes) {u : ExecUnit} {x : IssueSlot}
    (hx : s.slotAt u .wb = some x) (hwrites : x.uop.doRegWrite = true) : s.Written i x.wReg := by
  cases u with
  | int0 | int1 | int2 =>
    obtain ⟨b, hb, rfl⟩ := Option.map_eq_some_iff.mp hx
    refine ⟨_, List.mem_append_left _ (List.mem_append_left _ (List.mem_filterMap.mpr ⟨_, ?_,
      Option.bind_eq_some_iff.mpr ⟨b, hb, if_pos hwrites⟩⟩)), rfl⟩
    decide
  | mulDiv =>
    rw [slotAt] at hx
    split_ifs at hx with hvalid
    obtain rfl := Option.some.inj hx
    have hport : s.mulDiv.wPort = some (s.mulDivWb.wReg, s.mulDiv.wbResult) := by
      rw [MulDivPipe.wPort, hvalid, h.wbSlot hvalid]
      exact if_pos hwrites
    exact ⟨{ addr := s.mulDivWb.wReg, data := s.mulDiv.wbResult, robIdx := s.mulDivWb.robIdx },
      List.mem_append_left _ (List.mem_append_right _ (List.mem_map.mpr
        ⟨_, Option.mem_toList.mpr hport, rfl⟩)), rfl⟩
  | mem => cases hx

omit h in
theorem written_of_regWrite {p : Nat} {data : BWord}
    (hwrite : s.memory.regWrite (s.memFront i) = some (p, data)) : s.Written i p :=
  ⟨_, List.mem_append_right _ (List.mem_map_of_mem (Option.mem_toList.mpr hwrite)), rfl⟩

/-- A memory instruction that has been executed is written. -/
theorem written_of_memReport (hclear : s.regFlush = false) {d : DispatchSlot}
    (hmem : d ∈ s.wakeup.dispatch.renamed) (hvalid : s.memory.wb.isValid = true)
    (hrequest : s.memory.wb.uop.toMemRequest = s.memory.requestOf s.memory.wb.uop.number)
    (hinfo : s.memory.info s.memory.wb.uop.number = d.pushPort.info)
    (hwrites : d.uop.doRegWrite = true)
    (hcached : d.uop.isLoad = true → s.memory.wb.uop.cached = true) :
    s.Written i d.rename.wReg := by
  have hjoined := h.recorded.joined
  obtain ⟨plv, entry, heq⟩ := hjoined.decoded.renamed d hmem
  have hdecodes := Decoder.decodes plv entry
  have hresult := Decoder.hasResult entry.inst
  rw [← heq] at hdecodes
  have hstore : s.memory.wb.uop.isStore = d.uop.isStore := by
    have hsame : s.memory.wb.uop.isStore = _ := congrArg MemRequest.isStore hrequest
    rw [hsame, MemCore.requestOf, MemCore.request, hinfo]
    rfl
  have hlink : s.memory.wb.uop.isSC = d.uop.isSC := by
    have hsame : s.memory.wb.uop.isSC = _ := congrArg MemRequest.isSC hrequest
    rw [hsame, MemCore.requestOf, MemCore.request, hinfo]
    rfl
  have hreg : s.memory.wb.uop.wReg = some d.rename.wReg := by
    have hsame : s.memory.wb.uop.wReg = _ := congrArg MemRequest.wReg hrequest
    rw [hsame, MemCore.requestOf, MemCore.request, hinfo]
    exact if_pos hwrites
  have hlsu : d.uop.fuType = .lsu := by
    obtain ⟨done, hordered⟩ :=
      hjoined.memory.inStep.order.ordered (hjoined.regFlush.trans hclear)
    have hnumber := (hordered.mem_passed (List.mem_append_right done
      (MemCore.mem_wbUops hvalid))).1
    have henters := (MemCore.mem_memNumbers.mp hnumber).2
    rw [hinfo] at henters
    exact (MemCore.executes_of_entersQueue henters).1
  have hkind : d.uop.isLoad = true ∨ d.uop.isSC = true := by
    rw [heq] at hlsu hwrites ⊢
    exact hresult.2.1 hlsu (Bool.and_eq_true _ _ ▸ hwrites).1
  have honly : s.memory.wb.uop.isStore = true → s.memory.wb.uop.isSC = true := by
    intro hst
    rw [hstore] at hst
    rw [hlink]
    exact hkind.resolve_left fun hload => hdecodes.one ⟨hload, hst⟩
  obtain ⟨data, hwrite⟩ := MemCore.regWrite_of_held (i := s.memFront i) h.recorded.port
    (hjoined.regFlush.trans hclear) hvalid (hkind.imp hcached hlink.trans) honly hreg
  exact written_of_regWrite hwrite

omit h in
theorem regFlush_of_leaving (h : s.Joined) {k : Nat} {d : DispatchSlot}
    (hd : (s.leaving useEarlyOut i)[k]? = some d) : s.regFlush = false := by
  by_contra hset
  have hnone : s.leaving useEarlyOut i = [] :=
    leaving_of_invalid (h.dispatch.stage.idle (Bool.of_not_eq_false hset)).1
  rw [hnone] at hd
  cases hd

theorem finished_step (hi : s.Legal useEarlyOut i) {n : Nat} {d : DispatchSlot}
    (hn : (s.step useEarlyOut i).wakeup.dispatch.popped ≤ n)
    (hd : (s.step useEarlyOut i).wakeup.dispatch.renamed[n]? = some d)
    (hwrites : d.uop.doRegWrite = true) (hfinished : ¬ (s.step useEarlyOut i).Unfinished d)
    (hexcept : ((s.step useEarlyOut i).entryState d).except.valid = false) :
    (s.step useEarlyOut i).Settled d.rename.wReg := by
  have hjoined := h.recorded.joined
  have hnext := (hjoined.step hi).decoded.renamed d (List.mem_of_getElem? hd)
  obtain ⟨-, ⟨hclear, hn, hd⟩ | ⟨k, -, hd⟩⟩ := hjoined.origin_of_renamed hn hd
  · have hn' : s.wakeup.dispatch.popped ≤ n := (Nat.le_add_right _ _).trans hn
    refine h.recorded.settled_step (hjoined.dispatch.wReg_not_taken hclear hn' hd hwrites) ?_
    rcases h.recorded.entryState_step hn' hd with ⟨-, hstate⟩ | ⟨c, hc, hidx, hstate⟩
    · rw [Unfinished, hstate] at hfinished
      rw [hstate] at hexcept
      exact .inl (h.finished n d hn' hd hwrites hfinished hexcept)
    · right
      rcases h.recorded.reported hclear hn' hd hc hidx with ⟨-, hx⟩ | ⟨rfl, hvalid, hrequest,
        hinfo, -⟩
      · exact written_of_slotAt hjoined.pipes hx hwrites
      · refine h.written_of_memReport hclear (List.mem_of_getElem? hd) hvalid hrequest hinfo
          hwrites fun hload => ?_
        rw [Unfinished, hstate] at hfinished
        have hcached : ¬ (!s.memory.wb.uop.cached) = true := fun hno =>
          hfinished (.inr ⟨hload, hno⟩)
        simpa using hcached
  · -- only what has no result comes complete
    exfalso
    obtain ⟨old, hstate⟩ := h.recorded.entryState_new hi (regFlush_of_leaving hjoined hd) hd
    rw [Unfinished, hstate, not_or, Bool.not_eq_false] at hfinished
    rw [hstate] at hexcept
    have hcomplete : (d.uop.except.valid || d.uop.fuType == .none) = true := hfinished.1
    have hexcept : d.uop.except.valid = false := hexcept
    rw [hexcept, Bool.false_or, beq_iff_eq] at hcomplete
    obtain ⟨plv, entry, heq⟩ := hnext
    rw [heq] at hcomplete hwrites
    have hwrites : ((Decoder.signals entry.inst).isRegWrite && Decoder.wbAddr entry.inst != 0) =
      true := hwrites
    rw [(Decoder.hasResult entry.inst).1 hcomplete, Bool.false_and] at hwrites
    cases hwrites

variable (useEarlyOut) in
/-- The oldest instructions retire when they are complete and have no exception. An uncached
load retires alone. -/
theorem retires (hclean : Commit.hasExcept s.wakeup.dispatch.core.ports
      s.wakeup.dispatch.core.fsm (s.dispatchInputs useEarlyOut i).commit = false)
    {j : Nat} (hj : j < s.wakeup.dispatch.popCount (s.dispatchInputs useEarlyOut i)) :
    ∃ d, s.wakeup.dispatch.renamed[s.wakeup.dispatch.popped + j]? = some d ∧
      s.wakeup.dispatch.core.ports j =
        { valid := true, info := d.pushPort.info, state := s.entryState d } ∧
      (s.entryState d).complete = true ∧ (s.entryState d).except.valid = false ∧
      (d.uop.isLoad = true → j = 0) := by
  have hjoined := h.recorded.joined
  have hdispatch := hjoined.dispatch
  have hlength := hdispatch.length
  have hle : s.wakeup.dispatch.popCount (s.dispatchInputs useEarlyOut i) ≤ _ :=
    CommitCore.popCount_le s.wakeup.dispatch.core
      (s.wakeup.dispatch.coreInputs (s.dispatchInputs useEarlyOut i))
  have hlt := Nat.lt_of_lt_of_le hj hle
  obtain ⟨d, hd⟩ : ∃ d, s.wakeup.dispatch.renamed[s.wakeup.dispatch.popped + j]? = some d :=
    ⟨_, List.getElem?_eq_getElem (by omega)⟩
  have hidx : d.robIdx = s.wakeup.dispatch.core.entry j := by
    rw [hdispatch.robIdx _ d hd, ← hdispatch.entry_eq (Nat.le_add_right _ j),
      Nat.add_sub_cancel_left]
  have hinfo : (s.wakeup.dispatch.core.ports j).info = d.pushPort.info := by
    rw [← hdispatch.rob _ d (Nat.le_add_right _ j) hd, hidx]
    exact hdispatch.popInfo j hlt
  have hstate : (s.wakeup.dispatch.core.ports j).state = s.entryState d := by
    rw [entryState, hidx]
    exact hjoined.wakeup.popState j hlt
  have hfire := Commit.fire_of_lt_popCount hj
  have hready := hfire
  simp only [Commit.fire, Commit.ready, Commit.completeMask, Commit.excMask, Bool.and_eq_true,
    List.all_eq_true, List.mem_range, Bool.or_eq_true, beq_iff_eq, Bool.not_eq_true',
    List.any_eq_false, not_or, Bool.not_eq_true] at hready
  obtain ⟨hvalid, ⟨⟨⟨hcomplete, hexc⟩, -⟩, -⟩, -⟩ := hready
  refine ⟨d, hd, ?_, ?_, ?_, fun hload => ?_⟩
  · rw [← hinfo, ← hstate, ← hvalid]
  · rw [← hstate]
    exact hcomplete j (Nat.lt_succ_self j)
  · rw [← hstate]
    rcases hexc with rfl | hnone
    · rw [Commit.hasExcept, Bool.or_eq_false_iff] at hclean
      exact hclean.1
    · exact (hnone j (Nat.lt_succ_self j)).1
  · have huop : (s.wakeup.dispatch.core.ports j).uop = d.uop := congrArg ROBEntryInfo.uop hinfo
    apply Commit.eq_zero_of_uniqueRetire hfire
    rw [huop]
    simp [MicroOp.uniqueRetire, hload]

/-- What retires has its result, unless it is the load that is written in this cycle. -/
theorem settled_of_retires (hclean : Commit.hasExcept s.wakeup.dispatch.core.ports
      s.wakeup.dispatch.core.fsm (s.dispatchInputs useEarlyOut i).commit = false)
    {j : Nat} (hj : j < s.wakeup.dispatch.popCount (s.dispatchInputs useEarlyOut i))
    {d : DispatchSlot} (hd : s.wakeup.dispatch.renamed[s.wakeup.dispatch.popped + j]? = some d)
    (hwrites : d.uop.doRegWrite = true) :
    s.Settled d.rename.wReg ∨ s.Written i d.rename.wReg := by
  have hjoined := h.recorded.joined
  obtain ⟨d', hd', hport, hcomplete, hexcept, halone⟩ := h.retires useEarlyOut hclean hj
  obtain rfl := Option.some.inj (hd.symm.trans hd')
  by_cases hun : s.Unfinished d
  · right
    obtain ⟨hload, huncached⟩ := hun.resolve_left (by simp [hcomplete])
    obtain rfl := halone hload
    have hhead : s.memory.core.ports 0 =
        { valid := true, info := d.pushPort.info, state := s.entryState d } := by
      rw [hjoined.core]
      exact hport
    have hfires : s.memory.fires (s.memFront i) = true := by
      rw [MemCore.fires, hjoined.core]
      exact Commit.fire_of_lt_popCount hj
    have hnone : s.memory.hasExcept (s.memFront i) = false := by
      rw [MemCore.hasExcept, hjoined.core]
      exact hclean
    have hread := hjoined.memory.read hfires hnone (by rw [hhead]; exact hload)
      (by rw [hhead]; exact huncached)
    have hmem : s.memory.oldest ∈ s.memory.reads := List.count_pos_iff.mp (by omega)
    obtain ⟨-, e, w, -, -, hwrite⟩ := hjoined.memory.retires hmem hfires
    rw [MemCore.loadWrite, hhead] at hwrite
    exact written_of_regWrite (hwrite.trans (if_pos hwrites))
  · exact .inl (h.finished _ d (Nat.le_add_right _ j) hd hwrites hun hexcept)

/-- Behind any of the instructions that retire, the architectural registers are settled. -/
theorem settled_mapped (m : Nat) {a : Nat} (ha : a ∈ RenameStage.archRegs) :
    (s.step useEarlyOut i).Settled (Renaming.apply s.wakeup.dispatch.rename.abs.map
      (NopCore.writes ((s.retired useEarlyOut i).take m)) a) := by
  have hdispatch := h.recorded.joined.dispatch
  rcases hdispatch.mapped_retired (i := s.dispatchInputs useEarlyOut i) m ha with
    ⟨b, hb, hmap⟩ | ⟨hclear, hclean, j, hj, d, hd, hwrites, hmap⟩
  · rw [OperandCore.retired, hmap]
    exact h.recorded.settled_step (hdispatch.mapped_not_taken hb) (.inl (h.committed b hb))
  · rw [OperandCore.retired, hmap]
    exact h.recorded.settled_step
      (hdispatch.wReg_not_taken hclear (Nat.le_add_right _ j) hd hwrites)
      (h.settled_of_retires hclean hj hd hwrites)

omit h in
theorem map_step (h : s.Joined) (hi : s.Legal useEarlyOut i) :
    (s.step useEarlyOut i).wakeup.dispatch.rename.abs.map =
      Renaming.apply s.wakeup.dispatch.rename.abs.map (NopCore.writes (s.retired useEarlyOut i)) := by
  have hlegal : s.wakeup.dispatch.Legal (s.dispatchInputs useEarlyOut i) :=
    ⟨(h.wakeupLegal hi).decoded⟩
  exact RenameStage.map_step h.dispatch.stage (h.dispatch.renameLegal hlegal)

theorem committed_step (hi : s.Legal useEarlyOut i) {a : Nat} (ha : a ∈ RenameStage.archRegs) :
    (s.step useEarlyOut i).Settled ((s.step useEarlyOut i).wakeup.dispatch.rename.abs.map a) := by
  rw [map_step h.recorded.joined hi, ← List.take_length (l := s.retired useEarlyOut i)]
  exact h.settled_mapped _ ha

theorem bounded_step {n : Nat} {v : UWord}
    (hresult : (s.step useEarlyOut i).results n = some v) :
    n < (s.step useEarlyOut i).wakeup.producers.seq := by
  rw [seq_step]
  rw [results_step, Option.or_eq_some_iff] at hresult
  rcases hresult with hwrite | ⟨-, hold⟩
  · obtain ⟨w, hfind, -⟩ := Option.map_eq_some_iff.mp hwrite
    have hnumber := List.find?_some hfind
    rw [beq_iff_eq] at hnumber
    have hlt := h.recorded.numbered.owner_lt
      (h.recorded.owner_of_write (List.mem_of_find?_eq_some hfind))
    omega
  · exact Nat.lt_add_right _ (h.bounded n v hold)

theorem step (hi : s.Legal useEarlyOut i) : (s.step useEarlyOut i).Results where
  recorded := h.recorded.step hi
  bounded _ _ := h.bounded_step
  unfinished _ _ := h.unfinished_step hi
  finished _ _ := h.finished_step hi
  committed _ := h.committed_step hi

omit h in
theorem of_init (h : s.Init) : s.Results where
  recorded := {
    joined := .of_init h
    port := .of_init h.memory
    numbered := {
      distinct := ⟨fun p producer hp => by simp [h.wakeup.last] at hp,
        fun p q a b hp => by simp [h.wakeup.last] at hp⟩
      zero := by simp [owner, h.wakeup.last]
      inOrder := fun n d _ hd => by simp [h.wakeup.dispatch.renamed] at hd
      owns := fun n d _ hd => by simp [h.wakeup.dispatch.renamed] at hd
      stages := fun u st x hx => by
        have hexecuting := (Joined.of_init h).pipes.executing u st x hx
        simp [h.wakeup.executing] at hexecuting } }
  bounded n v hv := by simp [h.results] at hv
  unfinished n d _ hd := by simp [h.wakeup.dispatch.renamed] at hd
  finished n d _ hd := by simp [h.wakeup.dispatch.renamed] at hd
  committed a _ := by
    have hnone : s.owner (s.wakeup.dispatch.rename.abs.map a) = none := by
      simp [owner, h.wakeup.last]
    rw [Settled, hnone]
    change s.reg _ = 0
    rw [reg]
    split_ifs
    · rfl
    · exact h.regs _

end Results

theorem results_of_reachable (h : (machine useEarlyOut).Reachable s) : s.Results :=
  Clocked.Machine.invariant (fun _ => Results.of_init) (fun _ _ h => h.step) h

end OperandCore

end NopCore
