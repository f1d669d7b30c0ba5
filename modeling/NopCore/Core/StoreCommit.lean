import NopCore.Core.StoreHead

/-!
# Retirement and the store buffer

Commit retires the first entry of the store buffer that has not retired, whatever
it is. That this is the entry of the head of the reorder buffer rests on the order
in which both are filled: an access enters the store buffer when it leaves MEM2, in
program order and before it can be complete, and every access at the head retires
its entry before it leaves. An exception, a lost link or an interrupt at the head
flushes everything, so an entry that is left over is removed before another access
can enter.
-/

namespace NopCore

namespace MemCore

variable {t : MemCore} {i : Inputs}

/-! ## The log -/

/-- The access that commit would retire next is that of the oldest instruction that
waits. -/
structure Tracks (t : MemCore) (done : List MemUop) : Prop where
  ordered : t.Ordered done
  executing : t.core.fsm = .execute → t.Executing done
  unretired : t.log.program.drop t.log.retired =
    ((done ++ t.wbUops).filter t.waits).map MemUop.slot

/-- What became of the instructions that are not in flight, and of the head. -/
structure Settled (t : MemCore) : Prop where
  before : ∀ n ∈ t.committed, n < t.oldest ∨ (n = t.oldest ∧ t.core.fsm = .execute)
  started : t.core.fsm = .execute → t.oldest ∈ t.committed
  dropped : ∀ n ∈ t.dropped, n < t.oldest
  apart : ∀ n ∈ t.committed, n ∉ t.dropped

/-- The reorder buffer and the store buffer are in step. -/
structure InStep (t : MemCore) : Prop where
  order : t.InOrder
  log : t.log.InOrder t.pipeline
  tracks : t.regFlush = false → ∃ done, t.Tracks done
  committed : t.committed = (t.log.program.take t.log.retired).map fun e => e.number
  settled : t.Settled

theorem retired_le {log : AccessLog} {s : MemPipeline} (h : log.InOrder s) :
    log.retired ≤ log.program.length := by
  obtain ⟨gone, entries, marked, hfollows⟩ := h
  have hle := hfollows.buffer.marked_le
  rw [hfollows.retired, hfollows.program, List.length_append, List.length_append]
  omega

section InStep

variable (h : t.InStep) (hi : t.Legal i)

include h

theorem InStep.regFlush_of_commitStore (hcommit : t.commitStore i = true) :
    t.regFlush = false := by
  by_contra hflushed
  rw [(h.order.flushed (Bool.of_not_eq_false hflushed)).commitStore] at hcommit
  cases hcommit

theorem InStep.regFlush_of_execute (hfsm : t.core.fsm = .execute) : t.regFlush = false := by
  by_contra hflushed
  rw [(h.order.flushed (Bool.of_not_eq_false hflushed)).fsm] at hfsm
  cases hfsm

/-- Commit retires the entry of the head. -/
theorem InStep.commitStore_head (hcommit : t.commitStore i = true) :
    ∃ u done rest, t.Tracks done ∧ done = u :: rest ∧ t.Shown u ∧ t.waits u = true ∧
      (u.isSC = true → i.commit.handler.llbctlLLBIT = true) ∧
      t.log.program[t.log.retired]? = some u.slot := by
  obtain ⟨done, htracks⟩ := h.tracks (h.regFlush_of_commitStore hcommit)
  obtain ⟨u, rest, rfl, hshown, hwaits, hlink⟩ :=
    htracks.ordered.commitStore_head h.order.core h.order.decoded htracks.executing hcommit
  refine ⟨u, u :: rest, rest, htracks, rfl, hshown, hwaits, hlink, ?_⟩
  have hhead := congrArg List.head? htracks.unretired
  rw [List.head?_drop, List.cons_append, List.filter_cons_of_pos hwaits] at hhead
  exact hhead

theorem InStep.hasUnretired (hcommit : t.commitStore i = true) :
    t.pipeline.storeBuffer.hasUnretired = true := by
  obtain ⟨u, _, _, -, -, -, -, -, hentry⟩ := h.commitStore_head hcommit
  obtain ⟨gone, entries, marked, hfollows⟩ := h.log
  have hlt := (List.getElem?_eq_some_iff.mp hentry).1
  rw [hfollows.buffer.hasUnretired, decide_eq_true_eq]
  rw [hfollows.retired, hfollows.program, List.length_append, List.length_append] at hlt
  omega

include hi

/-- The memory pipeline is used as it expects. -/
theorem InStep.pipelineLegal : t.pipeline.Legal (t.memInputs i) := by
  refine ⟨fun _ => ?_, h.hasUnretired⟩
  change ¬ ((t.head i).isLoad = true ∧ (t.head i).isStore = true)
  rw [head]
  cases hwaiting : t.waiting with
  | nil => exact hi.stale
  | cons r rest =>
    have hflushed : t.regFlush = false := by
      by_contra hno
      rw [(h.order.flushed (Bool.of_not_eq_false hno)).waiting] at hwaiting
      cases hwaiting
    obtain ⟨done, htracks⟩ := h.tracks hflushed
    have hpipe : r ∈ t.pipeRequests := by simp [pipeRequests, hwaiting]
    obtain ⟨hmem, hrequest⟩ := htracks.ordered.mem_requests (List.mem_append_right _ hpipe)
    obtain ⟨⟨hold, hlt⟩, -⟩ := mem_memNumbers.mp hmem
    have hone := (h.order.decoded.decodes r.number hold hlt).one
    rintro ⟨hload, hstore⟩
    have hload' : r.isLoad = true := hload
    have hstore' : r.isStore = true := hstore
    rw [hrequest] at hload' hstore'
    exact hone ⟨hload', hstore'⟩

omit hi in
theorem InStep.retired_le_length : t.log.retired + (t.commitStore i).toNat ≤
    t.log.program.length := by
  cases hcommit : t.commitStore i with
  | false => exact retired_le h.log
  | true =>
    obtain ⟨u, _, _, -, -, -, -, -, hentry⟩ := h.commitStore_head hcommit
    exact (List.getElem?_eq_some_iff.mp hentry).1

omit hi in
/-- What has retired stays in the log. -/
theorem InStep.program_take_step : (t.step i).log.program.take (t.step i).log.retired =
    t.log.program.take (t.log.retired + (t.commitStore i).toNat) := by
  have hretired : (t.step i).log.retired = t.log.retired + (t.commitStore i).toNat := rfl
  rw [hretired]
  change List.take _ (if t.regFlush then t.log.program.take
    (t.log.retired + (t.commitStore i).toNat) else t.log.program ++ _) = _
  split_ifs
  · rw [List.take_take, Nat.min_self]
  · rw [List.take_append_of_le_length h.retired_le_length]

omit hi in
theorem InStep.committed_step : (t.step i).committed =
    ((t.step i).log.program.take (t.step i).log.retired).map fun e => e.number := by
  rw [h.program_take_step]
  change (if t.commitStore i then t.committed ++ [t.oldest] else t.committed) = _
  rw [h.committed]
  cases hcommit : t.commitStore i with
  | false => simp
  | true =>
    obtain ⟨u, _, _, -, -, hshown, -, -, hentry⟩ := h.commitStore_head hcommit
    simp only [if_true, Bool.toNat_true]
    rw [List.take_add_one, hentry, List.map_append]
    congr 1
    exact congrArg (fun n => [n]) hshown.number.symm

omit h hi in
/-- When a load is being executed after the cycle, nothing has left in it. -/
theorem not_fires_of_execute (hfsm : (t.step i).core.fsm = .execute) :
    t.fires i = false := by
  by_contra hfires
  have hboot : (t.step i).core.fsm = .stateBoot :=
    Commit.nextFsm_of_fire (Bool.of_not_eq_false hfires)
  rw [hboot] at hfsm
  cases hfsm

omit h hi in
/-- A load that is being executed after the cycle has been started in it or before. -/
theorem startUncached_or_execute (hfsm : (t.step i).core.fsm = .execute) :
    t.startUncached i = true ∨ t.core.fsm = .execute := by
  change Commit.nextFsm t.core.ports t.core.fsm (t.commitInputs i) = .execute at hfsm
  cases hnow : t.core.fsm with
  | execute => exact .inr rfl
  | stateBoot =>
    left
    rw [hnow, Commit.nextFsm] at hfsm
    rw [startUncached, hnow]
    by_contra hstart
    rw [if_neg hstart] at hfsm
    cases hfsm

omit h hi in
theorem commitStore_of_startUncached (hstart : t.startUncached i = true) :
    t.commitStore i = true := by
  have hstart' : Commit.startUncached t.core.ports t.core.fsm (t.commitInputs i) = true := hstart
  simp [commitStore, Commit.commitStore, hstart']

omit hi in
theorem InStep.executing_step {done : List MemUop} (htracks : t.Tracks done)
    (hfsm : (t.step i).core.fsm = .execute) :
    (t.step i).Executing
      ((done ++ t.wbUops).filter fun u => decide (t.oldest + t.popCount i ≤ u.number)) := by
  have hfires := not_fires_of_execute hfsm
  have hpop := popCount_of_not_fires hfires
  have hold : (t.step i).oldest = t.oldest := by
    rw [oldest_step (needFlush_of_not_fires hfires), hpop, Nat.add_zero]
  have hall : (done ++ t.wbUops).filter (fun u => decide (t.oldest + t.popCount i ≤ u.number)) =
      done ++ t.wbUops := by
    refine List.filter_eq_self.mpr fun u hu => decide_eq_true ?_
    have hge := (mem_memNumbers.mp (htracks.ordered.mem_passed hu).1).1.1
    omega
  rw [hall]
  obtain ⟨u, rest, rfl, hnumber, haccess, hload⟩ : t.Executing done := by
    obtain hstart | hnow := startUncached_or_execute hfsm
    · obtain ⟨u, rest, rfl, hshown, hwaits, -⟩ :=
        htracks.ordered.commitStore_head h.order.core h.order.decoded htracks.executing
          (commitStore_of_startUncached hstart)
      have hload : (t.core.ports 0).uop.isLoad = true := by
        simp only [startUncached, Commit.startUncached, Bool.and_eq_true] at hstart
        exact hstart.1.1.1.2
      exact ⟨u, rest, rfl, hshown.number, (Bool.and_eq_true_iff.mp hwaits).1,
        hshown.isLoad.symm.trans hload⟩
    · exact htracks.executing hnow
  exact ⟨u, rest ++ t.wbUops, rfl, hnumber.trans hold.symm, haccess, hload⟩

omit h hi in
/-- An access enters the store buffer when it comes to WB. -/
theorem push_eq (hflushed : t.regFlush = false) :
    (t.pipeline.push (t.memInputs i)).toList =
      ((t.step i).wbUops.filter MemUop.isAccess).map MemUop.slot := by
  have hvalid : t.pipeline.pushValid = (t.pipeline.mem2.isValid && t.pipeline.uop2.isAccess) :=
    Bool.and_assoc _ _ _
  rw [MemPipeline.push, hvalid, wbUops_eq, departs, hflushed]
  cases t.pipeline.mem2.isValid <;> cases t.pipeline.stuck2 (t.memInputs i) <;>
    cases haccess : t.pipeline.uop2.isAccess <;> simp [haccess]
  rfl

theorem InStep.tracks_step (hflush : t.needFlush i = false) :
    ∃ done, (t.step i).Tracks done := by
  have hprogram : (t.step i).log.program = if t.regFlush then
      t.log.program.take (t.log.retired + (t.commitStore i).toNat)
      else t.log.program ++ (t.pipeline.push (t.memInputs i)).toList := rfl
  have hretired : (t.step i).log.retired = t.log.retired + (t.commitStore i).toNat := rfl
  cases hflushed : t.regFlush with
  | true =>
    have hempty := h.order.flushed hflushed
    refine ⟨[], hempty.step h.order.core (h.order.legal hi) hflushed, fun hfsm => ?_, ?_⟩
    · obtain hstart | hnow := startUncached_or_execute hfsm
      · have hcommit := commitStore_of_startUncached hstart
        rw [hempty.commitStore] at hcommit
        cases hcommit
      · rw [hempty.fsm] at hnow
        cases hnow
    · rw [hprogram, hretired, hflushed, if_pos rfl,
        (requests_flushed hflushed hempty.waiting hflush).1]
      simp
  | false =>
    obtain ⟨done, htracks⟩ := h.tracks hflushed
    have hordered := htracks.ordered.step h.order.core hi hflush hflushed
    refine ⟨_, hordered, h.executing_step htracks, ?_⟩
    have hwaits : (t.step i).wbUops.filter (t.step i).waits =
        (t.step i).wbUops.filter MemUop.isAccess := by
      refine List.filter_congr fun u hu => ?_
      rw [waits]
      by_cases hhead : (t.step i).core.fsm = .execute ∧ u.number = (t.step i).oldest
      · -- the head has been reported
        obtain ⟨v, rest, hcons, hnumber, -⟩ := h.executing_step htracks hhead.1
        have hpair := (List.pairwise_append.mp hordered.pairwise).1
        rw [hcons, List.map_append, List.pairwise_append] at hpair
        have hlt := hpair.2.2 v.number (List.mem_map_of_mem List.mem_cons_self) u.number
          (List.mem_map_of_mem hu)
        omega
      · have hno : ((t.step i).core.fsm == .execute && u.number == (t.step i).oldest) = false := by
          rw [← Bool.not_eq_true, Bool.and_eq_true, beq_iff_eq, beq_iff_eq]
          exact hhead
        rw [hno, Bool.not_false, Bool.and_true]
    rw [List.filter_append, hwaits, htracks.ordered.awaiting_step h.order.core h.order.decoded
      htracks.executing hflush, List.map_append, List.map_drop, ← htracks.unretired,
      ← push_eq hflushed, hprogram, hretired, hflushed, if_neg Bool.false_ne_true,
      List.drop_append_of_le_length h.retired_le_length, List.drop_drop]

omit hi in
/-- An instruction that leaves without an access has not retired an entry. -/
theorem InStep.not_abandons (hhead : t.commitStore i = true ∨ t.core.fsm = .execute)
    (hfires : t.fires i = true) : t.abandons i = false := by
  by_cases hfsm : t.core.fsm = .execute
  · obtain ⟨done, htracks⟩ := h.tracks (h.regFlush_of_execute hfsm)
    exact (htracks.ordered.fires_executing (i := i) h.order.core h.order.decoded
      htracks.executing hfsm).2.2.2
  · obtain ⟨-, hno⟩ | ⟨-, hclean, -, hlink⟩ := commitStore_cases (hhead.resolve_right hfsm)
    · rw [hfires] at hno
      cases hno
    · have hclean' : Commit.hasExcept t.core.ports t.core.fsm (t.commitInputs i) = false := hclean
      cases hsc : (t.core.ports 0).uop.isSC <;> simp_all [abandons]

omit h hi in
theorem mem_committed_step {n : Nat} : n ∈ (t.step i).committed ↔
    n ∈ t.committed ∨ (t.commitStore i = true ∧ n = t.oldest) := by
  simp only [step]
  cases t.commitStore i <;> simp

omit hi in
/-- The head that has retired its entry stays only if it is an uncached load, which is
then being executed. -/
theorem InStep.execute_of_stays (hhead : t.commitStore i = true ∨ t.core.fsm = .execute)
    (hfires : t.fires i = false) : (t.step i).core.fsm = .execute := by
  change Commit.nextFsm t.core.ports t.core.fsm (t.commitInputs i) = .execute
  by_cases hfsm : t.core.fsm = .execute
  · obtain ⟨done, htracks⟩ := h.tracks (h.regFlush_of_execute hfsm)
    have hdone := (htracks.ordered.fires_executing (i := i) h.order.core h.order.decoded
      htracks.executing hfsm).1
    have hwait : (t.commitInputs i).uncachedDone = false := hdone.symm.trans hfires
    simp [hfsm, Commit.nextFsm, hwait]
  · obtain ⟨hstart, -⟩ | ⟨hyes, -⟩ := commitStore_cases (hhead.resolve_right hfsm)
    · have hstart' : Commit.startUncached t.core.ports t.core.fsm (t.commitInputs i) = true :=
        hstart
      cases hboot : t.core.fsm with
      | execute => exact absurd hboot hfsm
      | stateBoot => simp [Commit.nextFsm, hboot ▸ hstart']
    · rw [hfires] at hyes
      cases hyes

omit h hi in
theorem oldest_of_stays (hfires : t.fires i = false) : (t.step i).oldest = t.oldest := by
  rw [oldest_step (needFlush_of_not_fires hfires), popCount_of_not_fires hfires, Nat.add_zero]

omit h hi in
/-- When the head fires, it is no longer in flight. -/
theorem oldest_lt_of_fires (hfires : t.fires i = true) : t.oldest < (t.step i).oldest := by
  have hpop := popCount_of_fires hfires
  have hle := popCount_le_count (t := t) (i := i)
  change t.oldest < if t.needFlush i then t.next + i.push.length else t.oldest + t.popCount i
  rw [next]
  split_ifs <;> omega

omit h hi in
theorem oldest_le_step : t.oldest ≤ (t.step i).oldest := by
  cases hfires : t.fires i with
  | true => exact (oldest_lt_of_fires hfires).le
  | false => exact (oldest_of_stays hfires).ge

omit h hi in
theorem fires_of_needFlush (hflush : t.needFlush i = true) : t.fires i = true :=
  (Bool.and_eq_true_iff.mp hflush).1

omit h hi in
/-- What a flush drops, but for the head if that has made its access. -/
theorem mem_dropped_step {n : Nat} (hn : n ∈ (t.step i).dropped) : n ∈ t.dropped ∨
    (t.needFlush i = true ∧ t.oldest ≤ n ∧ n < (t.step i).oldest ∧
      (n ≠ t.oldest ∨ t.abandons i = true)) := by
  cases hflush : t.needFlush i with
  | false =>
    have hdropped : (t.step i).dropped = t.dropped := if_neg (by simp [hflush])
    rw [hdropped] at hn
    exact .inl hn
  | true =>
    have hold : (t.step i).oldest = t.next + i.push.length := if_pos hflush
    have hdropped : (t.step i).dropped = t.dropped ++
        (List.range' t.oldest (t.count + i.push.length)).filter
          (fun n => n != t.oldest || t.abandons i) := if_pos hflush
    rw [hdropped, List.mem_append, List.mem_filter, List.mem_range'_1] at hn
    obtain hn | ⟨⟨hge, hlt⟩, hother⟩ := hn
    · exact .inl hn
    · refine .inr ⟨rfl, hge, ?_, ?_⟩
      · rw [hold, next]
        omega
      · simpa using hother

omit hi in
theorem InStep.head_of_committed {n : Nat} (hn : n ∈ (t.step i).committed) : n < t.oldest ∨
    (n = t.oldest ∧ (t.commitStore i = true ∨ t.core.fsm = .execute)) := by
  obtain hn | ⟨hcommit, rfl⟩ := mem_committed_step.mp hn
  · obtain hlt | ⟨heq, hfsm⟩ := h.settled.before n hn
    · exact .inl hlt
    · exact .inr ⟨heq, .inr hfsm⟩
  · exact .inr ⟨rfl, .inl hcommit⟩

omit hi in
/-- What has retired its entry is the head or has left. -/
theorem InStep.settled_step : (t.step i).Settled where
  before := by
    intro n hn
    obtain hlt | ⟨rfl, hnow⟩ := h.head_of_committed hn
    · exact .inl (hlt.trans_le oldest_le_step)
    · cases hfires : t.fires i with
      | true => exact .inl (oldest_lt_of_fires hfires)
      | false => exact .inr ⟨(oldest_of_stays hfires).symm, h.execute_of_stays hnow hfires⟩
  started := by
    intro hfsm
    rw [oldest_of_stays (not_fires_of_execute hfsm)]
    obtain hstart | hnow := startUncached_or_execute hfsm
    · exact mem_committed_step.mpr (.inr ⟨commitStore_of_startUncached hstart, rfl⟩)
    · exact mem_committed_step.mpr (.inl (h.settled.started hnow))
  dropped := by
    intro n hn
    obtain hn | ⟨-, -, hlt, -⟩ := mem_dropped_step hn
    · exact (h.settled.dropped n hn).trans_le oldest_le_step
    · exact hlt
  apart := by
    intro n hn hn'
    obtain hn' | ⟨hflush, hge, -, hother⟩ := mem_dropped_step hn'
    · have hlt := h.settled.dropped n hn'
      obtain hn | ⟨-, rfl⟩ := mem_committed_step.mp hn
      · exact h.settled.apart n hn hn'
      · omega
    · obtain hlt | ⟨rfl, hnow⟩ := h.head_of_committed hn
      · omega
      · rw [h.not_abandons hnow (fires_of_needFlush hflush)] at hother
        simp at hother

theorem InStep.step : (t.step i).InStep where
  order := h.order.step hi
  log := h.log.step (h.pipelineLegal hi)
  tracks hflushed := h.tracks_step hi hflushed
  committed := h.committed_step
  settled := h.settled_step

end InStep

theorem InStep.of_init (h : Init t) : t.InStep := by
  have horder := InOrder.of_init h
  have hfsm : t.core.fsm = .stateBoot := h.core.2.1
  refine ⟨horder, ?_, fun hflushed => ?_, ?_, ?_⟩
  · rw [h.log]
    exact AccessLog.InOrder.of_init h.pipeline
  · obtain ⟨done, hordered⟩ := horder.ordered hflushed
    refine ⟨done, hordered, fun hno => ?_, ?_⟩
    · rw [hfsm] at hno
      cases hno
    · rw [← hordered.passed, h.passed, h.log]
      rfl
  · rw [h.committed, h.log]
    rfl
  · refine ⟨by simp [h.committed], fun hno => ?_, by simp [h.dropped], by simp [h.committed]⟩
    rw [hfsm] at hno
    cases hno

theorem inStep (h : machine.Reachable t) : t.InStep :=
  Clocked.Machine.invariant (fun _ => InStep.of_init) (fun _ _ hs hi => hs.step hi) h

/-! ## What is written -/

/-- The store data behind MEM2 and on the uncached bus belongs to entries that have
retired. -/
structure Written (t : MemCore) : Prop where
  wb : ∀ e ∈ t.pipeline.wb, e.number ∈ t.committed
  wb2 : ∀ e ∈ t.pipeline.wb2, e.number ∈ t.committed
  regSTD : t.pipeline.uncached.state = .waitAXIWriteU →
    t.pipeline.uncached.regSTD.number ∈ t.committed

/-- The entries that have retired in the buffer. -/
def marked (t : MemCore) : List StoreBufferSlot :=
  (List.range storeBufferDepth).filterMap fun j =>
    if t.pipeline.storeBuffer.valid j && (t.pipeline.storeBuffer.slot j).retired then
      some (t.pipeline.storeBuffer.slot j)
    else none

/-- All store data that can still reach the cache or the bus: the entries that have
retired, what travels through the stages, and what the uncached bus is sending. MEM2
writes the cache from its own. -/
def released (t : MemCore) : List StoreBufferSlot :=
  t.marked ++ t.pipeline.rrd.std.toList ++ t.pipeline.memaddr.std.toList ++
    t.pipeline.mem1.std.toList ++ t.pipeline.mem2.std.toList ++ t.pipeline.wb.toList ++
    t.pipeline.wb2.toList ++
    if t.pipeline.uncached.state = .waitAXIWriteU then [t.pipeline.uncached.regSTD] else []

/-- What travels has retired. -/
theorem InStep.travelling (h : t.InStep) {e : StoreBufferSlot}
    (he : e ∈ t.pipeline.travelling) : e.number ∈ t.committed := by
  obtain ⟨gone, entries, marked, hfollows⟩ := h.log
  rw [h.committed, hfollows.program, hfollows.retired, ← List.length_append,
    List.take_length_add_append]
  exact List.mem_map_of_mem (List.mem_append_left _ (List.mem_append_right _ he))

theorem InStep.mem2 (h : t.InStep) : ∀ e ∈ t.pipeline.mem2.std, e.number ∈ t.committed := by
  intro e he
  refine h.travelling (e := e.mark false) ?_
  simp [MemPipeline.travelling, Option.mem_def.mp he]

theorem InStep.marked (h : t.InStep) {e : StoreBufferSlot} (he : e ∈ t.marked) :
    e.number ∈ t.committed := by
  obtain ⟨gone, entries, marked, hfollows⟩ := h.log
  simp only [MemCore.marked, List.mem_filterMap, List.mem_range] at he
  obtain ⟨j, hj, hslot⟩ := he
  split_ifs at hslot with hmarked
  · obtain rfl := Option.some.inj hslot
    rw [Bool.and_eq_true, hfollows.buffer.valid j hj, decide_eq_true_eq] at hmarked
    have hentry := hfollows.buffer.slot j hmarked.1
    have hlt : j < marked := by
      have hretired := hmarked.2
      rwa [hentry, StoreBufferSlot.retired_mark, decide_eq_true_eq] at hretired
    rw [hentry, StoreBufferSlot.number_mark, h.committed, hfollows.program, hfollows.retired,
      ← List.length_append, List.take_length_add_append]
    refine List.mem_map_of_mem (List.mem_append_right _ ?_)
    exact List.mem_take_iff_getElem.mpr ⟨j, by omega, rfl⟩

theorem Written.step (h : t.Written) (hstep : t.InStep) : (t.step i).Written where
  wb := by
    intro e he
    have hmem2 : e ∈ t.pipeline.mem2.std := by
      change e ∈ (if t.pipeline.stuck2 (t.memInputs i) then none else t.pipeline.mem2.std) at he
      split_ifs at he
      · cases he
      · exact he
    exact mem_committed_step.mpr (.inl (hstep.mem2 e hmem2))
  wb2 e he := mem_committed_step.mpr (.inl (h.wb e he))
  regSTD := by
    intro hstate
    refine mem_committed_step.mpr (.inl ?_)
    simp only [MemCore.step, MemPipeline.step, MemPipeline.nextUncached] at hstate ⊢
    cases hnow : t.pipeline.uncached.state with
    | waitAXIWriteU =>
      exact h.regSTD hnow
    | stateBoot =>
      simp only [hnow] at hstate ⊢
      split_ifs at hstate ⊢ with hfire
      · cases hstd : t.pipeline.mem2.std with
        | none => simp [MemPipeline.uncachedFire, MemPipeline.isSTU, hstd] at hfire
        | some e => exact hstep.mem2 e hstd

theorem written (h : machine.Reachable t) : t.Written :=
  Clocked.Machine.invariant_of_reachable
    (fun s hs => by
      refine ⟨by simp [hs.pipeline.wb.1], by simp [hs.pipeline.wb.2], fun hstate => ?_⟩
      rw [hs.pipeline.uncached] at hstate
      cases hstate)
    (fun _ _ hr hw _ => hw.step (inStep hr)) h

/-! ## The theorem -/

/-- The stores and the uncached loads in flight that have passed MEM2 without an
exception and whose entry commit has not retired. -/
def awaiting (t : MemCore) : List MemUop :=
  t.passed.filter fun u =>
    t.inFlight u.number && u.isAccess && !t.committed.contains u.number

/-- The oldest instruction whose entry waits is the head of the reorder buffer, and
its entry is the one that commit retires: that of a store whose link holds, if it
needs one, or that of an uncached load. -/
structure CommitsHead (t : MemCore) (i : Inputs) (u : MemUop) : Prop where
  first : t.awaiting.head? = some u
  number : u.number = t.oldest
  robIdx : u.robIdx = t.core.entry 0
  kind : (u.isStore = true ∧ (u.isSC = true → i.commit.handler.llbctlLLBIT = true)) ∨
    (u.isLoad = true ∧ u.cached = false)
  marks : ∃ j < storeBufferDepth, t.pipeline.storeBuffer.valid j = true ∧
    t.pipeline.storeBuffer.slot j = u.slot ∧ ∀ k < storeBufferDepth,
      t.pipeline.storeBuffer.valid k = true →
        t.pipeline.storeBuffer.retireFall k = decide (k = j)

/-- The entries that have not retired are those of the accesses that await commit,
in order; each retirement is that of the head; and what was dropped, by a flush, an
exception or a lost link, has not retired an entry and releases no data. -/
structure StoresInStep (t : MemCore) (i : Inputs) : Prop where
  unretired : t.regFlush = false →
    t.pipeline.storeBuffer.unretired = t.awaiting.map MemUop.slot
  commits : t.commitStore i = true → ∃ u, t.CommitsHead i u
  released : ∀ e ∈ t.released, e.number ∈ t.committed
  dropped : ∀ n ∈ t.committed, n ∉ t.dropped

theorem InStep.awaiting_eq (h : t.InStep) {done : List MemUop} (htracks : t.Tracks done) :
    t.awaiting = (done ++ t.wbUops).filter t.waits := by
  rw [← htracks.ordered.passed, List.filter_filter, awaiting]
  refine List.filter_congr fun u _ => ?_
  cases hflight : t.inFlight u.number with
  | false => simp
  | true =>
    have hold : t.oldest ≤ u.number := by
      simp only [inFlight, Bool.and_eq_true, decide_eq_true_eq] at hflight
      exact hflight.1
    have hissued : t.committed.contains u.number =
        (t.core.fsm == .execute && u.number == t.oldest) := by
      rw [Bool.eq_iff_iff, List.contains_iff_mem, Bool.and_eq_true, beq_iff_eq, beq_iff_eq]
      constructor
      · intro hmem
        obtain hlt | ⟨heq, hfsm⟩ := h.settled.before _ hmem
        · omega
        · exact ⟨hfsm, heq⟩
      · rintro ⟨hfsm, heq⟩
        rw [heq]
        exact h.settled.started hfsm
    rw [Bool.true_and, Bool.and_true, hissued, waits]

theorem InStep.commitsHead (h : t.InStep) (hcommit : t.commitStore i = true) :
    ∃ u, t.CommitsHead i u := by
  obtain ⟨u, done, rest, htracks, rfl, hshown, hwaits, hlink, hentry⟩ :=
    h.commitStore_head hcommit
  refine ⟨u, ?_, hshown.number, hshown.robIdx, ?_, ?_⟩
  · rw [h.awaiting_eq htracks, List.cons_append, List.filter_cons_of_pos hwaits, List.head?_cons]
  · simp only [waits, MemUop.isAccess, Bool.and_eq_true, Bool.or_eq_true,
      Bool.not_eq_true'] at hwaits
    obtain hstore | hload := hwaits.1.2
    · exact .inl ⟨hstore, hlink⟩
    · exact .inr hload
  · obtain ⟨gone, entries, marked, hfollows⟩ := h.log
    rw [hfollows.program, hfollows.retired, ← List.length_append,
      List.getElem?_append_right (Nat.le_add_right _ _), Nat.add_sub_cancel_left] at hentry
    obtain ⟨hlt, hslot⟩ := List.getElem?_eq_some_iff.mp hentry
    have hdepth := hfollows.buffer.length_le
    refine ⟨marked, by omega, ?_, ?_, fun k hk hvalid => ?_⟩
    · rw [hfollows.buffer.valid marked (by omega), decide_eq_true_eq]
      exact hlt
    · rw [hfollows.buffer.slot marked hlt, hslot, decide_eq_false (Nat.lt_irrefl _)]
      rfl
    · rw [hfollows.buffer.valid k hk, decide_eq_true_eq] at hvalid
      exact hfollows.buffer.retireFall hvalid

/-- In every reachable state and for every input the store buffer and the reorder
buffer are in step. -/
theorem storesInStep (h : machine.Reachable t) (i : Inputs) : t.StoresInStep i := by
  have hstep := inStep h
  have hwritten := written h
  refine ⟨fun hflushed => ?_, hstep.commitsHead, fun e he => ?_, hstep.settled.apart⟩
  · obtain ⟨done, htracks⟩ := hstep.tracks hflushed
    obtain ⟨gone, entries, marked, hfollows⟩ := hstep.log
    rw [hstep.awaiting_eq htracks, ← htracks.unretired, hfollows.program, hfollows.retired,
      ← List.length_append, List.drop_length_add_append]
    exact hfollows.buffer.unretired hfollows.unmarked
  · simp only [MemCore.released, List.mem_append, Option.mem_toList] at he
    obtain ((((((he | he) | he) | he) | he) | he) | he) | he := he
    · exact hstep.marked he
    · refine hstep.travelling (e := e.mark false) ?_
      simp [MemPipeline.travelling, Option.mem_def.mp he]
    · refine hstep.travelling (e := e.mark false) ?_
      simp [MemPipeline.travelling, Option.mem_def.mp he]
    · refine hstep.travelling (e := e.mark false) ?_
      simp [MemPipeline.travelling, Option.mem_def.mp he]
    · exact hstep.mem2 e he
    · exact hwritten.wb e he
    · exact hwritten.wb2 e he
    · split_ifs at he with hstate
      · obtain rfl := List.mem_singleton.mp he
        exact hwritten.regSTD hstate
      · cases he

/-! ## A store -/

def atReset : MemCore := { core := { redirected := some 0x1c000000 } }

theorem init_atReset : Init atReset where
  core := ⟨rfl, rfl, rfl⟩
  waiting := rfl
  pipeline := ⟨fun _ => rfl, ⟨rfl, rfl⟩, ⟨rfl, rfl⟩, ⟨rfl, rfl⟩, ⟨rfl, rfl⟩, rfl, ⟨rfl, rfl⟩,
    fun _ _ => rfl, fun _ _ => rfl, ⟨rfl, rfl, rfl⟩, rfl, rfl, ⟨rfl, rfl⟩, rfl⟩
  wb := rfl
  regFlush := rfl
  passed := rfl
  log := rfl
  committed := rfl
  dropped := rfl
  reads := rfl
  returned := rfl

def idle : Inputs := {}

/-- A store is renamed, issues in the next cycle, and goes through the pipeline. -/
def renameStore : List Inputs :=
  [{ push := [{ uop := { pc := 0x1c000000, fuType := .lsu, isStore := true } }] },
   { mem := { headReady := true } }] ++ List.replicate 5 idle

/-- It retires. -/
theorem storesInStep_renameStore :
    let t := machine.run atReset renameStore
    t.commitStore idle = true ∧ t.StoresInStep idle :=
  ⟨by decide +kernel,
    storesInStep (Clocked.Machine.Reachable.run (.reset init_atReset) (by decide +kernel)) idle⟩

end MemCore

end NopCore
