import NopCore.Core.DecodedCore
import NopCore.Core.Operands
import NopCore.Exe.CsrAtomic

/-!
# What is in the pipes

Every instruction in a stage of a pipe is in flight, and it is in one stage only. The core
of the queues and the memory pipeline are used as they expect, so that each keeps its own
invariant.
-/

namespace NopCore

inductive PipeStage
  | rrd | exe | wb
  deriving DecidableEq, Repr

namespace ExecUnit

/-- The queue that issues to a pipe. -/
def queue : ExecUnit → IssueQueue
  | .int0 | .int1 | .int2 => .int
  | .mulDiv => .mulDiv
  | .mem => .mem

theorem executes_of_accepts {u : ExecUnit} {uop : MicroOp} (htakes : u.queue.takes uop = true)
    (haccepts : IssueQueue.accepts u uop.fuType = true) : u.executes uop.fuType = true := by
  rw [IssueQueue.takes, Bool.and_eq_true] at htakes
  have hfu := htakes.1
  revert hfu haccepts
  cases u <;> cases uop.fuType <;> decide

theorem fuMatch_of_executes {u : ExecUnit} {fu : FUType} (h : u.executes fu = true) :
    u.queue.fuMatch fu = true := by
  revert h
  cases u <;> cases fu <;> decide

theorem mem_units_int {u : ExecUnit} : u ∈ IssueQueue.units .int ↔ u.queue = .int := by
  cases u <;> decide

end ExecUnit

namespace IssueQueue

theorem executes_of_takes {q : IssueQueue} {uop : MicroOp} (h : q.takes uop = true) :
    uop.needNotExecute = false := by
  by_contra hno
  have hnone := (takes_iff uop).1.mp (Bool.of_not_eq_false hno) q
  rw [h] at hnone
  cases hnone

variable {queue : Nat → Option IssueSlot} {waken : Nat → Bool} {k : Nat}

theorem not_mem_of_grant {granted : List Nat} {u : ExecUnit}
    (h : grant queue waken granted u = some k) : k ∉ granted := by
  have hasks := List.find?_some h
  rw [Bool.and_eq_true, Bool.not_eq_true', List.contains_eq_mem, decide_eq_false_iff_not] at hasks
  exact hasks.2

/-- Two pipes do not take the same slot. -/
theorem issGrant_inj {u v : ExecUnit} (hu : u.queue = .int) (hv : v.queue = .int)
    (h : issGrant queue waken u = some k) (h' : issGrant queue waken v = some k) : u = v := by
  have hfirst : issGrant queue waken .int2 = some k → k ∈ grants queue waken [.int2] :=
    fun h2 => List.mem_append_right _ (Option.mem_toList.mpr h2)
  have hgrants : grants queue waken [.int2, .int1] =
      grants queue waken [.int2] ++ (grant queue waken (grants queue waken [.int2]) .int1).toList :=
    rfl
  have hsecond : issGrant queue waken .int1 = some k → k ∈ grants queue waken [.int2, .int1] := by
    intro h1
    rw [hgrants]
    exact List.mem_append_right _ (Option.mem_toList.mpr h1)
  have hearlier : k ∈ grants queue waken [.int2] → k ∈ grants queue waken [.int2, .int1] := by
    intro hmem
    rw [hgrants]
    exact List.mem_append_left _ hmem
  have h1 : issGrant queue waken .int1 = some k → k ∉ grants queue waken [.int2] :=
    not_mem_of_grant
  have h0 : issGrant queue waken .int0 = some k → k ∉ grants queue waken [.int2, .int1] :=
    not_mem_of_grant
  cases u <;> cases v <;> simp [ExecUnit.queue] at hu hv ⊢
  · exact h0 h (hsecond h')
  · exact h0 h (hearlier (hfirst h'))
  · exact h0 h' (hsecond h)
  · exact h1 h (hfirst h')
  · exact h0 h' (hearlier (hfirst h))
  · exact h1 h' (hfirst h)

end IssueQueue

namespace WakeupCore

open DispatchCore

variable {t : WakeupCore} {i : Inputs} {q : IssueQueue}

/-- What is not reported goes on executing. -/
theorem executing_kept (hclear : t.regFlush = false) {e : IssueSlot} (he : e ∈ t.executing)
    (hno : ∀ c ∈ i.completions, c.robIdx ≠ e.robIdx) : e ∈ (t.step i).executing := by
  simp only [WakeupCore.step, hclear, Bool.false_eq_true, if_false]
  apply List.mem_append_left
  rw [List.mem_filter, Bool.not_eq_true', List.any_eq_false]
  refine ⟨he, fun c hc => ?_⟩
  rw [beq_iff_eq]
  exact hno c hc

theorem executing_issued (hclear : t.regFlush = false) {e : IssueSlot} (he : e ∈ t.issued i q) :
    e ∈ (t.step i).executing := by
  simp only [WakeupCore.step, hclear, Bool.false_eq_true, if_false]
  apply List.mem_append_right
  cases q with
  | int => exact List.mem_append_left _ (List.mem_append_left _ he)
  | mulDiv => exact List.mem_append_left _ (List.mem_append_right _ he)
  | mem => exact List.mem_append_right _ he

theorem Inv.takes_issued (hinv : t.Inv) (hclear : t.regFlush = false) {e : IssueSlot}
    (he : e ∈ t.issued i q) : q.takes e.uop = true := by
  obtain ⟨l, hl⟩ := hinv.waits hclear q
  obtain ⟨n, d, -, -, htakes, rfl⟩ :=
    hl.exists_renamed (List.mem_append_left _ (mem_of_issued hinv hl he))
  exact htakes

/-- What is still in a queue has not been issued before. -/
theorem Inv.issued_apart_executing (hinv : t.Inv) (hclear : t.regFlush = false) {e x : IssueSlot}
    (he : e ∈ t.issued i q) (hx : x ∈ t.executing) : x.robIdx ≠ e.robIdx := by
  obtain ⟨l, hl⟩ := hinv.waits hclear q
  exact hl.apart e (List.mem_append_left _ (mem_of_issued hinv hl he)) x hx

/-- Instructions that are issued in one cycle come from one queue if they have the same entry. -/
theorem Inv.queue_of_issued (hinv : t.Inv) (hclear : t.regFlush = false) {q' : IssueQueue}
    {e e' : IssueSlot} (he : e ∈ t.issued i q) (he' : e' ∈ t.issued i q')
    (heq : e.robIdx = e'.robIdx) : q = q' := by
  obtain ⟨l, hl⟩ := hinv.waits hclear q
  obtain ⟨l', hl'⟩ := hinv.waits hclear q'
  exact hl.queue_eq hinv.dispatch hl' (List.mem_append_left _ (mem_of_issued hinv hl he))
    (List.mem_append_left _ (mem_of_issued hinv hl' he')) heq

/-- The slots of a queue are told apart by their entries. -/
theorem Inv.slot_inj (hinv : t.Inv) (hclear : t.regFlush = false) {k k' : Nat} {x y : IssueSlot}
    (hk : k < q.depth) (hk' : k' < q.depth) (hx : IssueQueue.erase (t.slots q) k = some x)
    (hy : IssueQueue.erase (t.slots q) k' = some y) (heq : x.robIdx = y.robIdx) : k = k' := by
  obtain ⟨l, hl⟩ := hinv.waits hclear q
  rw [← hinv.erased, hl.holds.slot k hk] at hx
  rw [← hinv.erased, hl.holds.slot k' hk'] at hy
  have hnodup := (nodup_part hinv.dispatch q).sublist (hl.inOrder.map IssueSlot.robIdx)
  rw [List.map_append, List.nodup_append] at hnodup
  have hidx : (l.map IssueSlot.robIdx)[k]? = (l.map IssueSlot.robIdx)[k']? := by
    rw [List.getElem?_map, List.getElem?_map, hx, hy, Option.map_some, Option.map_some, heq]
  have hlt : k < (l.map IssueSlot.robIdx).length := by
    rw [List.length_map]
    exact (List.getElem?_eq_some_iff.mp hx).1
  exact (List.getElem?_inj hlt hnodup.1).mp hidx

end WakeupCore

namespace OperandCore

open DispatchCore WakeupCore

variable (useEarlyOut : Bool) (s : OperandCore) (i : Inputs)

/-! ## The stages -/

/-- What is in a stage of the pipes other than the memory pipeline. -/
def slotAt : ExecUnit → PipeStage → Option IssueSlot
  | .mulDiv, .rrd => if s.mulDiv.rrdValid then some s.mulDivRrd else none
  | .mulDiv, .exe => if s.mulDiv.exeValid then some s.mulDivExe else none
  | .mulDiv, .wb => if s.mulDiv.wbValid then some s.mulDivWb else none
  | .mem, _ => none
  | u, .rrd => s.wakeup.regRead u
  | u, .exe => (s.exe u).map ExeStage.slot
  | u, .wb => (s.wb u).map WbStage.slot

/-- What a pipe takes from its queue, if it is not held. -/
def issuedTo : ExecUnit → Option IssueSlot
  | .mulDiv =>
    if IssueQueue.waken (s.wakeup.slots .mulDiv) 0 then some (s.headSlot .mulDiv) else none
  | .mem => none
  | u => s.wakeup.issSlot (s.wakeupInputs useEarlyOut i) u

/-- RRD of a pipe is held. -/
def rrdHeld (u : ExecUnit) : Bool :=
  s.regWakeupFailed || (u == .mulDiv && s.mulDiv.exeStuck useEarlyOut)

def exeHeld (u : ExecUnit) : Bool := u == .mulDiv && s.mulDiv.exeStuck useEarlyOut

/-- Where the instruction in a stage is after the cycle. -/
def nextStage (u : ExecUnit) : PipeStage → PipeStage
  | .rrd => if s.rrdHeld useEarlyOut u then .rrd else .exe
  | .exe => if s.exeHeld useEarlyOut u then .exe else .wb
  | .wb => .wb

variable {useEarlyOut s i}

theorem rrdHeld_eq_false {u : ExecUnit} (h : s.rrdHeld useEarlyOut u = false) :
    s.regWakeupFailed = false ∧ s.exeHeld useEarlyOut u = false := Bool.or_eq_false_iff.mp h

theorem rrdHeld_int {u : ExecUnit} (hu : u.queue = .int) :
    s.rrdHeld useEarlyOut u = s.regWakeupFailed := by
  cases u <;> simp [ExecUnit.queue] at hu <;> simp [rrdHeld]

theorem exeHeld_int {u : ExecUnit} (hu : u.queue = .int) : s.exeHeld useEarlyOut u = false := by
  cases u <;> simp [ExecUnit.queue] at hu <;> rfl

theorem slotAt_rrd_step (u : ExecUnit) : (s.step useEarlyOut i).slotAt u .rrd =
    if s.regFlush then none
    else if s.rrdHeld useEarlyOut u then s.slotAt u .rrd
    else s.issuedTo useEarlyOut i u := by
  cases u with
  | int0 | int1 | int2 =>
    rw [rrdHeld_int rfl]
    rfl
  | mulDiv =>
    have hheld : s.mulDiv.rrdStuck useEarlyOut (s.mulDivInputs i) =
        s.rrdHeld useEarlyOut .mulDiv := rfl
    change (if (s.mulDiv.step useEarlyOut (s.mulDivInputs i)).rrdValid then
      some (if s.mulDiv.rrdStuck useEarlyOut (s.mulDivInputs i) then s.mulDivRrd
        else s.headSlot .mulDiv) else none) = _
    simp only [MulDivPipe.step, MulDivPipe.issFires, hheld]
    simp only [mulDivInputs, slotAt, issuedTo]
    by_cases hflush : s.regFlush = true <;> by_cases hstuck : s.rrdHeld useEarlyOut .mulDiv = true <;>
      simp [hflush, hstuck]
  | mem => simp [slotAt, issuedTo]

theorem slotAt_exe_step (u : ExecUnit) : (s.step useEarlyOut i).slotAt u .exe =
    if s.regFlush then none
    else if s.exeHeld useEarlyOut u then s.slotAt u .exe
    else if s.regWakeupFailed then none
    else s.slotAt u .rrd := by
  cases u with
  | int0 | int1 | int2 =>
    rw [exeHeld_int rfl]
    change (if s.regFlush || s.regWakeupFailed then none else _ : Option ExeStage).map _ = _
    by_cases hflush : s.regFlush = true <;> by_cases hfailed : s.regWakeupFailed = true <;>
      simp [hflush, hfailed, slotAt, Option.map_map, Function.comp_def]
  | mulDiv =>
    change (if (s.mulDiv.step useEarlyOut (s.mulDivInputs i)).exeValid then
      some (if s.mulDiv.exeStuck useEarlyOut then s.mulDivExe else s.mulDivRrd) else none) = _
    simp only [MulDivPipe.step, MulDivPipe.rrdFires, MulDivPipe.rrdStuck, mulDivInputs, exeHeld,
      slotAt]
    by_cases hflush : s.regFlush = true <;> by_cases hfailed : s.regWakeupFailed = true <;>
      by_cases hstuck : s.mulDiv.exeStuck useEarlyOut = true <;> simp [hflush, hfailed, hstuck]
  | mem => simp [slotAt]

theorem slotAt_wb_step (u : ExecUnit) : (s.step useEarlyOut i).slotAt u .wb =
    if s.regFlush || s.exeHeld useEarlyOut u then none else s.slotAt u .exe := by
  cases u with
  | int0 | int1 | int2 =>
    rw [exeHeld_int rfl]
    change (if s.regFlush then none else _ : Option WbStage).map _ = _
    by_cases hflush : s.regFlush = true <;>
      simp [hflush, slotAt, Option.map_map, Function.comp_def, execute]
  | mulDiv =>
    change (if (s.mulDiv.step useEarlyOut (s.mulDivInputs i)).wbValid then some s.mulDivExe
      else none) = _
    simp only [MulDivPipe.step, MulDivPipe.exeFires, mulDivInputs, exeHeld, slotAt]
    by_cases hflush : s.regFlush = true <;>
      by_cases hstuck : s.mulDiv.exeStuck useEarlyOut = true <;> simp [hflush, hstuck]
  | mem => simp [slotAt]

/-- Where the instruction in a stage comes from. -/
theorem origin_of_slotAt {u : ExecUnit} {st : PipeStage} {x : IssueSlot}
    (h : (s.step useEarlyOut i).slotAt u st = some x) : s.regFlush = false ∧
      ((st = .rrd ∧ s.rrdHeld useEarlyOut u = false ∧ s.issuedTo useEarlyOut i u = some x) ∨
        ∃ st' ≠ .wb, s.slotAt u st' = some x ∧ st = s.nextStage useEarlyOut u st') := by
  cases st with
  | rrd =>
    rw [slotAt_rrd_step] at h
    split_ifs at h with hflush hheld
    · exact ⟨Bool.not_eq_true _ ▸ hflush, .inr ⟨.rrd, by decide, h, by simp [nextStage, hheld]⟩⟩
    · exact ⟨Bool.not_eq_true _ ▸ hflush, .inl ⟨rfl, Bool.not_eq_true _ ▸ hheld, h⟩⟩
  | exe =>
    rw [slotAt_exe_step] at h
    split_ifs at h with hflush hheld hfailed
    · exact ⟨Bool.not_eq_true _ ▸ hflush, .inr ⟨.exe, by decide, h, by simp [nextStage, hheld]⟩⟩
    · refine ⟨Bool.not_eq_true _ ▸ hflush, .inr ⟨.rrd, by decide, h, ?_⟩⟩
      rw [exeHeld] at hheld
      simp [nextStage, rrdHeld, hheld, hfailed]
  | wb =>
    rw [slotAt_wb_step] at h
    split_ifs at h with hno
    rw [Bool.not_eq_true, Bool.or_eq_false_iff] at hno
    exact ⟨hno.1, .inr ⟨.exe, by decide, h, by simp [nextStage, hno.2]⟩⟩

/-! ## What is issued and what is reported -/

theorem mem_issued_of_issuedTo {u : ExecUnit} {x : IssueSlot}
    (hmoves : s.rrdHeld useEarlyOut u = false) (h : s.issuedTo useEarlyOut i u = some x) :
    x ∈ s.wakeup.issued (s.wakeupInputs useEarlyOut i) u.queue := by
  have hfailed := (rrdHeld_eq_false hmoves).1
  cases u with
  | int0 | int1 | int2 => exact mem_issued_of_issSlot (by decide) h hfailed
  | mulDiv =>
    rw [issuedTo] at h
    split_ifs at h with hwaken
    have hstuck : s.mulDiv.exeStuck useEarlyOut = false := (rrdHeld_eq_false hmoves).2
    cases hslot : s.wakeup.slots .mulDiv 0 with
    | none => simp [IssueQueue.waken, hslot] at hwaken
    | some slot =>
      rw [headSlot, hslot] at h
      obtain rfl : slot.payload = x := Option.some.inj h
      rw [WakeupCore.issued, List.mem_filterMap]
      refine ⟨0, List.mem_range.mpr (by decide), ?_⟩
      have hleaves : IssueQueue.leaves .mulDiv (IssueQueue.erase (s.wakeup.slots .mulDiv))
          (s.wakeup.issuable (s.wakeupInputs useEarlyOut i) .mulDiv)
          (issueFire (s.wakeupInputs useEarlyOut i) .mulDiv) 0 = true := by
        simp [IssueQueue.leaves, IssueQueue.headIssues, IssueQueue.erase, hslot, issuable,
          IssueQueue.issuable, hwaken, issueFire, wakeupInputs, hfailed, hstuck]
      rw [ExecUnit.queue, if_pos hleaves, IssueQueue.erase, hslot]
      rfl
  | mem => cases h

/-! ## The stages of the memory pipeline -/

/-- The instructions between issue and WB. -/
def memStages (s : OperandCore) : List MemRequest :=
  MemCore.stageRequests s.memory.pipeline.mem2 ++ MemCore.stageRequests s.memory.pipeline.mem1 ++
    MemCore.stageRequests s.memory.pipeline.memaddr ++ MemCore.stageRequests s.memory.pipeline.rrd

/-- The instruction that the queue of the memory pipeline hands over. -/
def memIssues (s : OperandCore) (i : Inputs) : Bool :=
  s.memory.pipeline.issValid (s.memInputs i) && !s.memStuck1 i

theorem mem_stageRequests {st : MemStage} {r : MemRequest} :
    r ∈ MemCore.stageRequests st ↔ st.isValid = true ∧ st.uop.toMemRequest = r := by
  rw [MemCore.stageRequests]
  split_ifs with hvalid <;> simp [hvalid, eq_comm]

theorem pipeline_step : (s.step useEarlyOut i).memory.pipeline =
    s.memory.pipeline.step (s.memInputs i) := rfl

/-- An instruction of a stage was in the stage or in the one in front of it. -/
theorem mem_nextStage {p : MemPipeline} {j : MemPipeline.Inputs} {prev cur : MemStage}
    {r : MemRequest} (hr : r ∈ MemCore.stageRequests (p.nextStage j prev cur)) :
    j.flush = false ∧ if p.stuck1 j then r ∈ MemCore.stageRequests cur
      else r ∈ MemCore.stageRequests prev := by
  rw [MemPipeline.nextStage] at hr
  split_ifs at hr ⊢ with hstuck
  all_goals
    rw [mem_stageRequests, Bool.and_eq_true, Bool.not_eq_true'] at hr
    exact ⟨hr.1.2, mem_stageRequests.mpr ⟨hr.1.1, hr.2⟩⟩

theorem mem_memStages_step {r : MemRequest} (hr : r ∈ (s.step useEarlyOut i).memStages) :
    s.memory.regFlush = false ∧ (r ∈ s.memStages ∨
      s.memIssues i = true ∧ r = (s.memory.head (s.memFront i)).toMemRequest) := by
  have hin : ∀ st ∈ [s.memory.pipeline.mem2, s.memory.pipeline.mem1, s.memory.pipeline.memaddr,
      s.memory.pipeline.rrd], r ∈ MemCore.stageRequests st → r ∈ s.memStages := by
    intro st hst hmem
    simp only [List.mem_cons, List.not_mem_nil, or_false] at hst
    rcases hst with rfl | rfl | rfl | rfl <;> simp [memStages, hmem]
  have hmoves : ∀ prev cur, prev ∈ [s.memory.pipeline.mem2, s.memory.pipeline.mem1,
      s.memory.pipeline.memaddr, s.memory.pipeline.rrd] → cur ∈ [s.memory.pipeline.mem2,
      s.memory.pipeline.mem1, s.memory.pipeline.memaddr, s.memory.pipeline.rrd] →
      r ∈ MemCore.stageRequests (s.memory.pipeline.nextStage (s.memInputs i) prev cur) →
      s.memory.regFlush = false ∧ r ∈ s.memStages := by
    intro prev cur hprev hcur hmem
    obtain ⟨hclear, hwas⟩ := mem_nextStage hmem
    refine ⟨hclear, ?_⟩
    split_ifs at hwas
    · exact hin cur hcur hwas
    · exact hin prev hprev hwas
  rw [memStages, pipeline_step, List.mem_append, List.mem_append, List.mem_append] at hr
  simp only [MemPipeline.step] at hr
  rcases hr with ((h2 | h1) | haddr) | hrrd
  · rw [mem_stageRequests, MemPipeline.nextMem2] at h2
    split_ifs at h2
    · obtain ⟨hvalid, rfl⟩ := h2
      rw [Bool.and_eq_true, Bool.not_eq_true'] at hvalid
      exact ⟨hvalid.2, .inl (hin _ (by simp) (mem_stageRequests.mpr ⟨hvalid.1, rfl⟩))⟩
    · cases h2.1
    · obtain ⟨hvalid, rfl⟩ := h2
      rw [Bool.and_eq_true, Bool.not_eq_true'] at hvalid
      exact ⟨hvalid.2, .inl (hin _ (by simp) (mem_stageRequests.mpr ⟨hvalid.1, rfl⟩))⟩
  · exact (hmoves s.memory.pipeline.memaddr s.memory.pipeline.mem1 (by simp) (by simp) h1).imp_right
      .inl
  · exact (hmoves s.memory.pipeline.rrd s.memory.pipeline.memaddr (by simp) (by simp) haddr).imp_right
      .inl
  · obtain ⟨hclear, hwas⟩ := mem_nextStage hrrd
    refine ⟨hclear, ?_⟩
    split_ifs at hwas with hstuck
    · exact .inl (hin _ (by simp) hwas)
    · rw [mem_stageRequests] at hwas
      obtain ⟨hvalid, rfl⟩ := hwas
      refine .inr ⟨?_, rfl⟩
      simp only [MemPipeline.issStage, Bool.and_eq_true] at hvalid
      rw [memIssues, hvalid.1, memStuck1, eq_false_of_ne_true hstuck]
      rfl

/-! ## The invariant -/

/-- The instructions in the stages are executing, each in one stage of a pipe that can execute
it. The multiply and divide pipe has its part of the slots. -/
structure Pipes (s : OperandCore) : Prop where
  executing : ∀ u st x, s.slotAt u st = some x → x ∈ s.wakeup.executing
  apart : ∀ u st x v st' y, s.slotAt u st = some x → s.slotAt v st' = some y →
    x.robIdx = y.robIdx → u = v ∧ st = st'
  takes : ∀ u st x, s.slotAt u st = some x → u.queue.takes x.uop = true
  executes : ∀ u st x, s.slotAt u st = some x → u.executes x.uop.fuType = true
  rrdSlot : s.mulDiv.rrdValid = true → s.mulDiv.rrdSlot = s.mulDivRrd.mulDiv
  exeSlot : s.mulDiv.exeValid = true → s.mulDiv.exeSlot = s.mulDivExe.mulDiv
  wbSlot : s.mulDiv.wbValid = true → s.mulDiv.wbSlot = s.mulDivWb.mulDiv

/-- So are those in the stages of the memory pipeline, and those that have been renamed and not
issued are those in its queue. -/
structure MemSide (s : OperandCore) : Prop where
  waiting : s.regFlush = false → ∀ l, s.wakeup.Waits .mem l →
    s.memory.waiting.map MemRequest.robIdx =
      (l ++ part .mem s.wakeup.dispatch.pending).map IssueSlot.robIdx
  executing : ∀ r ∈ s.memory.wbUops.map MemUop.toMemRequest ++ s.memStages,
    ∃ e ∈ s.wakeup.executing, e.robIdx = r.robIdx ∧ IssueQueue.mem.takes e.uop = true
  rrd : s.memory.pipeline.rrd.isValid = true → s.memRrd ∈ s.wakeup.executing ∧
    s.memRrd.robIdx = s.memory.pipeline.rrd.uop.robIdx ∧
      IssueQueue.mem.takes s.memRrd.uop = true

structure Joined (s : OperandCore) : Prop where
  wakeup : s.wakeup.Inv
  memory : s.memory.LoadsInv
  core : s.memory.core = s.wakeup.dispatch.core
  regFlush : s.memory.regFlush = s.regFlush
  decoded : s.wakeup.dispatch.Carries MicroOp.IsDecoded
  inFlight : s.regFlush = false → ∀ e ∈ s.wakeup.executing, s.wakeup.InFlight e
  pipes : s.Pipes
  mem : s.MemSide

/-! ## What is reported -/

theorem mem_reports {c : Completion} (hc : c ∈ s.reports) : ∃ u x, s.slotAt u .wb = some x ∧
    c.unit = u ∧ c.robIdx = x.robIdx ∧ c.uop = x.uop := by
  rw [reports, List.mem_append] at hc
  rcases hc with hint | hmulDiv
  · obtain ⟨u, hu, hw⟩ := List.mem_filterMap.mp hint
    obtain ⟨w, hwb, rfl⟩ := Option.map_eq_some_iff.mp hw
    refine ⟨u, w.slot, ?_, rfl, rfl, rfl⟩
    rw [ExecUnit.mem_units_int] at hu
    cases u <;> simp [ExecUnit.queue] at hu <;> simp [slotAt, hwb]
  · split_ifs at hmulDiv with hvalid
    · obtain rfl := List.mem_singleton.mp hmulDiv
      exact ⟨.mulDiv, s.mulDivWb, by simp [slotAt, hvalid], rfl, rfl, rfl⟩
    · cases hmulDiv

theorem ne_mem_of_slotAt {u : ExecUnit} {st : PipeStage} {x : IssueSlot}
    (h : s.slotAt u st = some x) : u ≠ .mem := by
  rintro rfl
  cases h

theorem mem_memCompletion {c : Completion} (hc : c ∈ s.memory.memCompletion (s.memFront i)) :
    s.memory.regFlush = false ∧ s.memory.wb.isValid = true ∧
      c = s.memory.memReport (s.memFront i) := by
  rw [MemCore.memCompletion] at hc
  split_ifs at hc with hvalid
  · rw [Bool.and_eq_true, Bool.not_eq_true'] at hvalid
    exact ⟨hvalid.2, hvalid.1, List.mem_singleton.mp hc⟩
  · cases hc

namespace Joined

variable (h : s.Joined)

include h

theorem dispatch : s.wakeup.dispatch.Inv := h.wakeup.dispatch

theorem count_eq : s.memory.count = s.wakeup.dispatch.core.rob.ptr.count robDepth := by
  rw [MemCore.count, h.core]

/-- A number belongs to an instruction in flight. -/
theorem exists_of_number {n : Nat} (hold : s.memory.oldest ≤ n) (hlt : n < s.memory.next) :
    ∃ d, s.wakeup.dispatch.renamed[s.wakeup.dispatch.popped + (n - s.memory.oldest)]? = some d ∧
      d.robIdx = s.memory.idx n ∧ s.memory.info n = d.pushPort.info := by
  have hlength := h.dispatch.length
  rw [MemCore.next, h.count_eq] at hlt
  obtain ⟨d, hd⟩ : ∃ d, s.wakeup.dispatch.renamed[s.wakeup.dispatch.popped +
      (n - s.memory.oldest)]? = some d := ⟨_, List.getElem?_eq_getElem (by omega)⟩
  have hidx : d.robIdx = s.memory.idx n := by
    rw [MemCore.idx, h.core, h.dispatch.robIdx _ d hd,
      ← h.dispatch.entry_eq (Nat.le_add_right _ _), Nat.add_sub_cancel_left]
  refine ⟨d, hd, hidx, ?_⟩
  rw [MemCore.info, ← hidx, h.core]
  exact h.dispatch.rob _ d (Nat.le_add_right _ _) hd

/-- The entry of an instruction in flight. -/
theorem entry_of_inFlight {n : Nat} {d : DispatchSlot} (hn : s.wakeup.dispatch.popped ≤ n)
    (hd : s.wakeup.dispatch.renamed[n]? = some d) :
    ∃ j < s.memory.count, d.robIdx = s.memory.core.entry j ∧
      s.memory.core.rob.robInfo d.robIdx = d.pushPort.info := by
  have hlength := h.dispatch.length
  have hlt := lt_renamed hd
  refine ⟨n - s.wakeup.dispatch.popped, ?_, ?_, ?_⟩
  · rw [h.count_eq]
    omega
  · rw [h.core, h.dispatch.entry_eq hn]
    exact h.dispatch.robIdx n d hd
  · rw [h.core]
    exact h.dispatch.rob n d hn hd

/-- Slots with the same entry are the same slot. -/
theorem eq_of_robIdx (hclear : s.regFlush = false) {x y : IssueSlot}
    (hx : x ∈ s.wakeup.executing) (hy : y ∈ s.wakeup.executing) (heq : x.robIdx = y.robIdx) :
    x = y := by
  obtain ⟨n, d, hn, hd, rfl⟩ := h.inFlight hclear x hx
  exact InFlight.eq h.dispatch (h.inFlight hclear y hy) hn hd heq

/-- What is in another pipe is not in the memory pipeline. -/
theorem mem_apart (hclear : s.regFlush = false) {u : ExecUnit} {st : PipeStage} {x e : IssueSlot}
    (hx : s.slotAt u st = some x) (he : e ∈ s.wakeup.executing)
    (htakes : IssueQueue.mem.takes e.uop = true) : x.robIdx ≠ e.robIdx := by
  intro heq
  obtain rfl := h.eq_of_robIdx hclear (h.pipes.executing u st x hx) he heq
  have hexecutes := h.pipes.executes u st x hx
  have hlsu : x.uop.fuType = .lsu := by
    rw [IssueQueue.takes, Bool.and_eq_true] at htakes
    exact eq_of_beq htakes.1
  rw [hlsu] at hexecutes
  cases u with
  | int0 | int1 | int2 | mulDiv => cases hexecutes
  | mem => cases hx

/-- The reports are those of instructions in WB. -/
theorem wakeupLegal (hi : s.Legal useEarlyOut i) :
    s.wakeup.Legal (s.wakeupInputs useEarlyOut i) where
  decoded _ := by
    have hentries : (i.entries.map (Decoder.decode i.plv)).map some =
        (i.entries.map some).map (Option.map (Decoder.decode i.plv)) := by
      rw [List.map_map, List.map_map]
      rfl
    change RenameStage.Decoded ((i.entries.map _).map some)
    rw [hentries]
    exact Decoder.decoded _ (by simpa using hi.width)
  issued := by
    intro c hc
    rcases List.mem_append.mp hc with hmem | hreport
    · obtain ⟨-, hvalid, rfl⟩ := mem_memCompletion hmem
      obtain ⟨e, he, hidx, -⟩ := h.mem.executing s.memory.wb.uop.toMemRequest
        (List.mem_append_left _ (List.mem_map_of_mem (MemCore.mem_wbUops hvalid)))
      exact ⟨e, he, hidx⟩
    · obtain ⟨u, x, hx, -, hidx, -⟩ := mem_reports hreport
      exact ⟨x, h.pipes.executing u .wb x hx, hidx.symm⟩

omit h in
theorem push_of_regFlush (h : s.Joined) (hflush : s.regFlush = true) :
    s.wakeup.dispatch.issued (s.dispatchInputs useEarlyOut i) = [] := by
  have hleaving := leaving_of_invalid (i := s.dispatchInputs useEarlyOut i)
    (h.dispatch.stage.idle hflush).1
  rw [← pushPort_leaving, hleaving]
  rfl

theorem memoryLegal (hi : s.Legal useEarlyOut i) :
    s.memory.Legal (s.memoryInputs useEarlyOut i) where
  width := h.dispatch.length_issued_le
  ready k hk := by
    rw [h.core]
    exact h.dispatch.pushReady hk
  unit c hc := by
    obtain ⟨u, x, hx, hunit, -⟩ := mem_reports hc
    exact hunit ▸ ne_mem_of_slotAt hx
  notPushed c hc := by
    obtain ⟨u, x, hx, -, hidx, -⟩ := mem_reports hc
    change ROBFIFO.pushAt _ _ 0 (s.wakeup.dispatch.issued (s.dispatchInputs useEarlyOut i)) = none
    cases hclear : s.regFlush with
    | true =>
      rw [push_of_regFlush h hclear]
      simp [ROBFIFO.pushAt]
    | false =>
      obtain ⟨n, d, hn, hd, rfl⟩ := h.inFlight hclear x (h.pipes.executing u .wb x hx)
      obtain ⟨j, hj, hentry, -⟩ := h.entry_of_inFlight hn hd
      have hroom := h.dispatch.room (i := s.dispatchInputs useEarlyOut i)
      rw [h.count_eq] at hj
      have hpush : ROBFIFO.pushAt _ _ 0 (s.wakeup.dispatch.issued
          (s.dispatchInputs useEarlyOut i)) = _ :=
        ROBFIFO.pushAt_slot h.dispatch.range (o := j) (by omega) hroom
      rw [if_neg (by omega)] at hpush
      rw [hidx]
      change ROBFIFO.pushAt _ d.robIdx 0 _ = none
      rw [hentry, h.core]
      exact hpush
  executes c hc j hj hentry := by
    obtain ⟨u, x, hx, hunit, hidx, huop⟩ := mem_reports hc
    cases hclear : s.regFlush with
    | true =>
      have hflushed := h.memory.inStep.order.flushed (h.regFlush.trans hclear)
      rw [hflushed.empty] at hj
      cases hj
    | false =>
      obtain ⟨n, d, hn, hd, rfl⟩ := h.inFlight hclear x (h.pipes.executing u .wb x hx)
      obtain ⟨-, -, -, hinfo⟩ := h.entry_of_inFlight hn hd
      have hexecutes := h.pipes.executes u .wb _ hx
      rw [hunit, huop, hidx]
      exact ⟨(congrArg ROBEntryInfo.uop hinfo).symm,
        IssueQueue.executes_of_takes (h.pipes.takes u .wb _ hx), hexecutes⟩
  follows target htarget p hp := by
    rw [h.core] at htarget
    exact hi.follows target htarget p hp
  decoded p hp := by
    have huops := h.dispatch.uop_issued (i := s.dispatchInputs useEarlyOut i)
    have hmem : p.uop ∈ (s.wakeup.dispatch.issued (s.dispatchInputs useEarlyOut i)).map
      PushPort.uop := List.mem_map_of_mem hp
    rw [huops] at hmem
    split_ifs at hmem with hfire
    · obtain ⟨plv, entry, heq⟩ := h.decoded.packet (RenameStage.ports_valid hfire).1 p.uop
        (List.reduceOption_mem_iff.mp hmem)
      rw [heq]
      exact Decoder.decodes plv entry
    · cases hmem
  stale := hi.stale

/-! ## One cycle of the pipes -/

/-- What is in front of WB is not reported. -/
theorem not_reported (hclear : s.regFlush = false) {u : ExecUnit} {st : PipeStage} {x : IssueSlot}
    (hx : s.slotAt u st = some x) (hst : st ≠ .wb) :
    ∀ c ∈ (s.wakeupInputs useEarlyOut i).completions, c.robIdx ≠ x.robIdx := by
  intro c hc
  rcases List.mem_append.mp hc with hmem | hreport
  · obtain ⟨-, hvalid, rfl⟩ := mem_memCompletion hmem
    obtain ⟨e, he, hidx, htakes⟩ := h.mem.executing s.memory.wb.uop.toMemRequest
      (List.mem_append_left _ (List.mem_map_of_mem (MemCore.mem_wbUops hvalid)))
    exact fun heq => h.mem_apart hclear hx he htakes (heq.symm.trans hidx.symm)
  · obtain ⟨v, y, hy, -, hidx, -⟩ := mem_reports hreport
    intro heq
    exact hst (h.pipes.apart u st x v .wb y hx hy (by rw [← heq, hidx])).2

theorem issuedTo_inj (hclear : s.regFlush = false) {u v : ExecUnit} {x y : IssueSlot}
    (hu : s.rrdHeld useEarlyOut u = false) (hv : s.rrdHeld useEarlyOut v = false)
    (hx : s.issuedTo useEarlyOut i u = some x) (hy : s.issuedTo useEarlyOut i v = some y)
    (heq : x.robIdx = y.robIdx) : u = v := by
  have hqueue := h.wakeup.queue_of_issued hclear (mem_issued_of_issuedTo hu hx)
    (mem_issued_of_issuedTo hv hy) heq
  have hint : ∀ w z, w.queue = .int → s.issuedTo useEarlyOut i w = some z →
      ∃ k < IssueQueue.depth .int, IssueQueue.issGrant (IssueQueue.erase (s.wakeup.slots .int))
        (s.wakeup.issuable (s.wakeupInputs useEarlyOut i) .int) w = some k ∧
          IssueQueue.erase (s.wakeup.slots .int) k = some z := by
    intro w z hw hz
    have hz : s.wakeup.issSlot (s.wakeupInputs useEarlyOut i) w = some z := by
      cases w <;> simp [ExecUnit.queue] at hw <;> exact hz
    obtain ⟨k, hgrant, hslot⟩ := Option.bind_eq_some_iff.mp hz
    have hmem := IssueQueue.mem_grants_of_issGrant (ExecUnit.mem_units_int.mpr hw) hgrant
    exact ⟨k, (IssueQueue.valid_of_grants hmem).1, hgrant, hslot⟩
  cases hq : u.queue with
  | int =>
    obtain ⟨k, hk, hgrant, hslot⟩ := hint u x hq hx
    obtain ⟨k', hk', hgrant', hslot'⟩ := hint v y (hqueue ▸ hq) hy
    obtain rfl := h.wakeup.slot_inj hclear hk hk' hslot hslot' heq
    exact IssueQueue.issGrant_inj hq (hqueue ▸ hq) hgrant hgrant'
  | mulDiv | mem => cases u <;> cases v <;> simp_all [ExecUnit.queue]

theorem pipes_step : (s.step useEarlyOut i).Pipes where
  executing u st x hx := by
    obtain ⟨hclear, ⟨-, hmoves, hissued⟩ | ⟨st', hst, hold, -⟩⟩ := origin_of_slotAt hx
    · exact executing_issued hclear (mem_issued_of_issuedTo hmoves hissued)
    · exact executing_kept hclear (h.pipes.executing u st' x hold) (h.not_reported hclear hold hst)
  apart u st x v st' y hx hy heq := by
    obtain ⟨hclear, ⟨rfl, hmoves, hissued⟩ | ⟨st1, hst, hold, rfl⟩⟩ := origin_of_slotAt hx
    · obtain ⟨-, ⟨rfl, hmoves', hissued'⟩ | ⟨st2, -, hold', -⟩⟩ := origin_of_slotAt hy
      · exact ⟨h.issuedTo_inj hclear hmoves hmoves' hissued hissued' heq, rfl⟩
      · exact absurd heq.symm (h.wakeup.issued_apart_executing hclear
          (mem_issued_of_issuedTo hmoves hissued) (h.pipes.executing v st2 y hold'))
    · obtain ⟨-, ⟨rfl, hmoves', hissued'⟩ | ⟨st2, -, hold', rfl⟩⟩ := origin_of_slotAt hy
      · exact absurd heq (h.wakeup.issued_apart_executing hclear
          (mem_issued_of_issuedTo hmoves' hissued') (h.pipes.executing u st1 x hold))
      · obtain ⟨rfl, rfl⟩ := h.pipes.apart u st1 x v st2 y hold hold' heq
        exact ⟨rfl, rfl⟩
  takes u st x hx := by
    obtain ⟨hclear, ⟨-, hmoves, hissued⟩ | ⟨st', -, hold, -⟩⟩ := origin_of_slotAt hx
    · exact h.wakeup.takes_issued hclear (mem_issued_of_issuedTo hmoves hissued)
    · exact h.pipes.takes u st' x hold
  executes u st x hx := by
    obtain ⟨hclear, ⟨-, hmoves, hissued⟩ | ⟨st', -, hold, -⟩⟩ := origin_of_slotAt hx
    · have htakes := h.wakeup.takes_issued hclear (mem_issued_of_issuedTo hmoves hissued)
      refine ExecUnit.executes_of_accepts htakes ?_
      cases u with
      | int0 | int1 | int2 =>
        obtain ⟨k, hgrant, hslot⟩ := Option.bind_eq_some_iff.mp hissued
        exact IssueQueue.accepts_of_issGrant hgrant hslot
      | mulDiv | mem => rfl
    · exact h.pipes.executes u st' x hold
  rrdSlot hvalid := by
    change (s.mulDiv.step useEarlyOut (s.mulDivInputs i)).rrdValid = true at hvalid
    change (if s.mulDiv.rrdStuck useEarlyOut (s.mulDivInputs i) then s.mulDiv.rrdSlot
      else (s.headSlot .mulDiv).mulDiv) = IssueSlot.mulDiv (if s.mulDiv.rrdStuck useEarlyOut
        (s.mulDivInputs i) then s.mulDivRrd else s.headSlot .mulDiv)
    split_ifs with hstuck
    · apply h.pipes.rrdSlot
      simp only [MulDivPipe.step, MulDivPipe.issFires, hstuck, Bool.not_true, Bool.false_and,
        Bool.false_or, Bool.false_eq_true, if_false] at hvalid
      split_ifs at hvalid
      exact hvalid
    · rfl
  exeSlot hvalid := by
    change (s.mulDiv.step useEarlyOut (s.mulDivInputs i)).exeValid = true at hvalid
    change (if s.mulDiv.exeStuck useEarlyOut then s.mulDiv.exeSlot else s.mulDiv.rrdSlot) =
      IssueSlot.mulDiv (if s.mulDiv.exeStuck useEarlyOut then s.mulDivExe else s.mulDivRrd)
    split_ifs with hstuck
    · apply h.pipes.exeSlot
      simp only [MulDivPipe.step, MulDivPipe.rrdFires, MulDivPipe.rrdStuck, hstuck, Bool.or_true,
        Bool.not_true, Bool.false_and, Bool.false_or, Bool.false_eq_true, if_false] at hvalid
      split_ifs at hvalid
      exact hvalid
    · apply h.pipes.rrdSlot
      simp only [MulDivPipe.step, hstuck, Bool.not_false, Bool.true_or, if_true] at hvalid
      split_ifs at hvalid
      exact hvalid
  wbSlot hvalid := by
    change (s.mulDiv.exeFires useEarlyOut (s.mulDivInputs i) && s.mulDiv.exeValid) = true at hvalid
    exact h.pipes.exeSlot (Bool.and_eq_true _ _ ▸ hvalid).2

/-! ## One cycle of the memory pipeline -/

/-- The instruction in WB is not in a stage in front of it. -/
theorem wb_apart (hclear : s.regFlush = false) (hvalid : s.memory.wb.isValid = true)
    {r : MemRequest} (hr : r ∈ s.memStages) : s.memory.wb.uop.robIdx ≠ r.robIdx := by
  obtain ⟨done, hordered⟩ := h.memory.inStep.order.ordered (h.regFlush.trans hclear)
  have hpipe : r ∈ s.memory.pipeRequests := List.mem_append_left _ hr
  obtain ⟨hw, hwb⟩ := hordered.mem_passed (List.mem_append_right done (MemCore.mem_wbUops hvalid))
  obtain ⟨hn, hrequest⟩ := hordered.mem_requests (List.mem_append_right _ hpipe)
  have hlt : s.memory.wb.uop.number < r.number := by
    refine (List.pairwise_append.mp hordered.pairwise).2.2 _ ?_ _ (List.mem_map_of_mem hpipe)
    exact List.mem_map_of_mem (List.mem_append_right done (MemCore.mem_wbUops hvalid))
  have hidx : s.memory.wb.uop.robIdx = s.memory.idx s.memory.wb.uop.number :=
    congrArg MemRequest.robIdx hwb
  have hidx' : r.robIdx = s.memory.idx r.number := congrArg MemRequest.robIdx hrequest
  intro heq
  obtain ⟨⟨hold, hnext⟩, -⟩ := MemCore.mem_memNumbers.mp hw
  obtain ⟨⟨hold', hnext'⟩, -⟩ := MemCore.mem_memNumbers.mp hn
  have hsame := MemCore.idx_inj h.memory.inStep.order.core hold hnext hold' hnext'
    (hidx.symm.trans (heq.trans hidx'))
  omega

/-- What is in front of WB of the memory pipeline is not reported. -/
theorem mem_not_reported (hclear : s.regFlush = false) {r : MemRequest} (hr : r ∈ s.memStages)
    {e : IssueSlot} (he : e ∈ s.wakeup.executing) (hidx : e.robIdx = r.robIdx)
    (htakes : IssueQueue.mem.takes e.uop = true) :
    ∀ c ∈ (s.wakeupInputs useEarlyOut i).completions, c.robIdx ≠ e.robIdx := by
  intro c hc
  rcases List.mem_append.mp hc with hmem | hreport
  · obtain ⟨-, hvalid, rfl⟩ := mem_memCompletion hmem
    rw [hidx]
    exact h.wb_apart hclear hvalid hr
  · obtain ⟨v, y, hy, -, hyidx, -⟩ := mem_reports hreport
    rw [hyidx]
    exact h.mem_apart hclear hy he htakes

variable (useEarlyOut) in
/-- The queue and the memory pipeline agree on when the head leaves. -/
theorem memIssues_eq (hclear : s.regFlush = false) : s.memIssues i =
    IssueQueue.headIssues (s.wakeup.dispatch.queue .mem)
      (s.wakeup.issuable (s.wakeupInputs useEarlyOut i) .mem)
      (issueFire (s.wakeupInputs useEarlyOut i) .mem) := by
  have hmem : s.memIssues i = (IssueQueue.waken (s.wakeup.slots .mem) 0 &&
      (s.memory.regFlush || !s.memory.waiting.isEmpty) &&
        !s.memory.pipeline.storeBuffer.valid (storeBufferDepth - 5) && !s.memStuck1 i) := rfl
  have hqueue : IssueQueue.headIssues (s.wakeup.dispatch.queue .mem)
      (s.wakeup.issuable (s.wakeupInputs useEarlyOut i) .mem)
      (issueFire (s.wakeupInputs useEarlyOut i) .mem) =
        ((s.wakeup.dispatch.queue .mem 0).isSome && (IssueQueue.waken (s.wakeup.slots .mem) 0 &&
          !s.memory.pipeline.storeBuffer.valid (storeBufferDepth - 5)) && !s.memStuck1 i) := rfl
  rw [hmem, hqueue, h.wakeup.erased, IssueQueue.erase]
  cases hslot : s.wakeup.slots .mem 0 with
  | none => simp [IssueQueue.waken, hslot]
  | some slot =>
    obtain ⟨l, hl⟩ := h.wakeup.waits hclear .mem
    have hwaiting := h.mem.waiting hclear l hl
    have hhead := hl.holds.slot 0 (by decide)
    rw [h.wakeup.erased, IssueQueue.erase, hslot] at hhead
    have hne : s.memory.waiting.isEmpty = false := by
      rw [List.isEmpty_eq_false_iff]
      rintro hnil
      rw [hnil, List.map_nil, eq_comm, List.map_eq_nil_iff, List.append_eq_nil_iff] at hwaiting
      rw [hwaiting.1] at hhead
      cases hhead
    simp [hne]

variable (useEarlyOut) in
/-- The instruction that the memory pipeline takes is at the head of the queue. -/
theorem head_of_memIssues (hclear : s.regFlush = false) (hissues : s.memIssues i = true) :
    s.headSlot .mem ∈ s.wakeup.issued (s.wakeupInputs useEarlyOut i) .mem ∧
      (s.headSlot .mem).robIdx = (s.memory.head (s.memFront i)).robIdx := by
  obtain ⟨l, hl⟩ := h.wakeup.waits hclear .mem
  have hwaiting := h.mem.waiting hclear l hl
  have hhead := h.memIssues_eq useEarlyOut (i := i) hclear
  rw [hissues, eq_comm] at hhead
  have hread := hl.holds.slot 0 (by decide)
  rw [h.wakeup.erased] at hread hhead
  cases hslot : s.wakeup.slots .mem 0 with
  | none => simp [IssueQueue.headIssues, IssueQueue.erase, hslot] at hhead
  | some slot =>
    have hpayload : s.headSlot .mem = slot.payload := by rw [headSlot, hslot]; rfl
    rw [hpayload]
    rw [IssueQueue.erase, hslot, Option.map_some] at hread
    constructor
    · rw [leaves_iff h.wakeup hl]
      refine ⟨0, ?_, hread.symm⟩
      rw [h.wakeup.erased]
      exact (Bool.true_and _).trans hhead
    · cases l with
      | nil => cases hread
      | cons x l =>
        obtain rfl : slot.payload = x := Option.some.inj hread
        cases hw : s.memory.waiting with
        | nil => rw [hw] at hwaiting; cases hwaiting
        | cons r rest =>
          rw [hw, List.cons_append, List.map_cons, List.map_cons] at hwaiting
          rw [MemCore.head, hw]
          exact (List.cons.inj hwaiting).1.symm

/-- An instruction that goes on in the memory pipeline goes on executing. -/
theorem mem_executing_step (hclear : s.regFlush = false) {r : MemRequest}
    (hr : r ∈ s.memStages) : ∃ e ∈ (s.step useEarlyOut i).wakeup.executing,
      e.robIdx = r.robIdx ∧ IssueQueue.mem.takes e.uop = true := by
  obtain ⟨e, he, hidx, htakes⟩ := h.mem.executing r (List.mem_append_right _ hr)
  exact ⟨e, executing_kept hclear he (h.mem_not_reported hclear hr he hidx htakes), hidx, htakes⟩

omit h in
/-- The ports that enter the queue of the memory pipeline are the part of the group that the
queue takes. -/
theorem enters_part (ps : List PushPort) (m : Nat) (f : Nat → Nat) :
    ((List.range' m ps.length).filter fun n =>
      MemCore.entersQueue (ps.getD (n - m) {}).info.uop).map (fun n => f (n - m)) =
    (part .mem (ps.mapIdx fun k p =>
      { uop := p.uop, rename := p.rename, robIdx := f k })).map IssueSlot.robIdx := by
  induction ps generalizing m f with
  | nil => rfl
  | cons p ps ih =>
    have hlater := ih (m + 1) fun k => f (k + 1)
    have hfilter : (List.range' (m + 1) ps.length).filter (fun n =>
        MemCore.entersQueue ((p :: ps).getD (n - m) {}).info.uop) =
          (List.range' (m + 1) ps.length).filter (fun n =>
            MemCore.entersQueue (ps.getD (n - (m + 1)) {}).info.uop) := by
      apply List.filter_congr
      intro n hn
      obtain ⟨k, rfl⟩ := Nat.exists_eq_add_of_le (List.mem_range'_1.mp hn).1
      rw [show m + 1 + k - m = k + 1 by omega, show m + 1 + k - (m + 1) = k by omega,
        List.getD_cons_succ]
    have hmap : ((List.range' (m + 1) ps.length).filter (fun n =>
        MemCore.entersQueue (ps.getD (n - (m + 1)) {}).info.uop)).map (fun n => f (n - m)) =
          ((List.range' (m + 1) ps.length).filter (fun n =>
            MemCore.entersQueue (ps.getD (n - (m + 1)) {}).info.uop)).map
              (fun n => f (n - (m + 1) + 1)) := by
      apply List.map_congr_left
      intro n hn
      have hge := (List.mem_range'_1.mp (List.mem_filter.mp hn).1).1
      congr 1
      omega
    rw [List.length_cons, List.range'_succ, List.mapIdx_cons, List.filter_cons, hfilter,
      Nat.sub_self, List.getD_cons_zero]
    have henters : MemCore.entersQueue p.info.uop = IssueQueue.mem.takes p.uop := rfl
    rw [henters]
    split_ifs with htakes
    · rw [List.map_cons, hmap, hlater, Nat.sub_self, part, part, List.filter_cons, if_pos htakes]
      rfl
    · rw [hmap, hlater, part, part, List.filter_cons, if_neg htakes]

theorem renamedNumbers_eq : (s.memory.renamedNumbers (s.memoryInputs useEarlyOut i)).map (fun n =>
    Ring.slot robDepth s.memory.core.rob.ptr.push (n - s.memory.next)) =
      (part .mem (s.leaving useEarlyOut i)).map IssueSlot.robIdx := by
  rw [h.core]
  exact enters_part _ s.memory.next (Ring.slot robDepth s.wakeup.dispatch.core.rob.ptr.push)

theorem waiting_step (hclear : s.regFlush = false)
    (hflush : s.wakeup.dispatch.needFlush (s.dispatchInputs useEarlyOut i) = false)
    {l' : List IssueSlot} (hl' : (s.step useEarlyOut i).wakeup.Waits .mem l') :
    (s.step useEarlyOut i).memory.waiting.map MemRequest.robIdx =
      (l' ++ part .mem (s.step useEarlyOut i).wakeup.dispatch.pending).map IssueSlot.robIdx := by
  obtain ⟨l, hl⟩ := h.wakeup.waits hclear .mem
  have hholds := holds_step (i := s.wakeupInputs useEarlyOut i) h.wakeup hclear hl
  obtain rfl := hl'.holds.unique hholds
  have hpushes := pushes_pending (i := s.wakeupInputs useEarlyOut i) h.wakeup hflush .mem
  have hwaiting := h.mem.waiting hclear l hl
  have hissues : s.memory.issues (s.memoryInputs useEarlyOut i) = s.memIssues i := by
    change (s.memIssues i && !s.memory.regFlush) = _
    rw [h.regFlush, hclear, Bool.not_false, Bool.and_true]
  have hflush : s.memory.needFlush (s.memoryInputs useEarlyOut i) = false := by
    change s.memory.core.needFlush _ = false
    rw [h.core]
    exact hflush
  have hmem : (s.step useEarlyOut i).memory.waiting =
      (if s.memIssues i then s.memory.waiting.tail else s.memory.waiting) ++
        (s.memory.renamedNumbers (s.memoryInputs useEarlyOut i)).map fun n =>
          MemCore.request n (Ring.slot robDepth s.memory.core.rob.ptr.push (n - s.memory.next))
            (s.memory.renamed (s.memoryInputs useEarlyOut i) n) := by
    change MemCore.waiting (s.memory.step (s.memoryInputs useEarlyOut i)) = _
    rw [MemCore.step, hflush, hissues]
    rfl
  have hrequests : ∀ (ns : List Nat), (ns.map fun n => MemCore.request n
      (Ring.slot robDepth s.memory.core.rob.ptr.push (n - s.memory.next))
      (s.memory.renamed (s.memoryInputs useEarlyOut i) n)).map MemRequest.robIdx =
        ns.map fun n => Ring.slot robDepth s.memory.core.rob.ptr.push (n - s.memory.next) := by
    intro ns
    rw [List.map_map]
    rfl
  have hstays : (if s.memIssues i then s.memory.waiting.tail else s.memory.waiting).map
      MemRequest.robIdx = (Compressed.survivors (IssueQueue.leaves .mem
        (s.wakeup.dispatch.queue .mem) (s.wakeup.issuable (s.wakeupInputs useEarlyOut i) .mem)
        (issueFire (s.wakeupInputs useEarlyOut i) .mem)) l ++
          part .mem s.wakeup.dispatch.pending).map IssueSlot.robIdx := by
    have hleaves : IssueQueue.leaves .mem (s.wakeup.dispatch.queue .mem)
        (s.wakeup.issuable (s.wakeupInputs useEarlyOut i) .mem)
        (issueFire (s.wakeupInputs useEarlyOut i) .mem) = fun k => k == 0 && s.memIssues i := by
      rw [h.memIssues_eq useEarlyOut hclear]
      rfl
    rw [hleaves]
    cases hissue : s.memIssues i with
    | false =>
      rw [Compressed.survivors_of_none fun k => Bool.and_false _]
      exact hwaiting
    | true =>
      obtain ⟨hhead, -⟩ := h.head_of_memIssues useEarlyOut hclear hissue
      rw [Compressed.survivors_head, if_pos rfl, List.map_tail, hwaiting]
      cases l with
      | nil =>
        have hmem := mem_of_issued h.wakeup hl hhead
        cases hmem
      | cons x l => rfl
  rw [hmem, List.map_append, hrequests, h.renamedNumbers_eq, hstays, ← List.map_append,
    List.append_assoc]
  exact congrArg (List.map IssueSlot.robIdx)
    ((congrArg _ hpushes.symm).trans (List.append_assoc _ _ _).symm)

theorem core_step : (s.step useEarlyOut i).memory.core =
    (s.step useEarlyOut i).wakeup.dispatch.core := by
  change s.memory.core.step _ = s.wakeup.dispatch.core.step _
  rw [h.core]
  rfl

theorem needFlush_eq : s.memory.needFlush (s.memoryInputs useEarlyOut i) =
    s.wakeup.dispatch.needFlush (s.dispatchInputs useEarlyOut i) := by
  change s.memory.core.needFlush _ = _
  rw [h.core]
  rfl

theorem mem_step : (s.step useEarlyOut i).MemSide where
  waiting hflush l hl := by
    cases hclear : s.regFlush with
    | false => exact h.waiting_step hclear hflush hl
    | true =>
      -- behind a flush there is nothing
      have hrenamed : (s.step useEarlyOut i).wakeup.dispatch.renamed = [] :=
        h.wakeup.renamed_of_regFlush (i := s.wakeupInputs useEarlyOut i) hclear hflush
      have hnone := hl.inOrder
      rw [hrenamed, List.drop_nil] at hnone
      rw [List.sublist_nil.mp hnone, List.map_nil, List.map_eq_nil_iff]
      have hwaiting := (h.memory.inStep.order.flushed (h.regFlush.trans hclear)).waiting
      have hpush : (s.memoryInputs useEarlyOut i).push = [] := push_of_regFlush h hclear
      change MemCore.waiting (s.memory.step (s.memoryInputs useEarlyOut i)) = []
      simp [MemCore.step, hwaiting, MemCore.renamedNumbers, hpush]
  executing r hr := by
    rcases List.mem_append.mp hr with hwb | hstage
    · obtain ⟨u, hu, rfl⟩ := List.mem_map.mp hwb
      change u ∈ (s.memory.step (s.memoryInputs useEarlyOut i)).wbUops at hu
      rw [MemCore.wbUops_eq] at hu
      split_ifs at hu with hdeparts
      · obtain rfl := List.mem_singleton.mp hu
        simp only [MemCore.departs, Bool.and_eq_true, Bool.not_eq_true'] at hdeparts
        apply h.mem_executing_step (h.regFlush.symm.trans hdeparts.2)
        simp only [memStages, List.mem_append, mem_stageRequests]
        exact .inl (.inl (.inl ⟨hdeparts.1.1, rfl⟩))
      · cases hu
    · obtain ⟨hclear, hold | ⟨hissues, rfl⟩⟩ := mem_memStages_step hstage
      · exact h.mem_executing_step (h.regFlush.symm.trans hclear) hold
      · have hclear : s.regFlush = false := h.regFlush.symm.trans hclear
        obtain ⟨hmem, hidx⟩ := h.head_of_memIssues useEarlyOut hclear hissues
        exact ⟨_, executing_issued hclear hmem, hidx, h.wakeup.takes_issued hclear hmem⟩
  rrd hvalid := by
    have hrrd : (s.step useEarlyOut i).memory.pipeline.rrd = s.memory.pipeline.nextStage
      (s.memInputs i) (s.memory.pipeline.issStage (s.memInputs i)) s.memory.pipeline.rrd := rfl
    have hslot : (s.step useEarlyOut i).memRrd =
      if s.memStuck1 i then s.memRrd else s.headSlot .mem := rfl
    rw [hrrd, MemPipeline.nextStage] at hvalid ⊢
    rw [hslot]
    change (if s.memStuck1 i then _ else _ : MemStage).isValid = true at hvalid
    change _ ∧ _ = (if s.memStuck1 i then _ else _ : MemStage).uop.robIdx ∧ _
    split_ifs at hvalid ⊢ with hstuck
    · rw [Bool.and_eq_true, Bool.not_eq_true'] at hvalid
      have hclear : s.regFlush = false := h.regFlush.symm.trans hvalid.2
      obtain ⟨hexec, hidx, htakes⟩ := h.mem.rrd hvalid.1
      have hstage : s.memory.pipeline.rrd.uop.toMemRequest ∈ s.memStages :=
        List.mem_append_right _ (mem_stageRequests.mpr ⟨hvalid.1, rfl⟩)
      exact ⟨executing_kept hclear hexec (h.mem_not_reported hclear hstage hexec hidx htakes), hidx,
        htakes⟩
    · rw [MemPipeline.issStage] at hvalid ⊢
      simp only [Bool.and_eq_true, Bool.not_eq_true'] at hvalid
      have hclear : s.regFlush = false := h.regFlush.symm.trans hvalid.2
      have hissues : s.memIssues i = true := by
        rw [memIssues, hvalid.1.1, eq_false_of_ne_true hstuck]
        rfl
      obtain ⟨hmem, hidx⟩ := h.head_of_memIssues useEarlyOut hclear hissues
      exact ⟨executing_issued hclear hmem, hidx, h.wakeup.takes_issued hclear hmem⟩

theorem step (hi : s.Legal useEarlyOut i) : (s.step useEarlyOut i).Joined where
  wakeup := h.wakeup.step (h.wakeupLegal hi)
  memory := h.memory.step (h.memoryLegal hi)
  core := h.core_step
  regFlush := h.needFlush_eq
  decoded := by
    refine h.decoded.step h.dispatch ?_
    intro uop huop
    obtain ⟨entry, -, rfl⟩ := List.mem_map.mp huop
    exact ⟨_, entry, rfl⟩
  inFlight hflush := by
    cases hclear : s.regFlush with
    | false => exact h.wakeup.inFlight_step hclear (h.inFlight hclear) hflush
    | true =>
      have hempty : (s.step useEarlyOut i).wakeup.executing = [] := if_pos hclear
      simp [hempty]
  pipes := h.pipes_step
  mem := h.mem_step

omit h in
theorem of_init (h : s.Init) : s.Joined where
  wakeup := .of_init h.wakeup
  memory := .of_init h.memory
  core := h.core
  regFlush := h.memory.regFlush.trans h.wakeup.dispatch.rename.regFlush.symm
  decoded := .of_init h.wakeup.dispatch
  inFlight _ := by simp [h.wakeup.executing]
  pipes := by
    have hrrd : s.mulDiv.rrdValid = false := h.mulDiv.rrdValid
    have hexe : s.mulDiv.exeValid = false := h.mulDiv.exeValid
    have hwb : s.mulDiv.wbValid = false := h.mulDiv.wbValid
    have hnone : ∀ u st, s.slotAt u st = none := by
      intro u st
      cases u <;> cases st <;>
        simp [slotAt, h.exe, h.wb, hrrd, hexe, hwb, h.wakeup.regRead]
    refine ⟨?_, ?_, ?_, ?_, ?_, ?_, ?_⟩
    all_goals simp [hnone, hrrd, hexe, hwb]
  mem := by
    have hstages : s.memStages = [] := by
      simp [memStages, MemCore.stageRequests, h.memory.pipeline.rrd.1, h.memory.pipeline.memaddr.1,
        h.memory.pipeline.mem1.1, h.memory.pipeline.mem2.1]
    refine ⟨fun _ l hl => ?_, ?_, ?_⟩
    · have hnone := hl.inOrder
      rw [h.wakeup.dispatch.renamed, List.drop_nil] at hnone
      rw [List.sublist_nil.mp hnone, h.memory.waiting]
      rfl
    · simp [hstages, MemCore.wbUops, h.memory.wb]
    · simp [h.memory.pipeline.rrd.1]

end Joined

theorem joined_of_reachable (h : (machine useEarlyOut).Reachable s) : s.Joined :=
  Clocked.Machine.invariant (fun _ => Joined.of_init) (fun _ _ h => h.step) h

end OperandCore

end NopCore
