import NopCore.Core.MemCore

/-!
# The order of memory instructions

Rename sends the memory instructions to their queue in program order, and neither
the queue nor the pipeline lets one overtake another. WB reports them in this order,
and no other pipe reports one. So the reorder buffer has, from the oldest on, those
that have been reported and those that are still on their way.
-/

namespace NopCore

namespace MemCore

variable {t : MemCore} {i : Inputs} {done : List MemUop}

theorem Ordered.legal (h : t.Ordered done) (hcore : t.core.Inv) (hi : t.Legal i) :
    t.core.Legal (t.coreInputs i) :=
  coreLegal hcore (fun _ => ⟨done, h⟩) hi

/-- What leaves the reorder buffer is older than what WB has not reported. -/
theorem Ordered.stays (h : t.Ordered done) (hcore : t.core.Inv) {r : MemRequest}
    (hr : r ∈ t.wbUops.map MemUop.toMemRequest ++ t.pipeRequests) :
    t.oldest + t.popCount i ≤ r.number := by
  have hn : r.number ∈ t.memNumbers := by
    refine (h.mem_requests ?_).1
    rw [List.map_append, List.append_assoc]
    exact List.mem_append_right _ hr
  by_contra hpop
  have hcomplete := complete_of_popped (i := i) hcore (mem_memNumbers.mp hn).1.1 (by omega)
  rw [h.incomplete r hr] at hcomplete
  cases hcomplete

/-- Only WB reports a memory instruction. -/
theorem Ordered.mem_completions (hordered : t.Ordered done) (hcore : t.core.Inv)
    (hi : t.Legal i) {n : Nat} (hn : n ∈ t.memNumbers)
    {c : Completion} (hc : c ∈ (t.coreInputs i).completions) (hidx : c.robIdx = t.idx n) :
    c = t.memReport i ∧ t.wb.isValid = true ∧ t.wb.uop.number = n := by
  obtain ⟨⟨hold, hlt⟩, henters⟩ := mem_memNumbers.mp hn
  obtain hc | hc := List.mem_append.mp hc
  · rw [memCompletion] at hc
    split_ifs at hc with hvalid
    · rw [Bool.and_eq_true] at hvalid
      obtain ⟨hwb, hrequest⟩ :=
        hordered.mem_passed (List.mem_append_right _ (mem_wbUops hvalid.1))
      obtain ⟨⟨hold', hlt'⟩, -⟩ := mem_memNumbers.mp hwb
      have hrob : t.wb.uop.robIdx = t.idx t.wb.uop.number := congrArg MemRequest.robIdx hrequest
      obtain rfl := List.mem_singleton.mp hc
      exact ⟨rfl, hvalid.1, idx_inj hcore hold' hlt' hold hlt (hrob.symm.trans hidx)⟩
    · cases hc
  · obtain ⟨j, hj, -, hentry⟩ := slot_of_entry hold hlt
    obtain ⟨huop, -, hunit⟩ := hi.executes c hc j hj (hidx.trans hentry)
    have hlsu : c.uop.fuType = .lsu := by
      rw [huop, hidx]
      exact (executes_of_entersQueue henters).1
    have hother := hi.unit c hc
    rw [hlsu] at hunit
    cases hu : c.unit <;> simp_all [ExecUnit.executes]

theorem wbUops_eq : (t.step i).wbUops = if t.departs i then [t.pipeline.uop2] else [] := rfl

/-- What comes to WB has passed MEM2. -/
theorem passed_step : (t.step i).passed = t.passed ++ (t.step i).wbUops := by
  rw [wbUops_eq]
  simp only [step]
  split_ifs
  · rfl
  · rw [List.append_nil]

theorem mem_pipeRequests {u : MemUop} (hu : u ∈ (t.step i).wbUops) :
    u.toMemRequest ∈ t.pipeRequests := by
  rw [wbUops_eq] at hu
  split_ifs at hu with hdeparts
  · obtain rfl := List.mem_singleton.mp hu
    simp only [departs, Bool.and_eq_true] at hdeparts
    simp [pipeRequests, stageRequests, hdeparts.1.1, MemPipeline.uop2]
  · cases hu

/-- A memory instruction is renamed incomplete. -/
theorem complete_renamed (hcore : t.core.Inv) (hlegal : t.core.Legal (t.coreInputs i))
    (hflush : t.needFlush i = false) {n : Nat} (hn : n ∈ t.renamedNumbers i) :
    ((t.step i).state n).complete = false := by
  obtain ⟨hmem, henters⟩ := List.mem_filter.mp hn
  obtain ⟨hge, hlt⟩ := List.mem_range'_1.mp hmem
  obtain ⟨p, -, hinfo, old, hstate⟩ := state_renamed hcore hlegal hflush hge hlt
  rw [hstate]
  rw [hinfo] at henters
  exact (executes_of_entersQueue henters).2

/-! ## One cycle -/

section Cycle

variable (hordered : t.Ordered done) (hcore : t.core.Inv) (hi : t.Legal i)
  (hflush : t.needFlush i = false)

include hordered hcore hi hflush

/-- A memory instruction that WB does not report keeps its state. -/
theorem Ordered.state_kept {n : Nat} (hn : n ∈ t.memNumbers)
    (hstays : t.oldest + t.popCount i ≤ n) (hwb : ∀ u ∈ t.wbUops, u.number ≠ n) :
    (t.step i).state n = t.state n := by
  rw [state_step hcore (hordered.legal hcore hi) hflush hstays (mem_memNumbers.mp hn).1.2]
  cases hc : ROBFIFO.completionAt (t.idx n) (ROBFIFO.inPortOrder (t.coreInputs i).completions) with
  | none => rfl
  | some c =>
    obtain ⟨hmem, hidx⟩ := ROBFIFO.mem_of_completionAt hc
    obtain ⟨-, hvalid, hnumber⟩ := hordered.mem_completions hcore hi hn hmem hidx
    exact absurd hnumber (hwb t.wb.uop (by simp [wbUops, hvalid]))

variable (hflushed : t.regFlush = false)

include hflushed

/-- WB reports the instruction that it holds. -/
theorem Ordered.state_wb (hvalid : t.wb.isValid = true) :
    (t.step i).state t.wb.uop.number = (t.memReport i).state := by
  obtain ⟨hwb, hrequest⟩ := hordered.mem_passed (List.mem_append_right _ (mem_wbUops hvalid))
  have hreport : t.memReport i ∈ (t.coreInputs i).completions := by
    refine List.mem_append_left _ ?_
    simp [memCompletion, hvalid, hflushed]
  have hrob : (t.memReport i).robIdx = t.idx t.wb.uop.number := congrArg MemRequest.robIdx hrequest
  have hstays : t.oldest + t.popCount i ≤ t.wb.uop.number :=
    hordered.stays hcore (List.mem_append_left _ (List.mem_map_of_mem (mem_wbUops hvalid)))
  rw [state_step hcore (hordered.legal hcore hi) hflush hstays (mem_memNumbers.mp hwb).1.2]
  obtain ⟨c, hc⟩ := ROBFIFO.exists_completionAt hreport hrob
  obtain ⟨hmem, hidx⟩ := ROBFIFO.mem_of_completionAt hc
  rw [hc, (hordered.mem_completions hcore hi hwb hmem hidx).1]
  rfl

omit hordered hcore hi hflush in
/-- What leaves MEM2 comes to WB. -/
theorem wbUops_step : (t.step i).wbUops.map MemUop.toMemRequest =
    if t.pipeline.stuck2 (t.memInputs i) then [] else stageRequests t.pipeline.mem2 := by
  have hvalid : (t.step i).wb.isValid =
      (t.pipeline.mem2.isValid && !t.pipeline.stuck2 (t.memInputs i)) := by
    simp [step, nextWb, departs, hflushed]
  rw [wbUops, hvalid, stageRequests]
  cases t.pipeline.stuck2 (t.memInputs i) <;> cases t.pipeline.mem2.isValid <;> rfl

omit hordered hcore hi hflush in
/-- The head of the queue goes to the first stage. -/
theorem waiting_issues (h1 : t.pipeline.stuck1 (t.memInputs i) = false) :
    stageRequests (t.pipeline.issStage (t.memInputs i)) ++
      (if t.issues i then t.waiting.tail else t.waiting) = t.waiting := by
  have hissues : t.issues i = t.pipeline.issValid (t.memInputs i) := by
    simp [issues, h1, hflushed]
  have hvalid : (t.pipeline.issStage (t.memInputs i)).isValid =
      t.pipeline.issValid (t.memInputs i) := by
    simp [MemPipeline.issStage, memInputs, hflushed]
  rw [stageRequests, hvalid, hissues]
  cases hissue : t.pipeline.issValid (t.memInputs i) with
  | false => rfl
  | true =>
    have hwaiting : t.waiting ≠ [] := by
      simp only [MemPipeline.issValid, memInputs, hflushed, Bool.false_or, Bool.and_eq_true,
        Bool.not_eq_true', List.isEmpty_eq_false_iff] at hissue
      exact hissue.1.2
    obtain ⟨r, rest, hcons⟩ := List.exists_cons_of_ne_nil hwaiting
    simp [MemPipeline.issStage, memInputs, head, hcons]

omit hordered hcore hi in
/-- Requests move on in order. -/
theorem requests_step :
    (t.step i).wbUops.map MemUop.toMemRequest ++ (t.step i).pipeRequests =
      t.pipeRequests ++ (t.renamedNumbers i).map fun n =>
        request n (Ring.slot robDepth t.core.rob.ptr.push (n - t.next)) (t.renamed i n) := by
  have hkeep : (t.memInputs i).flush = false := hflushed
  have hwaiting : (t.step i).waiting =
      (if t.issues i then t.waiting.tail else t.waiting) ++ (t.renamedNumbers i).map fun n =>
        request n (Ring.slot robDepth t.core.rob.ptr.push (n - t.next)) (t.renamed i n) := by
    simp [step, hflush]
  rw [wbUops_step hflushed, pipeRequests, pipeRequests, hwaiting]
  cases h2 : t.pipeline.stuck2 (t.memInputs i) with
  | true =>
    have h1 : t.pipeline.stuck1 (t.memInputs i) = true := by simp [MemPipeline.stuck1, h2]
    simp [step, issues, MemPipeline.step, MemPipeline.nextMem2, MemPipeline.nextStage,
      stageRequests, h1, h2, hkeep]
  | false =>
    cases hr : t.pipeline.doRefetch (t.memInputs i) with
    | true =>
      have h1 : t.pipeline.stuck1 (t.memInputs i) = true := by simp [MemPipeline.stuck1, hr]
      simp [step, issues, MemPipeline.step, MemPipeline.nextMem2, MemPipeline.nextStage,
        stageRequests, h1, h2, hr, hkeep]
    | false =>
      have h1 : t.pipeline.stuck1 (t.memInputs i) = false := by simp [MemPipeline.stuck1, h2, hr]
      conv_rhs => rw [← waiting_issues hflushed h1]
      simp [step, MemPipeline.step, MemPipeline.nextMem2, MemPipeline.nextStage, h1, h2, hr, hkeep]

omit hi hflushed hordered in
/-- An instruction that stays has brought the same request. -/
theorem requestOf_step (hlegal : t.core.Legal (t.coreInputs i)) {n : Nat}
    (hn : t.oldest + t.popCount i ≤ n) (hlt : n < t.next) :
    (t.step i).requestOf n = t.requestOf n := by
  rw [requestOf, requestOf, idx_step hflush hn, info_step hcore hlegal hflush hn (by omega),
    if_pos hlt]

omit hi hflushed hordered in
theorem requestOf_renamed (hlegal : t.core.Legal (t.coreInputs i)) {n : Nat}
    (hn : n ∈ t.renamedNumbers i) : (t.step i).requestOf n =
      request n (Ring.slot robDepth t.core.rob.ptr.push (n - t.next)) (t.renamed i n) := by
  have hle := popCount_le_count (t := t) (i := i)
  obtain ⟨hge, hlt⟩ := List.mem_range'_1.mp (List.mem_filter.mp hn).1
  have hstays : t.oldest + t.popCount i ≤ n := by
    rw [next] at hge
    omega
  rw [requestOf, idx_renamed hcore hflush hge, info_step hcore hlegal hflush hstays hlt,
    if_neg (by omega)]

omit hflushed in
/-- The instructions that stay and those that are renamed have their requests on
the way. -/
theorem Ordered.requests_next : (((done ++ t.wbUops).filter fun u =>
      decide (t.oldest + t.popCount i ≤ u.number)).map MemUop.toMemRequest ++ t.pipeRequests) ++
    (t.renamedNumbers i).map (fun n =>
      request n (Ring.slot robDepth t.core.rob.ptr.push (n - t.next)) (t.renamed i n)) =
    (t.step i).memNumbers.map (t.step i).requestOf := by
  have hlegal := hordered.legal hcore hi
  rw [memNumbers_step hcore hlegal hflush, List.map_append]
  congr 1
  · have hpipe : t.pipeRequests.filter (fun r => decide (t.oldest + t.popCount i ≤ r.number)) =
        t.pipeRequests := by
      refine List.filter_eq_self.mpr fun r hr => ?_
      exact decide_eq_true (hordered.stays hcore (List.mem_append_right _ hr))
    have hfiltered := congrArg
      (List.filter fun r => decide (t.oldest + t.popCount i ≤ r.number)) hordered.requests
    rw [List.filter_append, hpipe, List.filter_map, List.filter_map] at hfiltered
    refine hfiltered.trans (List.map_congr_left fun n hn => ?_)
    obtain ⟨hmem, hstays⟩ := List.mem_filter.mp hn
    exact (requestOf_step hcore hflush hlegal (of_decide_eq_true hstays)
      (mem_memNumbers.mp hmem).1.2).symm
  · refine List.map_congr_left fun n hn => ?_
    exact (requestOf_renamed hcore hflush hlegal hn).symm

/-- What has been reported stays so, and WB adds its report. -/
theorem Ordered.reported_step {u : MemUop} (hu : u ∈ done ++ t.wbUops)
    (hstays : t.oldest + t.popCount i ≤ u.number) : (t.step i).Reported u := by
  obtain hdone | hwb := List.mem_append.mp hu
  · have hother : ∀ v ∈ t.wbUops, v.number ≠ u.number := by
      have hpair := (List.pairwise_append.mp hordered.pairwise).1
      rw [List.map_append, List.pairwise_append] at hpair
      intro v hv
      exact (hpair.2.2 _ (List.mem_map_of_mem hdone) _ (List.mem_map_of_mem hv)).ne'
    have hkept := hordered.state_kept hcore hi hflush (hordered.mem_passed hu).1 hstays hother
    have hreported := hordered.reported u hdone
    exact ⟨by rw [hkept, hreported.complete], by rw [hkept, hreported.except],
      by rw [hkept, hreported.uncached]⟩
  · rw [wbUops] at hwb
    split_ifs at hwb with hvalid
    · obtain rfl := List.mem_singleton.mp hwb
      have hstate := hordered.state_wb hcore hi hflush hflushed hvalid
      exact ⟨by rw [hstate]; rfl, by rw [hstate]; rfl, by rw [hstate]; rfl⟩
    · cases hwb

omit hflushed in
/-- What is in front of WB is not complete. -/
theorem Ordered.incomplete_step {r : MemRequest}
    (hr : r ∈ t.pipeRequests ++ (t.renamedNumbers i).map fun n =>
      request n (Ring.slot robDepth t.core.rob.ptr.push (n - t.next)) (t.renamed i n)) :
    ((t.step i).state r.number).complete = false := by
  obtain hpipe | hnew := List.mem_append.mp hr
  · have hother : ∀ v ∈ t.wbUops, v.number ≠ r.number := by
      intro v hv
      refine ((List.pairwise_append.mp hordered.pairwise).2.2 _ ?_ _
        (List.mem_map_of_mem hpipe)).ne
      exact List.mem_map_of_mem (List.mem_append_right _ hv)
    rw [hordered.state_kept hcore hi hflush
      (hordered.mem_requests (List.mem_append_right _ hpipe)).1
      (hordered.stays hcore (List.mem_append_right _ hpipe)) hother]
    exact hordered.incomplete r (List.mem_append_right _ hpipe)
  · obtain ⟨n, hn, rfl⟩ := List.mem_map.mp hnew
    exact complete_renamed hcore (hordered.legal hcore hi) hflush hn

omit hflushed in
/-- What arrives in WB is an instruction that stays in the reorder buffer. -/
theorem Ordered.arrives {u : MemUop} (hu : u ∈ (t.step i).wbUops) :
    t.oldest + t.popCount i ≤ u.number ∧ u.number < t.next ∧
      (t.step i).inFlight u.number = true := by
  have hpipe := mem_pipeRequests hu
  have hstays : t.oldest + t.popCount i ≤ u.number :=
    hordered.stays hcore (List.mem_append_right _ hpipe)
  have hlt : u.number < t.next :=
    (mem_memNumbers.mp (hordered.mem_requests (List.mem_append_right _ hpipe)).1).1.2
  refine ⟨hstays, hlt, ?_⟩
  rw [inFlight, oldest_step hflush, next_step hcore (hordered.legal hcore hi) hflush]
  simp only [Bool.and_eq_true, decide_eq_true_eq]
  omega

/-- The order of memory instructions is kept. -/
theorem Ordered.step : (t.step i).Ordered
    ((done ++ t.wbUops).filter fun u => decide (t.oldest + t.popCount i ≤ u.number)) := by
  have hlegal := hordered.legal hcore hi
  refine ⟨?_, ?_, ?_, ?_, ?_⟩
  · rw [List.map_append, List.append_assoc, requests_step hflush hflushed, ← List.append_assoc]
    exact hordered.requests_next hcore hi hflush
  · intro u hu
    obtain ⟨hmem, hstays⟩ := List.mem_filter.mp hu
    exact hordered.reported_step hcore hi hflush hflushed hmem (of_decide_eq_true hstays)
  · intro r hr
    rw [requests_step hflush hflushed] at hr
    exact hordered.incomplete_step hcore hi hflush hr
  · rw [passed_step, List.filter_append, ← hordered.passed, List.filter_filter]
    congr 1
    · refine List.filter_congr fun u hu => ?_
      have hlt := hordered.passed_lt u hu
      rw [inFlight, inFlight, oldest_step hflush, next_step hcore hlegal hflush, Bool.eq_iff_iff]
      simp only [Bool.and_eq_true, decide_eq_true_eq]
      omega
    · exact List.filter_eq_self.mpr fun u hu => (hordered.arrives hcore hi hflush hu).2.2
  · intro u hu
    rw [next_step hcore hlegal hflush]
    rw [passed_step] at hu
    obtain hold | hnew := List.mem_append.mp hu
    · exact (hordered.passed_lt u hold).trans_le (Nat.le_add_right _ _)
    · exact (hordered.arrives hcore hi hflush hnew).2.1.trans_le (Nat.le_add_right _ _)

end Cycle

/-! ## The other cycles -/

theorem Decoded.step (h : t.Decoded) (hcore : t.core.Inv) (hlegal : t.core.Legal (t.coreInputs i))
    (hi : t.Legal i) (hflush : t.needFlush i = false) : (t.step i).Decoded := by
  have hle := popCount_le_count (t := t) (i := i)
  have hnext := next_step hcore hlegal hflush
  have hold := oldest_step hflush
  constructor
  · intro n hn hlt
    rw [hold] at hn
    rw [hnext] at hlt
    rw [info_step hcore hlegal hflush hn hlt]
    split_ifs with hbefore
    · exact h.decodes n (by omega) hbefore
    · obtain ⟨p, hp, hinfo, -⟩ := state_renamed hcore hlegal hflush (by omega) hlt
      rw [hinfo]
      exact hi.decoded p hp
  · intro n hn hlt
    rw [hold] at hn
    rw [hnext] at hlt
    rw [info_step hcore hlegal hflush hn hlt]
    split_ifs with hbefore
    · intro hexcept
      rw [state_step hcore hlegal hflush hn hbefore]
      cases hc : ROBFIFO.completionAt (t.idx n)
          (ROBFIFO.inPortOrder (t.coreInputs i).completions) with
      | none => exact h.except n (by omega) hbefore hexcept
      | some c =>
        -- an instruction with an exception is not executed
        obtain ⟨hmem, hidx⟩ := ROBFIFO.mem_of_completionAt hc
        obtain ⟨j, hj, -, hentry⟩ := slot_of_entry (t := t) (n := n) (by omega) hbefore
        obtain ⟨huop, hneeds, -⟩ := hlegal.executes c hmem j hj (hidx.trans hentry)
        have hraises : c.uop.except.valid = true := by
          rw [huop, hidx]
          exact hexcept
        simp [MicroOp.needNotExecute, hraises] at hneeds
    · obtain ⟨p, hp, hinfo, old, hstate⟩ := state_renamed hcore hlegal hflush (by omega) hlt
      rw [hinfo, hstate]
      exact id

/-- The cycle behind a flush: the reorder buffer is empty, and the stages are about
to be. -/
structure Flushed (t : MemCore) : Prop where
  empty : t.count = 0
  waiting : t.waiting = []
  fsm : t.core.fsm = .stateBoot
  passed_lt : ∀ u ∈ t.passed, u.number < t.next

theorem Flushed.valid (h : t.Flushed) : (t.core.ports 0).valid = false := by
  rw [← Bool.not_eq_true]
  intro hvalid
  have hlt : 0 < t.count := (Ring.Pointers.popValid_iff (by decide)).mp hvalid
  rw [h.empty] at hlt
  exact Nat.lt_irrefl 0 hlt

theorem Flushed.fire (h : t.Flushed) :
    Commit.fire t.core.ports t.core.fsm (t.commitInputs i) 0 = false := by
  rw [Commit.fire, h.valid, Bool.false_and]

theorem Flushed.needFlush (h : t.Flushed) : t.needFlush i = false := by
  change (Commit.fire t.core.ports t.core.fsm (t.commitInputs i) 0 && _) = false
  rw [h.fire, Bool.false_and]

theorem Flushed.popCount (h : t.Flushed) : t.popCount i = 0 :=
  Commit.popCount_eq_zero h.fire

theorem Flushed.commitStore (h : t.Flushed) : t.commitStore i = false := by
  have hretires : Commit.retires t.core.ports t.core.fsm (t.commitInputs i) 0 = false := by
    rw [Commit.retires, h.fire, Bool.false_and]
  simp [MemCore.commitStore, Commit.commitStore, Commit.startUncached, h.valid, hretires]

theorem requests_flushed (hflushed : t.regFlush = true) (hwaiting : t.waiting = [])
    (hflush : t.needFlush i = false) : (t.step i).wbUops = [] ∧
      (t.step i).pipeRequests = (t.renamedNumbers i).map fun n =>
        request n (Ring.slot robDepth t.core.rob.ptr.push (n - t.next)) (t.renamed i n) := by
  refine ⟨by simp [wbUops_eq, departs, hflushed], ?_⟩
  have hkeep : (t.memInputs i).flush = true := hflushed
  have hstage : ∀ prev cur : MemStage,
      stageRequests (t.pipeline.nextStage (t.memInputs i) prev cur) = [] := by
    intro prev cur
    rw [MemPipeline.nextStage, hkeep]
    split_ifs <;> simp [stageRequests]
  have hmem2 : stageRequests (t.pipeline.nextMem2 (t.memInputs i)) = [] := by
    rw [MemPipeline.nextMem2, hkeep]
    split_ifs <;> simp [stageRequests]
  have hnext : (t.step i).waiting = _ := if_neg (by simp [hflush])
  rw [pipeRequests, hnext]
  change stageRequests (t.pipeline.nextMem2 (t.memInputs i)) ++
    stageRequests (t.pipeline.nextStage (t.memInputs i) _ _) ++
    stageRequests (t.pipeline.nextStage (t.memInputs i) _ _) ++
    stageRequests (t.pipeline.nextStage (t.memInputs i) _ _) ++ _ = _
  simp [hmem2, hstage, issues, hflushed, hwaiting]

/-- After the flush only renamed instructions are left. -/
theorem Flushed.step (h : t.Flushed) (hcore : t.core.Inv) (hlegal : t.core.Legal (t.coreInputs i))
    (hflushed : t.regFlush = true) : (t.step i).Ordered [] := by
  have hflush := h.needFlush (i := i)
  have hpop := h.popCount (i := i)
  have hnext := next_step hcore hlegal hflush
  have hold : t.oldest = t.next := by rw [next, h.empty, Nat.add_zero]
  have hempty : t.memNumbers = [] := by
    rw [memNumbers, h.empty]
    rfl
  have hpassed : (t.step i).passed = t.passed := by
    rw [passed_step, (requests_flushed hflushed h.waiting hflush).1, List.append_nil]
  obtain ⟨hwb, hpipe⟩ := requests_flushed hflushed h.waiting hflush
  refine ⟨?_, by simp, ?_, ?_, ?_⟩
  · rw [hwb, hpipe, memNumbers_step hcore hlegal hflush, hempty]
    refine List.map_congr_left fun n hn => ?_
    exact (requestOf_renamed hcore hflush hlegal hn).symm
  · intro r hr
    rw [hwb, hpipe] at hr
    obtain ⟨n, hn, rfl⟩ := List.mem_map.mp hr
    exact complete_renamed hcore hlegal hflush hn
  · rw [hpassed, hwb, List.append_nil, List.filter_eq_nil_iff]
    intro u hu
    have hlt := h.passed_lt u hu
    rw [inFlight, oldest_step hflush]
    simp only [Bool.and_eq_true, decide_eq_true_eq]
    omega
  · intro u hu
    rw [hpassed] at hu
    rw [hnext]
    exact (h.passed_lt u hu).trans_le (Nat.le_add_right _ _)

/-- The memory instructions in the reorder buffer that have passed MEM2. -/
def flying (t : MemCore) : List MemUop := t.passed.filter fun u => t.inFlight u.number

/-! ## Every cycle -/

/-- The reorder buffer and the memory pipeline agree on the instructions in flight. -/
structure InOrder (t : MemCore) : Prop where
  core : t.core.Inv
  decoded : t.Decoded
  ordered : t.regFlush = false → ∃ done, t.Ordered done
  flushed : t.regFlush = true → t.Flushed

theorem InOrder.legal (h : t.InOrder) (hi : t.Legal i) : t.core.Legal (t.coreInputs i) :=
  coreLegal h.core h.ordered hi

theorem InOrder.of_init (h : Init t) : t.InOrder := by
  have hcount : t.count = 0 := by
    rw [count, h.core.1]
    rfl
  have hpipe : t.pipeRequests = [] := by
    simp [pipeRequests, stageRequests, h.waiting, h.pipeline.rrd.1, h.pipeline.memaddr.1,
      h.pipeline.mem1.1, h.pipeline.mem2.1]
  have hwb : t.wbUops = [] := by simp [wbUops, h.wb]
  refine ⟨CommitCore.Inv.init h.core, ⟨?_, ?_⟩, fun _ => ⟨[], ?_⟩, ?_⟩
  · intro n hn hlt
    rw [next] at hlt
    omega
  · intro n hn hlt
    rw [next] at hlt
    omega
  · have hempty : t.memNumbers = [] := by
      rw [memNumbers, hcount]
      rfl
    exact ⟨by simp [hpipe, hwb, hempty], by simp, by simp [hpipe, hwb], by simp [h.passed, hwb],
      by simp [h.passed]⟩
  · intro hflushed
    rw [h.regFlush] at hflushed
    cases hflushed

/-- A flush empties the reorder buffer. -/
theorem InOrder.flush (h : t.InOrder) (hi : t.Legal i) (hflush : t.needFlush i = true) :
    (t.step i).Flushed := by
  have hcount := count_step h.core (h.legal hi)
  rw [hflush, if_pos rfl] at hcount
  have hnext : (t.step i).next = t.next + i.push.length := by
    rw [next, hcount]
    exact if_pos hflush
  have hnow : t.regFlush = false := by
    by_contra hflushed
    rw [(h.flushed (Bool.of_not_eq_false hflushed)).needFlush] at hflush
    cases hflush
  obtain ⟨done, hordered⟩ := h.ordered hnow
  refine ⟨hcount, if_pos hflush, ?_, ?_⟩
  · have hfire : Commit.fire t.core.ports t.core.fsm (t.commitInputs i) 0 = true :=
      (Bool.and_eq_true_iff.mp hflush).1
    exact Commit.nextFsm_of_fire hfire
  · intro u hu
    rw [hnext]
    rw [passed_step] at hu
    obtain hold | hnew := List.mem_append.mp hu
    · exact (hordered.passed_lt u hold).trans_le (Nat.le_add_right _ _)
    · have hpipe := List.mem_append_right ((done ++ t.wbUops).map MemUop.toMemRequest)
        (mem_pipeRequests hnew)
      have hlt := (mem_memNumbers.mp (hordered.mem_requests hpipe).1).1.2
      exact hlt.trans_le (Nat.le_add_right _ _)

theorem InOrder.step (h : t.InOrder) (hi : t.Legal i) : (t.step i).InOrder := by
  have hlegal := h.legal hi
  have hcore : (t.step i).core.Inv := h.core.step hlegal
  cases hflush : t.needFlush i with
  | true =>
    have hflushed := h.flush hi hflush
    have hregFlush : (t.step i).regFlush = true := hflush
    refine ⟨hcore, ⟨?_, ?_⟩, ?_, fun _ => hflushed⟩
    · intro n hn hlt
      rw [next, hflushed.empty] at hlt
      omega
    · intro n hn hlt
      rw [next, hflushed.empty] at hlt
      omega
    · intro hno
      rw [hregFlush] at hno
      cases hno
  | false =>
    have hregFlush : (t.step i).regFlush = false := hflush
    refine ⟨hcore, h.decoded.step h.core hlegal hi hflush, fun _ => ?_, ?_⟩
    · cases hnow : t.regFlush with
      | true => exact ⟨_, (h.flushed hnow).step h.core hlegal hnow⟩
      | false =>
        obtain ⟨done, hordered⟩ := h.ordered hnow
        exact ⟨_, hordered.step h.core hi hflush hnow⟩
    · intro hno
      rw [hregFlush] at hno
      cases hno

end MemCore

end NopCore
