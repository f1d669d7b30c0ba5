import NopCore.Core.StoreCommit
import NopCore.Mem.StoreEffects

/-!
# Cache maintenance

A cache operation of the data cache writes back and invalidates its set in MEM2, ahead
of its retirement and whatever store data is still on its way: commit retires an older
store at any time, and the store data issues behind the operation. If none is on its way
to a line when the operation leaves MEM2, then memory has the line. Until the operation
has retired only older stores may retire, so nothing is stored to the line, and no
refill makes the line dirty again.
-/

namespace NopCore

/-- The slots that are taken, from the oldest on. -/
def StoreBuffer.slots (q : StoreBuffer) : List StoreBufferSlot :=
  ((List.range storeBufferDepth).filter q.valid).map q.slot

namespace MemPipeline

/-- The accesses that have not left MEM2 as store data: those that travel through the
stages, and those in the store buffer. -/
def pending (s : MemPipeline) : List StoreBufferSlot := s.travelling ++ s.storeBuffer.slots

instance (s : MemPipeline) (l : LineAddr) : Decidable (s.Unsent l) :=
  inferInstanceAs (Decidable (_ ∧ _))

theorem retired_of_travelling {s : MemPipeline} {e : StoreBufferSlot} (h : e ∈ s.travelling) :
    e.retired = false := by
  have hcarried : ∀ std, e ∈ carried std → e.retired = false := by
    intro std he
    cases std with
    | none => cases he
    | some e' =>
      rw [carried_some, List.mem_singleton] at he
      rw [he]
      rfl
  simp only [travelling, List.mem_append] at h
  obtain ((h | h) | h) | h := h
  all_goals exact hcarried _ h

/-- No store to the line is pending or still to be sent. -/
def clearOf (s : MemPipeline) (l : LineAddr) : Bool :=
  s.pending.all (fun e => !e.storesTo l) && !decide (s.Unsent l)

end MemPipeline

/-- The core beside the history of a line: the memory at reset, the stores that have
taken effect, and the cache operations for the line that have left MEM2 when no store to
the line was on its way. -/
structure LineTrace where
  core : MemCore := {}
  line : LineAddr := ⟨0, 0⟩
  initial : WordAddr → BWord := fun _ _ => 0
  performed : List (Lanes.Write WordAddr (Fin 4) (BitVec 8)) := []
  cleaned : List Nat := []

namespace LineTrace

open MemCore (Inputs)

variable (t : LineTrace) (i : Inputs)

/-- A cache operation for the line leaves MEM2, and no store to it is on its way. -/
def cleans : Bool :=
  t.core.departs i && t.core.pipeline.uop2.cleans t.line && t.core.pipeline.clearOf t.line

def step : LineTrace where
  core := t.core.step i
  line := t.line
  initial := t.initial
  performed := t.performed ++ t.core.pipeline.performs (t.core.memInputs i)
  cleaned := if t.cleans i then t.cleaned ++ [t.core.pipeline.uop2.number] else t.cleaned

structure Init (t : LineTrace) : Prop where
  core : t.core.Init
  initial : t.initial = t.core.pipeline.memory.content
  performed : t.performed = []
  cleaned : t.cleaned = []

def machine : Clocked.Machine LineTrace Inputs where
  init := Init
  legal := fun t i => t.core.Legal i
  step := step

/-- No StoreTag operation acts on a valid line, and the line is not fetched while an
uncached store to it is still to be sent. -/
structure Careful (t : LineTrace) (_ : Inputs) : Prop where
  storeTag : t.core.pipeline.KeepsTags
  order : MemPipeline.Coherent.InOrder t.core.pipeline t.line

/-- The words of the line with the stores that have taken effect. -/
def image : BitVec 4 → BWord := fun k => Lanes.writes t.initial t.performed (t.line.word k)

/-- The accesses older than an instruction that have retired, from the oldest on. -/
def olderCommitted (n : Nat) : List StoreBufferSlot :=
  (t.core.log.program.take t.core.log.retired).filter fun e => decide (e.number < n)

/-- The instruction leaves the reorder buffer. -/
def leaves (n : Nat) : Prop := t.core.oldest ≤ n ∧ n < t.core.oldest + t.core.popCount i

/-- Memory has the bytes of every older store to the line that has retired, and no older
store to the line is left in the store buffer or in the stages. -/
structure Maintained (t : LineTrace) (n : Nat) : Prop where
  memory : ∀ k, t.core.pipeline.memory.content (t.line.word k) =
    Lanes.writes t.initial (storeWrites (t.olderCommitted n)) (t.line.word k)
  pending : ∀ e ∈ t.core.pipeline.pending, e.number < n → e.storesTo t.line = false

variable {t i}

end LineTrace

/-! ## What is pending -/

namespace AccessLog

variable {log : AccessLog} {s : MemPipeline} {gone entries : List StoreBufferSlot} {marked : Nat}

theorem Follows.drop_left (h : Follows log s gone entries marked) :
    log.program.drop log.left = s.travelling ++ entries := by
  rw [h.program, h.left, List.append_assoc, List.drop_left]

theorem Follows.take_left (h : Follows log s gone entries marked) :
    log.program.take log.left = gone := by
  rw [h.program, h.left, List.append_assoc, List.take_left]

theorem Follows.left_le (h : Follows log s gone entries marked) : log.left ≤ log.retired := by
  rw [h.left, h.retired]
  omega

/-- The log has the pending accesses, without their marks. -/
theorem Follows.mem_pending (h : Follows log s gone entries marked) {e : StoreBufferSlot} :
    e.mark false ∈ log.program.drop log.left ↔ ∃ b, e.mark b ∈ s.pending := by
  have hslots : ∀ j < storeBufferDepth, s.storeBuffer.valid j = true ↔ j < entries.length := by
    intro j hj
    rw [h.buffer.valid j hj, decide_eq_true_eq]
  rw [h.drop_left, List.mem_append]
  simp only [MemPipeline.pending, List.mem_append, StoreBuffer.slots, List.mem_map,
    List.mem_filter, List.mem_range]
  constructor
  · rintro (htravels | hentry)
    · exact ⟨false, .inl htravels⟩
    · obtain ⟨j, hj, hslot⟩ := List.mem_iff_getElem.mp hentry
      have hdepth := h.buffer.length_le
      refine ⟨decide (j < marked), .inr ⟨j, ⟨by omega, (hslots j (by omega)).mpr hj⟩, ?_⟩⟩
      rw [h.buffer.slot j hj, hslot, StoreBufferSlot.mark_mark]
  · rintro ⟨b, htravels | ⟨j, ⟨hj, hvalid⟩, hslot⟩⟩
    · refine .inl ?_
      have hunmarked := MemPipeline.retired_of_travelling htravels
      rw [StoreBufferSlot.retired_mark] at hunmarked
      rwa [← hunmarked]
    · have hlt := (hslots j hj).mp hvalid
      refine .inr ?_
      rw [h.buffer.slot j hlt] at hslot
      have hentry : entries[j] = e.mark false := by
        rw [← StoreBufferSlot.mark_mark e b false, ← hslot, StoreBufferSlot.mark_mark,
          ← h.unmarked _ (List.getElem_mem hlt), StoreBufferSlot.mark_retired]
      exact hentry ▸ List.getElem_mem hlt

end AccessLog

namespace MemCore

variable {t : MemCore} {i : Inputs}

/-! ## MEM2 has the youngest -/

section Youngest

variable (h : t.InStep) (hflushed : t.regFlush = false) (hvalid : t.pipeline.mem2.isValid = true)

include h hflushed hvalid

/-- What has passed MEM2 is older than what is there. -/
theorem InStep.tracks_mem2 : ∃ done, t.Tracks done ∧ t.oldest ≤ t.pipeline.uop2.number ∧
    ∀ u ∈ done ++ t.wbUops, u.number < t.pipeline.uop2.number := by
  obtain ⟨done, htracks⟩ := h.tracks hflushed
  have hmem2 : t.pipeline.uop2.toMemRequest ∈ t.pipeRequests := by
    simp [pipeRequests, stageRequests, hvalid, MemPipeline.uop2]
  have hnumber := (htracks.ordered.mem_requests (List.mem_append_right _ hmem2)).1
  refine ⟨done, htracks, (mem_memNumbers.mp hnumber).1.1, fun u hu => ?_⟩
  exact (List.pairwise_append.mp htracks.ordered.pairwise).2.2 _ (List.mem_map_of_mem hu) _
    (List.mem_map_of_mem hmem2)

theorem InStep.passed_lt_mem2 {u : MemUop} (hu : u ∈ t.passed) :
    u.number < t.pipeline.uop2.number := by
  obtain ⟨done, htracks, hold, hlt⟩ := h.tracks_mem2 hflushed hvalid
  cases hflight : t.inFlight u.number with
  | true =>
    have hmem : u ∈ t.passed.filter fun u => t.inFlight u.number := List.mem_filter.mpr ⟨hu, hflight⟩
    rw [htracks.ordered.passed] at hmem
    exact hlt u hmem
  | false =>
    have hnext := htracks.ordered.passed_lt u hu
    rw [inFlight, Bool.and_eq_false_iff, decide_eq_false_iff_not, decide_eq_false_iff_not]
      at hflight
    omega

/-- Every access in the log is older than what MEM2 has. -/
theorem InStep.program_lt_mem2 {e : StoreBufferSlot} (he : e ∈ t.log.program) :
    e.number < t.pipeline.uop2.number := by
  obtain ⟨done, htracks, hold, hlt⟩ := h.tracks_mem2 hflushed hvalid
  rw [← List.take_append_drop t.log.retired t.log.program, List.mem_append] at he
  obtain hretired | hwaits := he
  · have hcommitted : e.number ∈ t.committed := by
      rw [h.committed]
      exact List.mem_map_of_mem hretired
    obtain hbefore | ⟨heq, hfsm⟩ := h.settled.before _ hcommitted
    · omega
    · obtain ⟨u, rest, rfl, hnumber, -⟩ := htracks.executing hfsm
      have hhead := hlt u (by simp)
      omega
  · rw [htracks.unretired] at hwaits
    obtain ⟨u, hu, rfl⟩ := List.mem_map.mp hwaits
    exact hlt u (List.mem_filter.mp hu).1

end Youngest

/-- What has retired is not younger than the head. -/
theorem InStep.retired_le_oldest (h : t.InStep) {e : StoreBufferSlot}
    (he : e ∈ t.log.program.take t.log.retired) : e.number ≤ t.oldest := by
  have hcommitted : e.number ∈ t.committed := by
    rw [h.committed]
    exact List.mem_map_of_mem he
  obtain hbefore | ⟨heq, -⟩ := h.settled.before _ hcommitted
  · exact hbefore.le
  · exact heq.le

/-- The store data in MEM2 is pending, and it is not younger than the head. -/
theorem InStep.std_pending (h : t.InStep) {e : StoreBufferSlot}
    (he : e ∈ MemPipeline.carried t.pipeline.mem2.std) :
    e ∈ t.log.program.drop t.log.left ∧ e.number ≤ t.oldest := by
  obtain ⟨gone, entries, marked, hfollows⟩ := h.log
  have htravels : e ∈ t.pipeline.travelling := by simp [MemPipeline.travelling, he]
  refine ⟨?_, ?_⟩
  · rw [hfollows.drop_left]
    exact List.mem_append_left _ htravels
  · obtain hbefore | ⟨heq, -⟩ := h.settled.before _ (h.travelling htravels)
    · exact hbefore.le
    · exact heq.le

/-- What enters the store buffer is the access of MEM2. -/
theorem mem_push (hflushed : t.regFlush = false) {e : StoreBufferSlot}
    (he : e ∈ (t.pipeline.push (t.memInputs i)).toList) : t.pipeline.mem2.isValid = true ∧
      t.pipeline.uop2.isAccess = true ∧ e.number = t.pipeline.uop2.number := by
  rw [push_eq hflushed] at he
  obtain ⟨u, hu, rfl⟩ := List.mem_map.mp he
  obtain ⟨hwb, haccess⟩ := List.mem_filter.mp hu
  rw [wbUops_eq] at hwb
  split_ifs at hwb with hdeparts
  · obtain rfl := List.mem_singleton.mp hwb
    rw [departs, Bool.and_eq_true, Bool.and_eq_true] at hdeparts
    exact ⟨hdeparts.1.1, haccess, rfl⟩
  · cases hwb

theorem program_step (hflushed : t.regFlush = false) : (t.step i).log.program =
    t.log.program ++ (t.pipeline.push (t.memInputs i)).toList := by
  change ite (t.regFlush = true) _ _ = _
  rw [if_neg (by simp [hflushed])]

/-- What is pending after a cycle was pending before, or enters in it. -/
theorem mem_pending_step (hflushed : t.regFlush = false) {e : StoreBufferSlot}
    (he : e ∈ (t.step i).log.program.drop (t.step i).log.left) :
    e ∈ t.log.program.drop t.log.left ∨ e ∈ (t.pipeline.push (t.memInputs i)).toList := by
  have hleft : (t.step i).log.left = t.log.left + (t.pipeline.leaves (t.memInputs i)).length := rfl
  rw [program_step hflushed, hleft, ← List.drop_drop] at he
  have hmem := List.mem_of_mem_drop he
  rw [List.drop_append] at hmem
  exact (List.mem_append.mp hmem).imp_right List.mem_of_mem_drop

end MemCore

namespace LineTrace

open MemCore (Inputs)

variable {t : LineTrace} {i : Inputs} {n : Nat}

theorem image_step : (t.step i).image =
    t.core.pipeline.imageNext (t.core.memInputs i) t.line t.image := by
  funext k
  rw [image, step, Lanes.writes_append, Lanes.writes_apply]
  rfl

/-- A cache operation that has found the line clear, while it waits for retirement:
memory has the line, and no store to it that is not younger is on its way. -/
structure Kept (t : LineTrace) (n : Nat) : Prop where
  passed : ∃ u ∈ t.core.passed, u.number = n
  content : ∀ k, t.core.pipeline.memory.content (t.line.word k) = t.image k
  unsent : ¬ t.core.pipeline.Unsent t.line
  pending : ∀ e ∈ t.core.log.program.drop t.core.log.left, e.number ≤ n →
    e.storesTo t.line = false
  other : ∀ e ∈ t.core.log.program, e.number ≠ n

/-- The invariant of a run. -/
structure Inv (t : LineTrace) : Prop where
  inStep : t.core.InStep
  sound : t.core.pipeline.Sound
  swept : t.core.pipeline.Swept
  coherent : t.core.pipeline.Coherent t.line t.image
  tookEffect : t.core.pipeline.TookEffect t.line (t.core.log.program.take t.core.log.left)
    (fun k => t.initial (t.line.word k)) t.image
  kept : ∀ n ∈ t.cleaned, t.core.oldest ≤ n → t.Kept n

/-- After a flush no operation waits that has passed MEM2. -/
theorem Kept.not_flushed (h : t.Kept n) (hin : t.core.InStep) (hold : t.core.oldest ≤ n) :
    t.core.regFlush = false := by
  by_contra hflushed
  have hempty := hin.order.flushed (Bool.of_not_eq_false hflushed)
  obtain ⟨u, hu, rfl⟩ := h.passed
  have hlt := hempty.passed_lt u hu
  rw [MemCore.next, hempty.empty] at hlt
  omega

/-- The store data in MEM2 is not for the line. -/
theorem Kept.std (h : t.Kept n) (hin : t.core.InStep) (hold : t.core.oldest ≤ n) :
    ∀ e ∈ MemPipeline.carried t.core.pipeline.mem2.std, e.storesTo t.line = false := by
  intro e he
  obtain ⟨hmem, hle⟩ := hin.std_pending he
  exact h.pending e hmem (hle.trans hold)

theorem Kept.step (h : t.Kept n) (hinv : t.Inv) (hold : t.core.oldest ≤ n) :
    (t.step i).Kept n := by
  have hin := hinv.inStep
  have hflushed := h.not_flushed hin hold
  have hstd := h.std hin hold
  have hpush : ∀ e ∈ (t.core.pipeline.push (t.core.memInputs i)).toList, n < e.number := by
    intro e he
    obtain ⟨hvalid, -, hnumber⟩ := MemCore.mem_push hflushed he
    obtain ⟨u, hu, rfl⟩ := h.passed
    rw [hnumber]
    exact hin.passed_lt_mem2 hflushed hvalid hu
  refine ⟨?_, ?_, MemPipeline.not_unsent_step hstd h.unsent, ?_, ?_⟩
  · obtain ⟨u, hu, hnumber⟩ := h.passed
    refine ⟨u, ?_, hnumber⟩
    change u ∈ (t.core.step i).passed
    rw [MemCore.passed_step]
    exact List.mem_append_left _ hu
  · intro k
    rw [image_step, MemPipeline.imageNext_of_not_storesTo hstd h.unsent]
    exact MemPipeline.content_kept hinv.coherent hinv.sound h.unsent h.content k
  · intro e he hle
    obtain hbefore | hnew := MemCore.mem_pending_step hflushed he
    · exact h.pending e hbefore hle
    · have hlt := hpush e hnew
      omega
  · intro e he
    change e ∈ (t.core.step i).log.program at he
    rw [MemCore.program_step hflushed] at he
    obtain hbefore | hnew := List.mem_append.mp he
    · exact h.other e hbefore
    · exact (hpush e hnew).ne'

/-- No access that the log still has on its way stores to a line that is clear. -/
theorem pending_of_clearOf (hin : t.core.InStep)
    (hclear : t.core.pipeline.clearOf t.line = true) :
    ∀ e ∈ t.core.log.program.drop t.core.log.left, e.storesTo t.line = false := by
  intro e he
  obtain ⟨gone, entries, marked, hfollows⟩ := hin.log
  have hunmarked : e.mark false = e := by
    rw [hfollows.drop_left, List.mem_append] at he
    have hretired : e.retired = false :=
      he.elim MemPipeline.retired_of_travelling (hfollows.unmarked e)
    rw [← hretired, StoreBufferSlot.mark_retired]
  rw [← hunmarked] at he
  obtain ⟨b, hpending⟩ := hfollows.mem_pending.mp he
  simp only [MemPipeline.clearOf, Bool.and_eq_true, List.all_eq_true, Bool.not_eq_true'] at hclear
  have hno := hclear.1 (e.mark b) hpending
  rwa [StoreBufferSlot.storesTo_mark] at hno

/-- A cache operation that leaves MEM2 when the line is clear. -/
theorem Kept.of_cleans (hinv : t.Inv) (hcleans : t.cleans i = true) :
    (t.step i).Kept t.core.pipeline.uop2.number := by
  have hin := hinv.inStep
  rw [cleans, Bool.and_eq_true, Bool.and_eq_true] at hcleans
  obtain ⟨⟨hdeparts, hop⟩, hclear⟩ := hcleans
  have hpending := pending_of_clearOf hin hclear
  have hunsent : ¬ t.core.pipeline.Unsent t.line := by
    simp only [MemPipeline.clearOf, Bool.and_eq_true, Bool.not_eq_true',
      decide_eq_false_iff_not] at hclear
    exact hclear.2
  have hstd : ∀ e ∈ MemPipeline.carried t.core.pipeline.mem2.std, e.storesTo t.line = false :=
    fun e he => hpending e (hin.std_pending he).1
  have hwb := MemCore.wbUops_eq (t := t.core) (i := i)
  rw [if_pos hdeparts] at hwb
  rw [MemCore.departs, Bool.and_eq_true, Bool.and_eq_true, Bool.not_eq_true',
    Bool.not_eq_true'] at hdeparts
  obtain ⟨⟨hvalid, hs⟩, hflushed⟩ := hdeparts
  have hpush : ∀ e, e ∉ (t.core.pipeline.push (t.core.memInputs i)).toList := by
    intro e he
    obtain ⟨-, haccess, -⟩ := MemCore.mem_push hflushed he
    simp only [MemUop.cleans, Bool.and_eq_true, Bool.not_eq_true'] at hop
    simp [MemUop.isAccess, hop.1.1.1] at haccess
  refine ⟨⟨t.core.pipeline.uop2, ?_, rfl⟩, ?_, MemPipeline.not_unsent_step hstd hunsent, ?_, ?_⟩
  · change _ ∈ (t.core.step i).passed
    rw [MemCore.passed_step, hwb]
    exact List.mem_append_right _ (List.mem_singleton_self _)
  · intro k
    rw [image_step, MemPipeline.imageNext_of_not_storesTo hstd hunsent]
    exact MemPipeline.content_kept hinv.coherent hinv.sound hunsent
      (MemPipeline.content_of_cleans hinv.coherent hinv.sound hinv.swept hvalid hop hs) k
  · intro e he _
    obtain hbefore | hnew := MemCore.mem_pending_step hflushed he
    · exact hpending e hbefore
    · exact absurd hnew (hpush e)
  · intro e he
    change e ∈ (t.core.step i).log.program at he
    rw [MemCore.program_step hflushed] at he
    obtain hbefore | hnew := List.mem_append.mp he
    · exact (hin.program_lt_mem2 hflushed hvalid hbefore).ne
    · exact absurd hnew (hpush e)

/-! ## Every cycle -/

theorem Inv.of_init (h : Init t) : t.Inv where
  inStep := .of_init h.core
  sound := .of_init h.core.pipeline
  swept := .of_init h.core.pipeline
  coherent := by
    have himage : t.image = fun k => t.core.pipeline.memory.content (t.line.word k) := by
      funext k
      rw [image, h.performed, h.initial, Lanes.writes_nil]
    rw [himage]
    exact .of_init h.core.pipeline
  tookEffect := by
    have himage : t.image = fun k => t.initial (t.line.word k) := by
      funext k
      rw [image, h.performed, Lanes.writes_nil]
    rw [himage, h.core.log]
    exact .of_init h.core.pipeline
  kept := by
    intro n hn
    rw [h.cleaned] at hn
    cases hn

theorem Inv.step (h : t.Inv) (hi : t.core.Legal i) (hcareful : t.Careful i) :
    (t.step i).Inv where
  inStep := h.inStep.step hi
  sound := h.sound.step (h.inStep.pipelineLegal hi) hcareful.storeTag
  swept := h.swept.step h.sound.control
  coherent := by
    rw [image_step]
    exact h.coherent.step h.sound hcareful.storeTag hcareful.order
  tookEffect := by
    obtain ⟨gone, entries, marked, hfollows⟩ := h.inStep.log
    have hnext := hfollows.step (h.inStep.pipelineLegal hi)
    have hgone : (t.step i).core.log.program.take (t.step i).core.log.left =
        t.core.log.program.take t.core.log.left ++ t.core.pipeline.leaves (t.core.memInputs i) := by
      rw [hfollows.take_left]
      exact hnext.take_left
    rw [hgone, image_step]
    exact h.tookEffect.step h.sound h.coherent
  kept := by
    intro n hn hold
    have hbefore : n ∈ t.cleaned ∨ (t.cleans i = true ∧ n = t.core.pipeline.uop2.number) := by
      change n ∈ ite (t.cleans i = true) _ _ at hn
      split_ifs at hn with hcleans
      · exact (List.mem_append.mp hn).imp_right fun hnew => ⟨hcleans, List.mem_singleton.mp hnew⟩
      · exact .inl hn
    obtain hn | ⟨hcleans, rfl⟩ := hbefore
    · have hstays : t.core.oldest ≤ n := MemCore.oldest_le_step.trans hold
      exact (h.kept n hn hstays).step h hstays
    · exact .of_cleans h hcleans

theorem inv (h : (machine.restrict Careful).Reachable t) : t.Inv :=
  Clocked.Machine.invariant (fun _ => Inv.of_init) (fun _ _ hinv hi => hinv.step hi.1 hi.2) h

/-! ## The theorem -/

/-- What has retired until then is older than the operation. -/
theorem Kept.olderCommitted_eq (h : t.Kept n) (hin : t.core.InStep) (hold : t.core.oldest ≤ n) :
    t.olderCommitted n = t.core.log.program.take t.core.log.retired := by
  refine List.filter_eq_self.mpr fun e he => decide_eq_true ?_
  have hle := (hin.retired_le_oldest he).trans hold
  exact lt_of_le_of_ne hle (h.other e (List.mem_of_mem_take he))

/-- Until the operation has retired, memory has the words that the older stores have
left. -/
theorem Inv.memory (hinv : t.Inv) (h : t.Kept n) (hold : t.core.oldest ≤ n) (k : BitVec 4) :
    t.core.pipeline.memory.content (t.line.word k) =
      Lanes.writes t.initial (storeWrites (t.olderCommitted n)) (t.line.word k) := by
  have hin := hinv.inStep
  obtain ⟨gone, entries, marked, hfollows⟩ := hin.log
  have hsplit : t.core.log.program.take t.core.log.retired =
      t.core.log.program.take t.core.log.left ++
        (t.core.log.program.drop t.core.log.left).take
          (t.core.log.retired - t.core.log.left) := by
    rw [← List.take_add, Nat.add_sub_cancel' hfollows.left_le]
  -- what has retired and not left is not for the line
  have hrest : ∀ e ∈ (t.core.log.program.drop t.core.log.left).take
      (t.core.log.retired - t.core.log.left), e.storesTo t.line = false := by
    intro e he
    refine h.pending e (List.mem_of_mem_take he) ((hin.retired_le_oldest ?_).trans hold)
    rw [hsplit]
    exact List.mem_append_right _ he
  calc t.core.pipeline.memory.content (t.line.word k)
    _ = t.image k := h.content k
    _ = Lanes.forwardAll (storeWrites (t.core.log.program.take t.core.log.left)) (t.line.word k)
          (t.initial (t.line.word k)) := by
        have heffect := hinv.tookEffect k
        rwa [MemPipeline.forwardAll_unsentWrites h.unsent, Lanes.forwardAll_append,
          MemPipeline.forwardAll_filledWrites (h.std hin hold)] at heffect
    _ = Lanes.writes t.initial (storeWrites (t.olderCommitted n)) (t.line.word k) := by
        rw [h.olderCommitted_eq hin hold, hsplit, storeWrites_append, Lanes.writes_apply,
          Lanes.forwardAll_append, forwardAll_storeWrites hrest]

instance (s : MemPipeline) : Decidable s.KeepsTags :=
  decidable_of_iff (s.storeTag = false ∨ ∀ set way, s.valids set way = false)
    (by
      constructor
      · rintro (htag | hnone) set way hvalid
        · exact htag
        · rw [hnone] at hvalid
          cases hvalid
      · intro h
        by_contra hno
        rw [not_or] at hno
        refine hno.2 fun set way => ?_
        by_contra hvalid
        exact hno.1 (h set way (Bool.of_not_eq_false hvalid)))

instance (t : LineTrace) (i : Inputs) : Decidable ((machine.restrict Careful).legal t i) :=
  decidable_of_iff
    (MemCore.machine.legal t.core i ∧ t.core.pipeline.KeepsTags ∧
      (t.core.pipeline.miss = true → t.core.pipeline.addr2.line = t.line →
        ¬ t.core.pipeline.Unsent t.line))
    ⟨fun ⟨h, h1, h2⟩ => ⟨h, h1, h2⟩, fun ⟨h, hi⟩ => ⟨h, hi.storeTag, hi.order⟩⟩

/-- The line of address 0x100. -/
def atReset : LineTrace where
  core := MemCore.atReset
  line := ⟨0, 4⟩

theorem init_atReset : Init atReset := ⟨MemCore.init_atReset, rfl, rfl, rfl⟩

def store : MicroOp := { pc := 0x1c000000, fuType := .lsu, isStore := true, lsType := .word }

def cacop : MicroOp := { pc := 0x1c000004, fuType := .lsu, operateCache := true, lsType := .cacop }

def rename (uops : List MicroOp) : Inputs where
  push := uops.map fun uop => { uop := uop }

def issue (u : MemUop) : Inputs where
  mem := { head := u, headReady := true }

/-- The store of 7 to every byte of the word. -/
def storeSeven : MemUop := { addr := 0x100, be := fun _ => true, data := fun _ => 7 }

def indexInvalidate : MemUop :=
  { addr := 0x100, cacheOp := .indexInvalidate, cacheSel := .dCache }

/-- The bus does what it is asked for. -/
def ready : Inputs where
  mem := { arReady := true, rValid := true, awReady := true, wReady := true, bValid := true }

/-- The line is fetched for the store, and the operation writes it back. -/
def storeWaitCacheOp : List Inputs :=
  [rename [store], issue storeSeven] ++ List.replicate 29 ready ++
    [rename [cacop], issue indexInvalidate] ++ List.replicate 46 ready

/-- The operation is right behind the store. -/
def storeThenCacheOp : List Inputs :=
  [rename [store, cacop], issue storeSeven, issue indexInvalidate] ++
    List.replicate 10 MemCore.idle

end LineTrace

end NopCore
