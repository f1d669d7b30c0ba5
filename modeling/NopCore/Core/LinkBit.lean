import NopCore.Core.PrivilegedCore
import NopCore.Lib.Compressed

/-!
# The link bit

A store-conditional writes its result in WB, from the link bit as it is then, and
commit retires its entry in the store buffer by the link bit as it is when the
instruction leaves. In between older instructions retire. That the two agree rests on
two facts: whatever changes the link bit flushes the pipeline, and a flush leaves no
store-conditional that has been in WB.
-/

namespace NopCore

/-! ## Store-conditionals in the stages -/

/-- No store data accompanies a store-conditional. -/
def MemStage.Alone (st : MemStage) : Prop :=
  st.isValid = true → st.uop.isSC = true → st.std = none

namespace MemPipeline

variable {s : MemPipeline} {i : Inputs}

structure Alone (s : MemPipeline) : Prop where
  rrd : s.rrd.Alone
  memaddr : s.memaddr.Alone
  mem1 : s.mem1.Alone
  mem2 : s.mem2.Alone

theorem Alone.of_init (h : s.Init) : s.Alone where
  rrd _ _ := h.rrd.2
  memaddr _ _ := h.memaddr.2
  mem1 _ _ := h.mem1.2
  mem2 _ _ := h.mem2.2

theorem alone_nextStage {prev cur : MemStage} (hprev : prev.Alone) (hcur : cur.Alone) :
    (s.nextStage i prev cur).Alone := by
  intro hvalid hsc
  rw [nextStage] at hvalid hsc ⊢
  split_ifs at hvalid hsc ⊢
  · exact hcur (Bool.and_eq_true_iff.mp hvalid).1 hsc
  · exact hprev (Bool.and_eq_true_iff.mp hvalid).1 hsc

theorem alone_issStage : (s.issStage i).Alone := by
  intro hvalid hsc
  have hissue : s.issValid i = true := (Bool.and_eq_true_iff.mp hvalid).1
  have hhead : i.head.isSC = true := hsc
  simp [issStage, stdValid, hissue, hhead]

theorem Alone.step (h : s.Alone) : (s.step i).Alone where
  rrd := alone_nextStage alone_issStage h.rrd
  memaddr := alone_nextStage h.rrd h.memaddr
  mem1 := alone_nextStage h.memaddr h.mem1
  mem2 := by
    change (s.nextMem2 i).Alone
    rw [nextMem2]
    split_ifs
    · exact fun hvalid hsc => h.mem2 (Bool.and_eq_true_iff.mp hvalid).1 hsc
    · exact fun _ _ => rfl
    · exact fun hvalid hsc => h.mem1 (Bool.and_eq_true_iff.mp hvalid).1 hsc

end MemPipeline

namespace PrivilegedCore

open MemCore (linkWord)

variable {innerCounterDownEvery : Nat} {s : PrivilegedCore} {i i' : Inputs}

/-- What WB does for a store-conditional under a link bit. -/
def linkSample (llbit : Bool) (u : MemUop) : LinkSample :=
  ⟨u.number, llbit, u.wReg.map fun wReg => (wReg, linkWord llbit)⟩

/-! ## The record -/

/-- The store-conditionals that are in the reorder buffer and have been in WB have
written the link bit as it is. -/
structure Sampled (s : PrivilegedCore) : Prop where
  alone : s.mem.pipeline.Alone
  wb : s.mem.wb.isValid = true → s.mem.wb.uop.isSC = true →
    s.mem.wb.writeReg = s.mem.wb.uop.wReg
  before : ∀ x ∈ s.samples, x.number < s.mem.next
  current : s.mem.regFlush = false →
    s.samples.filter (fun x => s.mem.inFlight x.number) ++ s.sampled.map (linkSample s.llbit) =
      (s.mem.flying.filter fun u => u.isSC).map (linkSample s.llbit)

theorem Sampled.of_init (h : s.Init) : s.Sampled where
  alone := MemPipeline.Alone.of_init h.mem.pipeline
  wb hvalid := by
    rw [h.mem.wb] at hvalid
    cases hvalid
  before := by simp [h.samples]
  current _ := by
    simp [h.samples, sampled, MemCore.wbUops, h.mem.wb, MemCore.flying, h.mem.passed]

/-- A store-conditional in WB writes the link bit to its destination. -/
theorem Sampled.samples_step (h : s.Sampled) : (s.step innerCounterDownEvery i).samples =
    s.samples ++ s.sampled.map (linkSample s.llbit) := by
  change s.samples ++ s.sampled.map _ = _
  congr 1
  refine List.map_congr_left fun u hu => ?_
  rw [sampled] at hu
  split_ifs at hu with hflushed
  · cases hu
  · obtain ⟨hwb, hsc⟩ := List.mem_filter.mp hu
    rw [MemCore.wbUops] at hwb
    split_ifs at hwb with hvalid
    · obtain rfl := List.mem_singleton.mp hwb
      have hreg := h.wb hvalid hsc
      have hwrite : s.mem.regWrite (s.memInputs i) =
          s.mem.wb.uop.wReg.map fun wReg => (wReg, linkWord s.llbit) := by
        simp only [MemCore.regWrite, hvalid, hsc, hflushed, hreg]
        cases s.mem.wb.uop.wReg <;> simp [memInputs, llbit]
      rw [hwrite, linkSample]
    · cases hwb

theorem mem_sampled {u : MemUop} (hu : u ∈ s.sampled) : s.mem.regFlush = false ∧
    u ∈ s.mem.wbUops := by
  rw [sampled] at hu
  split_ifs at hu with hflushed
  · cases hu
  · exact ⟨Bool.eq_false_of_not_eq_true hflushed, (List.mem_filter.mp hu).1⟩

section Step

variable (h : s.Sampled) (hin : s.mem.InStep) (hi : s.mem.Legal (s.memInputs i))

include h hin

theorem Sampled.lt_next {x : LinkSample}
    (hx : x ∈ s.samples ++ s.sampled.map (linkSample s.llbit)) : x.number < s.mem.next := by
  obtain hx | hx := List.mem_append.mp hx
  · exact h.before x hx
  · obtain ⟨u, hu, rfl⟩ := List.mem_map.mp hx
    obtain ⟨hflushed, hwb⟩ := mem_sampled hu
    obtain ⟨done, hordered⟩ := hin.order.ordered hflushed
    exact (MemCore.mem_memNumbers.mp
      (hordered.mem_passed (List.mem_append_right _ hwb)).1).1.2

include hi

/-- What has been written stays so while no flush comes. -/
theorem Sampled.current_step (hflush : s.needFlush i = false) :
    (s.step innerCounterDownEvery i).samples.filter
        (fun x => (s.step innerCounterDownEvery i).mem.inFlight x.number) ++
      (s.step innerCounterDownEvery i).sampled.map
        (linkSample (s.step innerCounterDownEvery i).llbit) =
      ((s.step innerCounterDownEvery i).mem.flying.filter fun u => u.isSC).map
        (linkSample (s.step innerCounterDownEvery i).llbit) := by
  have hlegal := hin.order.legal hi
  have hmem : (s.step innerCounterDownEvery i).mem = s.mem.step (s.memInputs i) := rfl
  have hregFlush : (s.mem.step (s.memInputs i)).regFlush = false := hflush
  have hold := MemCore.oldest_step (t := s.mem) (i := s.memInputs i) hflush
  have hnext := MemCore.next_step hin.order.core hlegal hflush
  have hsampled : (s.step innerCounterDownEvery i).sampled =
      (s.mem.step (s.memInputs i)).wbUops.filter fun u => u.isSC := by
    rw [sampled, hmem, hregFlush, if_neg Bool.false_ne_true]
  rw [llbit_step hflush, h.samples_step, hsampled, hmem]
  cases hflushed : s.mem.regFlush with
  | true =>
    have hempty := hin.order.flushed hflushed
    have hordered := hempty.step hin.order.core hlegal hflushed
    have hflying : (s.mem.step (s.memInputs i)).flying = _ := hordered.passed
    have hwb := (MemCore.requests_flushed hflushed hempty.waiting hflush).1
    rw [hflying, hwb]
    simp only [List.filter_nil, List.map_nil, List.append_nil, List.filter_eq_nil_iff]
    intro x hx
    have hlt := h.lt_next hin hx
    rw [MemCore.next, hempty.empty] at hlt
    rw [MemCore.inFlight, hold]
    simp only [Bool.and_eq_true, decide_eq_true_eq]
    omega
  | false =>
    obtain ⟨done, hordered⟩ := hin.order.ordered hflushed
    have hflying : s.mem.flying = done ++ s.mem.wbUops := hordered.passed
    have hflying' : (s.mem.step (s.memInputs i)).flying = _ :=
      (hordered.step hin.order.core hi hflush hflushed).passed
    -- what stays in flight is what is not popped
    have hstays : (s.samples ++ s.sampled.map (linkSample s.llbit)).filter
        (fun x => (s.mem.step (s.memInputs i)).inFlight x.number) =
          (s.samples.filter (fun x => s.mem.inFlight x.number) ++
            s.sampled.map (linkSample s.llbit)).filter
              fun x => decide (s.mem.oldest + s.mem.popCount (s.memInputs i) ≤ x.number) := by
      rw [List.filter_append, List.filter_append, List.filter_filter]
      congr 1
      · refine List.filter_congr fun x hx => ?_
        have hlt := h.before x hx
        rw [MemCore.inFlight, MemCore.inFlight, hold, hnext, Bool.eq_iff_iff]
        simp only [Bool.and_eq_true, decide_eq_true_eq]
        omega
      · refine List.filter_congr fun x hx => ?_
        have hlt := h.lt_next hin (List.mem_append_right _ hx)
        obtain ⟨u, hu, rfl⟩ := List.mem_map.mp hx
        have hge := hordered.stays (i := s.memInputs i) hin.order.core
          (List.mem_append_left _
            (List.mem_map_of_mem (f := MemUop.toMemRequest) (mem_sampled hu).2))
        have hge : s.mem.oldest + s.mem.popCount (s.memInputs i) ≤
            (linkSample s.llbit u).number := hge
        rw [MemCore.inFlight, hold, hnext, Bool.eq_iff_iff]
        simp only [Bool.and_eq_true, decide_eq_true_eq]
        omega
    rw [hstays, h.current hflushed, hflying', hflying]
    generalize done ++ s.mem.wbUops = passed
    rw [List.filter_append, List.map_append, List.filter_map, List.filter_filter,
      List.filter_filter]
    congr 2
    exact List.filter_congr fun u _ => Bool.and_comm _ _

theorem Sampled.step : (s.step innerCounterDownEvery i).Sampled where
  alone := h.alone.step
  wb := by
    intro hvalid hsc
    have hdeparts : s.mem.departs (s.memInputs i) = true := hvalid
    have hmem2 : s.mem.pipeline.mem2.isValid = true := by
      simp only [MemCore.departs, Bool.and_eq_true] at hdeparts
      exact hdeparts.1.1
    change (s.mem.nextWb (s.memInputs i)).writeReg = _
    rw [MemCore.nextWb, h.alone.mem2 hmem2 hsc]
    rfl
  before := by
    intro x hx
    rw [h.samples_step] at hx
    exact (h.lt_next hin hx).trans_le (hin.next_le_step hi)
  current hflush := h.current_step hin hi hflush

end Step

theorem sampled_of_reachable (h : (machine innerCounterDownEvery).Reachable s) : s.Sampled :=
  Clocked.Machine.invariant_of_reachable (fun _ => Sampled.of_init)
    (fun _ _ hr hs hi => hs.step (MemCore.inStep (reachable_mem hr)) hi) h

end PrivilegedCore

/-! ## The entries of the store buffer -/

namespace StoreBuffer

variable {q : StoreBuffer} {entries : List StoreBufferSlot} {marked n : Nat} {commitStore : Bool}

/-- The entries, from the head on. -/
def contents (q : StoreBuffer) : List StoreBufferSlot :=
  (List.range storeBufferDepth).filterMap fun j => if q.valid j then some (q.slot j) else none

/-- The entries of the instruction with a given number. -/
def numbered (q : StoreBuffer) (n : Nat) : List StoreBufferSlot :=
  q.contents.filter fun e => e.number == n

/-- The entries as the buffer shows them. -/
def marking (entries : List StoreBufferSlot) (marked : Nat) : List StoreBufferSlot :=
  (entries.take marked).map (fun e => e.mark true) ++
    (entries.drop marked).map fun e => e.mark false

theorem length_marking (entries : List StoreBufferSlot) (marked : Nat) :
    (marking entries marked).length = entries.length := by
  rw [marking, List.length_append, List.length_map, List.length_map, ← List.length_append,
    List.take_append_drop]

theorem getElem?_marking (entries : List StoreBufferSlot) (marked j : Nat) :
    (marking entries marked)[j]? = entries[j]?.map fun e => e.mark (decide (j < marked)) := by
  rw [marking, List.getElem?_append, List.length_map, List.getElem?_map, List.getElem?_map,
    List.getElem?_take, List.getElem?_drop, List.length_take]
  by_cases hj : j < marked
  · by_cases hlt : j < entries.length
    · simp [hj, hlt]
    · simp [hj, hlt]
      omega
  · rw [if_neg (by omega), decide_eq_false hj]
    by_cases hlt : j < entries.length
    · congr 2
      omega
    · rw [List.getElem?_eq_none (by omega), List.getElem?_eq_none (by omega)]

theorem marking_tail (h : 0 < marked) :
    marking entries.tail (marked - 1) = (marking entries marked).tail := by
  obtain ⟨m, rfl⟩ := Nat.exists_eq_succ_of_ne_zero h.ne'
  cases entries <;> simp [marking]

theorem Holds.contents (h : q.Holds entries marked) : q.contents = marking entries marked := by
  have hall : marking entries marked = (marking entries marked).take storeBufferDepth :=
    (List.take_of_length_le (by rw [length_marking]; exact h.length_le)).symm
  rw [hall, ← Compressed.filterMap_range_getElem?, StoreBuffer.contents]
  refine List.filterMap_congr fun j hj => ?_
  rw [getElem?_marking, h.valid j (List.mem_range.mp hj)]
  by_cases hlt : j < entries.length
  · rw [if_pos (decide_eq_true hlt), List.getElem?_eq_getElem hlt, h.slot j hlt, Option.map_some]
  · rw [if_neg (by simpa using hlt), List.getElem?_eq_none (Nat.le_of_not_lt hlt), Option.map_none]

/-- Only one of the entries has the number, and it may be marked next. -/
theorem filter_marking {older newer : List StoreBufferSlot} {e : StoreBufferSlot}
    (holder : ∀ x ∈ older, x.number ≠ n) (he : e.number = n) (hnewer : ∀ x ∈ newer, x.number ≠ n) :
    (marking (older ++ e :: newer) (markedNext older.length commitStore)).filter
      (fun x => x.number == n) = [e.mark commitStore] := by
  have hshown : marking (older ++ e :: newer) (markedNext older.length commitStore) =
      older.map (fun x => x.mark true) ++ e.mark commitStore ::
        newer.map fun x => x.mark false := by
    cases commitStore <;>
      simp [marking, markedNext, List.take_append, List.drop_append, List.take_of_length_le,
        List.drop_of_length_le]
  have hnone : ∀ (b : Bool) (l : List StoreBufferSlot), (∀ x ∈ l, x.number ≠ n) →
      (l.map fun x => x.mark b).filter (fun x => x.number == n) = [] := by
    intro b l hl
    rw [List.filter_eq_nil_iff]
    intro x hx
    obtain ⟨y, hy, rfl⟩ := List.mem_map.mp hx
    simpa using hl y hy
  rw [hshown, List.filter_append, hnone true older holder,
    List.filter_cons_of_pos (by simpa using he), hnone false newer hnewer, List.nil_append]

theorem filter_tail {p : StoreBufferSlot → Bool} {l : List StoreBufferSlot}
    (h : ∀ e ∈ l.head?, p e = false) : l.tail.filter p = l.filter p := by
  cases l with
  | nil => rfl
  | cons e l => rw [List.tail_cons, List.filter_cons_of_neg (by simp [h e rfl])]

end StoreBuffer

namespace MemPipeline

variable {s : MemPipeline} {i : Inputs} {entries : List StoreBufferSlot} {marked : Nat}

/-- The entries after a clock edge. -/
theorem contents_step (hlegal : s.Legal i) (h : s.storeBuffer.Holds entries marked) :
    (s.step i).storeBuffer.contents =
      let next := StoreBuffer.marking
        (StoreBuffer.entriesNext entries marked i.commitStore (s.push i) i.flush)
        (StoreBuffer.markedNext marked i.commitStore)
      if s.pop i then next.tail else next := by
  rw [(storeBuffer_step hlegal h).contents]
  cases hpop : s.pop i with
  | false => rfl
  | true =>
    have hmarked : 0 < marked := by
      simp only [pop, stdValid, Bool.and_eq_true] at hpop
      exact h.marked_pos hpop.1.1.1 hpop.1.1.2
    refine StoreBuffer.marking_tail ?_
    rw [StoreBuffer.markedNext]
    split_ifs <;> omega

end MemPipeline

namespace MemCore

open StoreBuffer (marking entriesNext markedNext)

variable {t : MemCore} {i : Inputs} {done : List MemUop} {u : MemUop} {rest : List MemUop}

/-- A flush keeps of the entries those that have retired. -/
theorem InStep.contents_flush (h : t.InStep) (hi : t.Legal i) (hflushed : t.regFlush = true)
    {e : StoreBufferSlot} (he : e ∈ (t.step i).pipeline.storeBuffer.contents) :
    e ∈ t.pipeline.storeBuffer.contents ∧ e.retired = true := by
  obtain ⟨gone, entries, marked, hfollows⟩ := h.log
  have hcommit : (t.memInputs i).commitStore = false := (h.order.flushed hflushed).commitStore
  have hkeep : (t.memInputs i).flush = true := hflushed
  have hcontents : (t.step i).pipeline.storeBuffer.contents = _ :=
    MemPipeline.contents_step (h.pipelineLegal hi) hfollows.buffer
  have hnext : marking (entriesNext entries marked (t.memInputs i).commitStore
      (t.pipeline.push (t.memInputs i)) (t.memInputs i).flush)
      (markedNext marked (t.memInputs i).commitStore) =
        (entries.take marked).map fun e => e.mark true := by
    simp [marking, entriesNext, markedNext, hcommit, hkeep]
  rw [hcontents, hnext] at he
  have hmem : e ∈ (entries.take marked).map fun e => e.mark true := by
    dsimp only at he
    split_ifs at he
    · exact List.mem_of_mem_tail he
    · exact he
  rw [hfollows.buffer.contents]
  refine ⟨List.mem_append_left _ hmem, ?_⟩
  obtain ⟨x, -, rfl⟩ := List.mem_map.mp hmem
  rfl

/-- A store at the head of the reorder buffer that is about to leave. -/
structure StoreHead (t : MemCore) (u : MemUop) (rest : List MemUop) : Prop where
  tracks : t.Tracks (u :: rest)
  shown : t.Shown u
  waits : t.waits u = true
  boot : t.core.fsm = .stateBoot
  flushed : t.regFlush = false

/-- A store that fires without an exception has been reported by WB and waits in the
store buffer. -/
theorem InStep.storeHead (h : t.InStep) (hfires : t.fires i = true)
    (hclean : t.hasExcept i = false) (hstore : (t.core.ports 0).uop.isStore = true) :
    ∃ u rest, t.StoreHead u rest := by
  have hflushed : t.regFlush = false := by
    by_contra hno
    have hnone : t.fires i = false := (h.order.flushed (Bool.of_not_eq_false hno)).fire
    rw [hfires] at hnone
    cases hnone
  obtain ⟨done, htracks⟩ := h.tracks hflushed
  obtain ⟨u, rest, rfl, hshown, hwaits, hboot⟩ :=
    htracks.ordered.storeHead h.order.core h.order.decoded htracks.executing hfires hclean hstore
  exact ⟨u, rest, htracks, hshown, hwaits, hboot, hflushed⟩

namespace StoreHead

variable (hhead : t.StoreHead u rest)

include hhead

/-- Everything else that has passed MEM2 is younger. -/
theorem younger {v : MemUop} (hv : v ∈ rest ++ t.wbUops) : t.oldest < v.number := by
  have hpair := (List.pairwise_append.mp hhead.tracks.ordered.pairwise).1
  rw [List.cons_append, List.map_cons, List.pairwise_cons, hhead.shown.number] at hpair
  exact hpair.1 _ (List.mem_map_of_mem hv)

/-- What enters the store buffer is younger. -/
theorem push {e : StoreBufferSlot} (he : e ∈ t.pipeline.push (t.memInputs i)) :
    t.oldest < e.number := by
  have hmem : e ∈ ((t.step i).wbUops.filter MemUop.isAccess).map MemUop.slot := by
    rw [← push_eq hhead.flushed]
    exact Option.mem_toList.mpr he
  obtain ⟨v, hv, rfl⟩ := List.mem_map.mp hmem
  have hpipe := mem_pipeRequests (List.mem_filter.mp hv).1
  have hpair := (List.pairwise_append.mp hhead.tracks.ordered.pairwise).2.2
  rw [← hhead.shown.number]
  exact hpair _ (List.mem_map_of_mem (List.mem_append_left _ List.mem_cons_self)) _
    (List.mem_map_of_mem hpipe)

/-- Its entry is the first that has not retired. -/
theorem entries (h : t.InStep) : ∃ older newer,
    t.pipeline.storeBuffer.Holds (older ++ u.slot :: newer) older.length ∧
      (∀ e ∈ older, e.number < t.oldest) ∧ ∀ e ∈ newer, t.oldest < e.number := by
  obtain ⟨gone, entries, marked, hfollows⟩ := h.log
  have hcut : t.log.program.drop t.log.retired = entries.drop marked := by
    rw [hfollows.program, hfollows.retired, ← List.length_append, List.drop_length_add_append]
  have hunretired := hhead.tracks.unretired
  rw [hcut, List.cons_append, List.filter_cons_of_pos hhead.waits, List.map_cons] at hunretired
  have hsplit : entries = entries.take marked ++
      u.slot :: ((rest ++ t.wbUops).filter t.waits).map MemUop.slot := by
    rw [← hunretired, List.take_append_drop]
  refine ⟨entries.take marked, ((rest ++ t.wbUops).filter t.waits).map MemUop.slot, ?_, ?_, ?_⟩
  · rw [← hsplit, List.length_take_of_le hfollows.buffer.marked_le]
    exact hfollows.buffer
  · intro e he
    have hcommitted : e.number ∈ t.committed := by
      rw [h.committed, hfollows.program, hfollows.retired, ← List.length_append,
        List.take_length_add_append]
      exact List.mem_map_of_mem (List.mem_append_right _ he)
    obtain hlt | ⟨-, hfsm⟩ := h.settled.before _ hcommitted
    · exact hlt
    · rw [hhead.boot] at hfsm
      cases hfsm
  · intro e he
    obtain ⟨v, hv, rfl⟩ := List.mem_map.mp he
    exact hhead.younger (List.mem_filter.mp hv).1

/-- Before the store leaves its entry has not retired; when it leaves, commit may
retire it. -/
theorem numbered (h : t.InStep) (hi : t.Legal i) :
    t.pipeline.storeBuffer.numbered t.oldest = [u.slot] ∧
      (t.step i).pipeline.storeBuffer.numbered t.oldest = [u.slot.mark (t.commitStore i)] := by
  obtain ⟨older, newer, hholds, holder, hnewer⟩ := hhead.entries h
  have hslot : u.slot.number = t.oldest := hhead.shown.number
  have holder' : ∀ e ∈ older, e.number ≠ t.oldest := fun e he => (holder e he).ne
  have hnewer' : ∀ e ∈ newer, e.number ≠ t.oldest := fun e he => (hnewer e he).ne'
  constructor
  · have hbefore : (marking (older ++ u.slot :: newer) (markedNext older.length false)).filter
        (fun e => e.number == t.oldest) = [u.slot.mark false] :=
      StoreBuffer.filter_marking holder' hslot hnewer'
    rw [StoreBuffer.numbered, hholds.contents]
    exact hbefore
  · have hkeep : (t.memInputs i).flush = false := hhead.flushed
    have hcontents : (t.step i).pipeline.storeBuffer.contents = _ :=
      MemPipeline.contents_step (h.pipelineLegal hi) hholds
    have hnext : (marking (entriesNext (older ++ u.slot :: newer) older.length
        (t.memInputs i).commitStore (t.pipeline.push (t.memInputs i)) (t.memInputs i).flush)
        (markedNext older.length (t.memInputs i).commitStore)).filter
          (fun e => e.number == t.oldest) = [u.slot.mark (t.commitStore i)] := by
      rw [entriesNext, hkeep, if_neg Bool.false_ne_true, List.append_assoc, List.cons_append]
      refine StoreBuffer.filter_marking holder' hslot fun e he => ?_
      obtain he | he := List.mem_append.mp he
      · exact hnewer' e he
      · exact (hhead.push (Option.mem_toList.mp he)).ne'
    rw [StoreBuffer.numbered, hcontents]
    dsimp only
    split_ifs with hpop
    · refine (StoreBuffer.filter_tail fun e he => ?_).trans hnext
      -- the entry that leaves the buffer is an older one
      have hmarked : 0 < older.length := by
        simp only [MemPipeline.pop, MemPipeline.stdValid, Bool.and_eq_true] at hpop
        exact hholds.marked_pos hpop.1.1.1 hpop.1.1.2
      obtain ⟨x, xs, rfl⟩ := List.exists_cons_of_length_pos hmarked
      have hx : e.number = x.number := by
        cases hcommit : (t.memInputs i).commitStore <;>
          simp [marking, entriesNext, markedNext, hkeep, hcommit] at he <;> simp [← he]
      rw [hx]
      simpa using holder' x List.mem_cons_self
    · exact hnext

end StoreHead

end MemCore

/-! ## The theorem -/

namespace PrivilegedCore

open MemCore (linkWord)

variable {innerCounterDownEvery : Nat} {s : PrivilegedCore} {i i' : Inputs} {j : Nat}

/-- The register that the instruction at port `j` writes. -/
def destination (s : PrivilegedCore) (j : Nat) : Option Nat :=
  if (s.mem.core.ports j).uop.doRegWrite then some (s.mem.core.ports j).info.rename.wReg else none

/-- The entries of an instruction in the store buffer. -/
def entriesOf (s : PrivilegedCore) (n : Nat) : List StoreBufferSlot :=
  s.mem.pipeline.storeBuffer.numbered n

/-- The instruction has one entry, which has retired or not. -/
def HasEntry (s : PrivilegedCore) (n : Nat) (retired : Bool) : Prop :=
  ∃ e, s.entriesOf n = [e] ∧ e.retired = retired

/-- The store-conditional at port `j` leaves: its result and its entry in the store
buffer agree. The flush of the stages follows in the next cycle. -/
structure LinkAgrees (innerCounterDownEvery : Nat) (s : PrivilegedCore) (i i' : Inputs) (j : Nat)
    (x : LinkSample) : Prop where
  port : j = 0
  /-- It has been in WB once, which read the link bit that commit uses. -/
  sample : s.samples.filter (fun y => y.number == s.mem.oldest) = [x]
  llbit : x.llbit = s.llbit
  write : x.write = (s.destination j).map fun wReg => (wReg, linkWord s.llbit)
  commits : s.commitStore i = s.llbit
  /-- Before, its entry has not retired. -/
  entry : s.HasEntry s.mem.oldest false
  flush : (s.step innerCounterDownEvery i).mem.regFlush = true
  one : ∀ wReg, s.destination j = some wReg → (x.write = some (wReg, linkWord true) ↔
    (s.step innerCounterDownEvery i).HasEntry s.mem.oldest true)
  zero : ∀ wReg, s.destination j = some wReg → (x.write = some (wReg, linkWord false) ↔
    (s.step innerCounterDownEvery i).HasEntry s.mem.oldest false ∧
      ((s.step innerCounterDownEvery i).step innerCounterDownEvery i').entriesOf
        s.mem.oldest = [])

theorem linkWord_inj {a b : Bool} (h : linkWord a = linkWord b) : a = b := by
  have hlow := congrFun h 0
  cases a <;> cases b <;> simp_all [linkWord]

/-- The oldest instruction has been sampled once. -/
theorem Sampled.samples_head (h : s.Sampled) {u : MemUop} {rest : List MemUop}
    (hhead : s.mem.StoreHead u rest) (hsc : u.isSC = true) :
    s.samples.filter (fun x => x.number == s.mem.oldest) = [linkSample s.llbit u] := by
  have hnumber := hhead.shown.number
  have hcurrent := h.current hhead.flushed
  have hflying : s.mem.flying = u :: rest ++ s.mem.wbUops := hhead.tracks.ordered.passed
  have hsampled : s.sampled = s.mem.wbUops.filter fun u => u.isSC := by
    rw [sampled, hhead.flushed, if_neg Bool.false_ne_true]
  rw [hflying, hsampled, List.filter_append, List.map_append] at hcurrent
  have hdone := List.append_cancel_right hcurrent
  have hinFlight : s.mem.inFlight s.mem.oldest = true := by
    have hmem := (hhead.tracks.ordered.mem_passed (u := u) (by simp)).1
    have hlt := (MemCore.mem_memNumbers.mp hmem).1.2
    rw [hnumber] at hlt
    simp [MemCore.inFlight, hlt]
  have hfilter : s.samples.filter (fun x => x.number == s.mem.oldest) =
      (s.samples.filter fun x => s.mem.inFlight x.number).filter
        fun x => x.number == s.mem.oldest := by
    rw [List.filter_filter]
    refine List.filter_congr fun x _ => ?_
    cases heq : x.number == s.mem.oldest with
    | false => rfl
    | true => rw [beq_iff_eq.mp heq, hinFlight, Bool.true_and]
  have hrest : ((rest.filter fun u => u.isSC).map (linkSample s.llbit)).filter
      (fun x => x.number == s.mem.oldest) = [] := by
    rw [List.filter_eq_nil_iff]
    intro x hx
    obtain ⟨v, hv, rfl⟩ := List.mem_map.mp hx
    have hlt := hhead.younger (List.mem_append_left _ (List.mem_filter.mp hv).1)
    have hne : ¬ v.number = s.mem.oldest := hlt.ne'
    simpa [linkSample] using hne
  have hfirst : (u :: rest).filter (fun u => u.isSC) = u :: rest.filter fun u => u.isSC :=
    List.filter_cons_of_pos hsc
  rw [hfilter, hdone, hfirst, List.map_cons, List.filter_cons_of_pos, hrest]
  simpa [linkSample] using hnumber

/-- The instruction of the entry writes the register that rename has given it. -/
theorem wReg_of_shown {u : MemUop} (h : s.mem.Shown u) : u.wReg = s.destination 0 :=
  congrArg MemRequest.wReg h.request

/-- In every run a store-conditional that retires has written the link bit by which
commit decides on its entry: it has written 1 if and only if the entry is retired, and
0 if and only if the entry is not and the flush removes it. -/
theorem link_agreement (h : (machine innerCounterDownEvery).Reachable s)
    (hi : (machine innerCounterDownEvery).legal s i)
    (hi' : (machine innerCounterDownEvery).legal (s.step innerCounterDownEvery i) i')
    (hretires : s.retires i j = true) (hsc : (s.mem.core.ports j).uop.isSC = true) :
    ∃ x, s.LinkAgrees innerCounterDownEvery i i' j x := by
  have hin := MemCore.inStep (reachable_mem h)
  have hin' : (s.step innerCounterDownEvery i).mem.InStep := hin.step hi
  obtain ⟨hfire, hclean⟩ := Bool.and_eq_true_iff.mp hretires
  obtain rfl : j = 0 :=
    Commit.eq_zero_of_uniqueRetire hfire (by simp [MicroOp.uniqueRetire, MicroOp.flushState, hsc])
  have hclean : s.mem.hasExcept (s.memInputs i) = false := Bool.not_eq_true' _ ▸ hclean
  have hpos : 0 < s.mem.count := by
    have hvalid : (s.mem.core.ports 0).valid = true := (Bool.and_eq_true_iff.mp hfire).1
    exact (Ring.Pointers.popValid_iff (by decide)).mp hvalid
  have hdecodes : MemCore.Decodes (s.mem.core.ports 0).uop := by
    rw [PopPort.uop, (MemCore.port_eq hin.order.core hpos).1]
    exact hin.order.decoded.decodes _ le_rfl (Nat.add_lt_add_left hpos _)
  have hstore := hdecodes.isSC hsc
  have hload : (s.mem.core.ports 0).uop.isLoad = false := by
    by_contra hno
    exact hdecodes.one ⟨Bool.of_not_eq_false hno, hstore⟩
  obtain ⟨u, rest, hhead⟩ := hin.storeHead (i := s.memInputs i) hfire hclean hstore
  obtain ⟨hbefore, hafter⟩ := hhead.numbered hin hi
  have hcommits : s.commitStore i = s.llbit := by
    have hretires' : Commit.retires s.mem.core.ports s.mem.core.fsm
        (s.mem.commitInputs (s.memInputs i)) 0 = true := hretires
    have hlink : (s.mem.commitInputs (s.memInputs i)).handler.llbctlLLBIT = s.llbit := rfl
    change Commit.commitStore s.mem.core.ports s.mem.core.fsm _ = _
    simp [Commit.commitStore, Commit.startUncached, hload, hretires', hstore, hsc, hlink]
  have hflush : s.needFlush i = true := by
    have hfire' : Commit.fire s.mem.core.ports s.mem.core.fsm (s.commitInputs i) 0 = true := hfire
    change Commit.needFlush s.mem.core.ports s.mem.core.fsm (s.commitInputs i) = true
    simp [Commit.needFlush, hfire', Commit.linearRecover, MicroOp.flushState, hsc]
  have hafter : (s.step innerCounterDownEvery i).entriesOf s.mem.oldest =
      [u.slot.mark s.llbit] := by
    rw [← hcommits]
    exact hafter
  have hentry : ∀ b, (s.step innerCounterDownEvery i).HasEntry s.mem.oldest b ↔
      s.llbit = b := by
    intro b
    rw [HasEntry, hafter]
    simp
  have hremoved : s.llbit = false →
      ((s.step innerCounterDownEvery i).step innerCounterDownEvery i').entriesOf
        s.mem.oldest = [] := by
    intro hlink
    rw [entriesOf, StoreBuffer.numbered, List.filter_eq_nil_iff]
    intro e he hnumber
    obtain ⟨hkept, hretired⟩ := hin'.contents_flush hi' hflush he
    have hown : e ∈ (s.step innerCounterDownEvery i).entriesOf s.mem.oldest :=
      List.mem_filter.mpr ⟨hkept, hnumber⟩
    rw [hafter, hlink, List.mem_singleton] at hown
    rw [hown] at hretired
    cases hretired
  have hwrite : ∀ b wReg, s.destination 0 = some wReg →
      ((linkSample s.llbit u).write = some (wReg, linkWord b) ↔ s.llbit = b) := by
    intro b wReg hdest
    rw [linkSample, wReg_of_shown hhead.shown, hdest, Option.map_some, Option.some.injEq,
      Prod.mk.injEq]
    exact ⟨fun heq => linkWord_inj heq.2, fun heq => ⟨rfl, by rw [heq]⟩⟩
  refine ⟨linkSample s.llbit u, rfl, ?_, rfl, ?_, hcommits, ⟨u.slot, hbefore, rfl⟩, hflush, ?_, ?_⟩
  · exact (sampled_of_reachable h).samples_head hhead (hhead.shown.isSC.symm.trans hsc)
  · rw [linkSample, wReg_of_shown hhead.shown]
  · intro wReg hdest
    rw [hwrite true wReg hdest, hentry]
  · intro wReg hdest
    rw [hwrite false wReg hdest, hentry]
    exact ⟨fun hlink => ⟨hlink, hremoved hlink⟩, fun hlink => hlink.1⟩

/-! ## A store-conditional without a link -/

def atReset : PrivilegedCore := { mem := MemCore.atReset }

theorem init_atReset : Init atReset := ⟨MemCore.init_atReset, rfl, rfl⟩

def idle : Inputs := {}

/-- A store-conditional is renamed, issues in the next cycle, and goes through the
pipeline. -/
def renameSC : List Inputs :=
  [{ mem :=
      { push :=
        [{ uop :=
            { pc := 0x1c000000, fuType := .lsu, isStore := true, isSC := true, wbAddr := 4
              doRegWrite := true }
           rename := { wReg := 32 } }] } },
   { mem := { mem := { headReady := true } } }] ++ List.replicate 5 idle

theorem link_agreement_renameSC :
    let s := (machine 1).run atReset renameSC
    s.llbit = false ∧ s.destination 0 = some 32 ∧ ∃ x, s.LinkAgrees 1 idle idle 0 x := by
  intro s
  refine ⟨by decide +kernel, by decide +kernel, ?_⟩
  refine link_agreement (.run (.reset init_atReset) ?_) ?_ ?_ ?_ ?_ <;> decide +kernel

end PrivilegedCore

end NopCore
