import NopCore.Core.StoreCommit
import NopCore.Mem.Loading

/-!
# Uncached loads

A read of a device must not be repeated, nor made for a load that does not retire.
An uncached load therefore passes the memory pipeline without reading and leaves an
entry in the store buffer, as a store does. When it is the complete head of the
reorder buffer, commit retires the entry and waits. The entry travels through the
stages as store data, reads in MEM2, and writes the register in WB; then the load
leaves. Interrupts are masked meanwhile.

So at most one such entry is on its way at a time, and it is that of the head.
-/

namespace NopCore

namespace MemCore

variable {t : MemCore} {i : Inputs}

/-! ## The entry on its way -/

/-- The retired entries that have not left WB, from the oldest on. -/
def transit (t : MemCore) : List StoreBufferSlot :=
  MemPipeline.carried t.pipeline.wb ++ (t.log.program.take t.log.retired).drop t.log.left

/-- An uncached load is on its way exactly while the head is executing, and it is
that of the head. -/
def OneLoad (t : MemCore) : Prop :=
  t.transit.filter (fun e => !e.isStore) =
    if t.core.fsm = .execute then (t.flying.take 1).map MemUop.slot else []

section Transit

variable (h : t.InStep)

include h

/-- What travels is on its way. -/
theorem InStep.travelling_prefix (m : Nat) (hm : t.log.retired ≤ m) :
    ∃ rest, (t.log.program.take m).drop t.log.left = t.pipeline.travelling ++ rest := by
  obtain ⟨gone, entries, marked, hfollows⟩ := h.log
  have hretired := hfollows.retired
  obtain ⟨k, rfl⟩ : ∃ k, m = (gone ++ t.pipeline.travelling).length + k := by
    refine ⟨m - (gone ++ t.pipeline.travelling).length, ?_⟩
    rw [List.length_append]
    omega
  refine ⟨entries.take k, ?_⟩
  rw [hfollows.program, hfollows.left, List.take_length_add_append, List.append_assoc,
    List.drop_left]

/-- What leaves MEM2 as store data comes to WB, and a retired entry is added. -/
theorem InStep.transit_step : (t.step i).transit =
    (t.log.program.take (t.log.retired + (t.commitStore i).toNat)).drop t.log.left := by
  obtain ⟨rest, hrest⟩ := h.travelling_prefix (t.log.retired + (t.commitStore i).toNat)
    (Nat.le_add_right _ _)
  have hwb : MemPipeline.carried (t.step i).pipeline.wb = t.pipeline.leaves (t.memInputs i) := by
    change MemPipeline.carried (if t.pipeline.stuck2 (t.memInputs i) then none
      else t.pipeline.mem2.std) = _
    rw [MemPipeline.leaves]
    split_ifs <;> rfl
  have hleft : (t.step i).log.left =
      t.log.left + (t.pipeline.leaves (t.memInputs i)).length := rfl
  obtain ⟨rest', hleaves⟩ : ∃ rest', t.pipeline.travelling ++ rest =
      t.pipeline.leaves (t.memInputs i) ++ rest' := by
    rw [MemPipeline.leaves]
    split_ifs
    · exact ⟨_, rfl⟩
    · exact ⟨MemPipeline.carried t.pipeline.mem1.std ++
        MemPipeline.carried t.pipeline.memaddr.std ++
        MemPipeline.carried t.pipeline.rrd.std ++ rest, by simp [MemPipeline.travelling]⟩
  rw [transit, hwb, hleft, h.program_take_step, ← List.drop_drop, hrest, hleaves, List.drop_left]

/-- The entry that is added is that of the head. -/
theorem InStep.transit_commit :
    (t.log.program.take (t.log.retired + (t.commitStore i).toNat)).drop t.log.left =
      (t.log.program.take t.log.retired).drop t.log.left ++
        if t.commitStore i then (t.flying.take 1).map MemUop.slot else [] := by
  cases hcommit : t.commitStore i with
  | false => simp
  | true =>
    obtain ⟨u, _, rest, htracks, rfl, -, -, -, hentry⟩ := h.commitStore_head hcommit
    have hflying : t.flying = u :: rest ++ t.wbUops := htracks.ordered.passed
    obtain ⟨gone, entries, marked, hfollows⟩ := h.log
    have hle : t.log.left ≤ (t.log.program.take t.log.retired).length := by
      rw [List.length_take_of_le (retired_le ⟨gone, entries, marked, hfollows⟩),
        hfollows.left, hfollows.retired]
      omega
    rw [hflying, Bool.toNat_true, List.take_add_one, hentry, List.drop_append_of_le_length hle]
    rfl

/-- While the head executes, the instructions in flight stay. -/
theorem InStep.flying_step {done : List MemUop} (hi : t.Legal i) (htracks : t.Tracks done)
    (hflushed : t.regFlush = false) (hfires : t.fires i = false) :
    (t.step i).flying = done ++ t.wbUops ++ (t.step i).wbUops := by
  have hflush := needFlush_of_not_fires hfires
  have hordered := htracks.ordered.step h.order.core hi hflush hflushed
  have hall : (done ++ t.wbUops).filter (fun u => decide (t.oldest + t.popCount i ≤ u.number)) =
      done ++ t.wbUops := by
    refine List.filter_eq_self.mpr fun u hu => decide_eq_true ?_
    have hge := (mem_memNumbers.mp (htracks.ordered.mem_passed hu).1).1.1
    rw [popCount_of_not_fires hfires]
    omega
  rw [hall] at hordered
  exact hordered.passed

/-- The head of an execution. -/
theorem InStep.executing (hfsm : t.core.fsm = .execute) : ∃ u done rest, t.Tracks done ∧
    done = u :: rest ∧ t.Shown u ∧ u.isAccess = true ∧ u.isLoad = true ∧
    t.flying = u :: rest ++ t.wbUops := by
  obtain ⟨done, htracks⟩ := h.tracks (h.regFlush_of_execute hfsm)
  obtain ⟨u, rest, rfl, hnumber, haccess, hload⟩ := htracks.executing hfsm
  exact ⟨u, u :: rest, rest, htracks, rfl,
    htracks.ordered.shown h.order.core h.order.decoded List.mem_cons_self hnumber, haccess, hload,
    htracks.ordered.passed⟩

/-- What an execution does in a cycle. -/
theorem InStep.execute_step (hfsm : t.core.fsm = .execute) : t.fires i = t.uncachedDone ∧
    t.hasExcept i = false ∧ t.commitStore i = false := by
  obtain ⟨u, done, rest, htracks, -⟩ := h.executing hfsm
  obtain ⟨hfires, hclean, hcommit, -⟩ := htracks.ordered.fires_executing (i := i) h.order.core
    h.order.decoded htracks.executing hfsm
  exact ⟨hfires, hclean, hcommit⟩

end Transit

theorem uncachedDone_iff : t.uncachedDone = true ↔
    (MemPipeline.carried t.pipeline.wb).filter (fun e => !e.isStore) ≠ [] := by
  rw [uncachedDone]
  cases t.pipeline.wb with
  | none => simp
  | some e => cases hstore : e.isStore <;> simp [hstore]

theorem OneLoad.step (hone : t.OneLoad) (h : t.InStep) (hi : t.Legal i) : (t.step i).OneLoad := by
  rw [OneLoad, transit, List.filter_append] at hone
  rw [OneLoad, h.transit_step, h.transit_commit, List.filter_append]
  cases hfsm : t.core.fsm with
  | execute =>
    obtain ⟨u, done, rest, htracks, rfl, -, -, -, hflying⟩ := h.executing hfsm
    obtain ⟨hfires, -, hcommit⟩ := h.execute_step (i := i) hfsm
    rw [hfsm, if_pos rfl, hflying] at hone
    rw [hcommit]
    cases hdone : t.uncachedDone with
    | true =>
      have hboot : (t.step i).core.fsm = .stateBoot :=
        Commit.nextFsm_of_fire (hfires.trans hdone)
      obtain ⟨e, es, hcons⟩ := List.exists_cons_of_ne_nil (uncachedDone_iff.mp hdone)
      rw [hcons] at hone
      have hrest := (List.append_eq_nil_iff.mp (List.cons.inj hone).2).2
      rw [hboot, hrest]
      rfl
    | false =>
      have hstay := h.execute_of_stays (i := i) (.inr hfsm) (hfires.trans hdone)
      have hnone : (MemPipeline.carried t.pipeline.wb).filter (fun e => !e.isStore) = [] := by
        by_contra hno
        rw [uncachedDone_iff.mpr hno] at hdone
        cases hdone
      rw [hnone, List.nil_append] at hone
      rw [hstay, hone, h.flying_step hi htracks (h.regFlush_of_execute hfsm) (hfires.trans hdone)]
      rfl
  | stateBoot =>
    rw [hfsm, if_neg (by simp), List.append_eq_nil_iff] at hone
    rw [hone.2, List.nil_append]
    cases hcommit : t.commitStore i with
    | false =>
      have hboot : ¬ (t.step i).core.fsm = .execute := by
        intro hno
        obtain hstart | hyes := startUncached_or_execute hno
        · rw [commitStore_of_startUncached hstart] at hcommit
          cases hcommit
        · rw [hfsm] at hyes
          cases hyes
      rw [if_neg hboot]
      rfl
    | true =>
      obtain ⟨u, _, rest, htracks, rfl, hshown, -, -, -⟩ := h.commitStore_head hcommit
      have hflushed := h.regFlush_of_commitStore hcommit
      have hflying : t.flying = u :: rest ++ t.wbUops := htracks.ordered.passed
      rw [hflying, if_pos rfl]
      obtain ⟨hstart, hfires⟩ | ⟨hfires, -, hstore, -⟩ := commitStore_cases hcommit
      · have hload : u.slot.isStore = false := by
          have hisLoad : (t.core.ports 0).uop.isLoad = true := by
            simp only [startUncached, Commit.startUncached, Bool.and_eq_true] at hstart
            exact hstart.1.1.1.2
          change u.isStore = false
          rw [← hshown.isStore]
          by_contra hno
          exact hshown.decodes.one ⟨hisLoad, Bool.of_not_eq_false hno⟩
        rw [h.execute_of_stays (.inl hcommit) hfires, if_pos rfl,
          h.flying_step hi htracks hflushed hfires]
        simp [hload]
      · have hboot : (t.step i).core.fsm = .stateBoot := Commit.nextFsm_of_fire hfires
        have hkind : u.slot.isStore = true := hshown.isStore.symm.trans hstore
        rw [hboot]
        simp [hkind]

/-! ## The load in MEM2 and in WB -/

/-- The entry is that of the head, an uncached load that has been started. -/
structure LoadEntry (t : MemCore) (e : StoreBufferSlot) (u : MemUop) : Prop where
  execute : t.core.fsm = .execute
  slot : e.mark false = u.slot
  shown : t.Shown u
  isLoad : u.isLoad = true
  isAccess : u.isAccess = true

theorem LoadEntry.number {e : StoreBufferSlot} {u : MemUop} (h : t.LoadEntry e u) :
    e.number = t.oldest :=
  (congrArg StoreBufferSlot.number h.slot).trans h.shown.number

theorem OneLoad.of_mem (hone : t.OneLoad) (h : t.InStep) {e : StoreBufferSlot}
    (he : e.mark false ∈ t.transit) (hload : e.isStore = false) : ∃ u, t.LoadEntry e u := by
  have hmem : e.mark false ∈ t.transit.filter (fun e => !e.isStore) :=
    List.mem_filter.mpr ⟨he, by simp [hload]⟩
  rw [hone] at hmem
  by_cases hfsm : t.core.fsm = .execute
  · obtain ⟨u, done, rest, -, rfl, hshown, haccess, hisLoad, hflying⟩ := h.executing hfsm
    rw [if_pos hfsm, hflying] at hmem
    exact ⟨u, hfsm, List.mem_singleton.mp hmem, hshown, hisLoad, haccess⟩
  · rw [if_neg hfsm] at hmem
    cases hmem

theorem isLDU_iff {s : MemPipeline} : s.isLDU = true ↔ ∃ e ∈ s.mem2.std, e.isStore = false := by
  rw [MemPipeline.isLDU]
  cases s.mem2.std <;> simp

theorem InStep.transit_eq (h : t.InStep) : ∃ rest, t.transit =
    MemPipeline.carried t.pipeline.wb ++ (MemPipeline.carried t.pipeline.mem2.std ++ rest) := by
  obtain ⟨rest, hrest⟩ := h.travelling_prefix t.log.retired le_rfl
  refine ⟨MemPipeline.carried t.pipeline.mem1.std ++ MemPipeline.carried t.pipeline.memaddr.std ++
    MemPipeline.carried t.pipeline.rrd.std ++ rest, ?_⟩
  rw [transit, hrest]
  simp [MemPipeline.travelling]

/-- A load in MEM2 is that of the head, and it is not in WB yet. -/
theorem OneLoad.mem2 (hone : t.OneLoad) (h : t.InStep) (hldu : t.pipeline.isLDU = true) :
    ∃ e u, t.pipeline.mem2.std = some e ∧ e.isStore = false ∧ t.LoadEntry e u ∧
      t.uncachedDone = false := by
  obtain ⟨e, he, hload⟩ := isLDU_iff.mp hldu
  obtain ⟨rest, htransit⟩ := h.transit_eq
  rw [Option.mem_def] at he
  have hmem : e.mark false ∈ t.transit := by simp [htransit, he]
  obtain ⟨u, hu⟩ := hone.of_mem h hmem hload
  refine ⟨e, u, he, hload, hu, ?_⟩
  by_contra hdone
  obtain ⟨v, vs, hcons⟩ :=
    List.exists_cons_of_ne_nil (uncachedDone_iff.mp (Bool.of_not_eq_false hdone))
  rw [OneLoad, htransit, if_pos hu.execute, List.filter_append, hcons, he] at hone
  have hlen := congrArg List.length hone
  simp [hload] at hlen
  omega

/-- A load in WB is that of the head. -/
theorem OneLoad.wb (hone : t.OneLoad) (h : t.InStep) {e : StoreBufferSlot}
    (he : t.pipeline.wb = some e) (hload : e.isStore = false) : ∃ u, t.LoadEntry e u := by
  obtain ⟨rest, htransit⟩ := h.transit_eq
  exact hone.of_mem h (by simp [htransit, he]) hload

/-! ## The reads -/

/-- The low bits of the address select what a load takes from its word. -/
def loaded (e : StoreBufferSlot) (word : BWord) : BWord :=
  loadPostprocess e.lsType (e.addr.extractLsb' 0 2) word

/-- The loads that have read are the ones that have left and perhaps the head, which
has its word, or waits for it. -/
structure Reads (t : MemCore) : Prop where
  before : ∀ n ∈ t.reads, n < t.oldest ∨ (n = t.oldest ∧ t.core.fsm = .execute)
  current : t.core.fsm = .execute →
    (t.oldest ∈ t.reads ↔ t.pipeline.reading = true ∨ t.uncachedDone = true)
  nodup : t.reads.Nodup
  committed : ∀ n ∈ t.reads, n ∈ t.committed
  returned : ∀ r ∈ t.returned, r.1 ∈ t.reads
  once : (t.returned.map Prod.fst).Nodup
  waits : t.pipeline.refill.state = .readMemU → ∀ r ∈ t.returned, r.1 ≠ t.oldest
  word : t.pipeline.refill.state = .finishU →
    (t.oldest, t.pipeline.refill.storedWord) ∈ t.returned
  wb : ∀ e ∈ t.pipeline.wb, e.isStore = false → ∃ w, (t.oldest, w) ∈ t.returned ∧
    t.wb.readData = loaded e w ∧ t.wb.writeReg = e.wReg

section Reads

variable (hreads : t.Reads) (hone : t.OneLoad) (h : t.InStep) (hruns : t.pipeline.Runs)

include hone h hruns

/-- A read is made for the head. -/
theorem read_head (hload : t.pipeline.loadingU = true) :
    ∃ e u, t.pipeline.mem2.std = some e ∧ e.isStore = false ∧ t.LoadEntry e u ∧
      t.uncachedDone = false :=
  hone.mem2 h (hruns.control.load hload)

omit hone h hruns in
theorem loadingU_of_uArFire (hfire : t.pipeline.uArFire (t.memInputs i) = true) :
    t.pipeline.loadingU = true := by
  simp only [MemPipeline.uArFire, MemPipeline.uArValid, Bool.and_eq_true] at hfire
  simp [MemPipeline.loadingU, hfire.1.1.1]

theorem reads_step : (t.step i).reads =
    if t.pipeline.uArFire (t.memInputs i) then t.reads ++ [t.oldest] else t.reads := by
  have hstep : (t.step i).reads = if t.pipeline.uArFire (t.memInputs i) then
      t.reads ++ t.pipeline.mem2.std.toList.map (fun std => std.number) else t.reads := rfl
  rw [hstep]
  split_ifs with hfire
  · obtain ⟨e, u, hstd, -, hentry, -⟩ := read_head hone h hruns (loadingU_of_uArFire hfire)
    simp [hstd, hentry.number]
  · rfl

omit hone h hruns in
theorem loadingU_of_uRFire (hfire : t.pipeline.uRFire (t.memInputs i) = true) :
    t.pipeline.loadingU = true := by
  simp only [MemPipeline.uRFire, Bool.and_eq_true] at hfire
  simp [MemPipeline.loadingU, hfire.1]

theorem returned_step : (t.step i).returned =
    if t.pipeline.uRFire (t.memInputs i) then t.returned ++ [(t.oldest, i.mem.uRData)]
    else t.returned := by
  have hstep : (t.step i).returned = if t.pipeline.uRFire (t.memInputs i) then
      t.returned ++ t.pipeline.mem2.std.toList.map (fun std => (std.number, i.mem.uRData))
      else t.returned := rfl
  rw [hstep]
  split_ifs with hfire
  · obtain ⟨e, u, hstd, -, hentry, -⟩ := read_head hone h hruns (loadingU_of_uRFire hfire)
    simp [hstd, hentry.number]
  · rfl

/-- While a load is in MEM2, the head is executing and stays. -/
theorem stays_of_loadingU (hload : t.pipeline.loadingU = true) : t.core.fsm = .execute ∧
    t.uncachedDone = false ∧ t.fires i = false ∧ (t.step i).oldest = t.oldest ∧
      (t.step i).core.fsm = .execute := by
  obtain ⟨e, u, -, -, hentry, hdone⟩ := read_head hone h hruns hload
  have hfires := (h.execute_step (i := i) hentry.execute).1.trans hdone
  exact ⟨hentry.execute, hdone, hfires, oldest_of_stays hfires,
    h.execute_of_stays (.inr hentry.execute) hfires⟩

include hreads

theorem Reads.mem_reading (hread : t.pipeline.reading = true) : t.oldest ∈ t.reads := by
  obtain ⟨hfsm, -⟩ :=
    stays_of_loadingU (i := {}) hone h hruns (MemPipeline.loadingU_of_reading hread)
  exact (hreads.current hfsm).mpr (.inl hread)

/-- The head has not read when the bus takes its read. -/
theorem Reads.not_mem_of_uArValid (hvalid : t.pipeline.uArValid (t.memInputs i) = true) :
    t.oldest ∉ t.reads := by
  simp only [MemPipeline.uArValid, Bool.and_eq_true, beq_iff_eq] at hvalid
  obtain ⟨hfsm, hdone, -⟩ :=
    stays_of_loadingU (i := i) hone h hruns (by simp [MemPipeline.loadingU, hvalid.1.1])
  rw [hreads.current hfsm, hdone]
  simp [MemPipeline.reading, hvalid.1.1]

theorem Reads.before_step : ∀ n ∈ (t.step i).reads,
    n < (t.step i).oldest ∨ (n = (t.step i).oldest ∧ (t.step i).core.fsm = .execute) := by
  intro n hn
  have hcases : n ∈ t.reads ∨ (n = t.oldest ∧ t.core.fsm = .execute) := by
    rw [reads_step hone h hruns] at hn
    split_ifs at hn with hfire
    · obtain hn | hn := List.mem_append.mp hn
      · exact .inl hn
      · exact .inr ⟨List.mem_singleton.mp hn,
          (stays_of_loadingU (i := i) hone h hruns (loadingU_of_uArFire hfire)).1⟩
    · exact .inl hn
  obtain hlt | ⟨rfl, hfsm⟩ : n < t.oldest ∨ (n = t.oldest ∧ t.core.fsm = .execute) := by
    obtain hn | hnow := hcases
    · exact hreads.before n hn
    · exact .inr hnow
  · exact .inl (hlt.trans_le oldest_le_step)
  · cases hfires : t.fires i with
    | true => exact .inl (oldest_lt_of_fires hfires)
    | false => exact .inr ⟨(oldest_of_stays hfires).symm, h.execute_of_stays (.inr hfsm) hfires⟩

theorem Reads.current_step (hfsm : (t.step i).core.fsm = .execute) :
    (t.step i).oldest ∈ (t.step i).reads ↔
      (t.step i).pipeline.reading = true ∨ (t.step i).uncachedDone = true := by
  have hfires := not_fires_of_execute hfsm
  have hnow : t.oldest ∈ t.reads ↔ t.pipeline.reading = true := by
    refine ⟨fun hmem => ?_, hreads.mem_reading hone h hruns⟩
    obtain hlt | ⟨-, hexec⟩ := hreads.before _ hmem
    · exact absurd hlt (Nat.lt_irrefl _)
    · have hdone : t.uncachedDone = false := (h.execute_step hexec).1.symm.trans hfires
      simpa [hdone] using (hreads.current hexec).mp hmem
  have hreading : (t.step i).pipeline.reading = true ↔
      t.pipeline.uArFire (t.memInputs i) = true ∨ t.pipeline.refill.state = .readMemU := by
    have hread : (t.step i).pipeline.refill.state = .readMemU ↔ _ :=
      MemPipeline.readMemU_step (s := t.pipeline) (i := t.memInputs i)
    have hfinish : (t.step i).pipeline.refill.state = .finishU ↔ _ :=
      hruns.finishU_step (i := t.memInputs i)
    rw [MemPipeline.reading, Bool.or_eq_true, beq_iff_eq, beq_iff_eq, hread, hfinish]
    cases hstate : t.pipeline.refill.state <;>
      cases hfire : t.pipeline.uRFire (t.memInputs i) <;>
        simp_all [MemPipeline.uRFire]
  have hdone : (t.step i).uncachedDone = true ↔ t.pipeline.refill.state = .finishU := by
    constructor
    · intro hdone
      cases hwb : (t.step i).pipeline.wb with
      | none => simp [uncachedDone, hwb] at hdone
      | some e =>
        simp only [uncachedDone, hwb, Option.any_some, Bool.not_eq_true'] at hdone
        exact ((hruns.wb_step (i := t.memInputs i) hdone).mp hwb).2
    · intro hstate
      obtain ⟨e, u, hstd, hload, -⟩ :=
        read_head hone h hruns (by simp [MemPipeline.loadingU, hstate])
      have hwb : (t.step i).pipeline.wb = some e :=
        (hruns.wb_step (i := t.memInputs i) hload).mpr ⟨hstd, hstate⟩
      simp [uncachedDone, hwb, hload]
  have hmem : t.oldest ∈ (t.step i).reads ↔
      t.oldest ∈ t.reads ∨ t.pipeline.uArFire (t.memInputs i) = true := by
    rw [reads_step hone h hruns]
    split_ifs with hfire <;> simp [hfire]
  rw [oldest_of_stays hfires, hmem, hnow, hreading, hdone, MemPipeline.reading, Bool.or_eq_true,
    beq_iff_eq, beq_iff_eq]
  exact or_comm.trans or_assoc.symm

theorem Reads.step : (t.step i).Reads where
  before := hreads.before_step hone h hruns
  current := hreads.current_step hone h hruns
  nodup := by
    rw [reads_step hone h hruns]
    split_ifs with hfire
    · refine List.nodup_append.mpr ⟨hreads.nodup, List.nodup_singleton _, ?_⟩
      have hno := hreads.not_mem_of_uArValid hone h hruns (Bool.and_eq_true_iff.mp hfire).1
      intro n hn m hm heq
      rw [List.mem_singleton.mp hm] at heq
      exact hno (heq ▸ hn)
    · exact hreads.nodup
  committed := by
    intro n hn
    refine mem_committed_step.mpr (.inl ?_)
    rw [reads_step hone h hruns] at hn
    split_ifs at hn with hfire
    · obtain hn | hn := List.mem_append.mp hn
      · exact hreads.committed n hn
      · rw [List.mem_singleton.mp hn]
        exact h.settled.started
          (stays_of_loadingU (i := i) hone h hruns (loadingU_of_uArFire hfire)).1
    · exact hreads.committed n hn
  returned := by
    have hkept : ∀ n ∈ t.reads, n ∈ (t.step i).reads := by
      intro n hn
      rw [reads_step hone h hruns]
      split_ifs
      · exact List.mem_append_left _ hn
      · exact hn
    intro r hr
    rw [returned_step hone h hruns] at hr
    split_ifs at hr with hfire
    · obtain hr | hr := List.mem_append.mp hr
      · exact hkept _ (hreads.returned r hr)
      · obtain rfl := List.mem_singleton.mp hr
        refine hkept _ (hreads.mem_reading hone h hruns ?_)
        simp only [MemPipeline.uRFire, Bool.and_eq_true] at hfire
        simp [MemPipeline.reading, hfire.1]
    · exact hkept _ (hreads.returned r hr)
  once := by
    rw [returned_step hone h hruns]
    split_ifs with hfire
    · simp only [MemPipeline.uRFire, Bool.and_eq_true, beq_iff_eq] at hfire
      rw [List.map_append]
      refine List.nodup_append.mpr ⟨hreads.once, List.nodup_singleton _, ?_⟩
      intro n hn m hm heq
      obtain ⟨r, hr, rfl⟩ := List.mem_map.mp hn
      rw [List.mem_singleton.mp hm] at heq
      exact hreads.waits hfire.1 r hr heq
    · exact hreads.once
  waits := by
    intro hstate
    obtain hfire | ⟨hread, hfire⟩ := MemPipeline.readMemU_step.mp hstate
    · have hno := hreads.not_mem_of_uArValid hone h hruns (Bool.and_eq_true_iff.mp hfire).1
      have hquiet : t.pipeline.uRFire (t.memInputs i) = false := by
        simp only [MemPipeline.uArFire, MemPipeline.uArValid, Bool.and_eq_true, beq_iff_eq] at hfire
        simp [MemPipeline.uRFire, hfire.1.1.1]
      rw [returned_step hone h hruns, hquiet, if_neg Bool.false_ne_true,
        (stays_of_loadingU (i := i) hone h hruns (loadingU_of_uArFire hfire)).2.2.2.1]
      exact fun r hr heq => hno (heq ▸ hreads.returned r hr)
    · rw [returned_step hone h hruns, hfire, if_neg Bool.false_ne_true,
        (stays_of_loadingU (i := i) hone h hruns
          (by simp [MemPipeline.loadingU, hread])).2.2.2.1]
      exact hreads.waits hread
  word := by
    intro hstate
    have hfire : t.pipeline.uRFire (t.memInputs i) = true := hruns.finishU_step.mp hstate
    have hword : (t.step i).pipeline.refill.storedWord = i.mem.uRData :=
      MemPipeline.storedWord_step hfire
    rw [returned_step hone h hruns, hfire, if_pos rfl, hword,
      (stays_of_loadingU (i := i) hone h hruns (loadingU_of_uRFire hfire)).2.2.2.1]
    exact List.mem_append_right _ (List.mem_singleton.mpr rfl)
  wb := by
    intro e he hload
    obtain ⟨hstd, hstate⟩ := (hruns.wb_step (i := t.memInputs i) hload).mp he
    refine ⟨t.pipeline.refill.storedWord, ?_, ?_, ?_⟩
    · have hmem := hreads.word hstate
      rw [returned_step hone h hruns,
        (stays_of_loadingU (i := i) hone h hruns
          (by simp [MemPipeline.loadingU, hstate])).2.2.2.1]
      split_ifs
      · exact List.mem_append_left _ hmem
      · exact hmem
    · simp [MemCore.step, nextWb, hstd, loaded, MemPipeline.memRData, MemPipeline.isLDU, hload]
    · simp [MemCore.step, nextWb, hstd, hload]

end Reads

/-! ## Store data and store-conditionals -/

/-- Store data does not accompany a store-conditional, which needs the register port
of WB. -/
def Apart (st : MemStage) : Prop :=
  st.isValid = true → st.std.isSome = true → st.uop.isSC = false

structure LinkApart (t : MemCore) : Prop where
  rrd : Apart t.pipeline.rrd
  memaddr : Apart t.pipeline.memaddr
  mem1 : Apart t.pipeline.mem1
  mem2 : Apart t.pipeline.mem2
  wb : t.wb.isValid = true → t.pipeline.wb.isSome = true → t.wb.uop.isSC = false

theorem Apart.mask {st : MemStage} (h : Apart st) (b : Bool) :
    Apart { st with isValid := st.isValid && b } :=
  fun hvalid => h (Bool.and_eq_true_iff.mp hvalid).1

theorem apart_issStage (s : MemPipeline) (i : MemPipeline.Inputs) : Apart (s.issStage i) := by
  intro hvalid hstd
  simp only [MemPipeline.issStage, Bool.and_eq_true] at hvalid hstd ⊢
  by_cases hissue : s.stdValid i = true
  · simp only [MemPipeline.stdValid, hvalid.1, Bool.true_and, Bool.not_true, Bool.or_false,
      Bool.and_eq_true, Bool.not_eq_true'] at hissue
    exact hissue.2.2
  · simp [hissue] at hstd

theorem apart_nextStage {s : MemPipeline} {i : MemPipeline.Inputs} {prev cur : MemStage}
    (hprev : Apart prev) (hcur : Apart cur) : Apart (s.nextStage i prev cur) := by
  rw [MemPipeline.nextStage]
  split_ifs
  · exact hcur.mask _
  · exact hprev.mask _

theorem LinkApart.of_init (h : Init t) : t.LinkApart where
  rrd hvalid := by simp [h.pipeline.rrd.1] at hvalid
  memaddr hvalid := by simp [h.pipeline.memaddr.1] at hvalid
  mem1 hvalid := by simp [h.pipeline.mem1.1] at hvalid
  mem2 hvalid := by simp [h.pipeline.mem2.1] at hvalid
  wb hvalid := by simp [h.wb] at hvalid

theorem LinkApart.step (h : t.LinkApart) : (t.step i).LinkApart where
  rrd := apart_nextStage (apart_issStage _ _) h.rrd
  memaddr := apart_nextStage h.rrd h.memaddr
  mem1 := apart_nextStage h.memaddr h.mem1
  mem2 := by
    change Apart (t.pipeline.nextMem2 (t.memInputs i))
    rw [MemPipeline.nextMem2]
    split_ifs
    · exact h.mem2.mask _
    · intro hvalid
      cases hvalid
    · exact h.mem1.mask _
  wb := by
    intro hvalid hstd
    have hdeparts : t.departs i = true := hvalid
    simp only [departs, Bool.and_eq_true, Bool.not_eq_true'] at hdeparts
    have hwb : (t.step i).pipeline.wb = t.pipeline.mem2.std :=
      if_neg (by simp [hdeparts.1.2])
    rw [hwb] at hstd
    exact h.mem2 hdeparts.1.1 hstd

/-! ## The theorem -/

/-- All that uncached loads rely on. -/
structure LoadsInv (t : MemCore) : Prop where
  inStep : t.InStep
  runs : t.pipeline.Runs
  oneLoad : t.OneLoad
  reads : t.Reads
  apart : t.LinkApart

theorem LoadsInv.of_init (h : Init t) : t.LoadsInv where
  inStep := .of_init h
  runs := .of_init h.pipeline
  oneLoad := by
    have hfsm : t.core.fsm = .stateBoot := h.core.2.1
    simp [OneLoad, transit, h.pipeline.wb, h.log, hfsm]
  reads := by
    have hfsm : t.core.fsm = .stateBoot := h.core.2.1
    exact ⟨by simp [h.reads], by simp [hfsm], by simp [h.reads], by simp [h.reads],
      by simp [h.returned],
      by simp [h.returned], by simp [h.returned], by simp [h.pipeline.refill.1],
      by simp [h.pipeline.wb.1]⟩
  apart := .of_init h

theorem LoadsInv.step (h : t.LoadsInv) (hi : t.Legal i) : (t.step i).LoadsInv where
  inStep := h.inStep.step hi
  runs := h.runs.step (h.inStep.pipelineLegal hi)
  oneLoad := h.oneLoad.step h.inStep hi
  reads := h.reads.step h.oneLoad h.inStep h.runs
  apart := h.apart.step

theorem loadsInv (h : machine.Reachable t) : t.LoadsInv :=
  Clocked.Machine.invariant (fun _ => LoadsInv.of_init) (fun _ _ hs hi => hs.step hi) h

/-- The register write of the load at the head: the loaded part of the word. -/
def loadWrite (t : MemCore) (addr : UWord) (word : BWord) : Option (Nat × BWord) :=
  if (t.core.ports 0).uop.doRegWrite then
    some ((t.core.ports 0).info.rename.wReg,
      loadPostprocess (t.core.ports 0).uop.lsType (addr.extractLsb' 0 2) word)
  else none

/-- A read is put on the bus only for the entry in MEM2 of the head, a complete
uncached load without an exception, in a cycle in which no interrupt is taken, and
that has not read before. A load reads at most once, and has read when it retires.
What has read is not dropped: it stays or it retires, with the register write of the
word that came back for it, two cycles after that. -/
structure LoadsOnce (t : MemCore) (i : Inputs) : Prop where
  only : t.pipeline.uArValid (t.memInputs i) = true → ∃ e u, t.pipeline.mem2.std = some e ∧
    t.LoadEntry e u ∧ u.except = false ∧ u.cached = false ∧ t.hasExcept i = false ∧
      t.oldest ∉ t.reads
  once : t.reads.Nodup
  read : t.fires i = true → t.hasExcept i = false → (t.core.ports 0).uop.isLoad = true →
    (t.core.ports 0).state.lsuUncached = true → t.reads.count t.oldest = 1
  kept : ∀ n ∈ t.reads, n ∉ t.dropped
  stays : t.oldest ∈ t.reads → t.fires i = false →
    t.needFlush i = false ∧ t.oldest ∈ (t.step i).reads ∧ (t.step i).oldest = t.oldest
  retires : t.oldest ∈ t.reads → t.fires i = true → t.hasExcept i = false ∧
    ∃ e w, t.pipeline.wb = some e ∧ (t.oldest, w) ∈ t.returned ∧
      t.regWrite i = t.loadWrite e.addr w
  returnedOnce : (t.returned.map Prod.fst).Nodup
  responds : t.pipeline.uRFire (t.memInputs i) = true → t.oldest ∈ t.reads ∧
    ∀ i', (t.step i).Legal i' → ∀ i'',
      ((t.step i).step i').oldest = t.oldest ∧ ((t.step i).step i').fires i'' = true

section Loads

variable (h : t.LoadsInv)

include h

theorem LoadsInv.only (hvalid : t.pipeline.uArValid (t.memInputs i) = true) :
    ∃ e u, t.pipeline.mem2.std = some e ∧ t.LoadEntry e u ∧ u.except = false ∧
      u.cached = false ∧ t.hasExcept i = false ∧ t.oldest ∉ t.reads := by
  have hload : t.pipeline.loadingU = true := by
    simp only [MemPipeline.uArValid, Bool.and_eq_true] at hvalid
    simp [MemPipeline.loadingU, hvalid.1.1]
  obtain ⟨e, u, hstd, -, hentry, -⟩ := read_head h.oneLoad h.inStep h.runs hload
  have hstore : u.isStore = false := by
    rw [← hentry.shown.isStore]
    by_contra hno
    exact hentry.shown.decodes.one
      ⟨hentry.shown.isLoad.trans hentry.isLoad, Bool.of_not_eq_false hno⟩
  have haccess := hentry.isAccess
  simp only [MemUop.isAccess, hstore, Bool.false_or, Bool.and_eq_true,
    Bool.not_eq_true'] at haccess
  exact ⟨e, u, hstd, hentry, haccess.1, haccess.2.2, (h.inStep.execute_step hentry.execute).2.1,
    h.reads.not_mem_of_uArValid h.oneLoad h.inStep h.runs hvalid⟩

/-- An uncached load that retires has been executed. -/
theorem LoadsInv.read (hfires : t.fires i = true) (hclean : t.hasExcept i = false)
    (hload : (t.core.ports 0).uop.isLoad = true)
    (huncached : (t.core.ports 0).state.lsuUncached = true) : t.reads.count t.oldest = 1 := by
  have hfsm : t.core.fsm = .execute := by
    cases hfsm : t.core.fsm with
    | execute => rfl
    | stateBoot =>
      have hfire : Commit.fire t.core.ports t.core.fsm (t.commitInputs i) 0 = true := hfires
      have hexc : Commit.hasExcept t.core.ports t.core.fsm (t.commitInputs i) = false := hclean
      rw [hfsm] at hfire hexc
      simp only [Commit.fire, Commit.ready, Commit.uncachedMask, Commit.completeMask,
        Bool.and_eq_true, Bool.not_eq_true'] at hfire
      have hcomplete : (t.core.ports 0).state.complete = true := by simpa using hfire.2.1.1.1.1
      have hstart : Commit.startUncached t.core.ports .stateBoot (t.commitInputs i) = true := by
        simp [Commit.startUncached, hfire.1, hload, huncached, hcomplete, hexc]
      rw [hstart] at hfire
      simp at hfire
  have hdone : t.uncachedDone = true := (h.inStep.execute_step hfsm).1.symm.trans hfires
  exact List.count_eq_one_of_mem h.reads.nodup ((h.reads.current hfsm).mpr (.inr hdone))

theorem LoadsInv.execute_of_mem (hmem : t.oldest ∈ t.reads) : t.core.fsm = .execute := by
  obtain hlt | ⟨-, hfsm⟩ := h.reads.before _ hmem
  · exact absurd hlt (Nat.lt_irrefl _)
  · exact hfsm

/-- A load that has read writes its register when it retires. -/
theorem LoadsInv.retires (hmem : t.oldest ∈ t.reads) (hfires : t.fires i = true) :
    t.hasExcept i = false ∧ ∃ e w, t.pipeline.wb = some e ∧ (t.oldest, w) ∈ t.returned ∧
      t.regWrite i = t.loadWrite e.addr w := by
  have hfsm := h.execute_of_mem hmem
  obtain ⟨heq, hclean, -⟩ := h.inStep.execute_step (i := i) hfsm
  have hdone : t.uncachedDone = true := heq.symm.trans hfires
  refine ⟨hclean, ?_⟩
  cases hwb : t.pipeline.wb with
  | none => simp [uncachedDone, hwb] at hdone
  | some e =>
    have hload : e.isStore = false := by simpa [uncachedDone, hwb] using hdone
    obtain ⟨u, hentry⟩ := h.oneLoad.wb h.inStep hwb hload
    obtain ⟨w, hw, hdata, hreg⟩ := h.reads.wb e hwb hload
    have hlink : (t.wb.isValid && t.wb.uop.isSC) = false := by
      have hapart := h.apart.wb
      cases hvalid : t.wb.isValid with
      | false => rfl
      | true => rw [hapart hvalid (by simp [hwb]), Bool.and_false]
    have hwReg : e.wReg = if (t.core.ports 0).uop.doRegWrite then
        some (t.core.ports 0).info.rename.wReg else none :=
      (congrArg StoreBufferSlot.wReg hentry.slot).trans
        (congrArg MemRequest.wReg hentry.shown.request)
    have htype : e.lsType = (t.core.ports 0).uop.lsType :=
      (congrArg StoreBufferSlot.lsType hentry.slot).trans hentry.shown.lsType.symm
    refine ⟨e, w, rfl, hw, ?_⟩
    rw [regWrite, hdone, Bool.or_true, h.inStep.regFlush_of_execute hfsm, Bool.not_false,
      Bool.and_true, if_pos rfl, hlink, hreg, hdata, hwReg, loadWrite, loaded, htype]
    cases (t.core.ports 0).uop.doRegWrite <;> rfl

theorem LoadsInv.responds (hi : t.Legal i)
    (hfire : t.pipeline.uRFire (t.memInputs i) = true) : t.oldest ∈ t.reads ∧
    ∀ i', (t.step i).Legal i' → ∀ i'',
      ((t.step i).step i').oldest = t.oldest ∧ ((t.step i).step i').fires i'' = true := by
  have hload := loadingU_of_uRFire hfire
  have hread : t.pipeline.reading = true := by
    simp only [MemPipeline.uRFire, Bool.and_eq_true] at hfire
    simp [MemPipeline.reading, hfire.1]
  refine ⟨h.reads.mem_reading h.oneLoad h.inStep h.runs hread, fun i' hi' i'' => ?_⟩
  have hnext := h.step hi
  have hstate : (t.step i).pipeline.refill.state = .finishU := h.runs.finishU_step.mpr hfire
  obtain ⟨-, -, -, hold, -⟩ := stays_of_loadingU (i := i) h.oneLoad h.inStep h.runs hload
  have hload' : (t.step i).pipeline.loadingU = true := by simp [MemPipeline.loadingU, hstate]
  obtain ⟨-, -, -, hold', hfsm⟩ :=
    stays_of_loadingU (i := i') hnext.oneLoad hnext.inStep hnext.runs hload'
  refine ⟨hold'.trans hold, ?_⟩
  obtain ⟨e, u, hstd, hkind, -⟩ := read_head hnext.oneLoad hnext.inStep hnext.runs hload'
  have hwb : ((t.step i).step i').pipeline.wb = some e :=
    (hnext.runs.wb_step (i := (t.step i).memInputs i') hkind).mpr ⟨hstd, hstate⟩
  rw [((hnext.step hi').inStep.execute_step hfsm).1]
  simp [uncachedDone, hwb, hkind]

end Loads

/-- In every reachable state uncached loads read once and only when they retire. -/
theorem loadsOnce (h : machine.Reachable t) (hi : t.Legal i) : t.LoadsOnce i where
  only := (loadsInv h).only
  once := (loadsInv h).reads.nodup
  read := (loadsInv h).read
  kept n hn := (loadsInv h).inStep.settled.apart n ((loadsInv h).reads.committed n hn)
  stays := by
    intro hmem hfires
    have hinv := loadsInv h
    refine ⟨needFlush_of_not_fires hfires, ?_, oldest_of_stays hfires⟩
    rw [reads_step hinv.oneLoad hinv.inStep hinv.runs]
    split_ifs
    · exact List.mem_append_left _ hmem
    · exact hmem
  retires := (loadsInv h).retires
  returnedOnce := (loadsInv h).reads.once
  responds := (loadsInv h).responds hi

/-- A bus that is always ready. -/
def respond : Inputs := { mem := { uArReady := true, uRValid := true, uRData := fun _ => 7 } }

/-- A load of a device register is renamed and issues in the next cycle. -/
def deviceLoad : List Inputs :=
  [{ push := [{ uop :=
      { pc := 0x1c000000, fuType := .lsu, isLoad := true, lsType := .word,
        doRegWrite := true } }] },
   { mem := { head := { addr := 0x100, cached := false }, headReady := true } }] ++
    List.replicate 14 respond

/-- It has read, and retires. -/
theorem loadsOnce_deviceLoad :
    let t := machine.run atReset deviceLoad
    t.reads = [0] ∧ t.fires respond = true ∧ t.LoadsOnce respond := by
  refine ⟨by decide +kernel, by decide +kernel, loadsOnce
    (Clocked.Machine.Reachable.run (.reset init_atReset) (by decide +kernel)) ?_⟩
  exact (by decide +kernel : machine.legal (machine.run atReset deviceLoad) respond)

end MemCore

end NopCore
