import NopCore.Mem.Writeback

/-!
# Dirty lines are not dropped

The cache takes the valid bit of a dirty line away in four places: a refill puts
another line in its place, an uncached access finds it, an index or hit operation
reaches its way, or a StoreTag operation clears all valid bits. The first three
write the line back before. StoreTag does not, and it acts in MEM2, on an
instruction that may raise an exception or be flushed later.

The trace adds to the pipeline what the bus has received of the last write-back,
the line that the refill under way replaces, and what becomes of the StoreTag
operations that found valid lines.
-/

namespace NopCore

structure StoreTagTrace where
  pipeline : MemPipeline := {}
  /-- The words of the last write burst, as far as they have been transferred. -/
  burst : BitVec 4 → BWord := fun _ _ => 0
  /-- The dirty line that the last refill has replaced, when it began. -/
  victim : Option (LineAddr × (BitVec 4 → BWord)) := none
  /-- StoreTag operations that have cleared lines and not retired. -/
  pending : Nat := 0
  /-- A StoreTag operation that has cleared lines does not retire. -/
  cancelled : Bool := false

namespace StoreTagTrace

/-- The inputs of the pipeline, and whether the oldest pending StoreTag retires. -/
structure Inputs extends MemPipeline.Inputs where
  retireTag : Bool := false

variable (t : StoreTagTrace) (i : Inputs)

/-- A StoreTag operation clears valid bits. -/
def purges : Bool :=
  t.pipeline.storeTag && decide (∃ set : BitVec 6, ∃ way : Fin 2, t.pipeline.valids set way = true)

/-- The address of the line that a way holds. -/
def lineAt (set : BitVec 6) (way : Fin 2) : LineAddr := ⟨(t.pipeline.infoRAM set).tags way, set⟩

def dirtyAt (set : BitVec 6) (way : Fin 2) : Bool :=
  t.pipeline.valids set way && t.pipeline.dirtyBits set way

def pendingNext : Nat := t.pending - (if i.retireTag then 1 else 0)

def step : StoreTagTrace where
  pipeline := t.pipeline.step i.toInputs
  burst :=
    if t.pipeline.wFire i.toInputs then
      Function.update t.burst (BitVec.ofNat 4 t.pipeline.memory.wCount)
        (t.pipeline.writeback.dirtyLine t.pipeline.writeback.rspId)
    else t.burst
  victim :=
    if t.pipeline.miss then
      if t.dirtyAt t.pipeline.addr2.index t.pipeline.replaceWay then
        some (t.lineAt t.pipeline.addr2.index t.pipeline.replaceWay,
          t.pipeline.dataRAMs t.pipeline.replaceWay t.pipeline.addr2.index)
      else none
    else t.victim
  pending :=
    if i.flush then 0
    else t.pendingNext i + (if t.purges && !t.pipeline.uop2.except then 1 else 0)
  cancelled :=
    t.cancelled || (i.flush && (t.purges || t.pendingNext i != 0)) ||
      (t.purges && t.pipeline.uop2.except)

structure Init (t : StoreTagTrace) : Prop where
  pipeline : t.pipeline.Init
  victim : t.victim = none
  pending : t.pending = 0
  cancelled : t.cancelled = false

structure Legal (t : StoreTagTrace) (i : Inputs) : Prop where
  pipeline : t.pipeline.Legal i.toInputs
  retireTag : i.retireTag = true → 0 < t.pending

def machine : Clocked.Machine StoreTagTrace Inputs where
  init := Init
  legal := Legal
  step := step

/-- A line has been written back in full, with these words. -/
structure WrittenBack (line : LineAddr) (words : BitVec 4 → BWord) : Prop where
  idle : t.pipeline.writeback.state = .stateBoot
  line : t.pipeline.memory.awLine = line
  full : t.pipeline.memory.wCount = 16
  words : t.burst = words

/-- A dirty line that loses its valid bit has been written back as it is, unless a
StoreTag operation clears it; so has a dirty line that a refill has replaced, when
MEM2 gives way; and no StoreTag operation that clears lines raises an exception or
is flushed. -/
structure Kept : Prop where
  cleared : ∀ set way, t.dirtyAt set way = true → (t.step i).pipeline.valids set way = false →
    t.WrittenBack (t.lineAt set way) (t.pipeline.dataRAMs way set) ∨ t.purges = true
  replaced : t.pipeline.refill.state = .finish → t.pipeline.stuck2 i.toInputs = false →
    ∀ v ∈ t.victim, t.WrittenBack v.1 v.2
  retired : t.cancelled = false

/-- A StoreTag operation that finds valid lines carries no exception and is not
flushed before it retires. -/
structure TagsRetire (t : StoreTagTrace) (i : Inputs) : Prop where
  except : t.purges = true → t.pipeline.uop2.except = false ∧ i.flush = false
  flush : i.flush = true → t.pendingNext i = 0

variable {t i}

/-! ## The invariant -/

/-- The line of every way that is being given up is on its way to memory or has
arrived. -/
structure Inv (t : StoreTagTrace) : Prop where
  control : t.pipeline.Control
  sampled : t.pipeline.Sampled
  counters : t.pipeline.Counters
  saving : t.pipeline.writeback.state ≠ .stateBoot → t.pipeline.refilling = true →
    ∀ v ∈ t.victim, v.1 = t.pipeline.wbLine ∧ t.pipeline.Carries v.2 t.burst
  saved : t.pipeline.writeback.state = .stateBoot → t.pipeline.refilling = true →
    ∀ v ∈ t.victim, t.WrittenBack v.1 v.2
  clearing : t.pipeline.writeback.state ≠ .stateBoot → t.pipeline.refilling = false →
    t.pipeline.Carries
      (t.pipeline.dataRAMs t.pipeline.writeback.wayIdx t.pipeline.addr2.index) t.burst
  cleared : t.pipeline.writeback.state = .stateBoot → ∀ way, t.pipeline.Clearing way →
    t.dirtyAt t.pipeline.addr2.index way = true →
      t.WrittenBack (t.lineAt t.pipeline.addr2.index way)
        (t.pipeline.dataRAMs way t.pipeline.addr2.index)
  cancelled : t.cancelled = false

theorem inv_of_init (h : Init t) : t.Inv where
  control := .of_init h.pipeline
  sampled := .of_init h.pipeline
  counters := .of_init h.pipeline
  saving hbusy := absurd h.pipeline.writeback.1 hbusy
  saved _ hbusy := by simp [MemPipeline.refilling, h.pipeline.refill.1] at hbusy
  clearing hbusy := absurd h.pipeline.writeback.1 hbusy
  cleared _ way hclear := by
    obtain ⟨hfix, -⟩ | ⟨hop, -⟩ := hclear
    · simp [h.pipeline.fixUncache] at hfix
    · simp [h.pipeline.cacheFSM] at hop
  cancelled := h.cancelled

theorem receives (hcount : t.pipeline.Counters) :
    t.pipeline.Receives i.toInputs t.burst (t.step i).burst := by
  intro k
  simp only [step]
  cases hfire : t.pipeline.wFire i.toInputs with
  | false => rfl
  | true =>
    have hstate : t.pipeline.writeback.state = .writeMem := by
      simp only [MemPipeline.wFire, Bool.and_eq_true, beq_iff_eq] at hfire
      exact hfire.1
    rw [hcount.count hstate, BitVec.ofNat_toNat, BitVec.setWidth_eq]
    by_cases hk : k = t.pipeline.writeback.rspId
    · simp [hk]
    · simp [hk]

theorem writtenBack_step {line : LineAddr} {words : BitVec 4 → BWord}
    (hw : t.WrittenBack line words)
    (hidle : (t.step i).pipeline.writeback.state = .stateBoot) :
    (t.step i).WrittenBack line words := by
  have hfire : t.pipeline.wFire i.toInputs = false := by simp [MemPipeline.wFire, hw.idle]
  refine ⟨hidle, ?_, ?_, ?_⟩
  · rw [← hw.line]
    simp [step, MemPipeline.step, MemPipeline.nextMemory, hw.idle]
  · rw [← hw.full]
    simp [step, MemPipeline.step, MemPipeline.nextMemory, hw.idle, hfire]
  · rw [← hw.words]
    simp [step, hfire]

theorem writtenBack_done {img : BitVec 4 → BWord} (hcount : t.pipeline.Counters)
    (hcarry : t.pipeline.Carries img t.burst) (hbusy : t.pipeline.writeback.state ≠ .stateBoot)
    (hidle : (t.step i).pipeline.writeback.state = .stateBoot) :
    (t.step i).WrittenBack t.pipeline.wbLine img := by
  obtain ⟨hline, hfull, himg, hstate⟩ := hcarry.done hcount hbusy hidle
  have hfire : t.pipeline.wFire i.toInputs = false := by simp [MemPipeline.wFire, hstate]
  refine ⟨hidle, ?_, ?_, ?_⟩
  · rw [← hline]
    simp [step, MemPipeline.step, MemPipeline.nextMemory, hstate]
  · rw [← hfull]
    simp [step, MemPipeline.step, MemPipeline.nextMemory, hstate, hfire]
  · rw [← himg]
    simp [step, hfire]

section Step

variable (h : t.Inv)
include h

/-- What the trace says of a dirty way, MEM2 knows. -/
theorem sampled_dirtyAt {way : Fin 2} (hactive : t.pipeline.active = true)
    (hno : ¬ t.pipeline.Filled t.pipeline.addr2.index way)
    (hdirty : t.dirtyAt t.pipeline.addr2.index way = true) :
    t.pipeline.setValids way = true ∧ t.pipeline.setDirty way = true ∧
      t.lineAt t.pipeline.addr2.index way =
        ⟨t.pipeline.info.tags way, t.pipeline.addr2.index⟩ := by
  rw [dirtyAt, Bool.and_eq_true] at hdirty
  refine ⟨h.sampled.valids hactive way hdirty.1 hno, ?_, ?_⟩
  · rw [h.sampled.dirty hactive way hno]
    exact hdirty.2
  · rw [lineAt, h.sampled.tags2 hactive way hdirty.1 hno]

/-- A dirty line that is to be replaced is written back. -/
theorem triggered_victim (hmiss : t.pipeline.miss = true) {v : LineAddr × (BitVec 4 → BWord)}
    (hv : v ∈ (t.step i).victim) :
    (t.step i).pipeline.writeback.state ≠ .stateBoot ∧
      v = (⟨t.pipeline.info.tags t.pipeline.replaceWay, t.pipeline.addr2.index⟩,
        t.pipeline.dataRAMs t.pipeline.replaceWay t.pipeline.addr2.index) := by
  have hreq : t.pipeline.refill.state = .stateBoot ∧ t.pipeline.reqValid = true := by
    simp only [MemPipeline.miss, Bool.and_eq_true, beq_iff_eq] at hmiss
    exact hmiss.1
  have hno : ¬ t.pipeline.Filled t.pipeline.addr2.index t.pipeline.replaceWay := by
    rintro ⟨hfinish, -⟩
    rw [hreq.1] at hfinish
    cases hfinish
  simp only [step, hmiss, if_true] at hv
  split_ifs at hv with hdirty
  · obtain ⟨hset, hbit, hline⟩ :=
      sampled_dirtyAt h (MemPipeline.active_of_reqValid hreq.2) hno hdirty
    refine ⟨MemPipeline.triggered_of_miss h.control hmiss hset hbit, ?_⟩
    rw [← Option.mem_some.mp hv, hline]
  · simp at hv

omit h in
theorem victim_step (hrefill : t.pipeline.refilling = true) : (t.step i).victim = t.victim := by
  have hmiss : t.pipeline.miss = false := by
    by_contra hmiss
    simp only [MemPipeline.miss, Bool.not_eq_false, Bool.and_eq_true, beq_iff_eq] at hmiss
    simp [MemPipeline.refilling, hmiss.1.1] at hrefill
  simp [step, hmiss]

theorem saving_step (hlegal : t.Legal i)
    (hbusy : (t.step i).pipeline.writeback.state ≠ .stateBoot)
    (hrefill : (t.step i).pipeline.refilling = true) :
    ∀ v ∈ (t.step i).victim, v.1 = (t.step i).pipeline.wbLine ∧
      (t.step i).pipeline.Carries v.2 (t.step i).burst := by
  intro v hv
  have hcontrol := h.control.step hlegal.pipeline
  by_cases hnow : t.pipeline.writeback.state = .stateBoot
  · have hs := MemPipeline.stuck2_of_started hnow hbusy
    have hidle := MemPipeline.not_refilling_of_started h.control hnow hbusy
    have hmiss : t.pipeline.miss = true := by
      obtain hrefill | hmiss := MemPipeline.refilling_before h.control hs hrefill
      · rw [hidle] at hrefill
        cases hrefill
      · exact hmiss
    obtain ⟨-, rfl⟩ := triggered_victim h hmiss hv
    have hheld := MemPipeline.held_step hs
    have hway : (t.pipeline.step i.toInputs).writeback.wayIdx = t.pipeline.replaceWay :=
      (hcontrol.wayIdx_refilling hbusy hrefill).trans hheld.replaceWay
    refine ⟨?_, .start h.counters h.control hnow hbusy fun k => by rw [hway]⟩
    simp only [MemPipeline.wbLine, step]
    rw [hway, hheld.info, hheld.addr2]
  · have hs := MemPipeline.stuck2_of_writeback (i := i.toInputs) hnow
    have hrefilling : t.pipeline.refilling = true := by
      obtain hrefill | hmiss := MemPipeline.refilling_before h.control hs hrefill
      · exact hrefill
      · exact absurd (h.control.writeback_miss hmiss) hnow
    rw [victim_step hrefilling] at hv
    obtain ⟨hline, hcarry⟩ := h.saving hnow hrefilling v hv
    exact ⟨hline.trans (MemPipeline.wbLine_step hnow).symm,
      hcarry.step h.counters hnow (receives h.counters)⟩

theorem saved_step (hidle : (t.step i).pipeline.writeback.state = .stateBoot)
    (hrefill : (t.step i).pipeline.refilling = true) :
    ∀ v ∈ (t.step i).victim, (t.step i).WrittenBack v.1 v.2 := by
  intro v hv
  have hs : t.pipeline.stuck2 i.toInputs = true := by
    by_contra hs
    have hboot := (MemPipeline.givesWay (Bool.of_not_eq_true hs)).refill_step
      (Bool.of_not_eq_true hs)
    simp [MemPipeline.refilling, step, hboot] at hrefill
  obtain hrefilling | hmiss := MemPipeline.refilling_before h.control hs hrefill
  · rw [victim_step hrefilling] at hv
    by_cases hnow : t.pipeline.writeback.state = .stateBoot
    · exact writtenBack_step (h.saved hnow hrefilling v hv) hidle
    · obtain ⟨hline, hcarry⟩ := h.saving hnow hrefilling v hv
      rw [hline]
      exact writtenBack_done h.counters hcarry hnow hidle
  · exact absurd hidle (triggered_victim h hmiss hv).1

theorem clearing_step (hbusy : (t.step i).pipeline.writeback.state ≠ .stateBoot)
    (hrefill : (t.step i).pipeline.refilling = false) :
    (t.step i).pipeline.Carries ((t.step i).pipeline.dataRAMs
      (t.step i).pipeline.writeback.wayIdx (t.step i).pipeline.addr2.index) (t.step i).burst := by
  have hs : t.pipeline.stuck2 i.toInputs = true := by
    by_contra hs
    exact hbusy (MemPipeline.givesWay (Bool.of_not_eq_true hs)).writeback_step
  have hidle : t.pipeline.refilling = false := by
    by_contra hrefilling
    have hstay := MemPipeline.refilling_step hs (Bool.of_not_eq_false hrefilling)
    rw [show (t.pipeline.step i.toInputs).refilling = false from hrefill] at hstay
    cases hstay
  have hram : (t.step i).pipeline.dataRAMs = t.pipeline.dataRAMs :=
    MemPipeline.dataRAMs_step (MemPipeline.not_refillWrite_of_not_refilling hidle)
      (MemPipeline.stdCommit_of_stuck hs)
  have haddr : (t.step i).pipeline.addr2 = t.pipeline.addr2 := (MemPipeline.held_step hs).addr2
  rw [hram, haddr]
  by_cases hnow : t.pipeline.writeback.state = .stateBoot
  · exact .start h.counters h.control hnow hbusy fun k => rfl
  · have hcarry := h.clearing hnow hidle
    have hway : (t.step i).pipeline.writeback.wayIdx = t.pipeline.writeback.wayIdx :=
      MemPipeline.wayIdx_step hnow
    rw [hway]
    exact hcarry.step h.counters hnow (receives h.counters)

theorem cleared_step (hidle : (t.step i).pipeline.writeback.state = .stateBoot) (way : Fin 2)
    (hclear : (t.step i).pipeline.Clearing way)
    (hdirty : (t.step i).dirtyAt (t.step i).pipeline.addr2.index way = true) :
    (t.step i).WrittenBack ((t.step i).lineAt (t.step i).pipeline.addr2.index way)
      ((t.step i).pipeline.dataRAMs way (t.step i).pipeline.addr2.index) := by
  obtain ⟨hs, hbefore⟩ := MemPipeline.clearing_before hclear
  have hreq : t.pipeline.reqValid = false :=
    hbefore.elim h.control.reqValid_clearing (MemPipeline.reqValid_begins h.control)
  have hnot := h.control.refilling_of_not_reqValid hreq
  have hcommit := MemPipeline.not_commit_of_not_refilling hnot
  have hram : (t.step i).pipeline.dataRAMs = t.pipeline.dataRAMs :=
    MemPipeline.dataRAMs_step (MemPipeline.not_refillWrite_of_not_refilling hnot)
      (MemPipeline.stdCommit_of_stuck hs)
  have haddr : (t.step i).pipeline.addr2 = t.pipeline.addr2 := (MemPipeline.held_step hs).addr2
  have hinfo : (t.step i).pipeline.infoRAM = t.pipeline.infoRAM :=
    MemPipeline.infoRAM_stuck hs hcommit
  have hbits : (t.step i).pipeline.dirtyBits = t.pipeline.dirtyBits :=
    MemPipeline.dirtyBits_stuck hs hcommit
  have hdirty' : t.dirtyAt t.pipeline.addr2.index way = true := by
    rw [dirtyAt, haddr, hbits, Bool.and_eq_true] at hdirty
    rw [dirtyAt, Bool.and_eq_true]
    refine ⟨?_, hdirty.2⟩
    obtain hvalid | ⟨hstate, -⟩ := MemPipeline.valids_step hdirty.1
    · exact hvalid
    · exact absurd hstate hcommit
  have hactive : t.pipeline.active = true :=
    hbefore.elim h.control.active_of_clearing (MemPipeline.active_of_begins h.control)
  have hno : ¬ t.pipeline.Filled t.pipeline.addr2.index way :=
    MemPipeline.not_filled_of_not_refilling hnot _ _
  obtain ⟨hset, hbit, hline⟩ := sampled_dirtyAt h hactive hno hdirty'
  rw [hram, haddr, lineAt, hinfo, ← lineAt]
  obtain hclearing | hbegins := hbefore
  · by_cases hnow : t.pipeline.writeback.state = .stateBoot
    · exact writtenBack_step (h.cleared hnow way hclearing hdirty') hidle
    · have hway := h.control.clearing_unique hclearing (h.control.clearing_wayIdx hnow hnot)
      rw [hline]
      subst hway
      exact writtenBack_done h.counters (h.clearing hnow hnot) hnow hidle
  · exact absurd hidle (MemPipeline.triggered_of_begins h.control hbegins hset hbit)

theorem cancelled_step (hi : t.TagsRetire i) : (t.step i).cancelled = false := by
  have hexcept : (t.purges && t.pipeline.uop2.except) = false := by
    cases hpurge : t.purges with
    | false => rfl
    | true => exact (hi.except hpurge).1
  have hflush : (i.flush && (t.purges || t.pendingNext i != 0)) = false := by
    cases hf : i.flush with
    | false => rfl
    | true =>
      have hpurge : t.purges = false := by
        by_contra hpurge
        have hno := (hi.except (Bool.of_not_eq_false hpurge)).2
        rw [hf] at hno
        cases hno
      simp [hpurge, hi.flush hf]
  simp [step, h.cancelled, hexcept, hflush]

theorem inv_step (hlegal : t.Legal i) (hi : t.TagsRetire i) : (t.step i).Inv where
  control := h.control.step hlegal.pipeline
  sampled := h.sampled.step h.control
  counters := h.counters.step h.control
  saving := saving_step h hlegal
  saved := saved_step h
  clearing := clearing_step h
  cleared := cleared_step h
  cancelled := cancelled_step h hi

/-! ## Dirty lines are not dropped -/

theorem kept_of_inv : t.Kept i where
  cleared := by
    intro set way hdirty hgone
    have hvalid : t.pipeline.valids set way = true := (Bool.and_eq_true_iff.mp hdirty).1
    simp only [step, MemPipeline.step, MemPipeline.nextValids] at hgone
    split_ifs at hgone with hcommit hclear htag
    · obtain ⟨rfl, hway⟩ := hclear
      simp only [MemPipeline.clearWay] at hway
      split_ifs at hway with hfix hop
      · have hidle := (MemPipeline.givesWay (by simpa using hfix.2)).writeback
        exact .inl (h.cleared hidle way (Or.inl ⟨hfix.1, (Option.some.inj hway).symm⟩) hdirty)
      · have hidle : t.pipeline.writeback.state = .stateBoot := by
          simpa [MemPipeline.writebackIdle] using hop.2
        exact .inl (h.cleared hidle way (Or.inr ⟨hop.1, (Option.some.inj hway).symm⟩) hdirty)
    · refine .inr ?_
      rw [purges, htag, Bool.true_and, decide_eq_true_eq]
      exact ⟨set, way, hvalid⟩
    · rw [hvalid] at hgone
      cases hgone
  replaced := by
    intro hfinish hs
    exact h.saved (MemPipeline.givesWay hs).writeback (by simp [MemPipeline.refilling, hfinish])
  retired := h.cancelled

end Step

/-- Along every run in which the StoreTag operations that find valid lines retire. -/
theorem kept_of_tagsRetire (h : (machine.restrict TagsRetire).Reachable t) : t.Kept i := by
  refine kept_of_inv (Clocked.Machine.invariant (P := Inv) (fun _ => inv_of_init) ?_ h)
  rintro t i ht ⟨hlegal, hi⟩
  exact inv_step ht hlegal hi

/-! ## Runs -/

instance (t : StoreTagTrace) (i : Inputs) : Decidable (machine.legal t i) :=
  decidable_of_iff
    (((i.headReady = true → ¬ (i.head.isLoad = true ∧ i.head.isStore = true)) ∧
      (i.commitStore = true → t.pipeline.storeBuffer.hasUnretired = true)) ∧
      (i.retireTag = true → 0 < t.pending))
    ⟨fun ⟨⟨h1, h2⟩, h3⟩ => ⟨⟨h1, h2⟩, h3⟩, fun ⟨⟨h1, h2⟩, h3⟩ => ⟨⟨h1, h2⟩, h3⟩⟩

instance (t : StoreTagTrace) (i : Inputs) : Decidable ((machine.restrict TagsRetire).legal t i) :=
  decidable_of_iff
    (machine.legal t i ∧
      (t.purges = true → t.pipeline.uop2.except = false ∧ i.flush = false) ∧
      (i.flush = true → t.pendingNext i = 0))
    ⟨fun ⟨h, h1, h2⟩ => ⟨h, h1, h2⟩, fun ⟨h, hi⟩ => ⟨h, hi.except, hi.flush⟩⟩

theorem init_atReset : Init {} :=
  ⟨⟨fun _ => rfl, ⟨rfl, rfl⟩, ⟨rfl, rfl⟩, ⟨rfl, rfl⟩, ⟨rfl, rfl⟩, rfl, ⟨rfl, rfl⟩, fun _ _ => rfl,
    fun _ _ => rfl, ⟨rfl, rfl, rfl⟩, rfl, rfl, ⟨rfl, rfl⟩, rfl⟩, rfl, rfl, rfl⟩

def idle : Inputs := {}

def issue (uop : MemUop) : Inputs := { head := uop, headReady := true }

/-- A store of 7 to the bytes at 0x100. -/
def storeUop : MemUop where
  isStore := true
  addr := 0x100
  be := fun _ => true
  data := fun _ => 7

def storeTagUop : MemUop where
  cacheOp := .storeTag
  cacheSel := .dCache

def wait (n : Nat) : List Inputs := List.replicate n idle

def beats : List Inputs := List.replicate 16 { rValid := true }

/-- The store retires, misses, and is merged into the line. -/
def storeInCache : List Inputs :=
  [issue storeUop] ++ wait 4 ++ [{ commitStore := true }] ++ wait 6 ++ [{ arReady := true }] ++
    beats ++ wait 4

/-- A StoreTag operation on the wrong path is issued and flushed. -/
def storeTagThenFlush : List Inputs :=
  storeInCache ++ [issue storeTagUop] ++ wait 4 ++ [{ flush := true }]

/-- The line with the store is in no way and not in memory. -/
theorem storeTagThenFlush_not_kept :
    (machine.run {} storeInCache).dirtyAt 4 0 = true ∧
      machine.Reachable (machine.run {} storeTagThenFlush) ∧
      (∀ way, (machine.run {} storeTagThenFlush).pipeline.valids 4 way = false) ∧
      (machine.run {} storeTagThenFlush).pipeline.memory.content (wordAddr 0x100) 0 ≠ 7 ∧
      ¬ (machine.run {} storeTagThenFlush).Kept idle := by
  have hstart : machine.Reachable {} := .reset init_atReset
  refine ⟨by decide +kernel, hstart.run (by decide +kernel), by decide +kernel,
    by decide +kernel, ?_⟩
  intro hkept
  have hcancelled : (machine.run {} storeTagThenFlush).cancelled = true := by decide +kernel
  rw [hkept.retired] at hcancelled
  cases hcancelled

/-- The operation retires before a later flush. -/
theorem kept_storeTagRetires :
    (machine.run {} (storeInCache ++ [issue storeTagUop] ++ wait 4 ++
      [{ retireTag := true }, { flush := true }])).Kept idle :=
  kept_of_tagsRetire (Clocked.Machine.reachable_restrict_run init_atReset (by decide +kernel))

end StoreTagTrace

end NopCore
