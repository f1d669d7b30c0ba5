import NopCore.Mem.Samples

/-!
# The write-back of a line

The words of the line are read one after the other through the read ports, two
cycles late, into a buffer; then address and words go to the bus. While the words
are read nothing is written to the line, since a refill does not accept data
before that. So what the bus receives is the line as it was when the write-back
began.

`Carries img far` says this of a write-back under way: `img` is the line as it
was, and `far` what the far side of the bus has of it.
-/

namespace NopCore

namespace MemPipeline

variable {s : MemPipeline} {i : Inputs}

/-- The line that is written back. -/
def wbLine (s : MemPipeline) : LineAddr := ⟨s.info.tags s.writeback.wayIdx, s.addr2.index⟩

theorem stuck2_of_writeback (h : s.writeback.state ≠ .stateBoot) : s.stuck2 i = true := by
  simp [stuck2, writebackIdle, h]

theorem wayIdx_step (h : s.writeback.state ≠ .stateBoot) :
    (s.step i).writeback.wayIdx = s.writeback.wayIdx := by
  simp only [step, nextWriteback]
  cases hstate : s.writeback.state with
  | stateBoot => exact absurd hstate h
  | fetchCache => rfl
  | waitAW => simp only; split_ifs <;> rfl
  | writeMem => simp only; split_ifs <;> rfl
  | waitB => simp only; split_ifs <;> rfl

theorem wbLine_step (h : s.writeback.state ≠ .stateBoot) : (s.step i).wbLine = s.wbLine := by
  have hheld := held_step (i := i) (stuck2_of_writeback h)
  rw [wbLine, wayIdx_step h, hheld.info, hheld.addr2, wbLine]

/-! ## The data RAMs -/

/-- Without a refill word and without a store the data RAMs stay. -/
theorem dataRAMs_step (hrefill : s.refillWrite = false) (hstd : s.stdCommit i = false) :
    (s.step i).dataRAMs = s.dataRAMs := by
  funext way set k
  simp only [step, nextDataRAMs, hrefill, hstd]
  cases s.mem2.std <;> simp

theorem stdCommit_of_stuck (hs : s.stuck2 i = true) : s.stdCommit i = false := by
  simp [stdCommit, hitCommit, hs]

/-- While MEM2 is held, only a refill changes dirty bits and tags. -/
theorem dirtyBits_stuck (hs : s.stuck2 i = true) (hcommit : s.refill.state ≠ .commit) :
    (s.step i).dirtyBits = s.dirtyBits := by
  funext set way
  simp [step, nextDirtyBits, dirtyWrite, hcommit, stdCommit_of_stuck hs]

theorem infoRAM_stuck (hs : s.stuck2 i = true) (hcommit : s.refill.state ≠ .commit) :
    (s.step i).infoRAM = s.infoRAM := by
  funext set
  simp [step, infoWrite, hcommit, hitCommit, hs]

theorem not_commit_of_not_refilling (h : s.refilling = false) : s.refill.state ≠ .commit := by
  rintro hcommit
  simp [refilling, hcommit] at h

/-! ## The counters -/

/-- The counters where they are not counting, the refill while the victim is being
read, and the write burst. -/
structure Counters (s : MemPipeline) : Prop where
  boot : s.writeback.state = .stateBoot → s.writeback.rspId = 0 ∧ s.writeback.rspIdDelay1 = 0
  waitB : s.writeback.state = .waitB → s.writeback.rspId = 0
  fetching : s.fetching = true →
    s.refill.refillValid = false ∧ s.refill.state ≠ .commit ∧ s.refill.state ≠ .finish
  refillValid : s.refill.refillValid = true →
    s.refill.state = .readMem ∨ s.refill.state = .commit
  commit : s.refill.state = .commit → s.refill.refillValid = true
  line : s.writeback.state = .writeMem ∨ s.writeback.state = .waitB → s.memory.awLine = s.wbLine
  count : s.writeback.state = .writeMem → s.memory.wCount = s.writeback.rspId.toNat
  full : s.writeback.state = .waitB → s.memory.wCount = 16

/-- A write-back is started by a miss, by an uncached access or by a cache
operation. -/
theorem started (h : s.writeback.state = .stateBoot)
    (hbusy : (s.step i).writeback.state ≠ .stateBoot) :
    (s.step i).writeback.state = .fetchCache ∧ (s.miss = true ∨ s.startFix = true ∨
      s.checking = true) := by
  by_cases htrigger : (s.triggerWriteback || s.triggerWritebackFixUncache ||
      s.triggerWritebackCACHE) = true
  · refine ⟨by simp [step, nextWriteback, h, htrigger], ?_⟩
    simp only [triggerWriteback, triggerWritebackFixUncache, triggerWritebackCACHE,
      Bool.or_eq_true, Bool.and_eq_true] at htrigger
    obtain (hmiss | hfix) | hop := htrigger
    · exact .inl hmiss.1.1
    · exact .inr (.inl hfix.1.1)
    · exact .inr (.inr hop.1.1)
  · simp [step, nextWriteback, h, htrigger] at hbusy

theorem stuck2_of_started (h : s.writeback.state = .stateBoot)
    (hbusy : (s.step i).writeback.state ≠ .stateBoot) : s.stuck2 i = true := by
  obtain ⟨-, hmiss | hfix | hop⟩ := started h hbusy
  · simp [stuck2, hmiss]
  · simp [stuck2, hfix]
  · simp [stuck2, hop]

theorem fetching_before (h : (s.step i).writeback.state = .fetchCache) :
    s.writeback.state = .stateBoot ∨ s.writeback.state = .fetchCache := by
  simp only [step, nextWriteback] at h
  cases hstate : s.writeback.state with
  | stateBoot => exact .inl rfl
  | fetchCache => exact .inr rfl
  | waitAW =>
    simp only [hstate] at h
    split_ifs at h
  | writeMem =>
    simp only [hstate] at h
    split_ifs at h
  | waitB =>
    simp only [hstate] at h
    split_ifs at h

/-- No refill is at work when a write-back starts. -/
theorem not_refilling_of_started (hc : s.Control) (h : s.writeback.state = .stateBoot)
    (hbusy : (s.step i).writeback.state ≠ .stateBoot) : s.refilling = false := by
  obtain ⟨-, hmiss | hfix | hop⟩ := started h hbusy
  · simp only [miss, Bool.and_eq_true, beq_iff_eq] at hmiss
    simp [refilling, hmiss.1.1]
  · exact hc.refilling_of_not_reqValid (hc.reqValid_startFix hfix)
  · exact hc.refilling_of_not_reqValid (hc.reqValid_checking hop)

theorem not_rFire_of_not_refilling (h : s.refilling = false) : s.rFire i = false := by
  simp only [refilling, Bool.or_eq_false_iff, beq_eq_false_iff_ne] at h
  simp [rFire, rReady, h.1.1.2]

theorem not_refillWrite_of_not_refilling (h : s.refilling = false) : s.refillWrite = false := by
  simp only [refilling, Bool.or_eq_false_iff, beq_eq_false_iff_ne] at h
  simp [refillWrite, h.1.1.2, h.1.2]

theorem Counters.not_refillWrite (h : s.Counters) (hfetch : s.fetching = true) :
    s.refillWrite = false := by
  obtain ⟨hvalid, hcommit, -⟩ := h.fetching hfetch
  simp [refillWrite, hvalid, hcommit]

theorem commit_step :
    (s.step i).refill.state = .commit ↔ s.rFire i = true ∧ s.rLast = true := by
  have hfire : s.rFire i = true → s.refill.state = .readMem := by
    simp only [rFire, rReady, Bool.and_eq_true, beq_iff_eq]
    exact fun h => h.2.1
  simp only [step, nextRefill]
  cases hstate : s.refill.state <;> grind

theorem refillValid_step : (s.step i).refill.refillValid = s.rFire i := by
  simp only [step, nextRefill]
  split <;> (try split_ifs) <;> rfl

theorem Counters.of_init (h : s.Init) : s.Counters where
  boot := fun _ => h.writeback.2
  waitB := by simp [h.writeback.1]
  fetching := by simp [MemPipeline.fetching, h.writeback.1]
  refillValid := by simp [h.refill.2]
  commit := by simp [h.refill.1]
  line := by simp [h.writeback.1]
  count := by simp [h.writeback.1]
  full := by simp [h.writeback.1]

/-- The states from which words are sent. -/
theorem sending_before (h : (s.step i).writeback.state = .writeMem ∨
    (s.step i).writeback.state = .waitB) :
    (s.writeback.state = .waitAW ∧ i.awReady = true) ∨ s.writeback.state = .writeMem ∨
      s.writeback.state = .waitB := by
  simp only [step, nextWriteback] at h
  cases hstate : s.writeback.state <;> simp only [hstate] at h <;> grind

theorem wCount_waitAW (hstate : s.writeback.state = .waitAW) (hready : i.awReady = true) :
    (s.step i).memory.wCount = 0 ∧ (s.step i).memory.awLine = s.wbLine := by
  simp [step, nextMemory, hstate, hready, wbLine]

theorem awLine_step (h : s.writeback.state ≠ .waitAW) :
    (s.step i).memory.awLine = s.memory.awLine := by
  simp [step, nextMemory, h]

theorem wCount_step (h : s.writeback.state ≠ .waitAW) :
    (s.step i).memory.wCount = s.memory.wCount + (if s.wFire i then 1 else 0) := by
  simp only [step, nextMemory, h]
  cases s.wFire i <;> simp

theorem Counters.line_step (h : s.Counters) (hnext : (s.step i).writeback.state = .writeMem ∨
    (s.step i).writeback.state = .waitB) : (s.step i).memory.awLine = (s.step i).wbLine := by
  obtain ⟨hstate, hready⟩ | hstate := sending_before hnext
  · rw [wbLine_step (by simp [hstate]), (wCount_waitAW hstate hready).2]
  · have haw : s.writeback.state ≠ .waitAW := by
      obtain hstate | hstate := hstate <;> simp [hstate]
    have hboot : s.writeback.state ≠ .stateBoot := by
      obtain hstate | hstate := hstate <;> simp [hstate]
    rw [wbLine_step hboot, awLine_step haw, h.line hstate]

/-- In the middle of the burst the counter of the line counts the beats. -/
theorem Counters.count_step (h : s.Counters) (hnext : (s.step i).writeback.state = .writeMem) :
    (s.step i).memory.wCount = (s.step i).writeback.rspId.toNat := by
  obtain ⟨hstate, hready⟩ | hstate | hstate := sending_before (.inl hnext)
  · rw [(wCount_waitAW hstate hready).1]
    simp [step, nextWriteback, hstate, hready]
  · rw [wCount_step (by simp [hstate]), h.count hstate]
    cases hready : i.wReady with
    | false => simp [wFire, step, nextWriteback, hstate, hready]
    | true =>
      have hmore : s.writeback.rspId ≠ 15 := by
        rintro hlast
        simp [step, nextWriteback, hstate, hready, hlast] at hnext
      have hlt : s.writeback.rspId.toNat < 15 := by
        have hne : s.writeback.rspId.toNat ≠ 15 := fun heq => hmore (BitVec.eq_of_toNat_eq heq)
        have hle := s.writeback.rspId.isLt
        omega
      have hrsp : (s.step i).writeback.rspId = s.writeback.rspId + 1 := by
        simp [step, nextWriteback, hstate, hready]
      rw [hrsp, BitVec.toNat_add]
      simp [wFire, hstate, hready]
      omega
  · simp only [step, nextWriteback, hstate] at hnext
    split_ifs at hnext

theorem Counters.full_step (h : s.Counters) (hnext : (s.step i).writeback.state = .waitB) :
    (s.step i).memory.wCount = 16 := by
  obtain ⟨hstate, hready⟩ | hstate | hstate := sending_before (.inr hnext)
  · simp [step, nextWriteback, hstate, hready] at hnext
  · rw [wCount_step (by simp [hstate]), h.count hstate]
    cases hready : i.wReady with
    | false => simp [step, nextWriteback, hstate, hready] at hnext
    | true =>
      have hlast : s.writeback.rspId = 15 := by
        simpa [step, nextWriteback, hstate, hready] using hnext
      rw [hlast]
      simp [wFire, hstate, hready]
  · rw [wCount_step (by simp [hstate]), h.full hstate]
    simp [wFire, hstate]

theorem Counters.step (h : s.Counters) (hc : s.Control) : (s.step i).Counters where
  boot := by
    have hboot := h.boot
    have hwait := h.waitB
    simp only [MemPipeline.step, nextWriteback]
    cases hstate : s.writeback.state <;> grind
  waitB := by
    simp only [MemPipeline.step, nextWriteback]
    have hwait := h.waitB
    cases hstate : s.writeback.state <;> grind
  fetching := by
    intro hfetch
    have hstate : (s.step i).writeback.state = .fetchCache := by
      simpa [MemPipeline.fetching] using hfetch
    have hbusy : (s.step i).writeback.state ≠ .stateBoot := by simp [hstate]
    have hquiet : s.rFire i = false ∧ s.refill.state ≠ .commit ∧ s.refill.state ≠ .finish := by
      obtain hnow | hnow := fetching_before hstate
      · have hidle := not_refilling_of_started hc hnow hbusy
        refine ⟨not_rFire_of_not_refilling hidle, ?_, ?_⟩
        all_goals
          intro hrefill
          simp [refilling, hrefill] at hidle
      · have hfetching : s.fetching = true := by simp [MemPipeline.fetching, hnow]
        exact ⟨by simp [rFire, rReady, hfetching], (h.fetching hfetching).2⟩
    refine ⟨by rw [refillValid_step, hquiet.1], ?_, ?_⟩
    · rw [Ne, commit_step, hquiet.1]
      simp
    · rw [Ne, finish_step]
      rintro (hcommit | ⟨hfinish, -⟩)
      · exact hquiet.2.1 hcommit
      · exact hquiet.2.2 hfinish
  refillValid := by
    intro hvalid
    rw [refillValid_step] at hvalid
    have hread : s.refill.state = .readMem := by
      simp only [rFire, rReady, Bool.and_eq_true, beq_iff_eq] at hvalid
      exact hvalid.2.1
    simp only [MemPipeline.step, nextRefill, hread]
    split_ifs
    · exact .inr rfl
    · exact .inl rfl
  commit := by
    intro hcommit
    rw [refillValid_step]
    exact (commit_step.mp hcommit).1
  line := h.line_step
  count := h.count_step
  full := h.full_step

/-! ## What is written back -/

/-- A refill ends when MEM2 gives way. -/
theorem refilling_step (hs : s.stuck2 i = true) (h : s.refilling = true) :
    (s.step i).refilling = true := by
  simp only [refilling, Bool.or_eq_true, beq_iff_eq] at h ⊢
  simp only [step, nextRefill]
  obtain ((hstate | hstate) | hstate) | hstate := h <;> simp only [hstate] <;> grind

theorem refilling_before (hc : s.Control) (hs : s.stuck2 i = true)
    (h : (s.step i).refilling = true) : s.refilling = true ∨ s.miss = true := by
  obtain ⟨hreq, hhit⟩ := hc.refill_step hs h
  by_cases hboot : s.refill.state = .stateBoot
  · exact .inr (by simp [miss, hboot, hreq, hhit])
  · refine .inl ?_
    by_contra hidle
    have hload : s.loadingU = true := by
      simp only [refilling, Bool.not_eq_true, Bool.or_eq_false_iff, beq_eq_false_iff_ne] at hidle
      simp only [loadingU, Bool.or_eq_true, beq_iff_eq]
      cases hstate : s.refill.state <;> simp_all
    have hno := hc.reqValid_uncached (by simp [hc.load hload])
    rw [hreq] at hno
    cases hno

/-- The way to be replaced is written back if it is valid and dirty. -/
theorem triggered_of_miss (hc : s.Control) (hmiss : s.miss = true)
    (hvalid : s.setValids s.replaceWay = true) (hdirty : s.setDirty s.replaceWay = true) :
    (s.step i).writeback.state ≠ .stateBoot := by
  simp [step, nextWriteback, hc.writeback_miss hmiss, triggerWriteback, hmiss, hvalid, hdirty]

/-- A way is going to be invalidated. -/
def Begins (s : MemPipeline) (way : Fin 2) : Prop :=
  (s.startFix = true ∧ way = s.hitWay) ∨ (s.checking = true ∧ way = s.cacheFSM.wayCounter)

theorem reqValid_begins (hc : s.Control) {way : Fin 2} (h : s.Begins way) :
    s.reqValid = false := by
  obtain ⟨hfix, -⟩ | ⟨hop, -⟩ := h
  · exact hc.reqValid_startFix hfix
  · exact hc.reqValid_checking hop

theorem active_of_begins (hc : s.Control) {way : Fin 2} (h : s.Begins way) :
    s.active = true := by
  obtain ⟨hfix, -⟩ | ⟨hop, -⟩ := h
  · simp only [startFix, Bool.and_eq_true] at hfix
    exact active_of_uncached hfix.1.2
  · simp only [checking, Bool.and_eq_true, beq_iff_eq] at hop
    exact hc.active_of_cacheOp (by simp [hop.1])

/-- Before it is invalidated, the way has been looked at. -/
theorem clearing_before {way : Fin 2} (h : (s.step i).Clearing way) :
    s.stuck2 i = true ∧ (s.Clearing way ∨ s.Begins way) := by
  obtain ⟨hfix, rfl⟩ | ⟨hop, rfl⟩ := h
  · cases hnow : s.fixUncache with
    | stateBoot =>
      have hstart : s.startFix = true := by
        simpa [step, nextFixUncache, hnow] using hfix
      have hs : s.stuck2 i = true := by simp [stuck2, hstart]
      exact ⟨hs, .inr (Or.inl ⟨hstart, (held_step hs).hitWay⟩)⟩
    | waitWriteback =>
      have hs : s.stuck2 i = true := by simpa [step, nextFixUncache, hnow] using hfix
      exact ⟨hs, .inl (Or.inl ⟨hnow, (held_step hs).hitWay⟩)⟩
  · simp only [step, nextCacheFSM] at hop ⊢
    cases hnow : s.cacheFSM.state with
    | stateBoot =>
      simp only [hnow] at hop
      split_ifs at hop
      rw [hnow] at hop
      cases hop
    | checkWay =>
      simp only [hnow] at hop ⊢
      cases hall : s.cacheFSM.finishAllWay with
      | true =>
        simp only [hall] at hop
        split_ifs at hop <;> simp_all
      | false =>
        have hcheck : s.checking = true := by simp [checking, hnow, hall]
        refine ⟨by simp [stuck2, hcheck], .inr (Or.inr ⟨hcheck, ?_⟩)⟩
        split_ifs <;> simp_all
    | writebackWay =>
      refine ⟨by simp [stuck2, hnow], .inl (Or.inr ⟨hnow, ?_⟩)⟩
      cases hidle : s.writebackIdle with
      | true => simp [hnow, hidle] at hop
      | false => simp

theorem triggered_of_begins (hc : s.Control) {way : Fin 2} (h : s.Begins way)
    (hvalid : s.setValids way = true) (hdirty : s.setDirty way = true) :
    (s.step i).writeback.state ≠ .stateBoot := by
  by_cases hbusy : s.writeback.state = .stateBoot
  · obtain ⟨hfix, rfl⟩ | ⟨hop, rfl⟩ := h
    · simp [step, nextWriteback, hbusy, triggerWritebackFixUncache, hfix, hvalid, hdirty]
    · simp [step, nextWriteback, hbusy, triggerWritebackCACHE, hop, hvalid, hdirty]
  · -- a write-back under way would belong to another reason
    exfalso
    obtain hclear := hc.clearing_wayIdx hbusy
      (hc.refilling_of_not_reqValid (reqValid_begins hc h))
    obtain ⟨hfix, rfl⟩ | ⟨hop, rfl⟩ := h
    · have hboot : s.fixUncache = .stateBoot := by
        simp only [startFix, Bool.and_eq_true, beq_iff_eq] at hfix
        exact hfix.1.1
      obtain ⟨hfix', -⟩ | ⟨hop, -⟩ := hclear
      · rw [hboot] at hfix'
        cases hfix'
      · obtain ⟨hin, hcache⟩ := hc.cacheOp (by simp [hop])
        have hstd := hc.std_cacheOp hin hcache
        simp [startFix, isLDU, isSTU, hstd] at hfix
    · simp only [checking, Bool.and_eq_true, beq_iff_eq] at hop
      obtain ⟨hfix, -⟩ | ⟨hop', -⟩ := hclear
      · obtain ⟨hin, hcache⟩ := hc.cacheOp (by simp [hop.1])
        have hstd := hc.std_cacheOp hin hcache
        have hu := (hc.fixUncache hfix).1
        simp [isLDU, isSTU, hstd] at hu
      · rw [hop.1] at hop'
        cases hop'

/-- The way whose write-back starts. -/
theorem started_way (h : s.writeback.state = .stateBoot)
    (hbusy : (s.step i).writeback.state ≠ .stateBoot) :
    (s.miss = true ∧ (s.step i).writeback.wayIdx = s.replaceWay) ∨
      s.Begins (s.step i).writeback.wayIdx := by
  by_cases hmiss : s.triggerWriteback = true
  · refine .inl ⟨?_, by simp [step, nextWriteback, h, hmiss]⟩
    simp only [triggerWriteback, Bool.and_eq_true] at hmiss
    exact hmiss.1.1
  · by_cases hfix : s.triggerWritebackFixUncache = true
    · refine .inr (Or.inl ⟨?_, by simp [step, nextWriteback, h, hmiss, hfix]⟩)
      simp only [triggerWritebackFixUncache, Bool.and_eq_true] at hfix
      exact hfix.1.1
    · have hop : s.triggerWritebackCACHE = true := by
        by_contra hop
        simp [step, nextWriteback, h, hmiss, hfix, hop] at hbusy
      refine .inr (Or.inr ⟨?_, by simp [step, nextWriteback, h, hmiss, hfix, hop]⟩)
      simp only [triggerWritebackCACHE, Bool.and_eq_true] at hop
      exact hop.1.1

theorem not_refilling_of_clearing (hc : s.Control) {way : Fin 2} (h : s.Clearing way) :
    s.refilling = false := hc.refilling_of_not_reqValid (hc.reqValid_clearing h)

/-! ## The image of a line -/

/-- After `j` cycles of reading the buffer has the words up to two before the
last one asked for. -/
structure Fetched (s : MemPipeline) (img : BitVec 4 → BWord) (j : Nat) : Prop where
  rspId : s.writeback.rspId = BitVec.ofNat 4 j
  delay1 : s.writeback.rspIdDelay1 = BitVec.ofNat 4 (j - 1)
  delayed : s.writeback.rspIdDelayed = BitVec.ofNat 4 (j - 2)
  dataRead : 1 ≤ j → s.dataRead s.writeback.wayIdx = img (BitVec.ofNat 4 (j - 1))
  dataRsp : 2 ≤ j → s.dataRsp s.writeback.wayIdx = img (BitVec.ofNat 4 (j - 2))
  buffered : ∀ k < j - 2, s.writeback.dirtyLine (BitVec.ofNat 4 k) = img (BitVec.ofNat 4 k)

/-- The write-back under way carries `img`, of which `far` has arrived. -/
structure Carries (s : MemPipeline) (img far : BitVec 4 → BWord) : Prop where
  fetch : s.writeback.state = .fetchCache →
    (∀ k, s.dataRAMs s.writeback.wayIdx s.addr2.index k = img k) ∧ ∃ j ≤ 17, s.Fetched img j
  buffer : s.writeback.state ≠ .stateBoot → s.writeback.state ≠ .fetchCache →
    s.writeback.dirtyLine = img
  sent : s.writeback.state = .writeMem ∨ s.writeback.state = .waitB →
    ∀ k : BitVec 4, k.toNat < s.memory.wCount → far k = img k

/-- The far side of the bus receives the words that are transferred. -/
def Receives (s : MemPipeline) (i : Inputs) (far far' : BitVec 4 → BWord) : Prop :=
  ∀ k, far' k = if s.wFire i = true ∧ k = s.writeback.rspId then s.writeback.dirtyLine k else far k

section Image

variable {img far far' : BitVec 4 → BWord}

theorem ofNat_inj {j k : Nat} (hj : j < 16) (hk : k < 16)
    (h : BitVec.ofNat 4 j = BitVec.ofNat 4 k) : j = k := by
  have hnat := congrArg BitVec.toNat h
  simp only [BitVec.toNat_ofNat] at hnat
  omega

theorem exists_ofNat (k : BitVec 4) : ∃ n < 16, k = BitVec.ofNat 4 n :=
  ⟨k.toNat, k.isLt, (BitVec.ofNat_toNat 4 k).symm⟩

/-- The word that arrives extends the buffer by one. -/
theorem Fetched.dirtyLine {j : Nat} (h : s.Fetched img j) (hj : j ≤ 17) {k : Nat}
    (hk : k < j - 1) :
    Function.update s.writeback.dirtyLine s.writeback.rspIdDelayed
      (s.dataRsp s.writeback.wayIdx) (BitVec.ofNat 4 k) = img (BitVec.ofNat 4 k) := by
  rw [h.delayed]
  by_cases hlast : k = j - 2
  · subst hlast
    rw [Function.update_self]
    exact h.dataRsp (by omega)
  · have hne : BitVec.ofNat 4 k ≠ BitVec.ofNat 4 (j - 2) := by
      intro heq
      exact hlast (ofNat_inj (by omega) (by omega) heq)
    rw [Function.update_of_ne hne]
    exact h.buffered k (by omega)

/-- A write-back that starts carries the way as it is. -/
theorem Carries.start (hcount : s.Counters) (hc : s.Control) (h : s.writeback.state = .stateBoot)
    (hbusy : (s.step i).writeback.state ≠ .stateBoot)
    (himg : ∀ k, s.dataRAMs (s.step i).writeback.wayIdx s.addr2.index k = img k) :
    (s.step i).Carries img far := by
  have hfetch := (started h hbusy).1
  have hstuck := stuck2_of_started h hbusy
  have hram :=
    dataRAMs_step (not_refillWrite_of_not_refilling (not_refilling_of_started hc h hbusy))
    (stdCommit_of_stuck hstuck)
  have hrsp : (s.step i).writeback.rspId = 0 ∧
      (s.step i).writeback.rspIdDelay1 = s.writeback.rspId ∧
      (s.step i).writeback.rspIdDelayed = s.writeback.rspIdDelay1 := by
    simp only [step, nextWriteback, h] at hbusy ⊢
    split_ifs at hbusy ⊢ <;> simp_all
  refine ⟨fun _ => ⟨?_, 0, by omega, ?_⟩, ?_, ?_⟩
  · rw [hram, (held_step hstuck).addr2]
    exact himg
  · refine ⟨hrsp.1, ?_, ?_, by omega, by omega, by omega⟩
    · rw [hrsp.2.1]
      exact (hcount.boot h).1
    · rw [hrsp.2.2]
      exact (hcount.boot h).2
  all_goals simp [hfetch]

theorem Carries.fetch_step (h : s.Carries img far) (hcount : s.Counters)
    (hnow : s.writeback.state = .fetchCache) :
    (s.step i).Carries img far' := by
  have hbusy : s.writeback.state ≠ .stateBoot := by simp [hnow]
  have hstuck := stuck2_of_writeback (i := i) hbusy
  have hfetching : s.fetching = true := by simp [fetching, hnow]
  have hram := dataRAMs_step (i := i) (hcount.not_refillWrite hfetching)
    (stdCommit_of_stuck hstuck)
  obtain ⟨himg, j, hj, hfetched⟩ := h.fetch hnow
  have hline : (s.step i).writeback.dirtyLine =
      Function.update s.writeback.dirtyLine s.writeback.rspIdDelayed
        (s.dataRsp s.writeback.wayIdx) := by
    simp [step, nextWriteback, hnow]
  by_cases hlast : s.writeback.rspIdDelayed = 15
  · have hstate : (s.step i).writeback.state = .waitAW := by
      simp [step, nextWriteback, hnow, hlast]
    have hj17 : j = 17 := by
      rw [hfetched.delayed] at hlast
      have heq := ofNat_inj (k := 15) (by omega) (by omega) hlast
      omega
    refine ⟨by simp [hstate], fun _ _ => ?_, ?_⟩
    · funext k
      obtain ⟨n, hn, rfl⟩ := exists_ofNat k
      rw [hline]
      exact hfetched.dirtyLine hj (by omega)
    all_goals simp [hstate]
  · have hstate : (s.step i).writeback.state = .fetchCache := by
      simpa [step, nextWriteback, hnow] using hlast
    have hj16 : j + 1 ≤ 17 := by
      by_contra hge
      obtain rfl : j = 17 := by omega
      exact hlast hfetched.delayed
    refine ⟨fun _ => ⟨?_, j + 1, hj16, ?_⟩, ?_, ?_⟩
    · rw [hram, wayIdx_step hbusy, (held_step hstuck).addr2]
      exact himg
    · constructor
      · simp only [step, nextWriteback, hnow, hfetched.rspId]
        exact BitVec.ofNat_add j 1 |>.symm
      · simp [step, nextWriteback, hnow, hfetched.rspId]
      · simp [step, nextWriteback, hnow, hfetched.delay1]
      · intro _
        rw [wayIdx_step hbusy]
        simp only [step, nextDataRead, hfetching, if_true, himg, hfetched.rspId]
        rfl
      · intro hpos
        rw [wayIdx_step hbusy]
        simp only [step, hfetching, Bool.true_or, if_true]
        exact hfetched.dataRead (by omega)
      · intro k hk
        rw [hline]
        exact hfetched.dirtyLine hj (by omega)
    all_goals simp [hstate]

/-- Once the line is read, the buffer stays. -/
theorem dirtyLine_step (hboot : s.writeback.state ≠ .stateBoot)
    (hfetch : s.writeback.state ≠ .fetchCache) :
    (s.step i).writeback.dirtyLine = s.writeback.dirtyLine ∧
      (s.step i).writeback.state ≠ .fetchCache := by
  simp only [step, nextWriteback]
  cases hstate : s.writeback.state with
  | stateBoot => exact absurd hstate hboot
  | fetchCache => exact absurd hstate hfetch
  | waitAW =>
    simp only
    split_ifs <;> simp
  | writeMem =>
    simp only
    split_ifs <;> simp
  | waitB =>
    simp only
    split_ifs <;> simp

theorem Carries.send_step (h : s.Carries img far) (hcount : s.Counters)
    (hnow : s.writeback.state ≠ .stateBoot) (hfetch : s.writeback.state ≠ .fetchCache)
    (hfar : s.Receives i far far') : (s.step i).Carries img far' := by
  have hbuffer := h.buffer hnow hfetch
  obtain ⟨hline, hnot⟩ := dirtyLine_step (i := i) hnow hfetch
  refine ⟨fun hnext => absurd hnext hnot, fun _ _ => by rw [hline, hbuffer], ?_⟩
  intro hnext k hk
  obtain ⟨hstate, hready⟩ | hstate := sending_before hnext
  · rw [(wCount_waitAW hstate hready).1] at hk
    omega
  · have haw : s.writeback.state ≠ .waitAW := by
      obtain hstate | hstate := hstate <;> simp [hstate]
    rw [wCount_step haw] at hk
    rw [hfar k, hbuffer]
    cases hfire : s.wFire i with
    | false =>
      rw [hfire] at hk
      simpa using h.sent hstate k (by simpa using hk)
    | true =>
      have hwrite : s.writeback.state = .writeMem := by
        simp only [wFire, Bool.and_eq_true, beq_iff_eq] at hfire
        exact hfire.1
      by_cases hk' : k = s.writeback.rspId
      · simp [hk']
      · have hne : k.toNat ≠ s.writeback.rspId.toNat := fun heq => hk' (BitVec.eq_of_toNat_eq heq)
        rw [hfire, hcount.count hwrite] at hk
        simp only [if_true] at hk
        simpa [hk'] using h.sent hstate k (by rw [hcount.count hwrite]; omega)

theorem Carries.step (h : s.Carries img far) (hcount : s.Counters)
    (hnow : s.writeback.state ≠ .stateBoot) (hfar : s.Receives i far far') :
    (s.step i).Carries img far' := by
  by_cases hfetch : s.writeback.state = .fetchCache
  · exact h.fetch_step hcount hfetch
  · exact h.send_step hcount hnow hfetch hfar

/-- A write-back ends when the whole line has arrived. -/
theorem Carries.done (h : s.Carries img far) (hcount : s.Counters)
    (hnow : s.writeback.state ≠ .stateBoot)
    (hdone : (s.step i).writeback.state = .stateBoot) :
    s.memory.awLine = s.wbLine ∧ s.memory.wCount = 16 ∧ far = img ∧
      s.writeback.state = .waitB := by
  have hstate : s.writeback.state = .waitB := by
    simp only [MemPipeline.step, nextWriteback] at hdone
    cases hstate : s.writeback.state with
    | stateBoot => exact absurd hstate hnow
    | fetchCache => simp only [hstate] at hdone; split_ifs at hdone
    | waitAW => simp only [hstate] at hdone; split_ifs at hdone
    | writeMem => simp only [hstate] at hdone; split_ifs at hdone
    | waitB => rfl
  refine ⟨hcount.line (.inr hstate), hcount.full hstate, ?_, hstate⟩
  funext k
  exact h.sent (.inr hstate) k (by rw [hcount.full hstate]; exact k.isLt)

end Image

end MemPipeline

end NopCore
