import NopCore.Mem.Occupancy
import NopCore.Mem.Writeback

/-!
# Uncached loads in MEM2

An uncached load comes to MEM2 as store data, with the address that it pushed. It is
held there until the bus has returned its word. Its line, if the cache has it, is
written back first, and nothing else can start while it is held. So once the word is
there, the load leaves in the next cycle.
-/

namespace NopCore

namespace MemPipeline

variable {s : MemPipeline} {i : Inputs}

/-- The read of an uncached load is on the bus. It waits for dirty lines and for
the uncached stores in front of it. -/
def uArValid (s : MemPipeline) (i : Inputs) : Bool :=
  s.refill.state == .waitAXIU && s.uncachedReady i && s.writebackIdle

def uArFire (s : MemPipeline) (i : Inputs) : Bool := s.uArValid i && i.uArReady

/-- The word that is read comes back. -/
def uRFire (s : MemPipeline) (i : Inputs) : Bool := s.refill.state == .readMemU && i.uRValid

/-- The read of an uncached load has been taken by the bus. -/
def reading (s : MemPipeline) : Bool :=
  s.refill.state == .readMemU || s.refill.state == .finishU

theorem loadingU_of_reading (h : s.reading = true) : s.loadingU = true := by
  simp only [reading, Bool.or_eq_true] at h
  simp only [loadingU, Bool.or_eq_true]
  obtain h | h := h
  · exact .inl (.inr h)
  · exact .inr h

/-- Nothing goes on beside an uncached load: the repair of its line has begun with
it, and no line is written back while it reads. -/
structure Loading (s : MemPipeline) : Prop where
  fixUncache : s.loadingU = true → s.hit = true → s.fixUncache = .waitWriteback
  writeback : s.reading = true → s.writeback.state = .stateBoot
  refillValid : s.reading = true → s.refill.refillValid = false

theorem Loading.of_init (h : s.Init) : s.Loading := by
  have hidle : s.loadingU = false := by simp [loadingU, h.refill.1]
  have hread : s.reading = false := by simp [reading, h.refill.1]
  refine ⟨fun hload => ?_, fun hload => ?_, fun hload => ?_⟩
  · rw [hidle] at hload
    cases hload
  · rw [hread] at hload
    cases hload
  · rw [hread] at hload
    cases hload

/-- An uncached load leaves MEM2 only with its word. -/
theorem refill_of_leaving (hc : s.Control) (hs : s.stuck2 i = false) (hldu : s.isLDU = true) :
    s.refill.state = .finishU := by
  have hgives := givesWay hs
  obtain hstate | hstate | hstate := hgives.refill
  · have hstart := hgives.startLDU
    simp [startLDU, hstate, hldu] at hstart
  · have hreq := (hc.refill (by simp [refilling, hstate])).1
    rw [hc.reqValid_uncached (by simp [hldu])] at hreq
    cases hreq
  · exact hstate

/-- While an uncached load is in MEM2, no other state machine starts a write-back. -/
theorem Loading.no_trigger (h : s.Loading) (hc : s.Control) (hload : s.loadingU = true) :
    s.miss = false ∧ s.startFix = false ∧ s.cacheFSM.state = .stateBoot ∧
      s.startCacheOp = false := by
  have hldu := hc.load hload
  have hreq : s.reqValid = false := hc.reqValid_uncached (by simp [hldu])
  have hop : ¬ (s.mem2ValidOnEntry = true ∧ s.isCACHE = true) := by
    rintro ⟨hvalid, hcache⟩
    have hsome := isSome_of_isLDU hldu
    rw [hc.std_cacheOp hvalid hcache] at hsome
    cases hsome
  refine ⟨by simp [miss, hreq], ?_, ?_, ?_⟩
  · cases hhit : s.hit with
    | false => simp [startFix, hhit]
    | true => simp [startFix, h.fixUncache hload hhit]
  · by_contra hbusy
    exact hop (hc.cacheOp hbusy)
  · by_contra hstart
    simp only [Bool.not_eq_false, startCacheOp, cacheOpValid, Bool.and_eq_true] at hstart
    exact hop ⟨hstart.1.1.1.2, hstart.1.1.2⟩

/-- So an idle write-back stays idle. -/
theorem Loading.writeback_step (h : s.Loading) (hc : s.Control) (hload : s.loadingU = true)
    (hidle : s.writeback.state = .stateBoot) : (s.step i).writeback.state = .stateBoot := by
  obtain ⟨hmiss, hfix, hop, -⟩ := h.no_trigger hc hload
  simp [MemPipeline.step, nextWriteback, hidle, triggerWriteback, hmiss,
    triggerWritebackFixUncache, hfix, triggerWritebackCACHE, checking, hop]

theorem Loading.step (h : s.Loading) (hc : s.Control) : (s.step i).Loading := by
  have hbefore : (s.step i).reading = true → s.loadingU = true ∧ s.stuck2 i = true ∧
      (s.reading = true ∨ s.writebackIdle = true) := by
    intro hread
    have hstuck : s.stuck2 i = true := by
      by_contra hs
      have hboot := (givesWay (Bool.of_not_eq_true hs)).refill_step (Bool.of_not_eq_true hs)
      simp [reading, hboot] at hread
    simp only [reading, MemPipeline.step, nextRefill] at hread
    simp only [loadingU, reading]
    cases hstate : s.refill.state <;> simp only [hstate] at hread <;> grind
  refine ⟨fun hload hhit => ?_, fun hread => ?_, fun hread => ?_⟩
  · have hstuck : s.stuck2 i = true := by
      by_contra hs
      have hboot := (givesWay (Bool.of_not_eq_true hs)).refill_step (Bool.of_not_eq_true hs)
      simp [loadingU, hboot] at hload
    rw [(held_step hstuck).hit] at hhit
    have hldu := hc.load_step hload
    cases hfix : s.fixUncache with
    | waitWriteback => simp [MemPipeline.step, nextFixUncache, hfix, hstuck]
    | stateBoot => simp [MemPipeline.step, nextFixUncache, hfix, startFix, hldu, hhit]
  · obtain ⟨hload, hstuck, hidle⟩ := hbefore hread
    have hboot : s.writeback.state = .stateBoot := by
      obtain hread' | hidle := hidle
      · exact h.writeback hread'
      · simpa [writebackIdle] using hidle
    exact h.writeback_step hc hload hboot
  · obtain ⟨hload, -⟩ := hbefore hread
    rw [refillValid_step]
    refine not_rFire_of_not_refilling ?_
    simp only [loadingU, Bool.or_eq_true, beq_iff_eq] at hload
    obtain (hstate | hstate) | hstate := hload <;> simp [refilling, hstate]

/-- What the pipeline keeps up without regard to the instructions. -/
structure Runs (s : MemPipeline) : Prop where
  control : s.Control
  loading : s.Loading
  room : s.HasRoom

theorem Runs.of_init (h : s.Init) : s.Runs :=
  ⟨.of_init h, .of_init h, .of_init h⟩

theorem Runs.step (h : s.Runs) (hlegal : s.Legal i) : (s.step i).Runs :=
  ⟨h.control.step hlegal, h.loading.step h.control, h.room.step hlegal⟩

/-- With its word an uncached load leaves MEM2. -/
theorem Runs.leaves (h : s.Runs) (hstate : s.refill.state = .finishU) : s.stuck2 i = false := by
  have hread : s.reading = true := by simp [reading, hstate]
  have hload := loadingU_of_reading hread
  have hldu := h.control.load hload
  have hstu : s.isSTU = false := by
    cases hstd : s.mem2.std with
    | none => simp [isSTU, hstd]
    | some e =>
      simp only [isLDU, hstd, Option.any_some, Bool.not_eq_true'] at hldu
      simp [isSTU, hstd, hldu]
  obtain ⟨hmiss, hfix, hop, hstart⟩ := h.loading.no_trigger h.control hload
  simp [stuck2, h.room.push_not_stuck, writebackIdle, h.loading.writeback hread, hfix, hstart,
    checking, hop, hmiss, startLDU, hstate, hstu]

theorem readMemU_step : (s.step i).refill.state = .readMemU ↔
    s.uArFire i = true ∨ (s.refill.state = .readMemU ∧ s.uRFire i = false) := by
  simp only [MemPipeline.step, nextRefill, uArFire, uArValid, uRFire]
  cases hstate : s.refill.state <;> simp only [] <;> grind

theorem Runs.finishU_step (h : s.Runs) :
    (s.step i).refill.state = .finishU ↔ s.uRFire i = true := by
  have hleaves : s.refill.state = .finishU → s.stuck2 i = false := h.leaves
  simp only [MemPipeline.step, nextRefill, uRFire]
  cases hstate : s.refill.state <;> simp only [hstate] at hleaves ⊢ <;> grind

theorem storedWord_step (h : s.uRFire i = true) : (s.step i).refill.storedWord = i.uRData := by
  simp only [uRFire, Bool.and_eq_true, beq_iff_eq] at h
  simp [MemPipeline.step, nextRefill, h]

/-- A load comes to WB when it has its word. -/
theorem Runs.wb_step (h : s.Runs) {e : StoreBufferSlot} (hload : e.isStore = false) :
    (s.step i).wb = some e ↔ s.mem2.std = some e ∧ s.refill.state = .finishU := by
  change (if s.stuck2 i then none else s.mem2.std) = some e ↔ _
  constructor
  · intro hwb
    split_ifs at hwb with hs
    have hldu : s.isLDU = true := by simp [isLDU, hwb, hload]
    exact ⟨hwb, refill_of_leaving h.control (Bool.of_not_eq_true hs) hldu⟩
  · rintro ⟨hstd, hstate⟩
    rw [h.leaves hstate, if_neg Bool.false_ne_true, hstd]

end MemPipeline

end NopCore
