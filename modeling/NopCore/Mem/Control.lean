import NopCore.Lib.System
import NopCore.Mem.Pipeline

/-!
# What holds MEM2

MEM2 is either held or gives way. While it is held, its instruction, its store
data and what it received from the cache stay. When it gives way, all state
machines are back in their boot state. So at most one of them has a reason to be
elsewhere, and the reason can be read off MEM2.

What MEM1 samples is one cycle older than its use. The samples of a set stay
right as long as MEM2 holds them, except for the way that a refill has just
filled, and MEM1 reads again before it hands over anything that such a change
has overtaken. None of this depends on which instructions come by.
-/

namespace NopCore

/-- An instruction is not both load and store, and only a store is accompanied by
store data. -/
structure MemStage.Shaped (st : MemStage) : Prop where
  one : st.isValid = true → ¬ (st.uop.isLoad = true ∧ st.uop.isStore = true)
  std : st.isValid = true → st.std.isSome = true → st.uop.isStore = true

theorem MemStage.Shaped.mask {st : MemStage} (h : st.Shaped) (b : Bool) :
    MemStage.Shaped { st with isValid := st.isValid && b } := by
  constructor
  · intro hvalid
    exact h.one (Bool.and_eq_true_iff.mp hvalid).1
  · intro hvalid hstd
    exact h.std (Bool.and_eq_true_iff.mp hvalid).1 hstd

namespace MemPipeline

variable {s s' : MemPipeline} {i : Inputs}

/-! ## The machine -/

/-- The registers with a reset value. -/
structure Init (s : MemPipeline) : Prop where
  storeBuffer : ∀ j, s.storeBuffer.valid j = false
  rrd : s.rrd.isValid = false ∧ s.rrd.std = none
  memaddr : s.memaddr.isValid = false ∧ s.memaddr.std = none
  mem1 : s.mem1.isValid = false ∧ s.mem1.std = none
  mem2 : s.mem2.isValid = false ∧ s.mem2.std = none
  validOnEntry : s.mem2ValidOnEntry = false
  wb : s.wb = none ∧ s.wb2 = none
  valids : ∀ set way, s.valids set way = false
  dirtyBits : ∀ set way, s.dirtyBits set way = false
  writeback : s.writeback.state = .stateBoot ∧ s.writeback.rspId = 0 ∧
    s.writeback.rspIdDelay1 = 0
  fixUncache : s.fixUncache = .stateBoot
  cacheFSM : s.cacheFSM.state = .stateBoot
  refill : s.refill.state = .stateBoot ∧ s.refill.refillValid = false
  uncached : s.uncached.state = .stateBoot

/-- An instruction that issues is not both load and store, and a store retires
from the buffer. -/
structure Legal (s : MemPipeline) (i : Inputs) : Prop where
  head : i.headReady = true → ¬ (i.head.isLoad = true ∧ i.head.isStore = true)
  commitStore : i.commitStore = true → s.storeBuffer.hasUnretired = true

def machine : Clocked.Machine MemPipeline Inputs where
  init := Init
  legal := Legal
  step := step

/-! ## What a clock edge does to MEM2 -/

/-- MEM2 keeps what it works on. -/
structure Held (s s' : MemPipeline) : Prop where
  std : s'.mem2.std = s.mem2.std
  uop : s'.mem2.uop = s.mem2.uop
  validOnEntry : s'.mem2ValidOnEntry = s.mem2ValidOnEntry
  setValids : s'.setValids = s.setValids
  setDirty : s'.setDirty = s.setDirty
  tagMatches : s'.tagMatches = s.tagMatches
  info : s'.info = s.info

theorem held_step (h : s.stuck2 i = true) : Held s (s.step i) := by
  constructor <;> simp [step, nextMem2, h]

namespace Held

theorem uop2 (h : Held s s') : s'.uop2 = s.uop2 := h.uop

theorem isSTD (h : Held s s') : s'.isSTD = s.isSTD := by
  rw [MemPipeline.isSTD, h.std, MemPipeline.isSTD]

theorem isLDU (h : Held s s') : s'.isLDU = s.isLDU := by
  rw [MemPipeline.isLDU, h.std, MemPipeline.isLDU]

theorem isSTU (h : Held s s') : s'.isSTU = s.isSTU := by
  rw [MemPipeline.isSTU, h.std, MemPipeline.isSTU]

theorem isCACHE (h : Held s s') : s'.isCACHE = s.isCACHE := by
  rw [MemPipeline.isCACHE, h.uop2, MemPipeline.isCACHE]

theorem reqValid (h : Held s s') : s'.reqValid = s.reqValid := by
  rw [MemPipeline.reqValid, h.validOnEntry, h.uop2, h.isSTD, MemPipeline.reqValid]

theorem addr2 (h : Held s s') : s'.addr2 = s.addr2 := by
  rw [MemPipeline.addr2, MemStage.memAddr, h.std, h.uop, MemPipeline.addr2, MemStage.memAddr]

theorem hits (h : Held s s') : s'.hits = s.hits := by
  funext way
  rw [MemPipeline.hits, h.setValids, h.tagMatches, MemPipeline.hits]

theorem hit (h : Held s s') : s'.hit = s.hit := by
  rw [MemPipeline.hit, h.hits, MemPipeline.hit]

theorem hitWay (h : Held s s') : s'.hitWay = s.hitWay := by
  rw [MemPipeline.hitWay, h.hits, MemPipeline.hitWay]

theorem replaceWay (h : Held s s') : s'.replaceWay = s.replaceWay := by
  rw [MemPipeline.replaceWay, h.info, MemPipeline.replaceWay]

end Held

/-- MEM2 holds an instruction or store data. -/
def active (s : MemPipeline) : Bool := s.mem2ValidOnEntry || s.mem2.std.isSome

theorem Held.active (h : Held s s') : s'.active = s.active := by
  rw [MemPipeline.active, h.validOnEntry, h.std, MemPipeline.active]

theorem isSome_of_isSTD (h : s.isSTD = true) : s.mem2.std.isSome = true := by
  cases hstd : s.mem2.std with
  | none => simp [isSTD, hstd] at h
  | some std => rfl

theorem isSome_of_isLDU (h : s.isLDU = true) : s.mem2.std.isSome = true := by
  cases hstd : s.mem2.std with
  | none => simp [isLDU, hstd] at h
  | some std => rfl

theorem isSome_of_isSTU (h : s.isSTU = true) : s.mem2.std.isSome = true := by
  cases hstd : s.mem2.std with
  | none => simp [isSTU, hstd] at h
  | some std => rfl

theorem active_of_uncached (h : (s.isLDU || s.isSTU) = true) : s.active = true := by
  have hsome : s.mem2.std.isSome = true := by
    obtain hldu | hstu := Bool.or_eq_true _ _ |>.mp h
    · exact isSome_of_isLDU hldu
    · exact isSome_of_isSTU hstu
  simp [active, hsome]

theorem active_of_reqValid (h : s.reqValid = true) : s.active = true := by
  simp only [reqValid, Bool.or_eq_true, Bool.and_eq_true] at h
  rw [active, Bool.or_eq_true]
  exact h.imp (fun hload => hload.1.1.1) isSome_of_isSTD

/-! ## Giving way -/

/-- Nothing holds MEM2. -/
structure GivesWay (s : MemPipeline) (i : Inputs) : Prop where
  writeback : s.writeback.state = .stateBoot
  startFix : s.startFix = false
  startCacheOp : s.startCacheOp = false
  checking : s.checking = false
  cacheFSM : s.cacheFSM.state ≠ .writebackWay
  miss : s.miss = false
  startLDU : s.startLDU = false
  refill : s.refill.state = .stateBoot ∨ s.refill.state = .finish ∨ s.refill.state = .finishU
  stu : s.isSTU = true → s.uncachedReady i = true
  push : s.pushValid = true → s.storeBuffer.pushReady = true

theorem givesWay (h : s.stuck2 i = false) : s.GivesWay i := by
  simp only [stuck2, Bool.or_eq_false_iff, Bool.and_eq_false_iff, Bool.not_eq_false',
    beq_eq_false_iff_ne, writebackIdle, beq_iff_eq] at h
  obtain
    ⟨⟨⟨⟨⟨⟨⟨⟨⟨⟨⟨⟨⟨hpush, hwb⟩, hfix⟩, hop⟩, hcheck⟩, hwrite⟩, hmiss⟩, hldu⟩, h1⟩, h2⟩, h3⟩, h4⟩, h5⟩,
    hstu⟩ := h
  refine ⟨hwb, hfix, hop, hcheck, hwrite, hmiss, hldu, ?_, ?_, ?_⟩
  · cases hstate : s.refill.state <;> simp_all
  · intro h
    simpa [h] using hstu
  · intro h
    simpa [h] using hpush

theorem GivesWay.writeback_step (h : s.GivesWay i) : (s.step i).writeback.state = .stateBoot := by
  simp [step, nextWriteback, h.writeback, triggerWriteback, triggerWritebackFixUncache,
    triggerWritebackCACHE, h.miss, h.startFix, h.checking]

theorem GivesWay.fixUncache_step (h : s.GivesWay i) (hs : s.stuck2 i = false) :
    (s.step i).fixUncache = .stateBoot := by
  cases hfix : s.fixUncache <;> simp [step, nextFixUncache, hfix, h.startFix, hs]

theorem GivesWay.cacheFSM_step (h : s.GivesWay i) (hs : s.stuck2 i = false) :
    (s.step i).cacheFSM.state = .stateBoot := by
  have hcheck := h.checking
  have hwrite := h.cacheFSM
  cases hop : s.cacheFSM.state <;>
    simp_all [step, nextCacheFSM, h.startCacheOp, MemPipeline.checking]

theorem GivesWay.refill_step (h : s.GivesWay i) (hs : s.stuck2 i = false) :
    (s.step i).refill.state = .stateBoot := by
  obtain hstate | hstate | hstate := h.refill <;>
    simp [step, nextRefill, hstate, h.miss, h.startLDU, hs]

/-! ## At most one reason -/

/-- A refill of the line that MEM2 asks for is under way. -/
def refilling (s : MemPipeline) : Bool :=
  s.refill.state == .waitAXI || s.refill.state == .readMem || s.refill.state == .commit ||
    s.refill.state == .finish

/-- An uncached load is under way. -/
def loadingU (s : MemPipeline) : Bool :=
  s.refill.state == .waitAXIU || s.refill.state == .readMemU || s.refill.state == .finishU

/-- A way that is about to be invalidated. -/
def Clearing (s : MemPipeline) (way : Fin 2) : Prop :=
  (s.fixUncache = .waitWriteback ∧ way = s.hitWay) ∨
    (s.cacheFSM.state = .writebackWay ∧ way = s.cacheFSM.wayCounter)

/-- A way that may be written back. -/
def Writing (s : MemPipeline) (way : Fin 2) : Prop :=
  (s.refilling = true ∧ way = s.replaceWay) ∨ s.Clearing way

/-- What MEM2 holds says which state machine may be at work. -/
structure Control (s : MemPipeline) : Prop where
  rrd : s.rrd.Shaped
  memaddr : s.memaddr.Shaped
  mem1 : s.mem1.Shaped
  entered : s.mem2.isValid = true → s.mem2ValidOnEntry = true
  one : s.mem2ValidOnEntry = true → ¬ (s.uop2.isLoad = true ∧ s.uop2.isStore = true)
  std : s.mem2ValidOnEntry = true → s.mem2.std.isSome = true → s.uop2.isStore = true
  refill : s.refilling = true → s.reqValid = true ∧ s.hit = false
  load : s.loadingU = true → s.isLDU = true
  fixUncache : s.fixUncache = .waitWriteback → (s.isLDU || s.isSTU) = true ∧ s.hit = true
  cacheOp : s.cacheFSM.state ≠ .stateBoot → s.mem2ValidOnEntry = true ∧ s.isCACHE = true
  writing : s.writeback.state ≠ .stateBoot → s.Writing s.writeback.wayIdx
  dirty : s.writeback.state ≠ .stateBoot →
    s.setValids s.writeback.wayIdx = true ∧ s.setDirty s.writeback.wayIdx = true

namespace Control

/-- A cache operation comes without store data. -/
theorem std_cacheOp (h : s.Control) (hvalid : s.mem2ValidOnEntry = true) (hop : s.isCACHE = true) :
    s.mem2.std = none := by
  by_contra hsome
  have hstore := h.std hvalid (Option.isSome_iff_ne_none.mpr hsome)
  simp [isCACHE, hstore] at hop

theorem reqValid_cacheOp (h : s.Control) (hvalid : s.mem2ValidOnEntry = true)
    (hop : s.isCACHE = true) : s.reqValid = false := by
  have hstd := h.std_cacheOp hvalid hop
  simp only [isCACHE, Bool.and_eq_true, Bool.not_eq_true'] at hop
  simp [reqValid, hop.1, isSTD, hstd]

/-- An uncached access asks nothing of the cache. -/
theorem reqValid_uncached (h : s.Control) (hu : (s.isLDU || s.isSTU) = true) :
    s.reqValid = false := by
  cases hstd : s.mem2.std with
  | none => simp [isLDU, isSTU, hstd] at hu
  | some std =>
    have hload : ¬ (s.mem2ValidOnEntry = true ∧ s.uop2.isLoad = true) := by
      rintro ⟨hvalid, hload⟩
      exact h.one hvalid ⟨hload, h.std hvalid (by rw [hstd]; rfl)⟩
    simp only [isLDU, isSTU, hstd, Option.any_some] at hu
    simp only [reqValid, isSTD, hstd, Option.any_some, StoreBufferSlot.isCachedStore]
    cases hs : std.isStore <;> cases hc : std.isCached <;> simp_all

theorem cacheFSM_of_reqValid (h : s.Control) (hreq : s.reqValid = true) :
    s.cacheFSM.state = .stateBoot ∧ s.cacheOpValid = false := by
  have hnone : ¬ (s.mem2ValidOnEntry = true ∧ s.isCACHE = true) := by
    rintro ⟨hvalid, hop⟩
    rw [h.reqValid_cacheOp hvalid hop] at hreq
    cases hreq
  refine ⟨?_, ?_⟩
  · by_contra hop
    exact hnone (h.cacheOp hop)
  · rw [cacheOpValid]
    simp only [Bool.and_eq_false_iff]
    grind

theorem fixUncache_of_reqValid (h : s.Control) (hreq : s.reqValid = true) :
    s.fixUncache = .stateBoot ∧ s.startFix = false := by
  have hnone : (s.isLDU || s.isSTU) = false := by
    by_contra hu
    rw [h.reqValid_uncached (Bool.of_not_eq_false hu)] at hreq
    cases hreq
  refine ⟨?_, by simp [startFix, hnone]⟩
  cases hfix : s.fixUncache with
  | stateBoot => rfl
  | waitWriteback =>
    have hu := (h.fixUncache hfix).1
    rw [hnone] at hu
    cases hu

theorem refilling_of_not_reqValid (h : s.Control) (hreq : s.reqValid = false) :
    s.refilling = false := by
  by_contra hbusy
  have hvalid := (h.refill (Bool.of_not_eq_false hbusy)).1
  rw [hreq] at hvalid
  cases hvalid

theorem reqValid_clearing (h : s.Control) {way : Fin 2} (hclear : s.Clearing way) :
    s.reqValid = false := by
  obtain ⟨hfix, -⟩ | ⟨hop, -⟩ := hclear
  · exact h.reqValid_uncached (h.fixUncache hfix).1
  · obtain ⟨hvalid, hcache⟩ := h.cacheOp (by simp [hop])
    exact h.reqValid_cacheOp hvalid hcache

theorem reqValid_startFix (h : s.Control) (hfix : s.startFix = true) : s.reqValid = false := by
  simp only [startFix, Bool.and_eq_true] at hfix
  exact h.reqValid_uncached hfix.1.2

theorem reqValid_checking (h : s.Control) (hop : s.checking = true) : s.reqValid = false := by
  simp only [checking, Bool.and_eq_true, beq_iff_eq] at hop
  obtain ⟨hvalid, hcache⟩ := h.cacheOp (by simp [hop.1])
  exact h.reqValid_cacheOp hvalid hcache

/-- A refill writes back the way it replaces. -/
theorem wayIdx_refilling (h : s.Control) (hbusy : s.writeback.state ≠ .stateBoot)
    (hrefill : s.refilling = true) : s.writeback.wayIdx = s.replaceWay := by
  obtain ⟨-, hway⟩ | hclear := h.writing hbusy
  · exact hway
  · have hreq := h.reqValid_clearing hclear
    rw [(h.refill hrefill).1] at hreq
    cases hreq

theorem clearing_wayIdx (h : s.Control) (hbusy : s.writeback.state ≠ .stateBoot)
    (hrefill : s.refilling = false) : s.Clearing s.writeback.wayIdx := by
  obtain ⟨hrefill', -⟩ | hclear := h.writing hbusy
  · rw [hrefill] at hrefill'
    cases hrefill'
  · exact hclear

theorem active_of_cacheOp (h : s.Control) (hop : s.cacheFSM.state ≠ .stateBoot) :
    s.active = true := by
  simp [active, (h.cacheOp hop).1]

theorem active_of_clearing (h : s.Control) {way : Fin 2} (hclear : s.Clearing way) :
    s.active = true := by
  obtain ⟨hfix, -⟩ | ⟨hop, -⟩ := hclear
  · exact active_of_uncached (h.fixUncache hfix).1
  · exact h.active_of_cacheOp (by simp [hop])

/-- Nothing is being written back when MEM2 misses. -/
theorem writeback_miss (h : s.Control) (hmiss : s.miss = true) :
    s.writeback.state = .stateBoot := by
  by_contra hbusy
  simp only [miss, Bool.and_eq_true, beq_iff_eq] at hmiss
  have hclear := h.clearing_wayIdx hbusy (by simp [refilling, hmiss.1.1])
  rw [h.reqValid_clearing hclear] at hmiss
  simp at hmiss

/-- A way is invalidated for one reason only. -/
theorem clearing_unique (h : s.Control) {way way' : Fin 2} (h1 : s.Clearing way)
    (h2 : s.Clearing way') : way = way' := by
  have hnot : s.fixUncache = .waitWriteback → s.cacheFSM.state ≠ .writebackWay := by
    intro hfix hop
    obtain ⟨hvalid, hcache⟩ := h.cacheOp (by simp [hop])
    have hstd := h.std_cacheOp hvalid hcache
    have hu := (h.fixUncache hfix).1
    simp [isLDU, isSTU, hstd] at hu
  obtain ⟨hf, rfl⟩ | ⟨ho, rfl⟩ := h1 <;> obtain ⟨hf', rfl⟩ | ⟨ho', rfl⟩ := h2
  · rfl
  · exact absurd ho' (hnot hf)
  · exact absurd ho (hnot hf')
  · rfl

/-! ### The state machines while MEM2 is held -/

theorem refill_step (h : s.Control) (hs : s.stuck2 i = true)
    (hbusy : (s.step i).refilling = true) : s.reqValid = true ∧ s.hit = false := by
  cases hnow : s.refilling with
  | true => exact h.refill hnow
  | false =>
    -- only a miss leaves the boot state this way
    have hmiss : s.miss = true := by
      simp only [refilling, step, nextRefill] at hbusy hnow
      cases hstate : s.refill.state <;> simp only [hstate] at hbusy hnow <;> grind
    simp only [miss, Bool.and_eq_true, Bool.not_eq_true'] at hmiss
    exact ⟨hmiss.1.2, hmiss.2⟩

theorem load_step (h : s.Control) (hbusy : (s.step i).loadingU = true) : s.isLDU = true := by
  cases hnow : s.loadingU with
  | true => exact h.load hnow
  | false =>
    have hstart : s.startLDU = true := by
      simp only [loadingU, step, nextRefill] at hbusy hnow
      cases hstate : s.refill.state <;> simp only [hstate] at hbusy hnow <;> grind
    simp only [startLDU, Bool.and_eq_true] at hstart
    exact hstart.2

theorem fixUncache_step (h : s.Control) (hbusy : (s.step i).fixUncache = .waitWriteback) :
    (s.isLDU || s.isSTU) = true ∧ s.hit = true := by
  cases hnow : s.fixUncache with
  | waitWriteback => exact h.fixUncache hnow
  | stateBoot =>
    have hstart : s.startFix = true := by
      simpa [step, nextFixUncache, hnow] using hbusy
    simp only [startFix, Bool.and_eq_true] at hstart
    exact ⟨hstart.1.2, hstart.2⟩

theorem cacheOp_step (h : s.Control) (hbusy : (s.step i).cacheFSM.state ≠ .stateBoot) :
    s.mem2ValidOnEntry = true ∧ s.isCACHE = true := by
  by_cases hnow : s.cacheFSM.state = .stateBoot
  · have hstart : s.startCacheOp = true := by
      by_contra hno
      simp [step, nextCacheFSM, hnow, hno] at hbusy
    simp only [startCacheOp, cacheOpValid, Bool.and_eq_true] at hstart
    exact ⟨hstart.1.1.1.2, hstart.1.1.2⟩
  · exact h.cacheOp hnow

theorem writing_step (h : s.Control) (hs : s.stuck2 i = true)
    (hbusy : (s.step i).writeback.state ≠ .stateBoot) :
    (s.step i).Writing (s.step i).writeback.wayIdx ∧
      s.setValids (s.step i).writeback.wayIdx = true ∧
      s.setDirty (s.step i).writeback.wayIdx = true := by
  have hheld := held_step hs
  by_cases hnow : s.writeback.state = .stateBoot
  · have hidle : s.writebackIdle = true := by simp [writebackIdle, hnow]
    by_cases hmiss : s.triggerWriteback = true
    · have hway : (s.step i).writeback.wayIdx = s.replaceWay := by
        simp [step, nextWriteback, hnow, hmiss]
      simp only [triggerWriteback, Bool.and_eq_true] at hmiss
      have hreq : s.refill.state = .stateBoot ∧ s.reqValid = true := by
        simpa [miss] using (Bool.and_eq_true_iff.mp hmiss.1.1).1
      have hldu : s.isLDU = false := by
        by_contra hu
        have hno := h.reqValid_uncached (by simp [Bool.of_not_eq_false hu])
        rw [hreq.2] at hno
        cases hno
      rw [hway]
      refine ⟨.inl ⟨?_, hheld.replaceWay.symm⟩, hmiss.1.2, hmiss.2⟩
      simp [refilling, step, nextRefill, hreq.1, startLDU, hldu, hmiss.1.1]
    · by_cases hfix : s.triggerWritebackFixUncache = true
      · have hway : (s.step i).writeback.wayIdx = s.hitWay := by
          simp [step, nextWriteback, hnow, hmiss, hfix]
        simp only [triggerWritebackFixUncache, Bool.and_eq_true] at hfix
        have hboot : s.fixUncache = .stateBoot := by
          simpa [startFix] using (Bool.and_eq_true_iff.mp
            (Bool.and_eq_true_iff.mp hfix.1.1).1).1
        rw [hway]
        refine ⟨.inr (Or.inl ⟨?_, hheld.hitWay.symm⟩), hfix.1.2, hfix.2⟩
        simp [step, nextFixUncache, hboot, hfix.1.1]
      · have hop : s.triggerWritebackCACHE = true := by
          by_contra hop
          simp [step, nextWriteback, hnow, hmiss, hfix, hop] at hbusy
        have hway : (s.step i).writeback.wayIdx = s.cacheFSM.wayCounter := by
          simp [step, nextWriteback, hnow, hmiss, hfix, hop]
        simp only [triggerWritebackCACHE, Bool.and_eq_true] at hop
        have hcheck : s.cacheFSM.state = .checkWay ∧ s.cacheFSM.finishAllWay = false := by
          simpa [checking] using hop.1.1
        rw [hway]
        refine ⟨.inr (Or.inr ?_), hop.1.2, hop.2⟩
        simp [step, nextCacheFSM, hcheck, hidle]
  · have hidle : s.writebackIdle = false := by simpa [writebackIdle] using hnow
    have hway : (s.step i).writeback.wayIdx = s.writeback.wayIdx := by
      simp only [step, nextWriteback]
      cases hstate : s.writeback.state <;> simp_all <;> grind
    rw [hway]
    refine ⟨?_, h.dirty hnow⟩
    obtain ⟨hrefill, hrw⟩ | ⟨hfix, hhw⟩ | ⟨hop, hwc⟩ := h.writing hnow
    · refine .inl ⟨?_, by rw [hheld.replaceWay, hrw]⟩
      simp only [refilling, Bool.or_eq_true, beq_iff_eq] at hrefill ⊢
      obtain ((hstate | hstate) | hstate) | hstate := hrefill <;>
        simp only [step, nextRefill, hstate] <;> grind
    · refine .inr (Or.inl ⟨?_, by rw [hheld.hitWay, hhw]⟩)
      simp [step, nextFixUncache, hfix, hs]
    · refine .inr (Or.inr ?_)
      simp [step, nextCacheFSM, hop, hidle, hwc]

theorem of_init (h : s.Init) : s.Control where
  rrd := ⟨by simp [h.rrd.1], by simp [h.rrd.1]⟩
  memaddr := ⟨by simp [h.memaddr.1], by simp [h.memaddr.1]⟩
  mem1 := ⟨by simp [h.mem1.1], by simp [h.mem1.1]⟩
  entered := by simp [h.mem2.1]
  one := by simp [h.validOnEntry]
  std := by simp [h.validOnEntry]
  refill := by simp [refilling, h.refill.1]
  load := by simp [loadingU, h.refill.1]
  fixUncache := by simp [h.fixUncache]
  cacheOp := by simp [h.cacheFSM]
  writing := by simp [h.writeback.1]
  dirty := by simp [h.writeback.1]

theorem shaped_issStage (hlegal : s.Legal i) : (s.issStage i).Shaped := by
  constructor
  · intro hvalid
    simp only [issStage, issValid, Bool.and_eq_true] at hvalid
    exact hlegal.head hvalid.1.1
  · intro hvalid hstd
    simp only [issStage, Bool.and_eq_true] at hvalid hstd ⊢
    have hissue : s.stdValid i = true := by
      by_contra hno
      simp [hno] at hstd
    simp only [stdValid, hvalid.1, Bool.and_eq_true, Bool.or_eq_true] at hissue
    grind

theorem shaped_nextStage {prev cur : MemStage} (hprev : prev.Shaped) (hcur : cur.Shaped) :
    (s.nextStage i prev cur).Shaped := by
  unfold nextStage
  split_ifs
  · exact hcur.mask _
  · exact hprev.mask _

theorem step (h : s.Control) (hlegal : s.Legal i) : (s.step i).Control where
  rrd := shaped_nextStage (shaped_issStage hlegal) h.rrd
  memaddr := shaped_nextStage h.rrd h.memaddr
  mem1 := shaped_nextStage h.memaddr h.mem1
  entered := by
    have hentered := h.entered
    simp only [MemPipeline.step, nextMem2]
    cases hs : s.stuck2 i <;> cases hr : s.doRefetch i <;> grind
  one := by
    cases hs : s.stuck2 i with
    | true =>
      rw [(held_step hs).validOnEntry, (held_step hs).uop2]
      exact h.one
    | false =>
      have hone := h.mem1.one
      simp only [MemPipeline.step, nextMem2, uop2, hs]
      cases hr : s.doRefetch i <;> grind
  std := by
    cases hs : s.stuck2 i with
    | true =>
      rw [(held_step hs).validOnEntry, (held_step hs).std, (held_step hs).uop2]
      exact h.std
    | false =>
      have hstd := h.mem1.std
      simp only [MemPipeline.step, nextMem2, uop2, hs]
      cases hr : s.doRefetch i <;> grind
  refill := by
    intro hbusy
    cases hs : s.stuck2 i with
    | true =>
      rw [(held_step hs).reqValid, (held_step hs).hit]
      exact h.refill_step hs hbusy
    | false => simp [refilling, (givesWay hs).refill_step hs] at hbusy
  load := by
    intro hbusy
    cases hs : s.stuck2 i with
    | true =>
      rw [(held_step hs).isLDU]
      exact h.load_step hbusy
    | false => simp [loadingU, (givesWay hs).refill_step hs] at hbusy
  fixUncache := by
    intro hbusy
    cases hs : s.stuck2 i with
    | true =>
      rw [(held_step hs).isLDU, (held_step hs).isSTU, (held_step hs).hit]
      exact h.fixUncache_step hbusy
    | false => simp [(givesWay hs).fixUncache_step hs] at hbusy
  cacheOp := by
    intro hbusy
    cases hs : s.stuck2 i with
    | true =>
      rw [(held_step hs).validOnEntry, (held_step hs).isCACHE]
      exact h.cacheOp_step hbusy
    | false => simp [(givesWay hs).cacheFSM_step hs] at hbusy
  writing := by
    intro hbusy
    cases hs : s.stuck2 i with
    | true => exact (h.writing_step hs hbusy).1
    | false => simp [(givesWay hs).writeback_step] at hbusy
  dirty := by
    intro hbusy
    cases hs : s.stuck2 i with
    | true =>
      rw [(held_step hs).setValids, (held_step hs).setDirty]
      exact (h.writing_step hs hbusy).2
    | false => simp [(givesWay hs).writeback_step] at hbusy

end Control

end MemPipeline

end NopCore
