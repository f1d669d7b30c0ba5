import NopCore.Mem.Coherence

/-!
# Logical memory

The logical memory has at an address the word of the way that holds its line, or
else the word of memory behind the bus. It is the memory at reset with the stores
performed on it that have taken effect. Refills, evictions, repairs of lines that
are accessed uncached and cache operations leave it as it is.

The line that a refill replaces is the exception while the refill is at work: its
way keeps the valid bit and the old tag while the new words come in, and its words
may still be in the write-back when the tag has changed. Nothing can see this,
since MEM2 is held until the refill and the write-back have ended.
-/

namespace NopCore

structure MemTrace where
  pipeline : MemPipeline := {}
  /-- The memory at reset. -/
  initial : WordAddr → BWord := fun _ _ => 0
  /-- The stores that have taken effect, in order. -/
  performed : List (Lanes.Write WordAddr (Fin 4) (BitVec 8)) := []

namespace MemTrace

open MemPipeline (Inputs)

variable (t : MemTrace) (i : Inputs)

def step : MemTrace where
  pipeline := t.pipeline.step i
  initial := t.initial
  performed := t.performed ++ t.pipeline.performs i

structure Init (t : MemTrace) : Prop where
  pipeline : t.pipeline.Init
  initial : t.initial = t.pipeline.memory.content
  performed : t.performed = []

def machine : Clocked.Machine MemTrace Inputs where
  init := Init
  legal := fun t i => t.pipeline.Legal i
  step := step

/-- The word at an address. -/
def word (a : WordAddr) : BWord := Lanes.writes t.initial t.performed a

def image (l : LineAddr) : BitVec 4 → BWord := fun k => t.word (l.word k)

variable {t i}

theorem image_step (l : LineAddr) :
    (t.step i).image l = t.pipeline.imageNext i l (t.image l) := by
  funext k
  rw [image, word, step, Lanes.writes_append, Lanes.writes_apply]
  rfl

/-- No StoreTag operation acts, and the line is not fetched while an uncached
store to it is still to be sent. -/
structure Careful (l : LineAddr) (t : MemTrace) (_ : Inputs) : Prop where
  storeTag : t.pipeline.storeTag = false
  order : MemPipeline.Coherent.InOrder t.pipeline l

/-- Every line that is treated with care is coherent in every reachable state. -/
theorem coherent_of_careful {l : LineAddr} (h : (machine.restrict (Careful l)).Reachable t) :
    t.pipeline.Sound ∧ t.pipeline.Coherent l (t.image l) := by
  refine Clocked.Machine.invariant
    (P := fun t => t.pipeline.Sound ∧ t.pipeline.Coherent l (t.image l)) ?_ ?_ h
  · intro t ht
    refine ⟨.of_init ht.pipeline, ?_⟩
    have himage : t.image l = fun k => t.pipeline.memory.content (l.word k) := by
      funext k
      rw [image, word, ht.performed, ht.initial, Lanes.writes_nil]
    rw [himage]
    exact .of_init ht.pipeline
  · rintro t i ⟨hsound, hcoherent⟩ ⟨hlegal, hi⟩
    refine ⟨hsound.step hlegal (MemPipeline.keepsTags hi.storeTag), ?_⟩
    have hstep : ((machine.restrict (Careful l)).step t i).image l =
        t.pipeline.imageNext i l (t.image l) := image_step l
    rw [hstep]
    exact hcoherent.step hsound (MemPipeline.keepsTags hi.storeTag) hi.order

/-! ## The invariant -/

/-- The word of the way whose tag matches, or of memory. -/
def logical (t : MemTrace) (a : WordAddr) : BWord :=
  if t.pipeline.valids a.index 0 && (t.pipeline.infoRAM a.index).tags 0 == a.tag then
    t.pipeline.dataRAMs 0 a.index a.offset
  else if t.pipeline.valids a.index 1 && (t.pipeline.infoRAM a.index).tags 1 == a.tag then
    t.pipeline.dataRAMs 1 a.index a.offset
  else t.pipeline.memory.content a

/-- The line that the refill under way replaces. -/
def evicted (t : MemTrace) : LineAddr :=
  ⟨t.pipeline.info.tags t.pipeline.replaceWay, t.pipeline.addr2.index⟩

/-- Tags are unique; a clean line equals memory; the logical memory is the memory
at reset with the stores performed that have taken effect. The way and the line
that a refill replaces are exempt until it has ended. -/
structure CacheCoherent (t : MemTrace) : Prop where
  unique : ∀ set way way', t.pipeline.valids set way = true → t.pipeline.valids set way' = true →
    (t.pipeline.infoRAM set).tags way = (t.pipeline.infoRAM set).tags way' → way = way'
  clean : ∀ set way, t.pipeline.valids set way = true → t.pipeline.dirtyBits set way = false →
    ¬ t.pipeline.Replaced set way → ∀ k, t.pipeline.dataRAMs way set k =
      t.pipeline.memory.content (LineAddr.word ⟨(t.pipeline.infoRAM set).tags way, set⟩ k)
  logical : ∀ a, (t.pipeline.refilling = true → a.line ≠ t.evicted) → t.logical a = t.word a

section Line

variable {l : LineAddr} (b : t.pipeline.Sound)
include b

/-- A line in the cache that is being written back is dirty there. -/
theorem dirty_of_leaving (hleaving : t.pipeline.Leaving l) {way : Fin 2}
    (hholds : t.pipeline.HoldsLine l way) (hrep : ¬ t.pipeline.Replaced l.index way) :
    t.pipeline.dirtyBits l.index way = true := by
  obtain ⟨hbusy, rfl⟩ := hleaving
  obtain ⟨hset, hbit⟩ := b.control.dirty hbusy
  have hindex : t.pipeline.wbLine.index = t.pipeline.addr2.index := rfl
  rw [hindex] at hrep ⊢
  have hactive : t.pipeline.active = true := by
    cases hrefill : t.pipeline.refilling with
    | true => exact MemPipeline.active_of_reqValid (b.control.refill hrefill).1
    | false => exact b.control.active_of_clearing (b.control.clearing_wayIdx hbusy hrefill)
  have hno : ¬ t.pipeline.Filled t.pipeline.addr2.index way := by
    rintro ⟨hfinish, -, rfl⟩
    -- the way just filled has the tag asked for, the line written back has not
    have hrefill : t.pipeline.refilling = true := by simp [MemPipeline.refilling, hfinish]
    obtain ⟨hreq, hmiss⟩ := b.control.refill hrefill
    refine MemPipeline.info_ne_of_miss b.sampled hreq hmiss hset ?_
    rw [← b.exact.filled hfinish]
    exact hholds.2.symm
  have hvalid : t.pipeline.valids t.pipeline.addr2.index way = true := hholds.1
  have htags : t.pipeline.info.tags way = t.pipeline.info.tags t.pipeline.writeback.wayIdx :=
    (b.sampled.tags2 hactive way hvalid hno).trans hholds.2
  have hway := b.exact.sampled hactive way _ (b.sampled.valids hactive way hvalid hno) hset htags
  rw [← b.sampled.dirty hactive way hno, hway, hbit]

/-- A line that is written back and not replaced is in the cache. -/
theorem holds_of_leaving (hleaving : t.pipeline.Leaving l)
    (hrefill : t.pipeline.refilling = false) :
    t.pipeline.HoldsLine l t.pipeline.writeback.wayIdx := by
  obtain ⟨hbusy, rfl⟩ := hleaving
  have hclear := b.control.clearing_wayIdx hbusy hrefill
  have hactive := b.control.active_of_clearing hclear
  have hnot : ¬ t.pipeline.Processed t.pipeline.writeback.wayIdx := by
    rintro ⟨hop, hdone⟩
    obtain ⟨hfix, -⟩ | ⟨hpass, hway⟩ := hclear
    · obtain ⟨hvalid, hcache⟩ := b.control.cacheOp hop
      have hstd := b.control.std_cacheOp hvalid hcache
      have hu := (b.control.fixUncache hfix).1
      simp [MemPipeline.isLDU, MemPipeline.isSTU, hstd] at hu
    · rw [b.exact.passing hpass, hway] at hdone
      simp at hdone
  have hvalid := b.exact.valids hactive _ (b.control.dirty hbusy).1 hnot
  exact ⟨hvalid, (b.sampled.tags2 hactive _ hvalid
    (MemPipeline.not_filled_of_not_refilling hrefill _ _)).symm⟩

variable {img : BitVec 4 → BWord} (h : t.pipeline.Coherent l img)
include h

theorem clean_of_coherent {way : Fin 2} (hholds : t.pipeline.HoldsLine l way)
    (hdirty : t.pipeline.dirtyBits l.index way = false)
    (hrep : ¬ t.pipeline.Replaced l.index way) (k : BitVec 4) :
    t.pipeline.dataRAMs way l.index k = t.pipeline.memory.content (l.word k) := by
  rw [h.intact way hholds hrep]
  refine (h.settled ?_ ?_ k).symm
  · rintro ⟨way', hholds', hdirty', -⟩
    have hway := b.exact.unique l.index way way' hholds.1 hholds'.1
      (hholds.2.trans hholds'.2.symm)
    rw [← hway, hdirty] at hdirty'
    cases hdirty'
  · intro hleaving
    rw [dirty_of_leaving b hleaving hholds hrep] at hdirty
    cases hdirty

theorem replaced_evicted {way : Fin 2} (hholds : t.pipeline.HoldsLine l way)
    (hrep : t.pipeline.Replaced l.index way) : l = t.evicted := by
  obtain ⟨hstate, hindex, rfl⟩ := hrep
  have hactive := MemPipeline.active_of_reqValid
    (b.control.refill (MemPipeline.Replaced.refilling ⟨hstate, hindex, rfl⟩)).1
  have hno : ¬ t.pipeline.Filled t.pipeline.addr2.index t.pipeline.replaceWay := by
    rintro ⟨hfinish, -⟩
    rw [hfinish] at hstate
    obtain hstate | hstate | hstate := hstate <;> cases hstate
  have htags := b.sampled.tags2 hactive _ (hindex ▸ hholds.1) hno
  cases l
  cases hindex
  rw [evicted, LineAddr.mk.injEq]
  exact ⟨(htags.trans hholds.2).symm, rfl⟩

theorem memory_of_coherent (hnone : ∀ way, ¬ t.pipeline.HoldsLine l way)
    (hother : t.pipeline.refilling = true → l ≠ t.evicted) (k : BitVec 4) :
    t.pipeline.memory.content (l.word k) = img k := by
  refine h.settled ?_ ?_ k
  · rintro ⟨way, hholds, -⟩
    exact hnone way hholds
  · intro hleaving
    cases hrefill : t.pipeline.refilling with
    | true =>
      refine hother hrefill ?_
      rw [evicted, ← b.control.wayIdx_refilling hleaving.1 hrefill]
      exact hleaving.2.symm
    | false => exact hnone _ (holds_of_leaving b hleaving hrefill)

end Line

theorem logical_of_holds {a : WordAddr} {img : BitVec 4 → BWord}
    (hram : ∀ way, t.pipeline.HoldsLine a.line way →
      t.pipeline.dataRAMs way a.index = img)
    (hmem : (∀ way, ¬ t.pipeline.HoldsLine a.line way) →
      t.pipeline.memory.content a = img a.offset) : t.logical a = img a.offset := by
  have hholds : ∀ way, (t.pipeline.valids a.index way &&
      (t.pipeline.infoRAM a.index).tags way == a.tag) = true ↔
        t.pipeline.HoldsLine a.line way := by
    intro way
    rw [Bool.and_eq_true, beq_iff_eq]
    rfl
  rw [logical]
  split_ifs with h0 h1
  · rw [hram 0 ((hholds 0).mp h0)]
  · rw [hram 1 ((hholds 1).mp h1)]
  · refine hmem fun way hway => ?_
    obtain rfl | rfl : way = 0 ∨ way = 1 := by omega
    · exact h0 ((hholds 0).mpr hway)
    · exact h1 ((hholds 1).mpr hway)

/-- Every line is treated with care. -/
structure AllCareful (t : MemTrace) (_ : Inputs) : Prop where
  storeTag : t.pipeline.storeTag = false
  order : t.pipeline.miss = true → ¬ t.pipeline.Unsent t.pipeline.addr2.line

instance (t : MemTrace) (i : Inputs) : Decidable (machine.legal t i) :=
  decidable_of_iff
    ((i.headReady = true → ¬ (i.head.isLoad = true ∧ i.head.isStore = true)) ∧
      (i.commitStore = true → t.pipeline.storeBuffer.hasUnretired = true))
    ⟨fun ⟨h1, h2⟩ => ⟨h1, h2⟩, fun ⟨h1, h2⟩ => ⟨h1, h2⟩⟩

instance (t : MemTrace) (l : LineAddr) : Decidable (t.pipeline.Unsent l) :=
  inferInstanceAs (Decidable (_ ∧ _))

instance (t : MemTrace) (i : Inputs) : Decidable ((machine.restrict AllCareful).legal t i) :=
  decidable_of_iff
    (machine.legal t i ∧ t.pipeline.storeTag = false ∧
      (t.pipeline.miss = true → ¬ t.pipeline.Unsent t.pipeline.addr2.line))
    ⟨fun ⟨h, h1, h2⟩ => ⟨h, h1, h2⟩, fun ⟨h, hi⟩ => ⟨h, hi.storeTag, hi.order⟩⟩

/-- A memory in which every byte tells the tag of its line. -/
def tagMemory : WordAddr → BWord := fun a _ => a.tag.setWidth 8

def atReset : MemTrace where
  pipeline := { memory := { content := tagMemory } }
  initial := tagMemory

theorem init_atReset : Init atReset :=
  ⟨⟨fun _ => rfl, ⟨rfl, rfl⟩, ⟨rfl, rfl⟩, ⟨rfl, rfl⟩, ⟨rfl, rfl⟩, rfl, ⟨rfl, rfl⟩, fun _ _ => rfl,
    fun _ _ => rfl, ⟨rfl, rfl, rfl⟩, rfl, rfl, ⟨rfl, rfl⟩, rfl⟩, rfl, rfl⟩

def idle : Inputs := {}

def issueLoad (addr : UWord) : Inputs where
  head := { isLoad := true, addr := addr }
  headReady := true

def wait (n : Nat) : List Inputs := List.replicate n idle

/-- A load that misses, with `n` words of its line. -/
def loadMiss (addr : UWord) (n : Nat) : List Inputs :=
  [issueLoad addr] ++ wait 4 ++ [{ arReady := true }] ++ List.replicate n { rValid := true }

/-- Three lines of one set, the third in the middle of its refill. -/
def thirdLine : List Inputs :=
  loadMiss 0x100 16 ++ wait 3 ++ loadMiss 0x1100 16 ++ wait 3 ++ loadMiss 0x2100 2

end MemTrace

end NopCore
