import NopCore.Fetch.ICache
import NopCore.Lib.System

/-!
# Refills of the instruction cache

A refill takes many cycles, in which the privileged state moves on. What it
reads is fixed when the request is accepted on the bus; what it writes into the
tag is chosen again at the end, under the mode bits of that cycle. The two agree
as long as the mode bits keep the line of the fetch that is held.

The cache is followed together with a record of its bursts: the line that was
requested, the words that came back, and whether an invalidation of the place
the line goes to has retired since the request was accepted. Each line of the
cache remembers the burst that filled it, and so does each copy that the read
ports hand on.
-/

namespace NopCore

/-- A burst on the read channel. -/
structure Burst where
  line : BitVec 26 := 0
  beats : List UWord := []
  overtaken : Bool := false
  deriving DecidableEq, Repr

/-- The burst brought this line with these words. -/
structure Burst.Fills (b : Burst) (line : BitVec 26) (data : BitVec 4 → UWord) : Prop where
  line : b.line = line
  length : b.beats.length = icacheLineWords
  words : ∀ w : BitVec 4, b.beats[w.toNat]? = some (data w)

/-- The instruction cache with the record of its bursts. `presented` is a request
that was on the bus in the previous cycle and was not accepted. -/
structure ICacheTrace where
  cache : ICache := {}
  presented : Option (BitVec 26) := none
  burst : Burst := {}
  fills : Fin 2 → BitVec 6 → Burst := fun _ _ => {}
  rspFill : Fin 2 → Burst := fun _ => {}
  setFill : Fin 2 → Burst := fun _ => {}

namespace ICacheTrace

open ICache (Inputs)

variable (s : ICacheTrace) (i : Inputs)

/-- The bus has accepted the request of the refill in progress. -/
def reading : Bool := s.cache.fsm == .readMem || s.cache.fsm == .commit

/-- An invalidation of the place to be refilled retires in this cycle. -/
def invalidated : Bool := i.cacheOp.any fun op => op.clears s.cache.idx s.cache.replaceWay

def nextBurst : Burst :=
  if s.cache.arValid && i.arReady then { line := s.cache.arLine }
  else
    { s.burst with
      beats := if s.cache.rFire i then s.burst.beats ++ [i.rData] else s.burst.beats
      overtaken := s.burst.overtaken || (s.reading && s.invalidated i) }

def step : ICacheTrace where
  cache := s.cache.step i
  presented := if s.cache.arValid && !i.arReady then some s.cache.arLine else none
  burst := s.nextBurst i
  fills := fun way set =>
    if s.cache.fsm = .commit ∧ set = s.cache.idx ∧ way = s.cache.replaceWay then s.nextBurst i
    else s.fills way set
  rspFill := fun way =>
    if s.cache.readEnable i then s.fills way (s.cache.readAddr i) else s.rspFill way
  setFill := if s.cache.if2Stuck i then s.setFill else s.rspFill

/-- What the bus and commit keep to: a burst has sixteen beats and starts after
its request, and a cache operation that retires flushes the front end. -/
structure Legal : Prop where
  rValid : i.rValid = true → s.cache.fsm = .readMem
  rLast : i.rValid = true → (i.rLast = true ↔ s.burst.beats.length = icacheLineWords - 1)
  flush : i.cacheOp.isSome = true → i.if2FlushIt = true

/-- After reset no line is valid, and the first stage holds the reset vector. The
memories and the registers without reset hold anything. -/
structure Init : Prop where
  valids : s.cache.valids = fun _ _ => false
  if2Valid : s.cache.if2Valid = false
  if2ValidOnEntry : s.cache.if2ValidOnEntry = false
  fsm : s.cache.fsm = .stateBoot
  regPC : s.cache.regPC = 0x1c000000
  csr : s.cache.csr = ⟨true, false, 0, 0⟩
  presented : s.presented = none

def machine : Clocked.Machine ICacheTrace Inputs where
  init := Init
  legal := Legal
  step := step

/-! ## Invalidation

The claim on the cache is about a record in the ghost burst: a line never becomes
valid with words requested before an invalidation of its place. -/

/-- No invalidation of the place to be refilled retires between the acceptance of
the request and the end of the refill. -/
def Undisturbed : Prop := s.reading = true → s.invalidated i = false

/-- The words of every valid line were requested after the last invalidation of
its place. -/
def Fresh : Prop :=
  ∀ way set, s.cache.valids set way = true → (s.fills way set).overtaken = false

variable {s i}

theorem overtaken_nextBurst (h : s.reading = true → s.burst.overtaken = false)
    (hi : s.Undisturbed i) (hreading : s.reading = true) :
    (s.nextBurst i).overtaken = false := by
  have har : s.cache.arValid = false := by
    simp only [reading, Bool.or_eq_true, beq_iff_eq] at hreading
    rcases hreading with hf | hf <;> simp [ICache.arValid, hf]
  simp [nextBurst, har, h hreading, hi hreading]

/-- An unfinished burst has not been overtaken either. -/
theorem fresh_step (h : s.reading = true → s.burst.overtaken = false) (hfresh : s.Fresh)
    (hi : s.Undisturbed i) :
    ((s.step i).reading = true → (s.step i).burst.overtaken = false) ∧ (s.step i).Fresh := by
  refine ⟨?_, ?_⟩
  · intro hreading
    cases hr : s.reading with
    | true => exact overtaken_nextBurst h hi hr
    | false =>
      -- the burst starts in this cycle
      have hfsm : s.cache.fsm = .waitAXI ∧ i.arReady = true := by
        have hnow : s.cache.fsm ≠ .readMem ∧ s.cache.fsm ≠ .commit := by
          simpa [reading] using hr
        have hnext : (s.cache.nextFsm i) = .readMem ∨ (s.cache.nextFsm i) = .commit := by
          simpa [reading, step, ICache.step] using hreading
        unfold ICache.nextFsm at hnext
        grind
      simp [step, nextBurst, ICache.arValid, hfsm]
  · intro way set hvalid
    simp only [step]
    split_ifs with hcommit
    · exact overtaken_nextBurst h hi (by simp [reading, hcommit.1])
    · refine hfresh way set ?_
      simp only [step, ICache.step, if_neg hcommit] at hvalid
      split_ifs at hvalid
      exact hvalid

instance (s : ICacheTrace) (i : Inputs) : Decidable (machine.legal s i) :=
  decidable_of_iff
    ((i.rValid = true → s.cache.fsm = .readMem) ∧
      (i.rValid = true → (i.rLast = true ↔ s.burst.beats.length = icacheLineWords - 1)) ∧
      (i.cacheOp.isSome = true → i.if2FlushIt = true))
    ⟨fun ⟨h1, h2, h3⟩ => ⟨h1, h2, h3⟩, fun h => ⟨h.rValid, h.rLast, h.flush⟩⟩

theorem init_atReset : Init {} := ⟨rfl, rfl, rfl, rfl, rfl, rfl, rfl⟩

theorem reachable_atReset : machine.Reachable {} := .reset init_atReset

/-- Sixteen beats in consecutive cycles. -/
def beats (word : Nat → UWord) : List Inputs :=
  (List.range icacheLineWords).map fun k =>
    { rValid := true, rData := word k, rLast := k == icacheLineWords - 1 }

def idle : Inputs := {}

/-- A retiring cache operation on the set of the reset vector, with its flush. -/
def invalidateSet0 : Inputs where
  if2FlushIt := true
  cacheOp := some { addr := 0x1c000000, sel := .iCache, op := .hitInvalidate }

/-- The fetch of the reset vector misses and its request is accepted. In the next
cycle an older cache operation invalidates the set and flushes the fetch. -/
def invalidateDuringRefill : List Inputs :=
  [{ nextPC := 0x1c000010 }, idle, { arReady := true }, invalidateSet0] ++
    beats (fun _ => 0x03400000) ++ [idle]

instance (s : ICacheTrace) (i : Inputs) : Decidable ((machine.restrict Undisturbed).legal s i) :=
  inferInstanceAs (Decidable (machine.legal s i ∧ (s.reading = true → s.invalidated i = false)))

end ICacheTrace

end NopCore
