import NopCore.Mem.Occupancy
import NopCore.Mem.StoreOrder
import NopCore.Peripheral.AxiBuffer

/-!
# The order of uncached accesses

The core hands an uncached store to the buffer and goes on as soon as the buffer
has it. An uncached load holds MEM2 until its word has come. Three conditions keep
its request behind the stores: the core asks only when its own store machine is at
rest, and the buffer passes the request on only when its FIFO is empty and no
write is running.
-/

namespace NopCore

namespace AxiBufferTrace

open AxiBuffer

variable {t : AxiBufferTrace} {i : Inputs}

/-- The slave does not accept the address in the first cycle of a write. -/
def AddressWaits (t : AxiBufferTrace) (i : Inputs) : Prop :=
  t.buffer.writeOutput = .waitRead → i.awReady = false

/-- The addresses that have been sent are those of the first accepted writes, and
all of them but the last have been answered. -/
structure Addressed (t : AxiBufferTrace) (done : List BufferEntry) : Prop where
  accepted : t.accepted = done ++ t.buffer.sending ++ t.buffer.fifo
  addresses : t.addresses =
    (done ++ if t.buffer.addressSent then t.buffer.sending else []).map BufferEntry.aw
  answered : done.length ≤ t.responses
  responses : t.responses ≤ t.addresses.length

theorem Addressed.of_init (h : Init t) : Addressed t [] := by
  constructor <;>
    simp [h.accepted, h.fifo, h.writeOutput, h.responses, h.addresses, sending, addressSent]

theorem Addressed.step {done : List BufferEntry} (h : Addressed t done) (hlegal : Legal t i)
    (hwaits : AddressWaits t i) : Addressed (t.step i) (done ++ t.buffer.finished i) where
  accepted := accepted_step h.accepted
  addresses := addresses_step h.addresses hwaits
  answered := by
    rw [List.length_append]
    exact Nat.add_le_add h.answered length_finished_le
  responses := by
    change t.responses + i.bValid.toNat ≤ (t.addressesNext i).length
    cases hb : i.bValid with
    | false => exact h.responses.trans (by simp [addressesNext])
    | true => exact (hlegal hb).1

end AxiBufferTrace

namespace MemPipeline

variable {s : MemPipeline} {i : Inputs}

theorem refill_asking (h : s.refill.state = .waitAXIU) :
    (s.step i).refill.state =
      if i.uArReady && s.uncachedReady i && s.writebackIdle then .readMemU else .waitAXIU := by
  have hnext : (s.step i).refill = s.nextRefill i := rfl
  rw [hnext, nextRefill]
  simp only [h]
  split_ifs <;> simp

theorem refill_reading (h : s.refill.state = .readMemU) :
    (s.step i).refill.state = if i.uRValid then .finishU else .readMemU := by
  have hnext : (s.step i).refill = s.nextRefill i := rfl
  rw [hnext, nextRefill]
  simp only [h]
  split_ifs <;> simp

/-- A read is under way if it was or if its request has just been accepted. -/
theorem reading_of_step (h : (s.step i).refill.state = .readMemU) :
    s.refill.state = .readMemU ∨ s.refill.state = .waitAXIU := by
  have hnext : (s.step i).refill = s.nextRefill i := rfl
  rw [hnext, nextRefill] at h
  cases hstate : s.refill.state <;> simp only [hstate] at h <;> grind

end MemPipeline

/-! ## The core and the buffer -/

/-- A store that bypasses the cache. -/
def StoreBufferSlot.isUncachedStore (e : StoreBufferSlot) : Bool := e.isStore && !e.isCached

@[simp] theorem StoreBufferSlot.isUncachedStore_mark (e : StoreBufferSlot) (b : Bool) :
    (e.mark b).isUncachedStore = e.isUncachedStore := rfl

/-- The memory pipeline with the buffer at its uncached bus, the handshakes of the
buffer's output port, and the accesses in program order. -/
structure UncachedSystem where
  pipeline : MemPipeline := {}
  port : AxiBufferTrace := {}
  log : AccessLog := {}

namespace UncachedSystem

/-- The inputs of the pipeline except for the uncached bus, and the slave at the
output port. -/
structure Inputs where
  mem : MemPipeline.Inputs := {}
  /-- The size of the store that is sent. -/
  size : BitVec 3 := 2
  slave : AxiBuffer.Inputs := {}
  rData : BWord := fun _ => 0

variable (t : UncachedSystem) (i : Inputs)

/-- The store machine offers its store. -/
def writeInputs : AxiBuffer.Inputs :=
  { i.slave with
    awValid := t.pipeline.uncached.state == .waitAXIWriteU && !t.pipeline.uncached.awSent
    write :=
      { id := 2, addr := t.pipeline.uncached.regSTD.addr, data := t.pipeline.uncached.regSTD.data
        size := i.size, strb := t.pipeline.uncached.regSTD.be }
    arValid := false
    rReady := t.pipeline.refill.state == .readMemU }

/-- The buffer takes the store. -/
def takes : Bool := t.port.buffer.wrEn (t.writeInputs i)

/-- Its acknowledgement comes with the handshake. -/
def storeInputs : MemPipeline.Inputs :=
  { i.mem with uAwReady := t.takes i, uWReady := t.takes i, uBValid := t.takes i }

/-- An uncached load asks for its word. -/
def arValid : Bool :=
  t.pipeline.refill.state == .waitAXIU && t.pipeline.uncachedReady (t.storeInputs i) &&
    t.pipeline.writebackIdle

def bufferInputs : AxiBuffer.Inputs := { t.writeInputs i with arValid := t.arValid i }

def memInputs : MemPipeline.Inputs :=
  { t.storeInputs i with
    uArReady := t.port.buffer.readThrough (t.bufferInputs i) && i.slave.arReady
    uRValid := t.port.buffer.readThrough (t.bufferInputs i) && i.slave.rValid && i.slave.rLast
    uRData := i.rData }

def step : UncachedSystem where
  pipeline := t.pipeline.step (t.memInputs i)
  port := t.port.step (t.bufferInputs i)
  log := t.log.next t.pipeline (t.memInputs i)

structure Init (t : UncachedSystem) : Prop where
  pipeline : t.pipeline.Init
  port : t.port.Init
  log : t.log = {}

structure Legal (t : UncachedSystem) (i : Inputs) : Prop where
  pipeline : t.pipeline.Legal (t.memInputs i)
  port : t.port.Legal (t.bufferInputs i)

def machine : Clocked.Machine UncachedSystem Inputs where
  init := Init
  legal := Legal
  step := step

/-- The slave does not accept the address in the first cycle of a write. -/
def AddressWaits (t : UncachedSystem) (i : Inputs) : Prop :=
  t.port.AddressWaits (t.bufferInputs i)

/-- The uncached stores in front of the access that leaves next. -/
def earlier (t : UncachedSystem) : List StoreBufferSlot :=
  (t.log.program.take t.log.left).filter StoreBufferSlot.isUncachedStore

/-- If a read request is presented, it is that of an uncached load in MEM2, every
uncached store before it in program order has been sent, and every store that has
been sent has its response. -/
def ReadsInOrder (t : UncachedSystem) (i : Inputs) : Prop :=
  t.port.buffer.outArValid (t.bufferInputs i) = true →
    (∃ load, t.log.program[t.log.left]? = some load ∧ load.isStore = false ∧
      t.pipeline.mem2.std.map (fun e => e.mark false) = some load) ∧
    (t.earlier.map fun e => e.addr).Sublist (t.port.addresses.map Axi4Aw.addr) ∧
    t.port.responses = t.port.addresses.length

variable {t i}

/-! ## Invariant -/

/-- The store that the core's store machine has taken and the buffer has not. -/
def unsent (s : MemPipeline) : List UWord :=
  if s.uncached.state = .waitAXIWriteU then [s.uncached.regSTD.addr] else []

/-- Where a read may be when the buffer has connected the read channels. -/
def Reading (s : MemPipeline) (b : AxiBuffer) : Prop :=
  s.refill.state = .readMemU ∨
    (s.refill.state = .waitAXIU ∧ s.uncached.state = .stateBoot ∧ b.fifo = [] ∧
      b.writeOutput = .stateBoot)

structure Stores (t : UncachedSystem) : Prop where
  control : t.pipeline.Control
  follows : t.log.InOrder t.pipeline
  addressed : ∃ done, t.port.Addressed done
  /-- Every uncached store that has left MEM2 was accepted or is offered. -/
  accepted : (t.port.accepted.map fun e => e.addr) ++ unsent t.pipeline =
    t.earlier.map fun e => e.addr
  offered : t.pipeline.uncached.state = .waitAXIWriteU →
    t.pipeline.uncached.awSent = false ∧ t.pipeline.uncached.wSent = false
  reading : t.port.buffer.readOutput = .waitR → Reading t.pipeline t.port.buffer
  loading : t.pipeline.refill.state = .readMemU → t.port.buffer.readOutput = .waitR

theorem takes_of_boot (h : t.pipeline.uncached.state = .stateBoot) : t.takes i = false := by
  simp [takes, AxiBuffer.wrEn, writeInputs, h]

theorem uncachedSent_eq (h : t.pipeline.uncached.state = .waitAXIWriteU →
      t.pipeline.uncached.awSent = false ∧ t.pipeline.uncached.wSent = false) :
    t.pipeline.uncachedSent (t.memInputs i) = t.takes i := by
  cases hstate : t.pipeline.uncached.state with
  | stateBoot =>
    rw [takes_of_boot hstate]
    simp [MemPipeline.uncachedSent, hstate]
  | waitAXIWriteU =>
    obtain ⟨haw, hw⟩ := h hstate
    simp [MemPipeline.uncachedSent, hstate, haw, hw, memInputs, storeInputs]

theorem wrEn_bufferInputs : t.port.buffer.wrEn (t.bufferInputs i) = t.takes i := rfl

theorem arValid_iff (h : t.arValid i = true) :
    t.pipeline.refill.state = .waitAXIU ∧ t.pipeline.uncached.state = .stateBoot := by
  simp only [arValid, MemPipeline.uncachedReady, Bool.and_eq_true, beq_iff_eq] at h
  exact ⟨h.1.1, h.1.2.1⟩

/-- An uncached store leaves MEM2 through the handshake with the store machine. -/
theorem leaves_uncached (s : MemPipeline) (i : MemPipeline.Inputs) :
    (s.leaves i).filter StoreBufferSlot.isUncachedStore =
      if s.uncachedFire i then MemPipeline.carried s.mem2.std else [] := by
  cases hstd : s.mem2.std with
  | none =>
    have hfire : s.uncachedFire i = false := by
      simp [MemPipeline.uncachedFire, MemPipeline.isSTU, hstd]
    simp [MemPipeline.leaves, hstd, hfire]
  | some e =>
    cases hu : e.isUncachedStore with
    | false =>
      have hfire : s.uncachedFire i = false := by
        rw [StoreBufferSlot.isUncachedStore] at hu
        simp [MemPipeline.uncachedFire, MemPipeline.isSTU, hstd, hu]
      rw [hfire, if_neg Bool.false_ne_true, MemPipeline.leaves, hstd]
      split_ifs <;> simp [hu]
    | true =>
      have hstu : s.isSTU = true := by
        rw [StoreBufferSlot.isUncachedStore] at hu
        simp [MemPipeline.isSTU, hstd, hu]
      cases hstuck : s.stuck2 i with
      | true => simp [MemPipeline.leaves, MemPipeline.uncachedFire, hstuck]
      | false =>
        have hready : s.uncachedReady i = true := by
          by_contra hready
          have hno := hstuck
          simp [MemPipeline.stuck2, hstu, hready] at hno
        simp [MemPipeline.leaves, MemPipeline.uncachedFire, hstuck, hstu, hready, hstd, hu]

theorem earlier_step (h : t.log.InOrder t.pipeline) (hlegal : Legal t i) :
    (t.step i).earlier = t.earlier ++
      (t.pipeline.leaves (t.memInputs i)).filter StoreBufferSlot.isUncachedStore := by
  obtain ⟨gone, entries, marked, hfollows⟩ := h
  have hnext := hfollows.step hlegal.pipeline
  have hearlier : t.earlier = gone.filter StoreBufferSlot.isUncachedStore := by
    rw [earlier, hfollows.program, hfollows.left, List.append_assoc, List.take_left]
  have hthen : (t.step i).earlier = (gone ++ t.pipeline.leaves (t.memInputs i)).filter
      StoreBufferSlot.isUncachedStore := by
    rw [earlier, step, hnext.program, hnext.left, List.append_assoc, List.take_left]
  rw [hthen, hearlier, List.filter_append]

theorem uncachedFire_state {s : MemPipeline} {i : MemPipeline.Inputs}
    (h : s.uncachedFire i = true) :
    s.uncached.state = .stateBoot ∧ s.isSTU = true ∧ s.stuck2 i = false := by
  simp only [MemPipeline.uncachedFire, MemPipeline.uncachedReady, Bool.and_eq_true,
    Bool.not_eq_true', beq_iff_eq] at h
  exact ⟨h.2.1, h.1.1, h.1.2⟩

/-- Stores move from MEM2 to the store machine, and from there to the buffer. -/
theorem Stores.accepted_step (h : Stores t) (hlegal : Legal t i) :
    ((t.step i).port.accepted.map fun e => e.addr) ++ unsent (t.step i).pipeline =
      (t.step i).earlier.map fun e => e.addr := by
  have hport : (t.step i).port.accepted =
      t.port.accepted ++ if t.takes i then [(t.bufferInputs i).write] else [] := rfl
  have hwrite : (t.bufferInputs i).write.addr = t.pipeline.uncached.regSTD.addr := rfl
  have hnext : (t.step i).pipeline.uncached = t.pipeline.nextUncached (t.memInputs i) := rfl
  rw [earlier_step h.follows hlegal, List.map_append, ← h.accepted, leaves_uncached, hport,
    unsent, unsent, hnext, MemPipeline.nextUncached]
  cases hstate : t.pipeline.uncached.state with
  | stateBoot =>
    rw [takes_of_boot hstate]
    cases hfire : t.pipeline.uncachedFire (t.memInputs i) with
    | false => simp [hstate]
    | true =>
      obtain ⟨e, he⟩ := Option.isSome_iff_exists.mp
        (MemPipeline.isSome_of_isSTU (uncachedFire_state hfire).2.1)
      simp [he, StoreBufferSlot.mark]
  | waitAXIWriteU =>
    have hfire : t.pipeline.uncachedFire (t.memInputs i) = false := by
      by_contra hfire
      have hboot := (uncachedFire_state (Bool.of_not_eq_false hfire)).1
      rw [hstate] at hboot
      cases hboot
    rw [hfire, uncachedSent_eq h.offered]
    cases t.takes i <;> simp [hwrite]

theorem Stores.offered_step (h : Stores t)
    (hstate : (t.step i).pipeline.uncached.state = .waitAXIWriteU) :
    (t.step i).pipeline.uncached.awSent = false ∧
      (t.step i).pipeline.uncached.wSent = false := by
  have hnext : (t.step i).pipeline.uncached = t.pipeline.nextUncached (t.memInputs i) := rfl
  rw [hnext, MemPipeline.nextUncached] at hstate ⊢
  cases hnow : t.pipeline.uncached.state with
  | stateBoot =>
    simp only [hnow] at hstate ⊢
    split_ifs at hstate ⊢
    exact ⟨rfl, rfl⟩
  | waitAXIWriteU =>
    simp only [hnow, uncachedSent_eq h.offered] at hstate ⊢
    obtain ⟨haw, hw⟩ := h.offered hnow
    cases htakes : t.takes i with
    | true => simp [htakes] at hstate
    | false => simp [haw, hw, memInputs, storeInputs, htakes]

/-- While a load asks and everything is quiet, no write starts. -/
theorem reading_of_quiet (hrefill : t.pipeline.refill.state = .waitAXIU)
    (huncached : t.pipeline.uncached.state = .stateBoot) (hfifo : t.port.buffer.fifo = [])
    (hwrite : t.port.buffer.writeOutput = .stateBoot) :
    Reading (t.step i).pipeline (t.step i).port.buffer := by
  have htakes := takes_of_boot (i := i) huncached
  have hstuck : t.pipeline.stuck2 (t.memInputs i) = true := by
    simp [MemPipeline.stuck2, hrefill]
  have hfire : t.pipeline.uncachedFire (t.memInputs i) = false := by
    simp [MemPipeline.uncachedFire, hstuck]
  have hrd : t.port.buffer.rdEn (t.bufferInputs i) = false := by
    simp [AxiBuffer.rdEn, AxiBuffer.empty, hfifo]
  have hrefillNext := MemPipeline.refill_asking (i := t.memInputs i) hrefill
  have huncachedNext : (t.step i).pipeline.uncached.state = .stateBoot := by
    have hnext : (t.step i).pipeline.uncached = t.pipeline.nextUncached (t.memInputs i) := rfl
    rw [hnext, MemPipeline.nextUncached]
    simp [huncached, hfire]
  have hbuffer : (t.step i).port.buffer = t.port.buffer.step (t.bufferInputs i) := rfl
  have hfifoNext : (t.step i).port.buffer.fifo = [] := by
    simp [hbuffer, AxiBuffer.step, hrd, wrEn_bufferInputs, htakes, hfifo]
  have hwriteNext : (t.step i).port.buffer.writeOutput = .stateBoot := by
    simp [hbuffer, AxiBuffer.step, AxiBuffer.nextWriteOutput, hwrite, hrd]
  split_ifs at hrefillNext
  · exact Or.inl hrefillNext
  · exact Or.inr ⟨hrefillNext, huncachedNext, hfifoNext, hwriteNext⟩

theorem Stores.reading_step (h : Stores t)
    (hread : (t.step i).port.buffer.readOutput = .waitR) :
    Reading (t.step i).pipeline (t.step i).port.buffer := by
  have hnext : (t.step i).port.buffer.readOutput =
      t.port.buffer.nextReadOutput (t.bufferInputs i) := rfl
  rw [hnext, AxiBuffer.nextReadOutput] at hread
  cases hnow : t.port.buffer.readOutput with
  | stateBoot =>
    simp only [hnow] at hread
    split_ifs at hread with hthrough
    simp only [AxiBuffer.readThrough, hnow, AxiBuffer.writeIsRunning, AxiBuffer.empty,
      Bool.or_eq_true, Bool.and_eq_true, Bool.not_eq_true', Bool.or_eq_false_iff,
      bne_eq_false_iff_eq, List.isEmpty_iff] at hthrough
    obtain hthrough | ⟨⟨hfifo, hload⟩, hwrite, -⟩ := hthrough
    · cases hthrough
    · exact reading_of_quiet (arValid_iff hload).1 (arValid_iff hload).2 hfifo hwrite
  | waitR =>
    obtain hrefill | ⟨hrefill, huncached, hfifo, hwrite⟩ := h.reading hnow
    · left
      have hlast : (i.slave.rValid && i.slave.rLast) = false := by
        simp only [hnow] at hread
        split_ifs at hread with hdone
        simpa [bufferInputs, writeInputs, hrefill, and_comm] using hdone
      have hnone : (t.memInputs i).uRValid = false := by
        simp [memInputs, Bool.and_assoc, hlast]
      have hrefillNext := MemPipeline.refill_reading (i := t.memInputs i) hrefill
      rw [hnone] at hrefillNext
      exact hrefillNext
    · exact reading_of_quiet hrefill huncached hfifo hwrite

theorem Stores.loading_step (h : Stores t)
    (hload : (t.step i).pipeline.refill.state = .readMemU) :
    (t.step i).port.buffer.readOutput = .waitR := by
  have hnext : (t.step i).port.buffer.readOutput =
      t.port.buffer.nextReadOutput (t.bufferInputs i) := rfl
  rw [hnext, AxiBuffer.nextReadOutput]
  obtain hrefill | hrefill := MemPipeline.reading_of_step hload
  · have hread := h.loading hrefill
    have hstep := MemPipeline.refill_reading (i := t.memInputs i) hrefill
    have hnone : (t.memInputs i).uRValid = false := by
      by_contra hdone
      rw [Bool.of_not_eq_false hdone] at hstep
      rw [show (t.step i).pipeline = t.pipeline.step (t.memInputs i) from rfl, hstep] at hload
      cases hload
    have hlast : (i.slave.rLast && i.slave.rValid) = false := by
      rw [Bool.and_comm]
      simpa [memInputs, AxiBuffer.readThrough, hread] using hnone
    simp [hread, bufferInputs, writeInputs, hlast]
  · have hstep := MemPipeline.refill_asking (i := t.memInputs i) hrefill
    rw [show (t.step i).pipeline = t.pipeline.step (t.memInputs i) from rfl, hstep] at hload
    split_ifs at hload with hfire
    have hthrough : t.port.buffer.readThrough (t.bufferInputs i) = true := by
      simp only [memInputs, Bool.and_eq_true] at hfire
      exact hfire.1.1.1
    cases hnow : t.port.buffer.readOutput with
    | stateBoot => simp [hthrough]
    | waitR => simp [bufferInputs, writeInputs, hrefill]

theorem Stores.of_init (h : Init t) : Stores t where
  control := .of_init h.pipeline
  follows := h.log ▸ .of_init h.pipeline
  addressed := ⟨[], .of_init h.port⟩
  accepted := by simp [h.port.accepted, unsent, h.pipeline.uncached, earlier, h.log]
  offered hstate := by simp [h.pipeline.uncached] at hstate
  reading hread := by simp [h.port.readOutput] at hread
  loading hload := by simp [h.pipeline.refill.1] at hload

theorem Stores.step (h : Stores t) (hlegal : Legal t i) (hwaits : AddressWaits t i) :
    Stores (t.step i) where
  control := h.control.step hlegal.pipeline
  follows := h.follows.step hlegal.pipeline
  addressed := by
    obtain ⟨_, haddressed⟩ := h.addressed
    exact ⟨_, haddressed.step hlegal.port hwaits⟩
  accepted := h.accepted_step hlegal
  offered := h.offered_step
  reading := h.reading_step
  loading := h.loading_step

/-- Nothing is on its way when a read request is presented. -/
theorem Stores.quiet (h : Stores t)
    (hpresent : t.port.buffer.outArValid (t.bufferInputs i) = true) :
    t.pipeline.refill.state = .waitAXIU ∧ t.pipeline.uncached.state = .stateBoot ∧
      t.port.buffer.fifo = [] ∧ t.port.buffer.writeOutput = .stateBoot := by
  rw [AxiBuffer.outArValid, Bool.and_eq_true] at hpresent
  obtain ⟨hthrough, hload⟩ := hpresent
  obtain ⟨hrefill, huncached⟩ := arValid_iff hload
  simp only [AxiBuffer.readThrough, AxiBuffer.writeIsRunning, AxiBuffer.empty,
    Bool.or_eq_true, Bool.and_eq_true, Bool.not_eq_true', Bool.or_eq_false_iff, beq_iff_eq,
    bne_eq_false_iff_eq, List.isEmpty_iff] at hthrough
  obtain hread | ⟨⟨hfifo, -⟩, hwrite, -⟩ := hthrough
  · obtain hreading | hquiet := h.reading hread
    · rw [hrefill] at hreading
      cases hreading
    · exact hquiet
  · exact ⟨hrefill, huncached, hfifo, hwrite⟩

instance (t : UncachedSystem) (i : Inputs) : Decidable (machine.legal t i) :=
  decidable_of_iff
    (MemPipeline.machine.legal t.pipeline (t.memInputs i) ∧
      AxiBufferTrace.machine.legal t.port (t.bufferInputs i))
    ⟨fun ⟨h1, h2⟩ => ⟨h1, h2⟩, fun ⟨h1, h2⟩ => ⟨h1, h2⟩⟩

instance (t : UncachedSystem) (i : Inputs) :
    Decidable ((machine.restrict AddressWaits).legal t i) :=
  inferInstanceAs (Decidable (machine.legal t i ∧
    (t.port.buffer.writeOutput = .waitRead → i.slave.awReady = false)))

theorem init_atReset : Init {} :=
  ⟨MemPipeline.init_atReset, AxiBufferTrace.init_empty, rfl⟩

/-- An uncached access issues. -/
def issue (isStore : Bool) (addr : UWord) : Inputs :=
  { mem :=
      { headReady := true
        head := { isLoad := !isStore, isStore := isStore, addr := addr, cached := false } } }

def retire : Inputs := { mem := { commitStore := true } }

def slave (awReady wReady bValid : Bool) : Inputs :=
  { slave := { awReady := awReady, wReady := wReady, bValid := bValid } }

/-- A store and a load behind it; the slave waits for a cycle. -/
def storeThenLoad : List Inputs :=
  [issue true 0x1fe001e0, issue false 0x1fe001e4, {}, {}, {}, retire, retire, {}, {}, {}, {}, {},
   {}, {}, slave true true false, slave false false true]

/-- Two stores and a load; the slave accepts the first store in its first cycle,
and once more in the next. -/
def acceptedAtOnce : List Inputs :=
  [issue true 0x1fe001e0, issue true 0x1fe001e4, issue false 0x1fe001e8, {}, {}, retire, retire,
   retire, {}, {}, {}, {}, {}, slave true true false, slave true true false,
   slave false false true, {}, {}, slave true true true]

end UncachedSystem

end NopCore
