import NopCore.Fetch.ICache
import NopCore.Lib.Arbiter
import NopCore.Mem.Loading
import NopCore.Peripheral.UncachedOrder

/-!
# The crossbar

Three masters share the bus of the chip: the refills of the instruction cache, the
refills and write-backs of the data cache, and the uncached accesses behind their
buffer. Reads and writes are arbitrated apart, each by one registered grant that
lasts to the final beat.

The masters are state machines, and each state says which channel they drive. That
none of them withdraws an address or offers a second one is read off these states;
that a master sees only its own beats is what the arbiter makes of it.
-/

namespace NopCore

/-- The caches, the buffer and the two arbiters. -/
structure CrossbarSystem where
  icache : ICache := {}
  core : UncachedSystem := {}
  readArb : Bus.Channel 3 := { grantId := 0 }
  writeArb : Bus.Channel 2 := { grantId := 0 }

namespace CrossbarSystem

/-- The slave at the port of the chip. -/
structure Slave where
  arReady : Bool := false
  rValid : Bool := false
  rLast : Bool := false
  awReady : Bool := false
  wReady : Bool := false
  bValid : Bool := false

/-- What the rest of the core drives; the handshakes of the buses among it are
replaced by those of the crossbar. -/
structure Inputs where
  icache : ICache.Inputs := {}
  core : UncachedSystem.Inputs := {}
  slave : Slave := {}

variable (t : CrossbarSystem) (i : Inputs)

def mem : MemPipeline := t.core.pipeline

def buffer : AxiBuffer := t.core.port.buffer

/-! ## Wiring -/

def icacheInputs : ICache.Inputs :=
  { i.icache with
    arReady := t.readArb.connected 0 && i.slave.arReady
    rValid := t.readArb.connected 0 && i.slave.rValid
    rLast := i.slave.rLast }

def dBusInputs : MemPipeline.Inputs :=
  { i.core.mem with
    arReady := t.readArb.connected 1 && i.slave.arReady
    rValid := t.readArb.connected 1 && i.slave.rValid
    awReady := t.writeArb.connected 0 && i.slave.awReady
    wReady := t.writeArb.connected 0 && i.slave.wReady
    bValid := t.writeArb.connected 0 && i.slave.bValid }

def udBusInputs : AxiBuffer.Inputs :=
  { i.core.slave with
    arReady := t.readArb.connected 2 && i.slave.arReady
    rValid := t.readArb.connected 2 && i.slave.rValid
    rLast := i.slave.rLast
    awReady := t.writeArb.connected 1 && i.slave.awReady
    wReady := t.writeArb.connected 1 && i.slave.wReady
    bValid := t.writeArb.connected 1 && i.slave.bValid }

def coreInputs : UncachedSystem.Inputs :=
  { i.core with mem := t.dBusInputs i, slave := t.udBusInputs i }

/-- The read requests of the instruction, the data and the uncached bus. -/
def arValid : Fin 3 → Bool :=
  ![t.icache.arValid, t.mem.refill.state == .waitAXI,
    t.buffer.outArValid (t.core.bufferInputs (t.coreInputs i))]

def rReady : Fin 3 → Bool :=
  ![t.icache.rReady, t.mem.rReady,
    t.buffer.readThrough (t.core.bufferInputs (t.coreInputs i)) &&
      t.mem.refill.state == .readMemU]

/-- The write requests of the data and the uncached bus. -/
def awValid : Fin 2 → Bool := ![t.mem.writeback.state == .waitAW, t.buffer.outAw.isSome]

def wValid : Fin 2 → Bool := ![t.mem.writeback.state == .writeMem, t.buffer.outW.isSome]

def readSignals : Bus.Signals 3 where
  addrValid := t.arValid i
  respReady := t.rReady i
  addrReady := i.slave.arReady
  respValid := i.slave.rValid
  respLast := i.slave.rLast

/-- Write responses are always taken, and each is the final beat of its write. -/
def writeSignals : Bus.Signals 2 where
  addrValid := t.awValid
  respReady := fun _ => true
  addrReady := i.slave.awReady
  respValid := i.slave.bValid
  respLast := true

def step : CrossbarSystem where
  icache := t.icache.step (t.icacheInputs i)
  core := t.core.step (t.coreInputs i)
  readArb := t.readArb.step (t.readSignals i)
  writeArb := t.writeArb.step (t.writeSignals i)

structure Init (t : CrossbarSystem) : Prop where
  icache : t.icache.fsm = .stateBoot
  mem : t.mem.Init
  port : t.core.port.Init
  readBusy : t.readArb.busy = false
  readRecord : t.readArb.accepted = [] ∧ t.readArb.finished = 0 ∧ t.readArb.sent = [] ∧
    ∀ m, t.readArb.received m = []
  writeBusy : t.writeArb.busy = false
  writeRecord : t.writeArb.accepted = [] ∧ t.writeArb.finished = 0 ∧ t.writeArb.sent = [] ∧
    ∀ m, t.writeArb.received m = []

/-- The slave answers only what it has accepted, and the burst of a data cache line
has sixteen beats. -/
structure Legal (t : CrossbarSystem) (i : Inputs) : Prop where
  mem : t.mem.Legal (t.core.memInputs (t.coreInputs i))
  reads : t.readArb.Legal (t.readSignals i)
  writes : t.writeArb.Legal (t.writeSignals i)
  burst : t.readArb.connected 1 = true → i.slave.rLast = t.mem.rLast

def machine : Clocked.Machine CrossbarSystem Inputs where
  init := Init
  legal := Legal
  step := step

/-- Both arbiters serve their masters: every response has reached the master whose
address it answers, at most one transfer of each kind is open, and the master with
the grant keeps it to the final beat. -/
structure Arbitrates (t : CrossbarSystem) (i : Inputs) : Prop where
  reads : t.readArb.Delivers
  writes : t.writeArb.Delivers
  readGrant : t.readArb.Holds (t.readSignals i)
  writeGrant : t.writeArb.Holds (t.writeSignals i)

variable {t i}

/-! ## The masters -/

/-- What the state machines do while their transfer is open. -/
structure Masters (t : CrossbarSystem) : Prop where
  control : t.mem.Control
  loading : t.mem.Loading
  /-- A read that the buffer passes on is asked for until it is accepted. -/
  reading : t.buffer.readOutput = .waitR → t.mem.refill.state = .readMemU ∨
    (t.mem.refill.state = .waitAXIU ∧ t.mem.uncached.state = .stateBoot ∧
      t.mem.uncached.bRecv = true ∧ t.mem.writeback.state = .stateBoot)
  icacheRead : t.readArb.isOpen → t.readArb.grantId = 0 → t.icache.fsm = .readMem
  dBusRead : t.readArb.isOpen → t.readArb.grantId = 1 → t.mem.refill.state = .readMem
  udBusRead : t.readArb.isOpen → t.readArb.grantId = 2 →
    t.mem.refill.state = .readMemU ∧ t.buffer.readOutput = .waitR
  dBusWrite : t.writeArb.isOpen → t.writeArb.grantId = 0 →
    t.mem.writeback.state = .writeMem ∨ t.mem.writeback.state = .waitB
  udBusWrite : t.writeArb.isOpen → t.writeArb.grantId = 1 →
    t.buffer.writeOutput = .waitW ∨ t.buffer.writeOutput = .waitB
  /-- The buffer is granted only after the cycle in which it first asks. -/
  granted : t.writeArb.busy = true → t.writeArb.grantId = 1 →
    t.buffer.writeOutput ≠ .waitRead

theorem mem_step : (t.step i).mem = t.mem.step (t.core.memInputs (t.coreInputs i)) := rfl

theorem buffer_step :
    (t.step i).buffer = t.buffer.step (t.core.bufferInputs (t.coreInputs i)) := rfl

/-- The read request of the buffer, seen from the core. -/
theorem outArValid_iff : t.buffer.outArValid (t.core.bufferInputs (t.coreInputs i)) = true ↔
    t.buffer.readThrough (t.core.bufferInputs (t.coreInputs i)) = true ∧
      t.mem.refill.state = .waitAXIU ∧
      t.mem.uncachedReady (t.core.memInputs (t.coreInputs i)) = true ∧
      t.mem.writeback.state = .stateBoot := by
  have harValid : (t.core.bufferInputs (t.coreInputs i)).arValid =
      (t.mem.refill.state == .waitAXIU &&
        t.mem.uncachedReady (t.core.memInputs (t.coreInputs i)) && t.mem.writebackIdle) := rfl
  simp [AxiBuffer.outArValid, harValid, MemPipeline.writebackIdle, and_assoc]

/-- A read that is asked for while the buffer has connected the channels. -/
theorem outArValid_of_reading (hread : t.buffer.readOutput = .waitR)
    (hrefill : t.mem.refill.state = .waitAXIU) (hstore : t.mem.uncached.state = .stateBoot)
    (hb : t.mem.uncached.bRecv = true) (hidle : t.mem.writeback.state = .stateBoot) :
    t.buffer.outArValid (t.core.bufferInputs (t.coreInputs i)) = true := by
  rw [outArValid_iff]
  refine ⟨by simp [AxiBuffer.readThrough, hread], hrefill, ?_, hidle⟩
  simp [MemPipeline.uncachedReady, hstore, hb]

/-- While a load asks, the store machine rests and no line is written back. -/
theorem Masters.asking_step (h : t.Masters) (hrefill : t.mem.refill.state = .waitAXIU)
    (hready : t.mem.uncachedReady (t.core.memInputs (t.coreInputs i)) = true)
    (hidle : t.mem.writeback.state = .stateBoot) :
    (t.step i).mem.uncached.state = .stateBoot ∧ (t.step i).mem.uncached.bRecv = true ∧
      (t.step i).mem.writeback.state = .stateBoot := by
  have hload : t.mem.loadingU = true := by simp [MemPipeline.loadingU, hrefill]
  have hstuck : t.mem.stuck2 (t.core.memInputs (t.coreInputs i)) = true := by
    simp [MemPipeline.stuck2, hrefill]
  simp only [MemPipeline.uncachedReady, Bool.and_eq_true, Bool.or_eq_true, beq_iff_eq] at hready
  have hfire : t.mem.uncachedFire (t.core.memInputs (t.coreInputs i)) = false := by
    simp [MemPipeline.uncachedFire, hstuck]
  have hnext : (t.step i).mem.uncached =
      { t.mem.uncached with
        bRecv := t.mem.uncached.bRecv || (t.core.memInputs (t.coreInputs i)).uBValid } := by
    simp [mem_step, MemPipeline.step, MemPipeline.nextUncached, hready.1, hfire]
  refine ⟨by rw [hnext]; exact hready.1, ?_, h.loading.writeback_step h.control hload hidle⟩
  rw [hnext]
  simpa using hready.2

theorem Masters.of_init (h : Init t) : t.Masters where
  control := .of_init h.mem
  loading := .of_init h.mem
  reading hread := by
    have hboot : t.buffer.readOutput = .stateBoot := h.port.readOutput
    rw [hboot] at hread
    cases hread
  icacheRead hopen := by simp [Bus.Channel.isOpen, h.readRecord.1] at hopen
  dBusRead hopen := by simp [Bus.Channel.isOpen, h.readRecord.1] at hopen
  udBusRead hopen := by simp [Bus.Channel.isOpen, h.readRecord.1] at hopen
  dBusWrite hopen := by simp [Bus.Channel.isOpen, h.writeRecord.1] at hopen
  udBusWrite hopen := by simp [Bus.Channel.isOpen, h.writeRecord.1] at hopen
  granted hbusy := by simp [h.writeBusy] at hbusy

/-- The arbiters and their masters fit together. -/
structure Arbitrated (t : CrossbarSystem) : Prop where
  masters : t.Masters
  reads : ∀ i, t.readArb.Inv (t.arValid i)
  writes : t.writeArb.Inv t.awValid

theorem Arbitrated.of_init (h : Init t) : t.Arbitrated where
  masters := .of_init h
  reads _ := .init h.readBusy h.readRecord.1 h.readRecord.2.1 h.readRecord.2.2.1 h.readRecord.2.2.2
  writes := .init h.writeBusy h.writeRecord.1 h.writeRecord.2.1 h.writeRecord.2.2.1
    h.writeRecord.2.2.2

/-- The beats that the arbiter counts for the caches are those that their state
machines take. -/
theorem respFire_caches :
    t.readArb.respFire (t.readSignals i) 0 = t.icache.rFire (t.icacheInputs i) ∧
      t.readArb.respFire (t.readSignals i) 1 = t.mem.rFire (t.core.memInputs (t.coreInputs i)) :=
  ⟨rfl, rfl⟩

/-! ## Reads -/

/-- The address of the master with the grant is accepted. -/
theorem fire_of_read {m : Fin 3} (h : t.readArb.addrFire (t.readSignals i) m = true) :
    t.readArb.connected m = true ∧ t.arValid i m = true ∧ i.slave.arReady = true := by
  simpa [Bus.Channel.addrFire, readSignals, and_assoc] using h

/-- As long as its transfer is open, the final beat has not come to the master. -/
theorem not_last_of_open {m : Fin 3} (hfin : t.readArb.finishes (t.readSignals i) = false)
    (hbusy : t.readArb.busy = true) (hm : t.readArb.grantId = m) (hready : t.rReady i m = true) :
    (t.readArb.connected m && i.slave.rValid && i.slave.rLast) = false := by
  subst hm
  simpa [Bus.Channel.finishes, Bus.Channel.respReadyOut, Bus.Channel.connected, readSignals,
    hbusy, hready] using hfin

theorem Arbitrated.icacheRead_step (h : t.Arbitrated) (hlegal : Legal t i)
    (hopen : (t.step i).readArb.isOpen) (hgrant : (t.step i).readArb.grantId = 0) :
    (t.step i).icache.fsm = .readMem := by
  obtain ⟨hbusy, hzero, hfin, hopened⟩ := (h.reads i).open_of_grantId hlegal.reads hopen hgrant
  have hnext : (t.step i).icache.fsm = t.icache.nextFsm (t.icacheInputs i) := rfl
  rw [hnext, ICache.nextFsm]
  obtain hopen | hfire := hopened
  · have hstate := h.masters.icacheRead hopen hzero
    have hready : t.rReady i 0 = true := by simp [rReady, ICache.rReady, hstate]
    have hlast := not_last_of_open hfin hbusy hzero hready
    simp [hstate, icacheInputs, hlast]
  · obtain ⟨hconn, hvalid, hready⟩ := fire_of_read hfire
    have hstate : t.icache.fsm = .waitAXI := by simpa [arValid, ICache.arValid] using hvalid
    simp [hstate, icacheInputs, hconn, hready]

theorem Arbitrated.dBusRead_step (h : t.Arbitrated) (hlegal : Legal t i)
    (hopen : (t.step i).readArb.isOpen) (hgrant : (t.step i).readArb.grantId = 1) :
    (t.step i).mem.refill.state = .readMem := by
  obtain ⟨hbusy, hone, hfin, hopened⟩ := (h.reads i).open_of_grantId hlegal.reads hopen hgrant
  have hconn : t.readArb.connected 1 = true := by simp [Bus.Channel.connected, hbusy, hone]
  have hnext : (t.step i).mem.refill = t.mem.nextRefill (t.core.memInputs (t.coreInputs i)) := rfl
  rw [hnext, MemPipeline.nextRefill]
  obtain hopen | hfire := hopened
  · have hstate := h.masters.dBusRead hopen hone
    have hlast : (t.mem.rFire (t.core.memInputs (t.coreInputs i)) && t.mem.rLast) = false := by
      have hvalid : (t.core.memInputs (t.coreInputs i)).rValid = i.slave.rValid := by
        simp [UncachedSystem.memInputs, UncachedSystem.storeInputs, coreInputs, dBusInputs, hconn]
      rw [MemPipeline.rFire, hvalid, ← hlegal.burst hconn]
      simp only [Bus.Channel.finishes, Bus.Channel.respReadyOut, readSignals, rReady, hbusy,
        hone] at hfin
      simpa using hfin
    simp [hstate, hlast]
  · obtain ⟨-, hvalid, hready⟩ := fire_of_read hfire
    have hstate : t.mem.refill.state = .waitAXI := by simpa [arValid] using hvalid
    simp [hstate, UncachedSystem.memInputs, UncachedSystem.storeInputs, coreInputs, dBusInputs,
      hconn, hready]

/-- What the core sees of an uncached read. -/
theorem uRValid_eq : (t.core.memInputs (t.coreInputs i)).uRValid =
    (t.buffer.readThrough (t.core.bufferInputs (t.coreInputs i)) &&
      (t.readArb.connected 2 && i.slave.rValid && i.slave.rLast)) := by
  simp [UncachedSystem.memInputs, coreInputs, udBusInputs, buffer, Bool.and_assoc]

theorem uArReady_eq : (t.core.memInputs (t.coreInputs i)).uArReady =
    (t.buffer.readThrough (t.core.bufferInputs (t.coreInputs i)) &&
      (t.readArb.connected 2 && i.slave.arReady)) := rfl

/-- The connection of the read channels lasts to the final beat. -/
theorem readOutput_step (hread : t.buffer.readOutput = .waitR) :
    (t.step i).buffer.readOutput =
      if t.readArb.connected 2 && i.slave.rValid && i.slave.rLast &&
        t.mem.refill.state == .readMemU then .stateBoot else .waitR := by
  have hready : (t.core.bufferInputs (t.coreInputs i)).rReady =
      (t.mem.refill.state == .readMemU) := rfl
  have hvalid : (t.core.bufferInputs (t.coreInputs i)).rValid =
      (t.readArb.connected 2 && i.slave.rValid) := rfl
  have hlast : (t.core.bufferInputs (t.coreInputs i)).rLast = i.slave.rLast := rfl
  simp only [buffer_step, AxiBuffer.step, AxiBuffer.nextReadOutput, hread, hready, hvalid, hlast]
  grind

theorem Arbitrated.udBusRead_step (h : t.Arbitrated) (hlegal : Legal t i)
    (hopen : (t.step i).readArb.isOpen) (hgrant : (t.step i).readArb.grantId = 2) :
    (t.step i).mem.refill.state = .readMemU ∧ (t.step i).buffer.readOutput = .waitR := by
  obtain ⟨hbusy, htwo, hfin, hopened⟩ := (h.reads i).open_of_grantId hlegal.reads hopen hgrant
  obtain hopen | hfire := hopened
  · obtain ⟨hstate, hread⟩ := h.masters.udBusRead hopen htwo
    have hready : t.rReady i 2 = true := by
      simp [rReady, AxiBuffer.readThrough, hread, hstate]
    have hlast := not_last_of_open hfin hbusy htwo hready
    constructor
    · have hnone : (t.core.memInputs (t.coreInputs i)).uRValid = false := by
        rw [uRValid_eq, hlast, Bool.and_false]
      rw [mem_step, MemPipeline.refill_reading hstate, hnone, if_neg Bool.false_ne_true]
    · rw [readOutput_step hread, hlast]
      rfl
  · obtain ⟨hconn, hvalid, hready⟩ := fire_of_read hfire
    obtain ⟨hthrough, hstate, hasks, hidle⟩ := outArValid_iff.mp hvalid
    constructor
    · rw [mem_step, MemPipeline.refill_asking hstate, uArReady_eq, hthrough, hconn, hready, hasks]
      simp [MemPipeline.writebackIdle, hidle]
    · cases hread : t.buffer.readOutput with
      | waitR =>
        rw [readOutput_step hread, hstate]
        simp
      | stateBoot => simp [buffer_step, AxiBuffer.step, AxiBuffer.nextReadOutput, hread, hthrough]

/-- While a load asks, it goes on asking or begins to read. -/
theorem Masters.reading_of_asking (h : t.Masters) (hrefill : t.mem.refill.state = .waitAXIU)
    (hready : t.mem.uncachedReady (t.core.memInputs (t.coreInputs i)) = true)
    (hidle : t.mem.writeback.state = .stateBoot) :
    (t.step i).mem.refill.state = .readMemU ∨
      ((t.step i).mem.refill.state = .waitAXIU ∧ (t.step i).mem.uncached.state = .stateBoot ∧
        (t.step i).mem.uncached.bRecv = true ∧ (t.step i).mem.writeback.state = .stateBoot) := by
  have hnext := MemPipeline.refill_asking (i := t.core.memInputs (t.coreInputs i)) hrefill
  rw [← mem_step] at hnext
  split_ifs at hnext
  · exact .inl hnext
  · exact .inr ⟨hnext, h.asking_step hrefill hready hidle⟩

theorem Masters.reading_step (h : t.Masters) (hread : (t.step i).buffer.readOutput = .waitR) :
    (t.step i).mem.refill.state = .readMemU ∨
      ((t.step i).mem.refill.state = .waitAXIU ∧ (t.step i).mem.uncached.state = .stateBoot ∧
        (t.step i).mem.uncached.bRecv = true ∧ (t.step i).mem.writeback.state = .stateBoot) := by
  cases hnow : t.buffer.readOutput with
  | stateBoot =>
    have hthrough : t.buffer.readThrough (t.core.bufferInputs (t.coreInputs i)) = true := by
      simp only [buffer_step, AxiBuffer.step, AxiBuffer.nextReadOutput, hnow] at hread
      split_ifs at hread with hthrough
      exact hthrough
    -- the request itself has connected the channels
    have hvalid : t.buffer.outArValid (t.core.bufferInputs (t.coreInputs i)) = true := by
      have hasks := hthrough
      simp only [AxiBuffer.readThrough, hnow, Bool.or_eq_true, Bool.and_eq_true] at hasks
      obtain hasks | ⟨⟨-, hasks⟩, -⟩ := hasks
      · cases hasks
      · rw [AxiBuffer.outArValid, hthrough, hasks]
        rfl
    obtain ⟨-, hrefill, hready, hidle⟩ := outArValid_iff.mp hvalid
    exact h.reading_of_asking hrefill hready hidle
  | waitR =>
    obtain hstate | ⟨hrefill, hstore, hb, hidle⟩ := h.reading hnow
    · left
      have hlast : (t.readArb.connected 2 && i.slave.rValid && i.slave.rLast) = false := by
        rw [readOutput_step hnow, hstate] at hread
        simpa using hread
      have hnone : (t.core.memInputs (t.coreInputs i)).uRValid = false := by
        rw [uRValid_eq, hlast, Bool.and_false]
      rw [mem_step, MemPipeline.refill_reading hstate, hnone, if_neg Bool.false_ne_true]
    · refine h.reading_of_asking hrefill ?_ hidle
      simp [MemPipeline.uncachedReady, hstore, hb]

/-- A read address stays valid until it is accepted. -/
theorem Masters.read_held (h : t.Masters) (j : Inputs) (m : Fin 3) (hvalid : t.arValid i m = true)
    (hno : t.readArb.addrFire (t.readSignals i) m = false) : (t.step i).arValid j m = true := by
  have hready : (t.readArb.connected m && i.slave.arReady) = false := by
    simpa [Bus.Channel.addrFire, readSignals, hvalid] using hno
  obtain rfl | rfl | rfl := (by decide : ∀ m : Fin 3, m = 0 ∨ m = 1 ∨ m = 2) m
  · have hstate : t.icache.fsm = .waitAXI := by simpa [arValid, ICache.arValid] using hvalid
    have hnext : (t.step i).icache.fsm = t.icache.nextFsm (t.icacheInputs i) := rfl
    simp [arValid, ICache.arValid, hnext, ICache.nextFsm, hstate, icacheInputs, hready]
  · have hstate : t.mem.refill.state = .waitAXI := by simpa [arValid] using hvalid
    have hslave : (t.core.memInputs (t.coreInputs i)).arReady = false := hready
    simp [arValid, mem_step, MemPipeline.step, MemPipeline.nextRefill, hstate, hslave]
  · obtain ⟨hthrough, hstate, hasks, hidle⟩ := outArValid_iff.mp hvalid
    have hslave : (t.core.memInputs (t.coreInputs i)).uArReady = false := by
      rw [uArReady_eq, hready, Bool.and_false]
    have hrefill : (t.step i).mem.refill.state = .waitAXIU := by
      rw [mem_step, MemPipeline.refill_asking hstate, hslave]
      rfl
    obtain ⟨hstore, hb, hidle'⟩ := h.asking_step (i := i) hstate hasks hidle
    refine outArValid_of_reading ?_ hrefill hstore hb hidle'
    cases hread : t.buffer.readOutput with
    | waitR =>
      rw [readOutput_step hread, hstate]
      simp
    | stateBoot => simp [buffer_step, AxiBuffer.step, AxiBuffer.nextReadOutput, hread, hthrough]

/-- The master of an open read offers no address. -/
theorem Arbitrated.read_silent (h : t.Arbitrated) (hlegal : Legal t i) (j : Inputs)
    (hopen : (t.step i).readArb.isOpen) :
    (t.step i).arValid j t.readArb.grantId = false := by
  have hsame := ((h.reads i).grantId_step hlegal.reads hopen).2
  have hgrant : ∀ m, t.readArb.grantId = m → (t.step i).readArb.grantId = m :=
    fun m hm => hsame.trans hm
  match hm : t.readArb.grantId with
  | 0 =>
    have hstate := h.icacheRead_step hlegal hopen (hgrant 0 hm)
    simp [arValid, ICache.arValid, hstate]
  | 1 =>
    have hstate := h.dBusRead_step hlegal hopen (hgrant 1 hm)
    simp [arValid, hstate]
  | 2 =>
    have hstate := (h.udBusRead_step hlegal hopen (hgrant 2 hm)).1
    by_contra hvalid
    have hasks := (outArValid_iff.mp (Bool.of_not_eq_false hvalid)).2.1
    rw [hstate] at hasks
    cases hasks

/-! ## Writes -/

theorem fire_of_write {m : Fin 2} (h : t.writeArb.addrFire (t.writeSignals i) m = true) :
    t.writeArb.connected m = true ∧ t.awValid m = true ∧ i.slave.awReady = true := by
  simpa [Bus.Channel.addrFire, writeSignals, and_assoc] using h

/-- As long as its transfer is open, no response has come to the master. -/
theorem no_response_of_open (m : Fin 2) (hfin : t.writeArb.finishes (t.writeSignals i) = false)
    (hbusy : t.writeArb.busy = true) : (t.writeArb.connected m && i.slave.bValid) = false := by
  have hnone : i.slave.bValid = false := by
    simpa [Bus.Channel.finishes, Bus.Channel.respReadyOut, writeSignals, hbusy] using hfin
  rw [hnone, Bool.and_false]

theorem Arbitrated.dBusWrite_step (h : t.Arbitrated) (hlegal : Legal t i)
    (hopen : (t.step i).writeArb.isOpen) (hgrant : (t.step i).writeArb.grantId = 0) :
    (t.step i).mem.writeback.state = .writeMem ∨ (t.step i).mem.writeback.state = .waitB := by
  have hinv : t.writeArb.Inv (t.writeSignals i).addrValid := h.writes
  obtain ⟨hbusy, hzero, hfin, hopened⟩ := hinv.open_of_grantId hlegal.writes hopen hgrant
  have hnext : (t.step i).mem.writeback = t.mem.nextWriteback (t.core.memInputs (t.coreInputs i)) :=
    rfl
  have hb : (t.core.memInputs (t.coreInputs i)).bValid = false := no_response_of_open 0 hfin hbusy
  rw [hnext, MemPipeline.nextWriteback]
  obtain hopen | hfire := hopened
  · obtain hstate | hstate := h.masters.dBusWrite hopen hzero
    · simp only [hstate]
      split_ifs <;> simp
    · simp [hstate, hb]
  · obtain ⟨hconn, hvalid, hready⟩ := fire_of_write hfire
    have hstate : t.mem.writeback.state = .waitAW := by simpa [awValid] using hvalid
    have hslave : (t.core.memInputs (t.coreInputs i)).awReady = true := by
      change (t.writeArb.connected 0 && i.slave.awReady) = true
      rw [hconn, hready]
      rfl
    simp [hstate, hslave]

/-- The buffer is granted only with its address valid, after its first cycle. -/
theorem Arbitrated.granted_step (h : t.Arbitrated)
    (hbusy' : (t.step i).writeArb.busy = true) (hgrant : (t.step i).writeArb.grantId = 1) :
    (t.step i).buffer.writeOutput ≠ .waitRead := by
  intro hread
  have hstate : t.buffer.writeOutput = .stateBoot := by
    rw [buffer_step, AxiBuffer.step, AxiBuffer.nextWriteOutput] at hread
    cases hstate : t.buffer.writeOutput <;> simp only [hstate] at hread <;> grind
  have hsilent : t.awValid 1 = false := by simp [awValid, AxiBuffer.outAw, hstate]
  have hnext : (t.step i).writeArb = t.writeArb.step (t.writeSignals i) := rfl
  cases hbusy : t.writeArb.busy with
  | false =>
    have hreq : Bus.Channel.hasReq (t.writeSignals i) = true := by
      rw [hnext] at hbusy'
      simp only [Bus.Channel.step, hbusy, Bool.false_or, Bool.and_eq_true] at hbusy'
      exact hbusy'.2
    have hvalid := Bus.Channel.addrValid_grant (c := t.writeArb) hreq
    have hone : t.writeArb.grant (t.writeSignals i) = 1 := by
      rw [hnext] at hgrant
      simpa [Bus.Channel.step, hbusy, hreq] using hgrant
    rw [hone] at hvalid
    rw [show (t.writeSignals i).addrValid 1 = t.awValid 1 from rfl, hsilent] at hvalid
    cases hvalid
  | true =>
    have hone : t.writeArb.grantId = 1 := by
      rw [hnext] at hgrant
      simpa [Bus.Channel.step, hbusy] using hgrant
    by_cases hopen : t.writeArb.isOpen
    · obtain hsent | hsent := h.masters.udBusWrite hopen hone
      · rw [hstate] at hsent
        cases hsent
      · rw [hstate] at hsent
        cases hsent
    · have hoffers := h.writes.offers hbusy hopen
      rw [hone, hsilent] at hoffers
      cases hoffers

theorem Arbitrated.udBusWrite_step (h : t.Arbitrated) (hlegal : Legal t i)
    (hopen : (t.step i).writeArb.isOpen) (hgrant : (t.step i).writeArb.grantId = 1) :
    (t.step i).buffer.writeOutput = .waitW ∨ (t.step i).buffer.writeOutput = .waitB := by
  have hinv : t.writeArb.Inv (t.writeSignals i).addrValid := h.writes
  obtain ⟨hbusy, hone, hfin, hopened⟩ := hinv.open_of_grantId hlegal.writes hopen hgrant
  have hb : (t.core.bufferInputs (t.coreInputs i)).bValid = false :=
    no_response_of_open 1 hfin hbusy
  rw [buffer_step, AxiBuffer.step, AxiBuffer.nextWriteOutput]
  obtain hopen | hfire := hopened
  · obtain hstate | hstate := h.masters.udBusWrite hopen hone
    · simp only [hstate, hb, Bool.and_false, Bool.false_eq_true, if_false]
      split_ifs <;> simp
    · simp [hstate, hb]
  · obtain ⟨hconn, hvalid, hready⟩ := fire_of_write hfire
    have hstate : t.buffer.writeOutput = .waitAW := by
      have hlate := h.masters.granted hbusy hone
      rw [show t.awValid 1 = t.buffer.outAw.isSome from rfl, AxiBuffer.outAw] at hvalid
      cases hstate : t.buffer.writeOutput <;> simp_all
    have hslave : (t.core.bufferInputs (t.coreInputs i)).awReady = true := by
      change (t.writeArb.connected 1 && i.slave.awReady) = true
      rw [hconn, hready]
      rfl
    simp only [hstate, hslave, hb, Bool.true_and, Bool.false_eq_true, if_false, if_true]
    split_ifs <;> simp

/-- A write address stays valid until it is accepted. -/
theorem write_held (m : Fin 2) (hvalid : t.awValid m = true)
    (hno : t.writeArb.addrFire (t.writeSignals i) m = false) : (t.step i).awValid m = true := by
  have hready : (t.writeArb.connected m && i.slave.awReady) = false := by
    simpa [Bus.Channel.addrFire, writeSignals, hvalid] using hno
  obtain rfl | rfl := (by decide : ∀ m : Fin 2, m = 0 ∨ m = 1) m
  · have hstate : t.mem.writeback.state = .waitAW := by simpa [awValid] using hvalid
    have hslave : (t.core.memInputs (t.coreInputs i)).awReady = false := hready
    simp [awValid, mem_step, MemPipeline.step, MemPipeline.nextWriteback, hstate, hslave]
  · have hslave : (t.core.bufferInputs (t.coreInputs i)).awReady = false := hready
    rw [show t.awValid 1 = t.buffer.outAw.isSome from rfl, AxiBuffer.outAw] at hvalid
    rw [show (t.step i).awValid 1 = (t.step i).buffer.outAw.isSome from rfl, buffer_step,
      AxiBuffer.outAw, AxiBuffer.step, AxiBuffer.nextWriteOutput]
    cases hstate : t.buffer.writeOutput <;> simp [hstate, hslave] at hvalid ⊢

theorem Arbitrated.write_silent (h : t.Arbitrated) (hlegal : Legal t i)
    (hopen : (t.step i).writeArb.isOpen) : (t.step i).awValid t.writeArb.grantId = false := by
  have hinv : t.writeArb.Inv (t.writeSignals i).addrValid := h.writes
  have hsame := (hinv.grantId_step hlegal.writes hopen).2
  match hm : t.writeArb.grantId with
  | 0 =>
    obtain hstate | hstate := h.dBusWrite_step hlegal hopen (hsame.trans hm) <;>
      simp [awValid, hstate]
  | 1 =>
    obtain hstate | hstate := h.udBusWrite_step hlegal hopen (hsame.trans hm) <;>
      simp [awValid, AxiBuffer.outAw, hstate]

/-! ## Runs -/

theorem Arbitrated.masters_step (h : t.Arbitrated) (hlegal : Legal t i) : (t.step i).Masters where
  control := h.masters.control.step hlegal.mem
  loading := h.masters.loading.step h.masters.control
  reading := h.masters.reading_step
  icacheRead := h.icacheRead_step hlegal
  dBusRead := h.dBusRead_step hlegal
  udBusRead := h.udBusRead_step hlegal
  dBusWrite := h.dBusWrite_step hlegal
  udBusWrite := h.udBusWrite_step hlegal
  granted := h.granted_step

theorem Arbitrated.step (h : t.Arbitrated) (hlegal : Legal t i) : (t.step i).Arbitrated where
  masters := h.masters_step hlegal
  reads j := (h.reads i).step hlegal.reads (h.masters.read_held j) (h.read_silent hlegal j)
  writes := Bus.Channel.Inv.step (i := t.writeSignals i) h.writes hlegal.writes write_held
    (h.write_silent hlegal)

theorem arbitrated_of_reachable (h : machine.Reachable t) : t.Arbitrated :=
  Clocked.Machine.invariant (P := Arbitrated) (fun _ => .of_init)
    (fun _ _ harb hlegal => harb.step hlegal) h

/-- In every cycle of every run both arbiters serve their masters. -/
theorem arbitrates_of_reachable (h : machine.Reachable t) (hlegal : machine.legal t i) :
    Arbitrates t i where
  reads := ((arbitrated_of_reachable h).reads i).delivers
  writes := (arbitrated_of_reachable h).writes.delivers
  readGrant := ((arbitrated_of_reachable h).reads i).holds hlegal.reads
  writeGrant := Bus.Channel.Inv.holds (i := t.writeSignals i) (arbitrated_of_reachable h).writes
    hlegal.writes

instance (t : CrossbarSystem) (i : Inputs) : Decidable (machine.legal t i) :=
  decidable_of_iff
    (MemPipeline.machine.legal t.mem (t.core.memInputs (t.coreInputs i)) ∧
      t.readArb.Legal (t.readSignals i) ∧ t.writeArb.Legal (t.writeSignals i) ∧
      (t.readArb.connected 1 = true → i.slave.rLast = t.mem.rLast))
    ⟨fun ⟨h1, h2, h3, h4⟩ => ⟨h1, h2, h3, h4⟩, fun ⟨h1, h2, h3, h4⟩ => ⟨h1, h2, h3, h4⟩⟩

theorem init_atReset : Init {} where
  icache := rfl
  mem := MemPipeline.init_atReset
  port := AxiBufferTrace.init_empty
  readBusy := rfl
  readRecord := ⟨rfl, rfl, rfl, fun _ => rfl⟩
  writeBusy := rfl
  writeRecord := ⟨rfl, rfl, rfl, fun _ => rfl⟩

def readBeat (rLast : Bool) : Inputs := { slave := { rValid := true, rLast := rLast } }

/-- The first fetch misses; its address is accepted in the cycle after the grant. -/
def firstFetch : List Inputs :=
  [({} : Inputs), {}, {}, { slave := { arReady := true } }, readBeat false, readBeat false]

theorem arbitrates_firstFetch :
    (machine.run {} firstFetch).readArb.received 0 = [0, 0] ∧
      Arbitrates (machine.run {} firstFetch) (readBeat true) :=
  ⟨by decide +kernel, arbitrates_of_reachable
    (Clocked.Machine.Reachable.run (.reset init_atReset) (by decide +kernel)) (by decide +kernel)⟩

end CrossbarSystem

end NopCore
