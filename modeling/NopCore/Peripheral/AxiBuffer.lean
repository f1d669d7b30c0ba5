import NopCore.Lib.System
import NopCore.Mem.StoreBuffer

/-!
# The buffer in front of the uncached bus

Uncached writes are acknowledged as soon as they are in a FIFO and are sent from
there one at a time. A read passes through, but only when no write is left.

The FIFO returns a word in the cycle after it has been asked for; whether it is
full or in reset is up to it.
-/

namespace NopCore

/-- A write waiting in the FIFO. -/
structure BufferEntry where
  id : BitVec 4 := 0
  addr : UWord := 0
  data : BWord := fun _ => 0
  size : BitVec 3 := 0
  strb : Fin 4 → Bool := fun _ => false
  deriving DecidableEq

/-- The address channel of a write. -/
structure Axi4Aw where
  id : BitVec 4
  addr : UWord
  len : BitVec 8
  size : BitVec 3
  burst : BitVec 2
  deriving DecidableEq

/-- The data channel of a write. -/
structure Axi4W where
  data : BWord
  strb : Fin 4 → Bool
  last : Bool
  deriving DecidableEq

namespace BufferEntry

/-- The address of a single transfer. -/
def aw (e : BufferEntry) : Axi4Aw :=
  { id := e.id, addr := e.addr, len := 0, size := e.size, burst := 1 }

def w (e : BufferEntry) : Axi4W := { data := e.data, strb := e.strb, last := true }

end BufferEntry

inductive ReadOutputState
  | stateBoot | waitR
  deriving DecidableEq, Repr

inductive WriteOutputState
  | stateBoot | waitAW | waitRead | waitW | waitB
  deriving DecidableEq, Repr

structure AxiBuffer where
  fifo : List BufferEntry := []
  dout : BufferEntry := {}
  readOutput : ReadOutputState := .stateBoot
  writeOutput : WriteOutputState := .stateBoot
  regEntry : BufferEntry := {}

namespace AxiBuffer

/-- The channels driven by the master and by the slave, and the FIFO's own
signals. -/
structure Inputs where
  /-- Address and data of a write are valid together. -/
  awValid : Bool := false
  write : BufferEntry := {}
  arValid : Bool := false
  rReady : Bool := false
  awReady : Bool := false
  wReady : Bool := false
  bValid : Bool := false
  arReady : Bool := false
  rValid : Bool := false
  rLast : Bool := false
  full : Bool := false
  wrRstBusy : Bool := false
  rdRstBusy : Bool := false
  rst : Bool := false

variable (s : AxiBuffer) (i : Inputs)

/-! ## Writes -/

def empty : Bool := s.fifo.isEmpty

def rdEn : Bool := s.writeOutput == .stateBoot && !i.rdRstBusy && !s.empty

def writeIsRunning : Bool := s.writeOutput != .stateBoot || s.rdEn i

/-- A write enters the FIFO and is acknowledged on all three channels. -/
def wrEn : Bool :=
  !(i.wrRstBusy || i.rdRstBusy || i.rst) && !i.full && i.awValid && !s.rdEn i

def outAw : Option Axi4Aw :=
  match s.writeOutput with
  | .waitRead => some s.dout.aw
  | .waitAW => some s.regEntry.aw
  | _ => none

def outW : Option Axi4W :=
  match s.writeOutput with
  | .waitRead => some s.dout.w
  | .waitAW => some s.regEntry.w
  | .waitW => some s.regEntry.w
  | _ => none

def nextWriteOutput : WriteOutputState :=
  match s.writeOutput with
  | .stateBoot => if s.rdEn i then .waitRead else .stateBoot
  | .waitRead => .waitAW
  | .waitAW =>
    if i.awReady && i.wReady then if i.bValid then .stateBoot else .waitB
    else if i.awReady then .waitW
    else .waitAW
  | .waitW =>
    if i.wReady && i.bValid then .stateBoot
    else if i.wReady then .waitB
    else .waitW
  | .waitB => if i.bValid then .stateBoot else .waitB

/-! ## Reads -/

/-- The read channels of the master are connected to those of the slave. -/
def readThrough : Bool :=
  s.readOutput == .waitR || (s.empty && i.arValid && !s.writeIsRunning i)

/-- A read request is presented. -/
def outArValid : Bool := s.readThrough i && i.arValid

def nextReadOutput : ReadOutputState :=
  match s.readOutput with
  | .stateBoot => if s.readThrough i then .waitR else .stateBoot
  | .waitR => if i.rLast && i.rValid && i.rReady then .stateBoot else .waitR

def step : AxiBuffer where
  fifo := (if s.rdEn i then s.fifo.tail else s.fifo) ++ (if s.wrEn i then [i.write] else [])
  dout := if s.rdEn i then s.fifo.headD s.dout else s.dout
  readOutput := s.nextReadOutput i
  writeOutput := s.nextWriteOutput i
  regEntry := if s.writeOutput = .waitRead then s.dout else s.regEntry

/-! ## The write being sent -/

def sending : List BufferEntry :=
  match s.writeOutput with
  | .stateBoot => []
  | .waitRead => [s.dout]
  | _ => [s.regEntry]

def addressSent : Bool := s.writeOutput == .waitW || s.writeOutput == .waitB

def dataSent : Bool := s.writeOutput == .waitB

/-- The write being sent, if it gets its response. -/
def finished : List BufferEntry :=
  match s.writeOutput with
  | .waitAW => if i.awReady && i.wReady && i.bValid then [s.regEntry] else []
  | .waitW => if i.wReady && i.bValid then [s.regEntry] else []
  | .waitB => if i.bValid then [s.regEntry] else []
  | _ => []

variable {s i}

/-- Writes leave the FIFO in order, one at a time. -/
theorem sending_step : s.finished i ++ (s.step i).sending ++ (s.step i).fifo =
    s.sending ++ s.fifo ++ if s.wrEn i then [i.write] else [] := by
  cases hstate : s.writeOutput with
  | stateBoot =>
    cases hrd : s.rdEn i with
    | false => simp [step, nextWriteOutput, sending, finished, hstate, hrd]
    | true =>
      obtain ⟨e, rest, hfifo⟩ : ∃ e rest, s.fifo = e :: rest := by
        cases hfifo : s.fifo with
        | nil => simp [rdEn, empty, hfifo] at hrd
        | cons e rest => exact ⟨e, rest, rfl⟩
      simp [step, nextWriteOutput, sending, finished, hstate, hrd, hfifo]
  | waitRead => simp [step, nextWriteOutput, sending, finished, rdEn, hstate]
  | waitAW =>
    simp only [step, nextWriteOutput, sending, finished, rdEn, hstate]
    cases i.awReady <;> cases i.wReady <;> cases i.bValid <;> simp
  | waitW =>
    simp only [step, nextWriteOutput, sending, finished, rdEn, hstate]
    cases i.wReady <;> cases i.bValid <;> simp
  | waitB =>
    simp only [step, nextWriteOutput, sending, finished, rdEn, hstate]
    cases i.bValid <;> simp

/-- The address of the write being sent counts as soon as it has been accepted, if it
is not accepted in the first cycle. -/
theorem addressSent_step (hwaits : s.writeOutput = .waitRead → i.awReady = false) :
    (s.finished i ++ if (s.step i).addressSent then (s.step i).sending else []).map
        BufferEntry.aw =
      (if s.addressSent then s.sending else []).map BufferEntry.aw ++
        if i.awReady then s.outAw.toList else [] := by
  cases hstate : s.writeOutput with
  | stateBoot =>
    cases hrd : s.rdEn i <;>
      simp [step, nextWriteOutput, addressSent, finished, outAw, hstate, hrd]
  | waitRead => simp [step, nextWriteOutput, addressSent, finished, hstate, hwaits hstate]
  | waitAW =>
    simp only [step, nextWriteOutput, addressSent, sending, finished, outAw, hstate]
    cases i.awReady <;> cases i.wReady <;> cases i.bValid <;> simp
  | waitW =>
    simp only [step, nextWriteOutput, addressSent, sending, finished, outAw, hstate]
    cases i.wReady <;> cases i.bValid <;> simp
  | waitB =>
    simp only [step, nextWriteOutput, addressSent, sending, finished, outAw, hstate]
    cases i.bValid <;> simp

/-- The same for its data, if they are not accepted before the address either. -/
theorem dataSent_step (hwaits : s.writeOutput = .waitRead → i.wReady = false)
    (horder : s.writeOutput = .waitAW → i.wReady = true → i.awReady = true) :
    (s.finished i ++ if (s.step i).dataSent then (s.step i).sending else []).map
        BufferEntry.w =
      (if s.dataSent then s.sending else []).map BufferEntry.w ++
        if i.wReady then s.outW.toList else [] := by
  cases hstate : s.writeOutput with
  | stateBoot =>
    cases hrd : s.rdEn i <;>
      simp [step, nextWriteOutput, dataSent, finished, outW, hstate, hrd]
  | waitRead => simp [step, nextWriteOutput, dataSent, finished, hstate, hwaits hstate]
  | waitAW =>
    have hfirst := horder hstate
    simp only [step, nextWriteOutput, dataSent, sending, finished, outW, hstate]
    cases hw : i.wReady with
    | false => cases i.awReady <;> simp
    | true =>
      rw [hfirst hw]
      cases i.bValid <;> simp
  | waitW =>
    simp only [step, nextWriteOutput, dataSent, sending, finished, outW, hstate]
    cases i.wReady <;> cases i.bValid <;> simp
  | waitB =>
    simp only [step, nextWriteOutput, dataSent, sending, finished, outW, hstate]
    cases i.bValid <;> simp

theorem length_finished_le : (s.finished i).length ≤ i.bValid.toNat := by
  cases hstate : s.writeOutput <;> simp only [finished, hstate] <;> grind

end AxiBuffer

/-! ## The handshakes of the output port -/

/-- The buffer with the writes it has accepted and the handshakes it has made. -/
structure AxiBufferTrace where
  buffer : AxiBuffer := {}
  accepted : List BufferEntry := []
  addresses : List Axi4Aw := []
  datas : List Axi4W := []
  responses : Nat := 0

namespace AxiBufferTrace

open AxiBuffer

variable (t : AxiBufferTrace) (i : Inputs)

def addressesNext : List Axi4Aw := t.addresses ++ if i.awReady then t.buffer.outAw.toList else []

def datasNext : List Axi4W := t.datas ++ if i.wReady then t.buffer.outW.toList else []

/-- Responses are always taken. -/
def step : AxiBufferTrace where
  buffer := t.buffer.step i
  accepted := t.accepted ++ if t.buffer.wrEn i then [i.write] else []
  addresses := t.addressesNext i
  datas := t.datasNext i
  responses := t.responses + i.bValid.toNat

structure Init (t : AxiBufferTrace) : Prop where
  fifo : t.buffer.fifo = []
  readOutput : t.buffer.readOutput = .stateBoot
  writeOutput : t.buffer.writeOutput = .stateBoot
  accepted : t.accepted = []
  addresses : t.addresses = []
  datas : t.datas = []
  responses : t.responses = 0

/-- The slave responds to writes of which it has accepted both halves, once to
each. -/
def Legal (t : AxiBufferTrace) (i : Inputs) : Prop :=
  i.bValid = true →
    t.responses < (t.addressesNext i).length ∧ t.responses < (t.datasNext i).length

def machine : Clocked.Machine AxiBufferTrace Inputs where
  init := Init
  legal := Legal
  step := step

/-- The slave accepts nothing in the first cycle of a write, and the data never
before the address. -/
def Waits (t : AxiBufferTrace) (i : Inputs) : Prop :=
  (t.buffer.writeOutput = .waitRead → i.awReady = false ∧ i.wReady = false) ∧
    (t.buffer.writeOutput = .waitAW → i.wReady = true → i.awReady = true)

/-- Every accepted write is sent exactly once, in order, and only after the
response to the one before it. -/
structure SentOnce (t : AxiBufferTrace) : Prop where
  addresses : t.addresses <+: t.accepted.map BufferEntry.aw
  datas : t.datas <+: t.accepted.map BufferEntry.w
  /-- The address that is offered is that of the first write without a response. -/
  address_next : ∀ a ∈ t.buffer.outAw, t.addresses.length = t.responses ∧
    (t.accepted.map BufferEntry.aw)[t.responses]? = some a
  data_next : ∀ d ∈ t.buffer.outW, t.datas.length = t.responses ∧
    (t.accepted.map BufferEntry.w)[t.responses]? = some d
  /-- What has no response is in the FIFO or being sent. -/
  pending : t.accepted.length = t.responses + t.buffer.fifo.length +
    (if t.buffer.writeOutput = .stateBoot then 0 else 1)
  /-- When nothing is left, everything has been sent. -/
  all : t.buffer.fifo = [] → t.buffer.writeOutput = .stateBoot →
    t.addresses = t.accepted.map BufferEntry.aw ∧ t.datas = t.accepted.map BufferEntry.w

variable {t i}

/-- Where the accepted writes are: those with a response, the one being sent, and
the FIFO; `addressSent` and `dataSent` tell which halves of the one being sent
have been accepted. -/
structure Sending (t : AxiBufferTrace) (done : List BufferEntry) : Prop where
  accepted : t.accepted = done ++ t.buffer.sending ++ t.buffer.fifo
  responses : t.responses = done.length
  addresses : t.addresses =
    (done ++ if t.buffer.addressSent then t.buffer.sending else []).map BufferEntry.aw
  datas : t.datas =
    (done ++ if t.buffer.dataSent then t.buffer.sending else []).map BufferEntry.w

theorem Sending.of_init (h : Init t) : Sending t [] := by
  constructor <;>
    simp [h.accepted, h.fifo, h.writeOutput, h.responses, h.addresses, h.datas, sending,
      addressSent, dataSent]

theorem accepted_step {done : List BufferEntry}
    (h : t.accepted = done ++ t.buffer.sending ++ t.buffer.fifo) :
    (t.step i).accepted = done ++ t.buffer.finished i ++ (t.step i).buffer.sending ++
      (t.step i).buffer.fifo := by
  have hstep := sending_step (s := t.buffer) (i := i)
  simp only [List.append_assoc] at hstep
  simp only [AxiBufferTrace.step, h, List.append_assoc, hstep]

theorem addresses_step {done : List BufferEntry}
    (h : t.addresses =
      (done ++ if t.buffer.addressSent then t.buffer.sending else []).map BufferEntry.aw)
    (hwaits : t.buffer.writeOutput = .waitRead → i.awReady = false) :
    (t.step i).addresses = (done ++ t.buffer.finished i ++
      if (t.step i).buffer.addressSent then (t.step i).buffer.sending else []).map
        BufferEntry.aw := by
  have hstep := addressSent_step hwaits
  rw [List.append_assoc, List.map_append]
  simp only [AxiBufferTrace.step, addressesNext, h, List.map_append, List.append_assoc, hstep]

theorem datas_step {done : List BufferEntry}
    (h : t.datas = (done ++ if t.buffer.dataSent then t.buffer.sending else []).map BufferEntry.w)
    (hwaits : Waits t i) :
    (t.step i).datas = (done ++ t.buffer.finished i ++
      if (t.step i).buffer.dataSent then (t.step i).buffer.sending else []).map
        BufferEntry.w := by
  have hstep := dataSent_step (fun hstate => (hwaits.1 hstate).2) hwaits.2
  rw [List.append_assoc, List.map_append]
  simp only [AxiBufferTrace.step, datasNext, h, List.map_append, List.append_assoc, hstep]

/-- The slave responds only to a write of which it has both halves. -/
theorem Sending.length_finished {done : List BufferEntry} (h : Sending t done)
    (hlegal : Legal t i) (hwaits : Waits t i) :
    (t.buffer.finished i).length = i.bValid.toNat := by
  obtain ⟨-, hresponses, haddresses, hdatas⟩ := h
  cases hb : i.bValid with
  | false => simpa [hb] using length_finished_le (s := t.buffer) (i := i)
  | true =>
    obtain ⟨haddress, hdata⟩ := hlegal hb
    rw [hresponses, addressesNext, haddresses] at haddress
    rw [hresponses, datasNext, hdatas] at hdata
    cases hstate : t.buffer.writeOutput with
    | stateBoot => simp [hstate, addressSent, outAw] at haddress
    | waitRead => simp [hstate, addressSent, (hwaits.1 hstate).1] at haddress
    | waitAW =>
      have haw : i.awReady = true := by
        by_contra hno
        simp [hstate, addressSent, hno] at haddress
      have hw : i.wReady = true := by
        by_contra hno
        simp [hstate, dataSent, hno] at hdata
      simp [finished, hstate, haw, hw, hb]
    | waitW =>
      have hw : i.wReady = true := by
        by_contra hno
        simp [hstate, dataSent, hno] at hdata
      simp [finished, hstate, hw, hb]
    | waitB => simp [finished, hstate, hb]

theorem Sending.step {done : List BufferEntry} (h : Sending t done) (hlegal : Legal t i)
    (hwaits : Waits t i) : Sending (t.step i) (done ++ t.buffer.finished i) where
  accepted := accepted_step h.accepted
  responses := by
    rw [List.length_append, h.length_finished hlegal hwaits, ← h.responses]
    rfl
  addresses := addresses_step h.addresses fun hstate => (hwaits.1 hstate).1
  datas := datas_step h.datas hwaits

theorem Sending.sentOnce {done : List BufferEntry} (h : Sending t done) : SentOnce t := by
  obtain ⟨haccepted, hresponses, haddresses, hdatas⟩ := h
  cases hstate : t.buffer.writeOutput <;>
    simp only [sending, addressSent, dataSent, hstate] at haccepted haddresses hdatas <;>
    constructor <;>
    simp [outAw, outW, hstate, haccepted, hresponses, haddresses, hdatas, Nat.add_assoc]

theorem sending_of_reachable (h : (machine.restrict Waits).Reachable t) :
    ∃ done, Sending t done := by
  refine Clocked.Machine.invariant (P := fun t => ∃ done, Sending t done) ?_ ?_ h
  · intro s hinit
    exact ⟨[], .of_init hinit⟩
  · rintro s i ⟨done, hsending⟩ hlegal
    exact ⟨_, hsending.step hlegal.1 hlegal.2⟩

/-! ## Nothing is kept back -/

/-- The slave answers as soon as it may. -/
def answer (t : AxiBufferTrace) : Inputs :=
  { awReady := t.buffer.writeOutput == .waitAW
    wReady := t.buffer.writeOutput != .waitRead
    bValid := t.buffer.writeOutput == .waitB }

/-- The cycles that are left if the slave answers. -/
def work (t : AxiBufferTrace) : Nat :=
  4 * t.buffer.fifo.length +
    match t.buffer.writeOutput with
    | .stateBoot => 0
    | .waitRead => 3
    | .waitAW => 2
    | .waitW => 2
    | .waitB => 1

theorem Sending.legal_answer {done : List BufferEntry} (h : Sending t done) :
    (machine.restrict Waits).legal t t.answer := by
  obtain ⟨-, hresponses, haddresses, hdatas⟩ := h
  refine ⟨fun hb => ?_, fun hstate => ?_, fun hstate _ => ?_⟩
  · have hstate : t.buffer.writeOutput = .waitB := by simpa [answer] using hb
    simp [addressesNext, datasNext, haddresses, hdatas, hresponses, addressSent, dataSent,
      sending, hstate]
  · simp [answer, hstate]
  · simp [answer, hstate]

theorem work_answer (h : 0 < t.work) : (t.step t.answer).work < t.work := by
  rw [work] at h
  cases hstate : t.buffer.writeOutput with
  | stateBoot =>
    cases hfifo : t.buffer.fifo with
    | nil => simp [hstate, hfifo] at h
    | cons e rest =>
      simp [work, answer, AxiBufferTrace.step, AxiBuffer.step, nextWriteOutput, rdEn, wrEn, empty,
        hstate, hfifo]
      omega
  | waitRead | waitAW | waitW | waitB =>
    simp [work, answer, AxiBufferTrace.step, AxiBuffer.step, nextWriteOutput, rdEn, wrEn, hstate]

theorem accepted_answer : (t.step t.answer).accepted = t.accepted := by
  simp [AxiBufferTrace.step, wrEn, answer]

/-- From every state the slave can take everything that has been accepted. -/
theorem drains (h : (machine.restrict Waits).Reachable t) :
    ∃ is, (machine.restrict Waits).Legal t is ∧ (machine.run t is).accepted = t.accepted ∧
      (machine.run t is).work = 0 := by
  induction hn : t.work using Nat.strong_induction_on generalizing t with
  | _ n ih =>
    obtain ⟨_, hsending⟩ := sending_of_reachable h
    rcases Nat.eq_zero_or_pos t.work with hzero | hpos
    · exact ⟨[], trivial, rfl, hzero⟩
    · obtain ⟨is, hlegal, haccepted, hwork⟩ :=
        ih _ (hn ▸ work_answer hpos) (.edge h hsending.legal_answer) rfl
      exact ⟨t.answer :: is, ⟨hsending.legal_answer, hlegal⟩,
        haccepted.trans accepted_answer, hwork⟩

/-- If the slave waits, every accepted write is sent exactly once and in order,
each after the response to the one before it, and none is kept back. -/
theorem sentOnce_of_waits (h : (machine.restrict Waits).Reachable t) :
    SentOnce t ∧ ∃ is, (machine.restrict Waits).Legal t is ∧
      (machine.run t is).accepted = t.accepted ∧
      (machine.run t is).addresses = t.accepted.map BufferEntry.aw ∧
      (machine.run t is).datas = t.accepted.map BufferEntry.w := by
  obtain ⟨_, hsending⟩ := sending_of_reachable h
  obtain ⟨is, hlegal, haccepted, hwork⟩ := drains h
  refine ⟨hsending.sentOnce, is, hlegal, haccepted, ?_⟩
  obtain ⟨_, hlast⟩ := sending_of_reachable (t := machine.run t is)
    (by simpa using Clocked.Machine.Reachable.run h hlegal)
  rw [← haccepted]
  rw [work] at hwork
  refine hlast.sentOnce.all (by simpa using (Nat.add_eq_zero_iff.1 hwork).1) ?_
  cases hstate : (machine.run t is).buffer.writeOutput <;> simp [hstate] at hwork ⊢

instance (t : AxiBufferTrace) (i : Inputs) : Decidable ((machine.restrict Waits).legal t i) :=
  inferInstanceAs (Decidable ((i.bValid = true →
    t.responses < (t.addressesNext i).length ∧ t.responses < (t.datasNext i).length) ∧
    (t.buffer.writeOutput = .waitRead → i.awReady = false ∧ i.wReady = false) ∧
    (t.buffer.writeOutput = .waitAW → i.wReady = true → i.awReady = true)))

instance (t : AxiBufferTrace) (i : Inputs) : Decidable (machine.legal t i) :=
  inferInstanceAs (Decidable (i.bValid = true →
    t.responses < (t.addressesNext i).length ∧ t.responses < (t.datasNext i).length))

theorem init_empty : Init {} := ⟨rfl, rfl, rfl, rfl, rfl, rfl, rfl⟩

/-- Two writes enter; the address of the first is accepted before its data. -/
def twoWrites : List Inputs :=
  [{ awValid := true, write := { id := 2, addr := 0x1fe001e0, strb := fun _ => true } },
   { awValid := true, write := { id := 2, addr := 0x1fe001e4, strb := fun _ => true } },
   { awValid := true, write := { id := 2, addr := 0x1fe001e4, strb := fun _ => true } },
   { awReady := true }, { wReady := true }, { bValid := true }, {}, {},
   { awReady := true, wReady := true }, { bValid := true }]

theorem sentOnce_twoWrites :
    SentOnce (machine.run {} twoWrites) ∧
      ∃ is, (machine.restrict Waits).Legal (machine.run {} twoWrites) is ∧
        (machine.run (machine.run {} twoWrites) is).accepted =
          (machine.run {} twoWrites).accepted ∧
        (machine.run (machine.run {} twoWrites) is).addresses =
          (machine.run {} twoWrites).accepted.map BufferEntry.aw ∧
        (machine.run (machine.run {} twoWrites) is).datas =
          (machine.run {} twoWrites).accepted.map BufferEntry.w :=
  sentOnce_of_waits (Clocked.Machine.reachable_restrict_run init_empty (by decide +kernel))

/-- One write; the slave accepts its data before its address. -/
def dataBeforeAddress : List Inputs :=
  [{ awValid := true, write := { id := 2, addr := 0x1fe001e0, strb := fun _ => true } },
   {}, {}, { wReady := true }, { awReady := true }, { wReady := true }]

/-- The data of the write is transferred twice. -/
theorem dataBeforeAddress_not_sentOnce : ¬ ∀ t, machine.Reachable t → SentOnce t := by
  intro h
  have hreach : machine.Reachable (machine.run {} dataBeforeAddress) :=
    Clocked.Machine.Reachable.run (.reset init_empty) (by decide +kernel)
  have hlen := (h _ hreach).datas.length_le
  revert hlen
  decide +kernel

end AxiBufferTrace

end NopCore
