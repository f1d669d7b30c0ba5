import NopCore.Peripheral.Crossbar

/-!
# The write id of the chip port

The port names the transaction of a data beat by `wid`, a register that follows the
id on the address channel one cycle behind. For a cache line that is early enough,
since its data comes after its address. An uncached write offers both at once: in the
first cycle of its grant the register still names the write before it.
-/

namespace NopCore

/-- The port of the chip. The rest is a record: the ids of the accepted addresses and
whether the write channels were granted in the cycle before. -/
structure ChipPort where
  system : CrossbarSystem := {}
  wid : BitVec 4 := 0
  awids : List (BitVec 4) := []
  wasBusy : Bool := false

namespace ChipPort

open CrossbarSystem (Inputs writeSignals)

variable (t : ChipPort) (i : Inputs)

def writeArb : Bus.Channel 2 := t.system.writeArb

/-- The id on the address channel while it is valid. -/
def awid : Option (BitVec 4) :=
  if t.writeArb.busy then
    match t.writeArb.grantId with
    | 0 => if t.system.mem.writeback.state = .waitAW then some 1 else none
    | 1 => t.system.buffer.outAw.map Axi4Aw.id
  else none

/-- A data beat is accepted. -/
def wFire : Bool :=
  t.writeArb.busy && t.system.wValid t.writeArb.grantId && i.slave.wReady

def step : ChipPort where
  system := t.system.step i
  wid := t.awid.getD t.wid
  awids := t.awids ++ if i.slave.awReady then t.awid.toList else []
  wasBusy := t.writeArb.busy

structure Init (t : ChipPort) : Prop where
  system : t.system.Init
  wid : t.wid = 0
  awids : t.awids = []
  wasBusy : t.wasBusy = false

def machine : Clocked.Machine ChipPort Inputs where
  init := Init
  legal t i := t.system.Legal i
  step := step

/-- A data beat belongs to the first write without a response, whose address has been
accepted or is on the address channel. -/
def WidAgrees (t : ChipPort) (i : Inputs) : Prop :=
  t.wFire i = true → (t.awids ++ t.awid.toList)[t.writeArb.finished]? = some t.wid

/-- In the first cycle of a grant no uncached data is accepted, unless the write
before it was uncached as well. -/
def FirstDataWaits (t : ChipPort) (i : Inputs) : Prop :=
  t.writeArb.busy = true → t.wasBusy = false → t.writeArb.grantId = 1 →
    i.slave.wReady = true → t.writeArb.accepted.getLast? = some 1

variable {t i}

/-! ## The ids of the masters -/

/-- Everything in the buffer carries the id of the uncached bus. -/
structure Tagged (b : AxiBuffer) : Prop where
  fifo : ∀ e ∈ b.fifo, e.id = 2
  sending : ∀ e ∈ b.sending, e.id = 2

theorem Tagged.outAw {b : AxiBuffer} (h : Tagged b) {a : Axi4Aw} (ha : b.outAw = some a) :
    a.id = 2 := by
  cases hstate : b.writeOutput <;> simp only [AxiBuffer.outAw, hstate] at ha
  case waitRead =>
    cases ha
    exact h.sending b.dout (by simp [AxiBuffer.sending, hstate])
  case waitAW =>
    cases ha
    exact h.sending b.regEntry (by simp [AxiBuffer.sending, hstate])
  all_goals cases ha

theorem Tagged.step {b : AxiBuffer} {i : AxiBuffer.Inputs} (h : Tagged b) (hid : i.write.id = 2) :
    Tagged (b.step i) where
  fifo e he := by
    simp only [AxiBuffer.step, List.mem_append] at he
    obtain hold | hnew := he
    · split_ifs at hold
      · exact h.fifo e (List.mem_of_mem_tail hold)
      · exact h.fifo e hold
    · split_ifs at hnew
      · obtain rfl : e = i.write := by simpa using hnew
        exact hid
      · cases hnew
  sending e he := by
    cases hstate : b.writeOutput with
    | stateBoot =>
      cases hrd : b.rdEn i with
      | false =>
        simp [AxiBuffer.sending, AxiBuffer.step, AxiBuffer.nextWriteOutput, hstate, hrd] at he
      | true =>
        obtain ⟨first, rest, hfifo⟩ : ∃ first rest, b.fifo = first :: rest := by
          cases hfifo : b.fifo with
          | nil => simp [AxiBuffer.rdEn, AxiBuffer.empty, hfifo] at hrd
          | cons first rest => exact ⟨first, rest, rfl⟩
        have hdout : e = first := by
          simpa [AxiBuffer.sending, AxiBuffer.step, AxiBuffer.nextWriteOutput, hstate, hrd,
            hfifo] using he
        exact h.fifo e (by simp [hfifo, hdout])
    | waitRead =>
      have hdout : e = b.dout := by
        simpa [AxiBuffer.sending, AxiBuffer.step, AxiBuffer.nextWriteOutput, hstate] using he
      exact h.sending e (by simp [AxiBuffer.sending, hstate, hdout])
    | waitAW | waitW | waitB =>
      have hregEntry : e = b.regEntry := by
        simp only [AxiBuffer.sending, AxiBuffer.step, AxiBuffer.nextWriteOutput, hstate] at he
        split at he
        · cases he
        · grind
        · simpa using he
      exact h.sending e (by simp [AxiBuffer.sending, hstate, hregEntry])

def busId : Fin 2 → BitVec 4 := ![1, 2]

/-- The id of the last accepted address. -/
def lastId (c : Bus.Channel 2) : BitVec 4 := (c.accepted.getLast?.map busId).getD 0

/-- The id of the last write agrees with that of the uncached bus only if it was an
uncached write. -/
theorem lastId_eq_two (c : Bus.Channel 2) : lastId c = 2 ↔ c.accepted.getLast? = some 1 := by
  rw [lastId]
  match c.accepted.getLast? with
  | none => decide
  | some 0 => decide
  | some 1 => decide

/-- How the register follows the address channel. -/
structure Follows (t : ChipPort) : Prop where
  arbitrated : t.system.Arbitrated
  tagged : Tagged t.system.buffer
  awids : t.awids = t.writeArb.accepted.map busId
  wid : t.wid = if t.writeArb.busy && t.wasBusy then busId t.writeArb.grantId else lastId t.writeArb
  first : t.writeArb.busy = true → t.wasBusy = false → ¬ t.writeArb.isOpen

theorem Follows.awid_eq (h : t.Follows) : t.awid =
    if t.writeArb.busy && t.system.awValid t.writeArb.grantId then some (busId t.writeArb.grantId)
    else none := by
  rw [awid]
  cases t.writeArb.busy with
  | false => rfl
  | true =>
    match t.writeArb.grantId with
    | 0 => simp [CrossbarSystem.awValid, busId]
    | 1 =>
      cases haw : t.system.buffer.outAw with
      | none => simp [CrossbarSystem.awValid, haw]
      | some a => simp [CrossbarSystem.awValid, haw, busId, h.tagged.outAw haw]

theorem Follows.offers_first (h : t.Follows) (hbusy : t.writeArb.busy = true)
    (hwas : t.wasBusy = false) : t.system.awValid t.writeArb.grantId = true :=
  h.arbitrated.writes.offers hbusy (h.first hbusy hwas)

/-- The accepted addresses after the cycle, with their ids. -/
theorem Follows.awids_step (h : t.Follows) :
    (t.step i).awids = (t.step i).writeArb.accepted.map busId := by
  have hnext : (t.step i).awids = t.awids ++ if i.slave.awReady then t.awid.toList else [] := rfl
  have haccepted : (t.step i).writeArb.accepted =
      if t.writeArb.busy && t.system.awValid t.writeArb.grantId && i.slave.awReady then
        t.writeArb.accepted ++ [t.writeArb.grantId]
      else t.writeArb.accepted := by
    change (t.writeArb.step (t.system.writeSignals i)).accepted = _
    simp only [Bus.Channel.step, Bus.Channel.addrFire, Bus.Channel.connected_grantId, writeSignals]
  rw [hnext, haccepted, h.awids, h.awid_eq]
  cases i.slave.awReady <;>
    cases (t.writeArb.busy && t.system.awValid t.writeArb.grantId) <;> simp

/-- A write that ends was that of the last accepted address. -/
theorem Follows.lastId_of_finishes (h : t.Follows) (hlegal : t.system.Legal i)
    (hfin : t.writeArb.finishes (t.system.writeSignals i) = true) :
    lastId (t.step i).writeArb = busId t.writeArb.grantId := by
  have hinv : t.writeArb.Inv (t.system.writeSignals i).addrValid := h.arbitrated.writes
  have hlt := (hinv.holds hlegal.writes).ends hfin
  have howner := (hinv.owner_next hlt).2
  -- no address can have been accepted behind the one that is answered
  have hlen : (t.writeArb.step (t.system.writeSignals i)).accepted.length =
      t.writeArb.finished + 1 := by
    have hone := hinv.delivers.one
    rw [Bus.Channel.length_accepted] at hlt ⊢
    cases hfire : t.writeArb.addrFire (t.system.writeSignals i) t.writeArb.grantId with
    | true =>
      rw [hinv.length_eq_of_addrFire hfire]
      rfl
    | false =>
      simp only [hfire, Bool.toNat_false] at hlt ⊢
      omega
  change ((t.writeArb.step (t.system.writeSignals i)).accepted.getLast?.map busId).getD 0 = _
  rw [List.getLast?_eq_getElem?, hlen, Nat.add_sub_cancel, howner]
  rfl

theorem Follows.wid_step (h : t.Follows) (hlegal : t.system.Legal i) :
    (t.step i).wid =
      if (t.step i).writeArb.busy && (t.step i).wasBusy then busId (t.step i).writeArb.grantId
      else lastId (t.step i).writeArb := by
  have hinv : t.writeArb.Inv (t.system.writeSignals i).addrValid := h.arbitrated.writes
  have hwid : (t.step i).wid = t.awid.getD t.wid := rfl
  have hwas : (t.step i).wasBusy = t.writeArb.busy := rfl
  have harb : (t.step i).writeArb = t.writeArb.step (t.system.writeSignals i) := rfl
  rw [hwid, hwas]
  cases hbusy : t.writeArb.busy with
  | false =>
    have haccepted : (t.step i).writeArb.accepted = t.writeArb.accepted := by
      simp [harb, Bus.Channel.step, Bus.Channel.addrFire, Bus.Channel.connected, hbusy]
    rw [h.awid_eq, hbusy, Bool.and_false]
    simp [h.wid, hbusy, lastId, haccepted]
  | true =>
    have hnamed : t.awid.getD t.wid = busId t.writeArb.grantId := by
      rw [h.awid_eq, h.wid, hbusy]
      cases hwasBusy : t.wasBusy with
      | true => cases t.system.awValid t.writeArb.grantId <;> simp
      | false => simp [h.offers_first hbusy hwasBusy]
    rw [hnamed]
    cases hfin : t.writeArb.finishes (t.system.writeSignals i) with
    | true =>
      have hfree : (t.step i).writeArb.busy = false := by simp [harb, Bus.Channel.step, hfin]
      rw [hfree, h.lastId_of_finishes hlegal hfin]
      rfl
    | false =>
      have hsame := (hinv.holds hlegal.writes).constant hbusy hfin
      rw [harb, hsame.1, hsame.2]
      rfl

theorem Follows.first_step (h : t.Follows) (hlegal : t.system.Legal i)
    (hwas : (t.step i).wasBusy = false) : ¬ (t.step i).writeArb.isOpen := by
  intro hopen
  have hinv : t.writeArb.Inv (t.system.writeSignals i).addrValid := h.arbitrated.writes
  have hbusy := (hinv.grantId_step hlegal.writes hopen).1
  rw [show (t.step i).wasBusy = t.writeArb.busy from rfl, hbusy] at hwas
  cases hwas

theorem Follows.of_init (h : Init t) : t.Follows where
  arbitrated := .of_init h.system
  tagged :=
    { fifo := by simp [show t.system.buffer.fifo = [] from h.system.port.fifo]
      sending := by
        simp [AxiBuffer.sending,
          show t.system.buffer.writeOutput = .stateBoot from h.system.port.writeOutput] }
  awids := by simp [h.awids, writeArb, h.system.writeRecord.1]
  wid := by simp [h.wid, writeArb, h.system.writeBusy, lastId, h.system.writeRecord.1]
  first hbusy := by simp [writeArb, h.system.writeBusy] at hbusy

theorem Follows.step (h : t.Follows) (hlegal : t.system.Legal i) : (t.step i).Follows where
  arbitrated := h.arbitrated.step hlegal
  tagged := h.tagged.step rfl
  awids := h.awids_step
  wid := h.wid_step hlegal
  first _ := h.first_step hlegal

theorem follows_of_reachable (h : machine.Reachable t) : t.Follows :=
  Clocked.Machine.invariant (P := Follows) (fun _ => .of_init) (fun _ _ hf hlegal => hf.step hlegal)
    h

/-! ## The data channel -/

/-- The id of the transaction that a data beat belongs to is that of the master with
the grant. -/
theorem Follows.transaction (h : t.Follows) (hbusy : t.writeArb.busy = true) :
    (t.awids ++ t.awid.toList)[t.writeArb.finished]? = some (busId t.writeArb.grantId) := by
  rw [h.awids, h.awid_eq, hbusy]
  by_cases hopen : t.writeArb.isOpen
  · have howner := (h.arbitrated.writes.delivers.owner hopen).2
    have hlt : t.writeArb.finished < (t.writeArb.accepted.map busId).length := by
      rw [List.length_map]
      exact hopen
    rw [List.getElem?_append_left hlt, List.getElem?_map]
    exact congrArg (Option.map busId) howner
  · have hlen : t.writeArb.accepted.length = t.writeArb.finished := by
      have hone : t.writeArb.finished ≤ t.writeArb.accepted.length :=
        h.arbitrated.writes.delivers.one.1
      rw [Bus.Channel.isOpen] at hopen
      omega
    have hoffers : t.system.awValid t.writeArb.grantId = true :=
      h.arbitrated.writes.offers hbusy hopen
    simp [hoffers, ← hlen]

/-- In the first cycle of a grant only the uncached bus can have its data accepted. -/
theorem Follows.wFire_first (h : t.Follows) (hbusy : t.writeArb.busy = true)
    (hwas : t.wasBusy = false) :
    t.wFire i = true ↔ t.writeArb.grantId = 1 ∧ i.slave.wReady = true := by
  have hoffers := h.offers_first hbusy hwas
  rw [wFire, hbusy]
  match hm : t.writeArb.grantId with
  | 0 =>
    have hstate : t.system.mem.writeback.state = .waitAW := by
      simpa [hm, CrossbarSystem.awValid] using hoffers
    simp [CrossbarSystem.wValid, hstate]
  | 1 =>
    have hvalid : t.system.wValid 1 = true := by
      rw [hm, show t.system.awValid 1 = t.system.buffer.outAw.isSome from rfl,
        AxiBuffer.outAw] at hoffers
      rw [show t.system.wValid 1 = t.system.buffer.outW.isSome from rfl, AxiBuffer.outW]
      cases hstate : t.system.buffer.writeOutput <;> simp [hstate] at hoffers ⊢
    simp [hvalid]

/-- The id of a data beat is that of its write exactly if uncached data is not
accepted in the first cycle of a grant behind a write of the cache. -/
theorem widAgrees_iff_firstDataWaits (h : machine.Reachable t) (i : Inputs) :
    WidAgrees t i ↔ FirstDataWaits t i := by
  have hf := follows_of_reachable h
  constructor
  · intro hagrees hbusy hwas hone hready
    have hfire := (hf.wFire_first hbusy hwas).mpr ⟨hone, hready⟩
    have hwid := hagrees hfire
    rw [hf.transaction hbusy, hf.wid, hbusy, hwas, hone] at hwid
    rw [← lastId_eq_two]
    simpa [busId, eq_comm] using hwid
  · intro hwaits hfire
    have hbusy : t.writeArb.busy = true := by
      simp only [wFire, Bool.and_eq_true] at hfire
      exact hfire.1.1
    rw [hf.transaction hbusy, hf.wid, hbusy]
    cases hwas : t.wasBusy with
    | true => rfl
    | false =>
      obtain ⟨hone, hready⟩ := (hf.wFire_first hbusy hwas).mp hfire
      have hlast := (lastId_eq_two _).mpr (hwaits hbusy hwas hone hready)
      rw [hone, Bool.and_false, if_neg Bool.false_ne_true, hlast]
      rfl

instance (t : ChipPort) (i : Inputs) : Decidable (machine.legal t i) :=
  inferInstanceAs (Decidable (CrossbarSystem.machine.legal t.system i))

instance (t : ChipPort) (i : Inputs) : Decidable (WidAgrees t i) :=
  inferInstanceAs (Decidable (_ → _))

instance (t : ChipPort) (i : Inputs) : Decidable (FirstDataWaits t i) :=
  inferInstanceAs (Decidable (_ → _ → _ → _ → _))

theorem init_atReset : Init {} := ⟨CrossbarSystem.init_atReset, rfl, rfl, rfl⟩

/-- The first write after reset is uncached; it has just been granted. -/
def firstStore : List Inputs :=
  ({ core := UncachedSystem.issue true 0x1fe001e0 } : Inputs) ::
    [{}, {}, {}, {}, { core := UncachedSystem.retire }, {}, {}, {}, {}, {}, {}, {}, {}]

def idle : Inputs := {}

def ready : Inputs := { slave := { awReady := true, wReady := true } }

/-- One cycle later the register names the write. -/
theorem widAgrees_firstStore :
    (machine.run {} (firstStore ++ [idle])).wFire ready = true ∧
      (WidAgrees (machine.run {} (firstStore ++ [idle])) ready ↔
        FirstDataWaits (machine.run {} (firstStore ++ [idle])) ready) :=
  ⟨by decide +kernel, widAgrees_iff_firstDataWaits
    (Clocked.Machine.Reachable.run (.reset init_atReset) (by decide +kernel)) ready⟩

/-- Accepted at once, its data still carries the reset value. -/
theorem firstStore_not_widAgrees :
    ¬ ∀ t i, machine.Reachable t → machine.legal t i → WidAgrees t i := by
  intro h
  have hreach : machine.Reachable (machine.run {} firstStore) :=
    Clocked.Machine.Reachable.run (.reset init_atReset) (by decide +kernel)
  have hagrees := h _ ready hreach (by decide +kernel)
  revert hagrees
  decide +kernel

end ChipPort

end NopCore
