import NopCore.Utils.ReorderMemory

/-!
# Memories in banks, cycle by cycle

`ReorderCacheRAM` has a bank for each port and turns the ports against the banks by the
offset of an address; the offset of a request waits for its answer in registers that move
with those of the banks. `ReorderCacheRAMOutReg` allows for any numbers of ports and keeps
the answer in a register of its own. Either can be built so that a word written in the
cycle of a request is in the answer.
-/

universe u

namespace NopCore

open ReorderCacheRAMOutReg (bankAddress)

/-! ## Banks -/

section Banks

variable {α : Type u} {g : BankGeometry} {xpm : XpmMemory α g.wordsPerBank}

/-- The inputs of bank `idx`, given what the write ports connect to each bank. -/
def bankPorts (c : ReorderCycle α g.addressWidth) (data : Nat → Option α) (idx : Nat) :
    SDPRAMPorts α where
  valid := c.readValid
  payload := bankAddress g.bankCount g.rows c.readAddress idx
  address := bankAddress g.bankCount g.rows c.write.address idx
  data := data idx

/-- The words in the banks. -/
def bankWords (rams : Nat → SDPRAMSync xpm) (n : Nat) : α :=
  xpm.read (rams (n % g.bankCount)).mem (n / g.bankCount)

/-- Each bank is connected to the port whose word it holds. -/
def Connects (ports : Nat) (c : ReorderCycle α g.addressWidth) (data : Nat → Option α) : Prop :=
  ∀ j < g.bankCount, data ((c.write.address % g.bankCount + j) % g.bankCount) = c.written ports j

variable {rams rams' : Nat → SDPRAMSync xpm} {c : ReorderCycle α g.addressWidth}
  {data : Nat → Option α} {ports i n : Nat}

/-- A bank is only written in a row that it has. -/
theorem bankPorts_inRange {idx : Nat} (hdata : Connects ports c data)
    (hc : c.Regular g.Within ports) (hidx : idx < g.bankCount) :
    (bankPorts c data idx).InRange g.wordsPerBank := by
  intro hsome
  obtain ⟨x, hx⟩ := Option.isSome_iff_exists.mp hsome
  have hj := Ring.offset_lt g.bankCount_pos (c.write.address % g.bankCount) idx
  have hback : (c.write.address % g.bankCount +
      Ring.offset g.bankCount (c.write.address % g.bankCount) idx) % g.bankCount = idx :=
    Ring.slot_offset (Nat.mod_lt _ g.bankCount_pos) hidx
  have hwritten := hdata _ hj
  rw [hback] at hwritten
  obtain ⟨hport, hvalid, hmask, -⟩ := ReorderCycle.written_eq_some.mp (hwritten.symm.trans hx)
  have hrow := (BankGeometry.place (hc _ hport hvalid hmask) hj).2
  rw [hback] at hrow
  exact hrow.symm.trans_lt (BankGeometry.row_lt (Nat.mod_lt _ g.pos))

/-- The banks after a cycle hold the words after it. -/
theorem bankWords_written (hports : ports ≤ g.bankCount) (hdata : Connects ports c data)
    (hc : c.Regular g.Within ports) (hn : n < g.wordCount)
    (hmem : ∀ idx, (rams' idx).mem = (rams idx).written (bankPorts c data idx)) :
    bankWords rams' n = c.words g.wordCount ports (bankWords rams) n := by
  have hbank := bankPorts_inRange hdata hc (Nat.mod_lt n g.bankCount_pos)
  have hword := ReorderCacheRAMOutReg.store_word
    (fun idx row => xpm.read (rams idx).mem row) g.bankCount_pos (g.address_lt c.write.address)
    (BankGeometry.lt_space hn) hdata (fun j hj => ReorderCycle.written_ports (hports.trans hj))
  rw [bankWords, hmem, SDPRAMSync.read_written hbank (BankGeometry.row_lt hn),
    ReorderCycle.words_eq hports hn hc]
  exact hword

section Read

variable (rams rams' data) (hi : i < g.bankCount) (hread : g.Within c.readAddress i)
include hi hread

theorem payload_lt :
    (bankPorts c data ((c.readAddress % g.bankCount + i) % g.bankCount)).payload <
      g.wordsPerBank := by
  have hrow := (BankGeometry.place hread hi).2
  exact hrow.symm.trans_lt (BankGeometry.row_lt (Nat.mod_lt _ g.pos))

/-- The bank at distance `i` from the offset is read in the row of word `i`. -/
theorem read_payload :
    xpm.read (rams ((c.readAddress % g.bankCount + i) % g.bankCount)).mem
        (bankPorts c data ((c.readAddress % g.bankCount + i) % g.bankCount)).payload =
      bankWords rams ((c.readAddress + i) % g.wordCount) := by
  obtain ⟨hbank, hrow⟩ := BankGeometry.place hread hi
  rw [bankWords, hbank, hrow]
  rfl

theorem rsp_writeFirst (hdata : Connects ports c data) (hc : c.Regular g.Within ports)
    (hmem : ∀ idx, (rams' idx).mem = (rams idx).written (bankPorts c data idx)) :
    SDPRAMAsyncToSyncWriteFirst.rsp (rams ((c.readAddress % g.bankCount + i) % g.bankCount))
        (bankPorts c data ((c.readAddress % g.bankCount + i) % g.bankCount)) =
      bankWords rams' ((c.readAddress + i) % g.wordCount) := by
  have hbank := bankPorts_inRange hdata hc (Nat.mod_lt (c.readAddress % g.bankCount + i)
    g.bankCount_pos)
  rw [SDPRAMAsyncToSyncWriteFirst.rsp_eq hbank (payload_lt data hi hread), ← hmem]
  exact read_payload rams' data hi hread

end Read

end Banks

/-! ## A bank for each port -/

/-- The offset of a request is delayed as its answer is. -/
structure ReorderCacheRAM {α : Type u} {g : BankGeometry} (xpm : XpmMemory α g.wordsPerBank) where
  rams : Nat → SDPRAMSync xpm
  regAddr1 : Nat
  regAddr2 : Nat

namespace ReorderCacheRAM

/-- How a memory is built. -/
structure Options where
  outputReg : Bool
  writeFirst : Bool
  exclusive : (writeFirst && outputReg) = false

theorem Options.not_writeFirst (o : Options) (hreg : o.outputReg = true) :
    o.writeFirst = false := by
  have hexclusive := o.exclusive
  rwa [hreg, Bool.and_true] at hexclusive

variable {α : Type u} {g : BankGeometry} {xpm : XpmMemory α g.wordsPerBank}

/-- What is written to bank `idx`, if anything. -/
def bankData (c : ReorderCycle α g.addressWidth) (idx : Nat) : Option α :=
  let i := (idx + g.bankCount - c.write.address % g.bankCount) % g.bankCount
  if c.writeValid && c.write.mask i then some (c.write.data i) else none

def step (o : Options) (ram : ReorderCacheRAM xpm) (c : ReorderCycle α g.addressWidth) :
    ReorderCacheRAM xpm where
  rams idx :=
    if o.writeFirst then
      SDPRAMAsyncToSyncWriteFirst.step (ram.rams idx) (bankPorts c (bankData c) idx)
    else SDPRAM.step (ram.rams idx) (bankPorts c (bankData c) idx)
  regAddr1 := if c.readValid then c.readAddress % g.bankCount else ram.regAddr1
  regAddr2 := if c.readValid then ram.regAddr1 else ram.regAddr2

def run (o : Options) (ram : ReorderCacheRAM xpm) (cs : List (ReorderCycle α g.addressWidth)) :
    ReorderCacheRAM xpm :=
  cs.foldl (step o) ram

def regAddr (o : Options) (ram : ReorderCacheRAM xpm) : Nat :=
  if o.outputReg then ram.regAddr2 else ram.regAddr1

def rsp (o : Options) (ram : ReorderCacheRAM xpm) (i : Nat) : α :=
  let idx := (regAddr o ram + i) % g.bankCount
  if o.writeFirst then (ram.rams idx).latch else SDPRAM.rsp o.outputReg (ram.rams idx)

/-- An answer stays until the next request; with two registers it comes with that one and
stays until the one behind it. -/
def Answers (o : Options) (after : List (ReorderCycle α g.addressWidth)) : Prop :=
  if o.outputReg then
    ∃ quiet next quiet', after = quiet ++ next :: quiet' ∧ next.readValid = true ∧
      (∀ c ∈ quiet, c.readValid = false) ∧ ∀ c ∈ quiet', c.readValid = false
  else ∀ c ∈ after, c.readValid = false

def memory (xpm : XpmMemory α g.wordsPerBank) (o : Options) : ReorderMemory g α where
  State := ReorderCacheRAM xpm
  step := step o
  rsp := rsp o
  contents ram := bankWords ram.rams
  readPorts := g.bankCount
  writePorts := g.bankCount
  writeFirst := o.writeFirst
  Answers := Answers o

variable {o : Options} {ram ram' : ReorderCacheRAM xpm} {c : ReorderCycle α g.addressWidth}

/-- The ports are turned against the banks by the offset. -/
theorem connects : Connects g.bankCount c (bankData c) := by
  intro j hj
  have hport : ((c.write.address % g.bankCount + j) % g.bankCount + g.bankCount -
      c.write.address % g.bankCount) % g.bankCount = j :=
    Ring.offset_slot (Nat.mod_lt _ g.bankCount_pos) hj
  rw [bankData, ReorderCycle.written, hport, decide_eq_true hj, Bool.and_true]

theorem step_mem (idx : Nat) :
    ((step o ram c).rams idx).mem = (ram.rams idx).written (bankPorts c (bankData c) idx) := by
  simp only [step]
  split_ifs <;> rfl

/-- Nothing that an answer is made of has moved. -/
structure SameOutputs (ram ram' : ReorderCacheRAM xpm) : Prop where
  latch : ∀ idx, (ram'.rams idx).latch = (ram.rams idx).latch
  dout : ∀ idx, (ram'.rams idx).dout = (ram.rams idx).dout
  regAddr1 : ram'.regAddr1 = ram.regAddr1
  regAddr2 : ram'.regAddr2 = ram.regAddr2

theorem SameOutputs.trans {ram'' : ReorderCacheRAM xpm} (h : SameOutputs ram ram')
    (h' : SameOutputs ram' ram'') : SameOutputs ram ram'' where
  latch idx := (h'.latch idx).trans (h.latch idx)
  dout idx := (h'.dout idx).trans (h.dout idx)
  regAddr1 := h'.regAddr1.trans h.regAddr1
  regAddr2 := h'.regAddr2.trans h.regAddr2

/-- A cycle without a request moves no register. -/
theorem step_quiet (hc : c.readValid = false) : SameOutputs ram (step o ram c) where
  latch idx := by
    simp only [step, SDPRAM.step, SDPRAMAsyncToSyncWriteFirst.step, bankPorts, hc]
    split_ifs <;> first | rfl | contradiction
  dout idx := by
    simp only [step, SDPRAM.step, SDPRAMAsyncToSyncWriteFirst.step, bankPorts, hc]
    split_ifs <;> first | rfl | contradiction
  regAddr1 := if_neg (Bool.eq_false_iff.mp hc)
  regAddr2 := if_neg (Bool.eq_false_iff.mp hc)

theorem run_quiet (o : Options) (ram : ReorderCacheRAM xpm)
    {cs : List (ReorderCycle α g.addressWidth)} (hcs : ∀ c ∈ cs, c.readValid = false) :
    SameOutputs ram (run o ram cs) := by
  induction cs generalizing ram with
  | nil => exact ⟨fun _ => rfl, fun _ => rfl, rfl, rfl⟩
  | cons c cs ih =>
    have hstep : SameOutputs ram (step o ram c) := step_quiet (hcs c List.mem_cons_self)
    exact hstep.trans (ih _ fun c hc => hcs c (List.mem_cons_of_mem _ hc))

/-- A request leaves its words in the first registers, each in the bank it is from. -/
theorem latch_step (ram : ReorderCacheRAM xpm) {i : Nat} (hvalid : c.readValid = true)
    (hi : i < g.bankCount) (hread : g.Within c.readAddress i)
    (hseen : ∀ c' ∈ (memory xpm o).seen [] c, c'.Regular g.Within g.bankCount) :
    ((step o ram c).rams ((c.readAddress % g.bankCount + i) % g.bankCount)).latch =
      bankWords (run o ram ((memory xpm o).seen [] c)).rams
        ((c.readAddress + i) % g.wordCount) := by
  cases hfirst : o.writeFirst with
  | true =>
    have hrun : (memory xpm o).seen [] c = [c] := if_pos hfirst
    rw [hrun] at hseen ⊢
    have hrsp := rsp_writeFirst ram.rams (step o ram c).rams (bankData c) hi hread
      connects (hseen c List.mem_cons_self) step_mem
    simp only [step, hfirst, SDPRAMAsyncToSyncWriteFirst.step, bankPorts, hvalid, if_true]
    exact hrsp
  | false =>
    have hrun : (memory xpm o).seen [] c = [] := if_neg (Bool.eq_false_iff.mp hfirst)
    have hrow := read_payload ram.rams (bankData c) hi hread
    rw [hrun]
    simp only [step, hfirst, SDPRAM.step, bankPorts, hvalid, if_true]
    exact hrow

/-- With two registers, a request moves the answer to the one before it on, together with
the offset that belongs to it. -/
theorem step_next (ram : ReorderCacheRAM xpm) (hreg : o.outputReg = true)
    (hvalid : c.readValid = true) :
    (∀ idx, ((step o ram c).rams idx).dout = (ram.rams idx).latch) ∧
      (step o ram c).regAddr2 = ram.regAddr1 := by
  have hfirst := o.not_writeFirst hreg
  constructor
  · intro idx
    simp only [step, hfirst, SDPRAM.step, bankPorts, hvalid, if_true]
    rfl
  · exact if_pos hvalid

theorem rsp_of_outputReg (hreg : o.outputReg = true) (i : Nat) :
    rsp o ram i = (ram.rams ((ram.regAddr2 + i) % g.bankCount)).dout := by
  have hfirst := o.not_writeFirst hreg
  simp only [rsp, regAddr, SDPRAM.rsp, hreg, hfirst, Bool.false_eq_true, if_false, if_true]

theorem rsp_of_not_outputReg (hreg : o.outputReg = false) (i : Nat) :
    rsp o ram i = (ram.rams ((ram.regAddr1 + i) % g.bankCount)).latch := by
  simp only [rsp, regAddr, SDPRAM.rsp, hreg, Bool.false_eq_true, if_false, ite_self]

/-- The answer is what the request has left in the first registers. -/
theorem rsp_answers (ram : ReorderCacheRAM xpm) {after : List (ReorderCycle α g.addressWidth)}
    (h : Answers o after) (i : Nat) :
    rsp o (run o ram after) i = (ram.rams ((ram.regAddr1 + i) % g.bankCount)).latch := by
  cases hreg : o.outputReg with
  | false =>
    rw [Answers, hreg, if_neg Bool.false_ne_true] at h
    have hsame := run_quiet o ram h
    rw [rsp_of_not_outputReg hreg, hsame.regAddr1, hsame.latch]
  | true =>
    rw [Answers, hreg, if_pos rfl] at h
    obtain ⟨quiet, next, quiet', rfl, hnext, hquiet, hquiet'⟩ := h
    have hbefore := run_quiet o ram hquiet
    obtain ⟨hdout, hregAddr⟩ := step_next (run o ram quiet) hreg hnext
    have hafter := run_quiet o (step o (run o ram quiet) next) hquiet'
    rw [run, List.foldl_append]
    change rsp o (run o (step o (run o ram quiet) next) quiet') i = _
    rw [rsp_of_outputReg hreg, hafter.regAddr2, hregAddr, hbefore.regAddr1, hafter.dout, hdout,
      hbefore.latch]

theorem stepSpec (xpm : XpmMemory α g.wordsPerBank) (o : Options) :
    (memory xpm o).StepSpec g.Within where
  write ram c n hc hn := bankWords_written (Nat.le_refl _) connects hc hn step_mem
  answer ram c after i hvalid hafter hseen hi hread := by
    have hlatch := latch_step ram hvalid hi hread hseen
    have hrsp := rsp_answers (step o ram c) hafter i
    have hregAddr : (step o ram c).regAddr1 = c.readAddress % g.bankCount := if_pos hvalid
    rw [hregAddr, hlatch] at hrsp
    exact hrsp

end ReorderCacheRAM

/-! ## Any numbers of ports -/

/-- Banks for any numbers of ports; where the memory is not write-first, the offset of a
request waits for the registers of the banks. -/
structure RegisteredRAM {α : Type u} {g : BankGeometry} (xpm : XpmMemory α g.wordsPerBank) where
  rams : Nat → SDPRAMSync xpm
  regAddr : Nat
  rsp : Nat → α

namespace ReorderCacheRAMOutReg

/-- The banks of a memory for these numbers of ports. -/
def geometry (rPortCount wPortCount wordCount : Nat) (pos : 0 < wordCount)
    (banked : wordCount % bankCount rPortCount wPortCount = 0) : BankGeometry where
  wordCount := wordCount
  offWidth := Nat.clog 2 (max rPortCount wPortCount)
  pos := pos
  banked := banked

end ReorderCacheRAMOutReg

namespace RegisteredRAM

variable {α : Type u} {g : BankGeometry} {xpm : XpmMemory α g.wordsPerBank}

/-- What is written to bank `idx`, if anything. -/
def bankData (wPortCount : Nat) (c : ReorderCycle α g.addressWidth) : Nat → Option α :=
  ReorderCacheRAMOutReg.bankWrite g.bankCount wPortCount c.writeValid c.write.address
    fun i => if c.write.mask i then some (c.write.data i) else none

/-- A write-first bank answers in the cycle of the request. -/
def step (wPortCount : Nat) (writeFirst : Bool) (ram : RegisteredRAM xpm)
    (c : ReorderCycle α g.addressWidth) : RegisteredRAM xpm where
  rams idx :=
    if writeFirst then
      SDPRAMAsyncToSyncWriteFirst.step (ram.rams idx) (bankPorts c (bankData wPortCount c) idx)
    else SDPRAM.step (ram.rams idx) (bankPorts c (bankData wPortCount c) idx)
  regAddr := if c.readValid then c.readAddress % g.bankCount else ram.regAddr
  rsp i :=
    if writeFirst then
      let idx := (c.readAddress % g.bankCount + i) % g.bankCount
      SDPRAMAsyncToSyncWriteFirst.rsp (ram.rams idx) (bankPorts c (bankData wPortCount c) idx)
    else SDPRAM.rsp false (ram.rams ((ram.regAddr + i) % g.bankCount))

def run (wPortCount : Nat) (writeFirst : Bool) (ram : RegisteredRAM xpm)
    (cs : List (ReorderCycle α g.addressWidth)) : RegisteredRAM xpm :=
  cs.foldl (step wPortCount writeFirst) ram

/-- The answer of write-first banks is there at once; other ones have it a cycle later, and
for as long as there is no new request. -/
def Answers (writeFirst : Bool) (after : List (ReorderCycle α g.addressWidth)) : Prop :=
  if writeFirst then after = []
  else ∃ quiet last, after = quiet ++ [last] ∧ ∀ c ∈ quiet, c.readValid = false

def memory (rPortCount wPortCount : Nat) (xpm : XpmMemory α g.wordsPerBank) (writeFirst : Bool) :
    ReorderMemory g α where
  State := RegisteredRAM xpm
  step := step wPortCount writeFirst
  rsp := rsp
  contents ram := bankWords ram.rams
  readPorts := rPortCount
  writePorts := wPortCount
  writeFirst := writeFirst
  Answers := Answers writeFirst

variable {rPortCount wPortCount : Nat} {writeFirst : Bool} {ram : RegisteredRAM xpm}
  {c : ReorderCycle α g.addressWidth}

theorem connects (hports : wPortCount ≤ g.bankCount) :
    Connects wPortCount c (bankData wPortCount c) := by
  intro j hj
  rw [bankData, ReorderCacheRAMOutReg.bankWrite, ReorderCacheRAMOutReg.writePort_slot hj hports,
    ReorderCycle.written]
  cases c.writeValid with
  | false => rfl
  | true =>
    by_cases hport : j < wPortCount
    · rw [if_pos hport, decide_eq_true hport]
      rfl
    · rw [if_neg hport, decide_eq_false hport]
      rfl

theorem step_mem (idx : Nat) :
    ((step wPortCount writeFirst ram c).rams idx).mem =
      (ram.rams idx).written (bankPorts c (bankData wPortCount c) idx) := by
  simp only [step]
  split_ifs <;> rfl

/-- Cycles without a request leave the registers of the banks and the offset. -/
theorem run_quiet (wPortCount : Nat) (ram : RegisteredRAM xpm)
    {cs : List (ReorderCycle α g.addressWidth)} (hcs : ∀ c ∈ cs, c.readValid = false) :
    (∀ idx, ((run wPortCount false ram cs).rams idx).latch = (ram.rams idx).latch) ∧
      (run wPortCount false ram cs).regAddr = ram.regAddr := by
  induction cs generalizing ram with
  | nil => exact ⟨fun _ => rfl, rfl⟩
  | cons c cs ih =>
    have hc := Bool.eq_false_iff.mp (hcs c List.mem_cons_self)
    obtain ⟨hlatch, hregAddr⟩ := ih (step wPortCount false ram c) fun c hc =>
      hcs c (List.mem_cons_of_mem _ hc)
    constructor
    · intro idx
      have hkept : ((step wPortCount false ram c).rams idx).latch = (ram.rams idx).latch :=
        if_neg hc
      exact (hlatch idx).trans hkept
    · exact hregAddr.trans (if_neg hc)

theorem stepSpec (xpm : XpmMemory α g.wordsPerBank) (writeFirst : Bool)
    (hr : rPortCount ≤ g.bankCount) (hw : wPortCount ≤ g.bankCount) :
    (memory rPortCount wPortCount xpm writeFirst).StepSpec g.Within where
  write ram c n hc hn := bankWords_written hw (connects hw) hc hn step_mem
  answer ram c after i hvalid hafter hseen hi hread := by
    have hbank : i < g.bankCount := hi.trans_le hr
    cases writeFirst with
    | true =>
      obtain rfl : after = [] := hafter
      exact rsp_writeFirst ram.rams (step wPortCount true ram c).rams (bankData wPortCount c)
        hbank hread (connects hw) (hseen c List.mem_cons_self) step_mem
    | false =>
      have hanswers : Answers false after := hafter
      rw [Answers, if_neg Bool.false_ne_true] at hanswers
      obtain ⟨quiet, last, rfl, hquiet⟩ := hanswers
      obtain ⟨hlatch, hregAddr⟩ := run_quiet wPortCount
        (step wPortCount false ram c) hquiet
      have hoffset : (step wPortCount false ram c).regAddr = c.readAddress % g.bankCount :=
        if_pos hvalid
      have hloaded : ∀ idx, ((step wPortCount false ram c).rams idx).latch =
          xpm.read (ram.rams idx).mem (bankPorts c (bankData wPortCount c) idx).payload :=
        fun idx => if_pos hvalid
      have hrun : (memory rPortCount wPortCount xpm false).run ram (c :: (quiet ++ [last])) =
          step wPortCount false (run wPortCount false (step wPortCount false ram c) quiet) last :=
        List.foldl_append
      rw [hrun]
      change ((run wPortCount false (step wPortCount false ram c) quiet).rams
        (((run wPortCount false (step wPortCount false ram c) quiet).regAddr + i) %
          g.bankCount)).latch = _
      rw [hregAddr, hoffset, hlatch, hloaded]
      exact read_payload ram.rams (bankData wPortCount c) hbank hread

/-- The rows and the answer, without the banks they are in. -/
def view (ram : RegisteredRAM xpm) : ReorderCacheRAMOutReg α where
  mem idx row := xpm.read (ram.rams idx).mem row
  rsp := ram.rsp

/-- With a power of two of words in a bank, a write-first memory is one that reads and writes
all of its banks in one step. -/
theorem view_step (hpow : g.wordsPerBank.isPowerOfTwo) :
    (∀ idx, ∀ row < g.wordsPerBank, (view (step wPortCount true ram c)).mem idx row =
      ((view ram).step g.bankCount g.rows wPortCount c.writeValid c.write.address
        (fun i => if c.write.mask i then some (c.write.data i) else none) c.readAddress).mem
          idx row) ∧
      (view (step wPortCount true ram c)).rsp =
        ((view ram).step g.bankCount g.rows wPortCount c.writeValid c.write.address
          (fun i => if c.write.mask i then some (c.write.data i) else none) c.readAddress).rsp := by
  refine ⟨fun idx row hrow => ?_, rfl⟩
  have hbank : (bankPorts c (bankData wPortCount c) idx).InRange g.wordsPerBank := by
    intro _
    rw [← BankGeometry.rows_eq hpow]
    exact Nat.mod_lt _ (Nat.two_pow_pos _)
  exact SDPRAMSync.read_written hbank hrow

end RegisteredRAM

/-! ## Both memories -/

/-- A read from either memory gets the last words written, as far as the words do not go
around earlier than the addresses, and no word changes whose mask is clear. -/
theorem reorderRAM_serves :
    (∀ (α : Type u) (g : BankGeometry) (xpm : XpmMemory α g.wordsPerBank)
      (o : ReorderCacheRAM.Options), (ReorderCacheRAM.memory xpm o).Serves g.Within) ∧
    ∀ (α : Type u) (rPortCount wPortCount wordCount : Nat) (pos : 0 < wordCount)
      (banked : wordCount % ReorderCacheRAMOutReg.bankCount rPortCount wPortCount = 0)
      (xpm : XpmMemory α
        (ReorderCacheRAMOutReg.geometry rPortCount wPortCount wordCount pos banked).wordsPerBank)
      (writeFirst : Bool), (RegisteredRAM.memory rPortCount wPortCount xpm writeFirst).Serves
        (ReorderCacheRAMOutReg.geometry rPortCount wPortCount wordCount pos banked).Within := by
  constructor
  · intro α g xpm o
    exact (ReorderCacheRAM.stepSpec xpm o).serves
  · intro α rPortCount wPortCount wordCount pos banked xpm writeFirst
    obtain ⟨hr, hw⟩ := ReorderCacheRAMOutReg.ports_le_bankCount rPortCount wPortCount
    exact (RegisteredRAM.stepSpec xpm writeFirst hr hw).serves

/-- Two words written from word seven of eight on, and three read in the same cycle. -/
theorem reorderRAM_wrapped :
    let ram : RegisteredRAM (XpmMemory.rows Nat
        (ReorderCacheRAMOutReg.geometry 3 2 8 (by decide) (by decide)).wordsPerBank) :=
      ⟨fun _ => ⟨fun _ => 0, 0, 0⟩, 0, fun _ => 0⟩
    let cycle : ReorderCycle Nat
        (ReorderCacheRAMOutReg.geometry 3 2 8 (by decide) (by decide)).addressWidth :=
      ⟨true, ⟨6, by decide⟩, true, ⟨7, by decide⟩, fun i => 5 + i, fun _ => true⟩
    ∀ i < 3, (RegisteredRAM.step 2 true ram cycle).rsp i = [0, 5, 6].getD i 0 := by
  intro ram cycle i hi
  have hserves := reorderRAM_serves.2 Nat 3 2 8 (by decide) (by decide)
    (XpmMemory.rows Nat _) true
  have hpow : (ReorderCacheRAMOutReg.geometry 3 2 8 (by decide)
      (by decide)).wordsPerBank.isPowerOfTwo := ⟨1, by decide⟩
  have hread := hserves.reads ram [] [] cycle i rfl rfl (fun c _ j _ _ _ => Or.inr hpow) hi
    (Or.inr hpow)
  have hlast : ∀ i < 3, ReorderCycle.lastWritten 8 2 (fun _ => 0) [cycle] ((6 + i) % 8) =
      [0, 5, 6].getD i 0 := by decide
  exact hread.trans (hlast i hi)

/-- Of three words in each of four banks, the run from word ten on does not go around: a row
is named that no bank has. -/
theorem reorderRAM_lastRow :
    ¬(ReorderCacheRAM.memory (g := ⟨12, 2, by decide, by decide⟩) (XpmMemory.rows Nat _)
      ⟨false, false, rfl⟩).Serves fun _ _ => True := by
  intro hserves
  have hread := hserves.reads ⟨fun _ => ⟨fun _ => 0, 0, 0⟩, 0, 0⟩
    [⟨false, ⟨0, by decide⟩, true, ⟨10, by decide⟩, fun i => 5 + i, fun _ => true⟩] []
    ⟨true, ⟨0, by decide⟩, false, ⟨0, by decide⟩, fun _ => 0, fun _ => false⟩ 0 rfl
    (fun _ h => absurd h List.not_mem_nil) (fun _ _ _ _ _ _ => trivial) (by decide) trivial
  exact absurd hread (by decide)

end NopCore
