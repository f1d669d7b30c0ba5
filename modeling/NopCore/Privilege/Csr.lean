import NopCore.Privilege.InterruptHandler

/-!
# The control registers

All registers that control-register instructions, exceptions and TLB
instructions read or write, with the TLB they manage. In one cycle commit sends
the effects of the instruction at port 0. The plugins assign one after the other
and the write switch comes last; an assignment reads the registers as they were
before the edge.
-/

namespace NopCore

/-- One page of the TLB entry that `TLBWR` and `TLBFILL` will write. -/
structure TLBELO where
  v : Bool := false
  d : Bool := false
  plv : BitVec 2 := 0
  mat : BitVec 2 := 0
  g : Bool := false
  ppn : BitVec 20 := 0
  deriving DecidableEq, Repr

def TLBELO.fromBits (data : UWord) : TLBELO where
  v := data.getLsbD 0
  d := data.getLsbD 1
  plv := data.extractLsb' 2 2
  mat := data.extractLsb' 4 2
  g := data.getLsbD 6
  ppn := data.extractLsb' 8 20

def DMW.fromBits (data : UWord) : DMW where
  plv0 := data.getLsbD 0
  plv3 := data.getLsbD 3
  mat := data.extractLsb' 4 2
  pseg := data.extractLsb' 25 3
  vseg := data.extractLsb' 29 3

structure PrivilegedUnit where
  handler : ExceptionHandler := {}
  interrupts : InterruptHandler := {}
  crmdDATF : BitVec 2 := 0
  crmdDATM : BitVec 2 := 0
  save0 : UWord := 0
  save1 : UWord := 0
  save2 : UWord := 0
  save3 : UWord := 0
  tlbidxINDEX : BitVec 4 := 0
  tlbidxNE : Bool := false
  victimIdx : BitVec 4 := 0
  tlbelo0 : TLBELO := {}
  tlbelo1 : TLBELO := {}
  asid : BitVec 10 := 0
  pgdlBASE : BitVec 20 := 0
  pgdhBASE : BitVec 20 := 0
  dmw0 : DMW := {}
  dmw1 : DMW := {}
  tlbTable : Fin 16 → TLBEntry := fun _ => {}
  inLowPowerMode : Bool := false

/-- What commit sends to the privileged registers in a cycle. `llbit` is the
link bit as load-linked and store-conditional leave it. -/
structure CommitSignals where
  request : ExceptionHandler.Request := {}
  llbit : Bool := false
  csrWrite : Option CSRWrite := none
  tlbOp : TLBOpType := .none
  tlbInvASID : BitVec 10 := 0
  tlbInvVPPN : BitVec 19 := 0
  doWait : Bool := false

/-- The part of the write switch that belongs to the exception handler's
registers and those it shares with the MMU. -/
def ExceptionHandler.writeCSR (s : ExceptionHandler) (w : CSRWrite) : ExceptionHandler :=
  { s with
    crmdPLV := w.update CSRAddress.CRMD (w.data.extractLsb' 0 2) s.crmdPLV
    crmdIE := w.update CSRAddress.CRMD (w.data.getLsbD 2) s.crmdIE
    crmdDA := w.update CSRAddress.CRMD (w.data.getLsbD 3) s.crmdDA
    crmdPG := w.update CSRAddress.CRMD (w.data.getLsbD 4) s.crmdPG
    prmdPPLV := w.update CSRAddress.PRMD (w.data.extractLsb' 0 2) s.prmdPPLV
    prmdPIE := w.update CSRAddress.PRMD (w.data.getLsbD 2) s.prmdPIE
    eraPC := w.update CSRAddress.ERA w.data s.eraPC
    badvVADDR := w.update CSRAddress.BADV w.data s.badvVADDR
    eentryVA := w.update CSRAddress.EENTRY (w.data.extractLsb' 6 26) s.eentryVA
    llbctlKLO := w.update CSRAddress.LLBCTL (w.data.getLsbD 2) s.llbctlKLO
    llbctlLLBIT :=
      w.update CSRAddress.LLBCTL (!w.data.getLsbD 1 && s.llbctlLLBIT) s.llbctlLLBIT
    tlbidxPS := w.update CSRAddress.TLBIDX (w.data.extractLsb' 24 6) s.tlbidxPS
    tlbehiVPPN := w.update CSRAddress.TLBEHI (w.data.extractLsb' 13 19) s.tlbehiVPPN
    tlbrentryPA := w.update CSRAddress.TLBRENTRY (w.data.extractLsb' 6 26) s.tlbrentryPA }

namespace PrivilegedUnit

/-! ## TLB instructions -/

def tlbsrchHit (p : PrivilegedUnit) (entry : TLBEntry) : Bool :=
  entry.e && (entry.asid == p.asid || entry.g) &&
    if entry.ps == 12 then entry.vppn == p.handler.tlbehiVPPN
    else entry.vppn.extractLsb' 9 10 == p.handler.tlbehiVPPN.extractLsb' 9 10

/-- The entry that `TLBWR` and `TLBFILL` write. In the refill handler it is valid
whatever `TLBIDX.NE` says. -/
def newEntry (p : PrivilegedUnit) : TLBEntry where
  e := p.handler.estat.ecode == 0x3f || !p.tlbidxNE
  asid := p.asid
  g := p.tlbelo0.g && p.tlbelo1.g
  ps := p.handler.tlbidxPS
  vppn := p.handler.tlbehiVPPN
  v0 := p.tlbelo0.v
  d0 := p.tlbelo0.d
  mat0 := p.tlbelo0.mat
  plv0 := p.tlbelo0.plv
  ppn0 := p.tlbelo0.ppn
  v1 := p.tlbelo1.v
  d1 := p.tlbelo1.d
  mat1 := p.tlbelo1.mat
  plv1 := p.tlbelo1.plv
  ppn1 := p.tlbelo1.ppn

/-- The entries an `INVTLB` clears. Sub-operations 0 and 1 clear all. -/
def invMask (c : CommitSignals) (entry : TLBEntry) : Bool :=
  let asidMatch := entry.asid == c.tlbInvASID
  let vppnMatch :=
    if entry.ps == 12 then entry.vppn == c.tlbInvVPPN
    else entry.vppn.extractLsb' 10 9 == c.tlbInvVPPN.extractLsb' 10 9
  match c.tlbOp with
  | .invtlb2 => entry.g
  | .invtlb3 => !entry.g
  | .invtlb4 => !entry.g && asidMatch
  | .invtlb5 => !entry.g && asidMatch && vppnMatch
  | .invtlb6 => (entry.g || asidMatch) && vppnMatch
  | _ => true

/-- `TLBRD` copies the indexed entry into the registers; an invalid one clears
them. -/
def tlbrd (p s : PrivilegedUnit) : PrivilegedUnit :=
  let entry := p.tlbTable p.tlbidxINDEX.toFin
  if entry.e then
    { s with
      handler := { s.handler with tlbehiVPPN := entry.vppn, tlbidxPS := entry.ps }
      tlbidxNE := false
      asid := entry.asid
      tlbelo0 := ⟨entry.v0, entry.d0, entry.plv0, entry.mat0, entry.g, entry.ppn0⟩
      tlbelo1 := ⟨entry.v1, entry.d1, entry.plv1, entry.mat1, entry.g, entry.ppn1⟩ }
  else
    { s with
      handler := { s.handler with tlbehiVPPN := 0, tlbidxPS := 0 }
      tlbidxNE := true
      asid := 0
      tlbelo0 := {}
      tlbelo1 := {} }

/-- The TLB instruction of the cycle: `p` are the registers before the edge, `s`
what the earlier assignments make of them. -/
def parseTLBInstruction (c : CommitSignals) (p s : PrivilegedUnit) : PrivilegedUnit :=
  match c.tlbOp with
  | .none => s
  | .tlbsrch =>
    match (List.finRange 16).find? fun k => p.tlbsrchHit (p.tlbTable k) with
    | some k => { s with tlbidxINDEX := BitVec.ofFin k, tlbidxNE := false }
    | none => { s with tlbidxNE := true }
  | .tlbrd => tlbrd p s
  | .tlbwr =>
    { s with tlbTable := Function.update s.tlbTable p.tlbidxINDEX.toFin p.newEntry }
  | .tlbfill =>
    { s with
      victimIdx := p.victimIdx + 1
      tlbTable := Function.update s.tlbTable p.victimIdx.toFin p.newEntry }
  | .invtlb1 | .invtlb2 | .invtlb3 | .invtlb4 | .invtlb5 | .invtlb6 =>
    { s with
      tlbTable := fun k =>
        if invMask c (p.tlbTable k) then { s.tlbTable k with e := false } else s.tlbTable k }

/-! ## The write switch -/

/-- The registers of the write switch outside the interrupt handler, which has
its own part. -/
def writeCSR (s : PrivilegedUnit) (w : CSRWrite) : PrivilegedUnit :=
  { s with
    handler := s.handler.writeCSR w
    crmdDATF := w.update CSRAddress.CRMD (w.data.extractLsb' 5 2) s.crmdDATF
    crmdDATM := w.update CSRAddress.CRMD (w.data.extractLsb' 7 2) s.crmdDATM
    save0 := w.update CSRAddress.SAVE0 w.data s.save0
    save1 := w.update CSRAddress.SAVE1 w.data s.save1
    save2 := w.update CSRAddress.SAVE2 w.data s.save2
    save3 := w.update CSRAddress.SAVE3 w.data s.save3
    tlbidxINDEX := w.update CSRAddress.TLBIDX (w.data.extractLsb' 0 4) s.tlbidxINDEX
    tlbidxNE := w.update CSRAddress.TLBIDX (w.data.getLsbD 31) s.tlbidxNE
    tlbelo0 := w.update CSRAddress.TLBELO0 (.fromBits w.data) s.tlbelo0
    tlbelo1 := w.update CSRAddress.TLBELO1 (.fromBits w.data) s.tlbelo1
    asid := w.update CSRAddress.ASID (w.data.extractLsb' 0 10) s.asid
    pgdlBASE := w.update CSRAddress.PGDL (w.data.extractLsb' 12 20) s.pgdlBASE
    pgdhBASE := w.update CSRAddress.PGDH (w.data.extractLsb' 12 20) s.pgdhBASE
    dmw0 := w.update CSRAddress.DMW0 (.fromBits w.data) s.dmw0
    dmw1 := w.update CSRAddress.DMW1 (.fromBits w.data) s.dmw1 }

/-! ## One cycle -/

/-- The line commit takes interrupts from. -/
def intPending (p : PrivilegedUnit) : Bool :=
  p.interrupts.intPending p.handler.crmdIE p.handler.llbctlLLBIT

/-- The wait state is entered by `IDLE` and left by any pending line. -/
def nextLowPowerMode (p : PrivilegedUnit) (c : CommitSignals) : Bool :=
  (c.doWait || p.inLowPowerMode) && p.interrupts.estat == 0

/-- The request of commit is served and the interrupt handler runs. -/
def served (innerCounterDownEvery : Nat) (p : PrivilegedUnit) (c : CommitSignals)
    (intrpt : BitVec 8) : PrivilegedUnit :=
  { p with
    handler := { p.handler with llbctlLLBIT := c.llbit }.step c.request
    interrupts := p.interrupts.step innerCounterDownEvery ⟨c.csrWrite, intrpt⟩ }

/-- All assignments but those of the write switch. -/
def executed (innerCounterDownEvery : Nat) (p : PrivilegedUnit) (c : CommitSignals)
    (intrpt : BitVec 8) : PrivilegedUnit :=
  { parseTLBInstruction c p (p.served innerCounterDownEvery c intrpt) with
    inLowPowerMode := p.nextLowPowerMode c }

def step (innerCounterDownEvery : Nat) (p : PrivilegedUnit) (c : CommitSignals)
    (intrpt : BitVec 8) : PrivilegedUnit :=
  match c.csrWrite with
  | none => p.executed innerCounterDownEvery c intrpt
  | some w => (p.executed innerCounterDownEvery c intrpt).writeCSR w

/-- What translations read. -/
def mmu (p : PrivilegedUnit) : MMU where
  crmdPLV := p.handler.crmdPLV
  dmw0 := p.dmw0
  dmw1 := p.dmw1
  asid := p.asid
  tlbTable := p.tlbTable

def translateCSR (p : PrivilegedUnit) : TranslateCSR :=
  ⟨p.handler.crmdDA, p.handler.crmdPG, p.crmdDATF, p.crmdDATM⟩

/-! ## What a cycle does to the exception handler's registers -/

variable {innerCounterDownEvery : Nat} {p s : PrivilegedUnit} {c : CommitSignals}
  {intrpt : BitVec 8}

/-- Of the handler's registers a TLB instruction writes only the two it shares
with the MMU. -/
theorem parseTLBInstruction_handler : ∃ vppn ps, (parseTLBInstruction c p s).handler =
    { s.handler with tlbehiVPPN := vppn, tlbidxPS := ps } := by
  refine ⟨(parseTLBInstruction c p s).handler.tlbehiVPPN,
    (parseTLBInstruction c p s).handler.tlbidxPS, ?_⟩
  unfold parseTLBInstruction
  cases c.tlbOp with
  | tlbrd =>
    unfold tlbrd
    dsimp only
    split <;> rfl
  | tlbsrch => dsimp only; split <;> rfl
  | _ => rfl

theorem parseTLBInstruction_interrupts :
    (parseTLBInstruction c p s).interrupts = s.interrupts := by
  unfold parseTLBInstruction
  cases c.tlbOp with
  | tlbrd =>
    unfold tlbrd
    dsimp only
    split <;> rfl
  | tlbsrch => dsimp only; split <;> rfl
  | _ => rfl

/-- The interrupt handler runs on its own. -/
theorem step_interrupts : (p.step innerCounterDownEvery c intrpt).interrupts =
    p.interrupts.step innerCounterDownEvery ⟨c.csrWrite, intrpt⟩ := by
  unfold step
  split <;> exact parseTLBInstruction_interrupts

/-- The handler's registers after a cycle: the request is served, a TLB
instruction may write two of them, and the write switch comes last. -/
theorem step_handler : ∃ vppn ps, (p.step innerCounterDownEvery c intrpt).handler =
    (c.csrWrite.elim id fun w s => s.writeCSR w)
      { { p.handler with llbctlLLBIT := c.llbit }.step c.request with
        tlbehiVPPN := vppn, tlbidxPS := ps } := by
  obtain ⟨vppn, ps, h⟩ := parseTLBInstruction_handler (c := c) (p := p)
    (s := p.served innerCounterDownEvery c intrpt)
  refine ⟨vppn, ps, ?_⟩
  unfold step
  split
  · rename_i hw
    rw [hw]
    exact h
  · rename_i w hw
    rw [hw]
    exact congrArg (·.writeCSR w) h

end PrivilegedUnit

namespace Commit

/-- The signals of a cycle, from the pop ports. -/
def signals (ports : Nat → PopPort) (fsm : UncachedState) (inp : CommitInputs) :
    CommitSignals where
  request := handlerRequest ports fsm inp
  llbit := llbit ports fsm inp
  csrWrite := csrWrite ports fsm inp
  tlbOp := tlbOp ports fsm inp
  tlbInvASID := (ports 0).state.intResult.extractLsb' 0 10
  tlbInvVPPN := (ports 0).state.intResult.extractLsb' 10 19
  doWait := doWait ports fsm inp

end Commit

/-! ## Cycles without a privileged effect -/

/-- Commit asks for nothing but a change of the link bit. -/
structure CommitSignals.Plain (c : CommitSignals) : Prop where
  except : c.request.except.valid = false
  ertn : c.request.ertn = false
  csrWrite : c.csrWrite = none
  tlbOp : c.tlbOp = .none
  doWait : c.doWait = false

theorem PrivilegedUnit.step_plain {innerCounterDownEvery : Nat} {p : PrivilegedUnit}
    {c : CommitSignals} {intrpt : BitVec 8} (h : c.Plain) :
    p.step innerCounterDownEvery c intrpt =
      { p with
        handler := { p.handler with llbctlLLBIT := c.llbit }
        interrupts := p.interrupts.step innerCounterDownEvery ⟨none, intrpt⟩
        inLowPowerMode := p.inLowPowerMode && p.interrupts.estat == 0 } := by
  have hhandler : { p.handler with llbctlLLBIT := c.llbit }.step c.request =
      { p.handler with llbctlLLBIT := c.llbit } := by
    simp [ExceptionHandler.step, h.except, h.ertn]
  simp only [step, h.csrWrite, executed, parseTLBInstruction, h.tlbOp, served, hhandler,
    nextLowPowerMode, h.doWait, Bool.false_or]

namespace Commit

variable {ports : Nat → PopPort} {fsm : UncachedState} {inp : CommitInputs}

/-- What retires without such a request leaves the privileged registers alone. -/
theorem plain_signals (hexcept : (except ports fsm inp).valid = false)
    (huop : retires ports fsm inp 0 = true → (ports 0).uop.isErtn = false ∧
      (ports 0).uop.writeCSR = false ∧ (ports 0).uop.tlbOp = .none ∧
        (ports 0).uop.isWait = false) : (signals ports fsm inp).Plain := by
  constructor
  · exact hexcept
  · change ertn ports fsm inp = false
    cases hr : retires ports fsm inp 0 with
    | false => simp [ertn, hr]
    | true => simp [ertn, (huop hr).1]
  · change csrWrite ports fsm inp = none
    cases hr : retires ports fsm inp 0 with
    | false => simp [csrWrite, hr]
    | true => simp [csrWrite, (huop hr).2.1]
  · change tlbOp ports fsm inp = .none
    cases hr : retires ports fsm inp 0 with
    | false => simp [tlbOp, hr]
    | true => simp [tlbOp, (huop hr).2.2.1]
  · change doWait ports fsm inp = false
    cases hr : retires ports fsm inp 0 with
    | false => simp [doWait, hr]
    | true => simp [doWait, (huop hr).2.2.2]

/-- What retires without a flush changes no state that younger instructions have read. -/
theorem flushState_of_retires (h : needFlush ports fsm inp = false)
    (hr : retires ports fsm inp 0 = true) : (ports 0).uop.flushState = false := by
  simp only [retires, Bool.and_eq_true, Bool.not_eq_true'] at hr
  simp only [needFlush, hr.1, hr.2, linearRecover, Bool.true_and, Bool.or_eq_false_iff] at h
  exact h.2.1

/-- Whatever changes the privileged registers or the link bit flushes the pipeline. -/
theorem plain_of_not_needFlush (h : needFlush ports fsm inp = false) :
    (signals ports fsm inp).Plain ∧
      (signals ports fsm inp).llbit = inp.handler.llbctlLLBIT := by
  have hexcept : (except ports fsm inp).valid = false := by
    change (fire ports fsm inp 0 && hasExcept ports fsm inp) = false
    cases hfire : fire ports fsm inp 0 with
    | false => rfl
    | true =>
      simp only [needFlush, hfire, Bool.true_and, Bool.or_eq_false_iff] at h
      simp [h.1.1]
  constructor
  · refine plain_signals hexcept fun hr => ?_
    have hstay := flushState_of_retires h hr
    simp only [MicroOp.flushState, MicroOp.operateTLB, Bool.or_eq_false_iff, bne_eq_false_iff_eq]
      at hstay
    obtain ⟨⟨⟨⟨⟨⟨⟨hertn, hwrite⟩, hwait⟩, htlb⟩, -⟩, -⟩, -⟩, -⟩ := hstay
    exact ⟨hertn, hwrite, htlb, hwait⟩
  · change llbit ports fsm inp = _
    cases hr : retires ports fsm inp 0 with
    | false => simp [llbit, hr]
    | true =>
      have hstay := flushState_of_retires h hr
      simp only [MicroOp.flushState, Bool.or_eq_false_iff] at hstay
      simp [llbit, hstay.2, hstay.1.2]

end Commit

end NopCore
