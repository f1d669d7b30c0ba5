import NopCore.Privilege.ExceptionMux

/-!
# Taking an exception

The handler sees one exception a cycle, the one the commit logic sends from the
head of the reorder buffer. It chooses the entry address by the refill flag
alone, and the addresses it saves by the code alone, so the two must have been
reported by the same cause.
-/

namespace NopCore

/-- An exception as the reorder buffer stores it and as commit sends it. The
other fields are don't-cares while `valid` is low. -/
structure ExceptionPayload where
  valid : Bool := false
  code : ExceptionCode := ExceptionCode.INT
  badVA : UWord := 0
  isTLBRefill : Bool := false
  deriving DecidableEq, Repr

/-- The privileged registers that exception entry and return read or write. -/
structure ExceptionHandler where
  crmdPLV : BitVec 2 := 0
  crmdIE : Bool := false
  crmdDA : Bool := true
  crmdPG : Bool := false
  prmdPPLV : BitVec 2 := 0
  prmdPIE : Bool := false
  estat : ExceptionCode := ExceptionCode.INT
  eraPC : UWord := 0
  badvVADDR : UWord := 0
  tlbrActive : Bool := false
  eentryVA : BitVec 26 := 0
  llbctlLLBIT : Bool := false
  llbctlKLO : Bool := false
  tlbrentryPA : BitVec 26 := 0
  tlbidxPS : BitVec 6 := 0
  tlbehiVPPN : BitVec 19 := 0
  deriving DecidableEq, Repr

namespace ExceptionHandler

/-- The commit signals of one cycle. -/
structure Request where
  except : ExceptionPayload := {}
  ertn : Bool := false
  epc : UWord := 0
  intPending : Bool := false

def eentryPC (s : ExceptionHandler) : UWord := s.eentryVA ++ 0#6

/-- The entry for ordinary exceptions: one 512-byte slot per exception code. -/
def exceptionEntry (s : ExceptionHandler) (code : ExceptionCode) : UWord :=
  s.eentryPC + (code.ecode.setWidth 32 - 32#32) <<< 9

def refillEntry (s : ExceptionHandler) : UWord := s.tlbrentryPA ++ 0#6

def eentry (s : ExceptionHandler) (r : Request) : UWord :=
  if r.intPending then s.eentryPC
  else if r.except.isTLBRefill then s.refillEntry
  else s.exceptionEntry r.except.code

/-- Codes for which the bad address is saved in `BADV`. -/
def badVUpdateCases : List ExceptionCode :=
  open ExceptionCode in [TLBR, ADEF, ADEM, ALE, PIL, PIS, PIF, PME, PPI]

/-- Codes for which the page of the bad address is saved in `TLBEHI`. -/
def tlbehiUpdateCases : List ExceptionCode :=
  open ExceptionCode in [TLBR, PIF, PPI, PME, PIS, PIL]

/-- A return from the refill handler restores mapped mode. This also happens in
a cycle that reports an exception, whose assignments come later and win. -/
def finishRefill (s : ExceptionHandler) (r : Request) : ExceptionHandler :=
  if r.ertn && s.tlbrActive then
    { s with crmdDA := false, crmdPG := true, tlbrActive := false }
  else s

/-- Save the cause of an exception that is not an interrupt. -/
def recordCause (s : ExceptionHandler) (e : ExceptionPayload) : ExceptionHandler :=
  let s :=
    if e.isTLBRefill then
      { s with crmdDA := true, crmdPG := false, tlbrActive := true, tlbidxPS := 12 }
    else s
  let s := { s with estat := e.code }
  let s := if e.code ∈ badVUpdateCases then { s with badvVADDR := e.badVA } else s
  if e.code ∈ tlbehiUpdateCases then { s with tlbehiVPPN := e.badVA.extractLsb' 13 19 } else s

/-- Enter the handler at the saved program counter. -/
def enter (s : ExceptionHandler) (epc : UWord) : ExceptionHandler :=
  { s with
    prmdPPLV := s.crmdPLV, prmdPIE := s.crmdIE, crmdPLV := 0, crmdIE := false,
    eraPC := epc }

/-- Return from an exception. -/
def leave (s : ExceptionHandler) : ExceptionHandler :=
  { s with
    llbctlKLO := false
    llbctlLLBIT := if s.llbctlKLO then s.llbctlLLBIT else false
    crmdPLV := s.prmdPPLV, crmdIE := s.prmdPIE
    crmdDA := if s.tlbrActive then false else s.crmdDA
    crmdPG := if s.tlbrActive then true else s.crmdPG
    tlbrActive := false }

/-- The registers after the cycle. -/
def step (s : ExceptionHandler) (r : Request) : ExceptionHandler :=
  if r.except.valid then
    if r.intPending then
      enter { s.finishRefill r with estat := ExceptionCode.INT } r.epc
    else enter ((s.finishRefill r).recordCause r.except) r.epc
  else if r.ertn then s.leave
  else s

/-- The redirection sent to the program counter. -/
def jump (s : ExceptionHandler) (r : Request) : Option UWord :=
  if r.except.valid then some (s.eentry r)
  else if r.ertn then some s.eraPC
  else none

/-- What an exception leaves in the registers, read off its payload. -/
theorem step_except (s : ExceptionHandler) (e : ExceptionPayload) (epc : UWord)
    (he : e.valid = true) :
    s.step { except := e, epc := epc } =
      { s with
        crmdPLV := 0, crmdIE := false, prmdPPLV := s.crmdPLV, prmdPIE := s.crmdIE
        eraPC := epc, estat := e.code
        crmdDA := if e.isTLBRefill then true else s.crmdDA
        crmdPG := if e.isTLBRefill then false else s.crmdPG
        tlbrActive := if e.isTLBRefill then true else s.tlbrActive
        tlbidxPS := if e.isTLBRefill then 12 else s.tlbidxPS
        badvVADDR := if e.code ∈ badVUpdateCases then e.badVA else s.badvVADDR
        tlbehiVPPN :=
          if e.code ∈ tlbehiUpdateCases then e.badVA.extractLsb' 13 19
          else s.tlbehiVPPN } := by
  have hfinish : s.finishRefill { except := e, epc := epc } = s := rfl
  simp only [step, he, if_true, hfinish, Bool.false_eq_true, if_false, enter, recordCause]
  by_cases hr : e.isTLBRefill <;> by_cases hb : e.code ∈ badVUpdateCases <;>
    by_cases hv : e.code ∈ tlbehiUpdateCases <;> simp [hr, hb, hv]

/-- No request sets the link bit. -/
theorem llbit_of_step {s : ExceptionHandler} {r : Request}
    (h : (s.step r).llbctlLLBIT = true) : s.llbctlLLBIT = true := by
  unfold step at h
  split_ifs at h
  · simpa [enter, finishRefill, apply_ite ExceptionHandler.llbctlLLBIT] using h
  · simp only [enter, recordCause, finishRefill, apply_ite ExceptionHandler.llbctlLLBIT,
      ite_self] at h
    exact h
  · simp only [leave] at h
    split_ifs at h
    exact h
  · exact h

theorem jump_except (s : ExceptionHandler) (e : ExceptionPayload) (epc : UWord)
    (he : e.valid = true) :
    s.jump { except := e, epc := epc } =
      some (if e.isTLBRefill then s.refillEntry else s.exceptionEntry e.code) := by
  simp [jump, eentry, he]

end ExceptionHandler

end NopCore
