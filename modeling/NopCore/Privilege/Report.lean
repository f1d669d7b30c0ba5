import NopCore.Core.MicroOp

/-!
# Exception reports

An access may be faulty for several reasons at once. The pipelines find them in
different stages, and what finally reaches the handler is a code, a bad address
and a refill flag that came by different wires. This file follows both routes,
from the translation of the access to the commit logic, and compares the result
with the cause that has priority.

The refill flag is the raw output of the translation. It agrees with the code
except when an address error has already been reported for the access: then the
code names the address error and the flag may still name the refill.
-/

namespace NopCore

/-! ## The memory pipeline -/

/-- Alignment check of the address generation stage. Byte accesses, cache
operations and prefetches are never misaligned. -/
def raiseALE (accessType : LoadStoreType) (virtAddr : UWord) : Bool :=
  match accessType with
  | .byte | .byteU | .cacop | .preld => false
  | .half | .halfU => virtAddr.getLsbD 0
  | .word => virtAddr.extractLsb' 0 2 != 0

def memaddrSources (accessType : LoadStoreType) (virtAddr : UWord) : List ExceptionSource :=
  [{ valid := raiseALE accessType virtAddr, exc := .ALE, priority := 130 }]

def mem1Sources (e : TranslateResultException) : List ExceptionSource :=
  [{ valid := e.raiseTLBR, exc := .TLBR, priority := 120 },
   { valid := e.raisePIL, exc := .PIL, priority := 115 },
   { valid := e.raisePIS, exc := .PIS, priority := 110 },
   { valid := e.raisePPI, exc := .PPI, priority := 105 },
   { valid := e.raisePME, exc := .PME, priority := 100 }]

/-- The exception the memory pipeline writes to the reorder buffer. Without an
exception the address field is reused for the physical address. -/
def robWriteExcept (mmu : MMU) (savedCSR : TranslateCSR) (accessType : LoadStoreType)
    (isStore : Bool) (virtAddr : UWord) : ExceptionPayload :=
  let op : MemOperationType := if isStore then .store else .load
  let translateResult :=
    translate virtAddr op (mmu.directTranslate virtAddr) (mmu.tlbTranslate virtAddr op) savedCSR
  let memaddr := ExceptionMux.stage (memaddrSources accessType virtAddr) {}
  let mem1 := ExceptionMux.stage (mem1Sources translateResult.exception) memaddr
  { valid := mem1.occurred
    code := mem1.code
    badVA := if mem1.occurred then virtAddr else translateResult.physAddr
    isTLBRefill := translateResult.exception.raiseTLBR }

/-! ## The fetch pipeline -/

def if1Sources (pc : UWord) : List ExceptionSource :=
  [{ valid := pc.getLsbD 0 || pc.getLsbD 1, exc := .ADEF, badVAddr := some pc, priority := 100 }]

def if2Sources (pc : UWord) (e : TranslateResultException) : List ExceptionSource :=
  [{ valid := e.raiseTLBR, exc := .TLBR, badVAddr := some pc, priority := 90 },
   { valid := e.raisePIF, exc := .PIF, badVAddr := some pc, priority := 80 },
   { valid := e.raisePPI, exc := .PPI, badVAddr := some pc, priority := 70 }]

/-- The exception attached to the first instruction of a fetch packet. `mmu` is
the state of the cycle the fetch spent in the first stage, `currentCSR` the mode
when it leaves the second. The bad address is not carried: it is the pc. -/
def fetchPacketExcept (mmu : MMU) (currentCSR : TranslateCSR) (pc : UWord) :
    ExceptionPayload :=
  let translateResult :=
    translate pc .fetch (mmu.directTranslate pc) (mmu.tlbTranslate pc .fetch) currentCSR
  let if1 := ExceptionMux.stage (if1Sources pc) {}
  let if2 := ExceptionMux.stage (if2Sources pc translateResult.exception) if1
  { valid := if2.occurred
    code := if2.code
    isTLBRefill := translateResult.exception.raiseTLBR }

/-- The decoder's own reasons to raise an exception. -/
structure DecodeFaults where
  isSyscall : Bool := false
  isBreak : Bool := false
  illegalEncoding : Bool := false
  illegalInvtlb : Bool := false
  privInst : Bool := false
  privLvl : BitVec 2 := 0

/-- The exception of a decoded instruction. The decoder looks for faults of its
own only when the fetch was clean; its later assignments win. -/
def decodeExcept (entryExcept : ExceptionPayload) (d : DecodeFaults) : ExceptionPayload :=
  if entryExcept.valid then entryExcept
  else
    let e := { entryExcept with isTLBRefill := false }
    if d.privLvl != 0 && d.privInst then { e with valid := true, code := .IPE }
    else if d.illegalInvtlb || d.illegalEncoding then { e with valid := true, code := .INE }
    else if d.isBreak then { e with valid := true, code := .BRK }
    else if d.isSyscall then { e with valid := true, code := .SYS }
    else e

/-- The payload sent by commit: an exception known before dispatch has the pc as
its bad address. -/
def commitExcept (frontendExc : Bool) (pc : UWord) (state : ExceptionPayload) :
    ExceptionPayload :=
  if frontendExc then { state with badVA := pc } else state

/-! ## Accesses and their causes -/

/-- An access together with everything its report depends on. -/
inductive Access
  /-- The fetch and decoding of the instruction at `pc`. -/
  | fetch (pc : UWord) (mmu : MMU) (currentCSR : TranslateCSR) (decode : DecodeFaults)
  /-- A load, store or cache operation. -/
  | memory (accessType : LoadStoreType) (isStore : Bool) (virtAddr : UWord) (mmu : MMU)
      (savedCSR : TranslateCSR)

namespace Access

def virtAddr : Access → UWord
  | fetch pc _ _ _ => pc
  | memory _ _ virtAddr _ _ => virtAddr

/-- What the translation of the access raises. -/
def translation : Access → TranslateResultException
  | fetch pc mmu csr _ =>
    (translate pc .fetch (mmu.directTranslate pc) (mmu.tlbTranslate pc .fetch) csr).exception
  | memory _ isStore va mmu csr =>
    let op : MemOperationType := if isStore then .store else .load
    (translate va op (mmu.directTranslate va) (mmu.tlbTranslate va op) csr).exception

/-- The address is not a multiple of the access size. -/
def misaligned : Access → Bool
  | fetch pc _ _ _ => pc.getLsbD 0 || pc.getLsbD 1
  | memory accessType _ va _ _ => raiseALE accessType va

/-- The exception payload with which the access reaches the handler. -/
def report : Access → ExceptionPayload
  | fetch pc mmu csr d =>
    let uopExcept := decodeExcept (fetchPacketExcept mmu csr pc) d
    commitExcept uopExcept.valid pc uopExcept
  | memory accessType isStore va mmu csr =>
    commitExcept false 0 (robWriteExcept mmu csr accessType isStore va)

end Access

/-- The reasons for which an access may be refused. -/
inductive Cause
  | adef | ale | tlbr | pil | pis | pif | ppi | pme | ipe | ine | brk | sys
  deriving DecidableEq, Repr

namespace Cause

def exc : Cause → ExceptionCode
  | adef => .ADEF
  | ale => .ALE
  | tlbr => .TLBR
  | pil => .PIL
  | pis => .PIS
  | pif => .PIF
  | ppi => .PPI
  | pme => .PME
  | ipe => .IPE
  | ine => .INE
  | brk => .BRK
  | sys => .SYS

/-- The causes in descending priority. -/
def order : List Cause := [adef, ale, tlbr, pil, pis, pif, ppi, pme, ipe, ine, brk, sys]

/-- Different causes have different codes. -/
theorem exc_injective : Function.Injective exc := by
  intro a b h
  revert h
  cases a <;> cases b <;> decide

end Cause

/-- The causes that are present for an access. -/
def Access.raises : Access → Cause → Bool
  | a@(.fetch _ _ _ _), .adef => a.misaligned
  | a@(.memory _ _ _ _ _), .ale => a.misaligned
  | a, .tlbr => a.translation.raiseTLBR
  | a@(.memory _ _ _ _ _), .pil => a.translation.raisePIL
  | a@(.memory _ _ _ _ _), .pis => a.translation.raisePIS
  | a@(.fetch _ _ _ _), .pif => a.translation.raisePIF
  | a, .ppi => a.translation.raisePPI
  | a@(.memory _ _ _ _ _), .pme => a.translation.raisePME
  | .fetch _ _ _ d, .ipe => d.privLvl != 0 && d.privInst
  | .fetch _ _ _ d, .ine => d.illegalInvtlb || d.illegalEncoding
  | .fetch _ _ _ d, .brk => d.isBreak
  | .fetch _ _ _ d, .sys => d.isSyscall
  | _, _ => false

/-- The cause with the highest priority. -/
def Access.cause (a : Access) : Option Cause := Cause.order.find? a.raises

/-- Code, address and refill flag are those of one cause. -/
def ExceptionPayload.Names (r : ExceptionPayload) (virtAddr : UWord) :
    Option Cause → Prop
  | none => r.valid = false
  | some c =>
    r = { valid := true, code := c.exc, badVA := virtAddr, isTLBRefill := decide (c = .tlbr) }

/-- The handler takes `c` where the architecture wants it taken: a refill at its
own entry in direct mode, anything else at the ordinary entry in the present
mode, and in both cases with the address saved where the cause asks for it. -/
structure ExceptionHandler.Takes (s : ExceptionHandler) (r : ExceptionPayload)
    (epc virtAddr : UWord) (c : Cause) : Prop where
  target : s.jump { except := r, epc := epc } =
    some (if c = .tlbr then s.refillEntry else s.exceptionEntry c.exc)
  mode : (s.step { except := r, epc := epc }).crmdDA = (decide (c = .tlbr) || s.crmdDA) ∧
    (s.step { except := r, epc := epc }).crmdPG = (!decide (c = .tlbr) && s.crmdPG)
  estat : (s.step { except := r, epc := epc }).estat = c.exc
  badv : c.exc ∈ badVUpdateCases →
    (s.step { except := r, epc := epc }).badvVADDR = virtAddr
  tlbehi : c.exc ∈ tlbehiUpdateCases →
    (s.step { except := r, epc := epc }).tlbehiVPPN = virtAddr.extractLsb' 13 19

/-- The report of an access is consistent: it names the cause with the highest
priority, and so it is that cause which the handler takes, whatever the state of
the privileged registers. -/
structure Access.Consistent (a : Access) : Prop where
  names : a.report.Names a.virtAddr a.cause
  taken : ∀ c, a.cause = some c → ∀ (s : ExceptionHandler) (epc : UWord),
    s.Takes a.report epc a.virtAddr c

/-! ## What the routes deliver -/

def mem1Cause (e : TranslateResultException) : Option Cause :=
  if e.raiseTLBR then some .tlbr
  else if e.raisePIL then some .pil
  else if e.raisePIS then some .pis
  else if e.raisePPI then some .ppi
  else if e.raisePME then some .pme
  else none

def if2Cause (e : TranslateResultException) : Option Cause :=
  if e.raiseTLBR then some .tlbr
  else if e.raisePIF then some .pif
  else if e.raisePPI then some .ppi
  else none

private def decodeCause (d : DecodeFaults) : Option Cause :=
  if d.privLvl != 0 && d.privInst then some .ipe
  else if d.illegalInvtlb || d.illegalEncoding then some .ine
  else if d.isBreak then some .brk
  else if d.isSyscall then some .sys
  else none

private theorem cause_memory (lsType : LoadStoreType) (isStore : Bool) (va : UWord) (mmu : MMU)
    (csr : TranslateCSR) :
    (Access.memory lsType isStore va mmu csr).cause =
      if raiseALE lsType va then some .ale
      else mem1Cause (Access.memory lsType isStore va mmu csr).translation := by
  simp only [Access.cause, Cause.order, List.find?, Access.raises, Access.misaligned, mem1Cause]
  grind

private theorem cause_fetch (pc : UWord) (mmu : MMU) (csr : TranslateCSR) (d : DecodeFaults) :
    (Access.fetch pc mmu csr d).cause =
      if pc.getLsbD 0 || pc.getLsbD 1 then some .adef
      else (if2Cause (Access.fetch pc mmu csr d).translation).or (decodeCause d) := by
  simp only [Access.cause, Cause.order, List.find?, Access.raises, Access.misaligned, if2Cause,
    decodeCause]
  grind

-- The winner of a stage is the first raised source in descending order, which
-- is how the cause of the access is defined.
private theorem mem1_wins {e : TranslateResultException} {s : ExceptionSource}
    (h : ExceptionMux.Wins (mem1Sources e) s) : ∃ c, mem1Cause e = some c ∧ s.exc = c.exc := by
  obtain ⟨hmem, hvalid, hhigh⟩ := h
  simp only [mem1Sources, List.mem_cons, List.not_mem_nil, or_false, forall_eq_or_imp,
    forall_eq] at hmem hhigh
  rcases hmem with rfl | rfl | rfl | rfl | rfl
  · exact ⟨.tlbr, by simp_all [mem1Cause], rfl⟩
  · exact ⟨.pil, by simp_all [mem1Cause], rfl⟩
  · exact ⟨.pis, by simp_all [mem1Cause], rfl⟩
  · exact ⟨.ppi, by simp_all [mem1Cause], rfl⟩
  · exact ⟨.pme, by simp_all [mem1Cause], rfl⟩

private theorem if2_wins {pc : UWord} {e : TranslateResultException} {s : ExceptionSource}
    (h : ExceptionMux.Wins (if2Sources pc e) s) : ∃ c, if2Cause e = some c ∧ s.exc = c.exc := by
  obtain ⟨hmem, hvalid, hhigh⟩ := h
  simp only [if2Sources, List.mem_cons, List.not_mem_nil, or_false, forall_eq_or_imp,
    forall_eq] at hmem hhigh
  rcases hmem with rfl | rfl | rfl
  · exact ⟨.tlbr, by simp_all [if2Cause], rfl⟩
  · exact ⟨.pif, by simp_all [if2Cause], rfl⟩
  · exact ⟨.ppi, by simp_all [if2Cause], rfl⟩

/-- `cause` is what the sources of a stage report when no exception comes in. -/
def Reports (sources : List ExceptionSource) (cause : Option Cause) : Prop :=
  (cause = none ∧ ExceptionMux.stage sources {} = {}) ∨
    ∃ c, cause = some c ∧ (ExceptionMux.stage sources {}).occurred = true ∧
      (ExceptionMux.stage sources {}).code = c.exc

private theorem reports_of_wins {sources : List ExceptionSource} {cause : Option Cause}
    (hwins : ∀ s, ExceptionMux.Wins sources s → ∃ c, cause = some c ∧ s.exc = c.exc)
    (hquiet : (∀ s ∈ sources, s.valid = false) → cause = none) : Reports sources cause := by
  by_cases hraised : ∃ s ∈ sources, s.valid = true
  · obtain ⟨s, hs, hocc, hcode⟩ := ExceptionMux.stage_reports
      (rfl : ({} : ExceptionSignals).occurred = false) hraised
    obtain ⟨c, hc, hexc⟩ := hwins s hs
    exact Or.inr ⟨c, hc, hocc, hcode.trans hexc⟩
  · have hall : ∀ s ∈ sources, s.valid = false := by simpa using hraised
    exact Or.inl ⟨hquiet hall, ExceptionMux.stage_of_quiet hall⟩

private theorem reports_single (valid : Bool) (c : Cause) (va : Option UWord) (n : Nat) :
    Reports [{ valid := valid, exc := c.exc, badVAddr := va, priority := n }]
      (if valid then some c else none) := by
  refine reports_of_wins ?_ (fun h => by simpa using h)
  intro s hs
  obtain rfl := List.mem_singleton.mp hs.mem
  have hvalid : valid = true := hs.valid
  exact ⟨c, by simp [hvalid], rfl⟩

theorem reports_mem1 (e : TranslateResultException) :
    Reports (mem1Sources e) (mem1Cause e) :=
  reports_of_wins (fun _ => mem1_wins) (by simp +contextual [mem1Sources, mem1Cause])

theorem reports_if2 (pc : UWord) (e : TranslateResultException) :
    Reports (if2Sources pc e) (if2Cause e) :=
  reports_of_wins (fun _ => if2_wins) (by simp +contextual [if2Sources, if2Cause])

-- Two stages in a row: the second one counts only when the first was silent.
private theorem reports_chain {first second : List ExceptionSource} {c₁ c₂ : Option Cause}
    (h₁ : Reports first c₁) (h₂ : Reports second c₂) :
    (c₁.or c₂ = none ∧ ExceptionMux.stage second (ExceptionMux.stage first {}) = {}) ∨
      ∃ c, c₁.or c₂ = some c ∧
        (ExceptionMux.stage second (ExceptionMux.stage first {})).occurred = true ∧
        (ExceptionMux.stage second (ExceptionMux.stage first {})).code = c.exc := by
  rcases h₁ with ⟨rfl, hclean⟩ | ⟨c, rfl, hocc, hcode⟩
  · rw [hclean, Option.none_or]
    exact h₂
  · right
    rw [ExceptionMux.stage_of_occurred hocc]
    exact ⟨c, rfl, hocc, hcode⟩

/-- What an access delivers to the handler when `cause` is its cause. -/
private def Access.Delivers (a : Access) : Option Cause → Prop
  | none => a.report.valid = false
  | some c => a.report = { valid := true, code := c.exc, badVA := a.virtAddr,
                           isTLBRefill := a.translation.raiseTLBR }

private theorem memory_report (lsType : LoadStoreType) (isStore : Bool) (va : UWord) (mmu : MMU)
    (csr : TranslateCSR) :
    (Access.memory lsType isStore va mmu csr).Delivers
      (Access.memory lsType isStore va mmu csr).cause := by
  let a := Access.memory lsType isStore va mmu csr
  let sig := ExceptionMux.stage (mem1Sources a.translation)
    (ExceptionMux.stage (memaddrSources lsType va) {})
  have hreport : a.report =
      { valid := sig.occurred, code := sig.code,
        badVA := if sig.occurred then va else (translate va _ _ _ csr).physAddr,
        isTLBRefill := a.translation.raiseTLBR } := rfl
  have hcause : a.cause = (if raiseALE lsType va then some Cause.ale else none).or
      (mem1Cause a.translation) := by
    rw [cause_memory]
    cases raiseALE lsType va <;> rfl
  rcases reports_chain (reports_single (raiseALE lsType va) .ale none 130)
    (reports_mem1 a.translation) with ⟨hnone, hstage⟩ | ⟨c, hsome, hocc, hcode⟩
  · rw [hcause, hnone]
    exact congrArg ExceptionSignals.occurred hstage
  · have hocc' : sig.occurred = true := hocc
    have hcode' : sig.code = c.exc := hcode
    rw [hcause, hsome, Access.Delivers, hreport, hocc', hcode']
    rfl

-- A clean fetch is reported as the decoder finds it, with the refill flag low.
private theorem decode_report {e : ExceptionPayload} (he : e.valid = false) (pc : UWord)
    (d : DecodeFaults) :
    match decodeCause d with
    | none => (commitExcept (decodeExcept e d).valid pc (decodeExcept e d)).valid = false
    | some c => commitExcept (decodeExcept e d).valid pc (decodeExcept e d) =
        { valid := true, code := c.exc, badVA := pc, isTLBRefill := false } := by
  simp only [decodeExcept, he, Bool.false_eq_true, if_false, decodeCause]
  split_ifs
  · rfl
  · rfl
  · rfl
  · rfl
  · simp [commitExcept]

private theorem fetch_report (pc : UWord) (mmu : MMU) (csr : TranslateCSR) (d : DecodeFaults) :
    (Access.fetch pc mmu csr d).Delivers (Access.fetch pc mmu csr d).cause := by
  let a := Access.fetch pc mmu csr d
  let sig := ExceptionMux.stage (if2Sources pc a.translation)
    (ExceptionMux.stage (if1Sources pc) {})
  have hpacket : fetchPacketExcept mmu csr pc =
      { valid := sig.occurred, code := sig.code,
        isTLBRefill := a.translation.raiseTLBR } := rfl
  have hcause : a.cause = ((if pc.getLsbD 0 || pc.getLsbD 1 then some Cause.adef else none).or
      (if2Cause a.translation)).or (decodeCause d) := by
    rw [cause_fetch]
    cases (pc.getLsbD 0 || pc.getLsbD 1) <;> rfl
  rcases reports_chain (reports_single (pc.getLsbD 0 || pc.getLsbD 1) .adef (some pc) 100)
    (reports_if2 pc a.translation) with ⟨hnone, hstage⟩ | ⟨c, hsome, hocc, hcode⟩
  · have hocc' : sig.occurred = false := congrArg ExceptionSignals.occurred hstage
    have hrefill : a.translation.raiseTLBR = false := by
      by_contra h
      simp [if2Cause, Bool.eq_true_of_not_eq_false h] at hnone
    have hclean : (fetchPacketExcept mmu csr pc).valid = false := by rw [hpacket, hocc']
    have hdecode := decode_report hclean pc d
    rw [hcause, hnone, Option.none_or]
    cases hd : decodeCause d with
    | none =>
      rw [hd] at hdecode
      exact hdecode
    | some c =>
      rw [hd] at hdecode
      exact hdecode.trans (by rw [hrefill]; rfl)
  · have hocc' : sig.occurred = true := hocc
    have hcode' : sig.code = c.exc := hcode
    have hreport : a.report = { valid := true, code := c.exc, badVA := pc,
                                isTLBRefill := a.translation.raiseTLBR } := by
      simp only [a, Access.report, decodeExcept, hpacket, hocc', hcode', if_true, commitExcept]
    rw [hcause, hsome]
    exact hreport

private theorem Access.delivers (a : Access) : a.Delivers a.cause := by
  cases a with
  | fetch pc mmu csr d => exact fetch_report pc mmu csr d
  | memory lsType isStore va mmu csr => exact memory_report lsType isStore va mmu csr

/-- An access that has a cause is reported with the code of that cause, with its
own address, and with the refill wire of its translation. -/
theorem Access.report_of_cause {a : Access} {c : Cause} (h : a.cause = some c) :
    a.report = { valid := true, code := c.exc, badVA := a.virtAddr,
                 isTLBRefill := a.translation.raiseTLBR } := by
  have hdelivers := a.delivers
  rwa [h] at hdelivers

/-- An access without a cause raises no exception. -/
theorem Access.report_of_no_cause {a : Access} (h : a.cause = none) : a.report.valid = false := by
  have hdelivers := a.delivers
  rwa [h] at hdelivers

/-- An address error hides the refill; nothing else does. -/
theorem Access.cause_eq_tlbr_iff (a : Access) :
    a.cause = some .tlbr ↔ a.misaligned = false ∧ a.translation.raiseTLBR = true := by
  cases a with
  | fetch pc mmu csr d =>
    rw [cause_fetch]
    simp only [Access.misaligned, if2Cause, decodeCause]
    grind
  | memory lsType isStore va mmu csr =>
    rw [cause_memory]
    simp only [Access.misaligned, mem1Cause]
    grind

theorem Access.cause_ne_none_of_misaligned {a : Access} (h : a.misaligned = true) :
    a.cause ≠ none := by
  cases a with
  | fetch pc mmu csr d =>
    rw [cause_fetch, if_pos (by exact h)]
    exact Option.some_ne_none _
  | memory lsType isStore va mmu csr =>
    rw [cause_memory, if_pos (by exact h)]
    exact Option.some_ne_none _

/-- The refill wire says the same as the cause, unless an address error has
taken precedence. -/
theorem Access.refill_agrees_iff {a : Access} {c : Cause} (h : a.cause = some c) :
    a.translation.raiseTLBR = decide (c = .tlbr) ↔
      ¬(a.misaligned = true ∧ a.translation.raiseTLBR = true) := by
  have htlbr : c = .tlbr ↔ a.misaligned = false ∧ a.translation.raiseTLBR = true := by
    rw [← a.cause_eq_tlbr_iff, h, Option.some_inj]
  rw [Bool.eq_iff_iff, decide_eq_true_iff, htlbr]
  cases a.misaligned <;> cases a.translation.raiseTLBR <;> simp

/-- A payload whose fields come from one cause is taken as that cause demands. -/
theorem ExceptionHandler.takes_of_names (s : ExceptionHandler) (epc va : UWord) (c : Cause)
    {r : ExceptionPayload} (h : r.Names va (some c)) : s.Takes r epc va c := by
  obtain rfl := h
  have hstep := s.step_except { valid := true, code := c.exc, badVA := va,
                                isTLBRefill := decide (c = .tlbr) } epc rfl
  refine ⟨?_, ?_, ?_, ?_, ?_⟩
  · rw [s.jump_except _ epc rfl]
    simp
  · rw [hstep]
    by_cases hc : c = .tlbr <;> simp [hc]
  · rw [hstep]
  · intro hcase
    rw [hstep]
    simp [hcase]
  · intro hcase
    rw [hstep]
    simp [hcase]

/-- The report of an access is consistent exactly when the access is not both
misaligned and a TLB miss. In that case the code says address error, the refill
flag says refill, and the handler enters at the refill address in direct mode
with the code of the address error. -/
theorem Access.consistent_iff (a : Access) :
    a.Consistent ↔ ¬(a.misaligned = true ∧ a.translation.raiseTLBR = true) := by
  cases hc : a.cause with
  | none =>
    refine ⟨fun _ h => cause_ne_none_of_misaligned h.1 hc, fun _ => ⟨?_, ?_⟩⟩
    · rw [hc]
      exact report_of_no_cause hc
    · intro c hc'
      exact absurd (hc.symm.trans hc') (Option.some_ne_none c).symm
  | some c =>
    rw [← refill_agrees_iff hc]
    constructor
    · intro h
      have hnames := h.names
      rw [hc, report_of_cause hc] at hnames
      exact congrArg ExceptionPayload.isTLBRefill hnames
    · intro h
      have hnames : a.report.Names a.virtAddr (some c) := by
        rw [report_of_cause hc, h]
        rfl
      refine ⟨hc ▸ hnames, ?_⟩
      intro c' hc' s epc
      obtain rfl : c = c' := Option.some.inj (hc.symm.trans hc')
      exact s.takes_of_names epc a.virtAddr c hnames

/-- A word load from an address that is neither aligned nor mapped. -/
def misalignedMiss : Access :=
  .memory .word false 0x00400002 {}
    { crmdDA := false, crmdPG := true, crmdDATF := 0, crmdDATM := 0 }

/-- Its report carries the code of the alignment fault and the flag of the refill. -/
theorem misalignedMiss_not_consistent : ¬misalignedMiss.Consistent := by
  intro h
  have hcause : misalignedMiss.cause = some .ale := by decide
  have hrefill : misalignedMiss.report.isTLBRefill = true := by decide
  have hnames := h.names
  rw [hcause] at hnames
  have hflag : misalignedMiss.report.isTLBRefill = false :=
    congrArg ExceptionPayload.isTLBRefill hnames
  rw [hrefill] at hflag
  exact Bool.noConfusion hflag

end NopCore
