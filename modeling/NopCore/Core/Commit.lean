import NopCore.Core.Rob

/-!
# Commit

The three oldest entries are examined together. An instruction may leave the
reorder buffer when it and everything older is complete, when nothing in front
of it redirects the pipeline, and when it is in port 0 or need not be. All
effects other than register mappings belong to port 0.
-/

namespace NopCore

/-- A pop port as commit sees it. -/
structure PopPort where
  valid : Bool := false
  info : ROBEntryInfo := {}
  state : ROBEntryState := {}

namespace PopPort

abbrev uop (p : PopPort) : MicroOp := p.info.uop

end PopPort

structure RegFileMapping where
  addr : Nat
  prevAddr : Nat
  prfAddr : Nat
  deriving DecidableEq, Repr

structure CacheOperation where
  addr : UWord
  sel : CacheSelType
  op : CacheOpType
  deriving DecidableEq, Repr

structure CSRWrite where
  addr : BitVec 14
  data : UWord
  deriving DecidableEq, Repr

structure PredictUpdate where
  predInfo : BranchPredictInfo
  predRecover : PredictRecover
  branchLike : Bool
  isTaken : Bool
  isRet : Bool
  isCall : Bool
  mispredict : Bool
  pc : UWord
  target : UWord

/-- Everything commit looks at besides the pop ports: the interrupt line, the
privileged registers, and the report that an uncached load has reached the end
of the memory pipeline. -/
structure CommitInputs where
  intPending : Bool := false
  handler : ExceptionHandler := {}
  uncachedDone : Bool := false

/-- The state of the uncached-load handshake at port 0. -/
inductive UncachedState
  | stateBoot | execute
  deriving DecidableEq, Repr

namespace Commit

section

variable (ports : Nat → PopPort) (fsm : UncachedState) (inp : CommitInputs)

/-- Interrupts are masked while an uncached load is executing. -/
def hasExcept : Bool :=
  (ports 0).state.except.valid || (inp.intPending && fsm != .execute)

/-- The pipeline must restart behind the instruction at port 0. -/
def linearRecover : Bool :=
  (ports 0).uop.flushState || (!(ports 0).uop.branchLike && (ports 0).state.mispredict)

def completeMask (i : Nat) : Bool := (List.range (i + 1)).all fun k => (ports k).state.complete

def excMask (i : Nat) : Bool :=
  i == 0 ||
    !(List.range (i + 1)).any fun k => (ports k).state.except.valid || linearRecover ports

def uniqueMask (i : Nat) : Bool :=
  !(List.range i).any fun k => (ports (k + 1)).uop.uniqueRetire

def recoverMask (i : Nat) : Bool := !(List.range i).any fun k => (ports k).state.mispredict

/-- A complete uncached load waits at port 0 until it has been executed. -/
def startUncached : Bool :=
  fsm == .stateBoot && (ports 0).valid && (ports 0).uop.isLoad &&
    (ports 0).state.lsuUncached && (ports 0).state.complete && !hasExcept ports fsm inp

def uncachedMask : Bool :=
  match fsm with
  | .stateBoot => !startUncached ports fsm inp
  | .execute => inp.uncachedDone

def nextFsm : UncachedState :=
  match fsm with
  | .stateBoot => if startUncached ports fsm inp then .execute else .stateBoot
  | .execute => if inp.uncachedDone then .stateBoot else .execute

def ready (i : Nat) : Bool :=
  completeMask ports i && excMask ports i && uniqueMask ports i && recoverMask ports i &&
    uncachedMask ports fsm inp

/-- The instruction at port `i` leaves the reorder buffer. -/
def fire (i : Nat) : Bool := (ports i).valid && ready ports fsm inp i

/-- The instruction at port `i` retires: it leaves and its effects are made. -/
def retires (i : Nat) : Bool := fire ports fsm inp i && !hasExcept ports fsm inp

/-- The number of ports that fire before the first that does not. -/
def popCount : Nat :=
  if !fire ports fsm inp 0 then 0
  else if !fire ports fsm inp 1 then 1
  else if !fire ports fsm inp 2 then 2
  else 3

def needFlush : Bool :=
  fire ports fsm inp 0 &&
    (hasExcept ports fsm inp || (ports 0).state.mispredict || linearRecover ports)

def except : ExceptionPayload :=
  let e := (ports 0).state.except
  { e with
    valid := fire ports fsm inp 0 && hasExcept ports fsm inp
    badVA := if (ports 0).info.frontendExc then (ports 0).uop.pc else e.badVA }

def ertn : Bool := retires ports fsm inp 0 && (ports 0).uop.isErtn

def handlerRequest : ExceptionHandler.Request where
  except := except ports fsm inp
  ertn := ertn ports fsm inp
  epc := (ports 0).uop.pc
  intPending := inp.intPending

/-- The target of a mispredicted branch. -/
def jumpTarget : UWord :=
  let p := ports 0
  if p.uop.isJump || p.uop.isJR then p.state.intResult
  else if p.state.actualTaken then p.state.intResult
  else p.uop.pc + 4

/-- The redirection of the fetch pipeline. The assignments of commit and of the
exception handler exclude each other. -/
def jumpInterface : Option UWord :=
  if retires ports fsm inp 0 && (ports 0).state.mispredict && (ports 0).uop.branchLike then
    some (jumpTarget ports)
  else if retires ports fsm inp 0 && linearRecover ports && !(ports 0).uop.isErtn then
    some ((ports 0).uop.pc + 4)
  else inp.handler.jump (handlerRequest ports fsm inp)

def arfCommit (i : Nat) : Option RegFileMapping :=
  if retires ports fsm inp i && (ports i).uop.doRegWrite then
    some { addr := (ports i).uop.wbAddr
           prevAddr := (ports i).info.rename.wPrevReg
           prfAddr := (ports i).info.rename.wReg }
  else none

def cacheOp : Option CacheOperation :=
  let p := ports 0
  if retires ports fsm inp 0 && p.uop.operateCache then
    some { addr := p.state.except.badVA
           op := .fromBits (p.state.intResult.extractLsb' 0 2)
           sel := .fromBits (p.state.intResult.extractLsb' 2 2) }
  else none

def doWait : Bool := retires ports fsm inp 0 && (ports 0).uop.isWait

def tlbOp : TLBOpType := if retires ports fsm inp 0 then (ports 0).uop.tlbOp else .none

def csrWrite : Option CSRWrite :=
  if retires ports fsm inp 0 && (ports 0).uop.writeCSR then
    some { addr := (ports 0).uop.inst.extractLsb' 10 14, data := (ports 0).state.intResult }
  else none

/-- An uncached load is released to the bus through its store-buffer entry; a
store-conditional whose link has been lost does not commit its entry. -/
def commitStore : Bool :=
  startUncached ports fsm inp ||
    (retires ports fsm inp 0 && (ports 0).uop.isStore &&
      !((ports 0).uop.isSC && !inp.handler.llbctlLLBIT))

/-- The link bit after commit: set by a load-linked, cleared by a
store-conditional. -/
def llbit : Bool :=
  if retires ports fsm inp 0 && (ports 0).uop.isSC then false
  else (retires ports fsm inp 0 && (ports 0).uop.isLL) || inp.handler.llbctlLLBIT

def predUpdate : Option PredictUpdate :=
  let p := ports 0
  if retires ports fsm inp 0 && (p.uop.branchLike || p.uop.predInfo.predictBranch) then
    some
      { predInfo := p.uop.predInfo
        predRecover := p.uop.predRecover
        branchLike := p.uop.branchLike
        isTaken := (p.state.mispredict ^^ p.uop.predInfo.predictTaken) || p.uop.isJump ||
          p.uop.isJR
        isRet := p.uop.inst == 0x4c000020#32
        isCall := (p.uop.isJR && p.uop.inst.extractLsb' 0 5 == 1#5) ||
          (p.uop.isJump && p.uop.inst.getLsbD 26)
        mispredict := p.state.mispredict
        pc := p.uop.pc
        target := p.state.intResult }
  else none

end

variable {ports : Nat → PopPort} {fsm : UncachedState} {inp : CommitInputs}

theorem popCount_le : popCount ports fsm inp ≤ retireWidth := by
  simp only [popCount, retireWidth]
  split_ifs <;> omega

theorem fire_of_lt_popCount {k : Nat} (h : k < popCount ports fsm inp) :
    fire ports fsm inp k = true := by
  have hk : k < 3 := Nat.lt_of_lt_of_le h popCount_le
  unfold popCount at h
  split_ifs at h with h0 h1 h2
  · omega
  · obtain rfl : k = 0 := by omega
    simpa using h0
  · obtain rfl | rfl : k = 0 ∨ k = 1 := by omega
    · simpa using h0
    · simpa using h1
  · obtain rfl | rfl | rfl : k = 0 ∨ k = 1 ∨ k = 2 := by omega
    · simpa using h0
    · simpa using h1
    · simpa using h2

private theorem all_range_of_succ {p : Nat → Bool} {k : Nat}
    (h : (List.range (k + 1)).all p = true) : (List.range k).all p = true := by
  simp only [List.all_eq_true, List.mem_range] at h ⊢
  exact fun j hj => h j (by omega)

private theorem any_range_of_succ {p : Nat → Bool} {k : Nat}
    (h : (List.range (k + 1)).any p = false) : (List.range k).any p = false := by
  simp only [List.any_eq_false, List.mem_range] at h ⊢
  exact fun j hj => h j (by omega)

/-- A port fires only together with the older ones. -/
theorem fire_of_fire_succ {k : Nat} (hvalid : (ports (k + 1)).valid = true → (ports k).valid = true)
    (h : fire ports fsm inp (k + 1) = true) : fire ports fsm inp k = true := by
  simp only [fire, ready, Bool.and_eq_true] at h ⊢
  obtain ⟨hv, ⟨⟨⟨hcomplete, hexc⟩, hunique⟩, hrecover⟩, huncached⟩ := h
  refine ⟨hvalid hv, ⟨⟨⟨all_range_of_succ hcomplete, ?_⟩, ?_⟩, ?_⟩, huncached⟩
  · cases k with
    | zero => rfl
    | succ k =>
      simp only [excMask, Bool.or_eq_true, beq_iff_eq, Bool.not_eq_true'] at hexc ⊢
      exact .inr (any_range_of_succ (hexc.resolve_left (by omega)))
  · simp only [uniqueMask, Bool.not_eq_true'] at hunique ⊢
    exact any_range_of_succ hunique
  · simp only [recoverMask, Bool.not_eq_true'] at hrecover ⊢
    exact any_range_of_succ hrecover

theorem fire_iff_lt_popCount {k : Nat} (hk : k < retireWidth)
    (hvalid : ∀ j, (ports (j + 1)).valid = true → (ports j).valid = true) :
    fire ports fsm inp k = true ↔ k < popCount ports fsm inp := by
  refine ⟨fun h => ?_, fire_of_lt_popCount⟩
  have h01 : fire ports fsm inp 1 = true → fire ports fsm inp 0 = true :=
    fire_of_fire_succ (hvalid 0)
  have h12 : fire ports fsm inp 2 = true → fire ports fsm inp 1 = true :=
    fire_of_fire_succ (hvalid 1)
  have hk : k < 3 := hk
  obtain rfl | rfl | rfl : k = 0 ∨ k = 1 ∨ k = 2 := by omega
  · simp only [popCount, h]
    split_ifs <;> simp_all
  · simp only [popCount, h, h01 h]
    split_ifs <;> simp_all
  · simp [popCount, h, h12 h, h01 (h12 h)]

theorem popCount_eq_zero (h : fire ports fsm inp 0 = false) : popCount ports fsm inp = 0 := by
  simp [popCount, h]

theorem popCount_pos (h : fire ports fsm inp 0 = true) : 0 < popCount ports fsm inp := by
  simp only [popCount, h, Bool.not_true, Bool.false_eq_true, if_false]
  split_ifs <;> omega

/-- When something leaves, no uncached load is waiting any more. -/
theorem nextFsm_of_fire {k : Nat} (h : fire ports fsm inp k = true) :
    nextFsm ports fsm inp = .stateBoot := by
  simp only [fire, ready, uncachedMask, Bool.and_eq_true] at h
  cases fsm with
  | stateBoot =>
    have hstart : startUncached ports .stateBoot inp = false := by simpa using h.2.2
    simp [nextFsm, hstart]
  | execute =>
    have hdone : inp.uncachedDone = true := h.2.2
    simp [nextFsm, hdone]

/-- An instruction that must retire alone leaves only from port 0. -/
theorem eq_zero_of_uniqueRetire {j : Nat} (hfire : fire ports fsm inp j = true)
    (hunique : (ports j).uop.uniqueRetire = true) : j = 0 := by
  by_contra hj
  obtain ⟨k, rfl⟩ := Nat.exists_eq_succ_of_ne_zero hj
  have hmask : uniqueMask ports (k + 1) = true := by
    simp only [fire, ready, Bool.and_eq_true] at hfire
    exact hfire.2.1.1.2
  simp only [uniqueMask, Bool.not_eq_true', List.any_eq_false, List.mem_range] at hmask
  exact hmask k (Nat.lt_succ_self k) hunique

/-- A flush always says where to go on. -/
theorem jump_of_needFlush (h : needFlush ports fsm inp = true) :
    (jumpInterface ports fsm inp).isSome = true := by
  simp only [needFlush, Bool.and_eq_true] at h
  obtain ⟨hfire, hcause⟩ := h
  cases hexc : hasExcept ports fsm inp with
  | true =>
    have hretires : retires ports fsm inp 0 = false := by simp [retires, hexc]
    simp [jumpInterface, hretires, ExceptionHandler.jump, handlerRequest, except, hfire, hexc]
  | false =>
    have hretires : retires ports fsm inp 0 = true := by simp [retires, hfire, hexc]
    simp only [jumpInterface, hretires, Bool.true_and]
    split_ifs with hmis hlin
    · rfl
    · rfl
    · have hertn : (ports 0).uop.isErtn = true := by
        by_contra hno
        simp only [linearRecover, hexc] at hmis hlin hcause
        grind
      simp [ExceptionHandler.jump, handlerRequest, except, hexc, ertn, hretires, hertn]

end Commit

end NopCore
