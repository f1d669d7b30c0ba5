import NopCore.Core.Resolution
import NopCore.Lib.Trail

/-!
# The path of the program

The sequential machine has a program counter besides its registers. Behind a branch it goes
on where the operands say, behind anything else at the next word. The core fetches ahead of
it where the predictions say. Commit holds on to the path: it retires what lies on it, and
flushes the rest together with the first instruction behind which the fetch has left it. An
exception or an interrupt comes between two instructions, and the address that is saved is
the one where the program goes on.

An instruction that is no branch may have been fetched with the prediction of one. The entry
then has to keep the prediction until it retires.
-/

namespace NopCore

/-! ## The sequential machine -/

/-- Where the machine is, and its registers. -/
structure ArchState where
  pc : UWord
  regs : Nat → UWord

/-- Where the machine goes on behind an instruction. -/
structure MicroOp.GoesTo (uop : MicroOp) (regs : Nat → UWord) (target : UWord) : Prop where
  branch : ∀ br : BranchInst, br.encoding.covers uop.inst = true →
    target = br.nextPC uop.inst uop.pc (regs uop.fields.rj) (regs uop.fields.rd)
  next : (∀ br : BranchInst, br.encoding.covers uop.inst = false) → target = uop.pc + 4

/-- What commit does: an instruction retires, one of them returns to the address in `ERA`, or
the program is left for an entry of the handler. -/
inductive CommitEvent
  | retire (uop : MicroOp)
  | ertn (uop : MicroOp) (era : UWord)
  | trap (epc entry : UWord)

/-- One step of the sequential machine. -/
inductive CommitEvent.Step : CommitEvent → ArchState → ArchState → Prop
  | retire {uop : MicroOp} {a b : ArchState} : uop.pc = a.pc → uop.Executes a.regs b.regs →
    uop.GoesTo a.regs b.pc → Step (.retire uop) a b
  | ertn {uop : MicroOp} {a b : ArchState} : uop.isErtn = true → uop.pc = a.pc →
    uop.Executes a.regs b.regs → Step (.ertn uop b.pc) a b
  | trap {a b : ArchState} : b.regs = a.regs → Step (.trap a.pc b.pc) a b

namespace OperandCore

open DispatchCore WakeupCore

variable (useEarlyOut : Bool) (s : OperandCore) (i : Inputs)

def ports : Nat → PopPort := s.wakeup.dispatch.core.ports

def commitInputs : CommitInputs := (s.dispatchInputs useEarlyOut i).commit

def hasExcept : Bool :=
  Commit.hasExcept s.ports s.wakeup.dispatch.core.fsm (s.commitInputs useEarlyOut i)

def fires : Bool := Commit.fire s.ports s.wakeup.dispatch.core.fsm (s.commitInputs useEarlyOut i) 0

/-- What commit does in a cycle. -/
def events : List CommitEvent :=
  let commit := s.commitInputs useEarlyOut i
  if s.hasExcept useEarlyOut i then
    if s.fires useEarlyOut i then
      [.trap (s.ports 0).uop.pc (commit.handler.eentry
        (Commit.handlerRequest s.ports s.wakeup.dispatch.core.fsm commit))]
    else []
  else (s.executed useEarlyOut i).map fun uop =>
    if uop.isErtn then .ertn uop commit.handler.eraPC else .retire uop

/-- The address from which the next instruction to leave RENAME has been fetched. -/
def fetchPC : UWord :=
  match s.wakeup.dispatch.renamed.getLast? with
  | some d => d.uop.predictedPC
  | none => s.wakeup.dispatch.core.redirected.getD 0x1c000000

/-- The address of the oldest instruction that has not retired. -/
def archPC : UWord :=
  match s.wakeup.dispatch.renamed[s.wakeup.dispatch.popped]? with
  | some d => d.uop.pc
  | none => s.fetchPC

def arch : ArchState := ⟨s.archPC, s.archRegs⟩

/-- The instructions that leave RENAME have been fetched one behind the other. -/
def Streams : Prop :=
  Trail.Follows (fun d : DispatchSlot => d.uop.pc) (fun d => d.uop.predictedPC) s.fetchPC
    (s.leaving useEarlyOut i)

/-- A false prediction of an instruction that retires has been kept: it flushes by itself, or
the pipe with the branch unit has executed it, or none. -/
def Repairs : Prop :=
  ∀ j < retireWidth,
    Commit.retires s.ports s.wakeup.dispatch.core.fsm (s.commitInputs useEarlyOut i) j = true →
      (s.ports j).uop.branchLike = false → (s.ports j).uop.predInfo.predictTaken = true →
        (s.ports j).uop.flushState = true ∨
          s.wakeup.dispatch.core.executedBy (s.wakeup.dispatch.core.entry j) = none ∨
          s.wakeup.dispatch.core.executedBy (s.wakeup.dispatch.core.entry j) = some .int0

instance : Decidable (s.Repairs useEarlyOut i) :=
  let kept (j : Nat) : Bool :=
    !Commit.retires s.ports s.wakeup.dispatch.core.fsm (s.commitInputs useEarlyOut i) j ||
      (s.ports j).uop.branchLike || !(s.ports j).uop.predInfo.predictTaken ||
      (s.ports j).uop.flushState ||
      (s.wakeup.dispatch.core.executedBy (s.wakeup.dispatch.core.entry j)).all (· == .int0)
  decidable_of_iff (∀ j < retireWidth, kept j = true) (by
    refine forall_congr' fun j => forall_congr' fun _ => ?_
    simp only [kept]
    cases s.wakeup.dispatch.core.executedBy (s.wakeup.dispatch.core.entry j) <;>
      simp [or_assoc, imp_iff_not_or])

/-! ## Where the fetch is -/

/-- Since the last flush the instructions have been fetched one behind the other, from the
address where the fetch was sent. -/
def Fetched (s : OperandCore) (c : UWord) : Prop :=
  Trail.Follows (fun d : DispatchSlot => d.uop.pc) (fun d => d.uop.predictedPC) c
      s.wakeup.dispatch.renamed ∧
    (s.wakeup.dispatch.renamed = [] → s.wakeup.dispatch.core.redirected = some c)

/-- The address behind the first of the instructions renamed since the last flush. -/
def pathPC (s : OperandCore) (c : UWord) (n : Nat) : UWord :=
  Trail.behind (fun d : DispatchSlot => d.uop.predictedPC) c (s.wakeup.dispatch.renamed.take n)

variable {useEarlyOut s i} {c : UWord}

theorem Fetched.fetchPC_eq (h : s.Fetched c) : s.fetchPC =
    Trail.behind (fun d : DispatchSlot => d.uop.predictedPC) c s.wakeup.dispatch.renamed := by
  rw [fetchPC]
  cases hlast : s.wakeup.dispatch.renamed.getLast? with
  | none =>
    have hnone := List.getLast?_eq_none_iff.mp hlast
    rw [hnone, h.2 hnone]
    rfl
  | some d =>
    obtain ⟨front, hfront⟩ := List.getLast?_eq_some_iff.mp hlast
    rw [hfront, Trail.behind_append]
    rfl

theorem Fetched.archPC_eq (h : s.Fetched c) :
    s.archPC = s.pathPC c s.wakeup.dispatch.popped := by
  rw [archPC, pathPC]
  cases hd : s.wakeup.dispatch.renamed[s.wakeup.dispatch.popped]? with
  | some d => exact h.1.addr_eq hd
  | none =>
    rw [List.getElem?_eq_none_iff] at hd
    rw [List.take_of_length_le hd]
    exact h.fetchPC_eq

/-- Without a flush, what leaves RENAME goes behind what has been renamed. -/
theorem renamed_step
    (hflush : s.wakeup.dispatch.needFlush (s.dispatchInputs useEarlyOut i) = false) :
    (s.step useEarlyOut i).wakeup.dispatch.renamed =
      s.wakeup.dispatch.renamed ++ s.leaving useEarlyOut i :=
  WakeupCore.renamed_step hflush

theorem popped_step
    (hflush : s.wakeup.dispatch.needFlush (s.dispatchInputs useEarlyOut i) = false) :
    (s.step useEarlyOut i).wakeup.dispatch.popped =
      s.wakeup.dispatch.popped + s.wakeup.dispatch.popCount (s.dispatchInputs useEarlyOut i) :=
  WakeupCore.popped_step hflush

theorem retired_of_clean (hclean : s.hasExcept useEarlyOut i = false) :
    s.retired useEarlyOut i = s.wakeup.dispatch.rename.inFlight.take
      (s.wakeup.dispatch.popCount (s.dispatchInputs useEarlyOut i)) :=
  if_neg (ne_true_of_eq_false hclean)

/-- A cycle without a flush goes on from where the fetch was. -/
theorem Fetched.step (h : s.Fetched c) (hstreams : s.Streams useEarlyOut i)
    (hflush : s.wakeup.dispatch.needFlush (s.dispatchInputs useEarlyOut i) = false) :
    (s.step useEarlyOut i).Fetched c := by
  refine ⟨?_, fun hnone => ?_⟩
  · rw [renamed_step hflush]
    refine h.1.append ?_
    rw [← h.fetchPC_eq]
    exact hstreams
  · rw [renamed_step hflush, List.append_eq_nil_iff] at hnone
    have hpush : s.wakeup.dispatch.issued (s.dispatchInputs useEarlyOut i) = [] := by
      rw [← pushPort_leaving, show s.wakeup.dispatch.leaving _ = [] from hnone.2]
      rfl
    change (if s.wakeup.dispatch.needFlush (s.dispatchInputs useEarlyOut i) then _
      else if (s.wakeup.dispatch.issued (s.dispatchInputs useEarlyOut i)).isEmpty then
        s.wakeup.dispatch.core.redirected else none) = some c
    rw [hflush, if_neg Bool.false_ne_true, hpush]
    exact h.2 hnone.1

theorem Fetched.pathPC_step (hflush : s.wakeup.dispatch.needFlush
      (s.dispatchInputs useEarlyOut i) = false) {n : Nat}
    (hn : n ≤ s.wakeup.dispatch.renamed.length) :
    (s.step useEarlyOut i).pathPC c n = s.pathPC c n := by
  rw [pathPC, pathPC, renamed_step hflush, List.take_append_of_le_length hn]

/-- A flush sends the fetch to the target of commit. -/
theorem fetched_of_flush {target : UWord} (hflush : s.wakeup.dispatch.needFlush
      (s.dispatchInputs useEarlyOut i) = true)
    (hjump : Commit.jumpInterface s.ports s.wakeup.dispatch.core.fsm
      (s.commitInputs useEarlyOut i) = some target) :
    (s.step useEarlyOut i).Fetched target ∧ (s.step useEarlyOut i).archPC = target := by
  have hrenamed : (s.step useEarlyOut i).wakeup.dispatch.renamed = [] := if_pos hflush
  have hredirected : (s.step useEarlyOut i).wakeup.dispatch.core.redirected = some target := by
    change (if s.wakeup.dispatch.needFlush (s.dispatchInputs useEarlyOut i) then
      Commit.jumpInterface s.ports s.wakeup.dispatch.core.fsm (s.commitInputs useEarlyOut i)
      else _) = _
    rw [if_pos hflush, hjump]
  refine ⟨⟨?_, fun _ => hredirected⟩, ?_⟩
  · rw [hrenamed]
    trivial
  · rw [archPC, fetchPC, hrenamed, hredirected]
    rfl

/-! ## What retires -/

/-- An instruction that retires, with what the reorder buffer has on it. -/
structure Retires (useEarlyOut : Bool) (s : OperandCore) (i : Inputs) (m : Nat)
    (d : DispatchSlot) : Prop where
  clean : s.hasExcept useEarlyOut i = false
  lt : m < s.wakeup.dispatch.popCount (s.dispatchInputs useEarlyOut i)
  renamed : s.wakeup.dispatch.renamed[s.wakeup.dispatch.popped + m]? = some d
  port : s.ports m = { valid := true, info := d.pushPort.info, state := s.entryState d }
  complete : (s.entryState d).complete = true
  except : (s.entryState d).except.valid = false

namespace Retires

variable {m : Nat} {d : DispatchSlot}

theorem of_retired (h : s.Results) {p : PushPort}
    (hp : (s.retired useEarlyOut i)[m]? = some p) :
    ∃ d, s.Retires useEarlyOut i m d ∧ d.pushPort = p := by
  obtain ⟨hclean, hlt, d, hd, hport⟩ := h.recorded.joined.dispatch.retired_getElem? hp
  obtain ⟨d', hd', hshown, hcomplete, hexcept, -⟩ := h.retires useEarlyOut hclean hlt
  obtain rfl := Option.some.inj (hd.symm.trans hd')
  exact ⟨d, ⟨hclean, hlt, hd, hshown, hcomplete, hexcept⟩, hport⟩

variable (h : s.Retires useEarlyOut i m d)

include h

theorem uop : (s.ports m).uop = d.uop := congrArg PopPort.uop h.port

theorem retires : Commit.retires s.ports s.wakeup.dispatch.core.fsm
    (s.commitInputs useEarlyOut i) m = true := by
  have hfire : Commit.fire s.ports s.wakeup.dispatch.core.fsm (s.commitInputs useEarlyOut i) m =
    true := Commit.fire_of_lt_popCount h.lt
  have hclean := h.clean
  rw [hasExcept] at hclean
  rw [Commit.retires, hfire, hclean]
  rfl

/-- What must retire alone is at the head. -/
theorem eq_zero (hunique : d.uop.uniqueRetire = true) : m = 0 := by
  rw [← h.uop] at hunique
  exact Commit.eq_zero_of_uniqueRetire (Commit.fire_of_lt_popCount h.lt) hunique

theorem inFlight (hinv : s.wakeup.dispatch.Inv) :
    (s.retired useEarlyOut i)[m]? = some d.pushPort := by
  rw [retired_of_clean h.clean, List.getElem?_take, if_pos h.lt, hinv.inFlight, List.getElem?_map,
    List.getElem?_drop, h.renamed]
  rfl

end Retires

/-! ## Operands at commit -/

namespace Sequenced

variable (h : s.Sequenced useEarlyOut)

include h

/-- The head of the reorder buffer has been given the architectural registers. -/
theorem head_operand {d : DispatchSlot} (hd : s.Retires useEarlyOut i 0 d) {j : Nat} {v : UWord}
    (hv : s.Supplies (operand d.issueSlot.rRegs j) v) : v = s.archRegs (d.uop.readAddr j) := by
  have hoperand := h.operand_retired (hd.inFlight h.joined.dispatch) j
  rw [List.take_zero] at hoperand
  have hoperand : operand d.issueSlot.rRegs j =
      s.wakeup.dispatch.rename.abs.map (d.uop.readAddr j) := hoperand
  have hread := d.uop.readAddr_lt j
  have hsettled : s.Settled (s.wakeup.dispatch.rename.abs.map (d.uop.readAddr j)) := by
    rcases Nat.eq_zero_or_pos (d.uop.readAddr j) with hzero | hpos
    · rw [hzero]
      exact h.results.settled_zero
    · exact h.results.committed _ (RenameStage.mem_archRegs.mpr ⟨hpos, hread⟩)
  rw [hoperand] at hv
  rw [archRegs, if_pos hread]
  exact hv.unique (settled_iff.mp hsettled)

/-- A branch that retires has been resolved by the architectural registers. -/
theorem resolved_head (hres : s.Resolved) {d : DispatchSlot} (hd : s.Retires useEarlyOut i 0 d)
    {br : BranchInst} (hcovers : br.encoding.covers d.uop.inst = true) :
    let rj := s.archRegs d.uop.fields.rj
    let rd := s.archRegs d.uop.fields.rd
    (s.entryState d).actualTaken = br.taken rj rd ∧
      (s.entryState d).intResult = br.target d.uop.inst d.uop.pc rj ∧
      ((s.entryState d).mispredict = true ↔ BranchInst.Mispredicted d.uop.predInfo
        (br.taken rj rd) (br.target d.uop.inst d.uop.pc rj)) := by
  intro rj rd
  have hdec := h.joined.decoded.renamed d (List.mem_of_getElem? hd.renamed)
  have hdecodes := BranchInst.decodes_of_isDecoded hdec hcovers
  obtain ⟨data, hresolved, hdata⟩ :=
    hres.entries _ d (Nat.le_add_right _ 0) hd.renamed hdecodes.branchLike hd.complete hd.except
  have hrj : br.signals.useRj = true → data 0 = rj := fun huse =>
    h.head_operand hd (hdata 0 (by decide) (BranchInst.useRj_decode hdec hcovers huse))
  have hrd : br.signals.useRd = true → data 1 = rd := by
    intro huse
    have hused : IssueQueue.int.uses d.uop 1 = true := by
      change (d.uop.useRk || d.uop.useRd) = true
      rw [hdecodes.useRd, huse, Bool.or_true]
    have hread : d.uop.readAddr 1 = d.uop.fields.rd := by
      rw [MicroOp.readAddr, if_neg Nat.one_ne_zero, hdecodes.useRk, if_neg Bool.false_ne_true]
    rw [h.head_operand hd (hdata 1 (by decide) hused), hread]
  have htaken : br.taken (data 0) (data 1) = br.taken rj rd := BranchInst.taken_congr hrj hrd
  have htarget : br.target d.uop.inst d.uop.pc (data 0) = br.target d.uop.inst d.uop.pc rj :=
    BranchInst.target_congr hrj
  have hresolved : d.uop.ResolvedBy data (s.entryState d) := hresolved
  have hthis := hresolved br hcovers
  rw [htaken, htarget] at hthis
  exact hthis

/-- The mispredict bit of an instruction that is no branch. -/
theorem mispredict_retired {m : Nat} {d : DispatchSlot} (hd : s.Retires useEarlyOut i m d)
    (hbranch : d.uop.branchLike = false) : (s.entryState d).mispredict =
      CommitCore.keptPrediction d.uop
        (s.wakeup.dispatch.core.executedBy (s.wakeup.dispatch.core.entry m)) := by
  have hdispatch := h.joined.dispatch
  have hcore : s.wakeup.dispatch.core.Inv := h.joined.core ▸ h.joined.memory.inStep.order.core
  have hlength := hdispatch.length
  have hlt := lt_renamed hd.renamed
  have hentry := hdispatch.entry_eq (Nat.le_add_right s.wakeup.dispatch.popped m)
  rw [Nat.add_sub_cancel_left, ← hdispatch.robIdx _ d hd.renamed] at hentry
  have hinfo := hdispatch.rob _ d (Nat.le_add_right _ m) hd.renamed
  have hbit := hcore.mispredict m (by omega)
  rw [hentry, hinfo] at hbit
  rw [hentry]
  exact hbit hbranch

end Sequenced

/-! ## Where commit goes on -/

namespace Retires

variable {m : Nat} {d : DispatchSlot}

/-- The head of the reorder buffer flushes what is behind it. -/
theorem needFlush_eq (h : s.Retires useEarlyOut i 0 d) :
    s.wakeup.dispatch.needFlush (s.dispatchInputs useEarlyOut i) =
      ((s.entryState d).mispredict || d.uop.flushState) := by
  have hfire : Commit.fire s.ports s.wakeup.dispatch.core.fsm (s.commitInputs useEarlyOut i) 0 =
    true := Commit.fire_of_lt_popCount h.lt
  have hclean := h.clean
  rw [hasExcept] at hclean
  change Commit.needFlush s.ports s.wakeup.dispatch.core.fsm (s.commitInputs useEarlyOut i) = _
  have hport := h.port
  rw [Commit.needFlush, Commit.linearRecover, hfire, hclean, hport]
  cases hmispredict : (s.entryState d).mispredict
  · cases d.uop.branchLike <;> simp [PopPort.uop, PushPort.info, DispatchSlot.pushPort]
  · simp

/-- Behind an instruction that is no branch, commit sends the fetch to the next word, behind
`ERTN` to the address in `ERA`. -/
theorem jump_of_linear (h : s.Retires useEarlyOut i 0 d) (hbranch : d.uop.branchLike = false)
    (hflush : s.wakeup.dispatch.needFlush (s.dispatchInputs useEarlyOut i) = true) :
    Commit.jumpInterface s.ports s.wakeup.dispatch.core.fsm (s.commitInputs useEarlyOut i) =
      if d.uop.isErtn then some (s.commitInputs useEarlyOut i).handler.eraPC
      else some (d.uop.pc + 4) := by
  have hretires := h.retires
  have huop := h.uop
  have hstate : (s.ports 0).state = s.entryState d := congrArg PopPort.state h.port
  rw [h.needFlush_eq, Bool.or_eq_true] at hflush
  have hlinear : Commit.linearRecover s.ports = true := by
    rw [Commit.linearRecover, huop, hstate, hbranch]
    simpa using hflush.symm
  have hclean := h.clean
  rw [hasExcept] at hclean
  rw [Commit.jumpInterface, hretires, huop, hbranch, hlinear]
  cases hertn : d.uop.isErtn <;> simp [ExceptionHandler.jump, Commit.handlerRequest,
    Commit.except, Commit.ertn, hclean, hretires, huop, hertn]

theorem flushState_of_ertn {uop : MicroOp} (h : uop.isErtn = true) : uop.flushState = true := by
  simp [MicroOp.flushState, h]

theorem uniqueRetire_of_flushState {uop : MicroOp} (h : uop.flushState = true) :
    uop.uniqueRetire = true := by
  simp [MicroOp.uniqueRetire, h]

theorem uniqueRetire_of_branchLike {uop : MicroOp} (h : uop.branchLike = true) :
    uop.uniqueRetire = true := by
  simp [MicroOp.uniqueRetire, h]

end Retires

namespace Sequenced

variable (h : s.Sequenced useEarlyOut) {m : Nat} {d : DispatchSlot}

include h

/-- Behind what is not flushed the program goes on where the prediction says. -/
theorem goesTo_predictedPC (hres : s.Resolved) (hi : s.Legal useEarlyOut i)
    (hrepairs : s.Repairs useEarlyOut i) (hd : s.Retires useEarlyOut i m d)
    (hflush : s.wakeup.dispatch.needFlush (s.dispatchInputs useEarlyOut i) = false) :
    d.uop.isErtn = false ∧ d.uop.GoesTo (s.regsAfter useEarlyOut i m) d.uop.predictedPC := by
  have hdec := h.joined.decoded.renamed d (List.mem_of_getElem? hd.renamed)
  have hcalm : d.uop.uniqueRetire = true →
      (s.entryState d).mispredict = false ∧ d.uop.flushState = false := by
    intro hunique
    obtain rfl := hd.eq_zero hunique
    rwa [hd.needFlush_eq, Bool.or_eq_false_iff] at hflush
  have hstays : d.uop.flushState = false := by
    by_contra hset
    exact hset (hcalm (Retires.uniqueRetire_of_flushState (Bool.of_not_eq_false hset))).2
  refine ⟨?_, fun br hcovers => ?_, fun hnone => ?_⟩
  · by_contra hertn
    rw [Retires.flushState_of_ertn (Bool.of_not_eq_false hertn)] at hstays
    cases hstays
  · have hunique := Retires.uniqueRetire_of_branchLike
      (BranchInst.decodes_of_isDecoded hdec hcovers).branchLike
    obtain rfl := hd.eq_zero hunique
    rw [h.regsAfter_zero hi]
    apply BranchInst.predictedPC_eq
    rw [← (h.resolved_head hres hd hcovers).2.2, (hcalm hunique).1]
    exact Bool.false_ne_true
  · have hbranch : d.uop.branchLike = false := by
      by_contra hset
      obtain ⟨br, hcovers⟩ := MicroOp.exists_branch hdec (Bool.of_not_eq_false hset)
      rw [hnone br] at hcovers
      cases hcovers
    rw [MicroOp.predictedPC]
    cases htaken : d.uop.predInfo.predictTaken with
    | false => rfl
    | true =>
      -- the prediction has been kept, and the mispredict bit is set
      exfalso
      have hunique := MicroOp.uniqueRetire_of_predictTaken _ htaken
      obtain rfl := hd.eq_zero hunique
      have hbit := h.mispredict_retired hd hbranch
      rw [(hcalm hunique).1] at hbit
      have huop := hd.uop
      rcases hrepairs 0 (by decide) hd.retires (huop ▸ hbranch) (huop ▸ htaken) with
        hself | hunit | hunit
      · rw [huop, hstays] at hself
        cases hself
      · rw [hunit, CommitCore.keptPrediction, htaken] at hbit
        cases hbit
      · rw [hunit, CommitCore.keptPrediction, htaken] at hbit
        cases hbit

/-- Behind a branch, commit sends the fetch to where the operands say. -/
theorem jump_of_branch (hres : s.Resolved) (hd : s.Retires useEarlyOut i 0 d)
    (hflush : s.wakeup.dispatch.needFlush (s.dispatchInputs useEarlyOut i) = true)
    {br : BranchInst} (hcovers : br.encoding.covers d.uop.inst = true) :
    Commit.jumpInterface s.ports s.wakeup.dispatch.core.fsm (s.commitInputs useEarlyOut i) =
      some (br.nextPC d.uop.inst d.uop.pc (s.archRegs d.uop.fields.rj)
        (s.archRegs d.uop.fields.rd)) := by
  have hdec := h.joined.decoded.renamed d (List.mem_of_getElem? hd.renamed)
  have hdecodes := BranchInst.decodes_of_isDecoded hdec hcovers
  have hstate : (s.ports 0).state = s.entryState d := congrArg PopPort.state hd.port
  obtain ⟨htaken, htarget, -⟩ := h.resolved_head hres hd hcovers
  rw [hd.needFlush_eq, Bool.or_eq_true] at hflush
  have hmispredict : (s.entryState d).mispredict = true :=
    hflush.resolve_right (by simp [hdecodes.flushState])
  have hsent := BranchInst.jumpInterface_eq hdecodes hd.uop
    ((congrArg _ hstate).trans htaken) ((congrArg _ hstate).trans htarget) hd.retires
  rwa [hstate, hmispredict, if_pos rfl] at hsent

/-- With a flush, commit sends the fetch to where the program goes on. -/
theorem goesTo_jump (hres : s.Resolved) (hd : s.Retires useEarlyOut i 0 d)
    (hflush : s.wakeup.dispatch.needFlush (s.dispatchInputs useEarlyOut i) = true) :
    ∃ target, Commit.jumpInterface s.ports s.wakeup.dispatch.core.fsm
        (s.commitInputs useEarlyOut i) = some target ∧
      (d.uop.isErtn = true → target = (s.commitInputs useEarlyOut i).handler.eraPC) ∧
      (d.uop.isErtn = false → d.uop.GoesTo s.archRegs target) := by
  have hdec := h.joined.decoded.renamed d (List.mem_of_getElem? hd.renamed)
  by_cases hbranch : d.uop.branchLike = true
  · obtain ⟨br, hcovers⟩ := MicroOp.exists_branch hdec hbranch
    have hjump := h.jump_of_branch hres hd hflush hcovers
    refine ⟨_, hjump, fun hertn => ?_, fun _ => ⟨fun br' hcovers' => ?_, fun hnone => ?_⟩⟩
    · have hset := Retires.flushState_of_ertn hertn
      rw [(BranchInst.decodes_of_isDecoded hdec hcovers).flushState] at hset
      cases hset
    · exact Option.some.inj (hjump.symm.trans (h.jump_of_branch hres hd hflush hcovers'))
    · rw [hnone br] at hcovers
      cases hcovers
  · have hbranch := eq_false_of_ne_true hbranch
    have hjump := hd.jump_of_linear hbranch hflush
    cases hertn : d.uop.isErtn with
    | true =>
      rw [hertn, if_pos rfl] at hjump
      exact ⟨_, hjump, fun _ => rfl, fun hno => by cases hno⟩
    | false =>
      rw [hertn, if_neg Bool.false_ne_true] at hjump
      refine ⟨_, hjump, fun hno => (by cases hno), fun _ => ⟨fun br hcovers => ?_, fun _ => rfl⟩⟩
      rw [(BranchInst.decodes_of_isDecoded hdec hcovers).branchLike] at hbranch
      cases hbranch

end Sequenced

/-! ## One cycle -/

/-- A flush by an instruction that retires leaves the ones behind it. -/
theorem popCount_of_flush (hclean : s.hasExcept useEarlyOut i = false)
    (hflush : s.wakeup.dispatch.needFlush (s.dispatchInputs useEarlyOut i) = true) :
    s.wakeup.dispatch.popCount (s.dispatchInputs useEarlyOut i) = 1 := by
  have hneed : Commit.needFlush s.ports s.wakeup.dispatch.core.fsm
    (s.commitInputs useEarlyOut i) = true := hflush
  rw [hasExcept] at hclean
  rw [Commit.needFlush, hclean, Bool.false_or, Bool.and_eq_true, Bool.or_eq_true] at hneed
  obtain ⟨hfire, hcause⟩ := hneed
  have hwaits : Commit.fire s.ports s.wakeup.dispatch.core.fsm (s.commitInputs useEarlyOut i) 1 =
      false := by
    rw [Commit.fire, Commit.ready]
    rcases hcause with hmispredict | hlinear
    · have hmask : Commit.recoverMask s.ports 1 = false := by
        simp [Commit.recoverMask, List.range_succ, hmispredict]
      simp [hmask]
    · have hmask : Commit.excMask s.ports 1 = false := by
        simp [Commit.excMask, List.range_succ, hlinear]
      simp [hmask]
  change Commit.popCount s.ports s.wakeup.dispatch.core.fsm (s.commitInputs useEarlyOut i) = 1
  rw [Commit.popCount, hfire, hwaits]
  rfl

/-- The core has fetched along the path. -/
structure OnPath (useEarlyOut : Bool) (s : OperandCore) : Prop where
  sequenced : s.Sequenced useEarlyOut
  resolved : s.Resolved
  fetched : ∃ c, s.Fetched c

namespace OnPath

variable (h : s.OnPath useEarlyOut)

include h

theorem length_retired (hclean : s.hasExcept useEarlyOut i = false) :
    (s.retired useEarlyOut i).length =
      s.wakeup.dispatch.popCount (s.dispatchInputs useEarlyOut i) := by
  have hdispatch := h.sequenced.joined.dispatch
  have hpop := hdispatch.popCount_le (i := s.dispatchInputs useEarlyOut i)
  have hlength := hdispatch.length
  rw [retired_of_clean hclean, hdispatch.inFlight, List.length_take, List.length_map,
    List.length_drop]
  omega

/-- A cycle without exception and flush retires along the predictions. -/
theorem steps_retired (hi : s.Legal useEarlyOut i) (hstreams : s.Streams useEarlyOut i)
    (hrepairs : s.Repairs useEarlyOut i) (hclean : s.hasExcept useEarlyOut i = false)
    (hflush : s.wakeup.dispatch.needFlush (s.dispatchInputs useEarlyOut i) = false) :
    Clocked.Steps CommitEvent.Step (s.events useEarlyOut i) s.arch (s.step useEarlyOut i).arch := by
  obtain ⟨c, hfetched⟩ := h.fetched
  have hnext := hfetched.step hstreams hflush
  have hlength := h.length_retired hclean
  have hpop := h.sequenced.joined.dispatch.popCount_le (i := s.dispatchInputs useEarlyOut i)
  have hrob := h.sequenced.joined.dispatch.length
  have hevents : s.events useEarlyOut i = (s.retired useEarlyOut i).map fun p =>
      if p.uop.isErtn then .ertn p.uop (s.commitInputs useEarlyOut i).handler.eraPC
      else .retire p.uop := by
    rw [events, hclean, if_neg Bool.false_ne_true, executed, List.map_map]
    rfl
  let t : Nat → ArchState := fun m =>
    ⟨s.pathPC c (s.wakeup.dispatch.popped + m), s.regsAfter useEarlyOut i m⟩
  have hstart : s.arch = t 0 := by
    rw [arch, hfetched.archPC_eq, ← h.sequenced.regsAfter_zero hi]
    rfl
  have hend : (s.step useEarlyOut i).arch = t (s.events useEarlyOut i).length := by
    rw [hevents, List.length_map]
    change _ = ArchState.mk _ _
    rw [h.sequenced.regsAfter_length hi, hlength, arch, hnext.archPC_eq,
      popped_step hflush]
    congr 1
    exact Fetched.pathPC_step hflush (by omega)
  rw [hstart, hend]
  refine Clocked.Steps.of_getElem? fun m e he => ?_
  rw [hevents, List.getElem?_map, Option.map_eq_some_iff] at he
  obtain ⟨p, hp, rfl⟩ := he
  obtain ⟨d, hd, rfl⟩ := Retires.of_retired h.sequenced.results hp
  obtain ⟨hertn, hgoes⟩ := h.sequenced.goesTo_predictedPC h.resolved hi hrepairs hd hflush
  have hertn : d.pushPort.uop.isErtn = false := hertn
  rw [hertn, if_neg Bool.false_ne_true]
  refine .retire ?_ (h.sequenced.executes hi hp) ?_
  · exact hfetched.1.addr_eq hd.renamed
  · change d.uop.GoesTo _ (s.pathPC c (s.wakeup.dispatch.popped + m + 1))
    rw [pathPC, Trail.behind_take_succ hd.renamed]
    exact hgoes

/-- The head of the reorder buffer is where the program is. -/
theorem pc_head (hfires : s.fires useEarlyOut i = true) : (s.ports 0).uop.pc = s.archPC := by
  have hdispatch := h.sequenced.joined.dispatch
  have hvalid : (s.ports 0).valid = true := by
    rw [fires, Commit.fire, Bool.and_eq_true] at hfires
    exact hfires.1
  obtain ⟨p, hp, huop, -⟩ := hdispatch.shows.entry 0 (by decide) hvalid
  rw [hdispatch.inFlight, List.getElem?_map, List.getElem?_drop, Nat.add_zero,
    Option.map_eq_some_iff] at hp
  obtain ⟨d, hd, rfl⟩ := hp
  rw [archPC, hd]
  exact congrArg MicroOp.pc huop

/-- Nothing is written while the head carries an exception. -/
theorem archRegs_of_hasExcept (hi : s.Legal useEarlyOut i)
    (hexcept : s.hasExcept useEarlyOut i = true) :
    (s.step useEarlyOut i).archRegs = s.archRegs := by
  have hretired : s.retired useEarlyOut i = [] := if_pos hexcept
  have hsteps := h.sequenced.steps hi
  rw [executed, hretired] at hsteps
  exact hsteps.eq_of_nil

/-- An exception leaves the program in front of the instruction at the head. -/
theorem steps_trap (hi : s.Legal useEarlyOut i) (hexcept : s.hasExcept useEarlyOut i = true)
    (hfires : s.fires useEarlyOut i = true) : Clocked.Steps CommitEvent.Step
      (s.events useEarlyOut i) s.arch (s.step useEarlyOut i).arch := by
  have hclean := hexcept
  have hfire := hfires
  rw [hasExcept] at hclean
  rw [fires] at hfire
  have hflush : s.wakeup.dispatch.needFlush (s.dispatchInputs useEarlyOut i) = true := by
    change Commit.needFlush s.ports s.wakeup.dispatch.core.fsm (s.commitInputs useEarlyOut i) = true
    rw [Commit.needFlush, hfire, hclean]
    rfl
  have hjump : Commit.jumpInterface s.ports s.wakeup.dispatch.core.fsm
      (s.commitInputs useEarlyOut i) = some ((s.commitInputs useEarlyOut i).handler.eentry
        (Commit.handlerRequest s.ports s.wakeup.dispatch.core.fsm
          (s.commitInputs useEarlyOut i))) := by
    simp [Commit.jumpInterface, Commit.retires, ExceptionHandler.jump, Commit.handlerRequest,
      Commit.except, hfire, hclean]
  have hpc := (fetched_of_flush hflush hjump).2
  rw [events, hexcept, if_pos rfl, hfires, if_pos rfl, h.pc_head hfires, ← hpc]
  exact .cons (.trap (a := s.arch) (b := (s.step useEarlyOut i).arch)
    (h.archRegs_of_hasExcept hi hexcept)) (.nil _)

/-- A cycle in which nothing leaves the reorder buffer. -/
theorem arch_of_waits (hi : s.Legal useEarlyOut i) (hstreams : s.Streams useEarlyOut i)
    (hexcept : s.hasExcept useEarlyOut i = true) (hfires : s.fires useEarlyOut i = false) :
    (s.step useEarlyOut i).arch = s.arch := by
  obtain ⟨c, hfetched⟩ := h.fetched
  have hclean := hexcept
  have hfire := hfires
  rw [hasExcept] at hclean
  rw [fires] at hfire
  have hflush : s.wakeup.dispatch.needFlush (s.dispatchInputs useEarlyOut i) = false := by
    change Commit.needFlush s.ports s.wakeup.dispatch.core.fsm (s.commitInputs useEarlyOut i) =
      false
    rw [Commit.needFlush, hfire, Bool.false_and]
  have hpop : s.wakeup.dispatch.popCount (s.dispatchInputs useEarlyOut i) = 0 :=
    Commit.popCount_eq_zero hfire
  have hrob := h.sequenced.joined.dispatch.length
  rw [arch, arch, h.archRegs_of_hasExcept hi hexcept, (hfetched.step hstreams hflush).archPC_eq,
    hfetched.archPC_eq, popped_step hflush, hpop, Nat.add_zero,
    Fetched.pathPC_step hflush (by omega)]

/-- An instruction that flushes retires alone. -/
theorem steps_flush (hi : s.Legal useEarlyOut i) (hclean : s.hasExcept useEarlyOut i = false)
    (hflush : s.wakeup.dispatch.needFlush (s.dispatchInputs useEarlyOut i) = true) :
    Clocked.Steps CommitEvent.Step (s.events useEarlyOut i) s.arch (s.step useEarlyOut i).arch := by
  obtain ⟨c, hfetched⟩ := h.fetched
  have hpop := popCount_of_flush hclean hflush
  have hlength := h.length_retired hclean
  rw [hpop] at hlength
  obtain ⟨p, hretired⟩ := List.length_eq_one_iff.mp hlength
  have hp : (s.retired useEarlyOut i)[0]? = some p := by rw [hretired]; rfl
  obtain ⟨d, hd, rfl⟩ := Retires.of_retired h.sequenced.results hp
  obtain ⟨target, hjump, hera, hgoes⟩ := h.sequenced.goesTo_jump h.resolved hd hflush
  have hpc : (s.step useEarlyOut i).arch.pc = target := (fetched_of_flush hflush hjump).2
  have hat : d.uop.pc = s.arch.pc := by
    change d.uop.pc = s.archPC
    rw [archPC, ← Nat.add_zero s.wakeup.dispatch.popped, hd.renamed]
  have hexecutes : d.uop.Executes s.archRegs (s.step useEarlyOut i).archRegs := by
    have hone := h.sequenced.executes hi hp
    rwa [h.sequenced.regsAfter_zero hi, Nat.zero_add, ← hlength,
      h.sequenced.regsAfter_length hi] at hone
  have hevents : s.events useEarlyOut i =
      [if d.uop.isErtn then .ertn d.uop (s.commitInputs useEarlyOut i).handler.eraPC
        else .retire d.uop] := by
    rw [events, hclean, if_neg Bool.false_ne_true, executed, hretired]
    rfl
  rw [hevents]
  refine .cons ?_ (.nil _)
  cases hertn : d.uop.isErtn with
  | true =>
    rw [if_pos rfl, ← hera hertn, ← hpc]
    exact .ertn hertn hat hexecutes
  | false =>
    rw [if_neg Bool.false_ne_true]
    refine .retire hat hexecutes ?_
    rw [hpc]
    exact hgoes hertn

/-- What commit does in a cycle is a run of the sequential machine. -/
theorem steps (hi : s.Legal useEarlyOut i) (hstreams : s.Streams useEarlyOut i)
    (hrepairs : s.Repairs useEarlyOut i) : Clocked.Steps CommitEvent.Step
      (s.events useEarlyOut i) s.arch (s.step useEarlyOut i).arch := by
  cases hclean : s.hasExcept useEarlyOut i with
  | true =>
    cases hfires : s.fires useEarlyOut i with
    | true => exact h.steps_trap hi hclean hfires
    | false =>
      have hnone : s.events useEarlyOut i = [] := by
        rw [events, hclean, if_pos rfl, hfires, if_neg Bool.false_ne_true]
      rw [hnone, h.arch_of_waits hi hstreams hclean hfires]
      exact .nil _
  | false =>
    cases hflush : s.wakeup.dispatch.needFlush (s.dispatchInputs useEarlyOut i) with
    | false => exact h.steps_retired hi hstreams hrepairs hclean hflush
    | true => exact h.steps_flush hi hclean hflush

theorem step (hi : s.Legal useEarlyOut i) (hquiet : s.Undisturbed i)
    (hstreams : s.Streams useEarlyOut i) : (s.step useEarlyOut i).OnPath useEarlyOut where
  sequenced := h.sequenced.step hi hquiet
  resolved := h.sequenced.resolved_step h.resolved hi
  fetched := by
    obtain ⟨c, hfetched⟩ := h.fetched
    cases hflush : s.wakeup.dispatch.needFlush (s.dispatchInputs useEarlyOut i) with
    | false => exact ⟨c, hfetched.step hstreams hflush⟩
    | true =>
      obtain ⟨target, htarget⟩ := Option.isSome_iff_exists.mp (Commit.jump_of_needFlush hflush)
      exact ⟨target, (fetched_of_flush hflush htarget).1⟩

omit h in
theorem of_init (h : s.Init) : s.OnPath useEarlyOut where
  sequenced := .of_init h
  resolved := .of_init h
  fetched := by
    refine ⟨0x1c000000, ?_, fun _ => ?_⟩
    · rw [h.wakeup.dispatch.renamed]
      trivial
    · rw [← h.core]
      exact h.memory.core.2.2

end OnPath

end OperandCore

end NopCore
