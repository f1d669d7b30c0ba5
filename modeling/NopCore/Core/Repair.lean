import NopCore.Core.Commit
import NopCore.Lib.System

/-!
# Repairing a false prediction

An instruction that is no branch may have been fetched with a taken prediction,
because a branch with the same tag was there before. What followed it into the
pipeline is then the wrong path, and commit has to restart the front end behind
it. Commit does so when the mispredict bit of the entry is set. The bit is set at
rename, but the completion of the instruction rewrites it: the first integer
pipe, which owns the branch unit, reports it again, every other pipe clears it.

The state below adds two records to the reorder buffer. `executedBy` remembers
the pipe that last completed each entry, and `redirected` the address to which
the front end has been sent and from which nothing has been pushed yet.
-/

namespace NopCore

structure CommitCore where
  rob : ROBFIFO := {}
  fsm : UncachedState := .stateBoot
  executedBy : Nat → Option ExecUnit := fun _ => none
  redirected : Option UWord := none

namespace CommitCore

/-- The inputs of a cycle: renamed instructions, completions, and what commit
reads from the rest of the core. -/
structure Inputs where
  push : List PushPort := []
  completions : List Completion := []
  commit : CommitInputs := {}

def ports (s : CommitCore) (j : Nat) : PopPort where
  valid := s.rob.ptr.popValid robDepth j
  info := s.rob.popInfo j
  state := s.rob.popState j

/-- The ring index of the `j`-th oldest entry. -/
def entry (s : CommitCore) (j : Nat) : Nat := Ring.slot robDepth s.rob.ptr.pop j

def fires (s : CommitCore) (i : Inputs) (j : Nat) : Bool := Commit.fire s.ports s.fsm i.commit j

def retires (s : CommitCore) (i : Inputs) (j : Nat) : Bool :=
  Commit.retires s.ports s.fsm i.commit j

def popCount (s : CommitCore) (i : Inputs) : Nat := Commit.popCount s.ports s.fsm i.commit

def needFlush (s : CommitCore) (i : Inputs) : Bool := Commit.needFlush s.ports s.fsm i.commit

def jump (s : CommitCore) (i : Inputs) : Option UWord :=
  Commit.jumpInterface s.ports s.fsm i.commit

def step (s : CommitCore) (i : Inputs) : CommitCore where
  rob := s.rob.step i.push (s.popCount i) i.completions (s.needFlush i)
  fsm := Commit.nextFsm s.ports s.fsm i.commit
  executedBy := fun idx =>
    match ROBFIFO.completionAt idx (ROBFIFO.inPortOrder i.completions) with
    | some c => some c.unit
    | none =>
      if (ROBFIFO.pushAt s.rob.ptr.push idx 0 i.push).isSome then none else s.executedBy idx
  redirected :=
    if s.needFlush i then s.jump i
    else if i.push.isEmpty then s.redirected
    else none

/-- What the rest of the core keeps to. Rename pushes only when every port it
needs is ready. A completion belongs to an entry that is in the reorder buffer
and that its pipe can execute, or to one that was flushed. The first instruction
after a redirection comes from its target. -/
structure Legal (s : CommitCore) (i : Inputs) : Prop where
  width : i.push.length ≤ decodeWidth
  ready : ∀ k < i.push.length, s.rob.ptr.pushReady robDepth k = true
  notPushed : ∀ c ∈ i.completions, ROBFIFO.pushAt s.rob.ptr.push c.robIdx 0 i.push = none
  executes : ∀ c ∈ i.completions, ∀ j < s.rob.ptr.count robDepth, c.robIdx = s.entry j →
    c.uop = (s.rob.robInfo c.robIdx).uop ∧ c.uop.needNotExecute = false ∧
      c.unit.executes c.uop.fuType = true
  follows : ∀ t, s.redirected = some t → ∀ p ∈ i.push.head?, p.uop.pc = t

/-- The reorder buffer with its environment. Reset clears the pointers and leaves
the memories as they are; the front end starts at the reset vector. -/
def machine : Clocked.Machine CommitCore Inputs where
  init s := s.rob.ptr = {} ∧ s.fsm = .stateBoot ∧ s.redirected = some 0x1c000000
  legal := Legal
  step := step

/-! ## The mispredict bit -/

/-- The mispredict bit of an entry that is no branch: what rename wrote, unless a
pipe other than the first has completed the entry. -/
def keptPrediction (uop : MicroOp) : Option ExecUnit → Bool
  | none | some .int0 => uop.predInfo.predictTaken
  | some .int1 | some .int2 | some .mulDiv | some .mem => false

structure Inv (s : CommitCore) : Prop where
  range : s.rob.ptr.InRange robDepth
  popInfo : ∀ j < s.rob.ptr.count robDepth, s.rob.popInfo j = s.rob.robInfo (s.entry j)
  popState : ∀ j < s.rob.ptr.count robDepth, s.rob.popState j = s.rob.robState (s.entry j)
  mispredict : ∀ j < s.rob.ptr.count robDepth,
    (s.rob.robInfo (s.entry j)).uop.branchLike = false →
    (s.rob.robState (s.entry j)).mispredict =
      keptPrediction (s.rob.robInfo (s.entry j)).uop (s.executedBy (s.entry j))

theorem Completion.mispredict_eq {c : Completion} (h : c.uop.branchLike = false) :
    c.state.mispredict = keptPrediction c.uop (some c.unit) := by
  cases hc : c.unit <;> simp [Completion.state, hc, keptPrediction, bruMispredict, h]

theorem popCount_le (s : CommitCore) (i : Inputs) :
    s.popCount i ≤ s.rob.ptr.count robDepth := by
  rcases Nat.eq_zero_or_pos (s.popCount i) with h | h
  · omega
  · have hwidth : s.popCount i ≤ 3 := Commit.popCount_le
    have hfire : s.fires i (s.popCount i - 1) = true :=
      Commit.fire_of_lt_popCount (by change _ < s.popCount i; omega)
    have hvalid : s.rob.ptr.popValid robDepth (s.popCount i - 1) = true := by
      simp only [fires, Commit.fire, Bool.and_eq_true] at hfire
      exact hfire.1
    rw [Ring.Pointers.popValid_iff (by simp only [robDepth]; omega)] at hvalid
    omega

theorem room {s : CommitCore} {i : Inputs} (hrange : s.rob.ptr.InRange robDepth)
    (hi : s.Legal i) : s.rob.ptr.count robDepth + i.push.length ≤ robDepth := by
  have hwidth : i.push.length ≤ 3 := hi.width
  exact Ring.Pointers.room hrange (by simp only [robDepth]; omega) hi.ready

theorem count_step {s : CommitCore} {i : Inputs} (hrange : s.rob.ptr.InRange robDepth)
    (hi : s.Legal i) : (s.step i).rob.ptr.count robDepth =
      if s.needFlush i then 0
      else s.rob.ptr.count robDepth + i.push.length - s.popCount i := by
  have hptr : (s.step i).rob.ptr =
      if s.needFlush i then {} else s.rob.ptr.advance robDepth i.push.length (s.popCount i) :=
    ROBFIFO.step_ptr
  rw [hptr]
  split_ifs
  · rfl
  · exact Ring.Pointers.count_advance hrange (room hrange hi) (popCount_le s i)

theorem entry_step {s : CommitCore} {i : Inputs} (h : s.needFlush i = false) (j : Nat) :
    (s.step i).entry j = s.entry (s.popCount i + j) := by
  have hptr : (s.step i).rob.ptr =
      s.rob.ptr.advance robDepth i.push.length (s.popCount i) := by
    refine ROBFIFO.step_ptr.trans ?_
    rw [if_neg (by simp [h])]
  rw [entry, hptr, entry]
  exact Ring.slot_slot _ _ _

-- An entry that was there keeps its information and takes over the state of the
-- completion that writes it; a pushed entry starts with the prediction.
private theorem mispredict_step {s : CommitCore} {i : Inputs} (h : s.Inv) (hi : s.Legal i)
    {o : Nat} (ho : o < s.rob.ptr.count robDepth + i.push.length)
    (hnb : ((s.step i).rob.robInfo (s.entry o)).uop.branchLike = false) :
    ((s.step i).rob.robState (s.entry o)).mispredict =
      keptPrediction ((s.step i).rob.robInfo (s.entry o)).uop
        ((s.step i).executedBy (s.entry o)) := by
  have hroom := room h.range hi
  have hlt : o < robDepth := by omega
  have hidx : s.entry o < robDepth := Ring.slot_lt h.range.pos _ _
  have hwidth : i.push.length ≤ robDepth := by omega
  have hinfo : (s.step i).rob.robInfo (s.entry o) = _ :=
    ROBFIFO.step_robInfo h.range.push hidx hwidth
  have hstate : (s.step i).rob.robState (s.entry o) = _ :=
    ROBFIFO.step_robState h.range.push hidx hwidth
  have hpushAt : ROBFIFO.pushAt s.rob.ptr.push (s.entry o) 0 i.push = _ :=
    ROBFIFO.pushAt_slot h.range hlt hroom
  have hunit : (s.step i).executedBy (s.entry o) =
      match ROBFIFO.completionAt (s.entry o) (ROBFIFO.inPortOrder i.completions) with
      | some c => some c.unit
      | none =>
        if (ROBFIFO.pushAt s.rob.ptr.push (s.entry o) 0 i.push).isSome then none
        else s.executedBy (s.entry o) := rfl
  rw [hinfo] at hnb ⊢
  rw [hstate, hunit]
  by_cases hold : o < s.rob.ptr.count robDepth
  · rw [if_neg (by omega)] at hpushAt
    simp only [hpushAt, Option.map_none, Option.getD_none] at hnb ⊢
    cases hc : ROBFIFO.completionAt (s.entry o) (ROBFIFO.inPortOrder i.completions) with
    | none => exact h.mispredict o hold hnb
    | some c =>
      obtain ⟨hmem, hrob⟩ := ROBFIFO.mem_of_completionAt hc
      have huop : c.uop = (s.rob.robInfo (s.entry o)).uop :=
        hrob ▸ (hi.executes c hmem o hold hrob).1
      rw [← huop] at hnb ⊢
      exact Completion.mispredict_eq hnb
  · obtain ⟨p, hp⟩ : ∃ p, i.push[o - s.rob.ptr.count robDepth]? = some p :=
      ⟨_, List.getElem?_eq_getElem (by omega)⟩
    rw [if_pos (by omega), hp] at hpushAt
    have hnone : ROBFIFO.completionAt (s.entry o) (ROBFIFO.inPortOrder i.completions) = none := by
      rw [Option.eq_none_iff_forall_not_mem]
      intro c hc
      obtain ⟨hmem, hrob⟩ := ROBFIFO.mem_of_completionAt hc
      have hno := hi.notPushed c hmem
      rw [hrob, hpushAt] at hno
      exact Option.some_ne_none p hno
    simp only [hpushAt, hnone, Option.map_some, Option.getD_some, Option.map_none,
      Option.getD_none, Option.isSome_some, if_true] at hnb ⊢
    have hnb' : p.uop.branchLike = false := hnb
    simp [PushPort.state, PushPort.info, keptPrediction, hnb']

theorem Inv.step {s : CommitCore} {i : Inputs} (h : s.Inv) (hi : s.Legal i) : (s.step i).Inv := by
  have hroom := room h.range hi
  have hpop := popCount_le s i
  have hcount := count_step h.range hi
  cases hflush : s.needFlush i with
  | true =>
    -- A flush leaves no entry to speak of.
    rw [hflush, if_pos rfl] at hcount
    refine ⟨ROBFIFO.step_inRange h.range, ?_, ?_, ?_⟩ <;>
      · intro j hj
        omega
  | false =>
    rw [hflush, if_neg Bool.false_ne_true] at hcount
    refine ⟨ROBFIFO.step_inRange h.range, ?_, ?_, ?_⟩
    · intro j _
      rw [entry_step hflush]
      exact (ROBFIFO.step_popInfo j).trans (by rw [Ring.slot_slot]; rfl)
    · intro j hj
      rw [entry_step hflush]
      exact (ROBFIFO.step_popState h.range hpop hroom (by omega)).trans
        (by rw [Ring.slot_slot]; rfl)
    · intro j hj
      rw [entry_step hflush]
      exact mispredict_step h hi (by omega)

theorem Inv.init {s : CommitCore} (h : machine.init s) : s.Inv := by
  have hcount : s.rob.ptr.count robDepth = 0 := by rw [h.1]; rfl
  refine ⟨?_, ?_, ?_, ?_⟩
  · rw [h.1]
    exact ⟨by decide, by decide⟩
  all_goals
    intro j hj
    omega

theorem inv_of_reachable {s : CommitCore} (h : machine.Reachable s) : s.Inv :=
  Clocked.Machine.invariant (fun _ => Inv.init) (fun _ _ hs hi => hs.step hi) h

/-! ## After a redirection -/

/-- The next instruction to reach commit is the one at `t`: it is the oldest in
the reorder buffer, or that is empty and the front end has been sent to `t`. -/
def Awaiting (t : UWord) (s : CommitCore) : Prop :=
  (s.rob.ptr.count robDepth = 0 ∧ s.redirected = some t) ∨
    (0 < s.rob.ptr.count robDepth ∧ (s.rob.robInfo (s.entry 0)).uop.pc = t)

/-- No instruction leaves the reorder buffer while these inputs are clocked in. -/
def Quiet (s : CommitCore) : List Inputs → Prop
  | [] => True
  | i :: is => s.fires i 0 = false ∧ (s.step i).Quiet is

theorem Awaiting.step {t : UWord} {s : CommitCore} {i : Inputs} (h : s.Awaiting t)
    (hinv : s.Inv) (hi : s.Legal i) (hquiet : s.fires i 0 = false) : (s.step i).Awaiting t := by
  have hroom := room hinv.range hi
  have hpop : s.popCount i = 0 := Commit.popCount_eq_zero hquiet
  have hflush : s.needFlush i = false := by
    change (Commit.fire s.ports s.fsm i.commit 0 && _) = false
    rw [show Commit.fire s.ports s.fsm i.commit 0 = false from hquiet, Bool.false_and]
  have hcount := count_step hinv.range hi
  rw [hflush, if_neg Bool.false_ne_true, hpop] at hcount
  have hentry : (s.step i).entry 0 = s.entry 0 := by rw [entry_step hflush, hpop]
  have hinfo : (s.step i).rob.robInfo (s.entry 0) = _ :=
    ROBFIFO.step_robInfo hinv.range.push (Ring.slot_lt hinv.range.pos _ _) (by omega)
  have hpushAt : ROBFIFO.pushAt s.rob.ptr.push (s.entry 0) 0 i.push = _ :=
    ROBFIFO.pushAt_slot hinv.range hinv.range.pos hroom
  have hredirected : (s.step i).redirected =
      if s.needFlush i then s.jump i else if i.push.isEmpty then s.redirected else none := rfl
  rw [hflush, if_neg Bool.false_ne_true] at hredirected
  rcases h with ⟨hempty, htarget⟩ | ⟨hsome, hpc⟩
  · cases hpush : i.push with
    | nil =>
      left
      simp only [hpush, List.isEmpty_nil, if_true, List.length_nil] at hredirected hcount
      exact ⟨by omega, hredirected.trans htarget⟩
    | cons p ps =>
      right
      have hfirst : p.uop.pc = t := hi.follows t htarget p (by rw [hpush]; rfl)
      rw [hempty, if_pos (Nat.le_refl 0), Nat.sub_self, hpush, List.getElem?_cons_zero] at hpushAt
      simp only [hpush, List.length_cons] at hcount
      refine ⟨by omega, ?_⟩
      rw [hentry, hinfo, hpush, hpushAt]
      exact hfirst
  · right
    rw [if_neg (by omega)] at hpushAt
    refine ⟨by omega, ?_⟩
    rw [hentry, hinfo, hpushAt]
    exact hpc

theorem Awaiting.run {t : UWord} {s : CommitCore} {is : List Inputs} (h : s.Awaiting t)
    (hinv : s.Inv) (his : machine.Legal s is) (hquiet : s.Quiet is) :
    (machine.run s is).Awaiting t ∧ (machine.run s is).Inv := by
  induction is generalizing s with
  | nil => exact ⟨h, hinv⟩
  | cons i is ih =>
    exact ih (h.step hinv his.1 hquiet.1) (hinv.step his.1) his.2 hquiet.2

theorem Awaiting.pc_of_fires {t : UWord} {s : CommitCore} {i : Inputs} (h : s.Awaiting t)
    (hinv : s.Inv) (hfire : s.fires i 0 = true) : (s.ports 0).uop.pc = t := by
  have hvalid : s.rob.ptr.popValid robDepth 0 = true := by
    simp only [fires, Commit.fire, Bool.and_eq_true] at hfire
    exact hfire.1
  rw [Ring.Pointers.popValid_iff (by decide)] at hvalid
  rcases h with ⟨hempty, -⟩ | ⟨-, hpc⟩
  · omega
  · change (s.rob.popInfo 0).uop.pc = t
    rw [hinv.popInfo 0 hvalid]
    exact hpc

/-! ## The repair -/

/-- The cycle restarts the front end at `target` with an empty reorder buffer, and
the next instruction to reach commit is the one there. -/
structure Repaired (s : CommitCore) (i : Inputs) (target : UWord) : Prop where
  flush : s.needFlush i = true
  redirect : s.jump i = some target
  emptied : (s.step i).rob.ptr.count robDepth = 0
  next : ∀ is, machine.Legal (s.step i) is → (s.step i).Quiet is → ∀ i',
    let s' := machine.run (s.step i) is
    s'.fires i' 0 = true → (s'.ports 0).uop.pc = target

/-- When a falsely predicted instruction that retires is repaired. An exception
return goes to `ERA`, as it should. Anything else is repaired if it flushes the
pipeline by itself, or if no pipe but the first has executed it. -/
def RepairCondition (s : CommitCore) (i : Inputs) (j : Nat) : Prop :=
  let uop := (s.ports j).uop
  if uop.isErtn then i.commit.handler.eraPC = uop.pc + 4
  else uop.flushState = true ∨ s.executedBy (s.entry j) = none ∨
    s.executedBy (s.entry j) = some .int0

theorem repaired_of_jump {s : CommitCore} {i : Inputs} {t : UWord} (hinv : s.Inv)
    (hi : s.Legal i) (hflush : s.needFlush i = true) (hjump : s.jump i = some t) :
    s.Repaired i t := by
  have hempty : (s.step i).rob.ptr.count robDepth = 0 := by
    rw [count_step hinv.range hi, if_pos hflush]
  refine ⟨hflush, hjump, hempty, ?_⟩
  intro is his hquiet i' s' hfire
  have hredirected : (s.step i).redirected = some t := by
    change (if s.needFlush i then s.jump i else _) = some t
    rw [if_pos hflush, hjump]
  obtain ⟨hawait, hinv'⟩ :=
    Awaiting.run (Or.inl ⟨hempty, hredirected⟩) (hinv.step hi) his hquiet
  exact hawait.pc_of_fires hinv' hfire

/-- In every run, an instruction that is no branch but was predicted taken is
repaired when it retires exactly under `RepairCondition`: a completion through
any pipe other than the first loses the mispredict bit. -/
theorem nonbranch_repaired_iff {s : CommitCore} (hs : machine.Reachable s) {i : Inputs}
    (hi : s.Legal i) {j : Nat} (hretires : s.retires i j = true)
    (hnb : (s.ports j).uop.branchLike = false)
    (htaken : (s.ports j).uop.predInfo.predictTaken = true) :
    s.Repaired i ((s.ports j).uop.pc + 4) ↔ s.RepairCondition i j := by
  have hinv := inv_of_reachable hs
  have hsplit : Commit.fire s.ports s.fsm i.commit j = true ∧
      Commit.hasExcept s.ports s.fsm i.commit = false := by
    simpa [retires, Commit.retires] using hretires
  obtain ⟨hfire, hexc⟩ := hsplit
  -- A predicted branch retires alone, so it is in port 0.
  obtain rfl : j = 0 :=
    Commit.eq_zero_of_uniqueRetire hfire (MicroOp.uniqueRetire_of_predictTaken _ htaken)
  have hvalid : 0 < s.rob.ptr.count robDepth := by
    simp only [Commit.fire, Bool.and_eq_true] at hfire
    exact (Ring.Pointers.popValid_iff (by decide)).mp hfire.1
  have hinfo : s.rob.popInfo 0 = s.rob.robInfo (s.entry 0) := hinv.popInfo 0 hvalid
  have hmis : (s.ports 0).state.mispredict =
      keptPrediction (s.ports 0).uop (s.executedBy (s.entry 0)) := by
    change (s.rob.popState 0).mispredict = keptPrediction (s.rob.popInfo 0).uop _
    rw [hinv.popState 0 hvalid, hinfo]
    exact hinv.mispredict 0 hvalid (hinfo ▸ hnb)
  have hkept : (s.ports 0).state.mispredict = true ↔
      s.executedBy (s.entry 0) = none ∨ s.executedBy (s.entry 0) = some .int0 := by
    rw [hmis]
    unfold keptPrediction
    split <;> simp_all
  have hflush : s.needFlush i =
      ((s.ports 0).state.mispredict || (s.ports 0).uop.flushState) := by
    simp [needFlush, Commit.needFlush, hfire, hexc, Commit.linearRecover, hnb, Bool.or_comm]
  have hjump : s.jump i =
      if Commit.linearRecover s.ports && !(s.ports 0).uop.isErtn then
        some ((s.ports 0).uop.pc + 4)
      else i.commit.handler.jump (Commit.handlerRequest s.ports s.fsm i.commit) := by
    simp [jump, Commit.jumpInterface, hnb, show Commit.retires s.ports s.fsm i.commit 0 = true
      from hretires]
  simp only [RepairCondition]
  cases hertn : (s.ports 0).uop.isErtn with
  | true =>
    have hreturn : s.jump i = some i.commit.handler.eraPC := by
      rw [hjump, hertn, Bool.not_true, Bool.and_false, if_neg Bool.false_ne_true]
      simp [ExceptionHandler.jump, Commit.handlerRequest, Commit.except, hexc, Commit.ertn,
        show Commit.retires s.ports s.fsm i.commit 0 = true from hretires, hertn]
    rw [if_pos rfl]
    constructor
    · intro h
      exact Option.some.inj (hreturn.symm.trans h.redirect)
    · intro hera
      refine repaired_of_jump hinv hi ?_ (hreturn.trans (congrArg some hera))
      rw [hflush, show (s.ports 0).uop.flushState = true by simp [MicroOp.flushState, hertn],
        Bool.or_true]
  | false =>
    rw [if_neg Bool.false_ne_true, ← hkept]
    constructor
    · intro h
      have hf := h.flush
      rw [hflush, Bool.or_eq_true] at hf
      exact hf.symm
    · intro hcond
      have hlin : Commit.linearRecover s.ports = true := by
        rcases hcond with h | h <;> simp [Commit.linearRecover, hnb, h]
      refine repaired_of_jump hinv hi ?_ ?_
      · rw [hflush, Bool.or_eq_true]
        exact hcond.symm
      · rw [hjump, hlin, hertn]
        rfl

/-! ## An addition that was once a branch -/

/-- An addition fetched with the prediction of a branch that used to be there. -/
def taggedAdd : MicroOp where
  pc := 0x1c000000
  fuType := .alu
  wbAddr := 4
  doRegWrite := true
  predInfo := { predictBranch := true, predictTaken := true, predictAddr := 0x1c000100 }

/-- It is renamed in the first cycle and completed by `u` in the second. -/
def taggedAddInputs (u : ExecUnit) : List Inputs :=
  [{ push := [{ uop := taggedAdd }] },
   { completions := [{ unit := u, robIdx := 0, uop := taggedAdd }] }]

def taggedAddRun (u : ExecUnit) : CommitCore :=
  machine.run { redirected := some 0x1c000000 } (taggedAddInputs u)

private theorem taggedAddRun_reachable {u : ExecUnit} (hu : u.executes .alu = true) :
    machine.Reachable (taggedAddRun u) := by
  have hstart : machine.Reachable { redirected := some 0x1c000000 } := .reset ⟨rfl, rfl, rfl⟩
  refine hstart.run ⟨?_, ?_, trivial⟩
  · refine ⟨by decide, by decide, by simp, by simp, ?_⟩
    intro t ht p hp
    obtain rfl : (0x1c000000 : UWord) = t := Option.some.inj ht
    obtain rfl : ({ uop := taggedAdd } : PushPort) = p := Option.some.inj hp
    rfl
  · refine ⟨Nat.zero_le 3, by simp, by simp [ROBFIFO.pushAt], ?_, by simp⟩
    intro c hc j _ _
    obtain rfl := List.mem_singleton.mp hc
    exact ⟨rfl, rfl, hu⟩

private theorem legal_idle (s : CommitCore) : s.Legal {} :=
  ⟨by decide, by simp, by simp, by simp, by simp⟩

/-- Executed by the first pipe, it is repaired. -/
theorem taggedAdd_repaired : (taggedAddRun .int0).Repaired {} 0x1c000004 :=
  (nonbranch_repaired_iff (taggedAddRun_reachable (by decide)) (legal_idle _) (j := 0)
    (by decide) (by decide) (by decide)).mpr (by unfold RepairCondition; decide)

/-- Executed by the second pipe, it retires and the wrong path goes on. -/
theorem taggedAdd_not_repaired :
    ¬∀ s, machine.Reachable s → ∀ i, s.Legal i → ∀ j, s.retires i j = true →
      (s.ports j).uop.branchLike = false → (s.ports j).uop.predInfo.predictTaken = true →
      s.Repaired i ((s.ports j).uop.pc + 4) := by
  intro h
  have hrepaired := h (taggedAddRun .int1) (taggedAddRun_reachable (by decide)) {}
    (legal_idle _) 0 (by decide) (by decide) (by decide)
  have hstay : (taggedAddRun .int1).needFlush {} = false := by decide
  exact Bool.false_ne_true (hstay.symm.trans hrepaired.flush)

end CommitCore

end NopCore
