import NopCore.Core.InOrderPath
import NopCore.Fetch.Redirect

/-!
# The core with its front end

The decode stage takes instructions out of the fetch buffer whenever RENAME can take them from
it, and commit flushes the front end together with everything else. So the instructions that
leave RENAME are those that have entered the fetch buffer since the last flush, in their order,
and what the core relies on, that each of them has been fetched where the one in front of it
says, is what the front end delivers.
-/

namespace NopCore

open InstBufferEntry (successor Continues)

/-- The instruction is what the decoder makes of an entry of the fetch buffer. -/
def MicroOp.DecodedFrom (e : InstBufferEntry) (uop : MicroOp) : Prop :=
  ∃ (plv : BitVec 2) (payload : ExceptionPayload),
    uop = Decoder.decode plv { toInstBufferEntry := e, payload }

theorem MicroOp.DecodedFrom.pc {e : InstBufferEntry} {uop : MicroOp} (h : uop.DecodedFrom e) :
    uop.pc = e.pc := by
  obtain ⟨_, _, rfl⟩ := h
  rfl

theorem MicroOp.DecodedFrom.predictedPC {e : InstBufferEntry} {uop : MicroOp}
    (h : uop.DecodedFrom e) : uop.predictedPC = e.successor := by
  obtain ⟨_, _, rfl⟩ := h
  rfl

theorem InstBufferEntry.continues_iff {pc : UWord} {es : List InstBufferEntry} :
    Continues pc es ↔ Trail.Follows InstBufferEntry.pc successor pc es := by
  induction es generalizing pc with
  | nil => exact Iff.rfl
  | cons e es ih => exact and_congr_right fun _ => ih

/-- The front end, the decode stage and the core behind it. -/
structure MyCPUCore where
  front : FrontEndTrace := {}
  idValid : Bool := true
  back : OperandCore

namespace MyCPUCore

/-- The inputs of a cycle: what the front end and the core receive from outside, and what is
known of the exceptions of the oldest entries of the fetch buffer. -/
structure Inputs where
  front : FrontEnd.Inputs := {}
  back : OperandCore.Inputs := {}
  payload : Nat → ExceptionPayload := fun _ => {}

variable (useEarlyOut : Bool) (s : MyCPUCore) (i : Inputs)

/-- The entries at the pop ports of the fetch buffer. -/
def popPorts : List InstBufferEntry := s.front.front.buffer.popped fetchBufferDepth decodeWidth

def backInputs : OperandCore.Inputs :=
  { i.back with
    nextValid := s.idValid
    entries := s.popPorts.mapIdx fun k e => { toInstBufferEntry := e, payload := i.payload k } }

def dispatchInputs : DispatchCore.Inputs := s.back.dispatchInputs useEarlyOut (s.backInputs i)

def needFlush : Bool := s.back.wakeup.dispatch.needFlush (s.dispatchInputs useEarlyOut i)

/-- The decode stage waits for RENAME. -/
def idStuck : Bool := s.back.wakeup.dispatch.renameStuck (s.dispatchInputs useEarlyOut i)

def idFires : Bool :=
  s.idValid && !s.idStuck useEarlyOut i && !s.needFlush useEarlyOut i

def jumpInterface : Option UWord :=
  Commit.jumpInterface s.back.ports s.back.wakeup.dispatch.core.fsm
    (s.back.commitInputs useEarlyOut (s.backInputs i))

def doWait : Bool :=
  Commit.doWait s.back.ports s.back.wakeup.dispatch.core.fsm
    (s.back.commitInputs useEarlyOut (s.backInputs i))

def frontInputs : FrontEnd.Inputs :=
  { i.front with
    redirect := if s.needFlush useEarlyOut i then s.jumpInterface useEarlyOut i else none
    doWait := s.doWait useEarlyOut i
    decodeFires := s.idFires useEarlyOut i }

/-- The first stage of the decode pipeline is filled whenever it moves. -/
def step : MyCPUCore where
  front := s.front.step (s.frontInputs useEarlyOut i)
  idValid :=
    if !s.idStuck useEarlyOut i then true
    else if s.needFlush useEarlyOut i then false
    else s.idValid
  back := s.back.step useEarlyOut (s.backInputs i)

structure Init (s : MyCPUCore) : Prop where
  front : FrontEndTrace.Init s.front
  target : s.front.target = 0x1c000000
  idValid : s.idValid = true
  back : s.back.Init

/-- What the queue of the memory pipeline keeps to in the cycle of a flush. -/
def Legal (_ : MyCPUCore) (i : Inputs) : Prop :=
  ¬ (i.back.mem.head.isLoad = true ∧ i.back.mem.head.isStore = true)

def machine : Clocked.Machine MyCPUCore Inputs where
  init := Init
  legal := Legal
  step := step useEarlyOut

/-- The instructions in RENAME. -/
def group : List MicroOp :=
  if s.back.wakeup.dispatch.rename.isValid then
    s.back.wakeup.dispatch.rename.decPacket.reduceOption
  else []

/-- The instructions that have gone into RENAME since the last flush. -/
def passed : List MicroOp := s.back.wakeup.dispatch.renamed.map DispatchSlot.uop ++ s.group

/-! ## The invariant -/

structure Inv (s : MyCPUCore) : Prop where
  front : s.front.Inv
  joined : s.back.Joined
  fetched : s.back.Fetched s.front.target
  empty : s.back.wakeup.dispatch.core.redirected.isSome = true →
    s.back.wakeup.dispatch.renamed = []
  decoded : List.Forall₂ (fun e uop => MicroOp.DecodedFrom e uop) s.front.decoded s.passed

variable {useEarlyOut s i}

theorem inv_of_init (h : Init s) : s.Inv where
  front := FrontEndTrace.inv_of_init h.front
  joined := .of_init h.back
  fetched := by
    refine ⟨?_, fun _ => ?_⟩
    · rw [h.back.wakeup.dispatch.renamed]
      trivial
    · rw [h.target, ← h.back.core]
      exact h.back.memory.core.2.2
  empty _ := h.back.wakeup.dispatch.renamed
  decoded := by
    rw [h.front.decoded, passed, group, h.back.wakeup.dispatch.renamed,
      h.back.wakeup.dispatch.rename.isValid]
    exact .nil

/-- The instructions have been fetched one behind the other, from where the last flush went. -/
theorem Inv.follows (h : s.Inv) :
    Trail.Follows MicroOp.pc MicroOp.predictedPC s.front.target s.passed := by
  have hstream := InstBufferEntry.continues_iff.mp h.front.continues
  rw [← h.front.conserved] at hstream
  exact (Trail.follows_append.mp hstream).1.of_forall₂
    (h.decoded.imp fun _ _ hd => ⟨hd.pc, hd.predictedPC⟩)

theorem Inv.uop_issued (h : s.Inv) :
    (s.back.wakeup.dispatch.issued (s.dispatchInputs useEarlyOut i)).map PushPort.uop =
      if s.idStuck useEarlyOut i then [] else s.group := by
  rw [h.joined.dispatch.uop_issued, RenameStage.isValidNotStuck, group, idStuck,
    DispatchCore.renameStuck]
  cases s.back.wakeup.dispatch.rename.isValid <;>
    cases s.back.wakeup.dispatch.rename.isStuck _ <;> rfl

theorem Inv.uop_leaving (h : s.Inv) :
    (s.back.leaving useEarlyOut (s.backInputs i)).map DispatchSlot.uop =
      if s.idStuck useEarlyOut i then [] else s.group := by
  have hports := @Inv.uop_issued useEarlyOut s i h
  rwa [← DispatchCore.pushPort_leaving, List.map_map] at hports

/-- Where the fetch is, as RENAME sees it. -/
theorem Inv.streams (h : s.Inv) : s.back.Streams useEarlyOut (s.backInputs i) := by
  have hfollows := (Trail.follows_append.mp h.follows).2
  rw [Trail.behind_map, ← h.fetched.fetchPC_eq] at hfollows
  have hmap : Trail.Follows MicroOp.pc MicroOp.predictedPC s.back.fetchPC
      ((s.back.leaving useEarlyOut (s.backInputs i)).map DispatchSlot.uop) := by
    rw [h.uop_leaving]
    split_ifs
    · trivial
    · exact hfollows
  exact (Trail.follows_map DispatchSlot.uop).mp hmap

theorem length_popPorts : s.popPorts.length ≤ decodeWidth := by
  have hpop : decodeWidth ≤ fetchBufferDepth := by decide
  rw [popPorts, MultiPortFIFOVec.popped, List.length_map, List.length_range,
    MultiPortFIFOVecOutReg.popCount_eq hpop]
  exact Nat.min_le_left _ _

/-- The core finds what it relies on. -/
theorem Inv.backLegal (h : s.Inv) (hi : s.Legal i) :
    s.back.Legal useEarlyOut (s.backInputs i) where
  width := by
    rw [backInputs, List.length_mapIdx]
    exact length_popPorts
  follows := by
    intro target htarget p hp
    have hnone := h.empty (by rw [htarget]; rfl)
    have hsent := h.fetched.2 hnone
    rw [htarget] at hsent
    obtain rfl := Option.some.inj hsent
    have hfollows := h.follows
    rw [passed, hnone, List.map_nil, List.nil_append] at hfollows
    have hissued := @Inv.uop_issued useEarlyOut s i h
    rw [dispatchInputs] at hissued
    cases hports : s.back.wakeup.dispatch.issued
        (s.back.dispatchInputs useEarlyOut (s.backInputs i)) with
    | nil => simp [hports] at hp
    | cons q rest =>
      obtain rfl : q = p := by simpa [hports] using hp
      rw [hports] at hissued
      split_ifs at hissued with hstuck
      · cases hissued
      · rw [← hissued] at hfollows
        exact hfollows.1
  stale := hi

/-! ## Flushes -/

theorem redirect_of_needFlush (hflush : s.needFlush useEarlyOut i = true) :
    (s.frontInputs useEarlyOut i).redirect = s.jumpInterface useEarlyOut i := if_pos hflush

theorem redirect_of_stay (hflush : s.needFlush useEarlyOut i = false) :
    (s.frontInputs useEarlyOut i).redirect = none :=
  if_neg (by rw [hflush]; exact Bool.false_ne_true)

theorem exists_jump (hflush : s.needFlush useEarlyOut i = true) :
    ∃ target, s.jumpInterface useEarlyOut i = some target :=
  Option.isSome_iff_exists.mp (Commit.jump_of_needFlush hflush)

/-- A flush comes from an instruction that the decode stage has taken. -/
theorem Inv.decoded_of_flush (h : s.Inv) (hflush : s.needFlush useEarlyOut i = true) :
    s.front.decoded ≠ [] := by
  intro hnone
  have hdecoded := h.decoded
  rw [hnone, List.forall₂_nil_left_iff, passed, List.append_eq_nil_iff, List.map_eq_nil_iff]
    at hdecoded
  have hdispatch := h.joined.dispatch
  have hvalid : (s.back.ports 0).valid = true := by
    have hneed : Commit.needFlush s.back.ports s.back.wakeup.dispatch.core.fsm
      (s.back.commitInputs useEarlyOut (s.backInputs i)) = true := hflush
    rw [Commit.needFlush, Commit.fire, Bool.and_eq_true, Bool.and_eq_true] at hneed
    exact hneed.1.1
  obtain ⟨p, hp, -⟩ := hdispatch.shows.entry 0 (by decide) hvalid
  rw [hdispatch.inFlight, hdecoded.1] at hp
  simp at hp

/-- An instruction that waits flushes. -/
theorem needFlush_of_doWait (hwait : s.doWait useEarlyOut i = true) :
    s.needFlush useEarlyOut i = true := by
  rw [doWait, Commit.doWait, Commit.retires, Bool.and_eq_true, Bool.and_eq_true] at hwait
  obtain ⟨⟨hfire, -⟩, hwaits⟩ := hwait
  have hlinear : Commit.linearRecover s.back.ports = true := by
    simp [Commit.linearRecover, MicroOp.flushState, hwaits]
  change Commit.needFlush s.back.ports s.back.wakeup.dispatch.core.fsm
    (s.back.commitInputs useEarlyOut (s.backInputs i)) = true
  rw [Commit.needFlush, hfire, hlinear, Bool.or_true]
  rfl

theorem Inv.frontLegal (h : s.Inv) : s.front.Legal (s.frontInputs useEarlyOut i) where
  redirects hredirect := by
    cases hflush : s.needFlush useEarlyOut i with
    | true => exact h.decoded_of_flush hflush
    | false =>
      rw [redirect_of_stay hflush] at hredirect
      cases hredirect
  waits hwait := by
    have hflush := needFlush_of_doWait hwait
    rw [redirect_of_needFlush hflush]
    exact Commit.jump_of_needFlush hflush

/-! ## One cycle -/

theorem group_step (hflush : s.needFlush useEarlyOut i = false) :
    (s.step useEarlyOut i).group =
      if s.idStuck useEarlyOut i then s.group
      else if s.idValid then (s.backInputs i).entries.map (Decoder.decode i.back.plv) else [] := by
  have hvalid : (s.step useEarlyOut i).back.wakeup.dispatch.rename.isValid =
    if s.needFlush useEarlyOut i then false
    else if s.idStuck useEarlyOut i then s.back.wakeup.dispatch.rename.isValid
    else s.idValid := rfl
  have hpacket : (s.step useEarlyOut i).back.wakeup.dispatch.rename.decPacket =
    if s.idStuck useEarlyOut i then s.back.wakeup.dispatch.rename.decPacket
    else ((s.backInputs i).entries.map (Decoder.decode i.back.plv)).map some := rfl
  rw [group, hvalid, hpacket, hflush, if_neg Bool.false_ne_true]
  cases s.idStuck useEarlyOut i with
  | true => rfl
  | false =>
    rw [if_neg Bool.false_ne_true, if_neg Bool.false_ne_true, if_neg Bool.false_ne_true,
      List.reduceOption, List.filterMap_map]
    exact congrArg (fun l => if s.idValid then l else []) List.filterMap_some

theorem renamed_step (hflush : s.needFlush useEarlyOut i = false) :
    (s.step useEarlyOut i).back.wakeup.dispatch.renamed =
      s.back.wakeup.dispatch.renamed ++ s.back.leaving useEarlyOut (s.backInputs i) :=
  OperandCore.renamed_step hflush

/-- What the decode stage takes goes behind what has passed. -/
theorem Inv.passed_step (h : s.Inv) (hflush : s.needFlush useEarlyOut i = false) :
    (s.step useEarlyOut i).passed = s.passed ++
      if s.idFires useEarlyOut i then (s.backInputs i).entries.map (Decoder.decode i.back.plv)
      else [] := by
  rw [passed, renamed_step hflush, List.map_append, h.uop_leaving, group_step hflush, idFires,
    hflush, passed]
  cases s.idStuck useEarlyOut i <;> cases s.idValid <;> simp

theorem decoded_step (hflush : s.needFlush useEarlyOut i = false) :
    (s.step useEarlyOut i).front.decoded =
      s.front.decoded ++ if s.idFires useEarlyOut i then s.popPorts else [] := by
  have hdecoded : (s.step useEarlyOut i).front.decoded =
    if (s.frontInputs useEarlyOut i).redirect.isSome then []
    else s.front.decoded ++ s.front.front.popped (s.frontInputs useEarlyOut i) := rfl
  rw [hdecoded, redirect_of_stay hflush, Option.isSome_none, if_neg Bool.false_ne_true,
    FrontEnd.popped, FrontEnd.popReady]
  change _ ++ s.front.front.buffer.popped fetchBufferDepth
    (if s.idFires useEarlyOut i then decodeWidth else 0) = _
  cases s.idFires useEarlyOut i with
  | true => rfl
  | false =>
    have hnone : s.front.front.buffer.popped fetchBufferDepth 0 = [] := by
      rw [MultiPortFIFOVec.popped, MultiPortFIFOVecOutReg.popCount_eq (Nat.zero_le _),
        MultiPortFIFOVecOutReg.taken, Nat.zero_min]
      rfl
    rw [if_neg Bool.false_ne_true, if_neg Bool.false_ne_true, hnone]

/-- The decoder shows what is at the pop ports. -/
theorem decodedFrom_entries : List.Forall₂ (fun e uop => MicroOp.DecodedFrom e uop) s.popPorts
    ((s.backInputs i).entries.map (Decoder.decode i.back.plv)) := by
  rw [List.forall₂_iff_get]
  refine ⟨by simp [backInputs], fun n hn hn' => ?_⟩
  refine ⟨i.back.plv, i.payload n, ?_⟩
  simp [backInputs]

/-- As long as the fetch has a target of commit, nothing has been renamed. -/
theorem Inv.empty_step (h : s.Inv)
    (hsome : (s.step useEarlyOut i).back.wakeup.dispatch.core.redirected.isSome = true) :
    (s.step useEarlyOut i).back.wakeup.dispatch.renamed = [] := by
  cases hflush : s.needFlush useEarlyOut i with
  | true => exact if_pos hflush
  | false =>
    have hredirected : (s.step useEarlyOut i).back.wakeup.dispatch.core.redirected =
      if s.needFlush useEarlyOut i then s.jumpInterface useEarlyOut i
      else if (s.back.wakeup.dispatch.issued (s.dispatchInputs useEarlyOut i)).isEmpty then
        s.back.wakeup.dispatch.core.redirected
      else none := rfl
    rw [hredirected, hflush, if_neg Bool.false_ne_true] at hsome
    split_ifs at hsome with hquiet
    · have hleaving : s.back.leaving useEarlyOut (s.backInputs i) = [] := by
        rw [List.isEmpty_iff, ← DispatchCore.pushPort_leaving, List.map_eq_nil_iff] at hquiet
        exact hquiet
      rw [renamed_step hflush, h.empty hsome, hleaving]
      rfl
    · cases hsome

theorem Inv.step (h : s.Inv) (hi : s.Legal i) : (s.step useEarlyOut i).Inv where
  front := FrontEndTrace.inv_step h.front h.frontLegal
  joined := h.joined.step (h.backLegal hi)
  fetched := by
    have htarget : (s.step useEarlyOut i).front.target =
      (s.frontInputs useEarlyOut i).redirect.getD s.front.target := rfl
    cases hflush : s.needFlush useEarlyOut i with
    | true =>
      obtain ⟨target, hjump⟩ := exists_jump hflush
      rw [htarget, redirect_of_needFlush hflush, hjump]
      exact (OperandCore.fetched_of_flush hflush hjump).1
    | false =>
      rw [htarget, redirect_of_stay hflush]
      exact h.fetched.step h.streams hflush
  empty := h.empty_step
  decoded := by
    cases hflush : s.needFlush useEarlyOut i with
    | true =>
      have hdecoded : (s.step useEarlyOut i).front.decoded = [] := by
        obtain ⟨target, hjump⟩ := exists_jump hflush
        refine if_pos ?_
        rw [redirect_of_needFlush hflush, hjump]
        rfl
      have hrenamed : (s.step useEarlyOut i).back.wakeup.dispatch.renamed = [] := if_pos hflush
      have hvalid : (s.step useEarlyOut i).back.wakeup.dispatch.rename.isValid = false :=
        if_pos hflush
      rw [hdecoded, passed, group, hrenamed, hvalid]
      exact .nil
    | false =>
      rw [decoded_step hflush, h.passed_step hflush]
      refine List.rel_append h.decoded ?_
      split_ifs
      · exact decodedFrom_entries
      · exact .nil

theorem inv_of_reachable (h : (machine useEarlyOut).Reachable s) : s.Inv :=
  Clocked.Machine.invariant (fun _ => inv_of_init) (fun _ _ => Inv.step) h

instance (s : MyCPUCore) (i : Inputs) : Decidable ((machine useEarlyOut).legal s i) :=
  inferInstanceAs (Decidable (¬ (_ ∧ _)))

/-- A line of the instruction cache: a call of the word behind seven others, and `NOP`. -/
def line (word : BitVec 4) : UWord := if word = 0 then 0x54002000 else 0x03400000

/-- The line is in the cache. -/
def warm : MyCPUCore where
  front :=
    { front :=
        { cache :=
            { valids := fun _ _ => true
              dataRAMs := fun _ _ => line
              dataRsp := fun _ => line
              infoRAM := fun _ => { tags := fun _ => 0x1c000 }
              infoRsp := { tags := fun _ => 0x1c000 } } } }
  back := .atReset

theorem init_warm : warm.Init where
  front := ⟨rfl, rfl, rfl, rfl, rfl, rfl, rfl, rfl, rfl⟩
  target := rfl
  idValid := rfl
  back := OperandCore.init_atReset

/-! ## From the fetch buffer to commit -/

/-- Every instruction that has entered the fetch buffer since the last flush is in one place. In
the order of the fetch those that have retired come first, behind them those in the reorder
buffer, those in RENAME and those in the fetch buffer. -/
structure InOneStream (s : MyCPUCore) : Prop where
  continues : Continues s.front.target s.front.stream
  order : ∃ taken, s.front.stream = taken ++ s.front.front.buffer.contents fetchBufferDepth ∧
    List.Forall₂ (fun e uop => MicroOp.DecodedFrom e uop) taken
      ((s.back.wakeup.dispatch.renamed.take s.back.wakeup.dispatch.popped).map DispatchSlot.uop ++
        s.back.wakeup.dispatch.rename.inFlight.map PushPort.uop ++ s.group)

theorem inOneStream (h : (machine useEarlyOut).Reachable s) : s.InOneStream := by
  have hinv := inv_of_reachable h
  refine ⟨hinv.front.continues, s.front.decoded, hinv.front.conserved.symm, ?_⟩
  have hflight : s.back.wakeup.dispatch.rename.inFlight.map PushPort.uop =
      (s.back.wakeup.dispatch.renamed.drop s.back.wakeup.dispatch.popped).map
        DispatchSlot.uop := by
    rw [hinv.joined.dispatch.inFlight, List.map_map]
    rfl
  rw [hflight, ← List.map_append, List.take_append_drop]
  exact hinv.decoded

theorem inOneStream_warm :
    let s := (machine true).run warm (List.replicate 4 {})
    (s.back.wakeup.dispatch.rename.inFlight.map fun p => p.uop.pc, s.group.map MicroOp.pc) =
        ([0x1c000000, 0x1c000004, 0x1c000008],
          [0x1c00000c, 0x1c000010, 0x1c000014]) ∧ s.InOneStream :=
  ⟨by decide +kernel, inOneStream (Clocked.Machine.Reachable.run (.reset init_warm)
    (by decide +kernel))⟩

/-! ## The program -/

/-- The stores do not disturb the registers, and false predictions are kept. -/
def Dependable (useEarlyOut : Bool) (s : MyCPUCore) (i : Inputs) : Prop :=
  s.back.Undisturbed (s.backInputs i) ∧ s.back.Repairs useEarlyOut (s.backInputs i)

/-- What commit does in a cycle. -/
def events (useEarlyOut : Bool) (s : MyCPUCore) (i : Inputs) : List CommitEvent :=
  s.back.events useEarlyOut (s.backInputs i)

theorem onPath_of_reachable
    (h : ((machine useEarlyOut).restrict (Dependable useEarlyOut)).Reachable s) :
    s.Inv ∧ s.back.OnPath useEarlyOut :=
  Clocked.Machine.invariant (P := fun s => s.Inv ∧ s.back.OnPath useEarlyOut)
    (fun _ h => ⟨inv_of_init h, .of_init h.back⟩)
    (fun _ _ h hi => ⟨h.1.step hi.1, h.2.step (h.1.backLegal hi.1) hi.2.1 h.1.streams⟩) h

/-- Whatever the predictions, the caches and the order of issue, commit runs the program: each
instruction that retires is the one at the program counter, writes what it computes from the
registers as they are then, and goes on where it says; exceptions and interrupts come between
two instructions. -/
theorem runs_inOrder
    (h : ((machine useEarlyOut).restrict (Dependable useEarlyOut)).Reachable s)
    {is : List Inputs}
    (his : ((machine useEarlyOut).restrict (Dependable useEarlyOut)).Legal s is) :
    Clocked.Steps CommitEvent.Step ((machine useEarlyOut).does (events useEarlyOut) s is)
      s.back.arch ((machine useEarlyOut).run s is).back.arch := by
  have hrun := Clocked.Machine.steps_run (R := CommitEvent.Step)
    (fun s i hs (hi : ((machine useEarlyOut).restrict (Dependable useEarlyOut)).legal s i) =>
      have hpath := onPath_of_reachable hs
      hpath.2.steps (hpath.1.backLegal hi.1) hpath.1.streams hi.2.2) h his
  rwa [Clocked.Machine.restrict_run, Clocked.Machine.does_restrict] at hrun

instance : DecidableRel (Dependable useEarlyOut) := fun s i =>
  inferInstanceAs (Decidable (s.back.Undisturbed (s.backInputs i) ∧
    s.back.Repairs useEarlyOut (s.backInputs i)))

/-- The call retires in the tenth cycle. -/
theorem runs_inOrder_warm :
    let is : List Inputs := List.replicate 10 {}
    let s := (machine true).run warm is
    (s.back.arch.pc, s.back.arch.regs 1) = (0x1c000020, 0x1c000004) ∧
      Clocked.Steps CommitEvent.Step ((machine true).does (events true) warm is) warm.back.arch
        s.back.arch :=
  ⟨by decide +kernel, runs_inOrder (.reset init_warm) (by decide +kernel)⟩

end MyCPUCore

end NopCore
