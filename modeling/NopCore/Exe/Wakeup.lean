import NopCore.Decode.Sources

/-!
# Wake-up

A register is busy from the cycle in which it is given to an instruction until the pipe
that executes the instruction clears the bit. The broadcast by which it does so also sets
the flags of the operands that wait for the register: of those in the slots of the queues,
and of those that come from DISPATCH in the same cycle, for which the busy bit is read. The
integer pipes wake the slots of their own queue earlier than that, with the instruction
they issue; an instruction that enters in that cycle is not reached, as its flags are those
it comes with.

Besides the queues the state holds the stage behind issue of the integer pipes, from which
they clear the busy bits, and the instructions that have been issued and not yet reported.
The other two pipes may clear any bits at any time.

`producers` is a record of the instructions that registers have been given to.
-/

namespace NopCore

/-- The instruction that a register was given to last, by its number, and whether the
register has been broadcast since. -/
structure Producer where
  seq : Nat
  told : Bool := false
  deriving DecidableEq, Repr

/-- The instructions are numbered in the order in which they leave RENAME. `last` belongs to
the registers, `sources` to the entries of the reorder buffer: it holds the producers that
the operands of an instruction had when it left RENAME. -/
structure Producers where
  seq : Nat := 0
  last : Nat → Option Producer := fun _ => none
  sources : Nat → Nat → Option Nat := fun _ _ => none

namespace Producers

def tell (g : Producers) (clearBusys : List Nat) : Producers :=
  { g with
    last := fun p => (g.last p).map fun producer =>
      { producer with told := producer.told || clearBusys.contains p } }

def rename (g : Producers) (slot : DispatchSlot) : Producers where
  seq := g.seq + 1
  last :=
    if slot.uop.doRegWrite then Function.update g.last slot.rename.wReg (some { seq := g.seq })
    else g.last
  sources := Function.update g.sources slot.robIdx fun j =>
    (g.last (operand slot.rename.rRegs j)).map Producer.seq

end Producers

namespace IssueQueue

/-- The operands of an instruction that a queue waits for. -/
def uses (q : IssueQueue) (uop : MicroOp) (j : Nat) : Bool :=
  if j = 0 then uop.useRj
  else match q with
    | .mulDiv => uop.useRk
    | .int | .mem => uop.useRk || uop.useRd

section Issue

variable (q : IssueQueue) (queue : Nat → Option IssueSlot) (waken : Nat → Bool)

/-- The slot that a pipe of the integer queue is given. -/
def issGrant (u : ExecUnit) : Option Nat :=
  grant queue waken (grants queue waken (grantPorts.takeWhile fun v => v != u)) u

/-- The slots that leave a queue. -/
def leaves (issueFire : Bool) (k : Nat) : Bool :=
  match q with
  | .int => issueMask queue waken issueFire k
  | _ => k == 0 && headIssues queue waken issueFire

variable {q queue waken}

theorem mem_grants_of_issGrant {u : ExecUnit} {k : Nat} (hu : u ∈ units .int)
    (hk : issGrant queue waken u = some k) : k ∈ grants queue waken grantPorts := by
  have hmem : ∀ before after, grantPorts = before ++ u :: after →
      issGrant queue waken u = grant queue waken (grants queue waken before) u →
      k ∈ grants queue waken grantPorts := by
    intro before after hports hgrant
    have hlater : ∀ (vs : List ExecUnit) (granted : List Nat), k ∈ granted →
        k ∈ vs.foldl (fun granted u => granted ++ (grant queue waken granted u).toList)
          granted := by
      intro vs
      induction vs with
      | nil => exact fun _ hold => hold
      | cons v vs ih => exact fun granted hold => ih _ (List.mem_append_left _ hold)
    rw [hports, grants, List.foldl_append, List.foldl_cons]
    apply hlater
    apply List.mem_append_right
    rw [hgrant, grants] at hk
    rw [hk]
    exact List.mem_singleton_self k
  cases u with
  | int2 => exact hmem [] [.int1, .int0] rfl rfl
  | int1 => exact hmem [.int2] [.int0] rfl rfl
  | int0 => exact hmem [.int2, .int1] [] rfl rfl
  | mulDiv | mem => simp [units] at hu

theorem leaves_lt {issueFire : Bool} {l : List IssueSlot} (h : Compressed.Holds q.depth queue l)
    {k : Nat} (hk : q.leaves queue waken issueFire k = true) : k < l.length := by
  have hhead : (k == 0 && headIssues queue waken issueFire) = true → 0 < q.depth →
      k < l.length := by
    intro hissues hpos
    rw [Bool.and_eq_true, beq_iff_eq, headIssues, Bool.and_eq_true, Bool.and_eq_true] at hissues
    have hvalid := hissues.2.1.1
    rw [h.slot 0 hpos, isSome_getElem?] at hvalid
    rwa [hissues.1]
  cases q with
  | int =>
    rw [leaves, issueMask, Bool.and_eq_true, List.contains_iff_mem] at hk
    obtain ⟨hrange, hvalid⟩ := valid_of_grants hk.2
    rwa [h.slot k hrange, isSome_getElem?] at hvalid
  | mulDiv | mem => exact hhead hk (by decide)

/-- The instructions that stay are followed by those that enter. -/
theorem holds_next_leaves {l ps : List IssueSlot} {push : Nat → Option IssueSlot}
    {issueFire : Bool} (h : Compressed.Holds q.depth queue l)
    (hroom : l.length + ps.length ≤ q.depth) (hwidth : ps.length ≤ decodeWidth)
    (hpush : ∀ j, push j = ps[j]?) :
    Compressed.Holds q.depth (q.next queue waken push issueFire false)
      (Compressed.survivors (q.leaves queue waken issueFire) l ++ ps) := by
  have hentered := h.enqueue hroom hwidth hpush
  have hlt : ∀ k, q.leaves queue waken issueFire k = true → k < l.length :=
    fun k => leaves_lt h
  rw [← Compressed.survivors_append hlt]
  have hshift := hentered.shift (headIssues queue waken issueFire)
  have htail : (if headIssues queue waken issueFire then (l ++ ps).tail else l ++ ps) =
      Compressed.survivors (fun k => k == 0 && headIssues queue waken issueFire) (l ++ ps) := by
    cases headIssues queue waken issueFire with
    | true => rw [if_pos rfl, Compressed.survivors_head]
    | false => rw [if_neg Bool.false_ne_true, Compressed.survivors_of_none fun k => by simp]
  rw [htail] at hshift
  cases q with
  | int =>
    have hnamed : ∀ k, issueMask queue waken issueFire k = true →
        k ∈ grants queue waken grantPorts := by
      intro k hk
      rw [issueMask, Bool.and_eq_true, List.contains_iff_mem] at hk
      exact hk.2
    refine hentered.compress (fun k hk => ?_) ?_
    · rw [List.length_append]
      exact Nat.lt_add_right _ (hlt k hk)
    · exact (Compressed.count_le_length hnamed _).trans (length_grants _)
  | mulDiv | mem => exact hshift

end Issue

section Flags

variable {q : IssueQueue} {queue push : Nat → Option (QueueSlot IssueSlot)}
  {wake : Nat → Nat → Bool} {full fire flush : Bool}

/-- A slot of the next cycle was in the queue, and has its flags and those that were set, or
it is one that has been entered. -/
theorem origin_nextSlots {k : Nat} (hk : k < q.depth) {slot : QueueSlot IssueSlot}
    (hslot : q.nextSlots queue push wake full fire flush k = some slot) :
    flush = false ∧ ((∃ k' < q.depth, ∃ slot', queue k' = some slot' ∧
      slot = { slot' with ready := fun j => slot'.ready j || wake k' j }) ∨
        ∃ j, push j = some slot) := by
  have hentered : ∀ (i : CompressedQueue.Inputs IssueSlot) k, k < q.depth → i.wake = wake →
      Compressed.enqueue (CompressedQueue.woken queue i) decodeWidth push k = some slot →
      (∃ k' < q.depth, ∃ slot', queue k' = some slot' ∧
        slot = { slot' with ready := fun j => slot'.ready j || wake k' j }) ∨
          ∃ j, push j = some slot := by
    rintro i k hk rfl h
    rw [Compressed.enqueue] at h
    split at h
    · exact .inr ⟨_, h⟩
    · obtain ⟨slot', hold, rfl⟩ := Option.map_eq_some_iff.mp h
      exact .inl ⟨k, hk, slot', hold, rfl⟩
  have hshift : ∀ (i : CompressedQueue.Inputs IssueSlot) (req : Bool),
      i.push = push → i.wake = wake → i.queueFlush = flush →
      CompressedFIFO.next q.depth decodeWidth queue i req k = some slot →
      flush = false ∧ ((∃ k' < q.depth, ∃ slot', queue k' = some slot' ∧
        slot = { slot' with ready := fun j => slot'.ready j || wake k' j }) ∨
          ∃ j, push j = some slot) := by
    rintro i req rfl hwake rfl h
    rw [CompressedFIFO.next] at h
    split_ifs at h with hflush
    refine ⟨Bool.not_eq_true _ ▸ hflush, ?_⟩
    rw [Compressed.shift] at h
    split_ifs at h with _ hlt
    · exact hentered i _ hlt hwake h
    · exact hentered i _ hk hwake h
  cases q with
  | int =>
    rw [nextSlots, CompressedQueue.next] at hslot
    dsimp only at hslot
    split_ifs at hslot with hflush
    refine ⟨Bool.not_eq_true _ ▸ hflush, ?_⟩
    rw [Compressed.compress] at hslot
    split at hslot
    · split_ifs at hslot with hlt
      exact hentered _ _ hlt rfl hslot
    · exact hentered _ _ hk rfl hslot
  | mulDiv => exact hshift _ _ rfl rfl rfl hslot
  | mem => exact hshift _ _ rfl rfl rfl hslot

end Flags

end IssueQueue

structure WakeupCore where
  dispatch : DispatchCore
  slots : IssueQueue → Nat → Option (QueueSlot IssueSlot) := fun _ _ => none
  busys : Nat → Bool := fun _ => false
  regRead : ExecUnit → Option IssueSlot := fun _ => none
  executing : List IssueSlot := []
  producers : Producers := {}

namespace WakeupCore

/-- The inputs of a cycle: those of dispatch, the registers that the multiply and divide
pipe and the memory pipe broadcast, and what holds up the pipes. -/
structure Inputs where
  nextValid : Bool := false
  nextGroup : List MicroOp := []
  completions : List Completion := []
  commit : CommitInputs := {}
  clrBusys : List Nat := []
  regWakeupFailed : Bool := false
  stBufProgFull : Bool := false
  mulDivHalts : Bool := false
  memHalts : Bool := false

variable (t : WakeupCore) (i : Inputs)

def regFlush : Bool := t.dispatch.rename.regFlush

/-! ## Issue -/

def issueFire : IssueQueue → Bool
  | .int => !i.regWakeupFailed
  | .mulDiv => !(i.regWakeupFailed || i.mulDivHalts)
  | .mem => !i.memHalts

/-- The slots that may issue. -/
def issuable (q : IssueQueue) : Nat → Bool := q.issuable (t.slots q) i.stBufProgFull

/-- What an integer pipe takes from its queue. -/
def issSlot (u : ExecUnit) : Option IssueSlot :=
  (IssueQueue.issGrant (IssueQueue.erase (t.slots .int)) (t.issuable i .int) u).bind
    (IssueQueue.erase (t.slots .int))

/-- What leaves a queue. -/
def issued (q : IssueQueue) : List IssueSlot :=
  (List.range q.depth).filterMap fun k =>
    if q.leaves (IssueQueue.erase (t.slots q)) (t.issuable i q) (issueFire i q) k then
      IssueQueue.erase (t.slots q) k
    else none

/-! ## Busy bits and flags -/

/-- The broadcasts of the integer pipes. -/
def intClrBusys : List Nat :=
  (IssueQueue.units .int).filterMap fun u => (t.regRead u).bind fun slot =>
    if !i.regWakeupFailed && slot.uop.doRegWrite then some slot.wReg else none

def clearBusys : List Nat := t.intClrBusys i ++ i.clrBusys

/-- The busy bit as it is read: register 0 is never busy, and a broadcast goes before. -/
def readBusy (addr : Nat) : Bool :=
  if (t.clearBusys i).contains addr then false
  else if addr = 0 then false
  else t.busys (addr - 1)

/-- An integer pipe that issues to a register wakes the slots that wait for it. -/
def localWakeup (addr : Nat) : Bool :=
  !i.regWakeupFailed && (IssueQueue.units .int).any fun u => (t.issSlot i u).any fun slot =>
    slot.uop.doRegWrite && slot.wReg == addr

/-- The flags that are set in the slots of a queue. -/
def wake (q : IssueQueue) (k j : Nat) : Bool :=
  (t.slots q k).any fun slot =>
    (t.clearBusys i).contains (operand slot.payload.rRegs j) ||
      (q == .int && t.localWakeup i (operand slot.payload.rRegs j))

/-- What is pushed to a queue, with the flags it comes with. -/
def pushPort (q : IssueQueue) (k : Nat) : Option (QueueSlot IssueSlot) :=
  (t.dispatch.pushPort q k).map fun slot =>
    { payload := slot
      ready := fun j => !q.uses slot.uop j || !t.readBusy i (operand slot.rRegs j) }

/-! ## One cycle -/

def dispatchInputs : DispatchCore.Inputs where
  nextValid := i.nextValid
  nextGroup := i.nextGroup
  completions := i.completions
  commit := i.commit
  waken := t.issuable i
  issueFire := issueFire i

/-- The registers that are taken from the free list. -/
def popped : List Nat :=
  (List.range (t.dispatch.rename.popReady (t.dispatch.renameInputs (t.dispatchInputs i)))).map
    t.dispatch.rename.freeList.popPayload

def step : WakeupCore where
  dispatch := t.dispatch.step (t.dispatchInputs i)
  slots q := q.nextSlots (t.slots q) (t.pushPort i q) (t.wake i q) i.stBufProgFull
    (issueFire i q) t.regFlush
  busys k :=
    if (t.popped i).contains (k + 1) then true
    else if (t.clearBusys i).contains (k + 1) then false
    else t.busys k
  regRead u :=
    if t.regFlush then none else if i.regWakeupFailed then t.regRead u else t.issSlot i u
  executing :=
    if t.regFlush then []
    else (t.executing.filter fun slot => !i.completions.any fun c => c.robIdx == slot.robIdx) ++
      (t.issued i .int ++ t.issued i .mulDiv ++ t.issued i .mem)
  producers := (t.dispatch.leaving (t.dispatchInputs i)).foldl Producers.rename
    (t.producers.tell (t.clearBusys i))

structure Init (t : WakeupCore) : Prop where
  dispatch : t.dispatch.Init
  slots : ∀ q k, t.slots q k = none
  busys : ∀ k, t.busys k = false
  regRead : ∀ u, t.regRead u = none
  executing : t.executing = []
  last : ∀ p, t.producers.last p = none

/-- The decoder's promise, and a pipe reports only what has been issued. -/
structure Legal (t : WakeupCore) (i : Inputs) : Prop where
  decoded : i.nextValid = true → RenameStage.Decoded (i.nextGroup.map some)
  issued : ∀ c ∈ i.completions, ∃ slot ∈ t.executing, slot.robIdx = c.robIdx

def machine : Clocked.Machine WakeupCore Inputs where
  init := Init
  legal := Legal
  step := step

end WakeupCore

end NopCore
