import NopCore.Core.Rob
import NopCore.Utils.CompressedQueue

/-!
# Issue queues

Renamed instructions wait in one of three queues until their operands are there.
The integer queue has seven slots and issues to three pipes, out of order; the
queues in front of the multiply and divide pipe and of the memory pipe issue one
instruction at a time, from the head. The queues are compressed, so that a free slot
is always behind the occupied ones.

Which operands have been woken is not followed at first: whether a slot may issue is an
input. The queues with the flags of the operands come after it.
-/

namespace NopCore

inductive IssueQueue
  | int | mulDiv | mem
  deriving DecidableEq, Repr

/-- An instruction behind rename, with the ring index it has been given. -/
structure DispatchSlot where
  uop : MicroOp := {}
  rename : RenameRecord := {}
  robIdx : Nat := 0

structure IssueSlot where
  uop : MicroOp := {}
  rRegs : Nat × Nat := (0, 0)
  wReg : Nat := 0
  robIdx : Nat := 0

def DispatchSlot.pushPort (slot : DispatchSlot) : PushPort :=
  { uop := slot.uop, rename := slot.rename }

def DispatchSlot.issueSlot (slot : DispatchSlot) : IssueSlot :=
  { uop := slot.uop, rRegs := slot.rename.rRegs, wReg := slot.rename.wReg, robIdx := slot.robIdx }

namespace IssueQueue

def depth : IssueQueue → Nat
  | .int => 7
  | .mulDiv => 3
  | .mem => 5

def fuMatch : IssueQueue → FUType → Bool
  | .int, fu => fu == .alu || fu == .cmp || fu == .csr || fu == .timer || fu == .invtlb
  | .mulDiv, fu => fu == .mul || fu == .div || fu == .mod || fu == .mulh
  | .mem, fu => fu == .lsu

/-- The pipes that a queue issues to. -/
def units : IssueQueue → List ExecUnit
  | .int => [.int0, .int1, .int2]
  | .mulDiv => [.mulDiv]
  | .mem => [.mem]

/-- A valid instruction is to be entered in the queue. -/
def takes (q : IssueQueue) (uop : MicroOp) : Bool := q.fuMatch uop.fuType && !uop.except.valid

theorem fuMatch_iff (q : IssueQueue) (fu : FUType) :
    q.fuMatch fu = true ↔ ∃ u ∈ q.units, u.executes fu = true := by
  cases q <;> cases fu <;> decide

/-- Every operation but none has its queue. -/
theorem existsUnique_fuMatch {fu : FUType} (h : fu ≠ .none) : ∃! q, fuMatch q fu = true := by
  cases fu with
  | none => exact absurd rfl h
  | alu | cmp | csr | timer | invtlb => exact ⟨.int, rfl, fun q hq => by cases q <;> trivial⟩
  | mul | mulh | div | mod => exact ⟨.mulDiv, rfl, fun q hq => by cases q <;> trivial⟩
  | lsu => exact ⟨.mem, rfl, fun q hq => by cases q <;> trivial⟩

/-- What still has to be executed goes to one queue, which issues to a pipe that can do
it; what has not goes nowhere. -/
theorem takes_iff (uop : MicroOp) :
    (uop.needNotExecute = true ↔ ∀ q, takes q uop = false) ∧
      (uop.needNotExecute = false → ∃! q, takes q uop = true) := by
  cases hexc : uop.except.valid with
  | true => simp [MicroOp.needNotExecute, takes, hexc]
  | false =>
    by_cases hnone : uop.fuType = .none
    · have hno : ∀ q, fuMatch q .none = false := fun q => by cases q <;> rfl
      simp [MicroOp.needNotExecute, takes, hexc, hnone, hno]
    · obtain ⟨q, hq, hunique⟩ := existsUnique_fuMatch hnone
      have hexec : uop.needNotExecute = false := by
        simp [MicroOp.needNotExecute, hexc, hnone]
      refine ⟨?_, fun _ => ⟨q, by simp [takes, hexc, hq], fun q' hq' => hunique q' ?_⟩⟩
      · simp only [hexec, Bool.false_eq_true, false_iff, not_forall]
        exact ⟨q, by simp [takes, hexc, hq]⟩
      · simpa [takes, hexc] using hq'

/-! ## Issue -/

/-- The operations a pipe does not turn away. Only the queue makes sure that it is not
offered others. -/
def accepts : ExecUnit → FUType → Bool
  | .int0, fu => fu != .timer
  | .int1, fu => fu != .cmp && fu != .csr && fu != .invtlb
  | .int2, fu => fu != .cmp && fu != .csr && fu != .timer && fu != .invtlb
  | .mulDiv, _ | .mem, _ => true

section Issue

variable (q : IssueQueue) (queue : Nat → Option IssueSlot) (waken : Nat → Bool)

def issReq (u : ExecUnit) (k : Nat) : Bool :=
  (queue k).any fun slot => accepts u slot.uop.fuType && waken k

/-- The first slot that asks for a pipe and has not been taken before. -/
def grant (granted : List Nat) (u : ExecUnit) : Option Nat :=
  (List.range (depth .int)).find? fun k => issReq queue waken u k && !granted.contains k

/-- The slots taken by the pipes, in the order in which these choose. -/
def grants (units : List ExecUnit) : List Nat :=
  units.foldl (fun granted u => granted ++ (grant queue waken granted u).toList) []

def grantPorts : List ExecUnit := [.int2, .int1, .int0]

def issueMask (issueFire : Bool) (k : Nat) : Bool :=
  issueFire && (grants queue waken grantPorts).contains k

/-- The head issues. -/
def headIssues (issueFire : Bool) : Bool := (queue 0).isSome && waken 0 && issueFire

/-- The registers after a cycle. A flush goes before everything else. -/
def next (push : Nat → Option IssueSlot) (issueFire queueFlush : Bool) : Nat → Option IssueSlot :=
  let queueNext := Compressed.enqueue queue decodeWidth push
  if queueFlush then fun _ => none
  else match q with
    | .int => Compressed.compress (depth .int) queueNext 3 (issueMask queue waken issueFire)
    | q => Compressed.shift q.depth queueNext (headIssues queue waken issueFire)

variable {q queue waken}

theorem length_grants (units : List ExecUnit) :
    (grants queue waken units).length ≤ units.length := by
  induction units using List.reverseRecOn with
  | nil => exact Nat.le_refl 0
  | append_singleton units u ih =>
    have hone : (grant queue waken (grants queue waken units) u).toList.length ≤ 1 := by
      cases grant queue waken (grants queue waken units) u <;> simp
    rw [grants, List.foldl_append, List.length_append]
    exact (List.length_append).trans_le (Nat.add_le_add ih hone)

theorem valid_of_grant {granted : List Nat} {u : ExecUnit} {k : Nat}
    (hk : grant queue waken granted u = some k) : k < depth .int ∧ (queue k).isSome = true := by
  have hasks := List.find?_some hk
  simp only [Bool.and_eq_true, issReq] at hasks
  exact ⟨List.mem_range.mp (List.mem_of_find?_eq_some hk), Option.isSome_of_any hasks.1⟩

theorem valid_of_grants {units : List ExecUnit} {k : Nat} (hk : k ∈ grants queue waken units) :
    k < depth .int ∧ (queue k).isSome = true := by
  induction units using List.reverseRecOn with
  | nil => cases hk
  | append_singleton units u ih =>
    rw [grants, List.foldl_append] at hk
    rcases List.mem_append.mp hk with hold | hnew
    · exact ih hold
    · exact valid_of_grant (Option.mem_toList.mp hnew)

/-- The elements that are entered join those that were there behind them; some leave,
and the others keep their order. -/
theorem holds_next {l ps : List IssueSlot} {push : Nat → Option IssueSlot} {issueFire : Bool}
    (h : Compressed.Holds q.depth queue l) (hroom : l.length + ps.length ≤ q.depth)
    (hwidth : ps.length ≤ decodeWidth) (hpush : ∀ j, push j = ps[j]?) :
    ∃ l', Compressed.Holds q.depth (q.next queue waken push issueFire false) l' ∧
      l'.Sublist (l ++ ps) := by
  have hentered := h.enqueue hroom hwidth hpush
  have hshift : ∃ l', Compressed.Holds q.depth (Compressed.shift q.depth
      (Compressed.enqueue queue decodeWidth push) (headIssues queue waken issueFire)) l' ∧
      l'.Sublist (l ++ ps) := by
    refine ⟨_, hentered.shift _, ?_⟩
    split_ifs
    · exact List.tail_sublist _
    · exact List.Sublist.refl _
  cases q with
  | int =>
    refine ⟨_, hentered.compress ?_ ?_, Compressed.survivors_sublist _ _⟩
    · intro k hk
      simp only [issueMask, Bool.and_eq_true, List.contains_eq_mem, decide_eq_true_eq] at hk
      obtain ⟨hrange, hvalid⟩ := valid_of_grants hk.2
      have hlt : k < l.length := by
        rw [h.slot k hrange] at hvalid
        simpa using hvalid
      rw [List.length_append]
      omega
    · have hnamed : ∀ k, issueMask queue waken issueFire k = true →
          k ∈ grants queue waken grantPorts := by
        intro k hk
        simp only [issueMask, Bool.and_eq_true, List.contains_eq_mem, decide_eq_true_eq] at hk
        exact hk.2
      exact (Compressed.count_le_length hnamed _).trans (length_grants _)
  | mulDiv => exact hshift
  | mem => exact hshift

end Issue

/-! ## The slots with their flags

A slot also has a flag for each operand. The queues are the compressing queue with the
sizes below; without the flags they are those above. -/

/-- An instruction waits for its operands. -/
def waken (queue : Nat → Option (QueueSlot IssueSlot)) (k : Nat) : Bool :=
  (queue k).any fun slot => slot.ready 0 && slot.ready 1

/-- The slots without their flags. -/
def erase (queue : Nat → Option (QueueSlot IssueSlot)) (k : Nat) : Option IssueSlot :=
  (queue k).map QueueSlot.payload

/-- The queue that issues to the integer pipes. -/
def intConfig : CompressedQueue.Config where
  depth := depth .int
  issueWidth := 3
  decodeWidth
  grantPorts := 3
  grantPorts_le := by decide
  decodeWidth_le := by decide

/-- The slots a grant port of the integer queue asks for. -/
def intReqs (queue : Nat → Option (QueueSlot IssueSlot)) (n k : Nat) : Bool :=
  grantPorts[n]?.any fun u => issReq (erase queue) (waken queue) u k

/-- A slot may issue. A memory access also needs room in the store buffer. -/
def issuable (q : IssueQueue) (queue : Nat → Option (QueueSlot IssueSlot))
    (stBufProgFull : Bool) (k : Nat) : Bool :=
  waken queue k && !(q == .mem && stBufProgFull)

/-- A cycle of one of the queues with its flags. -/
def nextSlots (q : IssueQueue) (queue push : Nat → Option (QueueSlot IssueSlot))
    (wake : Nat → Nat → Bool) (stBufProgFull issueFire queueFlush : Bool) :
    Nat → Option (QueueSlot IssueSlot) :=
  match q with
  | .int => CompressedQueue.next intConfig queue
      { push, wake, reqs := intReqs queue, issueFire, queueFlush }
  | q => CompressedFIFO.next q.depth decodeWidth queue { push, wake, issueFire, queueFlush }
      ((queue 0).isSome && issuable q queue stBufProgFull 0)

section Flags

variable {queue push : Nat → Option (QueueSlot IssueSlot)} {wake : Nat → Nat → Bool}

theorem erase_enqueue (i : CompressedQueue.Inputs IssueSlot) :
    erase (Compressed.enqueue (CompressedQueue.woken queue i) decodeWidth push) =
      Compressed.enqueue (erase queue) decodeWidth (erase push) := by
  have hwoken : erase queue = fun k => (CompressedQueue.woken queue i k).map
      QueueSlot.payload := by
    funext k
    simp [erase, CompressedQueue.woken, Function.comp_def]
  funext k
  rw [hwoken]
  exact (Compressed.enqueue_map _ _ _ _ k).symm

/-- The ports of the queue choose as the pipes do. -/
theorem grants_intReqs (queue : Nat → Option (QueueSlot IssueSlot))
    {i : CompressedQueue.Inputs IssueSlot} (hreqs : i.reqs = intReqs queue) :
    (CompressedQueue.grants intConfig i 3).filterMap id =
      grants (erase queue) (waken queue) grantPorts := by
  have hport : ∀ n u, grantPorts[n]? = some u → ∀ k, i.reqs n k =
      issReq (erase queue) (waken queue) u k := by
    intro n u hu k
    rw [hreqs, intReqs, hu]
    rfl
  have hstep : ∀ n u, grantPorts[n]? = some u →
      (CompressedQueue.grants intConfig i (n + 1)).filterMap id =
        (CompressedQueue.grants intConfig i n).filterMap id ++
          (grant (erase queue) (waken queue)
            ((CompressedQueue.grants intConfig i n).filterMap id) u).toList := by
    intro n u hu
    have hchosen : ∀ k, (CompressedQueue.grants intConfig i n).contains (some k) =
        ((CompressedQueue.grants intConfig i n).filterMap id).contains k := by
      intro k
      rw [Bool.eq_iff_iff]
      simp
    have hdepth : intConfig.depth = depth .int := rfl
    rw [CompressedQueue.grants, List.filterMap_append]
    simp only [hport n u hu, hchosen, hdepth]
    rw [grant]
    cases (List.range (depth .int)).find? fun k =>
      issReq (erase queue) (waken queue) u k &&
        !((CompressedQueue.grants intConfig i n).filterMap id).contains k <;> rfl
  rw [hstep 2 .int0 rfl, hstep 1 .int1 rfl, hstep 0 .int2 rfl]
  rfl

/-- Without the flags the queues do what they have been said to do. -/
theorem erase_nextSlots (q : IssueQueue) (stBufProgFull issueFire queueFlush : Bool) :
    erase (nextSlots q queue push wake stBufProgFull issueFire queueFlush) =
      next q (erase queue) (issuable q queue stBufProgFull) (erase push) issueFire
        queueFlush := by
  have hfifo : ∀ (q : IssueQueue) (i : CompressedQueue.Inputs IssueSlot), i.push = push →
      i.queueFlush = false → i.issueFire = issueFire →
      erase (CompressedFIFO.next q.depth decodeWidth queue i
        ((queue 0).isSome && issuable q queue stBufProgFull 0)) =
      Compressed.shift q.depth (Compressed.enqueue (erase queue) decodeWidth (erase push))
        (headIssues (erase queue) (issuable q queue stBufProgFull) issueFire) := by
    rintro q i rfl hflush rfl
    rw [← erase_enqueue i, headIssues, erase, Option.isSome_map, CompressedFIFO.next, hflush]
    funext k
    exact (Compressed.shift_map _ _ _ _ k).symm
  cases hflush : queueFlush with
  | true => cases q <;> rfl
  | false =>
    cases q with
    | int =>
      have hissuable : issuable .int queue stBufProgFull = waken queue := by
        funext k
        simp [issuable]
      have hmask : CompressedQueue.popMask intConfig
          { push, wake, reqs := intReqs queue, issueFire, queueFlush := false } =
          issueMask (erase queue) (waken queue) issueFire := by
        funext k
        have hgrants := grants_intReqs queue
          (i := { push, wake, reqs := intReqs queue, issueFire, queueFlush := false }) rfl
        rw [CompressedQueue.popMask, issueMask, ← hgrants, Bool.eq_iff_iff, Bool.and_eq_true,
          Bool.and_eq_true, CompressedQueue.issueMask_iff, List.contains_iff_mem]
        rfl
      funext k
      rw [erase, nextSlots, CompressedQueue.next, if_neg Bool.false_ne_true, hmask]
      rw [← Compressed.compress_map, next, if_neg Bool.false_ne_true, hissuable, ← erase_enqueue
        { push, wake, reqs := intReqs queue, issueFire, queueFlush := false }]
      rfl
    | mulDiv => exact hfifo .mulDiv _ rfl rfl rfl
    | mem => exact hfifo .mem _ rfl rfl rfl

end Flags

end IssueQueue

end NopCore
