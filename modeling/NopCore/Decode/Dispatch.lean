import NopCore.Core.Repair
import NopCore.Decode.Conservation
import NopCore.Exe.IssueQueue

/-!
# Dispatch

A group goes through two stages. In RENAME each instruction is given its registers and
an entry of the reorder buffer, in DISPATCH it is entered in an issue queue. RENAME
halts if the free list or the reorder buffer has no room for the group, DISPATCH if
one of the queues has none for its part of it, and RENAME whenever DISPATCH does. A
group moves as a whole, and what it writes in a stage is written in the cycle in which
it leaves the stage.

A flush empties the stages and the reorder buffer at once, the queues in the cycle
after it.

Three records go with the state. `renamed` holds the instructions that have left RENAME
since the last flush, `popped` counts those of them that have left the reorder buffer,
and `entered` holds what has been pushed to each queue.
-/

namespace NopCore

structure DispatchCore where
  rename : RenameStage
  core : CommitCore := {}
  isValid : Bool := false
  slots : List DispatchSlot := []
  pushIndexes : Nat → Option Nat := fun _ => none
  queue : IssueQueue → Nat → Option IssueSlot := fun _ _ => none
  renamed : List DispatchSlot := []
  popped : Nat := 0
  entered : IssueQueue → List IssueSlot := fun _ => []

namespace DispatchCore

/-- The inputs of a cycle: the group decoded next, which takes the first lanes of the
packet as the fetch buffer shows its oldest instructions at its first ports, the
reports of the pipes and what commit reads from the rest of the core, and whether the
slots of the queues may issue. -/
structure Inputs where
  nextValid : Bool := false
  nextGroup : List MicroOp := []
  completions : List Completion := []
  commit : CommitInputs := {}
  waken : IssueQueue → Nat → Bool := fun _ _ => false
  issueFire : IssueQueue → Bool := fun _ => true

variable (t : DispatchCore) (i : Inputs) (q : IssueQueue)

/-! ## DISPATCH -/

/-- The instructions in the stage. -/
def pending : List DispatchSlot := if t.isValid then t.slots else []

def enqueueMask (k : Nat) : Bool := t.slots[k]?.any fun slot => q.takes slot.uop

/-- The lane connected to a push port. For the integer queue it has been found out in
RENAME. -/
def portIndex (j : Nat) : Option Nat :=
  match q with
  | .int => t.pushIndexes j
  | q => Compressed.portIndex decodeWidth (t.enqueueMask q) j

def pushReady (j : Nat) : Bool := Compressed.pushReady q.depth (t.queue q) j

/-- A queue that a lane needs has no room for it. The integer queue looks at its ports,
the others at the lanes. -/
def haltsFor : Bool :=
  match q with
  | .int => (List.range decodeWidth).any fun j => (t.pushIndexes j).isSome && !t.pushReady .int j
  | q => (List.range decodeWidth).any fun k =>
      t.enqueueMask q k && !t.pushReady q (Nat.count (fun k => t.enqueueMask q k) k)

def isStuck : Bool :=
  t.isValid && (t.haltsFor .int || t.haltsFor .mulDiv || t.haltsFor .mem)

/-- What is pushed to a port of a queue. -/
def pushPort (j : Nat) : Option IssueSlot :=
  if t.isValid && !t.isStuck then
    ((t.portIndex q j).bind fun k => t.slots[k]?).map DispatchSlot.issueSlot
  else none

/-- The instructions pushed to a queue in this cycle. -/
def pushes : List IssueSlot := (List.range decodeWidth).filterMap (t.pushPort q)

/-! ## RENAME -/

def robFull : Bool :=
  t.rename.isValid && t.rename.decPacket.zipIdx.any fun x =>
    x.1.isSome && !t.core.rob.ptr.pushReady robDepth x.2

def renameInputs : RenameStage.Inputs :=
  RenameStage.fromCommit t.core.ports t.core.fsm i.commit
    { nextValid := i.nextValid
      nextPacket := i.nextGroup.map some
      haltByOther := t.robFull || t.isStuck }

def renameStuck : Bool := t.rename.isStuck (t.renameInputs i)

/-- The instructions that leave RENAME. -/
def issued : List PushPort := t.rename.issued (t.renameInputs i)

/-- The same with the indexes of the entries they are given. -/
def leaving : List DispatchSlot :=
  (t.issued i).mapIdx fun k p =>
    { uop := p.uop, rename := p.rename, robIdx := Ring.slot robDepth t.core.rob.ptr.push k }

def nextPushIndexes : Nat → Option Nat :=
  Compressed.portIndex decodeWidth fun k =>
    t.rename.decPacket[k]?.join.any fun uop => IssueQueue.int.takes uop

def coreInputs : CommitCore.Inputs where
  push := t.issued i
  completions := i.completions
  commit := i.commit

def needFlush : Bool := t.core.needFlush (t.coreInputs i)

def popCount : Nat := t.core.popCount (t.coreInputs i)

def step : DispatchCore where
  rename := t.rename.step (t.renameInputs i)
  core := t.core.step (t.coreInputs i)
  isValid :=
    if t.needFlush i then false
    else if t.renameStuck i then t.isValid && t.isStuck else t.rename.isValid
  slots := if t.renameStuck i then t.slots else t.leaving i
  pushIndexes := if t.renameStuck i then t.pushIndexes else t.nextPushIndexes
  queue q := q.next (t.queue q) (i.waken q) (t.pushPort q) (i.issueFire q) t.rename.regFlush
  renamed := if t.needFlush i then [] else t.renamed ++ t.leaving i
  popped := if t.needFlush i then 0 else t.popped + t.popCount i
  entered q := if t.needFlush i then [] else t.entered q ++ t.pushes q

structure Init (t : DispatchCore) : Prop where
  rename : t.rename.Init
  pointers : t.core.rob.ptr = {}
  isValid : t.isValid = false
  queue : ∀ q k, t.queue q k = none
  renamed : t.renamed = []
  popped : t.popped = 0
  entered : ∀ q, t.entered q = []

/-- The decoder's promise on the next group. -/
structure Legal (t : DispatchCore) (i : Inputs) : Prop where
  decoded : i.nextValid = true → RenameStage.Decoded (i.nextGroup.map some)

def machine : Clocked.Machine DispatchCore Inputs where
  init := Init
  legal := Legal
  step := step

end DispatchCore

end NopCore
