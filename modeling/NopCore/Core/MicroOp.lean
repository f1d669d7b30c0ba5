import NopCore.Privilege.ExceptionHandler

/-!
# Decoded instructions

A decoded instruction carries the fields that rename, the reorder buffer and
commit read. What the decoder computes from other fields (whether an
instruction transfers control, whether it flushes the pipeline, whether it must
retire alone) is a function of them here, so a decoded instruction cannot
contradict itself.
-/

namespace NopCore

/-- The ways of a set and the lanes of a packet are numbered from zero. -/
scoped instance neZeroTwo : @NeZero Nat Zero.ofOfNat0 2 := ⟨by decide⟩

scoped instance neZeroFour : @NeZero Nat Zero.ofOfNat0 4 := ⟨by decide⟩

inductive FUType
  | none | alu | cmp | csr | timer | invtlb | mul | mulh | div | mod | lsu
  deriving DecidableEq, Repr

inductive TLBOpType
  | none | tlbsrch | tlbrd | tlbwr | tlbfill
  | invtlb1 | invtlb2 | invtlb3 | invtlb4 | invtlb5 | invtlb6
  deriving DecidableEq, Repr

inductive CacheOpType
  | none | storeTag | indexInvalidate | hitInvalidate
  deriving DecidableEq, Repr

inductive CacheSelType
  | none | iCache | dCache | sharedCache
  deriving DecidableEq, Repr

inductive LoadStoreType
  | byte | half | word | byteU | halfU | cacop | preld
  deriving DecidableEq, Repr

/-- Enumerations travel through the reorder buffer as their two-bit encoding. -/
def CacheOpType.fromBits (b : BitVec 2) : CacheOpType :=
  match b.toNat with
  | 0 => .none
  | 1 => .storeTag
  | 2 => .indexInvalidate
  | _ => .hitInvalidate

def CacheSelType.fromBits (b : BitVec 2) : CacheSelType :=
  match b.toNat with
  | 0 => .none
  | 1 => .iCache
  | 2 => .dCache
  | _ => .sharedCache

/-! ## Branch prediction -/

/-- What the branch target buffer finds in the four slots of a fetch packet. -/
structure PredictorLookup where
  hit : Fin 4 → Bool
  predTaken : Fin 4 → Bool

namespace PredictorLookup

variable (l : PredictorLookup)

def branchMask (i : Fin 4) : Bool := l.hit i

/-- The scan runs from the last slot to the first, so the first taken hit is the
one the packet jumps at. -/
def jumpWay : Option (Fin 4) := (List.finRange 4).find? fun i => l.hit i && l.predTaken i

def takenMask (i : Fin 4) : Bool := l.jumpWay == some i

/-- Only a slot known as a branch is predicted taken. -/
theorem branchMask_of_takenMask {i : Fin 4} (h : l.takenMask i = true) :
    l.branchMask i = true := by
  have hway : l.jumpWay = some i := by simpa [takenMask] using h
  have hfound := List.find?_some hway
  simp only [Bool.and_eq_true] at hfound
  exact hfound.1

end PredictorLookup

theorem BranchPredictInfo.unset : false = true → false = true := id

/-- The prediction an instruction was fetched with. The predictor predicts taken
only where it knows a branch. -/
structure BranchPredictInfo where
  predictBranch : Bool := false
  predictTaken : Bool := false
  predictAddr : UWord := 0
  branch_of_taken : predictTaken = true → predictBranch = true := by
    first | exact BranchPredictInfo.unset | decide
  deriving DecidableEq

/-- The prediction handed to the instruction in slot `i` of a packet. -/
def PredictorLookup.predInfo (l : PredictorLookup) (i : Fin 4) (predictAddr : UWord) :
    BranchPredictInfo :=
  ⟨l.branchMask i, l.takenMask i, predictAddr, l.branchMask_of_takenMask⟩

/-- Predictor state saved with an instruction, to be restored on a mispredict. -/
structure PredictRecover where
  recoverTop : BitVec 3 := 0
  predictCounter : BitVec 2 := 0
  ghr : BitVec 5 := 0
  deriving DecidableEq

/-! ## Micro-operations -/

structure MicroOp where
  pc : UWord := 0
  inst : BitVec 32 := 0
  predInfo : BranchPredictInfo := {}
  predRecover : PredictRecover := {}
  fuType : FUType := .alu
  useRj : Bool := false
  useRk : Bool := false
  useRd : Bool := false
  wbAddr : Nat := 0
  doRegWrite : Bool := false
  lsType : LoadStoreType := .byte
  isLoad : Bool := false
  isStore : Bool := false
  isBranch : Bool := false
  isJump : Bool := false
  isJR : Bool := false
  writeCSR : Bool := false
  tlbOp : TLBOpType := .none
  operateCache : Bool := false
  isWait : Bool := false
  isBar : Bool := false
  isLL : Bool := false
  isSC : Bool := false
  isErtn : Bool := false
  except : ExceptionPayload := {}
  deriving DecidableEq

namespace MicroOp

variable (uop : MicroOp)

def operateTLB : Bool := uop.tlbOp != .none

def branchLike : Bool := uop.isBranch || uop.isJump || uop.isJR

/-- The instruction changes state that younger instructions may have read. -/
def flushState : Bool :=
  uop.isErtn || uop.writeCSR || uop.isWait || uop.operateTLB || uop.operateCache ||
    uop.isBar || uop.isLL || uop.isSC

/-- The instruction retires only from port 0. -/
def uniqueRetire : Bool :=
  uop.flushState || uop.branchLike || uop.isLoad || uop.isStore || uop.predInfo.predictBranch

def needNotExecute : Bool := uop.except.valid || uop.fuType == .none

theorem uniqueRetire_of_predictTaken (h : uop.predInfo.predictTaken = true) :
    uop.uniqueRetire = true := by
  simp [uniqueRetire, uop.predInfo.branch_of_taken h]

end MicroOp

end NopCore
