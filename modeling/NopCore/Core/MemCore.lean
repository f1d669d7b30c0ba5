import NopCore.Core.Repair
import NopCore.Mem.Loading
import NopCore.Mem.StoreOrder

/-!
# The reorder buffer and the memory pipeline

A memory instruction is in two places at once. In the reorder buffer it waits for
its turn to retire; between rename and the last stage of the memory pipeline it is
executed, in program order. WB reports it complete. What commit decides comes back
to the memory pipeline as the retirement of a store-buffer entry and, one cycle
after a flush, as the flush of all stages.

Nothing in the circuit relates a store-buffer entry to the instruction that retires.
To say which belongs to which, instructions are numbered in the order in which they
are renamed, and the entries carry these numbers.
-/

namespace NopCore

/-- The result of a load: the bytes it asked for, extended. -/
def loadPostprocess (accessType : LoadStoreType) (wordOffset : BitVec 2) (readWord : BWord) :
    BWord :=
  let extended (signed : Bool) (top : BitVec 8) : BitVec 8 :=
    if signed && top.msb then BitVec.allOnes 8 else 0
  let byte (signed : Bool) : BWord := fun k =>
    if k = 0 then readWord wordOffset.toFin else extended signed (readWord wordOffset.toFin)
  let half (signed : Bool) : BWord := fun k =>
    let low := if wordOffset.getLsbD 1 then readWord 2 else readWord 0
    let high := if wordOffset.getLsbD 1 then readWord 3 else readWord 1
    if k = 0 then low else if k = 1 then high else extended signed high
  match accessType with
  | .byte => byte true
  | .byteU => byte false
  | .half => half true
  | .halfU => half false
  | .word | .cacop | .preld => readWord

/-- The instruction in WB, its destination and the word that was read. -/
structure MemWriteback where
  isValid : Bool := false
  uop : MemUop := {}
  writeReg : Option Nat := none
  readData : BWord := fun _ => 0

/-- The reorder buffer and the memory pipeline. Memory instructions wait between
rename and issue. The rest is a record of the run: `oldest` is the number of the
oldest instruction in the reorder buffer, `passed` has what has left MEM2, the log
the accesses that entered the store buffer, `committed` the instructions for which
commit has retired an entry, and `dropped` those that a flush removed or that left
without an access. `reads` are the loads whose read the uncached bus has taken, and
`returned` has the words that came back for them. -/
structure MemCore where
  core : CommitCore := {}
  waiting : List MemRequest := []
  pipeline : MemPipeline := {}
  wb : MemWriteback := {}
  regFlush : Bool := false
  oldest : Nat := 0
  passed : List MemUop := []
  log : AccessLog := {}
  committed : List Nat := []
  dropped : List Nat := []
  reads : List Nat := []
  returned : List (Nat × BWord) := []

namespace MemCore

/-- The instructions that are renamed, the completions of the other pipes, what
commit reads, what the address stages and the buses contribute, and the part of a
memory completion that is of no concern here. -/
structure Inputs where
  push : List PushPort := []
  completions : List Completion := []
  commit : CommitInputs := {}
  mem : MemPipeline.Inputs := {}
  except : ExceptionPayload := {}
  result : UWord := 0

/-- The instruction enters the memory issue queue. -/
def entersQueue (uop : MicroOp) : Bool := uop.fuType == .lsu && !uop.except.valid

/-- The slot that an instruction is given in the queue. -/
def request (number robIdx : Nat) (info : ROBEntryInfo) : MemRequest where
  number := number
  robIdx := robIdx
  isLoad := info.uop.isLoad
  isStore := info.uop.isStore
  isSC := info.uop.isSC
  lsType := info.uop.lsType
  wReg := if info.uop.doRegWrite then some info.rename.wReg else none

variable (t : MemCore) (i : Inputs)

/-! ## Numbers -/

def count : Nat := t.core.rob.ptr.count robDepth

/-- The number of the next instruction that is renamed. -/
def next : Nat := t.oldest + t.count

/-- The ring index of an instruction in the reorder buffer. -/
def idx (n : Nat) : Nat := t.core.entry (n - t.oldest)

def info (n : Nat) : ROBEntryInfo := t.core.rob.robInfo (t.idx n)

def state (n : Nat) : ROBEntryState := t.core.rob.robState (t.idx n)

/-- The instructions in the reorder buffer that go through the memory pipeline. -/
def memNumbers : List Nat :=
  (List.range' t.oldest t.count).filter fun n => entersQueue (t.info n).uop

/-- The instruction that is renamed under a number. -/
def renamed (n : Nat) : ROBEntryInfo := (i.push.getD (n - t.next) {}).info

def renamedNumbers : List Nat :=
  (List.range' t.next i.push.length).filter fun n => entersQueue (t.renamed i n).uop

/-! ## The circuit -/

/-- An uncached load has reached WB. -/
def uncachedDone : Bool := t.pipeline.wb.any fun std => !std.isStore

def commitInputs : CommitInputs := { i.commit with uncachedDone := t.uncachedDone }

def commitStore : Bool := Commit.commitStore t.core.ports t.core.fsm (t.commitInputs i)

def memReport : Completion where
  unit := .mem
  robIdx := t.wb.uop.robIdx
  uop := (t.core.rob.robInfo t.wb.uop.robIdx).uop
  result := i.result
  except := { i.except with valid := t.wb.uop.except }
  lsuUncached := !t.wb.uop.cached

/-- The report of WB. A flush removes it. -/
def memCompletion : List Completion :=
  if t.wb.isValid && !t.regFlush then [t.memReport i] else []

def coreInputs : CommitCore.Inputs where
  push := i.push
  completions := t.memCompletion i ++ i.completions
  commit := t.commitInputs i

def needFlush : Bool := t.core.needFlush (t.coreInputs i)

def popCount : Nat := t.core.popCount (t.coreInputs i)

/-- The head of the issue queue. In the cycle of a flush the queue still has its
old instructions. -/
def head : MemUop :=
  match t.waiting with
  | [] => i.mem.head
  | r :: _ => { i.mem.head with toMemRequest := r }

def memInputs : MemPipeline.Inputs :=
  { i.mem with
    head := t.head i
    headReady := i.mem.headReady && (t.regFlush || !t.waiting.isEmpty)
    commitStore := t.commitStore i
    flush := t.regFlush }

/-- The head leaves the queue. -/
def issues : Bool :=
  t.pipeline.issValid (t.memInputs i) && !t.pipeline.stuck1 (t.memInputs i) && !t.regFlush

/-- MEM2 hands its instruction to WB. -/
def departs : Bool :=
  t.pipeline.mem2.isValid && !t.pipeline.stuck2 (t.memInputs i) && !t.regFlush

def nextWb : MemWriteback where
  isValid := t.departs i
  uop := t.pipeline.uop2
  writeReg :=
    match t.pipeline.mem2.std with
    | some std => if std.isStore then t.pipeline.uop2.wReg else std.wReg
    | none => t.pipeline.uop2.wReg
  readData :=
    match t.pipeline.mem2.std with
    | some std => loadPostprocess std.lsType (std.addr.extractLsb' 0 2) t.pipeline.memRData
    | none =>
      loadPostprocess t.pipeline.uop2.lsType (t.pipeline.uop2.addr.extractLsb' 0 2)
        t.pipeline.memRData

/-- The link bit as a word. -/
def linkWord (llbit : Bool) : BWord := fun k => if k = 0 && llbit then 1 else 0

/-- The register that WB writes. A store-conditional reports whether it succeeds. -/
def regWrite : Option (Nat × BWord) :=
  if ((t.wb.isValid && (t.wb.uop.cached || t.wb.uop.isSC)) || t.uncachedDone) && !t.regFlush then
    t.wb.writeReg.map fun wReg =>
      if t.wb.isValid && t.wb.uop.isSC then
        (t.wb.uop.wReg.getD wReg, linkWord i.commit.handler.llbctlLLBIT)
      else (wReg, t.wb.readData)
  else none

/-- The head of the reorder buffer leaves without an access: an exception or an
interrupt takes its place, or its link has been lost. -/
def abandons : Bool :=
  Commit.hasExcept t.core.ports t.core.fsm (t.commitInputs i) ||
    ((t.core.ports 0).uop.isSC && !i.commit.handler.llbctlLLBIT)

def step : MemCore where
  core := t.core.step (t.coreInputs i)
  waiting :=
    if t.needFlush i then []
    else (if t.issues i then t.waiting.tail else t.waiting) ++
      (t.renamedNumbers i).map fun n =>
        request n (Ring.slot robDepth t.core.rob.ptr.push (n - t.next)) (t.renamed i n)
  pipeline := t.pipeline.step (t.memInputs i)
  wb := t.nextWb i
  regFlush := t.needFlush i
  oldest := if t.needFlush i then t.next + i.push.length else t.oldest + t.popCount i
  passed := if t.departs i then t.passed ++ [t.pipeline.uop2] else t.passed
  log := t.log.next t.pipeline (t.memInputs i)
  committed := if t.commitStore i then t.committed ++ [t.oldest] else t.committed
  dropped :=
    if t.needFlush i then
      t.dropped ++ (List.range' t.oldest (t.count + i.push.length)).filter fun n =>
        n != t.oldest || t.abandons i
    else t.dropped
  reads :=
    if t.pipeline.uArFire (t.memInputs i) then
      t.reads ++ t.pipeline.mem2.std.toList.map fun std => std.number
    else t.reads
  returned :=
    if t.pipeline.uRFire (t.memInputs i) then
      t.returned ++ t.pipeline.mem2.std.toList.map fun std => (std.number, i.mem.uRData)
    else t.returned

structure Init (t : MemCore) : Prop where
  core : CommitCore.machine.init t.core
  waiting : t.waiting = []
  pipeline : t.pipeline.Init
  wb : t.wb.isValid = false
  regFlush : t.regFlush = false
  passed : t.passed = []
  log : t.log = {}
  committed : t.committed = []
  dropped : t.dropped = []
  reads : t.reads = []
  returned : t.returned = []

/-- What decoding gives to a memory instruction: it goes to the memory pipeline, it
is not both load and store, and a store-conditional is a store. -/
structure Decodes (uop : MicroOp) : Prop where
  lsu : uop.isLoad = true ∨ uop.isStore = true → uop.fuType = .lsu
  one : ¬ (uop.isLoad = true ∧ uop.isStore = true)
  isSC : uop.isSC = true → uop.isStore = true

/-- What the rest of the core keeps to, as for the reorder buffer alone. The other
pipes do not report memory instructions, and the queue has decoded instructions,
also in the cycle of a flush. -/
structure Legal (t : MemCore) (i : Inputs) : Prop where
  width : i.push.length ≤ decodeWidth
  ready : ∀ k < i.push.length, t.core.rob.ptr.pushReady robDepth k = true
  unit : ∀ c ∈ i.completions, c.unit ≠ .mem
  notPushed : ∀ c ∈ i.completions, ROBFIFO.pushAt t.core.rob.ptr.push c.robIdx 0 i.push = none
  executes : ∀ c ∈ i.completions, ∀ j < t.count, c.robIdx = t.core.entry j →
    c.uop = (t.core.rob.robInfo c.robIdx).uop ∧ c.uop.needNotExecute = false ∧
      c.unit.executes c.uop.fuType = true
  follows : ∀ target, t.core.redirected = some target → ∀ p ∈ i.push.head?, p.uop.pc = target
  decoded : ∀ p ∈ i.push, Decodes p.uop
  stale : ¬ (i.mem.head.isLoad = true ∧ i.mem.head.isStore = true)

def machine : Clocked.Machine MemCore Inputs where
  init := Init
  legal := Legal
  step := step

instance (uop : MicroOp) : Decidable (Decodes uop) :=
  decidable_of_iff
    ((uop.isLoad = true ∨ uop.isStore = true → uop.fuType = .lsu) ∧
      ¬ (uop.isLoad = true ∧ uop.isStore = true) ∧ (uop.isSC = true → uop.isStore = true))
    ⟨fun ⟨h1, h2, h3⟩ => ⟨h1, h2, h3⟩, fun h => ⟨h.lsu, h.one, h.isSC⟩⟩

instance (t : MemCore) (i : Inputs) : Decidable (machine.legal t i) :=
  decidable_of_iff
    (i.push.length ≤ decodeWidth ∧
      (∀ k < i.push.length, t.core.rob.ptr.pushReady robDepth k = true) ∧
      (∀ c ∈ i.completions, c.unit ≠ .mem) ∧
      (∀ c ∈ i.completions, ROBFIFO.pushAt t.core.rob.ptr.push c.robIdx 0 i.push = none) ∧
      (i.completions.all fun c => (List.range t.count).all fun j =>
        decide (c.robIdx = t.core.entry j → c.uop = (t.core.rob.robInfo c.robIdx).uop ∧
          c.uop.needNotExecute = false ∧ c.unit.executes c.uop.fuType = true)) = true ∧
      (t.core.redirected.all fun target =>
        i.push.head?.all fun p => p.uop.pc == target) = true ∧
      (∀ p ∈ i.push, Decodes p.uop) ∧
      ¬ (i.mem.head.isLoad = true ∧ i.mem.head.isStore = true))
    (by
      simp only [List.all_eq_true, List.mem_range, decide_eq_true_eq, Option.all_eq_true,
        beq_iff_eq]
      exact ⟨fun ⟨h1, h2, h3, h4, h5, h6, h7, h8⟩ => ⟨h1, h2, h3, h4, h5, h6, h7, h8⟩,
        fun h => ⟨h.width, h.ready, h.unit, h.notPushed, h.executes, h.follows, h.decoded,
          h.stale⟩⟩)

variable {t i}

/-! ## One cycle of the reorder buffer -/

theorem slot_of_entry {n : Nat} (hold : t.oldest ≤ n) (hlt : n < t.next) :
    ∃ j < t.count, n = t.oldest + j ∧ t.idx n = t.core.entry j := by
  refine ⟨n - t.oldest, ?_, by omega, rfl⟩
  rw [next] at hlt
  omega

theorem idx_inj (hcore : t.core.Inv) {m n : Nat} (hm : t.oldest ≤ m) (hm' : m < t.next)
    (hn : t.oldest ≤ n) (hn' : n < t.next) (heq : t.idx m = t.idx n) : m = n := by
  have hle : t.count ≤ robDepth := Ring.Pointers.count_le hcore.range
  rw [next] at hm' hn'
  have hoffset := Ring.slot_inj (by omega) (by omega) heq
  omega

theorem mem_memNumbers {n : Nat} : n ∈ t.memNumbers ↔
    (t.oldest ≤ n ∧ n < t.next) ∧ entersQueue (t.info n).uop = true := by
  rw [memNumbers, List.mem_filter, List.mem_range'_1, next]

theorem pairwise_memNumbers : t.memNumbers.Pairwise (· < ·) :=
  (List.pairwise_lt_range' 1).filter _

section Rob

variable (hcore : t.core.Inv) (hlegal : t.core.Legal (t.coreInputs i))

include hcore hlegal

theorem room : t.count + i.push.length ≤ robDepth := CommitCore.room hcore.range hlegal

omit hcore hlegal in
theorem popCount_le_count : t.popCount i ≤ t.count := CommitCore.popCount_le _ _

theorem count_step : (t.step i).count =
    if t.needFlush i then 0 else t.count + i.push.length - t.popCount i :=
  CommitCore.count_step hcore.range hlegal

variable (hflush : t.needFlush i = false)

include hflush

omit hcore hlegal in
theorem oldest_step : (t.step i).oldest = t.oldest + t.popCount i := by
  simp [step, hflush]

theorem next_step : (t.step i).next = t.next + i.push.length := by
  have hle := popCount_le_count (t := t) (i := i)
  rw [next, oldest_step hflush, count_step hcore hlegal, hflush,
    if_neg Bool.false_ne_true, next]
  omega

omit hcore hlegal in
theorem idx_step {n : Nat} (hn : t.oldest + t.popCount i ≤ n) : (t.step i).idx n = t.idx n := by
  rw [idx, idx, oldest_step hflush]
  refine (CommitCore.entry_step hflush _).trans ?_
  change t.core.entry (t.popCount i + _) = _
  congr 1
  omega

/-- An instruction that stays keeps its place and its information; one that is
renamed brings its own. -/
theorem info_step {n : Nat} (hn : t.oldest + t.popCount i ≤ n)
    (hlt : n < t.next + i.push.length) :
    (t.step i).info n = if n < t.next then t.info n else t.renamed i n := by
  have hroom := room hcore hlegal
  rw [next] at hlt
  have hpushAt : ROBFIFO.pushAt t.core.rob.ptr.push (t.idx n) 0 i.push = _ :=
    ROBFIFO.pushAt_slot hcore.range (o := n - t.oldest) (by omega) hroom
  have hinfo : (t.step i).core.rob.robInfo (t.idx n) = _ :=
    ROBFIFO.step_robInfo hcore.range.push (Ring.slot_lt hcore.range.pos _ _)
      (by change i.push.length ≤ _; omega)
  rw [info, idx_step hflush hn, hinfo]
  change ((ROBFIFO.pushAt t.core.rob.ptr.push (t.idx n) 0 i.push).map PushPort.info).getD _ = _
  rw [hpushAt]
  by_cases hold : n < t.next
  · rw [if_neg (by rw [next] at hold; change ¬ t.count ≤ _; omega), if_pos hold]
    rfl
  · rw [next] at hold
    rw [if_pos (by change t.count ≤ _; omega), if_neg (by rw [next]; exact hold), renamed, next,
      List.getD_eq_getElem?_getD, Nat.sub_add_eq]
    change ((i.push[n - t.oldest - t.count]?).map PushPort.info).getD _ = _
    rw [List.getElem?_eq_getElem (by omega)]
    rfl

omit hlegal in
theorem idx_renamed {n : Nat} (hn : t.next ≤ n) :
    (t.step i).idx n = Ring.slot robDepth t.core.rob.ptr.push (n - t.next) := by
  have hle := popCount_le_count (t := t) (i := i)
  rw [next] at hn
  rw [idx_step hflush (by omega), idx, CommitCore.entry, next,
    Ring.Pointers.push_eq_slot hcore.range, Ring.slot_slot]
  change _ = Ring.slot robDepth t.core.rob.ptr.pop (t.count + _)
  congr 1
  omega

/-- The memory instructions after the cycle: those that have not left, and the
renamed ones. -/
theorem memNumbers_step : (t.step i).memNumbers =
    (t.memNumbers.filter fun n => decide (t.oldest + t.popCount i ≤ n)) ++ t.renamedNumbers i := by
  have hle := popCount_le_count (t := t) (i := i)
  have hsplit : List.range' (t.step i).oldest (t.step i).count =
      List.range' (t.oldest + t.popCount i) (t.count - t.popCount i) ++
        List.range' t.next i.push.length := by
    have hnext : t.next = t.oldest + t.popCount i + (t.count - t.popCount i) := by
      rw [next]
      omega
    rw [oldest_step hflush, count_step hcore hlegal, hflush,
      if_neg Bool.false_ne_true, hnext, List.range'_append_1]
    congr 1
    omega
  have hstay : (List.range' t.oldest t.count).filter
      (fun n => decide (t.oldest + t.popCount i ≤ n)) =
        List.range' (t.oldest + t.popCount i) (t.count - t.popCount i) := by
    have hcut : List.range' t.oldest t.count = List.range' t.oldest (t.popCount i) ++
        List.range' (t.oldest + t.popCount i) (t.count - t.popCount i) := by
      rw [List.range'_append_1, Nat.add_sub_cancel' hle]
    rw [hcut, List.filter_append, List.filter_eq_nil_iff.mpr, List.filter_eq_self.mpr,
      List.nil_append]
    · intro n hn
      simpa using (List.mem_range'_1.mp hn).1
    · intro n hn
      simpa using (List.mem_range'_1.mp hn).2
  rw [memNumbers, hsplit, List.filter_append, memNumbers, List.filter_filter, renamedNumbers]
  congr 1
  · rw [← hstay, List.filter_filter]
    refine List.filter_congr fun n hn => ?_
    rw [List.mem_range'_1, ← next] at hn
    by_cases hpop : t.oldest + t.popCount i ≤ n
    · rw [info_step hcore hlegal hflush hpop (by omega), if_pos hn.2, Bool.and_comm]
    · simp [hpop]
  · refine List.filter_congr fun n hn => ?_
    rw [List.mem_range'_1] at hn
    have hnext : t.oldest + t.popCount i ≤ n := by
      rw [next] at hn
      omega
    rw [info_step hcore hlegal hflush hnext hn.2, if_neg (by omega)]

/-- The state of an instruction that stays is the one reported, if there is a
report on it. -/
theorem state_step {n : Nat} (hn : t.oldest + t.popCount i ≤ n) (hlt : n < t.next) :
    (t.step i).state n =
      ((ROBFIFO.completionAt (t.idx n) (ROBFIFO.inPortOrder (t.coreInputs i).completions)).map
        Completion.state).getD (t.state n) := by
  have hroom := room hcore hlegal
  rw [next] at hlt
  have hpushAt : ROBFIFO.pushAt t.core.rob.ptr.push (t.idx n) 0 i.push = _ :=
    ROBFIFO.pushAt_slot hcore.range (o := n - t.oldest) (by omega) hroom
  rw [if_neg (by change ¬ t.count ≤ _; omega)] at hpushAt
  have hstate : (t.step i).core.rob.robState (t.idx n) = _ :=
    ROBFIFO.step_robState hcore.range.push (Ring.slot_lt hcore.range.pos _ _)
      (by change i.push.length ≤ _; omega)
  rw [state, idx_step hflush hn, hstate]
  change Option.getD _ (((ROBFIFO.pushAt t.core.rob.ptr.push (t.idx n) 0 i.push).map _).getD _) = _
  rw [hpushAt]
  rfl

/-- A renamed instruction starts with the state that rename writes. -/
theorem state_renamed {n : Nat} (hn : t.next ≤ n) (hlt : n < t.next + i.push.length) :
    ∃ p ∈ i.push, t.renamed i n = p.info ∧ ∃ old, (t.step i).state n = p.state old := by
  have hroom := room hcore hlegal
  have hle := popCount_le_count (t := t) (i := i)
  have hidx := idx_renamed hcore hflush hn
  rw [next] at hn hlt
  obtain ⟨p, hp⟩ : ∃ p, i.push[n - t.next]? = some p :=
    ⟨_, List.getElem?_eq_getElem (by rw [next]; omega)⟩
  have hpushAt : ROBFIFO.pushAt t.core.rob.ptr.push ((t.step i).idx n) 0 i.push = some p := by
    have hoffset : n - t.next < robDepth := by
      rw [next]
      omega
    rw [hidx, ROBFIFO.pushAt, Ring.offset_slot hcore.range.push hoffset,
      if_pos (Nat.zero_le _), Nat.sub_zero]
    exact hp
  have hstate : (t.step i).core.rob.robState ((t.step i).idx n) = _ :=
    ROBFIFO.step_robState hcore.range.push (by rw [hidx]; exact Ring.slot_lt hcore.range.pos _ _)
      (by change i.push.length ≤ _; omega)
  have hnone : ROBFIFO.completionAt ((t.step i).idx n)
      (ROBFIFO.inPortOrder (t.coreInputs i).completions) = none := by
    rw [Option.eq_none_iff_forall_not_mem]
    intro c hc
    obtain ⟨hmem, hrob⟩ := ROBFIFO.mem_of_completionAt hc
    have hno := hlegal.notPushed c hmem
    rw [hrob] at hno
    exact Option.some_ne_none p (hpushAt.symm.trans hno)
  refine ⟨p, List.mem_of_getElem? hp, ?_, t.core.rob.robState ((t.step i).idx n), ?_⟩
  · rw [renamed, List.getD_eq_getElem?_getD, hp]
    rfl
  · rw [state, hstate, hnone]
    change (((ROBFIFO.pushAt t.core.rob.ptr.push ((t.step i).idx n) 0 i.push).map _).getD _) = _
    rw [hpushAt]
    rfl

end Rob

/-- What leaves the reorder buffer is complete. -/
theorem complete_of_popped (hcore : t.core.Inv) {n : Nat} (hold : t.oldest ≤ n)
    (hpop : n < t.oldest + t.popCount i) : (t.state n).complete = true := by
  have hle := popCount_le_count (t := t) (i := i)
  have hfire : Commit.fire t.core.ports t.core.fsm (t.commitInputs i) (n - t.oldest) = true :=
    Commit.fire_of_lt_popCount (by change _ < t.popCount i; omega)
  simp only [Commit.fire, Commit.ready, Bool.and_eq_true] at hfire
  have hcomplete := hfire.2.1.1.1.1
  simp only [Commit.completeMask, List.all_eq_true, List.mem_range] at hcomplete
  have hport := hcomplete (n - t.oldest) (by omega)
  rw [CommitCore.ports, hcore.popState _ (by change _ < t.count; omega)] at hport
  exact hport

/-! ## The order of memory instructions -/

def stageRequests (st : MemStage) : List MemRequest :=
  if st.isValid then [st.uop.toMemRequest] else []

/-- The memory instructions between rename and MEM2, from the oldest on. -/
def pipeRequests (t : MemCore) : List MemRequest :=
  stageRequests t.pipeline.mem2 ++ stageRequests t.pipeline.mem1 ++
    stageRequests t.pipeline.memaddr ++ stageRequests t.pipeline.rrd ++ t.waiting

/-- The memory instruction in WB. -/
def wbUops (t : MemCore) : List MemUop := if t.wb.isValid then [t.wb.uop] else []

/-- What an instruction in the reorder buffer has brought to the queue. -/
def requestOf (t : MemCore) (n : Nat) : MemRequest := request n (t.idx n) (t.info n)

def inFlight (t : MemCore) (n : Nat) : Bool := decide (t.oldest ≤ n) && decide (n < t.next)

/-- The reorder buffer has the report on the instruction. -/
structure Reported (t : MemCore) (u : MemUop) : Prop where
  complete : (t.state u.number).complete = true
  except : (t.state u.number).except.valid = u.except
  uncached : (t.state u.number).lsuUncached = !u.cached

/-- The memory instructions in the reorder buffer are, from the oldest on, those
that WB has reported, the one in WB, and those in front of it. -/
structure Ordered (t : MemCore) (done : List MemUop) : Prop where
  requests : (done ++ t.wbUops).map MemUop.toMemRequest ++ t.pipeRequests =
    t.memNumbers.map t.requestOf
  reported : ∀ u ∈ done, t.Reported u
  incomplete : ∀ r ∈ t.wbUops.map MemUop.toMemRequest ++ t.pipeRequests,
    (t.state r.number).complete = false
  passed : t.passed.filter (fun u => t.inFlight u.number) = done ++ t.wbUops
  passed_lt : ∀ u ∈ t.passed, u.number < t.next

/-- What decoding says about the instructions in the reorder buffer. -/
structure Decoded (t : MemCore) : Prop where
  decodes : ∀ n, t.oldest ≤ n → n < t.next → Decodes (t.info n).uop
  except : ∀ n, t.oldest ≤ n → n < t.next →
    (t.info n).uop.except.valid = true → (t.state n).except.valid = true

variable {done : List MemUop}

theorem Ordered.numbers (h : t.Ordered done) :
    (done ++ t.wbUops).map (fun u => u.number) ++ t.pipeRequests.map MemRequest.number =
      t.memNumbers := by
  have hnumbers := congrArg (List.map MemRequest.number) h.requests
  rw [List.map_append, List.map_map, List.map_map] at hnumbers
  exact hnumbers.trans (List.map_id _)

theorem Ordered.mem_requests (h : t.Ordered done) {r : MemRequest}
    (hr : r ∈ (done ++ t.wbUops).map MemUop.toMemRequest ++ t.pipeRequests) :
    r.number ∈ t.memNumbers ∧ r = t.requestOf r.number := by
  rw [h.requests] at hr
  obtain ⟨n, hn, rfl⟩ := List.mem_map.mp hr
  exact ⟨hn, rfl⟩

theorem Ordered.mem_passed (h : t.Ordered done) {u : MemUop} (hu : u ∈ done ++ t.wbUops) :
    u.number ∈ t.memNumbers ∧ u.toMemRequest = t.requestOf u.number :=
  h.mem_requests (List.mem_append_left _ (List.mem_map_of_mem hu))

theorem Ordered.pairwise (h : t.Ordered done) :
    ((done ++ t.wbUops).map (fun u => u.number) ++
      t.pipeRequests.map MemRequest.number).Pairwise (· < ·) :=
  h.numbers ▸ pairwise_memNumbers

theorem mem_wbUops (hvalid : t.wb.isValid = true) : t.wb.uop ∈ t.wbUops := by
  simp [wbUops, hvalid]

theorem executes_of_entersQueue {uop : MicroOp} (h : entersQueue uop = true) :
    uop.fuType = .lsu ∧ uop.needNotExecute = false := by
  simp only [entersQueue, Bool.and_eq_true, beq_iff_eq, Bool.not_eq_true'] at h
  simp [MicroOp.needNotExecute, h]

/-- The inputs of the reorder buffer are those that it expects. -/
theorem coreLegal (hcore : t.core.Inv)
    (hordered : t.regFlush = false → ∃ done, t.Ordered done) (hi : t.Legal i) :
    t.core.Legal (t.coreInputs i) := by
  have hroom : t.count + i.push.length ≤ robDepth :=
    Ring.Pointers.room hcore.range (hi.width.trans (by decide)) hi.ready
  have hwb : ∀ c ∈ t.memCompletion i, ∃ j < t.count, c.robIdx = t.core.entry j ∧
      c.uop = (t.core.rob.robInfo c.robIdx).uop ∧ c.unit = .mem ∧
      entersQueue (t.core.rob.robInfo c.robIdx).uop = true := by
    intro c hc
    rw [memCompletion] at hc
    split_ifs at hc with hvalid
    · simp only [Bool.and_eq_true, Bool.not_eq_true'] at hvalid
      obtain ⟨done, h⟩ := hordered hvalid.2
      obtain ⟨hn, hrequest⟩ := h.mem_passed (List.mem_append_right _ (mem_wbUops hvalid.1))
      obtain ⟨⟨hold, hlt⟩, henters⟩ := mem_memNumbers.mp hn
      obtain ⟨j, hj, -, hidx⟩ := slot_of_entry hold hlt
      have hrob : t.wb.uop.robIdx = t.idx t.wb.uop.number := congrArg MemRequest.robIdx hrequest
      obtain rfl := List.mem_singleton.mp hc
      refine ⟨j, hj, hrob.trans hidx, rfl, rfl, ?_⟩
      rw [show (t.memReport i).robIdx = t.idx t.wb.uop.number from hrob]
      exact henters
    · cases hc
  refine ⟨hi.width, hi.ready, ?_, ?_, hi.follows⟩
  · intro c hc
    obtain hc | hc := List.mem_append.mp hc
    · obtain ⟨j, hj, hrob, -⟩ := hwb c hc
      have hpushAt : ROBFIFO.pushAt t.core.rob.ptr.push (t.core.entry j) 0 i.push = _ :=
        ROBFIFO.pushAt_slot hcore.range (o := j) (by omega) hroom
      rw [if_neg (by change ¬ t.count ≤ j; omega)] at hpushAt
      rw [hrob]
      exact hpushAt
    · exact hi.notPushed c hc
  · intro c hc j hj hrob
    obtain hc | hc := List.mem_append.mp hc
    · obtain ⟨-, -, -, huop, hunit, henters⟩ := hwb c hc
      obtain ⟨hlsu, hexecutes⟩ := executes_of_entersQueue henters
      rw [huop, hunit, hlsu]
      exact ⟨rfl, hexecutes, rfl⟩
    · exact hi.executes c hc j hj hrob

end MemCore

end NopCore
