import NopCore.Core.PrivilegedCore
import NopCore.Decode.Decoder

/-!
# Decoding and commit

The words at the head of the fetch buffer are decoded in one cycle, at the privilege
level of that cycle, and held in RENAME for the next one. From there they enter the
reorder buffer. The level changes when an instruction retires or an exception is
entered, and this flushes the stages in the same cycle. So all instructions behind the
decoder have been decoded at the present level.

A cache operation is told to the two caches in different places: the data cache learns
of it from the slot in the memory pipeline, the instruction cache from commit.
-/

namespace NopCore

/-- What the memory issue queue makes of the word of an instruction. -/
def MicroOp.cacheOp (uop : MicroOp) : CacheOpType :=
  match uop.lsType with
  | .cacop =>
    match (uop.inst.extractLsb' 3 2).toNat with
    | 0 => .storeTag
    | 1 => .indexInvalidate
    | 2 => .hitInvalidate
    | _ => .none
  | _ => .none

def MicroOp.cacheSel (uop : MicroOp) : CacheSelType :=
  match uop.lsType with
  | .cacop =>
    match (uop.inst.extractLsb' 0 3).toNat with
    | 0 => .iCache
    | 1 => .dCache
    | _ => .none
  | .preld =>
    match (uop.inst.extractLsb' 0 5).toNat with
    | 0 => .iCache
    | 8 => .dCache
    | _ => .none
  | _ => .dCache

/-- The core behind the fetch buffer, with the instruction cache. `since` is the
number of the first instruction after the last change of the privilege level. -/
structure DecodedCore where
  core : PrivilegedCore := {}
  iCache : ICache := {}
  /-- RENAME. -/
  isValid : Bool := false
  decPacket : List MicroOp := []
  since : Nat := 0

namespace DecodedCore

/-- The inputs of a cycle: the entries that the fetch buffer shows, whether they are
valid, whether RENAME is halted by something else than the reorder buffer, the registers
given by rename, and what the other parts of the core contribute. -/
structure Inputs where
  entries : List FetchEntry := []
  idValid : Bool := false
  halt : Bool := false
  records : List RenameRecord := []
  core : PrivilegedCore.Inputs := {}
  fetch : ICache.Inputs := {}

variable (innerCounterDownEvery : Nat) (s : DecodedCore) (i : Inputs)

def crmdPLV : BitVec 2 := s.core.unit.handler.crmdPLV

/-! ## RENAME -/

def ready : Bool :=
  (List.range s.decPacket.length).all fun k => s.core.mem.core.rob.ptr.pushReady robDepth k

def isStuck : Bool := i.halt || (s.isValid && !s.ready)

def push : List PushPort :=
  if s.isValid && !s.isStuck i then
    s.decPacket.mapIdx fun k uop => { uop, rename := i.records.getD k {} }
  else []

/-! ## The core -/

/-- The head of the memory issue queue has the word of its instruction. -/
def head : MemUop :=
  match s.core.mem.waiting with
  | [] => i.core.mem.mem.head
  | r :: _ =>
    { i.core.mem.mem.head with
      cacheOp := (s.core.mem.info r.number).uop.cacheOp
      cacheSel := (s.core.mem.info r.number).uop.cacheSel }

def coreInputs : PrivilegedCore.Inputs :=
  { i.core with
    mem := { i.core.mem with push := s.push i, mem := { i.core.mem.mem with head := s.head i } } }

def needFlush : Bool := s.core.needFlush (s.coreInputs i)

def entersHandler : Bool := s.core.entersHandler (s.coreInputs i)

def coreNext : PrivilegedCore := s.core.step innerCounterDownEvery (s.coreInputs i)

/-- The cache operation that retires. -/
def cacheOp : Option CacheOperation :=
  Commit.cacheOp s.core.mem.core.ports s.core.mem.core.fsm (s.core.commitInputs (s.coreInputs i))

def step : DecodedCore where
  core := s.coreNext innerCounterDownEvery i
  iCache := s.iCache.step
    { i.fetch with
      mmu := s.core.unit.mmu
      nextCSR := (s.coreNext innerCounterDownEvery i).unit.translateCSR
      cacheOp := s.cacheOp i }
  isValid := if s.needFlush i then false else if s.isStuck i then s.isValid else i.idValid
  decPacket := if s.isStuck i then s.decPacket else i.entries.map (Decoder.decode s.crmdPLV)
  since :=
    if (s.coreNext innerCounterDownEvery i).unit.handler.crmdPLV = s.crmdPLV then s.since
    else (s.coreNext innerCounterDownEvery i).mem.oldest

structure Init (s : DecodedCore) : Prop where
  core : s.core.Init
  isValid : s.isValid = false
  decPacket : s.decPacket = []
  since : s.since = 0

/-- What the rest of the core keeps to, as for the memory core. Of what is renamed only
the address has to be known: it is where the fetch has been redirected to. -/
structure Legal (s : DecodedCore) (i : Inputs) : Prop where
  width : i.entries.length ≤ decodeWidth
  unit : ∀ c ∈ i.core.mem.completions, c.unit ≠ .mem
  notPushed : ∀ c ∈ i.core.mem.completions,
    ROBFIFO.pushAt s.core.mem.core.rob.ptr.push c.robIdx 0 (s.push i) = none
  executes : ∀ c ∈ i.core.mem.completions, ∀ j < s.core.mem.count,
    c.robIdx = s.core.mem.core.entry j →
    c.uop = (s.core.mem.core.rob.robInfo c.robIdx).uop ∧ c.uop.needNotExecute = false ∧
      c.unit.executes c.uop.fuType = true
  follows : ∀ target, s.core.mem.core.redirected = some target →
    ∀ p ∈ (s.push i).head?, p.uop.pc = target
  stale : ¬ (i.core.mem.mem.head.isLoad = true ∧ i.core.mem.mem.head.isStore = true)

def machine : Clocked.Machine DecodedCore Inputs where
  init := Init
  legal := Legal
  step := step innerCounterDownEvery

instance (s : DecodedCore) (i : Inputs) : Decidable ((machine innerCounterDownEvery).legal s i) :=
  decidable_of_iff
    (i.entries.length ≤ decodeWidth ∧ (∀ c ∈ i.core.mem.completions, c.unit ≠ .mem) ∧
      (∀ c ∈ i.core.mem.completions,
        ROBFIFO.pushAt s.core.mem.core.rob.ptr.push c.robIdx 0 (s.push i) = none) ∧
      (i.core.mem.completions.all fun c => (List.range s.core.mem.count).all fun j =>
        decide (c.robIdx = s.core.mem.core.entry j →
          c.uop = (s.core.mem.core.rob.robInfo c.robIdx).uop ∧
          c.uop.needNotExecute = false ∧ c.unit.executes c.uop.fuType = true)) = true ∧
      (s.core.mem.core.redirected.all fun target =>
        (s.push i).head?.all fun p => p.uop.pc == target) = true ∧
      ¬ (i.core.mem.mem.head.isLoad = true ∧ i.core.mem.mem.head.isStore = true))
    (by
      simp only [List.all_eq_true, List.mem_range, decide_eq_true_eq, Option.all_eq_true,
        beq_iff_eq]
      exact ⟨fun ⟨h1, h2, h3, h4, h5, h6⟩ => ⟨h1, h2, h3, h4, h5, h6⟩,
        fun h => ⟨h.width, h.unit, h.notPushed, h.executes, h.follows, h.stale⟩⟩)

/-! ## What is behind the decoder -/

/-- The instruction has been decoded at the present level. -/
def IsDecoded (uop : MicroOp) : Prop := ∃ entry, uop = Decoder.decode s.crmdPLV entry

/-- Everything behind the decoder has been decoded at the present level. -/
structure Current (s : DecodedCore) : Prop where
  packet : s.isValid = true → ∀ uop ∈ s.decPacket, s.IsDecoded uop
  width : s.decPacket.length ≤ decodeWidth
  rob : ∀ n, s.core.mem.oldest ≤ n → n < s.core.mem.next → s.IsDecoded (s.core.mem.info n).uop

end DecodedCore

/-- Memory instructions are decoded as the memory core expects. -/
def DecodeSignals.Consistent (s : DecodeSignals) : Prop :=
  (s.isLoad = true ∨ s.isStore = true → s.fuType = .lsu) ∧
    ¬ (s.isLoad = true ∧ s.isStore = true) ∧ (s.isSC = true → s.isStore = true)

instance : DecidablePred DecodeSignals.Consistent := fun _ => inferInstanceAs (Decidable (_ ∧ _))

theorem Decoder.decodes (plv : BitVec 2) (entry : FetchEntry) :
    MemCore.Decodes (Decoder.decode plv entry) := by
  have hsignals : (Decoder.signals entry.inst).Consistent :=
    Decoder.wellFormed.apply_of_lines (by decide) (by decide +kernel)
  exact ⟨hsignals.1, hsignals.2.1, hsignals.2.2⟩

namespace DecodedCore

variable {innerCounterDownEvery : Nat} {s : DecodedCore} {i : Inputs}

theorem mem_push {p : PushPort} (hp : p ∈ s.push i) : s.isValid = true ∧ p.uop ∈ s.decPacket := by
  rw [push] at hp
  split_ifs at hp with hfires
  · obtain ⟨k, hk, rfl⟩ := List.mem_mapIdx.mp hp
    exact ⟨(Bool.and_eq_true_iff.mp hfires).1, List.getElem_mem hk⟩
  · cases hp

/-- The memory core is used as it expects. -/
theorem Current.legal (h : s.Current) (hi : s.Legal i) :
    s.core.mem.Legal (s.core.memInputs (s.coreInputs i)) where
  width := by
    change (s.push i).length ≤ _
    rw [push]
    split_ifs
    · rw [List.length_mapIdx]
      exact h.width
    · exact Nat.zero_le _
  ready := by
    intro k hk
    have hk : k < (s.push i).length := hk
    rw [push] at hk
    split_ifs at hk with hfires
    · rw [List.length_mapIdx] at hk
      simp only [isStuck, Bool.and_eq_true, Bool.not_eq_true', Bool.or_eq_false_iff,
        Bool.and_eq_false_iff, Bool.not_eq_false'] at hfires
      have hready : s.ready = true := by
        obtain hno | hyes := hfires.2.2
        · rw [hfires.1] at hno
          cases hno
        · exact hyes
      exact List.all_eq_true.mp hready k (List.mem_range.mpr hk)
    · cases hk
  unit := hi.unit
  notPushed := hi.notPushed
  executes := hi.executes
  follows := hi.follows
  decoded := by
    intro p hp
    obtain ⟨hvalid, hmem⟩ := mem_push hp
    obtain ⟨entry, heq⟩ := h.packet hvalid _ hmem
    rw [heq]
    exact Decoder.decodes _ _
  stale := by
    change ¬ ((s.head i).isLoad = true ∧ (s.head i).isStore = true)
    rw [head]
    split <;> exact hi.stale

/-- Without a flush the privilege level stays as it is. -/
theorem crmdPLV_step (hflush : s.needFlush i = false) :
    (s.step innerCounterDownEvery i).crmdPLV = s.crmdPLV := by
  have hcommit : Commit.needFlush s.core.mem.core.ports s.core.mem.core.fsm
      (s.core.commitInputs (s.coreInputs i)) = false := hflush
  have hplain : (s.core.signals (s.coreInputs i)).Plain :=
    (Commit.plain_of_not_needFlush hcommit).1
  change (s.core.unit.step innerCounterDownEvery (s.core.signals (s.coreInputs i))
    (s.coreInputs i).intrpt).handler.crmdPLV = _
  rw [PrivilegedUnit.step_plain hplain]
  rfl

theorem Current.step (h : s.Current) (hin : s.core.mem.InStep) (hi : s.Legal i) :
    (s.step innerCounterDownEvery i).Current := by
  have hlegal := h.legal hi
  have hcore := hin.order.legal hlegal
  have hmem : (s.step innerCounterDownEvery i).core.mem =
      s.core.mem.step (s.core.memInputs (s.coreInputs i)) := rfl
  have hwidth : (s.step innerCounterDownEvery i).decPacket.length ≤ decodeWidth := by
    change (if s.isStuck i then s.decPacket
      else i.entries.map (Decoder.decode s.crmdPLV)).length ≤ _
    split_ifs
    · exact h.width
    · rw [List.length_map]
      exact hi.width
  cases hflush : s.needFlush i with
  | true =>
    refine ⟨fun hvalid => ?_, hwidth, fun n hn hlt => ?_⟩
    · have hempty : (s.step innerCounterDownEvery i).isValid = false := if_pos hflush
      rw [hempty] at hvalid
      cases hvalid
    · have hempty := (hin.order.flush hlegal hflush).empty
      rw [hmem] at hn hlt
      rw [MemCore.next, hempty] at hlt
      omega
  | false =>
    have hplv : (s.step innerCounterDownEvery i).crmdPLV = s.crmdPLV := crmdPLV_step hflush
    refine ⟨fun hvalid uop huop => ?_, hwidth, fun n hn hlt => ?_⟩
    · have hvalid' : (if s.isStuck i then s.isValid else i.idValid) = true := by
        change (if s.needFlush i then false else _) = true at hvalid
        rwa [hflush, if_neg Bool.false_ne_true] at hvalid
      have huop' : uop ∈ (if s.isStuck i then s.decPacket
        else i.entries.map (Decoder.decode s.crmdPLV)) := huop
      rw [IsDecoded, hplv]
      split_ifs at hvalid' huop'
      · exact h.packet hvalid' uop huop'
      · obtain ⟨entry, -, rfl⟩ := List.mem_map.mp huop'
        exact ⟨entry, rfl⟩
    · rw [hmem, MemCore.oldest_step hflush] at hn
      rw [hmem, MemCore.next_step hin.order.core hcore hflush] at hlt
      rw [IsDecoded, hplv, hmem, MemCore.info_step hin.order.core hcore hflush hn hlt]
      split_ifs with hbefore
      · exact h.rob n (by omega) hbefore
      · obtain ⟨p, hp, hinfo, -⟩ :=
          MemCore.state_renamed hin.order.core hcore hflush (by omega) hlt
        rw [hinfo]
        obtain ⟨hvalid, hmem'⟩ := mem_push hp
        exact h.packet hvalid _ hmem'

theorem Current.of_init (h : s.Init) : s.Current where
  packet hvalid := by
    rw [h.isValid] at hvalid
    cases hvalid
  width := by simp [h.decPacket]
  rob n hn hlt := by
    have hcount : s.core.mem.count = 0 := by
      rw [MemCore.count, h.core.mem.core.1]
      rfl
    rw [MemCore.next, hcount] at hlt
    omega

/-- The core behind the decoder is the one that decoding is left out of. -/
structure Runs (innerCounterDownEvery : Nat) (s : DecodedCore) : Prop where
  core : (PrivilegedCore.machine innerCounterDownEvery).Reachable s.core
  current : s.Current

theorem Runs.inStep (h : s.Runs innerCounterDownEvery) : s.core.mem.InStep :=
  MemCore.inStep (PrivilegedCore.reachable_mem h.core)

theorem runs (h : (machine innerCounterDownEvery).Reachable s) : s.Runs innerCounterDownEvery := by
  induction h with
  | reset hs =>
    have hs : Init _ := hs
    exact ⟨.reset hs.core, .of_init hs⟩
  | edge _ hi ih => exact ⟨.edge ih.core (ih.current.legal hi), ih.current.step ih.inStep hi⟩

end DecodedCore

end NopCore
