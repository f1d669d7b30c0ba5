import NopCore.Core.DecodedCore
import NopCore.Mem.CacheOps

/-!
# Privilege isolation

What a program may do at another privilege level than 0 is decided when its words are
decoded. That is early: an instruction has its effects when it retires, and a cache
operation even before, in the memory pipeline. But the level at which an instruction
has been decoded is that at which it retires, and behind a change of the level nothing
is left in the reorder buffer. What is left in the memory pipeline is only the rest of
a cache operation that was decoded at level 0 and will not retire.
-/

namespace NopCore

/-! ## What software can write -/

/-- The interrupt registers without what the timer and the lines write. -/
def InterruptHandler.software (s : InterruptHandler) : InterruptHandler :=
  { s with
    timerEn := false, tvalTIMEVAL := 0, innerCounter := 0, estatIS2 := 0, estatIS11 := false }

/-- The control registers and the TLB, without the link bit, without what the timer and
the lines write, and without the wait state. -/
def PrivilegedUnit.software (p : PrivilegedUnit) : PrivilegedUnit :=
  { p with
    handler := { p.handler with llbctlLLBIT := false }
    interrupts := p.interrupts.software
    inLowPowerMode := false }

namespace PrivilegedUnit

variable {innerCounterDownEvery : Nat} {p q : PrivilegedUnit} {c : CommitSignals}
  {intrpt : BitVec 8}

theorem software_step (h : c.Plain) :
    (p.step innerCounterDownEvery c intrpt).software = p.software := by
  rw [step_plain h]
  rfl

/-- The wait state is not entered. -/
theorem waits_of_step (h : c.Plain)
    (hwait : (p.step innerCounterDownEvery c intrpt).inLowPowerMode = true) :
    p.inLowPowerMode = true := by
  rw [step_plain h] at hwait
  exact (Bool.and_eq_true_iff.mp hwait).1

theorem crmdPLV_of_software (h : p.software = q.software) :
    p.handler.crmdPLV = q.handler.crmdPLV := by
  have hplv := congrArg (fun p : PrivilegedUnit => p.handler.crmdPLV) h
  exact hplv

end PrivilegedUnit

theorem MicroOp.cacheOp_of_harmless {uop : MicroOp} (h : Decoder.Harmless uop) :
    uop.cacheOp = .none := by
  have hls := h.lsType
  rw [cacheOp]
  split
  · contradiction
  · rfl

namespace DecodedCore

variable {innerCounterDownEvery : Nat} {s : DecodedCore} {i : Inputs}

/-! ## What retires -/

section Retires

variable (h : s.Runs innerCounterDownEvery) (hplv : s.crmdPLV ≠ 0)

include h hplv

/-- At another level than 0 only harmless instructions retire from port 0. -/
theorem Runs.harmless_head
    (hretires : s.core.retires (s.coreInputs i) 0 = true) :
    Decoder.Harmless (s.core.mem.core.ports 0).uop := by
  have hin := h.inStep
  obtain ⟨hfire, hclean⟩ := Bool.and_eq_true_iff.mp hretires
  have hpos : 0 < s.core.mem.count := by
    have hvalid : (s.core.mem.core.ports 0).valid = true := (Bool.and_eq_true_iff.mp hfire).1
    exact (Ring.Pointers.popValid_iff (by decide)).mp hvalid
  have hlt : s.core.mem.oldest < s.core.mem.next := Nat.lt_add_of_pos_right hpos
  obtain ⟨hinfo, hstate⟩ := MemCore.port_eq hin.order.core hpos
  rw [Nat.add_zero] at hinfo hstate
  have hexcept : (s.core.mem.info s.core.mem.oldest).uop.except.valid = false := by
    by_contra hno
    have hraised := hin.order.decoded.except _ le_rfl hlt (Bool.of_not_eq_false hno)
    rw [← hstate] at hraised
    simp [Commit.hasExcept, hraised] at hclean
  obtain ⟨entry, hentry⟩ := h.current.rob _ le_rfl hlt
  rw [PopPort.uop, hinfo, hentry]
  rw [hentry] at hexcept
  exact Decoder.harmless hplv hexcept

theorem Runs.plain_signals (hno : s.entersHandler i = false) :
    (s.core.signals (s.coreInputs i)).Plain := by
  refine Commit.plain_signals hno fun hretires => ?_
  have hharmless := h.harmless_head hplv hretires
  exact ⟨hharmless.isErtn, hharmless.writeCSR, hharmless.tlbOp, hharmless.isWait⟩

theorem Runs.cacheOp_eq_none : s.cacheOp i = none := by
  rw [cacheOp, Commit.cacheOp]
  split_ifs with hop
  · obtain ⟨hretires, hoperate⟩ := Bool.and_eq_true_iff.mp hop
    rw [(h.harmless_head hplv hretires).operateCache] at hoperate
    cases hoperate
  · rfl

end Retires

/-! ## What is in the memory pipeline -/

/-- A cache operation in the memory pipeline is permitted, or it belongs to an
instruction from before the last change of the level. -/
structure Permitted (s : DecodedCore) (u : MemUop) : Prop where
  lt_next : u.number < s.core.mem.next
  before : s.crmdPLV ≠ 0 → u.cacheOp ≠ .none → u.number < s.since

/-- The cache operations in the memory pipeline are permitted. -/
structure Contained (s : DecodedCore) : Prop where
  stages : s.core.mem.pipeline.StagesSatisfy s.Permitted
  since_le : s.since ≤ s.core.mem.oldest

theorem Contained.of_init (h : s.Init) : s.Contained where
  stages := by
    have hpipeline := h.core.mem.pipeline
    constructor
    · simp [hpipeline.rrd.1]
    · simp [hpipeline.memaddr.1]
    · simp [hpipeline.mem1.1]
    · simp [hpipeline.validOnEntry]
    · simp [hpipeline.cacheFSM]
  since_le := by simp [h.since]

section Step

variable (h : s.Runs innerCounterDownEvery)

include h

/-- What issues has been decoded at the present level. -/
theorem Runs.permitted_head
    (hissue : s.core.mem.pipeline.issValid
      (s.core.mem.memInputs (s.core.memInputs (s.coreInputs i))) = true)
    (hflushed : s.core.mem.regFlush = false) :
    s.Permitted (s.core.mem.head (s.core.memInputs (s.coreInputs i))) := by
  have hin := h.inStep
  have hwaiting : s.core.mem.waiting ≠ [] := by
    simp only [MemPipeline.issValid, MemCore.memInputs, hflushed, Bool.false_or,
      Bool.and_eq_true, Bool.not_eq_true', List.isEmpty_eq_false_iff] at hissue
    exact hissue.1.2
  obtain ⟨r, rest, hcons⟩ := List.exists_cons_of_ne_nil hwaiting
  obtain ⟨done, hordered⟩ := hin.order.ordered hflushed
  have hpipe : r ∈ s.core.mem.pipeRequests := by simp [MemCore.pipeRequests, hcons]
  obtain ⟨hmem, -⟩ := hordered.mem_requests (List.mem_append_right _ hpipe)
  obtain ⟨⟨hold, hlt⟩, henters⟩ := MemCore.mem_memNumbers.mp hmem
  have hhead : s.core.mem.head (s.core.memInputs (s.coreInputs i)) =
      { s.head i with toMemRequest := r } := by
    rw [MemCore.head, hcons]
    rfl
  rw [hhead]
  refine ⟨hlt, fun hplv hop => absurd ?_ hop⟩
  change (s.head i).cacheOp = .none
  rw [head, hcons]
  obtain ⟨entry, hentry⟩ := h.current.rob _ hold hlt
  have hexcept : (s.core.mem.info r.number).uop.except.valid = false := by
    simp only [MemCore.entersQueue, Bool.and_eq_true, Bool.not_eq_true'] at henters
    exact henters.2
  change (s.core.mem.info r.number).uop.cacheOp = .none
  rw [hentry] at hexcept ⊢
  exact MicroOp.cacheOp_of_harmless (Decoder.harmless hplv hexcept)

variable (hi : s.Legal i)

include hi

/-- A change of the level leaves only older instructions in the memory pipeline. -/
theorem Runs.permitted_step {u : MemUop} (hu : s.Permitted u) :
    (s.step innerCounterDownEvery i).Permitted u := by
  have hlegal := h.current.legal hi
  have hnext : s.core.mem.next ≤ (s.step innerCounterDownEvery i).core.mem.next :=
    h.inStep.next_le_step hlegal
  refine ⟨hu.lt_next.trans_le hnext, fun hplv hop => ?_⟩
  by_cases hsame : (s.step innerCounterDownEvery i).crmdPLV = s.crmdPLV
  · have hsince : (s.step innerCounterDownEvery i).since = s.since := if_pos hsame
    rw [hsince]
    rw [hsame] at hplv
    exact hu.before hplv hop
  · have hsince : (s.step innerCounterDownEvery i).since =
        (s.step innerCounterDownEvery i).core.mem.oldest := if_neg hsame
    have hflush : s.core.mem.needFlush (s.core.memInputs (s.coreInputs i)) = true := by
      by_contra hno
      exact hsame (crmdPLV_step (Bool.eq_false_of_not_eq_true hno))
    have hold : (s.step innerCounterDownEvery i).core.mem.oldest =
        s.core.mem.next + (s.push i).length := if_pos hflush
    have hlt := hu.lt_next
    omega

theorem Contained.step (hcontained : s.Contained) :
    (s.step innerCounterDownEvery i).Contained where
  stages := by
    have hstep : (s.core.mem.pipeline.step
        (s.core.mem.memInputs (s.core.memInputs (s.coreInputs i)))).StagesSatisfy s.Permitted :=
      hcontained.stages.step h.permitted_head
    exact hstep.mono fun u hu => h.permitted_step hi hu
  since_le := by
    have hold : s.core.mem.oldest ≤ (s.step innerCounterDownEvery i).core.mem.oldest :=
      MemCore.oldest_le_step
    change (if _ then s.since else _) ≤ _
    split_ifs
    · exact hcontained.since_le.trans hold
    · exact le_rfl

end Step

theorem contained (h : (machine innerCounterDownEvery).Reachable s) : s.Contained :=
  Clocked.Machine.invariant_of_reachable (fun _ => Contained.of_init)
    (fun _ _ hr hs hi => hs.step (runs hr) hi) h

/-! ## Runs -/

/-- In this cycle the valid bits of the caches change only when a line is refilled, when
a line of the data cache is accessed uncached, or when a cache operation acts in the
memory pipeline that belongs to an instruction before `first`. -/
structure KeepsCaches (innerCounterDownEvery first : Nat) (s : DecodedCore) (i : Inputs) :
    Prop where
  iCache : ∀ set way, (s.step innerCounterDownEvery i).iCache.valids set way ≠
    s.iCache.valids set way → s.iCache.fsm = .commit ∧ set = s.iCache.idx ∧
      way = s.iCache.replaceWay
  dCache : ∀ set way, (s.step innerCounterDownEvery i).core.mem.pipeline.valids set way ≠
    s.core.mem.pipeline.valids set way →
      (s.core.mem.pipeline.refill.state = .commit ∧ set = s.core.mem.pipeline.addr2.index ∧
        way = s.core.mem.pipeline.replaceWay) ∨
      (s.core.mem.pipeline.fixUncache = .waitWriteback ∧
        set = s.core.mem.pipeline.addr2.index ∧ way = s.core.mem.pipeline.hitWay) ∨
      s.core.mem.pipeline.uop2.number < first

/-- No exception and no interrupt is entered in the run. -/
def Undisturbed (innerCounterDownEvery : Nat) (s : DecodedCore) : List Inputs → Prop
  | [] => True
  | i :: is => s.entersHandler i = false ∧
      Undisturbed innerCounterDownEvery (s.step innerCounterDownEvery i) is

def KeepsCachesIn (innerCounterDownEvery first : Nat) (s : DecodedCore) : List Inputs → Prop
  | [] => True
  | i :: is => s.KeepsCaches innerCounterDownEvery first i ∧
      KeepsCachesIn innerCounterDownEvery first (s.step innerCounterDownEvery i) is

/-- The run from `s` leaves alone what is reserved to privilege level 0. -/
structure Isolated (innerCounterDownEvery : Nat) (s : DecodedCore) (is : List Inputs) :
    Prop where
  /-- CRMD and the other control registers, and the TLB. -/
  software : ((machine innerCounterDownEvery).run s is).core.unit.software =
    s.core.unit.software
  /-- The wait state is not entered. -/
  wait : ((machine innerCounterDownEvery).run s is).core.unit.inLowPowerMode = true →
    s.core.unit.inLowPowerMode = true
  /-- Everything behind the decoder has been decoded at the level of the run. -/
  current : ((machine innerCounterDownEvery).run s is).Current
  crmdPLV : ((machine innerCounterDownEvery).run s is).crmdPLV = s.crmdPLV
  /-- So what is in the reorder buffer raises an exception or is harmless. -/
  harmless : ∀ n, ((machine innerCounterDownEvery).run s is).core.mem.oldest ≤ n →
    n < ((machine innerCounterDownEvery).run s is).core.mem.next →
      (((machine innerCounterDownEvery).run s is).core.mem.info n).uop.except.valid = true ∨
        Decoder.Harmless (((machine innerCounterDownEvery).run s is).core.mem.info n).uop
  /-- The valid bits of the caches, but for operations of instructions from before the
  last change of the level, which have all left the reorder buffer. -/
  caches : s.KeepsCachesIn innerCounterDownEvery s.since is
  since_le : s.since ≤ s.core.mem.oldest

section Cycle

variable (h : (machine innerCounterDownEvery).Reachable s) (hplv : s.crmdPLV ≠ 0)

include h hplv

theorem software_step (hno : s.entersHandler i = false) :
    (s.step innerCounterDownEvery i).core.unit.software = s.core.unit.software :=
  PrivilegedUnit.software_step ((runs h).plain_signals hplv hno)

theorem keepsCaches : s.KeepsCaches innerCounterDownEvery s.since i where
  iCache set way hchange := by
    have hnone := (runs h).cacheOp_eq_none (i := i) hplv
    simp only [DecodedCore.step, ICache.step, hnone, Option.any_none, Bool.false_eq_true,
      if_false] at hchange
    split_ifs at hchange with hrefill
    · exact hrefill
    · exact absurd rfl hchange
  dCache set way hchange := by
    obtain hrefill | hfix | ⟨hpermitted, hop⟩ :=
      (contained h).stages.valids_step hchange
    · exact .inl hrefill
    · exact .inr (.inl hfix)
    · exact .inr (.inr (hpermitted.before hplv hop))

end Cycle

theorem isolated_run {is : List Inputs} (h : (machine innerCounterDownEvery).Reachable s)
    (hplv : s.crmdPLV ≠ 0) (his : (machine innerCounterDownEvery).Legal s is)
    (hno : s.Undisturbed innerCounterDownEvery is) :
    ((machine innerCounterDownEvery).run s is).core.unit.software = s.core.unit.software ∧
      (((machine innerCounterDownEvery).run s is).core.unit.inLowPowerMode = true →
        s.core.unit.inLowPowerMode = true) ∧
      s.KeepsCachesIn innerCounterDownEvery s.since is := by
  induction is generalizing s with
  | nil => exact ⟨rfl, id, trivial⟩
  | cons i is ih =>
    have hsoftware := software_step h hplv hno.1
    have hsame : (s.step innerCounterDownEvery i).crmdPLV = s.crmdPLV :=
      PrivilegedUnit.crmdPLV_of_software hsoftware
    have hsince : ((machine innerCounterDownEvery).step s i).since = s.since := if_pos hsame
    obtain ⟨hlater, hwait, hcaches⟩ :=
      ih (.edge h his.1) (hsame ▸ hplv) his.2 hno.2
    rw [hsince] at hcaches
    refine ⟨hlater.trans hsoftware, fun hend => ?_, keepsCaches h hplv, hcaches⟩
    exact PrivilegedUnit.waits_of_step ((runs h).plain_signals hplv hno.1) (hwait hend)

/-- Whatever words are fetched at another privilege level than 0, until the next
exception or interrupt they leave the control registers, the TLB, the valid bits of the
caches and the wait state alone. -/
theorem privilege_isolation {is : List Inputs}
    (h : (machine innerCounterDownEvery).Reachable s) (hplv : s.crmdPLV ≠ 0)
    (his : (machine innerCounterDownEvery).Legal s is)
    (hno : s.Undisturbed innerCounterDownEvery is) : s.Isolated innerCounterDownEvery is := by
  obtain ⟨hsoftware, hwait, hcaches⟩ := isolated_run h hplv his hno
  have hsame : ((machine innerCounterDownEvery).run s is).crmdPLV = s.crmdPLV :=
    PrivilegedUnit.crmdPLV_of_software hsoftware
  have hcurrent := (runs (h.run his)).current
  refine ⟨hsoftware, hwait, hcurrent, hsame, fun n hn hlt => ?_, hcaches,
    (contained h).since_le⟩
  obtain ⟨entry, hentry⟩ := hcurrent.rob n hn hlt
  rw [hentry, hsame]
  cases hexcept : (Decoder.decode s.crmdPLV entry).except.valid with
  | true => exact .inl rfl
  | false => exact .inr (Decoder.harmless hplv hexcept)

/-! ## A user program -/

instance decidableUndisturbed (innerCounterDownEvery : Nat) (s : DecodedCore) (is : List Inputs) :
    Decidable (s.Undisturbed innerCounterDownEvery is) :=
  match is with
  | [] => inferInstanceAs (Decidable True)
  | i :: is =>
    let _ := decidableUndisturbed innerCounterDownEvery (s.step innerCounterDownEvery i) is
    inferInstanceAs (Decidable (s.entersHandler i = false ∧
      Undisturbed innerCounterDownEvery (s.step innerCounterDownEvery i) is))

def atReset : DecodedCore := { core := { mem := MemCore.atReset } }

theorem init_atReset : Init atReset :=
  ⟨⟨MemCore.init_atReset, rfl, rfl⟩, rfl, rfl, rfl⟩

def fetched (pc inst : UWord) : FetchEntry := { pc, inst }

/-- Words are decoded, and what they decode to is renamed in the next cycle. -/
def decodeWords (entries : List FetchEntry) : List Inputs := [{ entries, idValid := true }, {}]

/-- The first integer pipe completes the instruction. -/
def complete (plv : BitVec 2) (entry : FetchEntry) (target : UWord) : Inputs :=
  { core :=
      { mem :=
          { completions :=
              [{ unit := .int0, robIdx := 0, uop := Decoder.decode plv entry, target }] } } }

/-- `CSRWR` of `CRMD`, to privilege level 3. -/
def enterUser : List Inputs :=
  decodeWords [fetched 0x1c000000 0x04000024] ++
    [complete 0 (fetched 0x1c000000 0x04000024) 0xb, {}]

/-- An `ADD` that retires, with an `IDLE` behind it. -/
def addIdle : List Inputs :=
  decodeWords [fetched 0x1c000004 0x001018a4, fetched 0x1c000008 0x06488000] ++
    [complete 3 (fetched 0x1c000004 0x001018a4) 0, {}]

theorem privilege_isolation_addIdle :
    let user := (machine 1).run atReset enterUser
    user.crmdPLV = 3 ∧ user.Isolated 1 addIdle ∧
      ((machine 1).run user addIdle).core.mem.oldest = user.core.mem.oldest + 1 := by
  intro user
  refine ⟨by decide +kernel, ?_, by decide +kernel⟩
  refine privilege_isolation (.run (.reset init_atReset) ?_) ?_ ?_ ?_ <;> decide +kernel

end DecodedCore

end NopCore
