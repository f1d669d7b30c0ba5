import NopCore.Core.MemOrder

/-!
# The head of the reorder buffer

A store or an uncached load that is complete at the head has passed MEM2 before
every other memory instruction in flight. It does not leave before commit has
retired its entry in the store buffer: a store does so when it leaves, an uncached
load when it starts, some cycles earlier.
-/

namespace NopCore

/-- The slot that MEM2 pushes for an instruction. -/
def MemUop.slot (u : MemUop) : StoreBufferSlot where
  retired := false
  addr := u.addr
  be := u.be
  data := u.data
  isStore := u.isStore
  isCached := u.cached
  wReg := u.wReg
  lsType := u.lsType
  robIdx := u.robIdx
  number := u.number

/-- A store or an uncached load, without an exception. -/
def MemUop.isAccess (u : MemUop) : Bool := !u.except && (u.isStore || (u.isLoad && !u.cached))

namespace StoreBuffer

variable {q : StoreBuffer} {entries : List StoreBufferSlot} {marked : Nat}

/-- The entries that have not retired, from the head on. -/
def unretired (q : StoreBuffer) : List StoreBufferSlot :=
  (List.range storeBufferDepth).filterMap fun j =>
    if q.valid j && !(q.slot j).retired then some (q.slot j) else none

theorem Holds.unretired (h : q.Holds entries marked) (hfresh : ∀ e ∈ entries, e.retired = false) :
    q.unretired = entries.drop marked := by
  have hle := h.marked_le
  have hstep : ∀ n ≤ storeBufferDepth, (List.range n).filterMap (fun j =>
      if q.valid j && !(q.slot j).retired then some (q.slot j) else none) =
        (entries.take n).drop marked := by
    intro n hn
    induction n with
    | zero => simp
    | succ n ih =>
      rw [List.range_succ, List.filterMap_append, ih (by omega), List.filterMap_cons,
        List.filterMap_nil, h.valid n (by omega)]
      by_cases hlt : n < entries.length
      · have hmark : entries[n].mark false = entries[n] := by
          conv_lhs => rw [← hfresh entries[n] (List.getElem_mem hlt)]
          exact StoreBufferSlot.mark_retired _
        rw [h.slot n hlt, List.take_add_one, List.getElem?_eq_getElem hlt, Option.toList_some,
          List.drop_append, List.length_take_of_le hlt.le]
        by_cases hmarked : n < marked
        · simp [hlt, hmarked]
          omega
        · simp [hlt, hmarked, hmark, hfresh _ (List.getElem_mem hlt),
            Nat.sub_eq_zero_of_le (Nat.le_of_not_lt hmarked)]
      · rw [List.take_of_length_le (by omega), List.take_of_length_le (by omega)]
        simp [hlt]
  rw [StoreBuffer.unretired, hstep _ le_rfl, List.take_of_length_le h.length_le]

end StoreBuffer

namespace MemCore

variable {t : MemCore} {i : Inputs}

/-! ## The head of the reorder buffer -/

def fires (t : MemCore) (i : Inputs) : Bool :=
  Commit.fire t.core.ports t.core.fsm (t.commitInputs i) 0

def startUncached (t : MemCore) (i : Inputs) : Bool :=
  Commit.startUncached t.core.ports t.core.fsm (t.commitInputs i)

def hasExcept (t : MemCore) (i : Inputs) : Bool :=
  Commit.hasExcept t.core.ports t.core.fsm (t.commitInputs i)

theorem popCount_of_not_fires (h : t.fires i = false) : t.popCount i = 0 :=
  Commit.popCount_eq_zero h

theorem popCount_of_fires (h : t.fires i = true) : 0 < t.popCount i := Commit.popCount_pos h

theorem needFlush_of_not_fires (h : t.fires i = false) : t.needFlush i = false := by
  change (Commit.fire t.core.ports t.core.fsm (t.commitInputs i) 0 && _) = false
  rw [show Commit.fire t.core.ports t.core.fsm (t.commitInputs i) 0 = false from h, Bool.false_and]

/-- Either an uncached load starts, and nothing leaves, or a store retires, and does
so with its link if it needs one. -/
theorem commitStore_cases (h : t.commitStore i = true) :
    (t.startUncached i = true ∧ t.fires i = false) ∨
      (t.fires i = true ∧ t.hasExcept i = false ∧ (t.core.ports 0).uop.isStore = true ∧
        ((t.core.ports 0).uop.isSC = true → i.commit.handler.llbctlLLBIT = true)) := by
  simp only [commitStore, Commit.commitStore, Bool.or_eq_true] at h
  obtain hstart | hstore := h
  · refine .inl ⟨hstart, ?_⟩
    have hboot : t.core.fsm = .stateBoot := by
      simp only [Commit.startUncached, Bool.and_eq_true, beq_iff_eq] at hstart
      exact hstart.1.1.1.1.1
    simp [fires, Commit.fire, Commit.ready, Commit.uncachedMask, hboot, hboot ▸ hstart]
  · simp only [Commit.retires, Bool.and_eq_true, Bool.not_eq_true', Bool.and_eq_false_iff] at hstore
    refine .inr ⟨hstore.1.1.1, hstore.1.1.2, hstore.1.2, fun hsc => ?_⟩
    obtain hno | hlink := hstore.2
    · rw [hsc] at hno
      cases hno
    · simpa [commitInputs] using hlink

theorem port_eq (hcore : t.core.Inv) {k : Nat} (hk : k < t.count) :
    (t.core.ports k).info = t.info (t.oldest + k) ∧
      (t.core.ports k).state = t.state (t.oldest + k) := by
  have hidx : t.idx (t.oldest + k) = t.core.entry k := by
    rw [idx, Nat.add_sub_cancel_left]
  rw [info, state, hidx]
  exact ⟨hcore.popInfo k hk, hcore.popState k hk⟩

/-- A memory instruction that is complete at the head is the first that has passed
MEM2, and WB has reported it. -/
theorem Ordered.head {done : List MemUop} (h : t.Ordered done) (hcore : t.core.Inv)
    (hdecoded : t.Decoded) (hvalid : (t.core.ports 0).valid = true)
    (hkind : (t.core.ports 0).uop.isLoad = true ∨ (t.core.ports 0).uop.isStore = true)
    (hexcept : (t.core.ports 0).state.except.valid = false)
    (hcomplete : (t.core.ports 0).state.complete = true) :
    ∃ u rest, done = u :: rest ∧ u.number = t.oldest := by
  have hpos : 0 < t.count := (Ring.Pointers.popValid_iff (by decide)).mp hvalid
  have hlt : t.oldest < t.next := by
    rw [next]
    omega
  obtain ⟨hinfo, hstate⟩ := port_eq hcore hpos
  rw [Nat.add_zero] at hinfo hstate
  rw [PopPort.uop, hinfo] at hkind
  rw [hstate] at hexcept hcomplete
  have henters : entersQueue (t.info t.oldest).uop = true := by
    have hlsu := (hdecoded.decodes t.oldest le_rfl hlt).lsu hkind
    have hclean : (t.info t.oldest).uop.except.valid = false := by
      by_contra hno
      have hraises := hdecoded.except t.oldest le_rfl hlt (Bool.of_not_eq_false hno)
      rw [hexcept] at hraises
      cases hraises
    simp [entersQueue, hlsu, hclean]
  obtain ⟨c, hc⟩ : ∃ c, t.count = c + 1 := ⟨t.count - 1, by omega⟩
  have hrequests := h.requests
  rw [memNumbers, hc, List.range'_succ,
    List.filter_cons_of_pos (p := fun n => entersQueue (t.info n).uop) henters,
    List.map_cons] at hrequests
  cases hdone : done with
  | nil =>
    -- the head would be on its way, and not complete
    rw [hdone, List.nil_append] at hrequests
    have hno := h.incomplete (t.requestOf t.oldest) (by rw [hrequests]; exact List.mem_cons_self)
    rw [show (t.requestOf t.oldest).number = t.oldest from rfl, hcomplete] at hno
    cases hno
  | cons u rest =>
    rw [hdone, List.cons_append, List.map_cons, List.cons_append, List.cons.injEq] at hrequests
    exact ⟨u, rest, rfl, congrArg MemRequest.number hrequests.1⟩

/-! ## The head and its entry -/

/-- The instruction has an entry in the store buffer that has not retired. Commit
retires that of an uncached load when it starts. -/
def waits (t : MemCore) (u : MemUop) : Bool :=
  u.isAccess && !(t.core.fsm == .execute && u.number == t.oldest)

/-- An uncached load at the head has been started. -/
def Executing (t : MemCore) (done : List MemUop) : Prop :=
  ∃ u rest, done = u :: rest ∧ u.number = t.oldest ∧ u.isAccess = true ∧ u.isLoad = true

/-- Port 0 shows the instruction, complete as WB has reported it. -/
structure Shown (t : MemCore) (u : MemUop) : Prop where
  request : u.toMemRequest = request t.oldest (t.core.entry 0) (t.core.ports 0).info
  valid : (t.core.ports 0).valid = true
  decodes : Decodes (t.core.ports 0).uop
  complete : (t.core.ports 0).state.complete = true
  except : (t.core.ports 0).state.except.valid = u.except
  uncached : (t.core.ports 0).state.lsuUncached = !u.cached

namespace Shown

variable {u : MemUop} (h : t.Shown u)

include h

theorem number : u.number = t.oldest := congrArg MemRequest.number h.request

theorem robIdx : u.robIdx = t.core.entry 0 := congrArg MemRequest.robIdx h.request

theorem isLoad : (t.core.ports 0).uop.isLoad = u.isLoad :=
  (congrArg MemRequest.isLoad h.request).symm

theorem isStore : (t.core.ports 0).uop.isStore = u.isStore :=
  (congrArg MemRequest.isStore h.request).symm

theorem isSC : (t.core.ports 0).uop.isSC = u.isSC := (congrArg MemRequest.isSC h.request).symm

theorem lsType : (t.core.ports 0).uop.lsType = u.lsType :=
  (congrArg MemRequest.lsType h.request).symm

end Shown

section Head

variable {done : List MemUop} (hordered : t.Ordered done) (hcore : t.core.Inv)
  (hdecoded : t.Decoded)

include hordered hcore hdecoded

theorem Ordered.shown {u : MemUop} (hu : u ∈ done) (hnumber : u.number = t.oldest) :
    t.Shown u := by
  obtain ⟨hmem, hrequest⟩ := hordered.mem_passed (List.mem_append_left _ hu)
  obtain ⟨⟨-, hlt⟩, -⟩ := mem_memNumbers.mp hmem
  have hreported := hordered.reported u hu
  have hpos : 0 < t.count := by
    rw [hnumber, next] at hlt
    omega
  obtain ⟨hinfo, hstate⟩ := port_eq hcore hpos
  rw [Nat.add_zero, ← hnumber] at hinfo hstate
  have hidx : t.idx u.number = t.core.entry 0 := by rw [idx, hnumber, Nat.sub_self]
  refine ⟨?_, (Ring.Pointers.popValid_iff (by decide)).mpr hpos, ?_, ?_, ?_, ?_⟩
  · rw [hrequest, requestOf, hidx, hnumber, hinfo, hnumber]
  · rw [PopPort.uop, hinfo]
    exact hdecoded.decodes u.number hnumber.ge hlt
  · rw [hstate, hreported.complete]
  · rw [hstate, hreported.except]
  · rw [hstate, hreported.uncached]

variable (hexecuting : t.core.fsm = .execute → t.Executing done)

include hexecuting

/-- A store that fires without an exception is the head, and waits in the store
buffer. -/
theorem Ordered.storeHead (hfires : t.fires i = true) (hclean : t.hasExcept i = false)
    (hstore : (t.core.ports 0).uop.isStore = true) :
    ∃ u rest, done = u :: rest ∧ t.Shown u ∧ t.waits u = true ∧ t.core.fsm = .stateBoot := by
  simp only [fires, Commit.fire, Commit.ready, Commit.completeMask, Bool.and_eq_true] at hfires
  simp only [hasExcept, Commit.hasExcept, Bool.or_eq_false_iff] at hclean
  have hcomplete : (t.core.ports 0).state.complete = true := by simpa using hfires.2.1.1.1.1
  obtain ⟨u, rest, rfl, hnumber⟩ :=
    hordered.head hcore hdecoded hfires.1 (.inr hstore) hclean.1 hcomplete
  have hshown := hordered.shown hcore hdecoded List.mem_cons_self hnumber
  have hboot : t.core.fsm = .stateBoot := by
    -- a load that is executing is no store
    cases hfsm : t.core.fsm with
    | stateBoot => rfl
    | execute =>
      obtain ⟨v, _, hcons, -, -, hload⟩ := hexecuting hfsm
      obtain ⟨rfl, -⟩ := List.cons.inj hcons
      exact absurd ⟨hshown.isLoad.trans hload, hstore⟩ hshown.decodes.one
  refine ⟨u, rest, rfl, hshown, ?_, hboot⟩
  simp [waits, MemUop.isAccess, hboot, hshown.except.symm.trans hclean.1,
    hshown.isStore.symm.trans hstore]

/-- What commit retires in the store buffer is the entry of the head. -/
theorem Ordered.commitStore_head (hcommit : t.commitStore i = true) :
    ∃ u rest, done = u :: rest ∧ t.Shown u ∧ t.waits u = true ∧
      (u.isSC = true → i.commit.handler.llbctlLLBIT = true) := by
  obtain ⟨hstart, -⟩ | ⟨hfires, hclean, hstore, hlink⟩ := commitStore_cases hcommit
  · simp only [startUncached, Commit.startUncached, Commit.hasExcept, Bool.and_eq_true,
      Bool.not_eq_true', Bool.or_eq_false_iff, beq_iff_eq] at hstart
    obtain ⟨⟨⟨⟨⟨hboot, hvalid⟩, hload⟩, huncached⟩, hcomplete⟩, hexcept, -⟩ := hstart
    obtain ⟨u, rest, rfl, hnumber⟩ :=
      hordered.head hcore hdecoded hvalid (.inl hload) hexcept hcomplete
    have hshown := hordered.shown hcore hdecoded List.mem_cons_self hnumber
    rw [hshown.except] at hexcept
    rw [hshown.uncached, Bool.not_eq_true'] at huncached
    rw [hshown.isLoad] at hload
    refine ⟨u, rest, rfl, hshown, ?_, fun hsc => ?_⟩
    · simp [waits, MemUop.isAccess, hboot, hexcept, huncached, hload]
    · rw [← hshown.isSC] at hsc
      exact absurd ⟨hshown.isLoad.trans hload, hshown.decodes.isSC hsc⟩ hshown.decodes.one
  · obtain ⟨u, rest, rfl, hshown, hwaits, -⟩ :=
      hordered.storeHead hcore hdecoded hexecuting hfires hclean hstore
    exact ⟨u, rest, rfl, hshown, hwaits, fun hsc => hlink (hshown.isSC.trans hsc)⟩

/-- A started load leaves when it has reached WB, with what is behind it. -/
theorem Ordered.fires_executing (hfsm : t.core.fsm = .execute) :
    t.fires i = t.uncachedDone ∧ t.hasExcept i = false ∧ t.commitStore i = false ∧
      t.abandons i = false := by
  obtain ⟨u, rest, rfl, hnumber, haccess, hload⟩ := hexecuting hfsm
  have hshown := hordered.shown hcore hdecoded List.mem_cons_self hnumber
  simp only [MemUop.isAccess, Bool.and_eq_true, Bool.not_eq_true'] at haccess
  have hexcept : (t.core.ports 0).state.except.valid = false := hshown.except.trans haccess.1
  have hisLoad : (t.core.ports 0).uop.isLoad = true := hshown.isLoad.trans hload
  have hstore : (t.core.ports 0).uop.isStore = false := by
    by_contra hno
    exact hshown.decodes.one ⟨hisLoad, Bool.of_not_eq_false hno⟩
  have hsc : (t.core.ports 0).uop.isSC = false := by
    by_contra hno
    have hyes := hshown.decodes.isSC (Bool.of_not_eq_false hno)
    rw [hstore] at hyes
    cases hyes
  refine ⟨?_, ?_, ?_, ?_⟩
  · simp [fires, Commit.fire, Commit.ready, Commit.completeMask, Commit.excMask,
      Commit.uniqueMask, Commit.recoverMask, Commit.uncachedMask, hfsm, hshown.valid,
      hshown.complete, commitInputs]
  · simp [hasExcept, Commit.hasExcept, hexcept, hfsm]
  · simp [commitStore, Commit.commitStore, Commit.startUncached, hfsm, hstore]
  · simp [abandons, Commit.hasExcept, hexcept, hfsm, hsc]

omit hexecuting hdecoded in
/-- An access that leaves with a younger instruction is in port 0. -/
theorem Ordered.popped_access {u : MemUop} (hu : u ∈ done ++ t.wbUops)
    (hpop : u.number < t.oldest + t.popCount i) (haccess : u.isAccess = true) :
    u.number = t.oldest := by
  obtain ⟨hmem, hrequest⟩ := hordered.mem_passed hu
  obtain ⟨⟨hold, hlt⟩, -⟩ := mem_memNumbers.mp hmem
  have hfire :
      Commit.fire t.core.ports t.core.fsm (t.commitInputs i) (u.number - t.oldest) = true :=
    Commit.fire_of_lt_popCount (by change _ < t.popCount i; omega)
  obtain ⟨hinfo, -⟩ := port_eq hcore (k := u.number - t.oldest) (by rw [next] at hlt; omega)
  rw [Nat.add_sub_cancel' hold] at hinfo
  have hload : (t.core.ports (u.number - t.oldest)).uop.isLoad = u.isLoad := by
    rw [PopPort.uop, hinfo]
    exact (congrArg MemRequest.isLoad hrequest).symm
  have hstore : (t.core.ports (u.number - t.oldest)).uop.isStore = u.isStore := by
    rw [PopPort.uop, hinfo]
    exact (congrArg MemRequest.isStore hrequest).symm
  have hunique : (t.core.ports (u.number - t.oldest)).uop.uniqueRetire = true := by
    simp only [MemUop.isAccess, Bool.and_eq_true, Bool.or_eq_true] at haccess
    obtain hs | hl := haccess.2
    · simp [MicroOp.uniqueRetire, hstore, hs]
    · simp [MicroOp.uniqueRetire, hload, hl.1]
  have hzero := Commit.eq_zero_of_uniqueRetire hfire hunique
  omega

omit hexecuting in
/-- An access that leaves retires its entry, if it has not done so before. -/
theorem Ordered.commits_of_fires (hflush : t.needFlush i = false) (hfires : t.fires i = true)
    {u : MemUop} (hu : u ∈ done) (hnumber : u.number = t.oldest) (hwaits : t.waits u = true) :
    t.commitStore i = true := by
  have hshown := hordered.shown hcore hdecoded hu hnumber
  have hfire : Commit.fire t.core.ports t.core.fsm (t.commitInputs i) 0 = true := hfires
  have hquiet : Commit.needFlush t.core.ports t.core.fsm (t.commitInputs i) = false := hflush
  simp only [Commit.needFlush, hfire, Bool.true_and, Bool.or_eq_false_iff,
    Commit.linearRecover] at hquiet
  obtain ⟨⟨hclean, -⟩, hstate, -⟩ := hquiet
  have hboot : t.core.fsm = .stateBoot := by
    cases hfsm : t.core.fsm with
    | stateBoot => rfl
    | execute => simp [waits, hfsm, hnumber] at hwaits
  simp only [waits, MemUop.isAccess, hboot, Bool.and_eq_true, Bool.not_eq_true',
    Bool.or_eq_true] at hwaits
  obtain hstore | ⟨hload, huncached⟩ := hwaits.1.2
  · have hsc : (t.core.ports 0).uop.isSC = false := by
      simp only [MicroOp.flushState, Bool.or_eq_false_iff] at hstate
      exact hstate.2
    simp [commitStore, Commit.commitStore, Commit.retires, hfire, hclean,
      hshown.isStore.trans hstore, hsc]
  · -- it would have to start first
    simp only [Commit.fire, Commit.ready, Commit.uncachedMask, hboot, Bool.and_eq_true,
      Bool.not_eq_true'] at hfire
    have hstart : Commit.startUncached t.core.ports .stateBoot (t.commitInputs i) = true := by
      rw [hboot] at hclean
      simp [Commit.startUncached, hshown.valid, hshown.isLoad.trans hload,
        hshown.uncached.trans (by simp [huncached] : (!u.cached) = true), hshown.complete, hclean]
    rw [hstart] at hfire
    simp at hfire

/-- What still waits after the cycle. -/
theorem Ordered.waits_step (hflush : t.needFlush i = false) {u : MemUop}
    (hu : u ∈ done ++ t.wbUops) :
    (decide (t.oldest + t.popCount i ≤ u.number) && (t.step i).waits u) =
      (t.waits u && !(t.commitStore i && u.number == t.oldest)) := by
  have hold := (mem_memNumbers.mp (hordered.mem_passed hu).1).1.1
  have hnext : (t.step i).waits u = (u.isAccess &&
      !(Commit.nextFsm t.core.ports t.core.fsm (t.commitInputs i) == .execute &&
        u.number == t.oldest + t.popCount i)) := by
    rw [waits, oldest_step hflush]
    rfl
  have hboot : (UncachedState.stateBoot == .execute) = false := rfl
  rw [hnext]
  cases hfires : t.fires i with
  | false =>
    have hretires : Commit.retires t.core.ports t.core.fsm (t.commitInputs i) 0 = false := by
      rw [Commit.retires, show Commit.fire t.core.ports t.core.fsm (t.commitInputs i) 0 = false
        from hfires, Bool.false_and]
    rw [popCount_of_not_fires hfires, Nat.add_zero, decide_eq_true hold, Bool.true_and, waits]
    cases hfsm : t.core.fsm with
    | stateBoot =>
      have hcommit : t.commitStore i = t.startUncached i := by
        simp [commitStore, Commit.commitStore, hretires, startUncached]
      rw [hcommit, startUncached, hfsm, Commit.nextFsm]
      cases Commit.startUncached t.core.ports .stateBoot (t.commitInputs i) <;> simp [hboot]
    | execute =>
      obtain ⟨hdone, -, hcommit, -⟩ :=
        hordered.fires_executing (i := i) hcore hdecoded hexecuting hfsm
      have hwait : (t.commitInputs i).uncachedDone = false := hdone.symm.trans hfires
      simp [hcommit, Commit.nextFsm, hwait]
  | true =>
    have hpos := popCount_of_fires hfires
    have hfsm : Commit.nextFsm t.core.ports t.core.fsm (t.commitInputs i) = .stateBoot :=
      Commit.nextFsm_of_fire hfires
    rw [hfsm]
    by_cases hnumber : u.number = t.oldest
    · have hdone : u ∈ done := by
        refine (List.mem_append.mp hu).resolve_right fun hwb => ?_
        have hstays := hordered.stays (i := i) (r := u.toMemRequest) hcore
          (List.mem_append_left _ (List.mem_map_of_mem hwb))
        omega
      have hcommits := hordered.commits_of_fires hcore hdecoded hflush hfires hdone hnumber
      rw [decide_eq_false (by omega), Bool.false_and]
      cases hwaits : t.waits u with
      | false => rfl
      | true => simp [hcommits hwaits, hnumber]
    · have haccess : t.waits u = u.isAccess := by simp [waits, hnumber]
      have hpopped := hordered.popped_access (i := i) hcore hu
      rw [haccess]
      by_cases hstays : t.oldest + t.popCount i ≤ u.number
      · simp [hstays, hboot, beq_eq_false_iff_ne.mpr hnumber]
      · cases hkind : u.isAccess with
        | false => simp
        | true => exact absurd (hpopped (by omega) hkind) hnumber

/-- What waits moves on by the entry that commit retires. -/
theorem Ordered.awaiting_step (hflush : t.needFlush i = false) :
    ((done ++ t.wbUops).filter fun u => decide (t.oldest + t.popCount i ≤ u.number)).filter
        (t.step i).waits =
      ((done ++ t.wbUops).filter t.waits).drop (t.commitStore i).toNat := by
  have hpoint : ((done ++ t.wbUops).filter fun u =>
      decide (t.oldest + t.popCount i ≤ u.number)).filter (t.step i).waits =
        (done ++ t.wbUops).filter fun u =>
          t.waits u && !(t.commitStore i && u.number == t.oldest) := by
    rw [List.filter_filter]
    refine List.filter_congr fun u hu => ?_
    rw [Bool.and_comm]
    exact hordered.waits_step hcore hdecoded hexecuting hflush hu
  rw [hpoint]
  cases hcommit : t.commitStore i with
  | false => simp
  | true =>
    obtain ⟨u, rest, rfl, hshown, hwaits, -⟩ :=
      hordered.commitStore_head hcore hdecoded hexecuting hcommit
    have hbehind : ∀ v ∈ rest ++ t.wbUops, v.number ≠ t.oldest := by
      have hpair := (List.pairwise_append.mp hordered.pairwise).1
      rw [List.cons_append, List.map_cons, List.pairwise_cons] at hpair
      intro v hv
      have hlt := hpair.1 _ (List.mem_map_of_mem hv)
      rw [hshown.number] at hlt
      exact hlt.ne'
    rw [List.cons_append, List.filter_cons_of_neg (by simp [hshown.number]),
      List.filter_cons_of_pos hwaits]
    refine List.filter_congr fun v hv => ?_
    simp [hbehind v hv]

end Head

end MemCore

end NopCore
