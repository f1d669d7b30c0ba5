import NopCore.Core.OperandResults

/-!
# No stale operand

A register whose busy bit is clear has the result of its owner, or the owner is about to
write it: it is at a write port, in the last cycle of EXE, or a load in MEM2. One cycle later
it is at a write port or in the register file, unless MEM2 holds the load. In that case the
wake-up has failed, and what was woken by it is held before it reads.

MEM1 clears a busy bit for store data as well, though store data has no consumers. The
register is that of a store-conditional that has retired, and may have been given away since.
-/

namespace NopCore

namespace MemCore

variable {t : MemCore} {i j : Inputs} {p : Nat}

/-- MEM2 has a load of the register, or a store-conditional, which goes to WB as soon as it is
not held. -/
def Loads (t : MemCore) (p : Nat) : Prop :=
  match t.pipeline.mem2.std with
  | some std => std.isStore = false ∧ std.wReg = some p
  | none => t.pipeline.mem2.isValid = true ∧
      (t.pipeline.uop2.cached = true ∨ t.pipeline.uop2.isSC = true) ∧
      t.pipeline.uop2.wReg = some p

/-- It is written from WB. -/
theorem Loads.regWrite (h : t.Loads p) (hport : (t.step i).ResultPort)
    (hmoves : t.pipeline.stuck2 (t.memInputs i) = false) (hclear : t.regFlush = false)
    (hflush : (t.step i).regFlush = false) :
    ∃ data, (t.step i).regWrite j = some (p, data) := by
  have hwb : (t.step i).pipeline.wb = t.pipeline.mem2.std := by
    rw [pipeline_wb_step, hmoves, if_neg Bool.false_ne_true]
  have huop : (t.step i).wb.uop = t.pipeline.uop2 := rfl
  have hvalid : (t.step i).wb.isValid = t.pipeline.mem2.isValid := by
    rw [wb_isValid_step, departs, hmoves, hclear]
    simp
  rw [Loads] at h
  rw [MemCore.regWrite, hflush]
  cases hstd : t.pipeline.mem2.std with
  | some std =>
    rw [hstd] at h hwb
    obtain ⟨hload, hreg⟩ := h
    have hdone : (t.step i).uncachedDone = true := by simp [uncachedDone, hwb, hload]
    have hlink : ((t.step i).wb.isValid && (t.step i).wb.uop.isSC) = false := by
      cases hkind : (t.step i).wb.isValid with
      | false => rfl
      | true => rw [(hport.wb hkind (by simp [hwb])).2, Bool.and_false]
    have hwrite : (t.step i).wb.writeReg = some p := by
      rw [hport.writeReg (.inr (by simp [hwb])), wbWReg, hwb]
      simpa [hload] using hreg
    rw [hdone, hlink, hwrite, Bool.or_true]
    exact ⟨_, rfl⟩
  | none =>
    rw [hstd] at h hwb
    obtain ⟨hmem2, hkind, hreg⟩ := h
    have hwrite : (t.step i).wb.writeReg = some p := by
      rw [hport.writeReg (.inl (hvalid.trans hmem2)), wbWReg, hwb, huop]
      exact hreg
    have htakes : ((t.step i).wb.isValid &&
        ((t.step i).wb.uop.cached || (t.step i).wb.uop.isSC)) = true := by
      rw [hvalid, hmem2, huop]
      rcases hkind with hkind | hkind <;> simp [hkind]
    rw [htakes, hwrite, huop, hreg, Bool.true_or, Bool.not_false, Bool.and_true, if_pos rfl,
      Option.map_some, Option.getD_some]
    split_ifs <;> exact ⟨_, rfl⟩

/-- MEM2 keeps what it holds. -/
theorem Loads.held (h : t.Loads p) (hstuck : t.pipeline.stuck2 (t.memInputs i) = true)
    (hclear : t.regFlush = false) : (t.step i).Loads p := by
  have hmem2 : (t.step i).pipeline.mem2 = t.pipeline.mem2 := by
    change t.pipeline.nextMem2 (t.memInputs i) = _
    have hkept : (t.memInputs i).flush = false := hclear
    rw [MemPipeline.nextMem2, if_pos hstuck, hkept, Bool.not_false, Bool.and_true]
  rw [Loads, MemPipeline.uop2, hmem2]
  exact h

end MemCore

namespace WakeupCore

variable {t : WakeupCore} {i : Inputs} {p : Nat}

/-- A register that DISPATCH finds free is free in the next cycle, unless it is given away. -/
theorem busy_step_of_readBusy (hp : p ∉ t.popped i) (h : t.readBusy i p = false) :
    (t.step i).busy p = false := by
  by_cases hzero : p = 0
  · simp [busy, hzero]
  · obtain ⟨r, rfl⟩ := Nat.exists_eq_add_one_of_ne_zero hzero
    have hstays : (t.step i).busys r = if (t.popped i).contains (r + 1) then true
      else if (t.clearBusys i).contains (r + 1) then false else t.busys r := rfl
    rw [busy, Nat.add_sub_cancel, hstays, List.contains_eq_mem, decide_eq_false hp,
      if_neg Bool.false_ne_true]
    rw [readBusy, if_neg (Nat.succ_ne_zero r), Nat.add_sub_cancel] at h
    rw [h, Bool.and_false]

end WakeupCore

namespace OperandCore

open DispatchCore WakeupCore Producers

variable {useEarlyOut : Bool} {s : OperandCore} {i : Inputs} {p : Nat}

/-! ## Where a result is -/

/-- A value is the result of the owner of a register. -/
def Supplies (s : OperandCore) (p : Nat) (v : UWord) : Prop :=
  match s.owner p with
  | some n => s.results n = some v
  | none => v = 0

/-- The read ports show the result of the owner. -/
def Readable (s : OperandCore) (p : Nat) : Prop := s.Settled p ∨ ∀ i, s.Written i p

/-- An instruction that writes the register is in a stage. -/
def Destined (s : OperandCore) (u : ExecUnit) (st : PipeStage) (p : Nat) : Prop :=
  ∃ x, s.slotAt u st = some x ∧ x.uop.doRegWrite = true ∧ x.wReg = p

/-- It leaves EXE in this cycle. -/
def Finishes (useEarlyOut : Bool) (s : OperandCore) (u : ExecUnit) (p : Nat) : Prop :=
  s.Destined u .exe p ∧ s.exeHeld useEarlyOut u = false

/-- The consumers of a register may issue. -/
def Awake (useEarlyOut : Bool) (s : OperandCore) (p : Nat) : Prop :=
  s.Readable p ∨ (∃ u, s.Finishes useEarlyOut u p) ∨ s.memory.Loads p

/-- The consumers may read it, unless they are held. -/
def Standby (s : OperandCore) (p : Nat) : Prop :=
  s.Readable p ∨ (s.memory.Loads p ∧ s.regWakeupFailed = true)

/-- The flag of an operand is set for one of these reasons. -/
def Flagged (s : OperandCore) (q : IssueQueue) (p : Nat) : Prop :=
  s.wakeup.busy p = false ∨ (q = .int ∧ ∃ u, u.queue = .int ∧ s.Destined u .rrd p)

theorem settled_iff : s.Settled p ↔ s.Supplies p (s.reg p) := by
  cases howner : s.owner p <;> simp only [Settled, Supplies, howner]

theorem Supplies.eq_some {n : Nat} {v : UWord} (h : s.Supplies p v) (hn : s.owner p = some n) :
    s.results n = some v := by
  rwa [Supplies, hn] at h

theorem Results.settled_zero (h : s.Results) : s.Settled 0 := by
  rw [Settled, h.recorded.numbered.zero]
  rfl

variable (useEarlyOut) in
/-- A read port shows what the register has after the cycle. -/
theorem Recorded.readPort_eq (h : s.Recorded) (p : Nat) :
    s.readPort i p = (s.step useEarlyOut i).reg p := by
  by_cases hzero : p = 0
  · subst hzero
    have hnone : ∀ w ∈ s.writes i, ¬ w.addr = 0 := by
      intro w hw hzero
      have howner := h.owner_of_write hw
      rw [hzero, h.numbered.zero] at howner
      cases howner
    rw [readPort, at?_writes, List.find?_eq_none.mpr (by simpa using hnone)]
    rfl
  · rw [reg_step hzero, readPort, at?_writes]

/-- What is read of a register that is readable is the result. -/
theorem Recorded.supplies_readPort (h : s.Recorded) (hp : p ∉ taken (s.leaving useEarlyOut i))
    (hread : s.Settled p ∨ s.Written i p) :
    (s.step useEarlyOut i).Supplies p (s.readPort i p) := by
  rw [h.readPort_eq useEarlyOut]
  exact settled_iff.mp (h.settled_step hp hread)

namespace Results

variable (h : s.Results)

include h

variable (useEarlyOut) in
/-- What is written belongs to an instruction in flight, which is reported in the same cycle, or
is the uncached load that retires. -/
theorem source_of_write (hclear : s.regFlush = false) {w : ResultWrite} (hw : w ∈ s.writes i) :
    ∃ n d, s.wakeup.dispatch.popped ≤ n ∧ s.wakeup.dispatch.renamed[n]? = some d ∧
      d.robIdx = w.robIdx ∧
      ((∃ c ∈ (s.wakeupInputs useEarlyOut i).completions, c.robIdx = d.robIdx) ∨
        ((s.entryState d).complete = true ∧ d.uop.isLoad = true ∧
          (s.entryState d).lsuUncached = true)) := by
  have hjoined := h.recorded.joined
  obtain ⟨n, d, hn, hd, hidx, hsource⟩ := h.recorded.inFlight_of_write hclear hw
  refine ⟨n, d, hn, hd, hidx, ?_⟩
  rcases hsource with ⟨u, -, hx⟩ | ⟨m, hsource, hold, hm⟩
  · obtain ⟨c, hc, heq⟩ := exists_report hx
    exact .inl ⟨c, List.mem_append_right _ hc, heq⟩
  · cases hsource with
    | held hvalid _ hnumber =>
      refine .inl ⟨_, h.memReport_mem hclear hvalid, ?_⟩
      obtain ⟨done, hordered⟩ :=
        hjoined.memory.inStep.order.ordered (hjoined.regFlush.trans hclear)
      obtain ⟨hmem, hrequest⟩ :=
        hordered.mem_passed (List.mem_append_right done (MemCore.mem_wbUops hvalid))
      obtain ⟨⟨hge, hlt⟩, -⟩ := MemCore.mem_memNumbers.mp hmem
      obtain ⟨d', hd', hidx', -⟩ := hjoined.exists_of_number hge hlt
      rw [← hnumber, ← hm] at hd'
      obtain rfl := Option.some.inj (hd.symm.trans hd')
      rw [hidx']
      exact congrArg MemRequest.robIdx hrequest
    | uncached hfsm hfires hnumber =>
      -- the head is complete, but it has not read before
      right
      have hpos : 0 < s.memory.popCount (s.memFront i) := MemCore.popCount_of_fires hfires
      have hclean : Commit.hasExcept s.wakeup.dispatch.core.ports s.wakeup.dispatch.core.fsm
          (s.dispatchInputs useEarlyOut i).commit = false := by
        have hclean := (hjoined.memory.inStep.execute_step (i := s.memFront i) hfsm).2.1
        rw [MemCore.hasExcept, hjoined.core] at hclean
        exact hclean
      have hcount : s.wakeup.dispatch.popCount (s.dispatchInputs useEarlyOut i) =
          s.memory.popCount (s.memFront i) := by
        change s.wakeup.dispatch.core.popCount _ = s.memory.core.popCount _
        rw [hjoined.core]
        rfl
      obtain ⟨d', hd', hport, hcomplete, -⟩ := h.retires useEarlyOut hclean
        (j := 0) (hcount ▸ hpos)
      rw [hnumber, Nat.sub_self] at hm
      rw [hm] at hd
      obtain rfl := Option.some.inj (hd.symm.trans hd')
      obtain ⟨u, done, rest, -, -, hshown, haccess, hload, -⟩ :=
        hjoined.memory.inStep.executing hfsm
      have hstore : u.isStore = false := by
        rw [← hshown.isStore]
        by_contra hno
        exact hshown.decodes.one ⟨hshown.isLoad.trans hload, Bool.of_not_eq_false hno⟩
      have huncached := hshown.uncached
      have hisLoad := hshown.isLoad.trans hload
      simp only [MemUop.isAccess, hstore, Bool.false_or, Bool.and_eq_true,
        Bool.not_eq_true'] at haccess
      rw [haccess.2.2] at huncached
      rw [hjoined.core, hport] at huncached hisLoad
      exact ⟨hcomplete, hisLoad, huncached⟩

/-- A result is written once. -/
theorem fresh_of_write (hclear : s.regFlush = false) {w : ResultWrite} (hw : w ∈ s.writes i)
    (hi : s.Legal useEarlyOut i) : s.results (s.numbers w.robIdx) = none := by
  have hjoined := h.recorded.joined
  obtain ⟨n, d, hn, hd, hidx, hsource⟩ :=
    h.source_of_write useEarlyOut hclear hw
  rw [← hidx]
  apply h.unfinished n d hn hd
  rcases hsource with ⟨c, hc, heq⟩ | ⟨-, hload, huncached⟩
  · have hincomplete := (hjoined.wakeup.reported hclear (hjoined.wakeupLegal hi) hc).incomplete
    rw [heq] at hincomplete
    exact .inl hincomplete
  · exact .inr ⟨hload, huncached⟩

/-- So is a value that has been read, as long as the register has the same owner. -/
theorem supplies_step (hclear : s.regFlush = false) (hi : s.Legal useEarlyOut i)
    (hp : p ∉ taken (s.leaving useEarlyOut i)) {v : UWord} (hv : s.Supplies p v) :
    (s.step useEarlyOut i).Supplies p v := by
  rw [Supplies, owner_step hp]
  cases howner : s.owner p with
  | none =>
    rw [Supplies, howner] at hv
    exact hv
  | some n =>
    have hold := hv.eq_some howner
    change OperandCore.results _ _ = _
    rw [results_step, List.find?_eq_none.mpr, hold]
    · rfl
    · intro w hw heq
      rw [beq_iff_eq] at heq
      have hfresh := h.fresh_of_write hclear hw hi
      rw [heq, hold] at hfresh
      cases hfresh

end Results

/-! ## One cycle later -/

theorem memStuck2_eq : s.memory.pipeline.stuck2 (s.memory.memInputs (s.memoryInputs useEarlyOut i)) =
    s.memStuck2 i := rfl

/-- What leaves EXE is written in the next cycle. -/
theorem Finishes.written {u : ExecUnit} (h : s.Finishes useEarlyOut u p)
    (hpipes : (s.step useEarlyOut i).Pipes) (hclear : s.regFlush = false) (j : Inputs) :
    (s.step useEarlyOut i).Written j p := by
  obtain ⟨⟨x, hx, hwrites, rfl⟩, hmoves⟩ := h
  have hwb : (s.step useEarlyOut i).slotAt u .wb = some x := by
    rw [slotAt_wb_step, hclear, hmoves]
    exact hx
  exact Results.written_of_slotAt hpipes hwb hwrites

/-- MEM2 hands its load to WB, or the wake-up has failed. -/
theorem loads_step (h : s.memory.Loads p) (hport : (s.step useEarlyOut i).memory.ResultPort)
    (hmem : s.memory.regFlush = false) (hflush : (s.step useEarlyOut i).memory.regFlush = false) :
    (∀ j, (s.step useEarlyOut i).Written j p) ∨
      ((s.step useEarlyOut i).memory.Loads p ∧
        (s.step useEarlyOut i).regWakeupFailed = true) := by
  cases hstuck : s.memStuck2 i with
  | false =>
    left
    intro j
    obtain ⟨data, hwrite⟩ := MemCore.Loads.regWrite (i := s.memoryInputs useEarlyOut i)
      (j := (s.step useEarlyOut i).memFront j) h hport hstuck hmem hflush
    exact Results.written_of_regWrite hwrite
  | true =>
    refine .inr ⟨MemCore.Loads.held (i := s.memoryInputs useEarlyOut i) h hstuck hmem, ?_⟩
    have hreg : s.mem2WriteReg = some p := by
      rw [MemCore.Loads] at h
      rw [mem2WriteReg]
      cases hstd : s.memory.pipeline.mem2.std with
      | some std =>
        rw [hstd] at h
        simpa [h.1] using h.2
      | none =>
        rw [hstd] at h
        exact h.2.2
    change (s.memStuck2 i && s.mem2WriteReg.isSome) = true
    rw [hstuck, hreg]
    rfl

/-- A register that is awake may be read in the next cycle, unless the wake-up has failed. -/
theorem Results.standby_step (h : s.Results) (hi : s.Legal useEarlyOut i)
    (hclear : s.regFlush = false) (hflush : (s.step useEarlyOut i).regFlush = false)
    (hp : p ∉ taken (s.leaving useEarlyOut i)) (hawake : s.Awake useEarlyOut p) :
    (s.step useEarlyOut i).Standby p := by
  have hnext := (h.step hi).recorded
  rcases hawake with (hsettled | hwritten) | ⟨u, hfinishes⟩ | hloads
  · exact .inl (.inl (h.recorded.settled_step hp (.inl hsettled)))
  · exact .inl (.inl (h.recorded.settled_step hp (.inr (hwritten i))))
  · exact .inl (.inr (hfinishes.written hnext.joined.pipes hclear))
  · rcases loads_step hloads hnext.port (h.recorded.joined.regFlush.trans hclear)
      (hnext.joined.regFlush.trans hflush) with hwritten | hfailed
    · exact .inl (.inr hwritten)
    · exact .inr hfailed

theorem Standby.awake (h : s.Standby p) : s.Awake useEarlyOut p := by
  rcases h with hread | ⟨hloads, -⟩
  · exact .inl hread
  · exact .inr (.inr hloads)

/-! ## What clears a busy bit -/

/-- An integer pipe that is not held takes its instruction to EXE. -/
theorem Destined.finishes {u : ExecUnit} (h : s.Destined u .rrd p) (hu : u.queue = .int)
    (hclear : s.regFlush = false) (hmoves : s.regWakeupFailed = false) :
    (s.step useEarlyOut i).Finishes useEarlyOut u p := by
  obtain ⟨x, hx, hwrites, rfl⟩ := h
  refine ⟨⟨x, ?_, hwrites, rfl⟩, exeHeld_int hu⟩
  rw [slotAt_exe_step, hclear, exeHeld_int hu, hmoves]
  exact hx

theorem mem_intClrBusys : p ∈ s.wakeup.intClrBusys (s.wakeupInputs useEarlyOut i) ↔
    s.regWakeupFailed = false ∧ ∃ u, u.queue = .int ∧ s.Destined u .rrd p := by
  constructor
  · intro hp
    obtain ⟨u, hu, hx⟩ := List.mem_filterMap.mp hp
    obtain ⟨x, hx, hwrites⟩ := Option.bind_eq_some_iff.mp hx
    split_ifs at hwrites with hcond
    rw [Bool.and_eq_true, Bool.not_eq_true'] at hcond
    rw [ExecUnit.mem_units_int] at hu
    exact ⟨hcond.1, u, hu, x, (slotAt_of_regRead hu).trans hx, hcond.2, Option.some.inj hwrites⟩
  · rintro ⟨hmoves, u, hu, x, hx, hwrites, rfl⟩
    have hcond : (!s.regWakeupFailed && x.uop.doRegWrite) = true := by
      rw [hmoves, hwrites]
      rfl
    exact List.mem_filterMap.mpr ⟨u, ExecUnit.mem_units_int.mpr hu,
      Option.bind_eq_some_iff.mpr ⟨x, (slotAt_of_regRead hu).symm.trans hx, if_pos hcond⟩⟩

/-- The multiply and divide pipe clears a busy bit in the last cycle of EXE, or in the one
before that. -/
theorem finishes_of_clrBusy (h : s.Pipes) (hclear : s.regFlush = false)
    (hp : s.mulDiv.clrBusy useEarlyOut = some p) :
    s.Finishes useEarlyOut .mulDiv p ∨ (s.step useEarlyOut i).Finishes useEarlyOut .mulDiv p := by
  rw [MulDivPipe.clrBusy] at hp
  split_ifs at hp with hcond
  rw [Bool.and_eq_true, Bool.and_eq_true] at hcond
  obtain ⟨⟨hvalid, hcycle⟩, hwrites⟩ := hcond
  have hslot := h.exeSlot hvalid
  rw [MulDivPipe.uop, hslot] at hwrites
  rw [hslot] at hp
  have hdestined : s.Destined .mulDiv .exe p :=
    ⟨s.mulDivExe, by simp [slotAt, hvalid], hwrites, Option.some.inj hp⟩
  cases hstuck : s.mulDiv.exeStuck useEarlyOut with
  | false => exact .inl ⟨hdestined, hstuck⟩
  | true =>
    -- the counter of a multiplication is about to show its last value
    right
    rw [MulDivPipe.wakeupCycle, hstuck] at hcycle
    have hmul : s.mulDiv.isMultiply = true := by
      by_contra hno
      rw [if_neg hno] at hcycle
      cases hcycle
    rw [if_pos hmul, beq_iff_eq] at hcycle
    have hstays : (s.step useEarlyOut i).mulDiv.exeSlot = s.mulDiv.exeSlot := if_pos hstuck
    have hentry : (s.step useEarlyOut i).mulDiv.exeValidOnEntry = s.mulDiv.exeValidOnEntry := by
      change (if s.mulDiv.rrdFires useEarlyOut (s.mulDivInputs i) then _ else
        if !s.mulDiv.exeStuck useEarlyOut then _ else _ : Bool) = _
      rw [MulDivPipe.rrdFires, MulDivPipe.rrdStuck, hstuck]
      simp
    have hcounter : (s.step useEarlyOut i).mulDiv.mulCounter = multiplyLatency := by
      change (if s.mulDiv.isMultiply then if s.mulDiv.mulCounter = multiplyLatency then 0
        else s.mulDiv.mulCounter + 1 else _ : Nat) = _
      rw [if_pos hmul, hcycle]
      rfl
    have hmul' : (s.step useEarlyOut i).mulDiv.isMultiply = true := by
      rw [MulDivPipe.isMultiply, MulDivPipe.uop, hentry, hstays]
      exact hmul
    have hdiv' : (s.step useEarlyOut i).mulDiv.isDivision = false := by
      have hkind := (Bool.and_eq_true_iff.mp hmul').2
      rw [MulDivPipe.isDivision]
      rw [MulDivIQMicroOp.isMultiply] at hkind
      rw [MulDivIQMicroOp.isDivision]
      cases hfu : (s.step useEarlyOut i).mulDiv.uop.fuType <;> simp [hfu] at hkind ⊢
    refine ⟨?_, ?_⟩
    · obtain ⟨x, hx, hwrites, rfl⟩ := hdestined
      refine ⟨x, ?_, hwrites, rfl⟩
      rw [slotAt_exe_step, hclear, exeHeld, hstuck]
      exact hx
    · change (s.step useEarlyOut i).mulDiv.exeStuck useEarlyOut = false
      rw [MulDivPipe.exeStuck, hdiv', hcounter]
      simp

/-- MEM1 clears that of a load that goes to MEM2. -/
theorem loads_of_clrBusy (hclear : s.memory.regFlush = false) (hp : s.mem1ClrBusy i = some p)
    (hstd : ∀ std ∈ s.memory.pipeline.mem1.std, std.isStore = false) :
    (s.step useEarlyOut i).memory.Loads p := by
  rw [mem1ClrBusy] at hp
  split_ifs at hp with hcond
  rw [Bool.and_eq_true, Bool.not_eq_true'] at hcond
  obtain ⟨hkind, hmoves⟩ := hcond
  have hstuck : s.memory.pipeline.stuck2 (s.memInputs i) = false ∧
      s.memory.pipeline.doRefetch (s.memInputs i) = false := by
    rw [memStuck1, MemPipeline.stuck1] at hmoves
    exact Bool.or_eq_false_iff.mp hmoves
  have hmem2 : (s.step useEarlyOut i).memory.pipeline.mem2 = s.memory.pipeline.mem1 := by
    have hflush : (s.memInputs i).flush = false := hclear
    rw [pipeline_step]
    change s.memory.pipeline.nextMem2 (s.memInputs i) = _
    rw [MemPipeline.nextMem2, hstuck.1, hstuck.2, hflush]
    simp
  rw [MemCore.Loads, MemPipeline.uop2, hmem2]
  cases hslot : s.memory.pipeline.mem1.std with
  | some std =>
    rw [hslot] at hp
    exact ⟨hstd std hslot, hp⟩
  | none =>
    rw [hslot] at hp hkind
    simp only [Option.any_none, Bool.or_false, Bool.and_eq_true, Bool.or_eq_true] at hkind
    exact ⟨hkind.1, hkind.2, hp⟩

theorem exists_wb {u : ExecUnit} (hu : u.queue = .int) {x : IssueSlot}
    (hx : s.slotAt u .wb = some x) : ∃ b, s.wb u = some b ∧ b.slot = x := by
  cases u <;> simp [ExecUnit.queue] at hu <;> exact Option.map_eq_some_iff.mp hx

/-! ## What issues -/

/-- A slot that issues has its flags set. -/
theorem ready_of_issuedTo {u : ExecUnit} {x : IssueSlot}
    (hx : s.issuedTo useEarlyOut i u = some x) : ∃ k < u.queue.depth, ∃ slot,
      s.wakeup.slots u.queue k = some slot ∧ slot.payload = x ∧ ∀ j < 2, slot.ready j = true := by
  have hready : ∀ (q : IssueQueue) k slot, s.wakeup.slots q k = some slot →
      IssueQueue.waken (s.wakeup.slots q) k = true → ∀ j < 2, slot.ready j = true := by
    intro q k slot hslot hwaken j hj
    rw [IssueQueue.waken, hslot, Option.any_some, Bool.and_eq_true] at hwaken
    obtain rfl | rfl : j = 0 ∨ j = 1 := by omega
    · exact hwaken.1
    · exact hwaken.2
  cases u with
  | int0 | int1 | int2 =>
    obtain ⟨k, hgrant, hslot⟩ := Option.bind_eq_some_iff.mp hx
    obtain ⟨slot, hslot, hpayload⟩ := Option.map_eq_some_iff.mp hslot
    have hasks := List.find?_some hgrant
    rw [Bool.and_eq_true, IssueQueue.issReq, IssueQueue.erase, hslot] at hasks
    obtain ⟨hasks, -⟩ := hasks
    rw [Option.map_some, Option.any_some, Bool.and_eq_true] at hasks
    have hwaken := (Bool.and_eq_true_iff.mp hasks.2).1
    have hrange := (IssueQueue.valid_of_grant hgrant).1
    exact ⟨k, hrange, slot, hslot, hpayload, hready _ k slot hslot hwaken⟩
  | mulDiv =>
    rw [issuedTo] at hx
    split_ifs at hx with hwaken
    cases hslot : s.wakeup.slots .mulDiv 0 with
    | none => simp [IssueQueue.waken, hslot] at hwaken
    | some slot =>
      rw [headSlot, hslot] at hx
      exact ⟨0, by decide, slot, hslot, Option.some.inj hx, hready _ 0 slot hslot hwaken⟩
  | mem => cases hx

theorem ready_of_memIssues (hissues : s.memIssues i = true) : ∃ slot,
    s.wakeup.slots .mem 0 = some slot ∧ slot.payload = s.headSlot .mem ∧
      ∀ j < 2, slot.ready j = true := by
  rw [memIssues, Bool.and_eq_true, MemPipeline.issValid, Bool.and_eq_true] at hissues
  have hready : (s.memInputs i).headReady = (IssueQueue.waken (s.wakeup.slots .mem) 0 &&
      (s.memory.regFlush || !s.memory.waiting.isEmpty)) := rfl
  rw [hready, Bool.and_eq_true] at hissues
  have hwaken := hissues.1.1.1
  cases hslot : s.wakeup.slots .mem 0 with
  | none => simp [IssueQueue.waken, hslot] at hwaken
  | some slot =>
    rw [IssueQueue.waken, hslot, Option.any_some, Bool.and_eq_true] at hwaken
    refine ⟨slot, rfl, by rw [headSlot, hslot]; rfl, fun j hj => ?_⟩
    obtain rfl | rfl : j = 0 ∨ j = 1 := by omega
    · exact hwaken.1
    · exact hwaken.2

/-! ## The invariant -/

/-- The operands of the instructions in the queues and in the pipes. -/
structure Fresh (useEarlyOut : Bool) (s : OperandCore) : Prop where
  results : s.Results
  awake : ∀ n d, s.wakeup.dispatch.popped ≤ n → s.wakeup.dispatch.renamed[n]? = some d →
    d.uop.doRegWrite = true → s.wakeup.busy d.rename.wReg = false →
      s.Awake useEarlyOut d.rename.wReg
  flags : ∀ (q : IssueQueue) k slot, k < q.depth → s.wakeup.slots q k = some slot → ∀ j,
    q.uses slot.payload.uop j = true → slot.ready j = true →
      s.Flagged q (operand slot.payload.rRegs j)
  waiting : s.regFlush = false → ∀ u x, s.slotAt u .rrd = some x → ∀ j < 2,
    u.queue.uses x.uop j = true → s.Standby (operand x.rRegs j) ∨
      (u.queue = .int ∧ ∃ v, v.queue = .int ∧ s.Finishes useEarlyOut v (operand x.rRegs j))
  mem : s.regFlush = false → s.memory.pipeline.rrd.isValid = true → ∀ j < 2,
    IssueQueue.mem.uses s.memRrd.uop j = true → s.Readable (operand s.memRrd.rRegs j)
  intExe : ∀ u e, u.queue = .int → s.exe u = some e → ∀ j < 2,
    IssueQueue.int.uses e.slot.uop j = true →
      (∃ w ∈ s.intWrites, w.addr = operand e.slot.rRegs j) ∨
        s.Supplies (operand e.slot.rRegs j) (e.regReadRsp j)
  mulDivExe : s.mulDiv.exeValid = true → ∀ j : Fin 2,
    IssueQueue.mulDiv.uses s.mulDivExe.uop j = true →
      s.Supplies (operand s.mulDivExe.rRegs j) (s.mulDiv.regData j)

/-- The busy bit of MEM1 is clear already when store data clears it. -/
def Undisturbed (s : OperandCore) (i : Inputs) : Prop :=
  ∀ std ∈ s.memory.pipeline.mem1.std, std.isStore = true →
    ∀ p ∈ s.mem1ClrBusy i, s.wakeup.busy p = false

namespace Fresh

variable (h : s.Fresh useEarlyOut)

include h

/-- An operand of an instruction in flight that is not busy is awake. -/
theorem awake_of_idle (hclear : s.regFlush = false) {n : Nat} {d : DispatchSlot}
    (hn : s.wakeup.dispatch.popped ≤ n) (hd : s.wakeup.dispatch.renamed[n]? = some d) {j : Nat}
    (hidle : s.wakeup.busy (operand d.rename.rRegs j) = false) :
    s.Awake useEarlyOut (operand d.rename.rRegs j) := by
  have hjoined := h.results.recorded.joined
  have hdispatch := hjoined.dispatch
  have hflying : s.wakeup.dispatch.rename.inFlight[n - s.wakeup.dispatch.popped]? =
      some d.pushPort := by
    rw [hdispatch.inFlight, List.getElem?_map, List.getElem?_drop, Nat.add_sub_cancel' hn, hd]
    rfl
  rcases hjoined.wakeup.sourced _ _ hflying j with hzero | hmaps
  · have hzero : operand d.rename.rRegs j = 0 := hzero
    rw [hzero]
    exact .inl (.inl h.results.settled_zero)
  · have hlive : operand d.rename.rRegs j ∈ _ := hmaps.mem_live
    rcases List.mem_append.mp hlive with hnew | hold
    · -- an instruction in flight writes it
      rw [RenameStage.abs, RenameStage.live, hdispatch.stage.settled hclear, List.nil_append,
        hdispatch.inFlight, new_writes] at hnew
      obtain ⟨d', hd', heq⟩ := List.mem_map.mp hnew
      obtain ⟨hd', hwrites⟩ := List.mem_filter.mp hd'
      obtain ⟨k, hk⟩ := List.mem_iff_getElem?.mp hd'
      rw [List.getElem?_drop] at hk
      rw [← heq] at hidle ⊢
      exact h.awake _ d' (Nat.le_add_right _ k) hk hwrites hidle
    · obtain ⟨b, hb, heq⟩ := List.mem_map.mp hold
      rw [← heq]
      exact .inl (.inl (h.results.committed b hb))

/-- So is that of an instruction that issues, or the instruction is woken by one in front
of it. -/
theorem flagged_operand (hclear : s.regFlush = false) {q : IssueQueue} {k : Nat}
    (hk : k < q.depth) {slot : QueueSlot IssueSlot} (hslot : s.wakeup.slots q k = some slot)
    {j : Nat} (huses : q.uses slot.payload.uop j = true) (hready : slot.ready j = true) :
    operand slot.payload.rRegs j ∉ taken (s.leaving useEarlyOut i) ∧
      (s.Awake useEarlyOut (operand slot.payload.rRegs j) ∨ (q = .int ∧ ∃ u, u.queue = .int ∧
        s.Destined u .rrd (operand slot.payload.rRegs j))) := by
  have hwakeup := h.results.recorded.joined.wakeup
  obtain ⟨n, d, hn, hd, heq⟩ := hwakeup.exists_of_slot hclear hk hslot
  have hflag := h.flags q k slot hk hslot j huses hready
  rw [← heq] at hflag ⊢
  refine ⟨hwakeup.dispatch.operand_not_taken hwakeup.sourced hn hd j, ?_⟩
  exact hflag.imp_left (h.awake_of_idle hclear hn hd)

theorem awake_step (hi : s.Legal useEarlyOut i) (hquiet : s.Undisturbed i) {n : Nat}
    {d : DispatchSlot} (hn : (s.step useEarlyOut i).wakeup.dispatch.popped ≤ n)
    (hd : (s.step useEarlyOut i).wakeup.dispatch.renamed[n]? = some d)
    (hwrites : d.uop.doRegWrite = true)
    (hidle : (s.step useEarlyOut i).wakeup.busy d.rename.wReg = false) :
    (s.step useEarlyOut i).Awake useEarlyOut d.rename.wReg := by
  have hjoined := h.results.recorded.joined
  have hpipes := (hjoined.step hi).pipes
  obtain ⟨hflush, ⟨hclear, hn, hd⟩ | ⟨k, -, hd⟩⟩ := hjoined.origin_of_renamed hn hd
  · have hn' : s.wakeup.dispatch.popped ≤ n := (Nat.le_add_right _ _).trans hn
    have hp := hjoined.dispatch.wReg_not_taken (i := s.dispatchInputs useEarlyOut i) hclear hn' hd
      hwrites
    have hkept : s.Awake useEarlyOut d.rename.wReg →
        (s.step useEarlyOut i).Awake useEarlyOut d.rename.wReg := fun hawake =>
      (h.results.standby_step hi hclear hflush hp hawake).awake
    cases hbusy : s.wakeup.busy d.rename.wReg with
    | false => exact hkept (h.awake n d hn' hd hwrites hbusy)
    | true =>
      have hcleared : d.rename.wReg ∈ s.wakeup.clearBusys (s.wakeupInputs useEarlyOut i) := by
        by_contra hno
        have hstays : (s.step useEarlyOut i).wakeup.busy d.rename.wReg = true :=
          busy_step hbusy hno
        rw [hidle] at hstays
        cases hstays
      rcases List.mem_append.mp hcleared with hint | hother
      · obtain ⟨hmoves, u, hu, hdestined⟩ := mem_intClrBusys.mp hint
        exact .inr (.inl ⟨u, hdestined.finishes hu hclear hmoves⟩)
      · rcases List.mem_append.mp hother with hmulDiv | hmem
        · rcases finishes_of_clrBusy (i := i) hjoined.pipes hclear
            (Option.mem_toList.mp hmulDiv) with hnow | hnext
          · exact hkept (.inr (.inl ⟨_, hnow⟩))
          · exact .inr (.inl ⟨_, hnext⟩)
        · have hclr := Option.mem_toList.mp hmem
          refine .inr (.inr (loads_of_clrBusy (hjoined.regFlush.trans hclear) hclr ?_))
          intro std hstd
          by_contra hstore
          have hdisturbed := hquiet std hstd (Bool.of_not_eq_false hstore) _ hclr
          rw [hbusy] at hdisturbed
          cases hdisturbed
  · -- the register has just been given away
    have htaken : d.rename.wReg ∈ taken (s.leaving useEarlyOut i) :=
      mem_taken (List.mem_of_getElem? hd) hwrites
    have hzero : d.rename.wReg ≠ 0 := fun hzero =>
      hjoined.dispatch.taken_leaving_ne_zero (hzero ▸ htaken)
    obtain ⟨r, hr⟩ := Nat.exists_eq_succ_of_ne_zero hzero
    have hset : (s.step useEarlyOut i).wakeup.busys r = true := by
      have hpop : (s.wakeup.popped (s.wakeupInputs useEarlyOut i)).contains (r + 1) = true := by
        rw [popped_eq, List.contains_eq_mem, decide_eq_true_eq, ← Nat.succ_eq_add_one, ← hr]
        exact htaken
      exact if_pos hpop
    rw [busy, hr] at hidle
    rw [Nat.succ_sub_one, hset] at hidle
    simp at hidle

/-- A flag that is set tells that the busy bit is clear after the cycle, or that it is about to
be cleared. -/
theorem flags_step {q : IssueQueue} {k : Nat} (hk : k < q.depth) {slot : QueueSlot IssueSlot}
    (hslot : (s.step useEarlyOut i).wakeup.slots q k = some slot) {j : Nat}
    (huses : q.uses slot.payload.uop j = true) (hready : slot.ready j = true) :
    (s.step useEarlyOut i).Flagged q (operand slot.payload.rRegs j) := by
  have hwakeup := h.results.recorded.joined.wakeup
  have hidle : ∀ p, p ∉ taken (s.leaving useEarlyOut i) →
      s.wakeup.readBusy (s.wakeupInputs useEarlyOut i) p = false →
        (s.step useEarlyOut i).wakeup.busy p = false := by
    intro p hp
    rw [leaving, dispatchInputs, ← popped_eq] at hp
    exact busy_step_of_readBusy hp
  obtain ⟨hclear, ⟨k', hk', slot', hold, rfl⟩ | ⟨lane, hpush⟩⟩ :=
    IssueQueue.origin_nextSlots hk hslot
  · obtain ⟨n, d, hn, hd, heq⟩ := hwakeup.exists_of_slot hclear hk' hold
    have hp := hwakeup.dispatch.operand_not_taken (i := s.dispatchInputs useEarlyOut i)
      hwakeup.sourced hn hd j
    change operand d.issueSlot.rRegs j ∉ _ at hp
    rw [heq] at hp
    dsimp only at hready huses ⊢
    rw [Bool.or_eq_true] at hready
    rcases hready with hset | hwake
    · rcases h.flags q k' slot' hk' hold j huses hset with hfree | ⟨rfl, u, hu, hdestined⟩
      · refine .inl (hidle _ hp ?_)
        rw [← Bool.not_eq_true, readBusy_iff, hfree]
        simp
      · cases hmoves : s.regWakeupFailed with
        | true =>
          -- RRD is held
          obtain ⟨x, hx, hwrites, hreg⟩ := hdestined
          refine .inr ⟨rfl, u, hu, x, ?_, hwrites, hreg⟩
          rw [slotAt_rrd_step, rrdHeld_int hu, hmoves]
          have hclear : s.regFlush = false := hclear
          rw [hclear]
          exact hx
        | false =>
          have hclr : operand slot'.payload.rRegs j ∈
              s.wakeup.clearBusys (s.wakeupInputs useEarlyOut i) :=
            List.mem_append_left _ (mem_intClrBusys.mpr ⟨hmoves, u, hu, hdestined⟩)
          refine .inl (hidle _ hp ?_)
          rw [readBusy, List.contains_eq_mem, decide_eq_true hclr, if_pos rfl]
    · rw [wake, hold, Option.any_some, Bool.or_eq_true] at hwake
      rcases hwake with htold | hlocal
      · refine .inl (hidle _ hp ?_)
        rw [readBusy, htold, if_pos rfl]
      · -- the instruction that issues is in RRD in the next cycle
        rw [Bool.and_eq_true, beq_iff_eq, localWakeup, Bool.and_eq_true, Bool.not_eq_true',
          List.any_eq_true] at hlocal
        obtain ⟨rfl, hmoves, u, hu, hissues⟩ := hlocal
        obtain ⟨x, hx, hwrites⟩ := (Option.any_eq_true _ _).mp hissues
        rw [Bool.and_eq_true, beq_iff_eq] at hwrites
        rw [ExecUnit.mem_units_int] at hu
        refine .inr ⟨rfl, u, hu, x, ?_, hwrites.1, hwrites.2⟩
        have hmoves : s.regWakeupFailed = false := hmoves
        have hclear : s.regFlush = false := hclear
        rw [slotAt_rrd_step, rrdHeld_int hu, hmoves, hclear]
        cases u <;> simp [ExecUnit.queue] at hu <;> exact hx
  · obtain ⟨n, d, hn, hd, heq⟩ := hwakeup.exists_of_pushPort hclear hpush
    have hp := hwakeup.dispatch.operand_not_taken (i := s.dispatchInputs useEarlyOut i)
      hwakeup.sourced hn hd j
    change operand d.issueSlot.rRegs j ∉ _ at hp
    rw [heq] at hp
    obtain ⟨-, hflag⟩ := payload_of_pushPort hpush
    rw [hflag] at hready
    simp only [huses, Bool.not_true, Bool.false_or, Bool.not_eq_true'] at hready
    exact .inl (hidle _ hp hready)

theorem waiting_step (hi : s.Legal useEarlyOut i)
    (hflush : (s.step useEarlyOut i).regFlush = false) {u : ExecUnit} {x : IssueSlot}
    (hx : (s.step useEarlyOut i).slotAt u .rrd = some x) {j : Nat} (hj : j < 2)
    (huses : u.queue.uses x.uop j = true) :
    (s.step useEarlyOut i).Standby (operand x.rRegs j) ∨ (u.queue = .int ∧
      ∃ v, v.queue = .int ∧ (s.step useEarlyOut i).Finishes useEarlyOut v (operand x.rRegs j)) := by
  have hjoined := h.results.recorded.joined
  have hwakeup := hjoined.wakeup
  obtain ⟨hclear, hcase⟩ := origin_of_slotAt hx
  rcases hcase with ⟨-, hmoves, hissued⟩ | ⟨st, hst, hold, hnext⟩
  · obtain ⟨k, hk, slot, hslot, rfl, hready⟩ := ready_of_issuedTo hissued
    obtain ⟨hp, hawake | ⟨hqueue, v, hv, hdestined⟩⟩ :=
      h.flagged_operand (i := i) hclear hk hslot huses (hready j hj)
    · exact .inl (h.results.standby_step hi hclear hflush hp hawake)
    · exact .inr ⟨hqueue, v, hv, hdestined.finishes hv hclear (rrdHeld_eq_false hmoves).1⟩
  · -- it is held in RRD
    have hrrd : st = .rrd := by
      cases st with
      | rrd => rfl
      | exe =>
        rw [nextStage] at hnext
        split_ifs at hnext
      | wb => exact absurd rfl hst
    subst hrrd
    obtain ⟨n, d, hn, hd, rfl⟩ :=
      hjoined.inFlight hclear x (hjoined.pipes.executing u .rrd x hold)
    have hp := hwakeup.dispatch.operand_not_taken (i := s.dispatchInputs useEarlyOut i)
      hwakeup.sourced hn hd j
    left
    rcases h.waiting hclear u _ hold j hj huses with hstandby | ⟨-, v, -, hfinishes⟩
    · exact h.results.standby_step hi hclear hflush hp hstandby.awake
    · exact h.results.standby_step hi hclear hflush hp (.inr (.inl ⟨v, hfinishes⟩))

theorem mem_step (hi : s.Legal useEarlyOut i)
    (hflush : (s.step useEarlyOut i).regFlush = false)
    (hvalid : (s.step useEarlyOut i).memory.pipeline.rrd.isValid = true) {j : Nat} (hj : j < 2)
    (huses : IssueQueue.mem.uses (s.step useEarlyOut i).memRrd.uop j = true) :
    (s.step useEarlyOut i).Readable (operand (s.step useEarlyOut i).memRrd.rRegs j) := by
  have hjoined := h.results.recorded.joined
  have hwakeup := hjoined.wakeup
  have hrrd : (s.step useEarlyOut i).memory.pipeline.rrd = if s.memStuck1 i then
      { s.memory.pipeline.rrd with
        isValid := s.memory.pipeline.rrd.isValid && !(s.memInputs i).flush }
      else { s.memory.pipeline.issStage (s.memInputs i) with
        isValid := (s.memory.pipeline.issStage (s.memInputs i)).isValid &&
          !(s.memInputs i).flush } := rfl
  have hslot : (s.step useEarlyOut i).memRrd =
    if s.memStuck1 i then s.memRrd else s.headSlot .mem := rfl
  rw [hrrd] at hvalid
  rw [hslot] at huses ⊢
  split_ifs at hvalid huses ⊢ with hstuck
  · rw [Bool.and_eq_true, Bool.not_eq_true'] at hvalid
    have hclear : s.regFlush = false := hjoined.regFlush.symm.trans hvalid.2
    obtain ⟨n, d, hn, hd, heq⟩ := hjoined.inFlight hclear _ (hjoined.mem.rrd hvalid.1).1
    have hread := h.mem hclear hvalid.1 j hj huses
    rw [← heq] at hread ⊢
    have hp := hwakeup.dispatch.operand_not_taken (i := s.dispatchInputs useEarlyOut i)
      hwakeup.sourced hn hd j
    exact .inl (h.results.recorded.settled_step hp (hread.imp_right fun hall => hall i))
  · rw [Bool.and_eq_true, Bool.not_eq_true'] at hvalid
    have hclear : s.regFlush = false := hjoined.regFlush.symm.trans hvalid.2
    have hissues : s.memIssues i = true := by
      have hissue := hvalid.1
      rw [MemPipeline.issStage, Bool.and_eq_true] at hissue
      rw [memIssues, hissue.1, eq_false_of_ne_true hstuck]
      rfl
    obtain ⟨slot, hqueue, hpayload, hready⟩ := ready_of_memIssues hissues
    rw [← hpayload] at huses ⊢
    obtain ⟨hp, hawake | ⟨hint, -⟩⟩ :=
      h.flagged_operand (i := i) hclear (q := .mem) (by decide) hqueue huses (hready j hj)
    · rcases h.results.standby_step hi hclear hflush hp hawake with hread | ⟨-, hfailed⟩
      · exact hread
      · -- MEM2 is not held when the pipeline issues
        exfalso
        have hheld : (s.memStuck2 i && s.mem2WriteReg.isSome) = true := hfailed
        have hmoves : (s.memStuck2 i || s.memory.pipeline.doRefetch (s.memInputs i)) = false :=
          eq_false_of_ne_true hstuck
        rw [(Bool.or_eq_false_iff.mp hmoves).1] at hheld
        cases hheld
    · cases hint

/-- What RRD hands over is the result, unless an integer pipe writes it in the next cycle. -/
theorem intExe_step {u : ExecUnit} (hu : u.queue = .int)
    {e : ExeStage} (he : (s.step useEarlyOut i).exe u = some e) {j : Nat} (hj : j < 2)
    (huses : IssueQueue.int.uses e.slot.uop j = true) :
    (∃ w ∈ (s.step useEarlyOut i).intWrites, w.addr = operand e.slot.rRegs j) ∨
      (s.step useEarlyOut i).Supplies (operand e.slot.rRegs j) (e.regReadRsp j) := by
  have hjoined := h.results.recorded.joined
  have hwakeup := hjoined.wakeup
  have hexe : (s.step useEarlyOut i).exe u = if s.regFlush || s.regWakeupFailed then none
    else (s.wakeup.regRead u).map fun slot =>
      { slot, regReadRsp := fun j => s.readPort i (operand slot.rRegs j) } := rfl
  rw [hexe] at he
  split_ifs at he with hcond
  rw [Bool.not_eq_true, Bool.or_eq_false_iff] at hcond
  obtain ⟨hclear, hmoves⟩ := hcond
  obtain ⟨x, hx, rfl⟩ := Option.map_eq_some_iff.mp he
  rw [← slotAt_of_regRead hu] at hx
  obtain ⟨n, d, hn, hd, rfl⟩ := hjoined.inFlight hclear x (hjoined.pipes.executing u .rrd x hx)
  have hp := hwakeup.dispatch.operand_not_taken (i := s.dispatchInputs useEarlyOut i)
    hwakeup.sourced hn hd j
  rcases h.waiting hclear u _ hx j hj (hu ▸ huses) with (hread | ⟨-, hfailed⟩) | ⟨-, v, hv, hfin⟩
  · exact .inr (h.results.recorded.supplies_readPort hp (hread.imp_right fun hall => hall i))
  · rw [hmoves] at hfailed
    cases hfailed
  · left
    obtain ⟨⟨y, hy, hwrites, hreg⟩, hleaves⟩ := hfin
    have hwb : (s.step useEarlyOut i).slotAt v .wb = some y := by
      rw [slotAt_wb_step, hclear, hleaves]
      exact hy
    obtain ⟨b, hb, rfl⟩ := exists_wb hv hwb
    refine ⟨_, List.mem_filterMap.mpr ⟨v, ExecUnit.mem_units_int.mpr hv,
      Option.bind_eq_some_iff.mpr ⟨b, hb, if_pos hwrites⟩⟩, hreg⟩

theorem mulDivExe_step (hi : s.Legal useEarlyOut i)
    (hvalid : (s.step useEarlyOut i).mulDiv.exeValid = true) (j : Fin 2)
    (huses : IssueQueue.mulDiv.uses (s.step useEarlyOut i).mulDivExe.uop j = true) :
    (s.step useEarlyOut i).Supplies (operand (s.step useEarlyOut i).mulDivExe.rRegs j)
      ((s.step useEarlyOut i).mulDiv.regData j) := by
  have hjoined := h.results.recorded.joined
  have hwakeup := hjoined.wakeup
  have hslot : (s.step useEarlyOut i).slotAt .mulDiv .exe =
      some (s.step useEarlyOut i).mulDivExe := by
    rw [slotAt, if_pos hvalid]
  have hdata : (s.step useEarlyOut i).mulDiv.regData =
    if s.mulDiv.exeStuck useEarlyOut then s.mulDiv.regData
    else fun j => s.readPort i (operand s.mulDivRrd.rRegs j) := rfl
  have hexe : (s.step useEarlyOut i).mulDivExe =
    if s.mulDiv.exeStuck useEarlyOut then s.mulDivExe else s.mulDivRrd := rfl
  have hclear := (origin_of_slotAt hslot).1
  rw [slotAt_exe_step, hclear, if_neg Bool.false_ne_true] at hslot
  have hheld : s.exeHeld useEarlyOut .mulDiv = s.mulDiv.exeStuck useEarlyOut := rfl
  rw [hheld, hexe] at hslot
  rw [hexe] at huses ⊢
  rw [hdata]
  split_ifs at hslot huses ⊢ with hstuck hfailed
  · have hexeValid : s.mulDiv.exeValid = true := by
      by_contra hno
      rw [slotAt, if_neg hno] at hslot
      cases hslot
    obtain ⟨n, d, hn, hd, heq⟩ :=
      hjoined.inFlight hclear _ (hjoined.pipes.executing .mulDiv .exe _ hslot)
    have hsupplies := h.mulDivExe hexeValid j huses
    rw [← heq] at hsupplies ⊢
    exact h.results.supplies_step hclear hi (hwakeup.dispatch.operand_not_taken
      hwakeup.sourced hn hd j) hsupplies
  · obtain ⟨n, d, hn, hd, heq⟩ :=
      hjoined.inFlight hclear _ (hjoined.pipes.executing .mulDiv .rrd _ hslot)
    have hcase := h.waiting hclear .mulDiv _ hslot j j.isLt huses
    rw [← heq] at hcase ⊢
    have hp := hwakeup.dispatch.operand_not_taken (i := s.dispatchInputs useEarlyOut i)
      hwakeup.sourced hn hd j
    rcases hcase with (hread | ⟨-, hno⟩) | ⟨hno, -⟩
    · exact h.results.recorded.supplies_readPort hp (hread.imp_right fun hall => hall i)
    · exact absurd hno hfailed
    · cases hno

theorem step (hi : s.Legal useEarlyOut i) (hquiet : s.Undisturbed i) :
    (s.step useEarlyOut i).Fresh useEarlyOut where
  results := h.results.step hi
  awake _ _ := h.awake_step hi hquiet
  flags _ _ _ hk hslot _ := h.flags_step hk hslot
  waiting hflush _ _ hx _ := h.waiting_step hi hflush hx
  mem hflush hvalid _ := h.mem_step hi hflush hvalid
  intExe _ _ hu he _ := h.intExe_step hu he
  mulDivExe := h.mulDivExe_step hi

omit h in
theorem of_init (h : s.Init) : s.Fresh useEarlyOut where
  results := .of_init h
  awake n d _ hd := by simp [h.wakeup.dispatch.renamed] at hd
  flags q k slot _ hslot := by simp [h.wakeup.slots] at hslot
  waiting _ u x hx := by
    have hexecuting := (Joined.of_init h).pipes.executing u .rrd x hx
    simp [h.wakeup.executing] at hexecuting
  mem _ hvalid := by simp [h.memory.pipeline.rrd.1] at hvalid
  intExe u e _ he := by simp [h.exe] at he
  mulDivExe hvalid := absurd (h.mulDiv.exeValid.symm.trans hvalid) Bool.false_ne_true

end Fresh

theorem fresh_of_reachable
    (h : ((machine useEarlyOut).restrict Undisturbed).Reachable s) : s.Fresh useEarlyOut :=
  Clocked.Machine.invariant (fun _ => Fresh.of_init) (fun _ _ h hi => h.step hi.1 hi.2) h

/-! ## The theorem -/

/-- What the record says of an operand. -/
theorem supplied_eq (h : s.Joined) (hclear : s.regFlush = false) {x : IssueSlot}
    (hx : x ∈ s.wakeup.executing) {j : Nat} {v : UWord}
    (hv : (s.step useEarlyOut i).Supplies (operand x.rRegs j) v) :
    s.supplied i x j = some v := by
  obtain ⟨n, d, hn, hd, rfl⟩ := h.inFlight hclear x hx
  have hp := h.wakeup.dispatch.operand_not_taken (i := s.dispatchInputs useEarlyOut i)
    h.wakeup.sourced hn hd j
  have hsource : s.wakeup.producers.sources d.robIdx j = s.owner (operand d.rename.rRegs j) :=
    h.wakeup.matched n d hn hd j
  change (match s.wakeup.producers.sources d.robIdx j with
    | some n => s.nextResults i n
    | none => some 0) = some v
  change (s.step useEarlyOut i).Supplies (operand d.rename.rRegs j) v at hv
  rw [Supplies, owner_step hp] at hv
  rw [hsource]
  cases howner : s.owner (operand d.rename.rRegs j) with
  | none =>
    rw [howner] at hv
    exact congrArg some hv.symm
  | some m =>
    rw [howner] at hv
    exact hv

namespace Fresh

variable (h : s.Fresh useEarlyOut)

include h

theorem executing_not_taken (hclear : s.regFlush = false) {x : IssueSlot}
    (hx : x ∈ s.wakeup.executing) (j : Nat) :
    operand x.rRegs j ∉ taken (s.leaving useEarlyOut i) := by
  have hjoined := h.results.recorded.joined
  obtain ⟨n, d, hn, hd, rfl⟩ := hjoined.inFlight hclear x hx
  exact hjoined.wakeup.dispatch.operand_not_taken hjoined.wakeup.sourced hn hd j

/-- What an integer pipe uses in EXE. -/
theorem supplies_regData (hi : s.Legal useEarlyOut i) (hclear : s.regFlush = false) {u : ExecUnit}
    (hu : u.queue = .int) {e : ExeStage} (he : s.exe u = some e) {j : Nat} (hj : j < 2)
    (huses : IssueQueue.int.uses e.slot.uop j = true) :
    (s.step useEarlyOut i).Supplies (operand e.slot.rRegs j) (s.regData e j) := by
  have hx := h.results.recorded.joined.pipes.executing u .exe _ (slotAt_of_exe hu he)
  have hp := h.executing_not_taken (i := i) hclear hx j
  rw [regData, bypass, at?_writes]
  cases hfind : s.intWrites.find? fun w => w.addr == operand e.slot.rRegs j with
  | some w =>
    -- the write is seen in EXE as it is at the read ports
    have hread : s.readPort i (operand e.slot.rRegs j) = w.data := by
      rw [readPort, at?_writes, writes, List.append_assoc, List.find?_append, hfind]
      rfl
    have hsupplies := h.results.recorded.supplies_readPort (i := i) hp
      (.inr ⟨w, List.mem_append_left _ (List.mem_append_left _ (List.mem_of_find?_eq_some hfind)),
        by simpa using List.find?_some hfind⟩)
    rw [hread] at hsupplies
    exact hsupplies
  | none =>
    rcases h.intExe u e hu he j hj huses with ⟨w, hw, haddr⟩ | hsupplies
    · rw [List.find?_eq_none] at hfind
      exact absurd (beq_iff_eq.mpr haddr) (hfind w hw)
    · exact h.results.supplies_step hclear hi hp hsupplies

end Fresh

/-- As long as store data disturbs no busy bit, no instruction that is not flushed uses a stale
operand, whatever the program and the order of issue. -/
theorem noStaleOperand (h : ((machine useEarlyOut).restrict Undisturbed).Reachable s)
    (hclear : s.regFlush = false) {i : Inputs} (hi : s.Legal useEarlyOut i) :
    s.NoStaleOperand i := by
  have hfresh := fresh_of_reachable h
  have hjoined := hfresh.results.recorded.joined
  refine ⟨fun u hu e he j hj huses => ?_, fun hvalid j huses => ?_, fun hvalid j hj huses => ?_⟩
  · rw [ExecUnit.mem_units_int] at hu
    have hx := hjoined.pipes.executing u .exe _ (slotAt_of_exe hu he)
    exact supplied_eq hjoined hclear hx (hfresh.supplies_regData hi hclear hu he hj huses)
  · have hx := hjoined.pipes.executing .mulDiv .exe s.mulDivExe (by rw [slotAt, if_pos hvalid])
    have hp := hfresh.executing_not_taken (i := i) hclear hx j
    exact supplied_eq hjoined hclear hx
      (hfresh.results.supplies_step hclear hi hp (hfresh.mulDivExe hvalid j huses))
  · have hx := (hjoined.mem.rrd hvalid).1
    have hp := hfresh.executing_not_taken (i := i) hclear hx j
    exact supplied_eq hjoined hclear hx (hfresh.results.recorded.supplies_readPort hp
      ((hfresh.mem hclear hvalid j hj huses).imp_right fun hall => hall i))

/-! ## Two additions -/

instance (useEarlyOut : Bool) (s : OperandCore) (i : Inputs) :
    Decidable ((machine useEarlyOut).legal s i) :=
  decidable_of_iff (i.entries.length ≤ decodeWidth ∧
    (s.wakeup.dispatch.core.redirected.all fun target =>
      (s.wakeup.dispatch.issued (s.dispatchInputs useEarlyOut i)).head?.all fun p =>
        p.uop.pc == target) = true ∧
      ¬ (i.mem.head.isLoad = true ∧ i.mem.head.isStore = true))
    (by
      simp only [Option.all_eq_true, beq_iff_eq]
      exact ⟨fun ⟨h1, h2, h3⟩ => ⟨h1, h2, h3⟩, fun h => ⟨h.width, h.follows, h.stale⟩⟩)

instance : DecidableRel Undisturbed := fun s i =>
  decidable_of_iff ((s.memory.pipeline.mem1.std.all fun std =>
      !std.isStore || (s.mem1ClrBusy i).all fun p => !s.wakeup.busy p) = true)
    (by
      simp only [Option.all_eq_true, Bool.or_eq_true, Bool.not_eq_true', Undisturbed]
      refine ⟨fun h std hstd hstore p hp => (h std hstd).resolve_left (by simp [hstore]) p hp,
        fun h std hstd => ?_⟩
      cases hstore : std.isStore with
      | false => exact .inl rfl
      | true => exact .inr (h std hstd hstore))

def atReset : OperandCore where
  wakeup := { dispatch := { rename := RenameStage.atReset, core := MemCore.atReset.core } }
  memory := MemCore.atReset

theorem init_atReset : atReset.Init where
  wakeup := ⟨⟨⟨rfl, rfl, rfl, rfl, rfl, rfl, rfl, rfl⟩, rfl, rfl, fun _ _ => rfl, rfl, rfl,
    fun _ => rfl⟩, fun _ _ => rfl, fun _ => rfl, fun _ => rfl, rfl, fun _ => rfl⟩
  memory := MemCore.init_atReset
  core := rfl
  exe _ := rfl
  wb _ := rfl
  mulDiv := MulDivTrace.init_atReset
  regs _ := rfl
  results _ := rfl

/-- `ADDI.W` of 7 to register 5, and the sum of register 5 and itself. The second is woken when
the first issues. -/
def double : List Inputs :=
  { nextValid := true,
    entries := [{ pc := 0x1c000000, inst := 0x02801c05 },
      { pc := 0x1c000004, inst := 0x001014a6 }] } :: List.replicate 5 {}

/-- The register does not hold the 7 yet when it is read. -/
theorem noStaleOperand_double :
    let s := (machine true).run atReset double
    (s.exe .int2).map (fun e => (e.regReadRsp 0, s.regData e 0)) = some (0, 7) ∧
      s.NoStaleOperand {} :=
  ⟨by decide +kernel, noStaleOperand
    (Clocked.Machine.reachable_restrict_run init_atReset (by decide +kernel)) (by decide +kernel)
    (by decide +kernel : (machine true).legal _ _)⟩

end OperandCore

end NopCore
