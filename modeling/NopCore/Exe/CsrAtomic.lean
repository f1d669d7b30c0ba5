import NopCore.Exe.CsrAccess
import NopCore.Exe.LostWakeup
import NopCore.Decode.Sequential

/-!
# Control registers are accessed atomically

An instruction reads its control register when its operands are there, which is long before
it retires and out of order. It reads what it will find when it retires. Whatever changes a
control register flushes the pipeline in the same cycle. So when an instruction that has
been in EXE retires, commit has not changed a register since it was there; and that it
retires means that it has been there, as only WB completes it.
-/

namespace NopCore

/-! ## Decoded instructions -/

def MicroOp.IsDecoded (uop : MicroOp) : Prop := ∃ plv entry, uop = Decoder.decode plv entry

/-- Control registers are accessed by an operation of its own, which uses no operand unless it
writes. -/
def DecodeSignals.AccessesCSR (s : DecodeSignals) : Prop :=
  (s.fuType = .csr ↔ s.readCSR = true) ∧
    (s.readCSR = true → s.useRj = false ∧ s.useRk = false ∧ s.tlbOp = .none)

instance : DecidablePred DecodeSignals.AccessesCSR := fun _ => inferInstanceAs (Decidable (_ ∧ _))

theorem Decoder.accessesCSR (inst : UWord) : (Decoder.signals inst).AccessesCSR :=
  Decoder.wellFormed.apply_of_lines (by decide) (by decide +kernel)

/-- What EXE computes for the control register. -/
def CsrSample.newData (uop : MicroOp) (sample : CsrSample) : UWord :=
  if uop.useRj then (sample.rj &&& sample.rd) ||| (~~~sample.rj &&& sample.old) else sample.rd

namespace MicroOp.IsDecoded

variable {uop : MicroOp}

theorem fuType_eq_iff (h : uop.IsDecoded) : uop.fuType = .csr ↔ uop.readCSR = true := by
  obtain ⟨plv, entry, rfl⟩ := h
  exact (Decoder.accessesCSR entry.inst).1

theorem operateTLB (h : uop.IsDecoded) (hread : uop.readCSR = true) :
    uop.operateTLB = false := by
  obtain ⟨plv, entry, rfl⟩ := h
  obtain ⟨-, hrk, htlb⟩ := (Decoder.accessesCSR entry.inst).2 hread
  have hinvtlb : Decoder.isInvtlb entry.inst = false := by
    rw [Decoder.isInvtlb, hrk, Bool.and_false]
  change (Decoder.tlbOp entry != .none) = false
  rw [Decoder.tlbOp, hinvtlb, Bool.and_false, if_neg Bool.false_ne_true, htlb]
  rfl

/-- What is computed is what the instruction is to write. -/
theorem csrData_eq (h : uop.IsDecoded) (hread : uop.readCSR = true) (sample : CsrSample) :
    csrData uop.inst sample.rj sample.rd sample.old =
      if uop.writeCSR then some (sample.newData uop) else none := by
  obtain ⟨plv, entry, rfl⟩ := h
  have hread : (Decoder.signals entry.inst).readCSR = true := hread
  have huse := ((Decoder.accessesCSR entry.inst).2 hread).1
  change csrData entry.inst _ _ _ = if Decoder.writeCSR entry.inst then some
    (if Decoder.useRj entry.inst then _ else _) else none
  rw [csrData, Decoder.useRj, huse, Bool.false_or, Decoder.writeCSR, hread, Bool.true_and]
  split
  · rename_i hrj
    rw [hrj]
    rfl
  · rename_i hrj
    rw [hrj]
    rfl
  · rename_i hzero hone
    rw [bne_iff_ne.mpr hzero, bne_iff_ne.mpr hone, if_pos rfl, Bool.true_and, if_pos rfl,
      BitVec.and_comm sample.rd, BitVec.and_comm sample.old]

end MicroOp.IsDecoded

/-! ## Issue to the pipe -/

namespace IssueQueue

variable {queue : Nat → Option IssueSlot} {waken : Nat → Bool}

/-- A slot that has been taken has been taken by one of the pipes. -/
theorem issGrant_of_mem_grants {k : Nat} (h : k ∈ grants queue waken grantPorts) :
    ∃ u ∈ units .int, issGrant queue waken u = some k := by
  have hsplit : ∀ (us : List ExecUnit) (u : ExecUnit), grants queue waken (us ++ [u]) =
      grants queue waken us ++ (grant queue waken (grants queue waken us) u).toList := by
    intro us u
    rw [grants, List.foldl_append]
    rfl
  have hports : grantPorts = ([] ++ [.int2] ++ [.int1]) ++ [.int0] := rfl
  rw [hports, hsplit, hsplit, hsplit] at h
  simp only [List.mem_append, Option.mem_toList] at h
  rcases h with ((h | h2) | h1) | h0
  · cases h
  · exact ⟨.int2, by decide, h2⟩
  · exact ⟨.int1, by decide, h1⟩
  · exact ⟨.int0, by decide, h0⟩

/-- A pipe takes what it does not turn away. -/
theorem accepts_of_issGrant {u : ExecUnit} {k : Nat} {slot : IssueSlot}
    (h : issGrant queue waken u = some k) (hslot : queue k = some slot) :
    accepts u slot.uop.fuType = true := by
  have hasks := List.find?_some h
  rw [Bool.and_eq_true, issReq, hslot] at hasks
  exact (Bool.and_eq_true_iff.mp hasks.1).1

end IssueQueue

/-! ## Instructions in flight -/

namespace DispatchCore

open Producers

variable {t : DispatchCore}

/-- The entry tells which instruction it is. -/
theorem Inv.eq_of_robIdx (h : t.Inv) {n m : Nat} {d d' : DispatchSlot} (hn : t.popped ≤ n)
    (hm : t.popped ≤ m) (hd : t.renamed[n]? = some d) (hd' : t.renamed[m]? = some d')
    (heq : d.robIdx = d'.robIdx) : n = m ∧ d = d' := by
  rw [h.robIdx n d hd, h.robIdx m d' hd'] at heq
  have hnlt := (List.getElem?_eq_some_iff.mp hd).1
  have hmlt := (List.getElem?_eq_some_iff.mp hd').1
  obtain rfl := h.robIdx_inj (i := {}) hn hm (by omega) (by omega) heq
  exact ⟨rfl, Option.some.inj (hd.symm.trans hd')⟩

/-- The registers of the instructions in flight are different, and none is register 0. -/
theorem Inv.taken_inFlight (h : t.Inv) (hclear : t.rename.regFlush = false) :
    (taken (t.renamed.drop t.popped)).Nodup ∧
      ∀ p ∈ taken (t.renamed.drop t.popped), p ≠ 0 := by
  have hpending : t.rename.abs.pending.map Renaming.Write.new =
      taken (t.renamed.drop t.popped) := by
    rw [RenameStage.abs, RenameStage.live, h.stage.settled hclear, List.nil_append, h.inFlight,
      new_writes]
  have hnodup := h.stage.registers.nodup_iff.mpr (List.nodup_range' 1)
  have hsub : (taken (t.renamed.drop t.popped)).Sublist
      (t.rename.abs.registers RenameStage.archRegs) := by
    rw [← hpending, Renaming.State.registers]
    exact (List.sublist_append_right _ _).trans (List.sublist_append_left _ _)
  refine ⟨hnodup.sublist hsub, fun p hp hzero => ?_⟩
  have hphys := h.stage.registers.subset (hsub.subset hp)
  rw [hzero] at hphys
  simp [RenameStage.physRegs] at hphys

theorem mem_taken {slots : List DispatchSlot} {d : DispatchSlot} (hd : d ∈ slots)
    (hwrites : d.uop.doRegWrite = true) : d.rename.wReg ∈ taken slots :=
  List.mem_map_of_mem (List.mem_filter.mpr ⟨hd, hwrites⟩)

theorem mem_drop_popped {n : Nat} {d : DispatchSlot} (hn : t.popped ≤ n)
    (hd : t.renamed[n]? = some d) : d ∈ t.renamed.drop t.popped := by
  apply List.mem_of_getElem? (i := n - t.popped)
  rw [List.getElem?_drop, Nat.add_sub_cancel' hn, hd]

/-- The register tells which instruction writes it. -/
theorem Inv.eq_of_wReg (h : t.Inv) (hclear : t.rename.regFlush = false) {d d' : DispatchSlot}
    (hd : d ∈ t.renamed.drop t.popped) (hd' : d' ∈ t.renamed.drop t.popped)
    (hwrites : d.uop.doRegWrite = true) (hwrites' : d'.uop.doRegWrite = true)
    (heq : d.rename.wReg = d'.rename.wReg) : d = d' :=
  List.inj_on_of_nodup_map (h.taken_inFlight hclear).1 (List.mem_filter.mpr ⟨hd, hwrites⟩)
    (List.mem_filter.mpr ⟨hd', hwrites'⟩) heq

/-- A report is written to its entry. -/
theorem Inv.robState_reported (h : t.Inv) {i : Inputs} {idx : Nat} (hidx : idx < robDepth)
    {c : Completion}
    (hc : ROBFIFO.completionAt idx (ROBFIFO.inPortOrder i.completions) = some c) :
    (t.step i).core.rob.robState idx = c.state := by
  have hroom := h.room (i := i)
  have hfits : (t.coreInputs i).push.length ≤ robDepth := (Nat.le_add_left _ _).trans hroom
  have hstate : (t.step i).core.rob.robState idx = _ :=
    ROBFIFO.step_robState h.range.push hidx hfits
  have hc : ROBFIFO.completionAt idx
      (ROBFIFO.inPortOrder (t.coreInputs i).completions) = some c := hc
  rw [hstate, hc]
  rfl

/-! ## What is behind the decoder -/

/-- All instructions behind the decoder have a property. -/
structure Carries (P : MicroOp → Prop) (t : DispatchCore) : Prop where
  packet : t.rename.isValid = true → ∀ uop, some uop ∈ t.rename.decPacket → P uop
  renamed : ∀ d ∈ t.renamed, P d.uop

theorem Carries.of_init {P : MicroOp → Prop} (h : t.Init) : t.Carries P where
  packet hvalid := by
    rw [h.rename.isValid] at hvalid
    cases hvalid
  renamed := by simp [h.renamed]

/-- It is enough that what is decoded has it. -/
theorem Carries.step {P : MicroOp → Prop} {i : Inputs} (h : t.Carries P) (hinv : t.Inv)
    (hnext : ∀ uop ∈ i.nextGroup, P uop) : (t.step i).Carries P where
  packet hvalid uop huop := by
    rcases RenameStage.isValid_step hvalid with ⟨hstuck, hstays⟩ | ⟨hmoves, -⟩
    · simp only [DispatchCore.step, RenameStage.step, hstuck, if_true] at huop
      exact h.packet hstays uop huop
    · simp only [DispatchCore.step, RenameStage.step, hmoves, Bool.false_eq_true, if_false]
        at huop
      obtain ⟨_, hmem, heq⟩ := List.mem_map.mp huop
      exact Option.some.inj heq ▸ hnext _ hmem
  renamed d hd := by
    simp only [DispatchCore.step] at hd
    split_ifs at hd
    · cases hd
    · rcases List.mem_append.mp hd with hold | hnew
      · exact h.renamed d hold
      · have huops := hinv.uop_issued (i := i)
        rw [← pushPort_leaving, List.map_map] at huops
        have hmem : d.uop ∈ (t.leaving i).map (PushPort.uop ∘ DispatchSlot.pushPort) :=
          List.mem_map_of_mem hnew
        rw [huops] at hmem
        split_ifs at hmem with hfire
        · exact h.packet (RenameStage.ports_valid hfire).1 d.uop
            (List.reduceOption_mem_iff.mp hmem)
        · cases hmem

end DispatchCore

namespace WakeupCore

open DispatchCore Producers

variable {t : WakeupCore} {i : Inputs} {q : IssueQueue} {l : List IssueSlot}

/-- What a pipe takes leaves the queue. -/
theorem mem_issued_of_issSlot {u : ExecUnit} (hu : u ∈ IssueQueue.units .int)
    {slot : IssueSlot} (h : t.issSlot i u = some slot) (hmoves : i.regWakeupFailed = false) :
    slot ∈ t.issued i .int := by
  rw [issSlot, Option.bind_eq_some_iff] at h
  obtain ⟨k, hgrant, hslot⟩ := h
  have hmem := IssueQueue.mem_grants_of_issGrant hu hgrant
  have hrange := (IssueQueue.valid_of_grants hmem).1
  rw [issued, List.mem_filterMap]
  refine ⟨k, List.mem_range.mpr hrange, ?_⟩
  have hleaves : IssueQueue.leaves .int (IssueQueue.erase (t.slots .int)) (t.issuable i .int)
      (issueFire i .int) k = true := by
    rw [IssueQueue.leaves, IssueQueue.issueMask, List.contains_eq_mem, decide_eq_true hmem,
      Bool.and_true, issueFire, hmoves]
    rfl
  rw [if_pos hleaves, hslot]

/-- A control-register access is issued to the first integer pipe. -/
theorem issSlot_of_issued (hinv : t.Inv) (hl : t.Waits q l) {slot : IssueSlot}
    (h : slot ∈ t.issued i q) (hcsr : slot.uop.fuType = .csr) :
    i.regWakeupFailed = false ∧ t.issSlot i .int0 = some slot := by
  obtain ⟨n, d, -, -, htakes, rfl⟩ :=
    hl.exists_renamed (List.mem_append_left _ (mem_of_issued hinv hl h))
  have hfu : d.uop.fuType = .csr := hcsr
  have hq : q = .int := by
    rw [IssueQueue.takes, hfu] at htakes
    cases q with
    | int => rfl
    | mulDiv | mem => cases htakes
  subst hq
  rw [issued, List.mem_filterMap] at h
  obtain ⟨k, -, hk⟩ := h
  split_ifs at hk with hleaves
  rw [IssueQueue.leaves, IssueQueue.issueMask, Bool.and_eq_true, List.contains_eq_mem,
    decide_eq_true_eq] at hleaves
  obtain ⟨hfire, hmem⟩ := hleaves
  obtain ⟨u, hu, hgrant⟩ := IssueQueue.issGrant_of_mem_grants hmem
  have haccepts := IssueQueue.accepts_of_issGrant hgrant hk
  have hu0 : u = .int0 := by
    rw [hcsr] at haccepts
    cases u with
    | int0 => rfl
    | int1 | int2 => cases haccepts
    | mulDiv | mem => simp [IssueQueue.units] at hu
  subst hu0
  refine ⟨by simpa [issueFire] using hfire, ?_⟩
  rw [issSlot, hgrant]
  exact hk

/-- The instruction of an issue slot is in the reorder buffer. -/
def InFlight (t : WakeupCore) (slot : IssueSlot) : Prop :=
  ∃ n d, t.dispatch.popped ≤ n ∧ t.dispatch.renamed[n]? = some d ∧ d.issueSlot = slot

theorem InFlight.eq (hinv : t.dispatch.Inv) {slot : IssueSlot} (h : t.InFlight slot) {n : Nat}
    {d : DispatchSlot} (hn : t.dispatch.popped ≤ n) (hd : t.dispatch.renamed[n]? = some d)
    (heq : d.robIdx = slot.robIdx) : d.issueSlot = slot := by
  obtain ⟨m, d', hm, hd', rfl⟩ := h
  rw [(hinv.eq_of_robIdx hn hm hd hd' heq).2]

/-- An instruction that is not complete stays in the reorder buffer. -/
theorem Inv.popped_le (hinv : t.Inv) {n : Nat} {d : DispatchSlot} (hn : t.dispatch.popped ≤ n)
    (hd : t.dispatch.renamed[n]? = some d)
    (hincomplete : (t.dispatch.core.rob.robState d.robIdx).complete = false)
    (hflush : t.dispatch.needFlush (t.dispatchInputs i) = false) :
    (t.step i).dispatch.popped ≤ n := by
  rw [popped_step hflush]
  by_contra hpop
  rw [hinv.dispatch.robIdx n d hd, complete_of_popped hinv.dispatch hinv.popState hn
    (Nat.lt_of_not_le hpop)] at hincomplete
  cases hincomplete

theorem InFlight.step (hinv : t.Inv) {slot : IssueSlot} (h : t.InFlight slot)
    (hincomplete : (t.dispatch.core.rob.robState slot.robIdx).complete = false)
    (hflush : t.dispatch.needFlush (t.dispatchInputs i) = false) : (t.step i).InFlight slot := by
  obtain ⟨n, d, hn, hd, rfl⟩ := h
  refine ⟨n, d, hinv.popped_le hn hd hincomplete hflush, ?_, rfl⟩
  rw [renamed_step hflush, List.getElem?_append_left (lt_renamed hd), hd]

/-- Behind a flush there is nothing. -/
theorem Inv.renamed_of_regFlush (hinv : t.Inv) (hclear : t.regFlush = true)
    (hflush : t.dispatch.needFlush (t.dispatchInputs i) = false) :
    (t.step i).dispatch.renamed = [] := by
  rw [renamed_step hflush, (hinv.dispatch.idle hclear).2, List.nil_append]
  exact leaving_of_invalid (hinv.dispatch.stage.idle hclear).1

/-- What is executing is in flight. -/
theorem Inv.inFlight_step (hinv : t.Inv) (hclear : t.regFlush = false)
    (hexec : ∀ e ∈ t.executing, t.InFlight e)
    (hflush : t.dispatch.needFlush (t.dispatchInputs i) = false) :
    ∀ e ∈ (t.step i).executing, (t.step i).InFlight e := by
  intro e he
  rcases mem_executing_step hclear he with ⟨hold, -⟩ | ⟨q, hissued⟩
  · exact (hexec e hold).step hinv (hinv.executing hclear e hold).incomplete hflush
  · obtain ⟨l, hl⟩ := hinv.waits hclear q
    have hmem := List.mem_append_left (part q t.dispatch.pending) (mem_of_issued hinv hl hissued)
    obtain ⟨n, d, hn, hd, -, heq⟩ := hl.exists_renamed hmem
    exact InFlight.step hinv ⟨n, d, hn, hd, heq⟩ (hl.incomplete e hmem) hflush

end WakeupCore

namespace CsrCore

open DispatchCore WakeupCore

variable {innerCounterDownEvery : Nat} {s : CsrCore} {i : Inputs}

/-! ## Commit -/

/-- Whatever changes the control registers flushes the pipeline. -/
theorem changesCSRs_of_not_needFlush (h : s.needFlush i = false) : s.changesCSRs i = false := by
  obtain ⟨hplain, -⟩ := Commit.plain_of_not_needFlush h
  have hplain : (s.signals i).Plain := hplain
  have hlink : (s.retires i 0 && ((s.ports 0).uop.isLL || (s.ports 0).uop.isSC)) = false := by
    cases hr : s.retires i 0 with
    | false => rfl
    | true =>
      have hstay := Commit.flushState_of_retires h hr
      simp only [MicroOp.flushState, Bool.or_eq_false_iff] at hstay
      rw [hstay.2, hstay.1.2]
      rfl
  rw [changesCSRs, hplain.except, hplain.ertn, hplain.csrWrite, hplain.tlbOp, hlink]
  rfl

theorem readData_step (h : s.needFlush i = false) (addr : BitVec 14) :
    (s.step innerCounterDownEvery i).unit.readData addr &&& PrivilegedUnit.steadyBits addr =
      s.unit.readData addr &&& PrivilegedUnit.steadyBits addr := by
  obtain ⟨hplain, hlink⟩ := Commit.plain_of_not_needFlush h
  exact PrivilegedUnit.readData_step hplain hlink addr

/-! ## The stages of the pipe -/

/-- The instructions in the pipe are among those that are executing, and of these all that
access a control register are there. -/
structure Pipe (s : CsrCore) : Prop where
  executing : ∀ slot ∈ s.stages, slot ∈ s.wakeup.executing
  apart : (s.stages.map IssueSlot.robIdx).Nodup
  csr : ∀ e ∈ s.wakeup.executing, e.uop.fuType = .csr → e ∈ s.stages

theorem Pipe.executing_exe (h : s.Pipe) {e : ExeStage} (he : s.exe = some e) :
    e.slot ∈ s.wakeup.executing := by
  apply h.executing
  simp [stages, he]

theorem Pipe.executing_wb (h : s.Pipe) {w : WbStage} (hw : s.wb = some w) :
    w.slot ∈ s.wakeup.executing := by
  apply h.executing
  simp [stages, hw]

/-- The stages in front of WB. -/
def front (s : CsrCore) : List IssueSlot :=
  (s.wakeup.regRead .int0).toList ++ (s.exe.map ExeStage.slot).toList

theorem stages_eq (s : CsrCore) : s.stages = s.front ++ (s.wb.map WbStage.slot).toList :=
  (List.append_assoc _ _ _).symm

variable (innerCounterDownEvery i) in
/-- The stages move up, unless RRD is held. -/
theorem stages_step (hclear : s.regFlush = false) :
    (s.step innerCounterDownEvery i).stages =
      if i.regWakeupFailed then s.front
      else (s.wakeup.issSlot (s.wakeupInputs i) .int0).toList ++ s.front := by
  have hread : (s.step innerCounterDownEvery i).wakeup.regRead .int0 =
      if i.regWakeupFailed then s.wakeup.regRead .int0
      else s.wakeup.issSlot (s.wakeupInputs i) .int0 := if_neg (by
    change ¬ s.regFlush = true
    rw [hclear]
    exact Bool.false_ne_true)
  have hexe : (s.step innerCounterDownEvery i).exe.map ExeStage.slot =
      if i.regWakeupFailed then none else s.wakeup.regRead .int0 := by
    change (s.nextExe i).map ExeStage.slot = _
    rw [nextExe, hclear, Bool.false_or]
    split_ifs
    · rfl
    · rw [Option.map_map]
      exact Option.map_id_apply
  have hwb : (s.step innerCounterDownEvery i).wb.map WbStage.slot =
      s.exe.map ExeStage.slot := by
    change (s.nextWb i).map WbStage.slot = _
    rw [nextWb, hclear, if_neg Bool.false_ne_true, Option.map_map]
    rfl
  rw [stages, hread, hexe, hwb]
  split_ifs
  · rfl
  · rfl

/-- What is in front of WB is not reported. -/
theorem Pipe.not_reported (h : s.Pipe) (hi : s.Legal i) {slot : IssueSlot}
    (hslot : slot ∈ s.front) : ∀ c ∈ (s.wakeupInputs i).completions, c.robIdx ≠ slot.robIdx := by
  intro c hc
  rcases List.mem_append.mp hc with hreport | hother
  · have hapart := h.apart
    rw [stages_eq, List.map_append, List.nodup_append] at hapart
    obtain ⟨w, hw, rfl⟩ := Option.map_eq_some_iff.mp (Option.mem_toList.mp hreport)
    have hwb : w.slot ∈ (s.wb.map WbStage.slot).toList := by simp [hw]
    exact (hapart.2.2 _ (List.mem_map_of_mem hslot) _ (List.mem_map_of_mem hwb)).symm
  · apply Ne.symm
    apply (hi.issued c hother).2
    rw [stages_eq]
    exact List.mem_append_left _ hslot

/-- The core of the queues is used as it expects. -/
theorem Pipe.legal (h : s.Pipe) (hi : s.Legal i) : s.wakeup.Legal (s.wakeupInputs i) where
  decoded _ := by
    have hentries : (i.entries.map (Decoder.decode s.unit.handler.crmdPLV)).map some =
        (i.entries.map some).map (Option.map (Decoder.decode s.unit.handler.crmdPLV)) := by
      rw [List.map_map, List.map_map]
      rfl
    change RenameStage.Decoded ((i.entries.map _).map some)
    rw [hentries]
    exact Decoder.decoded _ (by simpa using hi.width)
  issued := by
    intro c hc
    rcases List.mem_append.mp hc with hreport | hother
    · obtain ⟨w, hw, rfl⟩ := Option.map_eq_some_iff.mp (Option.mem_toList.mp hreport)
      exact ⟨w.slot, h.executing_wb hw, rfl⟩
    · exact (hi.issued c hother).1

/-- What is in front of WB goes on executing. -/
theorem Pipe.front_step (h : s.Pipe) (hi : s.Legal i) (hclear : s.regFlush = false)
    {slot : IssueSlot} (hslot : slot ∈ s.front) :
    slot ∈ (s.step innerCounterDownEvery i).wakeup.executing := by
  have hold : slot ∈ s.wakeup.executing := by
    apply h.executing
    rw [stages_eq]
    exact List.mem_append_left _ hslot
  have hclear : s.wakeup.regFlush = false := hclear
  change slot ∈ (s.wakeup.step (s.wakeupInputs i)).executing
  simp only [WakeupCore.step, hclear, Bool.false_eq_true, if_false]
  apply List.mem_append_left
  rw [List.mem_filter, Bool.not_eq_true', List.any_eq_false]
  refine ⟨hold, fun c hc => ?_⟩
  rw [beq_iff_eq]
  exact h.not_reported hi hslot c hc

variable (innerCounterDownEvery i) in
/-- A flush of the registers leaves nothing in the pipes. -/
theorem empty_of_regFlush (hflush : s.regFlush = true) :
    (s.step innerCounterDownEvery i).wakeup.executing = [] ∧
      (s.step innerCounterDownEvery i).stages = [] := by
  have hwake : s.wakeup.regFlush = true := hflush
  constructor
  · exact if_pos hwake
  · have hread : (s.step innerCounterDownEvery i).wakeup.regRead .int0 = none := if_pos hwake
    have hexe : (s.step innerCounterDownEvery i).exe = none := by
      change s.nextExe i = none
      rw [nextExe, hflush]
      rfl
    have hwb : (s.step innerCounterDownEvery i).wb = none := if_pos hflush
    rw [stages, hread, hexe, hwb]
    rfl

theorem Pipe.step (h : s.Pipe) (hwake : s.wakeup.Inv) (hi : s.Legal i) :
    (s.step innerCounterDownEvery i).Pipe := by
  cases hclear : s.regFlush with
  | true =>
    obtain ⟨hexec, hstages⟩ :=
      empty_of_regFlush innerCounterDownEvery i hclear
    exact ⟨by simp [hstages], by simp [hstages], by simp [hexec]⟩
  | false =>
    have hstages := stages_step innerCounterDownEvery i hclear
    have hissued : ∀ slot, s.wakeup.issSlot (s.wakeupInputs i) .int0 = some slot →
        i.regWakeupFailed = false → slot ∈ s.wakeup.issued (s.wakeupInputs i) .int :=
      fun slot hslot hmoves => mem_issued_of_issSlot (by decide) hslot hmoves
    have hfront : (s.front.map IssueSlot.robIdx).Nodup := by
      have hapart := h.apart
      rw [stages_eq, List.map_append, List.nodup_append] at hapart
      exact hapart.1
    refine ⟨?_, ?_, ?_⟩
    · intro slot hslot
      rw [hstages] at hslot
      split_ifs at hslot with hfailed
      · exact h.front_step hi hclear hslot
      · rcases List.mem_append.mp hslot with hnew | hold
        · have hmem :=
            hissued slot (Option.mem_toList.mp hnew) (Bool.eq_false_of_not_eq_true hfailed)
          have hwclear : s.wakeup.regFlush = false := hclear
          change slot ∈ (s.wakeup.step (s.wakeupInputs i)).executing
          simp only [WakeupCore.step, hwclear, Bool.false_eq_true, if_false]
          exact List.mem_append_right _ (List.mem_append_left _ (List.mem_append_left _ hmem))
        · exact h.front_step hi hclear hold
    · rw [hstages]
      split_ifs with hfailed
      · exact hfront
      · rw [List.map_append, List.nodup_append]
        refine ⟨?_, hfront, ?_⟩
        · cases s.wakeup.issSlot (s.wakeupInputs i) .int0 <;> simp
        · intro a ha b hb
          obtain ⟨slot, hslot, rfl⟩ := List.mem_map.mp ha
          obtain ⟨e, he, rfl⟩ := List.mem_map.mp hb
          -- what is still in the queue has not been issued before
          obtain ⟨l, hl⟩ := hwake.waits hclear .int
          have hmem := mem_of_issued hwake hl (hissued slot (Option.mem_toList.mp hslot)
            (Bool.eq_false_of_not_eq_true hfailed))
          apply Ne.symm
          apply hl.apart slot (List.mem_append_left _ hmem)
          apply h.executing
          rw [stages_eq]
          exact List.mem_append_left _ he
    · intro e he hcsr
      rw [hstages]
      rcases mem_executing_step hclear he with ⟨hold, hno⟩ | ⟨q, hnew⟩
      · have hfront : e ∈ s.front := by
          have hmem := h.csr e hold hcsr
          rw [stages_eq, List.mem_append] at hmem
          rcases hmem with hfront | hwb
          · exact hfront
          · -- what is in WB is reported
            exfalso
            obtain ⟨w, hw, rfl⟩ := Option.map_eq_some_iff.mp (Option.mem_toList.mp hwb)
            have hreport : w.completion ∈ (s.wakeupInputs i).completions :=
              List.mem_append_left _ (by simp [report, hw])
            exact hno _ hreport rfl
        split_ifs
        · exact hfront
        · exact List.mem_append_right _ hfront
      · obtain ⟨l, hl⟩ := hwake.waits hclear q
        obtain ⟨hmoves, hslot⟩ := issSlot_of_issued hwake hl hnew hcsr
        have hmoves : i.regWakeupFailed = false := hmoves
        rw [hmoves, if_neg Bool.false_ne_true, hslot]
        exact List.mem_append_left _ (List.mem_singleton_self e)

/-- What comes behind the decoder is decoded. -/
theorem decodes_next (s : CsrCore) (i : Inputs) :
    ∀ uop ∈ (s.wakeup.dispatchInputs (s.wakeupInputs i)).nextGroup, uop.IsDecoded := by
  intro uop huop
  obtain ⟨entry, -, rfl⟩ := List.mem_map.mp huop
  exact ⟨_, entry, rfl⟩

/-! ## What has been read -/

/-- The instruction has read what the register has now, and commit has changed nothing since
then. -/
structure Fresh (s : CsrCore) (uop : MicroOp) (sample : CsrSample) : Prop where
  current : sample.old &&& PrivilegedUnit.steadyBits uop.csrAddr =
    s.unit.readData uop.csrAddr &&& PrivilegedUnit.steadyBits uop.csrAddr
  undisturbed : sample.disturbed = false

/-- WB holds what follows from the sample. -/
structure InWb (s : CsrCore) (w : WbStage) (sample : CsrSample) : Prop where
  sampled : s.samples w.slot.robIdx = some sample
  fresh : s.Fresh w.slot.uop sample
  result : w.exeResult = sample.old
  target : w.slot.uop.writeCSR = true → w.actualTarget = sample.newData w.slot.uop

/-- So do the register and the entry of an instruction that has been in WB. -/
structure Done (s : CsrCore) (d : DispatchSlot) (sample : CsrSample) : Prop where
  sampled : s.samples d.robIdx = some sample
  fresh : s.Fresh d.uop sample
  result : d.uop.doRegWrite = true → s.reg d.rename.wReg = sample.old
  target : d.uop.writeCSR = true →
    (s.wakeup.dispatch.core.rob.robState d.robIdx).intResult = sample.newData d.uop

structure Inv (s : CsrCore) : Prop where
  wakeup : s.wakeup.Inv
  pipe : s.Pipe
  inFlight : s.regFlush = false → ∀ e ∈ s.wakeup.executing, s.wakeup.InFlight e
  decoded : s.wakeup.dispatch.Carries MicroOp.IsDecoded
  inWb : s.regFlush = false → ∀ w, s.wb = some w → w.slot.uop.readCSR = true →
    ∃ sample, s.InWb w sample
  done : ∀ n d, s.wakeup.dispatch.popped ≤ n → s.wakeup.dispatch.renamed[n]? = some d →
    d.uop.readCSR = true → (s.wakeup.dispatch.core.rob.robState d.robIdx).complete = true →
    (s.wakeup.dispatch.core.rob.robState d.robIdx).except.valid = false →
    ∃ sample, s.Done d sample

/-- A cycle without a flush keeps a sample fresh. -/
theorem Fresh.step {uop : MicroOp} {sample : CsrSample} (h : s.Fresh uop sample)
    (hflush : s.needFlush i = false) : (s.step innerCounterDownEvery i).Fresh uop sample :=
  ⟨h.current.trans (readData_step hflush _).symm, h.undisturbed⟩

/-- It is kept for an entry that is not in EXE. -/
theorem samples_step {idx : Nat} {sample : CsrSample} (hsample : s.samples idx = some sample)
    (hfresh : sample.disturbed = false) (hexe : ∀ e, s.exe = some e → e.slot.robIdx ≠ idx)
    (hflush : s.needFlush i = false) :
    (s.step innerCounterDownEvery i).samples idx = some sample := by
  have hnone : s.taken i idx = none := by
    rw [taken, Option.map_eq_none_iff, Option.filter_eq_none_iff]
    intro e he
    simpa using hexe e he
  change s.nextSamples i idx = some sample
  rw [nextSamples, hnone, hsample, changesCSRs_of_not_needFlush hflush, Option.none_or,
    Option.map_some, hfresh]
  cases sample
  cases hfresh
  rfl

/-- What leaves EXE has been sampled. -/
theorem inWb_step (hinv : s.Inv) (hclear : s.regFlush = false)
    (hflush : s.needFlush i = false) {w : WbStage}
    (hw : (s.step innerCounterDownEvery i).wb = some w) (hread : w.slot.uop.readCSR = true) :
    ∃ sample, (s.step innerCounterDownEvery i).InWb w sample := by
  have hw : s.nextWb i = some w := hw
  rw [nextWb, hclear, if_neg Bool.false_ne_true, Option.map_eq_some_iff] at hw
  obtain ⟨e, he, rfl⟩ := hw
  have hread : e.slot.uop.readCSR = true := hread
  set sample : CsrSample :=
    { rj := s.regData i e 0, rd := s.regData i e 1, old := s.readData e } with hsample
  have hdecoded : e.slot.uop.IsDecoded := by
    obtain ⟨n, d, -, hd, heq⟩ := hinv.inFlight hclear _ (hinv.pipe.executing_exe he)
    rw [← heq]
    exact hinv.decoded.renamed d (List.mem_of_getElem? hd)
  refine ⟨sample, ?_, ⟨(readData_step hflush _).symm, rfl⟩, if_pos hread, fun hwrite => ?_⟩
  · have htaken : s.taken i e.slot.robIdx = some sample := by
      rw [taken, he, Option.filter_some, if_pos (beq_self_eq_true _), Option.map_some,
        changesCSRs_of_not_needFlush hflush]
    change s.nextSamples i e.slot.robIdx = some sample
    rw [nextSamples, htaken]
    rfl
  · have hwrite : e.slot.uop.writeCSR = true := hwrite
    change (s.execute i e).actualTarget = sample.newData e.slot.uop
    rw [execute]
    dsimp only
    rw [hdecoded.operateTLB hread, if_neg Bool.false_ne_true, if_pos hwrite]
    rfl

/-! ## The register file -/

/-- A register is written or keeps its value. -/
theorem reg_step {p : Nat} (hp : p ≠ 0) : (s.step innerCounterDownEvery i).reg p =
    (RegWrite.at? (s.writes i) p).getD (s.reg p) := by
  obtain ⟨k, rfl⟩ := Nat.exists_eq_succ_of_ne_zero hp
  rfl

/-- The other pipes do not write the register of a control-register access. -/
theorem Legal.addr_ne (hi : s.Legal i) (hwake : s.wakeup.Inv) (hclear : s.regFlush = false)
    {d : DispatchSlot} (hd : d ∈ s.wakeup.dispatch.renamed.drop s.wakeup.dispatch.popped)
    (hcsr : d.uop.fuType = .csr) (hwrites : d.uop.doRegWrite = true) :
    ∀ w ∈ i.intWrites ++ i.regWrites, w.addr ≠ d.rename.wReg := by
  intro w hw heq
  obtain ⟨d', hd', hwrites', haddr, u, hu, hexecutes⟩ := hi.writes hclear w hw
  have hsame := hwake.dispatch.eq_of_wReg hclear hd' hd hwrites' hwrites (haddr.trans heq)
  rw [hsame, hcsr] at hexecutes
  cases u with
  | int0 => exact hu rfl
  | int1 | int2 | mulDiv | mem => cases hexecutes

/-- A register that the pipe in WB does not write either keeps its value. -/
theorem reg_kept {p : Nat} (hp : p ≠ 0) (hothers : ∀ w ∈ i.intWrites ++ i.regWrites, w.addr ≠ p)
    (hown : ∀ w, s.wPort = some w → w.addr ≠ p) :
    (s.step innerCounterDownEvery i).reg p = s.reg p := by
  have hnone : (s.writes i).find? (fun w => w.addr == p) = none := by
    rw [List.find?_eq_none]
    intro w hw
    rw [beq_iff_eq]
    rw [writes, bypass, List.append_assoc] at hw
    rcases List.mem_append.mp hw with hport | hother
    · exact hown w (Option.mem_toList.mp hport)
    · exact hothers w hother
  rw [reg_step hp, RegWrite.at?, hnone]
  rfl

variable (innerCounterDownEvery i) in
/-- The pipe in WB writes its register. -/
theorem reg_written {w : WbStage} (hw : s.wb = some w) (hwrites : w.slot.uop.doRegWrite = true)
    (hp : w.slot.wReg ≠ 0) :
    (s.step innerCounterDownEvery i).reg w.slot.wReg = w.exeResult := by
  have hport : s.wPort = some { addr := w.slot.wReg, data := w.exeResult } := by
    rw [wPort, hw, Option.bind_some, if_pos hwrites]
  rw [reg_step hp, RegWrite.at?, writes, bypass, hport]
  simp

/-! ## One cycle of what is complete -/

/-- An instruction whose report is written in this cycle was in WB. -/
theorem Inv.reported (hinv : s.Inv) (hi : s.Legal i) (hclear : s.regFlush = false) {n : Nat}
    {d : DispatchSlot} (hn : s.wakeup.dispatch.popped ≤ n)
    (hd : s.wakeup.dispatch.renamed[n]? = some d) (hcsr : d.uop.fuType = .csr) {c : Completion}
    (hc : c ∈ (s.wakeupInputs i).completions) (hidx : c.robIdx = d.robIdx) :
    ∃ w, s.wb = some w ∧ c = w.completion ∧ w.slot = d.issueSlot := by
  rcases List.mem_append.mp hc with hreport | hother
  · obtain ⟨w, hw, rfl⟩ := Option.map_eq_some_iff.mp (Option.mem_toList.mp hreport)
    have hflying := hinv.inFlight hclear _ (hinv.pipe.executing_wb hw)
    exact ⟨w, hw, rfl, (hflying.eq hinv.wakeup.dispatch hn hd hidx.symm).symm⟩
  · -- another pipe would have been issued an access
    exfalso
    obtain ⟨⟨slot, hslot, hrob⟩, hno⟩ := hi.issued c hother
    have hsame := (hinv.inFlight hclear _ hslot).eq hinv.wakeup.dispatch hn hd
      (hidx.symm.trans hrob.symm)
    exact hno slot (hinv.pipe.csr slot hslot (hsame ▸ hcsr)) hrob

/-- What is in EXE is not complete. -/
theorem Inv.incomplete_exe (hinv : s.Inv) (hclear : s.regFlush = false) {e : ExeStage}
    (he : s.exe = some e) :
    (s.wakeup.dispatch.core.rob.robState e.slot.robIdx).complete = false :=
  (hinv.wakeup.executing hclear _ (hinv.pipe.executing_exe he)).incomplete

section Cycle

variable (hinv : s.Inv) (hi : s.Legal i) (hclear : s.regFlush = false)
  (hflush : s.needFlush i = false) {n : Nat} {d : DispatchSlot}
  (hn : s.wakeup.dispatch.popped ≤ n) (hd : s.wakeup.dispatch.renamed[n]? = some d)
  (hread : d.uop.readCSR = true)

include hinv hi hclear hflush hn hd hread

/-- An instruction is done when WB has reported it. -/
theorem Inv.done_of_reported {c : Completion} (hc : c ∈ (s.wakeupInputs i).completions)
    (hidx : c.robIdx = d.robIdx) :
    ∃ sample, (s.step innerCounterDownEvery i).Done d sample := by
  have hmem := mem_drop_popped hn hd
  have hdecoded := hinv.decoded.renamed d (List.mem_of_getElem? hd)
  have hcsr := hdecoded.fuType_eq_iff.mpr hread
  obtain ⟨c', hat⟩ := ROBFIFO.exists_completionAt hc hidx
  obtain ⟨hc', hidx'⟩ := ROBFIFO.mem_of_completionAt hat
  obtain ⟨w, hw, rfl, hslot⟩ := hinv.reported hi hclear hn hd hcsr hc' hidx'
  have hread' : w.slot.uop.readCSR = true := by
    rw [hslot]
    exact hread
  obtain ⟨sample, hwb⟩ := hinv.inWb hclear w hw hread'
  have hsampled := hwb.sampled
  have hfresh := hwb.fresh
  have htarget := hwb.target
  rw [hslot] at hsampled hfresh htarget
  refine ⟨sample, samples_step hsampled hfresh.undisturbed (fun e he => ?_) hflush,
    hfresh.step hflush, fun hwrites => ?_, fun hwrite => ?_⟩
  · have hfront : e.slot ∈ s.front := by simp [front, he]
    rw [← hidx']
    exact (hinv.pipe.not_reported hi hfront _ hc').symm
  · have hzero := (hinv.wakeup.dispatch.taken_inFlight hclear).2 _ (mem_taken hmem hwrites)
    have hreg := reg_written innerCounterDownEvery i hw
      (by rw [hslot]; exact hwrites) (by rw [hslot]; exact hzero)
    rw [hslot] at hreg
    exact hreg.trans hwb.result
  · have hrange : d.robIdx < robDepth := by
      rw [hinv.wakeup.dispatch.robIdx n d hd]
      exact Ring.slot_lt (by decide) _ _
    have hstate : (s.step innerCounterDownEvery i).wakeup.dispatch.core.rob.robState d.robIdx =
        w.completion.state := hinv.wakeup.dispatch.robState_reported hrange hat
    rw [hstate]
    exact htarget hwrite

/-- It stays done. -/
theorem Inv.done_kept (hno : ∀ c ∈ (s.wakeupInputs i).completions, c.robIdx ≠ d.robIdx)
    {sample : CsrSample} (hdone : s.Done d sample)
    (hcomplete : (s.wakeup.dispatch.core.rob.robState d.robIdx).complete = true)
    (hstate : (s.step innerCounterDownEvery i).wakeup.dispatch.core.rob.robState d.robIdx =
      s.wakeup.dispatch.core.rob.robState d.robIdx) :
    (s.step innerCounterDownEvery i).Done d sample := by
  have hmem := mem_drop_popped hn hd
  have hdecoded := hinv.decoded.renamed d (List.mem_of_getElem? hd)
  have hcsr := hdecoded.fuType_eq_iff.mpr hread
  refine ⟨samples_step hdone.sampled hdone.fresh.undisturbed (fun e he heq => ?_) hflush,
    hdone.fresh.step hflush, fun hwrites => ?_, fun hwrite => ?_⟩
  · have hexe := hinv.incomplete_exe hclear he
    rw [heq, hcomplete] at hexe
    cases hexe
  · have hzero := (hinv.wakeup.dispatch.taken_inFlight hclear).2 _ (mem_taken hmem hwrites)
    have hown : ∀ w, s.wPort = some w → w.addr ≠ d.rename.wReg := by
      intro x hx heq
      obtain ⟨w, hw, hport⟩ := Option.bind_eq_some_iff.mp hx
      split_ifs at hport with hwrites'
      obtain rfl := Option.some.inj hport
      obtain ⟨m, d', hm, hd', hslot⟩ := hinv.inFlight hclear _ (hinv.pipe.executing_wb hw)
      have hmem' := mem_drop_popped hm hd'
      rw [← hslot] at heq hwrites'
      have hsame := hinv.wakeup.dispatch.eq_of_wReg hclear hmem' hmem hwrites' hwrites heq
      apply hno w.completion (List.mem_append_left _ (by simp [report, hw]))
      rw [← hsame]
      exact congrArg IssueSlot.robIdx hslot.symm
    rw [reg_kept hzero (hi.addr_ne hinv.wakeup hclear hmem hcsr hwrites) hown]
    exact hdone.result hwrites
  · rw [hstate]
    exact hdone.target hwrite

end Cycle

/-- An instruction that comes to the reorder buffer is not complete, unless it is an
exception. -/
theorem Inv.incomplete_leaving (hinv : s.Inv) (hi : s.Legal i) (hclear : s.regFlush = false)
    {k : Nat} {d : DispatchSlot}
    (hd : (s.wakeup.dispatch.leaving (s.wakeup.dispatchInputs (s.wakeupInputs i)))[k]? = some d)
    (hidx : d.robIdx = Ring.slot robDepth 0 (s.wakeup.dispatch.renamed.length + k))
    (hcsr : d.uop.fuType = .csr)
    (hcomplete : ((s.step innerCounterDownEvery i).wakeup.dispatch.core.rob.robState
      d.robIdx).complete = true) :
    ((s.step innerCounterDownEvery i).wakeup.dispatch.core.rob.robState
      d.robIdx).except.valid = true := by
  have hlegal := hinv.pipe.legal hi
  have hlength := hinv.wakeup.dispatch.length
  have hk : k < (s.wakeup.dispatch.issued
      (s.wakeup.dispatchInputs (s.wakeupInputs i))).length := by
    rw [← length_leaving]
    exact (List.getElem?_eq_some_iff.mp hd).1
  have hno : ∀ c ∈ (s.wakeupInputs i).completions,
      c.robIdx ≠ Ring.slot robDepth 0 (s.wakeup.dispatch.renamed.length + k) :=
    fun c hc => (hinv.wakeup.reported hclear hlegal hc).ne_leaving hinv.wakeup hd
  have hstate : (s.step innerCounterDownEvery i).wakeup.dispatch.core.rob.robState
      (Ring.slot robDepth 0 (s.wakeup.dispatch.renamed.length + k)) = _ :=
    hinv.wakeup.dispatch.robState_step (i := s.wakeup.dispatchInputs (s.wakeupInputs i))
      (by omega) (by omega) hno
  rw [leaving_getElem?, Option.map_eq_some_iff] at hd
  obtain ⟨p, hp, rfl⟩ := hd
  rw [if_pos (Nat.le_add_right _ _), Nat.add_sub_cancel_left, hp] at hstate
  rw [hidx, hstate] at hcomplete ⊢
  have hcomplete : (p.uop.except.valid || p.uop.fuType == .none) = true := hcomplete
  have hcsr : p.uop.fuType = .csr := hcsr
  rw [hcsr] at hcomplete
  exact (Bool.or_eq_true_iff.mp hcomplete).resolve_right (by decide)

theorem Inv.done_step (hinv : s.Inv) (hi : s.Legal i) (hclear : s.regFlush = false)
    (hflush : s.needFlush i = false) {n : Nat} {d : DispatchSlot}
    (hn : (s.step innerCounterDownEvery i).wakeup.dispatch.popped ≤ n)
    (hd : (s.step innerCounterDownEvery i).wakeup.dispatch.renamed[n]? = some d)
    (hread : d.uop.readCSR = true)
    (hcomplete : ((s.step innerCounterDownEvery i).wakeup.dispatch.core.rob.robState
      d.robIdx).complete = true)
    (hexcept : ((s.step innerCounterDownEvery i).wakeup.dispatch.core.rob.robState
      d.robIdx).except.valid = false) :
    ∃ sample, (s.step innerCounterDownEvery i).Done d sample := by
  have hpopped : (s.step innerCounterDownEvery i).wakeup.dispatch.popped = _ := popped_step hflush
  have hrenamed : (s.step innerCounterDownEvery i).wakeup.dispatch.renamed = _ :=
    renamed_step hflush
  rw [hpopped] at hn
  rw [hrenamed] at hd
  have hn : s.wakeup.dispatch.popped ≤ n := (Nat.le_add_right _ _).trans hn
  by_cases hold : n < s.wakeup.dispatch.renamed.length
  · rw [List.getElem?_append_left hold] at hd
    by_cases hreported : ∃ c ∈ (s.wakeupInputs i).completions, c.robIdx = d.robIdx
    · obtain ⟨c, hc, hidx⟩ := hreported
      exact hinv.done_of_reported hi hclear hflush hn hd hread hc hidx
    · have hno : ∀ c ∈ (s.wakeupInputs i).completions, c.robIdx ≠ d.robIdx :=
        fun c hc hidx => hreported ⟨c, hc, hidx⟩
      have hstate : (s.step innerCounterDownEvery i).wakeup.dispatch.core.rob.robState d.robIdx =
          s.wakeup.dispatch.core.rob.robState d.robIdx := by
        have hidx := hinv.wakeup.dispatch.robIdx n d hd
        rw [hidx] at hno ⊢
        have hstep : (s.step innerCounterDownEvery i).wakeup.dispatch.core.rob.robState
            (Ring.slot robDepth 0 n) = _ :=
          hinv.wakeup.dispatch.robState_step (i := s.wakeup.dispatchInputs (s.wakeupInputs i))
            hn (Nat.lt_add_right _ hold) hno
        rw [hstep, if_neg (Nat.not_le_of_lt hold)]
        rfl
      rw [hstate] at hcomplete hexcept
      obtain ⟨sample, hdone⟩ := hinv.done n d hn hd hread hcomplete hexcept
      exact ⟨sample, hinv.done_kept hi hclear hflush hn hd hread hno hdone hcomplete hstate⟩
  · -- it has just come
    exfalso
    have hidx := hinv.wakeup.dispatch.robIdx_leaving hd
    have hdecoded : d.uop.IsDecoded :=
      (hinv.decoded.step hinv.wakeup.dispatch (decodes_next s i)).renamed d (by
        change d ∈ (s.step innerCounterDownEvery i).wakeup.dispatch.renamed
        rw [hrenamed]
        exact List.mem_of_getElem? hd)
    obtain ⟨k, rfl⟩ := Nat.exists_eq_add_of_le (Nat.le_of_not_lt hold)
    rw [List.getElem?_append_right (Nat.le_add_right _ _), Nat.add_sub_cancel_left] at hd
    rw [hinv.incomplete_leaving hi hclear hd hidx (hdecoded.fuType_eq_iff.mpr hread) hcomplete]
      at hexcept
    cases hexcept

theorem Inv.step (hinv : s.Inv) (hi : s.Legal i) : (s.step innerCounterDownEvery i).Inv where
  wakeup := hinv.wakeup.step (hinv.pipe.legal hi)
  pipe := hinv.pipe.step hinv.wakeup hi
  decoded := hinv.decoded.step hinv.wakeup.dispatch (decodes_next s i)
  inFlight hnext := by
    have hflush : s.needFlush i = false := hnext
    cases hclear : s.regFlush with
    | true => simp [(empty_of_regFlush innerCounterDownEvery i hclear).1]
    | false => exact hinv.wakeup.inFlight_step hclear (hinv.inFlight hclear) hflush
  inWb hnext w hw hread := by
    have hflush : s.needFlush i = false := hnext
    cases hclear : s.regFlush with
    | true =>
      have hnone : (s.step innerCounterDownEvery i).wb = none := if_pos hclear
      rw [hnone] at hw
      cases hw
    | false => exact inWb_step hinv hclear hflush hw hread
  done n d hn hd hread hcomplete hexcept := by
    cases hflush : s.needFlush i with
    | true =>
      have hnone : (s.step innerCounterDownEvery i).wakeup.dispatch.renamed = [] := if_pos hflush
      rw [hnone] at hd
      cases hd
    | false =>
      cases hclear : s.regFlush with
      | true =>
        have hempty : (s.step innerCounterDownEvery i).wakeup.dispatch.renamed = [] :=
          hinv.wakeup.renamed_of_regFlush hclear hflush
        rw [hempty] at hd
        cases hd
      | false => exact hinv.done_step hi hclear hflush hn hd hread hcomplete hexcept

theorem Inv.of_init (h : s.Init) : s.Inv where
  wakeup := .of_init h.wakeup
  decoded := .of_init h.wakeup.dispatch
  pipe := by
    have hstages : s.stages = [] := by
      rw [stages, h.wakeup.regRead, h.exe, h.wb]
      rfl
    exact ⟨by simp [hstages], by simp [hstages], by simp [h.wakeup.executing]⟩
  inFlight _ := by simp [h.wakeup.executing]
  inWb _ w hw := by
    rw [h.wb] at hw
    cases hw
  done n d _ hd := by
    rw [h.wakeup.dispatch.renamed] at hd
    cases hd

theorem inv_of_reachable (h : (machine innerCounterDownEvery).Reachable s) : s.Inv :=
  Clocked.Machine.invariant (fun _ => Inv.of_init) (fun _ _ hinv => hinv.step) h

/-! ## Control registers are accessed atomically -/

/-- The instruction at port `j` has the effect that it has if it is executed at once when it
retires. `sample` is what it has read in EXE. -/
structure Atomic (s : CsrCore) (i : Inputs) (j : Nat) (sample : CsrSample) : Prop where
  sampled : s.samples (s.wakeup.dispatch.core.entry j) = some sample
  /-- What it has read is what the register has, in all fields that do not change by
  themselves. -/
  current : sample.old &&& PrivilegedUnit.steadyBits (s.ports j).uop.csrAddr =
    s.unit.readData (s.ports j).uop.csrAddr &&&
      PrivilegedUnit.steadyBits (s.ports j).uop.csrAddr
  /-- It is what `rd` is given. -/
  returns : (s.ports j).uop.doRegWrite = true →
    s.reg (s.ports j).info.rename.wReg = sample.old
  /-- The register is given what follows from it. An instruction that writes is at the first
  port, and no other one writes in its cycle. -/
  writes : if j = 0 then
      (s.signals i).csrWrite =
        (csrData (s.ports j).uop.inst sample.rj sample.rd sample.old).map
          fun data => { addr := (s.ports j).uop.csrAddr, data }
    else csrData (s.ports j).uop.inst sample.rj sample.rd sample.old = none
  /-- Commit has not changed the registers from the read on, nor do older instructions of the
  cycle. -/
  undisturbed : sample.disturbed = false ∧ (0 < j → s.changesCSRs i = false)

/-- What retires is the instruction in flight whose turn it is, complete and without an
exception. -/
theorem Inv.retiring (hinv : s.Inv) {j : Nat} (hj : j < retireWidth)
    (hr : s.retires i j = true) : ∃ d,
      s.wakeup.dispatch.renamed[s.wakeup.dispatch.popped + j]? = some d ∧
      d.robIdx = s.wakeup.dispatch.core.entry j ∧ (s.ports j).info = d.pushPort.info ∧
      (s.ports j).state = s.wakeup.dispatch.core.rob.robState d.robIdx ∧
      (s.ports j).state.complete = true ∧ (s.ports j).state.except.valid = false ∧
      (0 < j → s.needFlush i = false) := by
  have hdispatch := hinv.wakeup.dispatch
  have hretires : Commit.retires s.ports s.wakeup.dispatch.core.fsm (s.commitInputs i) j = true :=
    hr
  rw [Commit.retires, Bool.and_eq_true, Bool.not_eq_true'] at hretires
  obtain ⟨hfire, hnone⟩ := hretires
  have hready := hfire
  simp only [Commit.fire, Commit.ready, Commit.completeMask, Commit.excMask, Commit.recoverMask,
    Bool.and_eq_true, List.all_eq_true, List.mem_range, Bool.or_eq_true, beq_iff_eq,
    Bool.not_eq_true', List.any_eq_false, not_or, Bool.not_eq_true] at hready
  obtain ⟨hvalid, ⟨⟨⟨hcomplete, hexc⟩, -⟩, hrecover⟩, -⟩ := hready
  have hlt : j < s.wakeup.dispatch.core.rob.ptr.count robDepth :=
    CommitCore.lt_of_valid hj hvalid
  have hlength := hdispatch.length
  obtain ⟨d, hd⟩ : ∃ d, s.wakeup.dispatch.renamed[s.wakeup.dispatch.popped + j]? = some d :=
    ⟨_, List.getElem?_eq_getElem (by omega)⟩
  have hidx : d.robIdx = s.wakeup.dispatch.core.entry j := by
    rw [hdispatch.robIdx _ d hd, ← hdispatch.entry_eq (Nat.le_add_right _ j),
      Nat.add_sub_cancel_left]
  have hinfo : (s.ports j).info = d.pushPort.info := by
    rw [← hdispatch.rob _ d (Nat.le_add_right _ j) hd, hidx]
    exact hdispatch.popInfo j hlt
  have hstate : (s.ports j).state = s.wakeup.dispatch.core.rob.robState d.robIdx := by
    rw [hidx]
    exact hinv.wakeup.popState j hlt
  refine ⟨d, hd, hidx, hinfo, hstate, hcomplete j (Nat.lt_succ_self j), ?_, fun hpos => ?_⟩
  · rcases hexc with hzero | hclean
    · subst hzero
      rw [Commit.hasExcept, Bool.or_eq_false_iff] at hnone
      exact hnone.1
    · exact (hclean j (Nat.lt_succ_self j)).1
  · -- the first port would stop the others
    have hlin := ((hexc.resolve_left (by omega)) 0 (Nat.succ_pos j)).2
    have hmis := hrecover 0 hpos
    change Commit.needFlush s.ports s.wakeup.dispatch.core.fsm (s.commitInputs i) = false
    rw [Commit.needFlush, hnone, hmis, hlin]
    exact Bool.and_false _

/-- Whatever the program and the order of issue, a control-register access that retires has
read what its register has when it retires, returns it in `rd`, and writes what follows from
it; commit has not changed the registers since the read. -/
theorem csr_atomic (h : (machine innerCounterDownEvery).Reachable s) {j : Nat}
    (hj : j < retireWidth) (hr : s.retires i j = true)
    (hread : (s.ports j).uop.readCSR = true) : ∃ sample, s.Atomic i j sample := by
  have hinv := inv_of_reachable h
  obtain ⟨d, hd, hidx, hinfo, hstate, hcomplete, hexcept, hflush⟩ := hinv.retiring hj hr
  have huop : (s.ports j).uop = d.uop := congrArg ROBEntryInfo.uop hinfo
  have hdecoded := hinv.decoded.renamed d (List.mem_of_getElem? hd)
  rw [hstate] at hcomplete hexcept
  rw [huop] at hread
  obtain ⟨sample, hdone⟩ :=
    hinv.done _ d (Nat.le_add_right _ j) hd hread hcomplete hexcept
  have hdata := hdecoded.csrData_eq hread sample
  refine ⟨sample, hidx ▸ hdone.sampled, ?_, ?_, ?_, hdone.fresh.undisturbed,
    fun hpos => changesCSRs_of_not_needFlush (hflush hpos)⟩
  · rw [huop]
    exact hdone.fresh.current
  · rw [huop, hinfo]
    exact hdone.result
  · have hunique : d.uop.writeCSR = true → j = 0 := by
      intro hwrite
      have hfire : Commit.fire s.ports s.wakeup.dispatch.core.fsm (s.commitInputs i) j = true :=
        (Bool.and_eq_true_iff.mp hr).1
      apply Commit.eq_zero_of_uniqueRetire hfire
      rw [huop]
      simp [MicroOp.uniqueRetire, MicroOp.flushState, hwrite]
    rw [huop, hdata]
    split_ifs with hzero hwrite hwrite
    · subst hzero
      change Commit.csrWrite s.ports s.wakeup.dispatch.core.fsm (s.commitInputs i) = _
      have hr : Commit.retires s.ports s.wakeup.dispatch.core.fsm (s.commitInputs i) 0 = true := hr
      rw [Commit.csrWrite, hr, huop, hwrite, hstate, hdone.target hwrite]
      rfl
    · subst hzero
      change Commit.csrWrite s.ports s.wakeup.dispatch.core.fsm (s.commitInputs i) = _
      rw [Commit.csrWrite, huop, Bool.eq_false_of_not_eq_true hwrite, Bool.and_false]
      rfl
    · exact absurd (hunique hwrite) hzero
    · rfl

instance (s : CsrCore) (i : Inputs) : Decidable ((machine innerCounterDownEvery).legal s i) :=
  decidable_of_iff (i.entries.length ≤ decodeWidth ∧
    (∀ c ∈ i.completions, (∃ slot ∈ s.wakeup.executing, slot.robIdx = c.robIdx) ∧
      ∀ slot ∈ s.stages, slot.robIdx ≠ c.robIdx) ∧
    (s.regFlush = false → ∀ w ∈ i.intWrites ++ i.regWrites,
      ∃ d ∈ s.wakeup.dispatch.renamed.drop s.wakeup.dispatch.popped,
        d.uop.doRegWrite = true ∧ d.rename.wReg = w.addr ∧
          ∃ u ∈ [ExecUnit.int1, .int2, .mulDiv, .mem], u.executes d.uop.fuType = true))
    (by
      have hunit : ∀ u, u ∈ [ExecUnit.int1, .int2, .mulDiv, .mem] ↔ u ≠ ExecUnit.int0 := by
        intro u
        cases u <;> decide
      simp only [hunit]
      exact ⟨fun h => ⟨h.1, h.2.1, h.2.2⟩, fun h => ⟨h.width, h.issued, h.writes⟩⟩)

/-- The core after reset, with other values than zero in the registers. -/
def afterReset : CsrCore where
  wakeup := { dispatch := { rename := RenameStage.atReset } }
  regs k := 0x10 + BitVec.ofNat 32 k

/-- `CSRXCHG` of register 5 with `CRMD` under the mask in register 6. -/
def exchange : List Inputs :=
  { nextValid := true, entries := [{ inst := 0x040000c5 }] } :: List.replicate 6 {}

/-- It finds `CRMD` as it is after reset. -/
theorem csr_atomic_exchange :
    let s := (machine 1).run afterReset exchange
    s.retires {} 0 = true ∧
      (s.signals {}).csrWrite = some { addr := CSRAddress.CRMD, data := 0x1c } ∧
      ∃ sample, s.Atomic {} 0 sample := by
  intro s
  have hreset : afterReset.Init :=
    ⟨⟨⟨⟨rfl, rfl, rfl, rfl, rfl, rfl, rfl, rfl⟩, rfl, rfl, fun _ _ => rfl, rfl, rfl, fun _ => rfl⟩,
      fun _ _ => rfl, fun _ => rfl, fun _ => rfl, rfl, fun _ => rfl⟩, rfl, rfl, rfl⟩
  have hstart : (machine 1).Reachable afterReset := .reset hreset
  have hretires : s.retires {} 0 = true := by decide +kernel
  exact ⟨hretires, by decide +kernel,
    csr_atomic (hstart.run (by decide +kernel)) (by decide) hretires (by decide +kernel)⟩

end CsrCore

end NopCore
