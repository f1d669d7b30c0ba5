import NopCore.Core.InOrderRegisters
import NopCore.Exe.Branch

/-!
# Resolved branches

The branch unit compares the prediction with the operands that it finds in EXE, ahead of
commit and out of order. What it has found out stays in the entry of the branch until the
branch retires. The operands are then those of the architectural registers.
-/

namespace NopCore

/-! ## Branches among the decoded instructions -/

namespace BranchInst

def all : List BranchInst := [beq, bne, blt, bge, bltu, bgeu, b, bl, jirl]

variable {i : BranchInst} {uop : MicroOp} {inst pc rj rj' rd rd' : UWord}

theorem decodes_of_isDecoded (hdec : uop.IsDecoded) (h : i.encoding.covers uop.inst = true) :
    i.Decodes uop := by
  obtain ⟨plv, entry, rfl⟩ := hdec
  exact decodes h

theorem useRj_decode (hdec : uop.IsDecoded) (h : i.encoding.covers uop.inst = true)
    (huse : i.signals.useRj = true) : uop.useRj = true := by
  obtain ⟨plv, entry, rfl⟩ := hdec
  change Decoder.useRj entry.inst = true
  have hsignals : Decoder.signals entry.inst = i.signals := signals_eq h
  rw [Decoder.useRj, hsignals, huse, Bool.true_or]

/-- Whether a branch is taken and where it goes depends on the operands that it names. -/
theorem taken_congr (hrj : i.signals.useRj = true → rj = rj')
    (hrd : i.signals.useRd = true → rd = rd') : i.taken rj rd = i.taken rj' rd' := by
  cases i with
  | beq | bne | blt | bge | bltu | bgeu => rw [hrj rfl, hrd rfl]
  | b | bl | jirl => rfl

theorem target_congr (hrj : i.signals.useRj = true → rj = rj') :
    i.target inst pc rj = i.target inst pc rj' := by
  cases i with
  | beq | bne | blt | bge | bltu | bgeu | b | bl => rfl
  | jirl => rw [hrj rfl]

end BranchInst

/-- Every line of the decoder that transfers control is that of a branch. -/
theorem Decoder.exists_branch {inst : UWord} (h : ((Decoder.signals inst).isBranch ||
    (Decoder.signals inst).isJump || (Decoder.signals inst).isJR) = true) :
    ∃ br : BranchInst, br.encoding.covers inst = true := by
  have hlines : ∀ line ∈ encodings, ((line.2 {}).isBranch || (line.2 {}).isJump ||
      (line.2 {}).isJR) = true → ∃ br ∈ BranchInst.all, line.1 = br.encoding := by
    decide +kernel
  rcases Decoder.signals_eq inst with ⟨line, hline, hcovers, hsignals⟩ | ⟨-, hsignals⟩
  · rw [hsignals] at h
    obtain ⟨br, -, hbr⟩ := hlines line hline h
    exact ⟨br, hbr ▸ hcovers⟩
  · rw [hsignals] at h
    cases h

theorem MicroOp.exists_branch {uop : MicroOp} (hdec : uop.IsDecoded)
    (h : uop.branchLike = true) : ∃ br : BranchInst, br.encoding.covers uop.inst = true := by
  obtain ⟨plv, entry, rfl⟩ := hdec
  exact Decoder.exists_branch h

/-- What is in the entry of a branch is what the operands say. -/
def MicroOp.ResolvedBy (uop : MicroOp) (data : Nat → UWord) (st : ROBEntryState) : Prop :=
  ∀ br : BranchInst, br.encoding.covers uop.inst = true →
    st.actualTaken = br.taken (data 0) (data 1) ∧
      st.intResult = br.target uop.inst uop.pc (data 0) ∧
      (st.mispredict = true ↔ BranchInst.Mispredicted uop.predInfo (br.taken (data 0) (data 1))
        (br.target uop.inst uop.pc (data 0)))

/-- The branch unit resolves by the operands that it is given. -/
theorem MicroOp.resolvedBy_completion {e : ExeInputs} {unset : ExecuteSignals} {robIdx : Nat}
    (hdec : e.uop.IsDecoded) (hsignals : e.signals = Decoder.executeSignals unset e.uop.inst) :
    e.uop.ResolvedBy e.regData (IntExecutePlugin.int0.completion e .int0 robIdx).state := by
  intro br hcovers
  have hdecodes := BranchInst.decodes_of_isDecoded hdec hcovers
  have htaken : (e.condition || e.uop.isJR || e.uop.isJump) =
      br.taken (e.regData 0) (e.regData 1) := by
    rw [hdecodes.isJR, hdecodes.isJump]
    exact br.taken_eq e hdecodes.useRd fun op hop =>
      hsignals ▸ BranchInst.cmpOp_eq unset hcovers hop
  have htarget : IntExecutePlugin.int0.actualTarget e =
      br.target e.uop.inst e.uop.pc (e.regData 0) := by
    have hcalm := hdecodes.flushState
    simp only [MicroOp.flushState, Bool.or_eq_false_iff] at hcalm
    rw [IntExecutePlugin.actualTarget, show e.uop.operateTLB = false from hcalm.1.1.1.1.2,
      show e.uop.writeCSR = false from hcalm.1.1.1.1.1.1.2, Bool.and_false,
      if_neg Bool.false_ne_true, Bool.and_false, if_neg Bool.false_ne_true]
    exact br.actualTarget_eq e.uop (e.regData 0) hdecodes.isBranch hdecodes.isJump
  refine ⟨htaken, htarget, ?_⟩
  rw [← htaken, ← htarget]
  exact BranchInst.bruMispredict_iff hdecodes.branchLike _ _

namespace OperandCore

open DispatchCore WakeupCore

variable {useEarlyOut : Bool} {s : OperandCore} {i : Inputs} {x : IssueSlot} {st : ROBEntryState}

/-- The operands by which a branch is resolved are the results of the owners of its
registers. -/
def Judged (s : OperandCore) (x : IssueSlot) (st : ROBEntryState) : Prop :=
  ∃ data, x.uop.ResolvedBy data st ∧
    ∀ j < 2, IssueQueue.int.uses x.uop j = true → s.Supplies (operand x.rRegs j) (data j)

theorem Judged.step (h : s.Results) (hclear : s.regFlush = false) (hi : s.Legal useEarlyOut i)
    (hflying : s.wakeup.InFlight x) (hjudged : s.Judged x st) :
    (s.step useEarlyOut i).Judged x st := by
  obtain ⟨data, hresolved, hdata⟩ := hjudged
  refine ⟨data, hresolved, fun j hj huse => ?_⟩
  obtain ⟨n, d, hn, hd, rfl⟩ := hflying
  have hwakeup := h.recorded.joined.wakeup
  exact h.supplies_step hclear hi
    (hwakeup.dispatch.operand_not_taken hwakeup.sourced hn hd j) (hdata j hj huse)

/-- What has been resolved, in WB and in the entries. -/
structure Resolved (s : OperandCore) : Prop where
  wb : ∀ b, s.wb .int0 = some b → s.Judged b.slot b.completion.state
  entries : ∀ n d, s.wakeup.dispatch.popped ≤ n → s.wakeup.dispatch.renamed[n]? = some d →
    d.uop.branchLike = true → (s.entryState d).complete = true →
      (s.entryState d).except.valid = false → s.Judged d.issueSlot (s.entryState d)

theorem Resolved.of_init (h : s.Init) : s.Resolved where
  wb b hb := by simp [h.wb] at hb
  entries n d _ hd := by simp [h.wakeup.dispatch.renamed] at hd

/-- The reports of the integer pipes are those of what they have in WB. -/
theorem wb_of_mem_reports {c : Completion} (hc : c ∈ s.reports) (hunit : c.unit = .int0) :
    ∃ b, s.wb .int0 = some b ∧ c = b.completion := by
  rw [reports, List.mem_append] at hc
  rcases hc with hint | hmulDiv
  · obtain ⟨u, -, hw⟩ := List.mem_filterMap.mp hint
    obtain ⟨w, hwb, rfl⟩ := Option.map_eq_some_iff.mp hw
    obtain rfl : u = .int0 := hunit
    exact ⟨w, hwb, rfl⟩
  · split_ifs at hmulDiv
    · obtain rfl := List.mem_singleton.mp hmulDiv
      cases hunit
    · cases hmulDiv

theorem Fresh.wb_judged (h : s.Fresh useEarlyOut) (hi : s.Legal useEarlyOut i) {b : WbStage}
    (hb : (s.step useEarlyOut i).wb .int0 = some b) :
    (s.step useEarlyOut i).Judged b.slot b.completion.state := by
  have hwb : (s.step useEarlyOut i).wb .int0 =
    if s.regFlush then none else (s.exe .int0).map (s.execute i .int0) := rfl
  rw [hwb] at hb
  split_ifs at hb with hflush
  obtain ⟨e, he, rfl⟩ := Option.map_eq_some_iff.mp hb
  have hclear := eq_false_of_ne_true hflush
  have hjoined := h.results.recorded.joined
  obtain ⟨n, d, -, hd, hslot⟩ :=
    hjoined.inFlight hclear _ (hjoined.pipes.executing .int0 .exe _ (slotAt_of_exe rfl he))
  have hdec : e.slot.uop.IsDecoded := by
    rw [← hslot]
    exact hjoined.decoded.renamed d (List.mem_of_getElem? hd)
  exact ⟨s.regData e,
    MicroOp.resolvedBy_completion (e := s.exeInputs i .int0 e) hdec rfl,
    fun j hj huse => h.supplies_regData hi hclear rfl he hj huse⟩

/-- A branch is reported by the pipe with the branch unit. -/
theorem Results.report_of_branch (h : s.Results) (hclear : s.regFlush = false) {n : Nat}
    {d : DispatchSlot} (hn : s.wakeup.dispatch.popped ≤ n)
    (hd : s.wakeup.dispatch.renamed[n]? = some d) (hbranch : d.uop.branchLike = true)
    {c : Completion} (hc : c ∈ (s.wakeupInputs useEarlyOut i).completions)
    (hidx : c.robIdx = d.robIdx) : ∃ b, s.wb .int0 = some b ∧ c = b.completion ∧
      b.slot = d.issueSlot := by
  have hjoined := h.recorded.joined
  have hdec := hjoined.decoded.renamed d (List.mem_of_getElem? hd)
  obtain ⟨br, hcovers⟩ := MicroOp.exists_branch hdec hbranch
  have hfu := (BranchInst.decodes_of_isDecoded hdec hcovers).fuType
  rcases h.recorded.reported hclear hn hd hc hidx with ⟨hne, hx⟩ | ⟨rfl, hvalid, -, hinfo, -⟩
  · have hexecutes := hjoined.pipes.executes _ _ _ hx
    have honly : ∀ u : ExecUnit, u.executes .cmp = true → u = .int0 := by
      intro u hu
      cases u <;> first | rfl | cases hu
    have hunit : c.unit = .int0 := honly _ (hfu ▸ hexecutes)
    rcases List.mem_append.mp hc with hmem | hreport
    · exact absurd (congrArg Completion.unit (mem_memCompletion hmem).2.2) hne
    · obtain ⟨w, hw, rfl⟩ := wb_of_mem_reports hreport hunit
      rw [hunit] at hx
      exact ⟨w, hw, rfl, Option.some.inj ((slotAt_of_wb rfl hw).symm.trans hx)⟩
  · -- the memory pipeline has nothing but memory instructions
    exfalso
    obtain ⟨done, hordered⟩ :=
      hjoined.memory.inStep.order.ordered (hjoined.regFlush.trans hclear)
    have hnumber := (hordered.mem_passed (List.mem_append_right done
      (MemCore.mem_wbUops hvalid))).1
    have henters := (MemCore.mem_memNumbers.mp hnumber).2
    rw [hinfo] at henters
    cases hfu.symm.trans (MemCore.executes_of_entersQueue henters).1

theorem Sequenced.resolved_step (h : s.Sequenced useEarlyOut) (hres : s.Resolved)
    (hi : s.Legal useEarlyOut i) : (s.step useEarlyOut i).Resolved where
  wb b hb := h.fresh.wb_judged hi hb
  entries n d hn hnext hbranch hcomplete hexcept := by
    obtain ⟨-, ⟨hclear, hn, hd⟩ | ⟨k, -, hd⟩⟩ := h.joined.origin_of_renamed hn hnext
    · have hn' : s.wakeup.dispatch.popped ≤ n := (Nat.le_add_right _ _).trans hn
      have hflying : s.wakeup.InFlight d.issueSlot := ⟨n, d, hn', hd, rfl⟩
      rcases h.results.recorded.entryState_step hn' hd with ⟨-, hstate⟩ | ⟨c, hc, hidx, hstate⟩
      · rw [hstate] at hcomplete hexcept ⊢
        exact (hres.entries n d hn' hd hbranch hcomplete hexcept).step h.results hclear hi hflying
      · obtain ⟨b, hb, rfl, hslot⟩ := h.results.report_of_branch hclear hn' hd hbranch hc hidx
        rw [hstate]
        have hjudged := hres.wb b hb
        rw [hslot] at hjudged
        exact hjudged.step h.results hclear hi hflying
    · -- a branch that has just been renamed is still to be executed
      exfalso
      have hdec := (h.joined.step hi).decoded.renamed d (List.mem_of_getElem? hnext)
      obtain ⟨br, hcovers⟩ := MicroOp.exists_branch hdec hbranch
      have hfu := (BranchInst.decodes_of_isDecoded hdec hcovers).fuType
      obtain ⟨old, hstate⟩ := h.results.recorded.entryState_new hi
        (Results.regFlush_of_leaving h.joined hd) hd
      rw [hstate] at hcomplete hexcept
      have hcomplete : (d.uop.except.valid || d.uop.fuType == .none) = true := hcomplete
      have hexcept : d.uop.except.valid = false := hexcept
      rw [hexcept, hfu] at hcomplete
      cases hcomplete

end OperandCore

end NopCore
