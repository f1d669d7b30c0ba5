import NopCore.Core.NoStaleOperand
import NopCore.Core.Semantics

/-!
# Registers in program order

The pipes work out of order and ahead of commit, on physical registers. The architectural
registers know nothing of that: each cycle they make the steps of the sequential machine for
the instructions that retire in it, the oldest one first, and so does every run. The
operands with which a pipe has computed a result are those that the sequential machine finds
when it comes to the instruction.
-/

namespace NopCore

theorem IssueQueue.uses_of_reads (q : IssueQueue) {uop : MicroOp} {j : Nat}
    (h : uop.reads j = true) : q.uses uop j = true := by
  rw [MicroOp.reads] at h
  split_ifs at h with hj
  · simp [uses, hj, h]
  · cases q <;> simp [uses, hj, h]

namespace OperandCore

open DispatchCore WakeupCore Producers

variable {useEarlyOut : Bool} {s : OperandCore} {i : Inputs} {p : Nat} {x : IssueSlot}
  {value : UWord}

/-- The architectural registers. -/
def archRegs (s : OperandCore) (a : Nat) : UWord :=
  if a < nArchRegs then s.reg (Rename.ratRead s.wakeup.dispatch.rename.aRAT a) else 0

/-- The result of an instruction comes from the memory, or from operands that are the results
of the owners of its registers. -/
def Computed (useEarlyOut : Bool) (s : OperandCore) (x : IssueSlot) (value : UWord) : Prop :=
  x.uop.fuType = .lsu ∨ ∃ data, x.uop.Yields useEarlyOut data value ∧
    ∀ j < 2, x.uop.reads j = true → s.Supplies (operand x.rRegs j) (data j)

theorem Supplies.unique {v : UWord} (h : s.Supplies p value) (h' : s.Supplies p v) :
    value = v := by
  rw [Supplies] at h h'
  cases howner : s.owner p with
  | none =>
    rw [howner] at h h'
    exact h.trans h'.symm
  | some n =>
    rw [howner] at h h'
    exact Option.some.inj (h.symm.trans h')

theorem Computed.step (h : s.Results) (hclear : s.regFlush = false)
    (hi : s.Legal useEarlyOut i) (hflying : s.wakeup.InFlight x)
    (hcomputed : s.Computed useEarlyOut x value) :
    (s.step useEarlyOut i).Computed useEarlyOut x value := by
  refine hcomputed.imp_right fun ⟨data, hyields, hdata⟩ => ⟨data, hyields, fun j hj huse => ?_⟩
  obtain ⟨n, d, hn, hd, rfl⟩ := hflying
  have hwakeup := h.recorded.joined.wakeup
  exact h.supplies_step hclear hi
    (hwakeup.dispatch.operand_not_taken hwakeup.sourced hn hd j) (hdata j hj huse)

/-! ## Once written -/

/-- What is in a stage after the cycle is in flight, and neither complete nor reported. -/
theorem Joined.open_of_slotAt_step (h : s.Joined) (hi : s.Legal useEarlyOut i) {u : ExecUnit}
    {st : PipeStage} (hx : (s.step useEarlyOut i).slotAt u st = some x) :
    s.regFlush = false ∧ (∃ n d, s.wakeup.dispatch.popped ≤ n ∧
      s.wakeup.dispatch.renamed[n]? = some d ∧ d.issueSlot = x ∧
      (s.entryState d).complete = false) ∧
      ∀ c ∈ (s.wakeupInputs useEarlyOut i).completions, c.robIdx ≠ x.robIdx := by
  obtain ⟨hclear, ⟨-, hmoves, hissued⟩ | ⟨st', hst, hold, -⟩⟩ := origin_of_slotAt hx
  · obtain ⟨l, hl⟩ := h.wakeup.waits hclear u.queue
    have hmem := List.mem_append_left (part u.queue s.wakeup.dispatch.pending)
      (mem_of_issued h.wakeup hl (mem_issued_of_issuedTo hmoves hissued))
    obtain ⟨n, d, hn, hd, -, rfl⟩ := hl.exists_renamed hmem
    exact ⟨hclear, ⟨n, d, hn, hd, rfl, hl.incomplete _ hmem⟩,
      hl.not_reported (h.wakeupLegal hi) hmem⟩
  · have hexecuting := h.pipes.executing u st' x hold
    obtain ⟨n, d, hn, hd, rfl⟩ := h.inFlight hclear x hexecuting
    exact ⟨hclear, ⟨n, d, hn, hd, rfl, (h.wakeup.executing hclear _ hexecuting).incomplete⟩,
      h.not_reported hclear hold hst⟩

/-- The result of what is in a stage has not been written. -/
def Unwritten (s : OperandCore) : Prop :=
  ∀ u st x, s.slotAt u st = some x → s.results (s.numbers x.robIdx) = none

theorem Results.unwritten_step (h : s.Results) (hi : s.Legal useEarlyOut i) :
    (s.step useEarlyOut i).Unwritten := by
  intro u st x hx
  have hjoined := h.recorded.joined
  obtain ⟨hclear, ⟨n, d, hn, hd, rfl, hincomplete⟩, hno⟩ := hjoined.open_of_slotAt_step hi hx
  change (s.step useEarlyOut i).results ((s.step useEarlyOut i).numbers d.robIdx) = none
  rw [hjoined.numbers_kept hn hd, results_step, h.unfinished n d hn hd (.inl hincomplete),
    List.find?_eq_none.mpr]
  · rfl
  · intro w hw heq
    rw [beq_iff_eq] at heq
    obtain ⟨m, d', hm, hd', hidx, hsource⟩ := h.source_of_write useEarlyOut hclear hw
    rw [← hidx] at heq
    obtain ⟨rfl, rfl⟩ := h.recorded.eq_of_numbers hm hd' hn hd heq
    rcases hsource with ⟨c, hc, hcidx⟩ | ⟨hcomplete, -⟩
    · exact hno c hc hcidx
    · rw [hincomplete] at hcomplete
      cases hcomplete

/-- A result is written once, also in the cycle after a flush. -/
theorem Unwritten.fresh (hun : s.Unwritten) (h : s.Results) (hi : s.Legal useEarlyOut i)
    {w : ResultWrite} (hw : w ∈ s.writes i) : s.results (s.numbers w.robIdx) = none := by
  have hjoined := h.recorded.joined
  have hw' := hw
  rw [writes, List.mem_append, List.mem_append] at hw'
  rcases hw' with (hint | hmulDiv) | hmem
  · obtain ⟨u, b, hu, hb, -, rfl⟩ := mem_intWrites hint
    exact hun u .wb b.slot (slotAt_of_wb hu hb)
  · obtain ⟨hx, -, rfl⟩ := mem_mulDivWrites hjoined.pipes hmulDiv
    exact hun .mulDiv .wb _ hx
  · obtain ⟨data, hwrite, -⟩ := mem_memWrites hmem
    obtain ⟨n, m, d, -, -, hd, -⟩ := h.recorded.writesFor hwrite
    refine h.fresh_of_write ?_ hw hi
    by_contra hset
    rw [(hjoined.dispatch.idle (Bool.of_not_eq_false hset)).2] at hd
    cases hd

/-- The register of an owner that has its result keeps it. -/
theorem Unwritten.reg_step (hun : s.Unwritten) (h : s.Results) (hi : s.Legal useEarlyOut i)
    (hp : p ∉ taken (s.leaving useEarlyOut i)) (hsettled : s.Settled p) :
    (s.step useEarlyOut i).reg p = s.reg p := by
  have hsupplies := settled_iff.mp (h.recorded.settled_step hp (.inl hsettled))
  rw [settled_iff] at hsettled
  rw [Supplies, owner_step hp] at hsupplies
  rw [Supplies] at hsettled
  cases howner : s.owner p with
  | none =>
    rw [howner] at hsupplies hsettled
    exact hsupplies.trans hsettled.symm
  | some n =>
    rw [howner] at hsupplies hsettled
    have hkept : (s.step useEarlyOut i).results n = s.results n := by
      rw [results_step, List.find?_eq_none.mpr]
      · rfl
      · intro w hw heq
        rw [beq_iff_eq] at heq
        have hfresh := hun.fresh h hi hw
        rw [heq, hsettled] at hfresh
        cases hfresh
    exact Option.some.inj (hsupplies.symm.trans (hkept.trans hsettled))

/-! ## The results -/

/-- The memory pipeline writes for memory instructions. -/
theorem Joined.lsu_of_source (h : s.Joined) {m : Nat} (hsource : s.memory.Source (s.memFront i) m)
    (hge : s.memory.oldest ≤ m) (hlt : m < s.memory.next) :
    ∃ d, s.wakeup.dispatch.renamed[s.wakeup.dispatch.popped + (m - s.memory.oldest)]? = some d ∧
      d.uop.fuType = .lsu := by
  obtain ⟨d, hd, hidx, hinfo⟩ := h.exists_of_number hge hlt
  refine ⟨d, hd, ?_⟩
  cases hsource with
  | held hvalid hkind hnumber =>
    subst hnumber
    have hclear : s.memory.regFlush = false := by
      rw [h.regFlush]
      by_contra hset
      rw [(h.dispatch.idle (Bool.of_not_eq_false hset)).2] at hd
      cases hd
    obtain ⟨done, hordered⟩ := h.memory.inStep.order.ordered hclear
    have hnumber := (hordered.mem_passed (List.mem_append_right done
      (MemCore.mem_wbUops hvalid))).1
    have henters := (MemCore.mem_memNumbers.mp hnumber).2
    rw [hinfo] at henters
    exact (MemCore.executes_of_entersQueue henters).1
  | uncached hfsm hfires hnumber =>
    subst hnumber
    obtain ⟨u, done, rest, -, -, hshown, -, hload, -⟩ := h.memory.inStep.executing hfsm
    have hpos : 0 < s.memory.count := by
      rw [MemCore.next] at hlt
      omega
    have hhead : (s.memory.core.ports 0).info = s.memory.info s.memory.oldest := by
      rw [MemCore.info, MemCore.idx, Nat.sub_self]
      exact h.memory.inStep.order.core.popInfo 0 hpos
    have huop : (s.memory.core.ports 0).uop = d.uop :=
      congrArg ROBEntryInfo.uop (hhead.trans hinfo)
    have hisLoad := hshown.isLoad.trans hload
    obtain ⟨plv, entry, heq⟩ := h.decoded.renamed d (List.mem_of_getElem? hd)
    rw [huop, heq] at hisLoad
    rw [heq]
    exact (Decoder.plain entry.inst).2.2 hisLoad

/-- What the pipes have in WB has been computed. -/
structure Computes (useEarlyOut : Bool) (s : OperandCore) : Prop where
  int : ∀ u b, u.queue = .int → s.wb u = some b → s.Computed useEarlyOut b.slot b.exeResult
  mulDiv : s.mulDiv.wbValid = true →
    s.Computed useEarlyOut s.mulDivWb s.mulDiv.wbResult

/-- The multiply and divide pipe works on what is in EXE. -/
structure MulDivWorks (useEarlyOut : Bool) (s : OperandCore) : Prop where
  operates : ∃ t : MulDivTrace, t.pipe = s.mulDiv ∧ t.Operates useEarlyOut
  entry : s.mulDiv.exeValid = true → s.mulDiv.exeValidOnEntry = true

theorem MulDivWorks.step (h : s.MulDivWorks useEarlyOut) :
    (s.step useEarlyOut i).MulDivWorks useEarlyOut where
  operates := by
    obtain ⟨t, hpipe, ht⟩ := h.operates
    refine ⟨t.step useEarlyOut (s.mulDivInputs i), ?_, ht.step⟩
    change t.pipe.step useEarlyOut (s.mulDivInputs i) = _
    rw [hpipe]
    rfl
  entry := MulDivPipe.exeValid_step h.entry

theorem MulDivWorks.of_init (h : s.Init) : s.MulDivWorks useEarlyOut where
  operates := ⟨_, rfl, .of_init h.mulDiv⟩
  entry hvalid := absurd (h.mulDiv.exeValid.symm.trans hvalid) Bool.false_ne_true

/-- What leaves EXE of the multiply and divide pipe is the result of its operands. -/
theorem MulDivWorks.exeResult_eq (h : s.MulDivWorks useEarlyOut) (hpipes : s.Pipes)
    (hvalid : s.mulDiv.exeValid = true) (hleaves : s.mulDiv.exeStuck useEarlyOut = false) :
    s.mulDiv.exeResult useEarlyOut =
      s.mulDivExe.mulDiv.uop.result useEarlyOut s.mulDiv.rj s.mulDiv.rk := by
  obtain ⟨t, hpipe, ht⟩ := h.operates
  have hslot := hpipes.exeSlot hvalid
  have htakes := hpipes.takes .mulDiv .exe s.mulDivExe (by rw [slotAt, if_pos hvalid])
  have hworks : (t.pipe.isMultiply || t.pipe.isDivision) = true := by
    rw [IssueQueue.takes, Bool.and_eq_true] at htakes
    have hfu := htakes.1
    rw [hpipe, MulDivPipe.isMultiply, MulDivPipe.isDivision, h.entry hvalid, MulDivPipe.uop,
      hslot]
    change (s.mulDivExe.uop.fuType == .mul || s.mulDivExe.uop.fuType == .mulh ||
      (s.mulDivExe.uop.fuType == .div || s.mulDivExe.uop.fuType == .mod)) = true
    revert hfu
    cases s.mulDivExe.uop.fuType <;> decide
  have hresult := ht.exeResult_eq hworks (by rw [hpipe]; exact hleaves)
  rw [hpipe, MulDivTrace.result, hpipe, MulDivPipe.uop, hslot] at hresult
  exact hresult

theorem Fresh.computes_step (h : s.Fresh useEarlyOut) (hworks : s.MulDivWorks useEarlyOut)
    (hi : s.Legal useEarlyOut i) :
    (s.step useEarlyOut i).Computes useEarlyOut where
  int u b hu hb := by
    have hwb : (s.step useEarlyOut i).wb u =
      if s.regFlush then none else (s.exe u).map (s.execute i u) := rfl
    rw [hwb] at hb
    split_ifs at hb with hflush
    have hclear := eq_false_of_ne_true hflush
    obtain ⟨e, he, rfl⟩ := Option.map_eq_some_iff.mp hb
    have hexecutes := h.results.recorded.joined.pipes.executes u .exe _ (slotAt_of_exe hu he)
    exact .inr ⟨s.regData e, .int u i.unset (i.reads u) (ExecUnit.mem_units_int.mpr hu) hexecutes,
      fun j hj huse => h.supplies_regData hi hclear hu he hj (IssueQueue.uses_of_reads .int huse)⟩
  mulDiv hvalid := by
    have hpipes := h.results.recorded.joined.pipes
    have hwb : (s.mulDiv.exeFires useEarlyOut (s.mulDivInputs i) && s.mulDiv.exeValid) = true :=
      hvalid
    rw [MulDivPipe.exeFires, Bool.and_eq_true, Bool.and_eq_true, Bool.not_eq_true',
      Bool.not_eq_true'] at hwb
    obtain ⟨⟨hleaves, hclear⟩, hexe⟩ := hwb
    have hclear : s.regFlush = false := hclear
    have hslot : s.slotAt .mulDiv .exe = some s.mulDivExe := by rw [slotAt, if_pos hexe]
    have htakes := hpipes.takes .mulDiv .exe _ hslot
    rw [IssueQueue.takes, Bool.and_eq_true] at htakes
    have hresult := hworks.exeResult_eq hpipes hexe hleaves
    right
    refine ⟨fun j => if j = 0 then s.mulDiv.rj else s.mulDiv.rk, ?_, fun j hj huse => ?_⟩
    · change s.mulDivExe.uop.Yields useEarlyOut _ (s.mulDiv.exeResult useEarlyOut)
      rw [hresult]
      exact .mulDiv htakes.1
    · have hdata := h.mulDivExe hexe ⟨j, hj⟩ (IssueQueue.uses_of_reads .mulDiv huse)
      have hnot := h.executing_not_taken (i := i) hclear
        (hpipes.executing .mulDiv .exe _ hslot) j
      have hkept := h.results.supplies_step hclear hi hnot hdata
      obtain rfl | rfl : j = 0 ∨ j = 1 := by omega
      · exact hkept
      · exact hkept

/-! ## The invariant -/

/-- Every result of an instruction in flight has been computed, and every instruction reads
what those in front of it leave. -/
structure Sequenced (useEarlyOut : Bool) (s : OperandCore) : Prop where
  fresh : s.Fresh useEarlyOut
  works : s.MulDivWorks useEarlyOut
  unwritten : s.Unwritten
  computes : s.Computes useEarlyOut
  computed : ∀ n d, s.wakeup.dispatch.popped ≤ n → s.wakeup.dispatch.renamed[n]? = some d →
    ∀ v, s.results (s.numbers d.robIdx) = some v → s.Computed useEarlyOut d.issueSlot v
  reads : s.wakeup.dispatch.rename.ReadsInOrder

namespace Sequenced

variable (h : s.Sequenced useEarlyOut)

include h

theorem results : s.Results := h.fresh.results

theorem joined : s.Joined := h.fresh.results.recorded.joined

/-- What is written has been computed. -/
theorem computed_of_write (hi : s.Legal useEarlyOut i) (hclear : s.regFlush = false) {n : Nat}
    {d : DispatchSlot} (hn : s.wakeup.dispatch.popped ≤ n)
    (hd : s.wakeup.dispatch.renamed[n]? = some d) {w : ResultWrite} (hw : w ∈ s.writes i)
    (hidx : d.robIdx = w.robIdx) : (s.step useEarlyOut i).Computed useEarlyOut d.issueSlot w.data := by
  have hjoined := h.joined
  have hflying : ∀ u x, s.slotAt u .wb = some x → x.robIdx = w.robIdx →
      s.wakeup.InFlight x ∧ x = d.issueSlot := by
    intro u x hx hxidx
    have hflying := hjoined.inFlight hclear x (hjoined.pipes.executing u .wb x hx)
    exact ⟨hflying, (hflying.eq hjoined.dispatch hn hd (hidx.trans hxidx.symm)).symm⟩
  have hw' := hw
  rw [writes, List.mem_append, List.mem_append] at hw'
  rcases hw' with (hint | hmulDiv) | hmem
  · obtain ⟨u, b, hu, hb, -, rfl⟩ := mem_intWrites hint
    obtain ⟨hslot, heq⟩ := hflying u b.slot (slotAt_of_wb hu hb) rfl
    rw [← heq]
    exact (h.computes.int u b hu hb).step h.results hclear hi hslot
  · obtain ⟨hx, -, rfl⟩ := mem_mulDivWrites hjoined.pipes hmulDiv
    obtain ⟨hslot, heq⟩ := hflying .mulDiv s.mulDivWb hx rfl
    have hvalid : s.mulDiv.wbValid = true := by
      by_contra hno
      rw [slotAt, if_neg hno] at hx
      cases hx
    rw [← heq]
    exact (h.computes.mulDiv hvalid).step h.results hclear hi hslot
  · left
    obtain ⟨data, hwrite, hwidx⟩ := mem_memWrites hmem
    obtain ⟨n', m, d', hfor, hn', hd', hidx', -⟩ := h.results.recorded.writesFor hwrite
    obtain ⟨d'', hd'', hlsu⟩ := hjoined.lsu_of_source hfor.source hfor.oldest_le hfor.lt_next
    rw [← hn'] at hd''
    obtain rfl := Option.some.inj (hd'.symm.trans hd'')
    obtain ⟨rfl, rfl⟩ := hjoined.dispatch.eq_of_robIdx hn (by omega) hd hd'
      ((hidx.trans hwidx).trans hidx'.symm)
    exact hlsu

/-- The results of what was in flight at the beginning of the cycle. -/
theorem computed_next (hi : s.Legal useEarlyOut i) (hclear : s.regFlush = false) {n : Nat}
    {d : DispatchSlot} (hn : s.wakeup.dispatch.popped ≤ n)
    (hd : s.wakeup.dispatch.renamed[n]? = some d)
    (hresult : (s.step useEarlyOut i).results (s.numbers d.robIdx) = some value) :
    (s.step useEarlyOut i).Computed useEarlyOut d.issueSlot value := by
  rw [results_step, Option.or_eq_some_iff] at hresult
  rcases hresult with hwrite | ⟨-, hold⟩
  · obtain ⟨w, hfind, rfl⟩ := Option.map_eq_some_iff.mp hwrite
    have hnumber := List.find?_some hfind
    rw [beq_iff_eq] at hnumber
    have hw := List.mem_of_find?_eq_some hfind
    obtain ⟨m, d', hm, hd', hidx, -⟩ := h.results.recorded.inFlight_of_write hclear hw
    rw [← hidx] at hnumber
    obtain ⟨rfl, rfl⟩ := h.results.recorded.eq_of_numbers hm hd' hn hd hnumber
    exact h.computed_of_write hi hclear hn hd hw hidx
  · exact (h.computed n d hn hd value hold).step h.results hclear hi ⟨n, d, hn, hd, rfl⟩

theorem computed_step (hi : s.Legal useEarlyOut i) {n : Nat} {d : DispatchSlot}
    (hn : (s.step useEarlyOut i).wakeup.dispatch.popped ≤ n)
    (hd : (s.step useEarlyOut i).wakeup.dispatch.renamed[n]? = some d)
    (hresult : (s.step useEarlyOut i).results ((s.step useEarlyOut i).numbers d.robIdx) =
      some value) : (s.step useEarlyOut i).Computed useEarlyOut d.issueSlot value := by
  obtain ⟨-, ⟨hclear, hn, hd⟩ | ⟨k, -, hd⟩⟩ := h.joined.origin_of_renamed hn hd
  · have hn' : s.wakeup.dispatch.popped ≤ n := (Nat.le_add_right _ _).trans hn
    rw [h.joined.numbers_kept hn' hd] at hresult
    exact h.computed_next hi hclear hn' hd hresult
  · -- it has no result yet
    rw [h.joined.numbers_new hd, results_step, Option.or_eq_some_iff] at hresult
    exfalso
    rcases hresult with hwrite | ⟨-, hold⟩
    · obtain ⟨w, hfind, -⟩ := Option.map_eq_some_iff.mp hwrite
      have hnumber := List.find?_some hfind
      rw [beq_iff_eq] at hnumber
      have hlt := h.results.recorded.numbered.owner_lt
        (h.results.recorded.owner_of_write (List.mem_of_find?_eq_some hfind))
      omega
    · have hlt := h.results.bounded _ _ hold
      omega

theorem step (hi : s.Legal useEarlyOut i) (hquiet : s.Undisturbed i) :
    (s.step useEarlyOut i).Sequenced useEarlyOut where
  fresh := h.fresh.step hi hquiet
  works := h.works.step
  unwritten := h.results.unwritten_step hi
  computes := h.fresh.computes_step h.works hi
  computed _ _ hn hd _ := h.computed_step hi hn hd
  reads := by
    have hlegal : s.wakeup.dispatch.Legal (s.dispatchInputs useEarlyOut i) :=
      ⟨(h.joined.wakeupLegal hi).decoded⟩
    exact h.reads.step h.joined.dispatch.stage (h.joined.dispatch.renameLegal hlegal)

omit h in
theorem of_init (h : s.Init) : s.Sequenced useEarlyOut where
  fresh := .of_init h
  works := .of_init h
  unwritten u st x hx := h.results _
  computes := {
    int := fun u b _ hb => by simp [h.wb] at hb
    mulDiv := fun hvalid => absurd (h.mulDiv.wbValid.symm.trans hvalid) Bool.false_ne_true }
  computed n d _ hd := by simp [h.wakeup.dispatch.renamed] at hd
  reads := RenameStage.readsInOrder_of_empty h.wakeup.dispatch.rename.inFlight

end Sequenced

theorem sequenced_of_reachable
    (h : ((machine useEarlyOut).restrict Undisturbed).Reachable s) : s.Sequenced useEarlyOut :=
  Clocked.Machine.invariant (fun _ => Sequenced.of_init) (fun _ _ h hi => h.step hi.1 hi.2) h

/-! ## The steps of a cycle -/

/-- The architectural registers behind the first instructions that retire in a cycle. -/
def regsAfter (useEarlyOut : Bool) (s : OperandCore) (i : Inputs) (m : Nat) (a : Nat) : UWord :=
  if a < nArchRegs then (s.step useEarlyOut i).reg (Renaming.apply
    s.wakeup.dispatch.rename.abs.map (NopCore.writes ((s.retired useEarlyOut i).take m)) a)
  else 0

/-- The instructions that retire in a cycle. -/
def executed (useEarlyOut : Bool) (s : OperandCore) (i : Inputs) : List MicroOp :=
  (s.retired useEarlyOut i).map PushPort.uop

namespace Sequenced

variable (h : s.Sequenced useEarlyOut)

include h

theorem regsAfter_zero (hi : s.Legal useEarlyOut i) :
    s.regsAfter useEarlyOut i 0 = s.archRegs := by
  funext a
  rw [regsAfter, archRegs, List.take_zero]
  split_ifs with ha
  · change (s.step useEarlyOut i).reg (s.wakeup.dispatch.rename.abs.map a) =
      s.reg (s.wakeup.dispatch.rename.abs.map a)
    rcases Nat.eq_zero_or_pos a with rfl | hpos
    · rfl
    · have ha := RenameStage.mem_archRegs.mpr ⟨hpos, ha⟩
      exact h.unwritten.reg_step h.results hi (h.joined.dispatch.mapped_not_taken ha)
        (h.results.committed a ha)
  · rfl

theorem regsAfter_length (hi : s.Legal useEarlyOut i) :
    s.regsAfter useEarlyOut i (s.retired useEarlyOut i).length =
      (s.step useEarlyOut i).archRegs := by
  funext a
  rw [regsAfter, archRegs, List.take_length, ← Results.map_step h.joined hi]
  rfl

/-- A write of an instruction that retires is that of a register other than 0. -/
theorem dst_retired {w : Renaming.Write Nat Nat}
    (hw : w ∈ NopCore.writes (s.retired useEarlyOut i)) : w.dst ∈ RenameStage.archRegs := by
  apply h.joined.dispatch.stage.ok.dst
  change w ∈ NopCore.writes s.wakeup.dispatch.rename.live
  rw [OperandCore.retired, RenameStage.writes_retired] at hw
  rw [RenameStage.live, writes_append]
  exact List.mem_append_right _ (List.mem_of_mem_take hw)

theorem settled_after (hi : s.Legal useEarlyOut i) (m : Nat) {a : Nat} (ha : a < nArchRegs) :
    (s.step useEarlyOut i).Settled (Renaming.apply s.wakeup.dispatch.rename.abs.map
      (NopCore.writes ((s.retired useEarlyOut i).take m)) a) := by
  rcases Nat.eq_zero_or_pos a with rfl | hpos
  · rw [Rename.apply_zero]
    · exact (h.results.step hi).settled_zero
    · intro w hw
      rw [← writes_take] at hw
      exact (RenameStage.mem_archRegs.mp (h.dst_retired (List.mem_of_mem_take hw))).1
  · exact h.results.settled_mapped m (RenameStage.mem_archRegs.mpr ⟨hpos, ha⟩)

/-- An instruction that retires reads what those in front of it leave. -/
theorem operand_retired {m : Nat} {p : PushPort}
    (hp : (s.retired useEarlyOut i)[m]? = some p) (j : Nat) : operand p.rename.rRegs j =
      Renaming.apply s.wakeup.dispatch.rename.abs.map
        (NopCore.writes ((s.retired useEarlyOut i).take m)) (p.uop.readAddr j) := by
  have hall : s.retired useEarlyOut i ++ s.wakeup.dispatch.rename.remaining _ =
    s.wakeup.dispatch.rename.inFlight := RenameStage.retired_append_remaining _ _
  have hlt := (List.getElem?_eq_some_iff.mp hp).1
  have hget : s.wakeup.dispatch.rename.inFlight[m]? = some p := by
    rw [← hall, List.getElem?_append_left hlt]
    exact hp
  rw [h.reads m p hget j, ← hall, List.take_append_of_le_length hlt.le]

/-- The result of an instruction that retires is in its register. -/
theorem computed_retired (hi : s.Legal useEarlyOut i) {m : Nat} {d : DispatchSlot}
    (hclean : Commit.hasExcept s.wakeup.dispatch.core.ports s.wakeup.dispatch.core.fsm
      (s.dispatchInputs useEarlyOut i).commit = false)
    (hlt : m < s.wakeup.dispatch.popCount (s.dispatchInputs useEarlyOut i))
    (hd : s.wakeup.dispatch.renamed[s.wakeup.dispatch.popped + m]? = some d)
    (hwrites : d.uop.doRegWrite = true) : (s.step useEarlyOut i).Computed useEarlyOut
      d.issueSlot ((s.step useEarlyOut i).reg d.rename.wReg) := by
  have hn := Nat.le_add_right s.wakeup.dispatch.popped m
  have hclear : s.regFlush = false := by
    by_contra hset
    rw [(h.joined.dispatch.idle (Bool.of_not_eq_false hset)).2] at hd
    cases hd
  have hnot := h.joined.dispatch.wReg_not_taken (i := s.dispatchInputs useEarlyOut i) hclear hn hd
    hwrites
  have hsupplies := settled_iff.mp (h.results.recorded.settled_step hnot
    (h.results.settled_of_retires hclean hlt hd hwrites))
  have howner : (s.step useEarlyOut i).owner d.rename.wReg = _ := owner_step hnot
  have howns : s.owner d.rename.wReg = some (s.numbers d.robIdx) :=
    h.results.recorded.numbered.owns _ d hn hd hwrites
  exact h.computed_next hi hclear hn hd (hsupplies.eq_some (howner.trans howns))

/-- Each of them makes one step of the sequential machine. -/
theorem executes (hi : s.Legal useEarlyOut i) {m : Nat} {p : PushPort}
    (hp : (s.retired useEarlyOut i)[m]? = some p) :
    p.uop.Executes (s.regsAfter useEarlyOut i m) (s.regsAfter useEarlyOut i (m + 1)) := by
  obtain ⟨hclean, hlt, d, hd, rfl⟩ := h.joined.dispatch.retired_getElem? hp
  have hdec : d.uop.IsDecoded := h.joined.decoded.renamed d (List.mem_of_getElem? hd)
  have htake : (s.retired useEarlyOut i).take (m + 1) =
      (s.retired useEarlyOut i).take m ++ [d.pushPort] := by
    rw [List.take_add_one, hp]
    rfl
  cases hwrites : d.uop.doRegWrite with
  | false =>
    have hnone : NopCore.writes [d.pushPort] = [] := by
      simp [NopCore.writes, DispatchSlot.pushPort, hwrites]
    refine ⟨none, MicroOp.writes_none hdec hwrites, ?_⟩
    funext a
    rw [regsAfter, htake, writes_append, hnone, List.append_nil]
    rfl
  | true =>
    have hone : NopCore.writes [d.pushPort] =
        [{ dst := d.uop.wbAddr, new := d.rename.wReg, old := d.rename.wPrevReg }] := by
      have hkeep : [d.pushPort].filter (fun p => p.uop.doRegWrite) = [d.pushPort] :=
        List.filter_cons_of_pos hwrites
      rw [NopCore.writes, hkeep]
      rfl
    have haddr := (RenameStage.mem_archRegs.mp (h.dst_retired (by
      rw [← List.take_append_drop (m + 1) (s.retired useEarlyOut i), htake, writes_append,
        writes_append, hone]
      exact List.mem_append_left _ (List.mem_append_right _ List.mem_cons_self)))).2
    refine ⟨some { addr := d.uop.wbAddr, data := (s.step useEarlyOut i).reg d.rename.wReg }, ?_, ?_⟩
    · rcases h.computed_retired hi hclean hlt hd hwrites with hlsu | ⟨data, hyields, hdata⟩
      · exact MicroOp.writes_of_lsu hdec hlsu hwrites _
      · refine hyields.writes hdec (fun j hj huse => ?_) hwrites
        have hread := d.uop.readAddr_lt j
        have hsupplies := hdata j hj huse
        have hoperand : operand d.issueSlot.rRegs j = _ := h.operand_retired hp j
        rw [hoperand] at hsupplies
        rw [regsAfter]
        exact (hsupplies.unique (settled_iff.mp (h.settled_after hi m hread))).trans
          (if_pos hread).symm
    · funext a
      rw [regsAfter, htake, writes_append, hone, Renaming.apply_append, Renaming.apply_cons,
        Renaming.apply_nil]
      change _ = Function.update (s.regsAfter useEarlyOut i m) d.uop.wbAddr _ a
      by_cases hsame : a = d.uop.wbAddr
      · subst hsame
        rw [Function.update_self, Function.update_self, if_pos haddr]
      · rw [Function.update_of_ne hsame, Function.update_of_ne hsame, regsAfter]

/-- A cycle makes the steps of the instructions that retire in it. -/
theorem steps (hi : s.Legal useEarlyOut i) : Clocked.Steps MicroOp.Executes
    (s.executed useEarlyOut i) s.archRegs (s.step useEarlyOut i).archRegs := by
  have hlength : (s.executed useEarlyOut i).length = (s.retired useEarlyOut i).length :=
    List.length_map _
  rw [← h.regsAfter_zero hi, ← h.regsAfter_length hi, ← hlength]
  refine Clocked.Steps.of_getElem? fun m uop huop => ?_
  rw [executed, List.getElem?_map, Option.map_eq_some_iff] at huop
  obtain ⟨p, hp, rfl⟩ := huop
  exact h.executes hi hp

end Sequenced

/-- Whatever the program and the order of issue, a run leaves in the architectural registers
what the sequential machine computes for the instructions that have retired. -/
theorem registers_inOrder (h : ((machine useEarlyOut).restrict Undisturbed).Reachable s)
    {is : List Inputs} (his : ((machine useEarlyOut).restrict Undisturbed).Legal s is) :
    Clocked.Steps MicroOp.Executes ((machine useEarlyOut).does (executed useEarlyOut) s is)
      s.archRegs ((machine useEarlyOut).run s is).archRegs := by
  have hrun := Clocked.Machine.steps_run
    (fun s i hs (hi : ((machine useEarlyOut).restrict Undisturbed).legal s i) =>
      (sequenced_of_reachable hs).steps hi.1) h his
  rwa [Clocked.Machine.restrict_run, Clocked.Machine.does_restrict] at hrun

/-- Both additions retire. -/
def doubled : List Inputs := double ++ List.replicate 3 ({} : Inputs)

theorem registers_inOrder_doubled :
    let s := (machine true).run atReset doubled
    (s.archRegs 5, s.archRegs 6) = (7, 14) ∧
      Clocked.Steps MicroOp.Executes ((machine true).does (executed true) atReset doubled)
        atReset.archRegs s.archRegs :=
  ⟨by decide +kernel, registers_inOrder (.reset init_atReset) (by decide +kernel)⟩

end OperandCore

end NopCore
