import NopCore.Core.DecodedCore
import NopCore.Core.UncachedLoad

/-!
# What the memory pipeline writes

WB has one register port for two instructions: that of the pipeline and the uncached load
that comes as store data. An uncached load goes with a store or alone, and a store has no
result, so the port belongs to one of them.
-/

namespace NopCore

/-- What has a result is executed, and a memory instruction with a result is a load or a
store-conditional. A multiplication or division uses both operands. -/
def DecodeSignals.HasResult (s : DecodeSignals) : Prop :=
  (s.fuType = .none → s.isRegWrite = false) ∧
    (s.fuType = .lsu → s.isRegWrite = true → s.isLoad = true ∨ s.isSC = true) ∧
    (s.fuType = .mul ∨ s.fuType = .mulh ∨ s.fuType = .div ∨ s.fuType = .mod →
      s.useRj = true ∧ s.useRk = true)

instance : DecidablePred DecodeSignals.HasResult := fun _ => inferInstanceAs (Decidable (_ ∧ _))

theorem Decoder.hasResult (inst : UWord) : (Decoder.signals inst).HasResult :=
  Decoder.wellFormed.apply_of_lines (by decide) (by decide +kernel)

namespace MemCore

variable {t : MemCore} {i : Inputs}

/-- Store data accompanies a store. -/
def Accompanies (st : MemStage) : Prop :=
  st.isValid = true → st.std.isSome = true → st.uop.isStore = true ∧ st.uop.isSC = false

theorem Accompanies.mask {st : MemStage} (h : Accompanies st) (b : Bool) :
    Accompanies { st with isValid := st.isValid && b } :=
  fun hvalid => h (Bool.and_eq_true_iff.mp hvalid).1

theorem accompanies_issStage (s : MemPipeline) (i : MemPipeline.Inputs) :
    Accompanies (s.issStage i) := by
  intro hvalid hstd
  simp only [MemPipeline.issStage, Bool.and_eq_true] at hvalid hstd ⊢
  by_cases hissue : s.stdValid i = true
  · simp only [MemPipeline.stdValid, hvalid.1, Bool.true_and, Bool.not_true, Bool.or_false,
      Bool.and_eq_true, Bool.not_eq_true'] at hissue
    exact hissue.2
  · simp [hissue] at hstd

theorem accompanies_nextStage {s : MemPipeline} {i : MemPipeline.Inputs} {prev cur : MemStage}
    (hprev : Accompanies prev) (hcur : Accompanies cur) :
    Accompanies (s.nextStage i prev cur) := by
  rw [MemPipeline.nextStage]
  split_ifs
  · exact hcur.mask _
  · exact hprev.mask _

/-- The register of the instruction in WB, or of the uncached load there. -/
def wbWReg (t : MemCore) : Option Nat :=
  match t.pipeline.wb with
  | some std => if std.isStore then t.wb.uop.wReg else std.wReg
  | none => t.wb.uop.wReg

structure ResultPort (t : MemCore) : Prop where
  rrd : Accompanies t.pipeline.rrd
  memaddr : Accompanies t.pipeline.memaddr
  mem1 : Accompanies t.pipeline.mem1
  mem2 : Accompanies t.pipeline.mem2
  wb : t.wb.isValid = true → t.pipeline.wb.isSome = true →
    t.wb.uop.isStore = true ∧ t.wb.uop.isSC = false
  writeReg : t.wb.isValid = true ∨ t.pipeline.wb.isSome = true → t.wb.writeReg = t.wbWReg

theorem ResultPort.of_init (h : Init t) : t.ResultPort where
  rrd hvalid := by simp [h.pipeline.rrd.1] at hvalid
  memaddr hvalid := by simp [h.pipeline.memaddr.1] at hvalid
  mem1 hvalid := by simp [h.pipeline.mem1.1] at hvalid
  mem2 hvalid := by simp [h.pipeline.mem2.1] at hvalid
  wb hvalid := by simp [h.wb] at hvalid
  writeReg hvalid := by simp [h.wb, h.pipeline.wb] at hvalid

/-- WB receives what MEM2 holds, unless that is held. -/
theorem pipeline_wb_step : (t.step i).pipeline.wb =
    if t.pipeline.stuck2 (t.memInputs i) then none else t.pipeline.mem2.std := by
  simp only [MemCore.step, MemPipeline.step]

theorem wb_isValid_step : (t.step i).wb.isValid = t.departs i := rfl

theorem ResultPort.step (h : t.ResultPort) : (t.step i).ResultPort where
  rrd := accompanies_nextStage (accompanies_issStage _ _) h.rrd
  memaddr := accompanies_nextStage h.rrd h.memaddr
  mem1 := accompanies_nextStage h.memaddr h.mem1
  mem2 := by
    change Accompanies (t.pipeline.nextMem2 (t.memInputs i))
    rw [MemPipeline.nextMem2]
    split_ifs
    · exact h.mem2.mask _
    · intro hvalid
      cases hvalid
    · exact h.mem1.mask _
  wb hvalid hstd := by
    rw [wb_isValid_step, departs, Bool.and_eq_true, Bool.and_eq_true, Bool.not_eq_true'] at hvalid
    rw [pipeline_wb_step, hvalid.1.2, if_neg Bool.false_ne_true] at hstd
    exact h.mem2 hvalid.1.1 hstd
  writeReg hvalid := by
    have hmoves : t.pipeline.stuck2 (t.memInputs i) = false := by
      rcases hvalid with hwb | hstd
      · rw [wb_isValid_step, departs, Bool.and_eq_true, Bool.and_eq_true, Bool.not_eq_true'] at hwb
        exact hwb.1.2
      · rw [pipeline_wb_step] at hstd
        split_ifs at hstd with hstuck
        · cases hstd
        · exact eq_false_of_ne_true hstuck
    rw [wbWReg, pipeline_wb_step, hmoves, if_neg Bool.false_ne_true]
    rfl

/-- The entry of the instruction that WB writes a register for. -/
def wbIdx (t : MemCore) : Nat :=
  match t.pipeline.wb with
  | some std => if std.isStore then t.wb.uop.robIdx else std.robIdx
  | none => t.wb.uop.robIdx

/-- Where a write of WB comes from: from the instruction that it holds, or from the uncached
load of the head, which retires in this cycle. -/
inductive Source (t : MemCore) (i : Inputs) (n : Nat) : Prop
  | held (valid : t.wb.isValid = true) (kind : t.wb.uop.cached = true ∨ t.wb.uop.isSC = true)
    (number : n = t.wb.uop.number)
  | uncached (execute : t.core.fsm = .execute) (fires : t.fires i = true) (number : n = t.oldest)

/-- The write is that of an instruction in the reorder buffer. -/
structure WritesFor (t : MemCore) (i : Inputs) (addr n : Nat) : Prop where
  source : t.Source i n
  oldest_le : t.oldest ≤ n
  lt_next : n < t.next
  idx : t.idx n = t.wbIdx
  writes : (t.info n).uop.doRegWrite = true
  wReg : (t.info n).rename.wReg = addr

theorem wReg_requestOf {n p : Nat} (h : (t.requestOf n).wReg = some p) :
    (t.info n).uop.doRegWrite = true ∧ (t.info n).rename.wReg = p := by
  have hsome : (if (t.info n).uop.doRegWrite then some (t.info n).rename.wReg else none) = some p :=
    h
  split_ifs at hsome with hwrites
  exact ⟨hwrites, Option.some.inj hsome⟩

/-- The address of a write is the register of WB. -/
theorem wReg_of_regWrite {addr : Nat} {data : BWord} (h : t.regWrite i = some (addr, data)) :
    t.regFlush = false ∧
      ((t.wb.isValid = true ∧ (t.wb.uop.cached = true ∨ t.wb.uop.isSC = true)) ∨
        t.uncachedDone = true) ∧ ∃ r, t.wb.writeReg = some r ∧
          addr = if t.wb.isValid && t.wb.uop.isSC then t.wb.uop.wReg.getD r else r := by
  rw [regWrite] at h
  have hvalid : (((t.wb.isValid && (t.wb.uop.cached || t.wb.uop.isSC)) || t.uncachedDone) &&
      !t.regFlush) = true := by
    by_contra hno
    rw [if_neg hno] at h
    cases h
  rw [if_pos hvalid] at h
  simp only [Bool.and_eq_true, Bool.or_eq_true, Bool.not_eq_true'] at hvalid
  obtain ⟨r, hr, hpair⟩ := Option.map_eq_some_iff.mp h
  refine ⟨hvalid.2, hvalid.1, r, hr, ?_⟩
  split_ifs at hpair ⊢ <;> exact (congrArg Prod.fst hpair).symm

theorem writesFor {addr : Nat} {data : BWord} (h : t.LoadsInv) (hport : t.ResultPort)
    (hwrite : t.regWrite i = some (addr, data)) : ∃ n, t.WritesFor i addr n := by
  obtain ⟨hflushed, hkind, r, hr, haddr⟩ := wReg_of_regWrite hwrite
  have hcore := h.inStep.order.core
  cases hdone : t.uncachedDone with
  | true =>
    cases hwb : t.pipeline.wb with
    | none => simp [uncachedDone, hwb] at hdone
    | some e =>
      have hload : e.isStore = false := by simpa [uncachedDone, hwb] using hdone
      obtain ⟨u, hentry⟩ := h.oneLoad.wb h.inStep hwb hload
      have hlink : (t.wb.isValid && t.wb.uop.isSC) = false := by
        cases hvalid : t.wb.isValid with
        | false => rfl
        | true => rw [(hport.wb hvalid (by simp [hwb])).2, Bool.and_false]
      rw [hlink, if_neg Bool.false_ne_true] at haddr
      subst haddr
      have hpos : 0 < t.count :=
        (Ring.Pointers.popValid_iff (by decide)).mp hentry.shown.valid
      have hinfo : (t.core.ports 0).info = t.info t.oldest := by
        rw [info, idx, Nat.sub_self]
        exact hcore.popInfo 0 hpos
      have hreg : e.wReg = some addr := by
        rw [hport.writeReg (.inr (by simp [hwb])), wbWReg, hwb] at hr
        simpa [hload] using hr
      have hrequest : u.toMemRequest = t.requestOf t.oldest := by
        rw [requestOf, ← hinfo, idx, Nat.sub_self]
        exact hentry.shown.request
      have hwReg : (t.requestOf t.oldest).wReg = some addr := by
        rw [← hrequest]
        exact (congrArg StoreBufferSlot.wReg hentry.slot).symm.trans hreg
      obtain ⟨hwrites, hsame⟩ := wReg_requestOf hwReg
      refine ⟨t.oldest, .uncached hentry.execute ?_ rfl, le_rfl, Nat.lt_add_of_pos_right hpos, ?_,
        hwrites, hsame⟩
      · rw [(h.inStep.execute_step hentry.execute).1, hdone]
      · rw [wbIdx, hwb]
        simp only [hload, Bool.false_eq_true, if_false]
        exact (congrArg MemRequest.robIdx hrequest).symm.trans
          (congrArg StoreBufferSlot.robIdx hentry.slot).symm
  | false =>
    obtain ⟨hvalid, hkind⟩ := hkind.resolve_right (by simp [hdone])
    obtain ⟨done, hordered⟩ := h.inStep.order.ordered hflushed
    obtain ⟨hmem, hrequest⟩ :=
      hordered.mem_passed (List.mem_append_right done (mem_wbUops hvalid))
    obtain ⟨⟨hold, hlt⟩, -⟩ := mem_memNumbers.mp hmem
    have hstd : ∀ e, t.pipeline.wb = some e → e.isStore = true := by
      intro e hwb
      simpa [uncachedDone, hwb] using hdone
    have hreg : t.wb.uop.wReg = some r := by
      rw [hport.writeReg (.inl hvalid), wbWReg] at hr
      cases hwb : t.pipeline.wb with
      | none => simpa [hwb] using hr
      | some e => simpa [hwb, hstd e hwb] using hr
    have haddr : addr = r := by
      rw [haddr, hreg]
      split_ifs <;> rfl
    subst haddr
    have hwReg : (t.requestOf t.wb.uop.number).wReg = some addr := by
      rw [← hrequest]
      exact hreg
    obtain ⟨hwrites, hsame⟩ := wReg_requestOf hwReg
    refine ⟨t.wb.uop.number, .held hvalid hkind rfl, hold, hlt, ?_, hwrites, hsame⟩
    have hidx : t.wb.uop.robIdx = t.idx t.wb.uop.number := congrArg MemRequest.robIdx hrequest
    rw [← hidx, wbIdx]
    cases hwb : t.pipeline.wb with
    | none => rfl
    | some e => simp [hstd e hwb]

/-- The instruction that WB holds is written if it has a result. -/
theorem regWrite_of_held (hport : t.ResultPort) (hflushed : t.regFlush = false)
    (hvalid : t.wb.isValid = true) (hkind : t.wb.uop.cached = true ∨ t.wb.uop.isSC = true)
    (hyields : t.wb.uop.isStore = true → t.wb.uop.isSC = true) {p : Nat}
    (hp : t.wb.uop.wReg = some p) : ∃ data, t.regWrite i = some (p, data) := by
  have hwb : t.pipeline.wb = none := by
    by_contra hsome
    obtain ⟨hstore, hlink⟩ := hport.wb hvalid (Option.isSome_iff_ne_none.mpr hsome)
    rw [hyields hstore] at hlink
    cases hlink
  have hreg : t.wb.writeReg = some p := by
    rw [hport.writeReg (.inl hvalid), wbWReg, hwb, hp]
  have hcond : ((t.wb.isValid && (t.wb.uop.cached || t.wb.uop.isSC)) || t.uncachedDone) &&
      !t.regFlush := by
    rcases hkind with hkind | hkind <;> simp [hvalid, hkind, hflushed]
  rw [regWrite, if_pos hcond, hreg, Option.map_some, hp]
  split_ifs <;> exact ⟨_, rfl⟩

end MemCore

end NopCore
