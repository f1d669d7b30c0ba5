import NopCore.Core.InOrderRegisters

/-!
# Programs without store-conditional

When store data passes MEM1 beside an instruction, the busy bit of the register that comes
with the data is cleared, and not that of the instruction. A store brings no register but for
a store-conditional. So without one the store data never disturbs the busy bits, and what has
been shown for runs in which it does not holds of every run.
-/

namespace NopCore

/-- Only a store-conditional is a store with a result. -/
def DecodeSignals.StoreResult (s : DecodeSignals) : Prop :=
  s.isStore = true → s.isSC = false → s.isRegWrite = false

instance : DecidablePred DecodeSignals.StoreResult := fun _ =>
  inferInstanceAs (Decidable (_ → _ → _))

theorem Decoder.storeResult (inst : UWord) : (Decoder.signals inst).StoreResult :=
  Decoder.wellFormed.apply_of_lines (by decide) (by decide +kernel)

/-! ## What is in the store buffer -/

namespace StoreBuffer

variable {q : StoreBuffer} {P : StoreBufferSlot → Prop}

/-- Every access in the buffer has a property. -/
def All (P : StoreBufferSlot → Prop) (q : StoreBuffer) : Prop :=
  ∀ j, q.valid j = true → P (q.slot j)

/-- It is enough that the accesses have it that are pushed and not flushed at once. -/
theorem All.queueNext (hmark : ∀ e, P e → P (e.mark true)) (h : q.All P)
    {commitStore flush : Bool} {push : Option StoreBufferSlot}
    (hpush : ∀ p ∈ push, (flush && !p.retired) = false → P p) :
    (q.queueNext commitStore push flush).All P := by
  intro j hvalid
  have hmarked : q.valid j = true →
      P (if commitStore && q.retireFall j then (q.slot j).mark true else q.slot j) := by
    intro hold
    split_ifs
    · exact hmark _ (h j hold)
    · exact h j hold
  cases push with
  | none =>
    have hold : q.valid j = true := by
      simp only [StoreBuffer.queueNext, Bool.and_eq_true] at hvalid
      simpa using hvalid.1
    exact hmarked hold
  | some p =>
    cases hfall : q.validFall j with
    | true =>
      have hkept : (flush && !p.retired) = false := by
        simp only [StoreBuffer.queueNext, hfall, Bool.and_eq_true, if_true] at hvalid
        rw [← Bool.not_eq_true']
        exact hvalid.2
      simpa [StoreBuffer.queueNext, hfall] using hpush p rfl hkept
    | false =>
      have hold : q.valid j = true := by
        simp only [StoreBuffer.queueNext, hfall, Bool.and_eq_true] at hvalid
        simpa using hvalid.1
      simpa [StoreBuffer.queueNext, hfall] using hmarked hold

theorem All.step (hmark : ∀ e, P e → P (e.mark true)) (h : q.All P)
    {commitStore flush pop : Bool} {push : Option StoreBufferSlot}
    (hpush : ∀ p ∈ push, (flush && !p.retired) = false → P p) :
    (q.step commitStore push flush pop).All P := by
  have hnext : (q.queueNext commitStore push flush).All P := h.queueNext hmark hpush
  unfold StoreBuffer.step
  split_ifs
  · intro j hvalid
    simp only at hvalid ⊢
    split_ifs at hvalid ⊢
    exact hnext _ hvalid
  · exact hnext

end StoreBuffer

namespace MemPipeline

variable {s : MemPipeline} {i : Inputs} {P : StoreBufferSlot → Prop}

/-- So has the store data in front of MEM2. -/
structure StoreData (P : StoreBufferSlot → Prop) (s : MemPipeline) : Prop where
  buffer : s.storeBuffer.All P
  rrd : ∀ e ∈ s.rrd.std, P e
  memaddr : ∀ e ∈ s.memaddr.std, P e
  mem1 : ∀ e ∈ s.mem1.std, P e

theorem StoreData.of_init (h : s.Init) : s.StoreData P where
  buffer j hvalid := by simp [h.storeBuffer] at hvalid
  rrd := by simp [h.rrd.2]
  memaddr := by simp [h.memaddr.2]
  mem1 := by simp [h.mem1.2]

theorem std_nextStage {prev cur : MemStage} (hprev : ∀ e ∈ prev.std, P e)
    (hcur : ∀ e ∈ cur.std, P e) : ∀ e ∈ (s.nextStage i prev cur).std, P e := by
  rw [nextStage]
  split_ifs
  · exact hcur
  · exact hprev

theorem StoreData.step (hmark : ∀ e, P e → P (e.mark true)) (h : s.StoreData P)
    (hpush : ∀ p ∈ s.push i, (i.flush && !p.retired) = false → P p) :
    (s.step i).StoreData P where
  buffer := h.buffer.step hmark hpush
  rrd := by
    refine std_nextStage (fun e he => ?_) h.rrd
    rw [issStage, Option.mem_def] at he
    split_ifs at he with hissue
    obtain rfl := Option.some.inj he
    simp only [stdValid, Bool.and_eq_true] at hissue
    exact h.buffer 0 hissue.1.1
  memaddr := std_nextStage h.rrd h.memaddr
  mem1 := std_nextStage h.memaddr h.mem1

end MemPipeline

/-! ## The core -/

namespace OperandCore

variable {useEarlyOut : Bool} {s : OperandCore} {i : Inputs}

/-- No store-conditional is decoded. -/
def Unconditional (_ : OperandCore) (i : Inputs) : Prop :=
  ∀ entry ∈ i.entries, (Decoder.signals entry.inst).isSC = false

instance : DecidableRel Unconditional := fun _ i =>
  inferInstanceAs (Decidable (∀ entry ∈ i.entries, (Decoder.signals entry.inst).isSC = false))

/-- A store brings no register. -/
def Registerless (e : StoreBufferSlot) : Prop := e.isStore = true → e.wReg = none

structure NoLink (s : OperandCore) : Prop where
  carries : s.wakeup.dispatch.Carries fun uop => uop.isSC = false
  data : s.memory.pipeline.StoreData Registerless

theorem NoLink.of_init (h : s.Init) : s.NoLink where
  carries := .of_init h.wakeup.dispatch
  data := .of_init h.memory.pipeline

/-- What MEM2 pushes is a load, or it brings no register. -/
theorem NoLink.push (h : s.NoLink) (hjoined : s.Joined) {p : StoreBufferSlot}
    (hp : p ∈ s.memory.pipeline.push (s.memInputs i))
    (hkept : (s.memory.regFlush && !p.retired) = false) : Registerless p := by
  simp only [MemPipeline.push, Option.mem_def] at hp
  split_ifs at hp with hpush
  obtain rfl := Option.some.inj hp
  have hclear : s.memory.regFlush = false := by simpa [MemPipeline.pushSlot] using hkept
  have hvalid : s.memory.pipeline.mem2.isValid = true := by
    simp only [MemPipeline.pushValid, Bool.and_eq_true] at hpush
    exact hpush.1.1.1
  obtain ⟨done, hordered⟩ := hjoined.memory.inStep.order.ordered hclear
  obtain ⟨hnumber, hrequest⟩ := hordered.mem_requests
    (r := s.memory.pipeline.uop2.toMemRequest) (by
      apply List.mem_append_right
      simp [MemCore.pipeRequests, MemCore.stageRequests, hvalid, MemPipeline.uop2])
  obtain ⟨⟨hge, hlt⟩, -⟩ := MemCore.mem_memNumbers.mp hnumber
  obtain ⟨d, hd, -, hinfo⟩ := hjoined.exists_of_number hge hlt
  intro hstore
  have hstore : s.memory.pipeline.uop2.toMemRequest.isStore = true := hstore
  change s.memory.pipeline.uop2.toMemRequest.wReg = none
  rw [hrequest, MemCore.requestOf, MemCore.request, hinfo] at hstore ⊢
  obtain ⟨plv, entry, heq⟩ := hjoined.decoded.renamed d (List.mem_of_getElem? hd)
  have hlink : d.uop.isSC = false := h.carries.renamed d (List.mem_of_getElem? hd)
  have hwrites : d.uop.doRegWrite = false := by
    have hstore : d.uop.isStore = true := hstore
    rw [heq] at hstore hlink ⊢
    have hresult := Decoder.storeResult entry.inst hstore hlink
    change ((Decoder.signals entry.inst).isRegWrite && _) = false
    rw [hresult, Bool.false_and]
  have hnot : ¬ d.pushPort.info.uop.doRegWrite = true :=
    fun hset => Bool.false_ne_true (hwrites.symm.trans hset)
  exact if_neg hnot

theorem NoLink.step (h : s.NoLink) (hjoined : s.Joined) (hi : s.Unconditional i) :
    (s.step useEarlyOut i).NoLink where
  carries := by
    refine h.carries.step hjoined.dispatch ?_
    intro uop huop
    obtain ⟨entry, hentry, rfl⟩ := List.mem_map.mp huop
    exact hi entry hentry
  data := h.data.step (fun e he => he) fun _ hp hkept => h.push hjoined hp hkept

/-- Store data clears no busy bit. -/
theorem NoLink.undisturbed (h : s.NoLink) (i : Inputs) : s.Undisturbed i := by
  intro std hstd hstore p hp
  have hnone := h.data.mem1 std hstd hstore
  rw [Option.mem_def] at hstd hp
  rw [mem1ClrBusy, hstd] at hp
  dsimp only at hp
  split_ifs at hp
  rw [hnone] at hp
  cases hp

/-- A run without store-conditional is undisturbed. -/
theorem undisturbed_of_reachable (h : ((machine useEarlyOut).restrict Unconditional).Reachable s) :
    ((machine useEarlyOut).restrict Undisturbed).Reachable s ∧ s.NoLink := by
  induction h with
  | reset h => exact ⟨.reset h, .of_init h⟩
  | edge _ hi ih =>
    obtain ⟨hreachable, hlink⟩ := ih
    have hjoined := (sequenced_of_reachable hreachable).joined
    exact ⟨.edge hreachable ⟨hi.1, hlink.undisturbed _⟩, hlink.step hjoined hi.2⟩

/-- So a program without store-conditional runs as the sequential machine does. -/
theorem unconditional_inOrder
    (h : ((machine useEarlyOut).restrict Unconditional).Reachable s) {is : List Inputs}
    (his : ((machine useEarlyOut).restrict Unconditional).Legal s is) :
    (∀ i, s.Undisturbed i) ∧
      Clocked.Steps MicroOp.Executes ((machine useEarlyOut).does (executed useEarlyOut) s is)
        s.archRegs ((machine useEarlyOut).run s is).archRegs := by
  refine ⟨(undisturbed_of_reachable h).2.undisturbed, ?_⟩
  have hrun := Clocked.Machine.steps_run
    (fun s i hs (hi : ((machine useEarlyOut).restrict Unconditional).legal s i) =>
      (sequenced_of_reachable (undisturbed_of_reachable hs).1).steps hi.1) h his
  rwa [Clocked.Machine.restrict_run, Clocked.Machine.does_restrict] at hrun

theorem unconditional_inOrder_doubled :
    (∀ i, atReset.Undisturbed i) ∧
      Clocked.Steps MicroOp.Executes ((machine true).does (executed true) atReset doubled)
        atReset.archRegs ((machine true).run atReset doubled).archRegs :=
  unconditional_inOrder (.reset init_atReset) (by decide +kernel)

end OperandCore

end NopCore
