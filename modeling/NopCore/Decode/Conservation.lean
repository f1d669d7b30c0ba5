import NopCore.Decode.Group

/-!
# Conservation of physical registers

Every physical register is in exactly one place: free, the destination of an
instruction in flight, or the mapping of an architectural register. The ring
makes this visible. An instruction pops its destination from a slot of the free
list and, when it retires, pushes the register it replaces to the same slot, so
the slots outside the queue hold the destinations of what is in flight. That is
why a flush only has to move one pointer.

The stage refines the abstract renaming state of `Renaming.State`, whose three
operations create and lose no register.
-/

namespace NopCore

open Rename

/-! ## The invariant -/

namespace RenameStage

/-- The architectural registers that are mapped. -/
def archRegs : List Nat := List.range' 1 (nArchRegs - 1)

/-- The physical registers that take part in renaming. -/
def physRegs : List Nat := List.range' 1 nPhysRegs

theorem mem_archRegs {a : Nat} : a ∈ archRegs ↔ 1 ≤ a ∧ a < nArchRegs := by
  simp [archRegs, nArchRegs]

variable (s : RenameStage)

/-- The instructions that own a destination register, from the oldest on. -/
def live : List PushPort := s.flushed ++ s.inFlight

/-- The stage as an abstract renaming state. -/
def abs : Renaming.State Nat Nat where
  free := s.freeList.contents freeListDepth
  pending := writes s.live
  map := ratRead s.aRAT

structure Inv : Prop where
  range : s.freeList.ptr.InRange freeListDepth
  shown : s.isValid = true → s.freeList.Shown freeListDepth
  decoded : s.isValid = true → Decoded s.decPacket
  ok : s.abs.Ok archRegs
  outside : s.freeList.outside freeListDepth = s.abs.pending.map Renaming.Write.new
  registers : (s.abs.registers archRegs).Perm physRegs
  speculative : s.regFlush = false → ratRead s.sRAT = s.abs.speculative
  idle : s.regFlush = true → s.isValid = false ∧ s.inFlight = []
  settled : s.regFlush = false → s.flushed = []

theorem inv_of_init {s : RenameStage} (h : s.Init) : s.Inv := by
  have hlive : s.live = [] := by rw [live, h.flushed, h.inFlight]; rfl
  have hrat : ratRead s.aRAT = fun a => a := by
    funext a
    simp only [ratRead, h.aRAT]
    split_ifs with ha
    · exact ha.symm
    · omega
  have hcount : s.freeList.ptr.count freeListDepth = freeListDepth := by rw [h.ptr]; rfl
  have hcontents : s.freeList.contents freeListDepth = List.range' nArchRegs freeListDepth := by
    rw [MultiPortFIFOVecOutReg.contents, hcount, h.ptr, h.dataVec]
    decide
  refine ⟨?_, ?_, ?_, ?_, ?_, ?_, ?_, ?_, ?_⟩
  · rw [h.ptr]
    exact ⟨by decide, by decide⟩
  · intro hv
    rw [h.isValid] at hv
    cases hv
  · intro hv
    rw [h.isValid] at hv
    cases hv
  · exact ⟨by simp [abs, hlive], by simp [abs, hlive]⟩
  · rw [MultiPortFIFOVecOutReg.outside, hcount]
    simp [abs, hlive]
  · have hreg : s.abs.registers archRegs = List.range' nArchRegs freeListDepth ++ archRegs := by
      simp [abs, Renaming.State.registers, Renaming.mapped, hlive, hcontents, hrat]
    rw [hreg]
    exact List.perm_append_comm
  · intro _
    rw [abs, Renaming.State.speculative, hlive, h.sRAT, h.aRAT]
    rfl
  · intro hf
    rw [h.regFlush] at hf
    cases hf
  · intro _
    exact h.flushed

/-! ## A cycle without recovery -/

section Cycle

variable {s : RenameStage} {i : Inputs}

theorem live_step : (s.step i).live = s.remaining i ++ s.issued i := by
  simp only [live, step]
  split_ifs <;> simp

theorem writes_retired :
    writes (s.retired i) = (writes s.inFlight).take (writes (s.retired i)).length := by
  rw [retired]
  split_ifs
  · simp
  · exact (writes_take _ _).symm

theorem writes_remaining :
    writes (s.remaining i) = (writes s.inFlight).drop (writes (s.retired i)).length := by
  rw [remaining, retired]
  split_ifs
  · simp
  · exact (writes_drop _ _).symm

theorem prevAddr_arfCommits : (s.arfCommits i).map RegFileMapping.prevAddr =
    (writes (s.retired i)).map Renaming.Write.old := prevAddr_mappings _

theorem length_retired (hi : s.Legal i) : (writes (s.retired i)).length ≤ retireWidth := by
  have hwidth := hi.width
  rw [writes, List.length_map]
  refine (List.length_filter_le _ _).trans ?_
  rw [retired]
  split_ifs
  · exact Nat.zero_le _
  · rw [List.length_take]
    omega

theorem ports_valid (hfire : s.isValidNotStuck i = true) :
    s.isValid = true ∧ s.noFreeRegs = false := by
  simp only [isValidNotStuck, isStuck, Bool.and_eq_true, Bool.not_eq_true', Bool.or_eq_false_iff]
    at hfire
  exact ⟨hfire.1, hfire.2.2⟩

theorem length_writePorts (payload : Nat → Nat) (older : List RegRename)
    (group : List (Option MicroOp)) : (writePorts payload older group).length = group.length := by
  induction group generalizing older with
  | nil => rfl
  | cons uop group ih => simp [writePorts, ih]

theorem popReady_le_width (h : s.Inv) : s.popReady i ≤ decodeWidth := by
  rw [popReady]
  split_ifs with hfire
  · refine List.countP_le_length.trans ?_
    rw [ports, length_writePorts]
    exact (h.decoded (ports_valid hfire).1).width
  · exact Nat.zero_le _

/-- A group is renamed only when every register it needs is in the queue. -/
theorem popReady_le_count (h : s.Inv) : s.popReady i ≤ s.freeList.ptr.count freeListDepth := by
  have hwidth := popReady_le_width (i := i) h
  rw [popReady] at hwidth ⊢
  split_ifs at hwidth ⊢ with hfire
  · obtain ⟨hvalid, hfree⟩ := ports_valid hfire
    by_contra hlt
    have hk : s.ports.countP RegRename.valid - 1 < s.ports.countP RegRename.valid := by omega
    obtain ⟨p, hp, hpv, hidx⟩ :=
      @popIdx_writePorts s.freeList.popPayload [] s.decPacket _ hk
    have hnone : s.freeList.ptr.popValid freeListDepth p.popIdx = false := by
      have hlast : ¬ p.popIdx < s.freeList.ptr.count freeListDepth := by
        rw [hidx, List.countP_nil]
        omega
      have hin : p.popIdx < freeListDepth := by
        rw [hidx, List.countP_nil]
        have hdepth : freeListDepth = 32 := rfl
        have hdec : decodeWidth = 3 := rfl
        omega
      rw [← Ring.Pointers.popValid_iff hin] at hlast
      simpa using hlast
    have hmust : s.noFreeRegs = true := by
      rw [noFreeRegs, hvalid, Bool.true_and, List.any_eq_true]
      exact ⟨p, hp, by simp [hpv, hnone]⟩
    rw [hfree] at hmust
    cases hmust
  · exact Nat.zero_le _

theorem new_issued (h : s.Inv) : (writes (s.issued i)).map Renaming.Write.new =
    (s.freeList.contents freeListDepth).take (s.popReady i) := by
  have hcount := popReady_le_count (i := i) h
  rw [issued]
  rw [popReady] at hcount ⊢
  split_ifs at hcount ⊢ with hfire
  · rw [new_renamed, MultiPortFIFOVecOutReg.contents, Ring.window_take _ _ hcount]
    refine List.map_congr_left fun k hk => ?_
    have hlt : k < s.freeList.ptr.count freeListDepth :=
      Nat.lt_of_lt_of_le (List.mem_range.mp hk) hcount
    rw [List.countP_nil, Nat.zero_add]
    exact h.shown (ports_valid hfire).1 k hlt
  · rfl

theorem length_issued (h : s.Inv) : (writes (s.issued i)).length = s.popReady i := by
  have hlen := congrArg List.length (new_issued (i := i) h)
  rw [List.length_map, List.length_take, MultiPortFIFOVecOutReg.length_contents,
    Nat.min_eq_left (popReady_le_count h)] at hlen
  exact hlen

/-- Retired writes are accepted: each pushes to a slot that its own destination
occupies. -/
theorem length_retired_le (h : s.Inv) (hflush : s.regFlush = false) :
    (writes (s.retired i)).length ≤ freeListDepth - s.freeList.ptr.count freeListDepth := by
  have hout := congrArg List.length h.outside
  rw [MultiPortFIFOVecOutReg.length_outside, List.length_map, abs, live,
    h.settled hflush, List.nil_append] at hout
  rw [hout, writes_retired, List.length_take]
  exact Nat.min_le_right _ _

theorem accepted_retired (h : s.Inv) (hflush : s.regFlush = false) :
    s.freeList.accepted freeListDepth ((s.arfCommits i).map RegFileMapping.prevAddr) =
      (writes (s.retired i)).map Renaming.Write.old := by
  rw [prevAddr_arfCommits, MultiPortFIFOVecOutReg.accepted]
  refine List.take_of_length_le ?_
  rw [List.length_map]
  exact length_retired_le h hflush

theorem taken_popReady (h : s.Inv) :
    s.freeList.taken freeListDepth (s.popReady i) = s.popReady i :=
  Nat.min_eq_left (popReady_le_count h)

theorem length_arfCommits_le (hi : s.Legal i) :
    ((s.arfCommits i).map RegFileMapping.prevAddr).length ≤ freeListDepth := by
  have hle := length_retired hi
  rw [prevAddr_arfCommits, List.length_map]
  exact hle.trans (by decide)

theorem popReady_le_depth (h : s.Inv) : s.popReady i ≤ freeListDepth :=
  (popReady_le_width h).trans (by decide)

/-- A cycle without recovery commits the retired writes and makes the new ones. -/
theorem abs_step (h : s.Inv) (hi : s.Legal i) (hflush : s.regFlush = false) :
    (s.step i).abs =
      (s.abs.commit (writes (s.retired i)).length).allocate (writes (s.issued i)) := by
  have hfree : (s.step i).freeList = s.nextFreeList i := by simp [step, hflush]
  have hpending : s.abs.pending = writes s.inFlight := by
    rw [abs, live, h.settled hflush]
    rfl
  have hold : s.abs.pending.take (writes (s.retired i)).length = writes (s.retired i) := by
    rw [hpending, ← writes_retired]
  have hdst : ∀ w ∈ writes (s.retired i), 1 ≤ w.dst := by
    intro w hw
    rw [← hold] at hw
    exact (mem_archRegs.mp (h.ok.dst w (List.mem_of_mem_take hw))).1
  rw [Renaming.State.allocate, Renaming.State.commit, hold, hpending, abs, live_step,
    writes_append, writes_remaining, hfree]
  congr 1
  · rw [nextFreeList, MultiPortFIFOVecOutReg.contents_step h.range (length_arfCommits_le hi)
      (popReady_le_depth h), accepted_retired h hflush, taken_popReady h, length_issued h]
    rfl
  · exact ratRead_commitRAT _ hdst

theorem outside_step (h : s.Inv) (hi : s.Legal i) (hflush : s.regFlush = false) :
    (s.step i).freeList.outside freeListDepth =
      (s.step i).abs.pending.map Renaming.Write.new := by
  have hfree : (s.step i).freeList = s.nextFreeList i := by simp [step, hflush]
  rw [abs_step h hi hflush, hfree, nextFreeList,
    MultiPortFIFOVecOutReg.outside_step h.range (length_arfCommits_le hi) (popReady_le_depth h),
    accepted_retired h hflush, taken_popReady h, h.outside, List.length_map, ← new_issued h]
  simp [Renaming.State.allocate, Renaming.State.commit]

theorem chained_issued (h : s.Inv) (hflush : s.regFlush = false) :
    Renaming.Chained s.abs.speculative (writes (s.issued i)) := by
  rw [issued]
  split_ifs with hfire
  · rw [← h.speculative hflush]
    exact @chained_renamed s.sRAT s.freeList.popPayload [] s.decPacket
  · trivial

theorem dst_issued (h : s.Inv) : ∀ w ∈ writes (s.issued i), w.dst ∈ archRegs := by
  intro w hw
  rw [issued] at hw
  split_ifs at hw with hfire
  · exact mem_archRegs.mpr (dst_renamed (h.decoded (ports_valid hfire).1).wbAddr w hw)
  · cases hw

theorem speculative_step (h : s.Inv) (hi : s.Legal i) (hflush : s.regFlush = false) :
    ratRead (s.step i).sRAT = (s.step i).abs.speculative := by
  have hsRAT : (s.step i).sRAT =
      if s.isValidNotStuck i then writeRAT s.sRAT s.ports else s.sRAT := by
    simp [step, hflush]
  rw [abs_step h hi hflush, Renaming.State.speculative_allocate,
    Renaming.State.speculative_commit, ← h.speculative hflush, hsRAT, issued]
  split_ifs with hfire
  · rw [ports, ratRead_writeRAT _
      (addr_writePorts (h.decoded (ports_valid hfire).1).wbAddr)]
    exact (@apply_renamed s.sRAT s.freeList.popPayload [] s.decPacket).symm
  · rfl

theorem isValid_step (hv : (s.step i).isValid = true) :
    (s.isStuck i = true ∧ s.isValid = true) ∨ (s.isStuck i = false ∧ i.nextValid = true) := by
  simp only [step] at hv
  split_ifs at hv with hflush hstuck
  · exact .inl ⟨hstuck, hv⟩
  · exact .inr ⟨by simpa using hstuck, hv⟩

theorem decoded_step (h : s.Inv) (hi : s.Legal i) (hv : (s.step i).isValid = true) :
    Decoded (s.step i).decPacket := by
  rcases isValid_step hv with ⟨hstuck, hvalid⟩ | ⟨hmoves, hnext⟩
  · have hkeep : (s.step i).decPacket = s.decPacket := by simp [step, hstuck]
    rw [hkeep]
    exact h.decoded hvalid
  · have hload : (s.step i).decPacket = i.nextPacket := by simp [step, hmoves]
    rw [hload]
    exact hi.decoded hnext

theorem registers_step (h : s.Inv) (hi : s.Legal i) (hflush : s.regFlush = false) :
    ((s.step i).abs.registers archRegs).Perm physRegs := by
  have hnew : (writes (s.issued i)).map Renaming.Write.new =
      (s.abs.commit (writes (s.retired i)).length).free.take (writes (s.issued i)).length := by
    have hle : s.popReady i ≤ (s.freeList.contents freeListDepth).length := by
      rw [MultiPortFIFOVecOutReg.length_contents]
      exact popReady_le_count h
    rw [new_issued h, length_issued h]
    exact (List.take_append_of_le_length hle).symm
  rw [abs_step h hi hflush]
  exact ((Renaming.State.registers_allocate hnew).trans
    (Renaming.State.registers_commit h.ok (List.nodup_range' 1) _)).trans h.registers

theorem inv_step (h : s.Inv) (hi : s.Legal i) (hflush : s.regFlush = false) :
    (s.step i).Inv := by
  have hfree : (s.step i).freeList = s.nextFreeList i := by simp [step, hflush]
  have hok : (s.step i).abs.Ok archRegs := by
    rw [abs_step h hi hflush]
    refine (h.ok.commit _).allocate ?_ (dst_issued h)
    rw [Renaming.State.speculative_commit]
    exact chained_issued h hflush
  refine ⟨?_, ?_, decoded_step h hi, hok, outside_step h hi hflush, registers_step h hi hflush,
    fun _ => speculative_step h hi hflush, ?_, ?_⟩
  · rw [hfree]
    exact MultiPortFIFOVecOutReg.inRange_step h.range (length_arfCommits_le hi)
      (popReady_le_depth h)
  · intro _
    rw [hfree]
    exact MultiPortFIFOVecOutReg.shown_step h.range (length_arfCommits_le hi)
      (popReady_le_depth h)
  · intro hneed
    have hneed : i.needFlush = true := hneed
    simp [step, hneed]
  · intro hneed
    have hneed : i.needFlush = false := hneed
    simp [step, hneed]

end Cycle

/-! ## The recovery cycle -/

section Recovery

variable {s : RenameStage} {i : Inputs}

/-- Nothing retires and nothing is renamed while the stage recovers. -/
structure Quiet (s : RenameStage) (i : Inputs) : Prop where
  needFlush : i.needFlush = false
  retired : s.retired i = []
  remaining : s.remaining i = []
  issued : s.issued i = []
  popReady : s.popReady i = 0

theorem quiet_of_regFlush (h : s.Inv) (hi : s.Legal i) (hflush : s.regFlush = true) :
    s.Quiet i := by
  obtain ⟨hvalid, hempty⟩ := h.idle hflush
  have hnone : i.retire = 0 := by
    have hle := hi.retire
    rw [hempty, List.length_nil] at hle
    omega
  refine ⟨?_, ?_, ?_, ?_, ?_⟩
  · by_contra hneed
    have hpos := hi.flush_retires (by simpa using hneed)
    omega
  · simp [retired, hempty]
  · simp [remaining, hempty]
  · simp [issued, isValidNotStuck, hvalid]
  · simp [popReady, isValidNotStuck, hvalid]

theorem arfCommits_of_quiet (hq : s.Quiet i) : s.arfCommits i = [] := by
  rw [arfCommits, hq.retired]
  rfl

/-- The free list after recovery: the same memory, full from the pop pointer on. -/
theorem freeList_recover (h : s.Inv) (hq : s.Quiet i) (hflush : s.regFlush = true) :
    (s.step i).freeList.dataVec = s.freeList.dataVec ∧
      (s.step i).freeList.ptr =
        { push := s.freeList.ptr.pop, pop := s.freeList.ptr.pop, rising := true } ∧
      (s.step i).freeList.Shown freeListDepth := by
  have hnext : (s.step i).freeList = s.freeList.recover (s.freeList.step freeListDepth [] 0) := by
    simp [step, hflush, nextFreeList, arfCommits_of_quiet hq, hq.popReady]
  have hwrite : ∀ idx, s.freeList.writeAt freeListDepth [] idx = none := by
    intro idx
    simp [MultiPortFIFOVecOutReg.writeAt, MultiPortFIFOVecOutReg.pushFire]
  have hpop : (s.freeList.step freeListDepth [] 0).ptr.pop = s.freeList.ptr.pop := by
    have hslot := Ring.slot_zero h.range.pop
    exact hslot
  have hdata : (s.freeList.step freeListDepth [] 0).dataVec = s.freeList.dataVec := by
    funext idx
    simp [MultiPortFIFOVecOutReg.step, hwrite]
  rw [hnext]
  refine ⟨hdata, ?_, ?_⟩
  · simp [MultiPortFIFOVecOutReg.recover, hpop]
  · intro j _
    have hpayload : (s.freeList.step freeListDepth [] 0).popPayload j =
        s.freeList.dataVec (Ring.slot freeListDepth
          (s.freeList.step freeListDepth [] 0).ptr.pop j) := by
      simp only [MultiPortFIFOVecOutReg.step, hwrite, Option.getD_none, ite_self]
      rfl
    exact hpayload.trans (congrFun hdata.symm _)

theorem abs_recover (h : s.Inv) (hi : s.Legal i) (hflush : s.regFlush = true) :
    (s.step i).abs = s.abs.discard := by
  have hq := quiet_of_regFlush h hi hflush
  obtain ⟨hdata, hptr, -⟩ := freeList_recover h hq hflush
  have hcontents : (s.step i).freeList.contents freeListDepth =
      s.freeList.contents freeListDepth ++ s.freeList.outside freeListDepth := by
    rw [MultiPortFIFOVecOutReg.contents_append_outside h.range, MultiPortFIFOVecOutReg.contents,
      hdata, hptr]
    simp [Ring.Pointers.count]
  rw [abs, live_step, hq.remaining, hq.issued, hcontents, h.outside]
  have haRAT : (s.step i).aRAT = s.aRAT := by
    simp [step, arfCommits_of_quiet hq, commitRAT]
  rw [haRAT]
  rfl

theorem inv_recover (h : s.Inv) (hi : s.Legal i) (hflush : s.regFlush = true) :
    (s.step i).Inv := by
  have hq := quiet_of_regFlush h hi hflush
  have habs := abs_recover h hi hflush
  obtain ⟨hdata, hptr, hshown⟩ := freeList_recover h hq hflush
  have hfull : (s.step i).freeList.ptr.count freeListDepth = freeListDepth := by
    rw [hptr]
    simp [Ring.Pointers.count]
  have hregFlush : (s.step i).regFlush = false := hq.needFlush
  refine ⟨?_, fun _ => hshown, decoded_step h hi, ?_, ?_, ?_, ?_, ?_, ?_⟩
  · rw [hptr]
    exact ⟨h.range.pop, h.range.pop⟩
  · rw [habs]
    exact Renaming.State.Ok.discard _ _
  · rw [MultiPortFIFOVecOutReg.outside, hfull, habs]
    simp [Renaming.State.discard]
  · rw [habs]
    exact Renaming.State.registers_discard.trans h.registers
  · intro _
    have hsRAT : (s.step i).sRAT = s.aRAT := by simp [step, hflush]
    rw [habs, hsRAT]
    rfl
  · intro hneed
    rw [hregFlush] at hneed
    cases hneed
  · intro _
    simp [step, hq.needFlush]

end Recovery

theorem inv_of_reachable {s : RenameStage} (h : machine.Reachable s) : s.Inv := by
  refine Clocked.Machine.invariant (fun _ => inv_of_init) ?_ h
  intro s i hinv hi
  cases hflush : s.regFlush with
  | false => exact inv_step hinv hi hflush
  | true => exact inv_recover hinv hi hflush

/-! ## Conservation -/

/-- The destination registers of the instructions in flight, in program order,
until the recovery cycle with those just flushed. -/
def liveRegs (s : RenameStage) : List Nat :=
  (s.live.filter fun p => p.uop.doRegWrite).map fun p => p.rename.wReg

/-- The slots of the free list and the entries of `aRAT` hold every physical
register once. The slots outside the queue hold the destinations in flight. No
register is at once free, in flight or mapped, or any of these twice. Every
commit is accepted. After the recovery cycle the tables agree and the free list
is full, with everything that is not mapped. -/
structure Conserved (s : RenameStage) : Prop where
  registers : ((List.range freeListDepth).map s.freeList.dataVec ++
    (List.range (nArchRegs - 1)).map s.aRAT).Perm (List.range' 1 nPhysRegs)
  outside : s.freeList.outside freeListDepth = s.liveRegs
  exclusive : (s.freeList.contents freeListDepth ++ s.liveRegs ++
    (List.range (nArchRegs - 1)).map s.aRAT).Nodup
  accepted : ∀ i, s.Legal i → ∀ k < (s.arfCommits i).length,
    s.freeList.ptr.pushReady freeListDepth k = true
  recovered : ∀ i, s.Legal i → s.regFlush = true →
    (s.step i).sRAT = (s.step i).aRAT ∧
      (s.step i).freeList.ptr.isFull = true ∧
      ((s.step i).freeList.contents freeListDepth ++
        (List.range (nArchRegs - 1)).map (s.step i).aRAT).Perm (List.range' 1 nPhysRegs)

theorem mapped_ratRead (rat : Nat → Nat) :
    Renaming.mapped archRegs (ratRead rat) = (List.range (nArchRegs - 1)).map rat := by
  rw [Renaming.mapped, archRegs, List.range'_eq_map_range, List.map_map]
  refine List.map_congr_left fun k _ => ?_
  simp [ratRead]

theorem liveRegs_eq (s : RenameStage) :
    s.liveRegs = s.abs.pending.map Renaming.Write.new := by
  simp [liveRegs, abs, writes, Function.comp_def, PushPort.write]

theorem registers_eq (s : RenameStage) : s.abs.registers archRegs =
    s.freeList.contents freeListDepth ++ s.liveRegs ++
      (List.range (nArchRegs - 1)).map s.aRAT := by
  rw [liveRegs_eq, ← mapped_ratRead]
  rfl

theorem pushReady_of_inv {s : RenameStage} {i : Inputs} (h : s.Inv) (hi : s.Legal i) {k : Nat}
    (hk : k < (s.arfCommits i).length) : s.freeList.ptr.pushReady freeListDepth k = true := by
  have hlen : (s.arfCommits i).length = (writes (s.retired i)).length := by
    simp [arfCommits, writes]
  have hroom : (writes (s.retired i)).length ≤
      freeListDepth - s.freeList.ptr.count freeListDepth := by
    cases hflush : s.regFlush with
    | false => exact length_retired_le h hflush
    | true =>
      rw [(quiet_of_regFlush h hi hflush).retired]
      exact Nat.zero_le _
  have hcount := Ring.Pointers.count_le h.range
  rw [Ring.Pointers.pushReady_iff h.range (by omega)]
  omega

theorem conservation {s : RenameStage} (h : machine.Reachable s) : s.Conserved := by
  have hinv := inv_of_reachable h
  refine ⟨?_, ?_, ?_, fun i hi k hk => pushReady_of_inv hinv hi hk, ?_⟩
  · have hslots := MultiPortFIFOVecOutReg.contents_append_outside_perm hinv.range
    rw [hinv.outside, ← liveRegs_eq] at hslots
    have hall := hinv.registers
    rw [registers_eq] at hall
    exact (hslots.symm.append_right _).trans hall
  · rw [hinv.outside, liveRegs_eq]
  · rw [← registers_eq]
    exact hinv.registers.nodup_iff.mpr (List.nodup_range' 1)
  · intro i hi hflush
    have hq := quiet_of_regFlush hinv hi hflush
    have hnext := inv_recover hinv hi hflush
    obtain ⟨-, hptr, -⟩ := freeList_recover hinv hq hflush
    have hlive : (s.step i).liveRegs = [] := by
      rw [liveRegs, live_step, hq.remaining, hq.issued]
      rfl
    have hall := hnext.registers
    rw [registers_eq, hlive, List.append_nil] at hall
    refine ⟨?_, ?_, hall⟩
    · simp [step, hflush, arfCommits_of_quiet hq, commitRAT]
    · rw [hptr]
      simp [Ring.Pointers.isFull]

instance (group : List (Option MicroOp)) : Decidable (Decoded group) :=
  decidable_of_iff
    (group.length ≤ decodeWidth ∧ ∀ o ∈ group, (o.all fun uop =>
      !uop.doRegWrite || decide (1 ≤ uop.wbAddr ∧ uop.wbAddr < nArchRegs)) = true) <| by
    constructor
    · rintro ⟨hwidth, hall⟩
      refine ⟨hwidth, fun uop hmem hwrite => ?_⟩
      simpa [hwrite] using hall _ hmem
    · rintro ⟨hwidth, hall⟩
      refine ⟨hwidth, fun o hmem => ?_⟩
      cases o with
      | none => rfl
      | some uop =>
        have hdst := hall uop hmem
        simp only [Option.all_some, Bool.or_eq_true, Bool.not_eq_true', decide_eq_true_eq]
        cases hwrite : uop.doRegWrite
        · exact .inl rfl
        · exact .inr (hdst hwrite)

instance (s : RenameStage) (i : Inputs) : Decidable (machine.legal s i) :=
  decidable_of_iff
    ((i.nextValid = true → Decoded i.nextPacket) ∧ i.retire ≤ retireWidth ∧
      i.retire ≤ s.inFlight.length ∧ (i.needFlush = true → 0 < i.retire) ∧
      (i.hasExcept = true → 0 < i.retire → i.needFlush = true))
    ⟨fun ⟨h1, h2, h3, h4, h5⟩ => ⟨h1, h2, h3, h4, h5⟩,
      fun h => ⟨h.decoded, h.width, h.retire, h.flush_retires, h.except_flushes⟩⟩

/-- The stage out of reset. -/
def atReset : RenameStage where
  sRAT := fun i => i + 1
  aRAT := fun i => i + 1
  freeList :=
    { dataVec := fun i => i + nArchRegs, ptr := { rising := true }, popPayload := fun _ => 0 }
  isValid := false
  decPacket := []
  regFlush := false
  inFlight := []
  flushed := []

/-- Two writes of register 13 in one group, the first of which retires while the
next group is renamed, and a flush behind it. -/
def twoWritesThenFlush : List Inputs :=
  let add : MicroOp := { wbAddr := 13, doRegWrite := true }
  let store : MicroOp := { isStore := true, fuType := .lsu }
  [{ nextValid := true, nextPacket := [some add, some store, some add] },
   { nextValid := true, nextPacket := [none, some add] },
   { retire := 1 },
   { retire := 2, needFlush := true }]

theorem conserved_twoWritesThenFlush :
    (machine.run atReset twoWritesThenFlush).Conserved :=
  have hreset : atReset.Init := ⟨rfl, rfl, rfl, rfl, rfl, rfl, rfl, rfl⟩
  have hstart : machine.Reachable atReset := .reset hreset
  conservation (hstart.run (by decide))

/-! ## The commits of the reorder buffer -/

section FromCommit

variable {s : RenameStage} {ports : Nat → PopPort} {fsm : UncachedState} {inp : CommitInputs}

/-- The pop ports show the oldest instructions in flight. -/
structure Shows (s : RenameStage) (ports : Nat → PopPort) : Prop where
  valid : ∀ j, (ports (j + 1)).valid = true → (ports j).valid = true
  entry : ∀ j < retireWidth, (ports j).valid = true →
    ∃ p, s.inFlight[j]? = some p ∧ (ports j).uop = p.uop ∧ (ports j).info.rename = p.rename

/-- What commit drives in a cycle. -/
def fromCommit (ports : Nat → PopPort) (fsm : UncachedState) (inp : CommitInputs)
    (front : Inputs) : Inputs :=
  { front with
    retire := Commit.popCount ports fsm inp
    hasExcept := Commit.hasExcept ports fsm inp
    needFlush := Commit.needFlush ports fsm inp }

theorem entry_of_lt_popCount (hshow : s.Shows ports) {j : Nat}
    (hj : j < Commit.popCount ports fsm inp) :
    ∃ p, s.inFlight[j]? = some p ∧ (ports j).uop = p.uop ∧ (ports j).info.rename = p.rename := by
  have hfire := Commit.fire_of_lt_popCount hj
  simp only [Commit.fire, Bool.and_eq_true] at hfire
  exact hshow.entry j (Nat.lt_of_lt_of_le hj Commit.popCount_le) hfire.1

/-- Commit keeps to the protocol of the rename stage. -/
theorem legal_fromCommit {front : Inputs} (hshow : s.Shows ports)
    (hfront : front.nextValid = true → Decoded front.nextPacket) :
    s.Legal (fromCommit ports fsm inp front) := by
  refine ⟨hfront, Commit.popCount_le, ?_, ?_, ?_⟩
  · change Commit.popCount ports fsm inp ≤ _
    cases hn : Commit.popCount ports fsm inp with
    | zero => exact Nat.zero_le _
    | succ n =>
      have hlast : n < Commit.popCount ports fsm inp := by omega
      obtain ⟨p, hp, -⟩ := entry_of_lt_popCount hshow hlast
      obtain ⟨hlt, -⟩ := List.getElem?_eq_some_iff.mp hp
      exact hlt
  · intro hneed
    have hneed : Commit.needFlush ports fsm inp = true := hneed
    simp only [Commit.needFlush, Bool.and_eq_true] at hneed
    exact (Commit.fire_iff_lt_popCount (by decide) hshow.valid).mp hneed.1
  · intro hexc hpos
    have hexc : Commit.hasExcept ports fsm inp = true := hexc
    have hpos : 0 < Commit.popCount ports fsm inp := hpos
    have hfire := Commit.fire_of_lt_popCount hpos
    change Commit.needFlush ports fsm inp = true
    simp [Commit.needFlush, hfire, hexc]

/-- The mappings the stage commits are those commit drives. -/
theorem arfCommits_fromCommit {front : Inputs} (hshow : s.Shows ports) :
    s.arfCommits (fromCommit ports fsm inp front) =
      (List.range retireWidth).filterMap (Commit.arfCommit ports fsm inp) := by
  have hsplit : List.range retireWidth = List.range (Commit.popCount ports fsm inp) ++
      (List.range (retireWidth - Commit.popCount ports fsm inp)).map
        (Commit.popCount ports fsm inp + ·) := by
    rw [← List.range_add, Nat.add_sub_cancel' Commit.popCount_le]
  have hrest : ((List.range (retireWidth - Commit.popCount ports fsm inp)).map
      (Commit.popCount ports fsm inp + ·)).filterMap (Commit.arfCommit ports fsm inp) = [] := by
    rw [List.filterMap_eq_nil_iff]
    intro j hj
    obtain ⟨k, hk, rfl⟩ := List.mem_map.mp hj
    have hk := List.mem_range.mp hk
    have hidle : Commit.fire ports fsm inp (Commit.popCount ports fsm inp + k) = false := by
      rw [← Bool.not_eq_true, Commit.fire_iff_lt_popCount (by omega) hshow.valid]
      omega
    simp [Commit.arfCommit, Commit.retires, hidle]
  rw [hsplit, List.filterMap_append, hrest, List.append_nil, arfCommits, retired]
  change ((if Commit.hasExcept ports fsm inp = true then _ else _ : List PushPort).filter
    _).map _ = _
  cases hexc : Commit.hasExcept ports fsm inp with
  | true =>
    symm
    simpa [List.filterMap_eq_nil_iff, Commit.arfCommit, Commit.retires] using
      fun _ _ _ h => absurd hexc (by simp [h])
  | false =>
    have htake : ∀ n ≤ Commit.popCount ports fsm inp,
        ((s.inFlight.take n).filter fun p => p.uop.doRegWrite).map PushPort.mapping =
          (List.range n).filterMap (Commit.arfCommit ports fsm inp) := by
      intro n hn
      induction n with
      | zero => rfl
      | succ n ih =>
        have hlast : n < Commit.popCount ports fsm inp := by omega
        obtain ⟨p, hp, huop, hren⟩ := entry_of_lt_popCount hshow hlast
        have hfire := Commit.fire_of_lt_popCount hlast
        rw [List.take_add_one, hp, List.range_succ, List.filterMap_append, ← ih (by omega)]
        simp only [Option.toList_some, List.filter_append, List.map_append]
        congr 1
        have hretires : Commit.retires ports fsm inp n = true := by
          simp [Commit.retires, hfire, hexc]
        cases hw : p.uop.doRegWrite
        · simp [Commit.arfCommit, hretires, huop, hw]
        · simp [Commit.arfCommit, hretires, huop, hren, hw, PushPort.mapping]
    exact htake _ (Nat.le_refl _)

end FromCommit

end RenameStage

end NopCore
