import NopCore.Mem.Control

/-!
# Room in the store buffer

An instruction issues only while at most three slots of the store buffer are
taken, and at most four instructions are between issue and the end of MEM2. Every
one of them may still push, and while it is on its way nothing else than a push
can take a slot. So the buffer never refuses a push.
-/

namespace NopCore

namespace MemPipeline

variable {s : MemPipeline} {i : Inputs}

/-- The instructions between issue and the end of MEM2. -/
def inFlight (s : MemPipeline) : Nat :=
  s.rrd.isValid.toNat + s.memaddr.isValid.toNat + s.mem1.isValid.toNat + s.mem2.isValid.toNat

/-- The buffer is a queue that has room for all instructions in flight. -/
def HasRoom (s : MemPipeline) : Prop :=
  ∃ entries marked, s.storeBuffer.Holds entries marked ∧
    entries.length + s.inFlight ≤ storeBufferDepth

theorem HasRoom.of_init (h : s.Init) : s.HasRoom := by
  refine ⟨[], 0, ⟨Nat.zero_le _, le_rfl, ?_, ?_⟩, ?_⟩
  · intro j _
    rw [h.storeBuffer]
    rfl
  · intro j hj
    simp at hj
  · simp [inFlight, h.rrd.1, h.memaddr.1, h.mem1.1, h.mem2.1]

theorem and_toNat_le (a b : Bool) : (a && b).toNat ≤ a.toNat := by
  cases a <;> cases b <;> decide

/-- An instruction that leaves MEM2 gives up its place. -/
theorem push_le : (s.push i).toList.length ≤ s.mem2.isValid.toNat := by
  rw [push]
  split_ifs with h
  · have hvalid : s.mem2.isValid = true := by
      simp only [pushValid, Bool.and_eq_true] at h
      exact h.1.1.1
    simp [hvalid]
  · exact Nat.zero_le _

theorem push_stuck (hs : s.stuck2 i = true) : s.push i = none := by
  simp [push, hs]

/-- The places in flight after a clock edge. -/
theorem inFlight_step :
    (s.step i).inFlight + (s.push i).toList.length ≤
      if s.stuck1 i then s.inFlight else (s.issValid i).toNat + s.inFlight := by
  have hpush := push_le (s := s) (i := i)
  cases hs : s.stuck2 i with
  | true =>
    have h1 : s.stuck1 i = true := by simp [stuck1, hs]
    rw [push_stuck hs, h1, if_pos rfl]
    simp only [inFlight, step, nextStage, nextMem2, h1, hs, if_true, Option.toList_none,
      List.length_nil, Nat.add_zero]
    have hr := and_toNat_le s.rrd.isValid (!i.flush)
    have ha := and_toNat_le s.memaddr.isValid (!i.flush)
    have h1 := and_toNat_le s.mem1.isValid (!i.flush)
    have h2 := and_toNat_le s.mem2.isValid (!i.flush)
    omega
  | false =>
    cases hr : s.doRefetch i with
    | true =>
      have h1 : s.stuck1 i = true := by simp [stuck1, hr]
      rw [h1, if_pos rfl]
      simp only [inFlight, step, nextStage, nextMem2, h1, hs, hr, if_true, Bool.false_eq_true,
        if_false, Bool.toNat_false]
      have hr := and_toNat_le s.rrd.isValid (!i.flush)
      have ha := and_toNat_le s.memaddr.isValid (!i.flush)
      have h1 := and_toNat_le s.mem1.isValid (!i.flush)
      omega
    | false =>
      have h1 : s.stuck1 i = false := by simp [stuck1, hs, hr]
      rw [h1, if_neg Bool.false_ne_true]
      simp only [inFlight, step, nextStage, nextMem2, h1, hs, hr, Bool.false_eq_true, if_false,
        issStage]
      have hi := and_toNat_le (s.issValid i && !i.flush) (!i.flush)
      have hi' := and_toNat_le (s.issValid i) (!i.flush)
      have hr := and_toNat_le s.rrd.isValid (!i.flush)
      have ha := and_toNat_le s.memaddr.isValid (!i.flush)
      have h1 := and_toNat_le s.mem1.isValid (!i.flush)
      omega

/-- Nothing issues into a buffer with four slots taken. -/
theorem length_of_issValid {entries : List StoreBufferSlot} {marked : Nat}
    (h : s.storeBuffer.Holds entries marked) (hissue : s.issValid i = true) :
    entries.length ≤ 3 := by
  simp only [issValid, Bool.and_eq_true, Bool.not_eq_true'] at hissue
  rw [h.valid _ (by decide), decide_eq_false_iff_not] at hissue
  have hdepth : storeBufferDepth - 5 = 3 := rfl
  omega

theorem inFlight_le (s : MemPipeline) : s.inFlight ≤ 4 := by
  have hr := Bool.toNat_le s.rrd.isValid
  have ha := Bool.toNat_le s.memaddr.isValid
  have h1 := Bool.toNat_le s.mem1.isValid
  have h2 := Bool.toNat_le s.mem2.isValid
  rw [inFlight]
  omega

theorem HasRoom.step (h : s.HasRoom) (hlegal : s.Legal i) : (s.step i).HasRoom := by
  obtain ⟨entries, marked, hholds, hroom⟩ := h
  have hpushLen := push_le (s := s) (i := i)
  have hpush : ∀ p ∈ s.push i, entries.length < storeBufferDepth ∧ p.retired = false := by
    intro p hp
    have hp' : s.push i = some p := hp
    rw [hp'] at hpushLen
    refine ⟨?_, ?_⟩
    · have hlen : 1 ≤ s.mem2.isValid.toNat := hpushLen
      simp only [inFlight] at hroom
      omega
    · simp only [push] at hp'
      split_ifs at hp'
      rw [← Option.some.inj hp']
      rfl
  have hcommit : i.commitStore = true → marked < entries.length := by
    intro hc
    have hun := hlegal.commitStore hc
    rwa [hholds.hasUnretired, decide_eq_true_eq] at hun
  have hpop : s.pop i = true → 0 < marked := by
    intro hp
    simp only [pop, stdValid, Bool.and_eq_true] at hp
    exact hholds.marked_pos hp.1.1.1 hp.1.1.2
  have hnext : (s.storeBuffer.step i.commitStore (s.push i) i.flush (s.pop i)).Holds _ _ :=
    hholds.step ⟨hcommit, hpush, hpop⟩
  refine ⟨_, _, hnext, ?_⟩
  have hlen : (StoreBuffer.entriesNext entries marked i.commitStore (s.push i) i.flush).length ≤
      entries.length + (s.push i).toList.length := by
    rw [StoreBuffer.entriesNext]
    split_ifs
    · rw [List.length_take]
      omega
    · rw [List.length_append]
  have htail : (if s.pop i then
        (StoreBuffer.entriesNext entries marked i.commitStore (s.push i) i.flush).tail
      else StoreBuffer.entriesNext entries marked i.commitStore (s.push i) i.flush).length ≤
      entries.length + (s.push i).toList.length := by
    split_ifs
    · rw [List.length_tail]
      omega
    · exact hlen
  have hstep := inFlight_step (s := s) (i := i)
  cases h1 : s.stuck1 i with
  | true =>
    rw [h1, if_pos rfl] at hstep
    omega
  | false =>
    rw [h1, if_neg Bool.false_ne_true] at hstep
    cases hissue : s.issValid i with
    | false =>
      rw [hissue] at hstep
      simp only [Bool.toNat_false] at hstep
      omega
    | true =>
      have hthree := length_of_issValid hholds hissue
      rw [hissue] at hstep
      have hfour := inFlight_le s
      have hdepth : storeBufferDepth = 8 := rfl
      simp only [Bool.toNat_true] at hstep
      omega

theorem HasRoom.pushReady (h : s.HasRoom) (hpush : s.pushValid = true) :
    s.storeBuffer.pushReady = true := by
  obtain ⟨entries, marked, hholds, hroom⟩ := h
  have hvalid : s.mem2.isValid = true := by
    simp only [pushValid, Bool.and_eq_true] at hpush
    exact hpush.1.1
  rw [hholds.pushReady, decide_eq_true_eq]
  simp only [inFlight, hvalid, Bool.toNat_true] at hroom
  omega

/-- The store buffer never holds MEM2. -/
theorem HasRoom.push_not_stuck (h : s.HasRoom) :
    (s.pushValid && !s.storeBuffer.pushReady) = false := by
  cases hvalid : s.pushValid with
  | false => rfl
  | true => rw [h.pushReady hvalid, Bool.not_true, Bool.and_false]

/-- Whenever MEM2 wants to push, the last slot is free. -/
theorem pushReady_of_pushValid (h : machine.Reachable s) (hpush : s.pushValid = true) :
    s.storeBuffer.pushReady = true := by
  have hroom : s.HasRoom :=
    Clocked.Machine.invariant (fun _ => HasRoom.of_init) (fun _ _ => HasRoom.step) h
  exact hroom.pushReady hpush

instance (s : MemPipeline) (i : Inputs) : Decidable (machine.legal s i) :=
  decidable_of_iff
    ((i.headReady = true → ¬ (i.head.isLoad = true ∧ i.head.isStore = true)) ∧
      (i.commitStore = true → s.storeBuffer.hasUnretired = true))
    ⟨fun ⟨h1, h2⟩ => ⟨h1, h2⟩, fun ⟨h1, h2⟩ => ⟨h1, h2⟩⟩

theorem init_atReset : Init {} :=
  ⟨fun _ => rfl, ⟨rfl, rfl⟩, ⟨rfl, rfl⟩, ⟨rfl, rfl⟩, ⟨rfl, rfl⟩, rfl, ⟨rfl, rfl⟩, fun _ _ => rfl,
    fun _ _ => rfl, ⟨rfl, rfl, rfl⟩, rfl, rfl, ⟨rfl, rfl⟩, rfl⟩

/-- Stores issue as long as they may. -/
def storeStream : List Inputs :=
  List.replicate 11 { head := { isStore := true, addr := 0x100 }, headReady := true }

/-- The eighth store is about to take the last slot. -/
theorem pushReady_storeStream :
    (machine.run {} storeStream).storeBuffer.valid 6 = true ∧
      (machine.run {} storeStream).storeBuffer.pushReady = true :=
  ⟨by decide +kernel, pushReady_of_pushValid
    (Clocked.Machine.Reachable.run (Clocked.Machine.Reachable.reset init_atReset)
      (by decide +kernel)) (by decide +kernel)⟩

end MemPipeline

end NopCore
