import NopCore.Mem.Control

/-!
# Program order in the memory pipeline

An access enters the store buffer when it leaves MEM2, in program order, and
waits there for its retirement. Then it travels once more through the stages, as
store data, and leaves MEM2 for good. Nothing overtakes on this way, so the
accesses are, from the oldest on, those that have left, those that travel, and
those in the buffer. A flush removes the ones that have not retired.
-/

namespace NopCore

namespace MemPipeline

variable {s : MemPipeline} {i : Inputs}

/-- The access that a stage carries as store data. -/
def carried (std : Option StoreBufferSlot) : List StoreBufferSlot :=
  (std.map fun e => e.mark false).toList

@[simp] theorem carried_none : carried none = [] := rfl

@[simp] theorem carried_some (e : StoreBufferSlot) : carried (some e) = [e.mark false] := rfl

/-- The accesses between the buffer and the end of MEM2, from the oldest on. -/
def travelling (s : MemPipeline) : List StoreBufferSlot :=
  carried s.mem2.std ++ carried s.mem1.std ++ carried s.memaddr.std ++ carried s.rrd.std

/-- The access whose store data leaves MEM2. -/
def leaves (s : MemPipeline) (i : Inputs) : List StoreBufferSlot :=
  if s.stuck2 i then [] else carried s.mem2.std

def popped (s : MemPipeline) (i : Inputs) : List StoreBufferSlot :=
  if s.pop i then [(s.storeBuffer.slot 0).mark false] else []

theorem travelling_step :
    s.leaves i ++ (s.step i).travelling = s.travelling ++ s.popped i := by
  cases h2 : s.stuck2 i with
  | true =>
    have h1 : s.stuck1 i = true := by simp [stuck1, h2]
    simp [leaves, popped, travelling, step, nextStage, nextMem2, pop, h1, h2]
  | false =>
    cases hr : s.doRefetch i with
    | true =>
      have h1 : s.stuck1 i = true := by simp [stuck1, hr]
      simp [leaves, popped, travelling, step, nextStage, nextMem2, pop, h1, h2, hr]
    | false =>
      have h1 : s.stuck1 i = false := by simp [stuck1, h2, hr]
      have hissue : carried (s.issStage i).std = s.popped i := by
        simp only [issStage, popped, pop, h1, Bool.not_false, Bool.and_true]
        split_ifs <;> rfl
      rw [← hissue]
      simp [leaves, travelling, step, nextStage, nextMem2, h1, h2, hr]

theorem pushReady_of_push {p : StoreBufferSlot} (h : p ∈ s.push i) :
    s.storeBuffer.pushReady = true ∧ p.retired = false ∧ s.stuck2 i = false := by
  simp only [push, Option.mem_def] at h
  split_ifs at h with hpush
  rw [Bool.and_eq_true, Bool.not_eq_true'] at hpush
  refine ⟨?_, ?_, hpush.2⟩
  · have hstuck := hpush.2
    simp only [stuck2, Bool.or_eq_false_iff, hpush.1, Bool.true_and] at hstuck
    simpa using hstuck.1.1.1.1.1.1.1.1.1.1.1.1.1
  · rw [← Option.some.inj h]
    rfl

/-- The buffer after a clock edge, as a list. -/
theorem storeBuffer_step (hlegal : s.Legal i) {entries : List StoreBufferSlot} {marked : Nat}
    (h : s.storeBuffer.Holds entries marked) :
    (s.step i).storeBuffer.Holds
      (if s.pop i then
        (StoreBuffer.entriesNext entries marked i.commitStore (s.push i) i.flush).tail
        else StoreBuffer.entriesNext entries marked i.commitStore (s.push i) i.flush)
      (if s.pop i then StoreBuffer.markedNext marked i.commitStore - 1
        else StoreBuffer.markedNext marked i.commitStore) := by
  refine h.step ⟨?_, ?_, ?_⟩
  · intro hc
    have hun := hlegal.commitStore hc
    rwa [h.hasUnretired, decide_eq_true_eq] at hun
  · intro p hp
    obtain ⟨hready, hretired, -⟩ := pushReady_of_push hp
    rw [h.pushReady, decide_eq_true_eq] at hready
    exact ⟨hready, hretired⟩
  · intro hp
    simp only [pop, stdValid, Bool.and_eq_true] at hp
    exact h.marked_pos hp.1.1.1 hp.1.1.2

end MemPipeline

/-- The accesses in program order, how many of them have retired, and how many
have left MEM2 as store data. -/
structure AccessLog where
  program : List StoreBufferSlot := []
  retired : Nat := 0
  left : Nat := 0

namespace AccessLog

open MemPipeline (Inputs)

variable (log : AccessLog) (s : MemPipeline) (i : Inputs)

def retiredNext : Nat := log.retired + i.commitStore.toNat

/-- An access is added when it leaves MEM2; a flush keeps what has retired. -/
def next : AccessLog where
  program :=
    if i.flush then log.program.take (log.retiredNext i) else log.program ++ (s.push i).toList
  retired := log.retiredNext i
  left := log.left + (s.leaves i).length

variable {log s i}

/-- Where the accesses are: `gone` have left, the others travel or are in the
buffer, which marks those that have retired. -/
structure Follows (log : AccessLog) (s : MemPipeline) (gone entries : List StoreBufferSlot)
    (marked : Nat) : Prop where
  program : log.program = gone ++ s.travelling ++ entries
  left : log.left = gone.length
  retired : log.retired = gone.length + s.travelling.length + marked
  buffer : s.storeBuffer.Holds entries marked
  unmarked : ∀ e ∈ entries, e.retired = false

theorem Follows.of_init (h : s.Init) : Follows {} s [] [] 0 where
  program := by simp [MemPipeline.travelling, h.rrd, h.memaddr, h.mem1, h.mem2]
  left := rfl
  retired := by simp [MemPipeline.travelling, h.rrd, h.memaddr, h.mem1, h.mem2]
  buffer :=
    { length_le := Nat.zero_le _
      marked_le := le_rfl
      valid := fun j _ => by simpa using h.storeBuffer j
      slot := fun j hj => by simp at hj }
  unmarked := by simp

variable {gone entries : List StoreBufferSlot} {marked : Nat}

/-- The program before the head leaves the buffer. -/
theorem Follows.program_next (h : Follows log s gone entries marked) :
    (log.next s i).program = gone ++ s.travelling ++
      StoreBuffer.entriesNext entries marked i.commitStore (s.push i) i.flush := by
  have hretired : log.retiredNext i =
      (gone ++ s.travelling).length + StoreBuffer.markedNext marked i.commitStore := by
    rw [retiredNext, h.retired, List.length_append, StoreBuffer.markedNext]
    cases i.commitStore <;> simp [Nat.add_assoc]
  rw [next, hretired, h.program, StoreBuffer.entriesNext]
  split_ifs
  · rw [List.take_length_add_append]
  · rw [List.append_assoc]

theorem Follows.entriesNext_unmarked (h : Follows log s gone entries marked) :
    ∀ e ∈ StoreBuffer.entriesNext entries marked i.commitStore (s.push i) i.flush,
      e.retired = false := by
  intro e he
  rw [StoreBuffer.entriesNext] at he
  split_ifs at he
  · exact h.unmarked e (List.mem_of_mem_take he)
  · obtain he | he := List.mem_append.1 he
    · exact h.unmarked e he
    · exact (MemPipeline.pushReady_of_push (Option.mem_toList.1 he)).2.1

/-- The head that leaves the buffer is the oldest access in it. -/
theorem Follows.popped (h : Follows log s gone entries marked) (hpop : s.pop i = true) :
    0 < marked ∧ StoreBuffer.entriesNext entries marked i.commitStore (s.push i) i.flush =
      s.popped i ++
        (StoreBuffer.entriesNext entries marked i.commitStore (s.push i) i.flush).tail := by
  have hmarked : 0 < marked := by
    simp only [MemPipeline.pop, MemPipeline.stdValid, Bool.and_eq_true] at hpop
    exact h.buffer.marked_pos hpop.1.1.1 hpop.1.1.2
  refine ⟨hmarked, ?_⟩
  have hle := h.buffer.marked_le
  cases hentries : entries with
  | nil =>
    rw [hentries, List.length_nil] at hle
    omega
  | cons e rest =>
    have hretired : e.retired = false := h.unmarked e (by simp [hentries])
    have hslot : (s.storeBuffer.slot 0).mark false = e := by
      have hhead := h.buffer.slot 0 (by simp [hentries])
      simp only [hentries, List.getElem_cons_zero] at hhead
      rw [hhead, StoreBufferSlot.mark_mark, ← hretired, StoreBufferSlot.mark_retired]
    rw [MemPipeline.popped, if_pos hpop, hslot, StoreBuffer.entriesNext]
    split_ifs
    · obtain ⟨n, hn⟩ : ∃ n, StoreBuffer.markedNext marked i.commitStore = n + 1 := by
        refine ⟨StoreBuffer.markedNext marked i.commitStore - 1, ?_⟩
        rw [StoreBuffer.markedNext]
        split_ifs <;> omega
      simp [hn]
    · simp

/-- Program order is kept by every clock edge. -/
theorem Follows.step (h : Follows log s gone entries marked) (hlegal : s.Legal i) :
    Follows (log.next s i) (s.step i) (gone ++ s.leaves i)
      (if s.pop i then
        (StoreBuffer.entriesNext entries marked i.commitStore (s.push i) i.flush).tail
        else StoreBuffer.entriesNext entries marked i.commitStore (s.push i) i.flush)
      (if s.pop i then StoreBuffer.markedNext marked i.commitStore - 1
        else StoreBuffer.markedNext marked i.commitStore) where
  program := by
    rw [h.program_next, List.append_assoc gone (s.leaves i), MemPipeline.travelling_step]
    cases hpop : s.pop i with
    | false => simp [MemPipeline.popped, hpop]
    | true =>
      obtain ⟨-, hhead⟩ := h.popped hpop
      conv_lhs => rw [hhead]
      simp
  left := by rw [next, h.left, List.length_append]
  retired := by
    have hlen := congrArg List.length (MemPipeline.travelling_step (s := s) (i := i))
    simp only [List.length_append] at hlen
    rw [next, retiredNext, h.retired, List.length_append, StoreBuffer.markedNext]
    cases hpop : s.pop i with
    | false =>
      simp only [MemPipeline.popped, hpop, Bool.false_eq_true, if_false, List.length_nil] at hlen ⊢
      cases i.commitStore <;> simp <;> omega
    | true =>
      obtain ⟨hmarked, -⟩ := h.popped hpop
      simp only [MemPipeline.popped, hpop, if_true, List.length_singleton] at hlen ⊢
      cases i.commitStore <;> simp <;> omega
  buffer := MemPipeline.storeBuffer_step hlegal h.buffer
  unmarked := by
    intro e he
    split_ifs at he
    · exact h.entriesNext_unmarked e (List.mem_of_mem_tail he)
    · exact h.entriesNext_unmarked e he

/-- The log of a pipeline whose accesses are all accounted for. -/
def InOrder (log : AccessLog) (s : MemPipeline) : Prop :=
  ∃ gone entries marked, Follows log s gone entries marked

theorem InOrder.of_init (h : s.Init) : InOrder {} s := ⟨_, _, _, Follows.of_init h⟩

theorem InOrder.step (h : InOrder log s) (hlegal : s.Legal i) :
    InOrder (log.next s i) (s.step i) := by
  obtain ⟨_, _, _, hfollows⟩ := h
  exact ⟨_, _, _, hfollows.step hlegal⟩

end AccessLog

end NopCore
