import NopCore.Core.MicroOp
import NopCore.Lib.Lanes
import NopCore.Lib.System
import NopCore.Privilege.Mmu

/-!
# The store buffer

A compressing queue of eight slots. A store enters it unretired when it leaves
the second memory stage, is marked when it retires, and leaves from the head, as
store data, once it is marked. Uncached loads pass through it as well. A flush
drops what is not marked.

The slots that are valid are the first ones, and so are those that are marked:
the queue is a list with a marked front part.
-/

namespace NopCore

/-- A word of memory by its four byte lanes. -/
abbrev BWord := Fin 4 → BitVec 8

/-- The word an address lies in, bits 31 to 2, by tag, set and place in the line. -/
structure WordAddr where
  tag : BitVec 20
  index : BitVec 6
  offset : BitVec 4
  deriving DecidableEq, Repr

def wordAddr (addr : UWord) : WordAddr :=
  ⟨addr.extractLsb' 12 20, addr.extractLsb' 6 6, addr.extractLsb' 2 4⟩

/-- A slot of the store buffer. The number is the place of the instruction in
program order, a name that no circuit reads. -/
structure StoreBufferSlot where
  retired : Bool := false
  addr : UWord := 0
  be : Fin 4 → Bool := fun _ => false
  data : BWord := fun _ => 0
  isStore : Bool := false
  isCached : Bool := false
  wReg : Option Nat := none
  lsType : LoadStoreType := .byte
  robIdx : Nat := 0
  number : Nat := 0

namespace StoreBufferSlot

/-- The memory write of a store. -/
def write (s : StoreBufferSlot) : Lanes.Write WordAddr (Fin 4) (BitVec 8) :=
  ⟨wordAddr s.addr, s.be, s.data⟩

/-- A store to cached memory. -/
def isCachedStore (s : StoreBufferSlot) : Bool := s.isStore && s.isCached

/-- The slot with its mark. -/
def mark (s : StoreBufferSlot) (retired : Bool) : StoreBufferSlot := { s with retired := retired }

@[simp] theorem write_mark (s : StoreBufferSlot) (b : Bool) : (s.mark b).write = s.write := rfl

@[simp] theorem isCachedStore_mark (s : StoreBufferSlot) (b : Bool) :
    (s.mark b).isCachedStore = s.isCachedStore := rfl

@[simp] theorem number_mark (s : StoreBufferSlot) (b : Bool) : (s.mark b).number = s.number := rfl

@[simp] theorem isStore_mark (s : StoreBufferSlot) (b : Bool) :
    (s.mark b).isStore = s.isStore := rfl

@[simp] theorem retired_mark (s : StoreBufferSlot) (b : Bool) : (s.mark b).retired = b := rfl

@[simp] theorem mark_mark (s : StoreBufferSlot) (b c : Bool) : (s.mark b).mark c = s.mark c := rfl

theorem mark_retired (s : StoreBufferSlot) : s.mark s.retired = s := rfl

end StoreBufferSlot

def storeBufferDepth : Nat := 8

structure StoreBuffer where
  valid : Nat → Bool := fun _ => false
  slot : Nat → StoreBufferSlot := fun _ => {}

namespace StoreBuffer

variable (q : StoreBuffer)

/-- The first unmarked slot behind the marked ones. -/
def retireFall (j : Nat) : Bool :=
  if j = 0 then !(q.slot 0).retired else (q.slot (j - 1)).retired && !(q.slot j).retired

def validFall (j : Nat) : Bool := if j = 0 then !q.valid 0 else q.valid (j - 1) && !q.valid j

def pushReady : Bool := !q.valid (storeBufferDepth - 1)

/-- The slots before compression: after the retirement, push and flush of the
cycle, in this order. -/
def queueNext (commitStore : Bool) (push : Option StoreBufferSlot) (flush : Bool) : StoreBuffer :=
  let retired := fun j => if commitStore && q.retireFall j then (q.slot j).mark true else q.slot j
  let slot := fun j => match push with
    | some p => if q.validFall j then p else retired j
    | none => retired j
  { slot := slot
    valid := fun j => (q.valid j || (push.isSome && q.validFall j)) &&
      !(flush && !(slot j).retired) }

def step (commitStore : Bool) (push : Option StoreBufferSlot) (flush pop : Bool) : StoreBuffer :=
  let next := q.queueNext commitStore push flush
  if pop then
    { slot := fun j => if j + 1 < storeBufferDepth then next.slot (j + 1) else next.slot j
      valid := fun j => if j + 1 < storeBufferDepth then next.valid (j + 1) else false }
  else next

/-- What a load of the address is forwarded: every enabled lane of the matching
stores, a later slot over an earlier one. -/
def query (addr : UWord) (word : BWord) : BWord :=
  (List.range storeBufferDepth).foldl (fun word i =>
    if wordAddr addr = wordAddr (q.slot i).addr ∧ q.valid i ∧ (q.slot i).isCachedStore then
      Lanes.merge (q.slot i).be (q.slot i).data word
    else word) word

/-- Some store in the buffer has not retired. -/
def hasUnretired : Bool :=
  (List.range storeBufferDepth).any fun j => q.valid j && !(q.slot j).retired

/-! ## The queue as a list -/

/-- The valid slots are the first ones and hold `entries`; the first `marked` of
them are marked. -/
structure Holds (entries : List StoreBufferSlot) (marked : Nat) : Prop where
  length_le : entries.length ≤ storeBufferDepth
  marked_le : marked ≤ entries.length
  valid : ∀ j < storeBufferDepth, q.valid j = decide (j < entries.length)
  slot : ∀ j, (h : j < entries.length) → q.slot j = entries[j].mark (decide (j < marked))

/-- The environment of the queue: only an entry that is there is marked, only an
unmarked entry is pushed and only when there is room, and only a marked entry is
popped. -/
structure Allowed (entries : List StoreBufferSlot) (marked : Nat) (commitStore : Bool)
    (push : Option StoreBufferSlot) (pop : Bool) : Prop where
  commitStore : commitStore = true → marked < entries.length
  push : ∀ p ∈ push, entries.length < storeBufferDepth ∧ p.retired = false
  pop : pop = true → 0 < marked

def markedNext (marked : Nat) (commitStore : Bool) : Nat :=
  if commitStore then marked + 1 else marked

def entriesNext (entries : List StoreBufferSlot) (marked : Nat) (commitStore : Bool)
    (push : Option StoreBufferSlot) (flush : Bool) : List StoreBufferSlot :=
  if flush then entries.take (markedNext marked commitStore) else entries ++ push.toList

variable {q} {entries : List StoreBufferSlot} {marked : Nat} {commitStore : Bool}
  {push : Option StoreBufferSlot} {flush pop : Bool}

theorem Holds.retireFall (h : q.Holds entries marked) {j : Nat} (hj : j < entries.length) :
    q.retireFall j = decide (j = marked) := by
  rw [StoreBuffer.retireFall]
  split_ifs with hzero
  · subst hzero
    rw [h.slot 0 hj, StoreBufferSlot.retired_mark, ← decide_not, decide_eq_decide]
    omega
  · rw [h.slot j hj, h.slot (j - 1) (by omega), StoreBufferSlot.retired_mark,
      StoreBufferSlot.retired_mark, ← decide_not, ← Bool.decide_and, decide_eq_decide]
    omega

theorem Holds.validFall (h : q.Holds entries marked) {j : Nat} (hj : j < storeBufferDepth) :
    q.validFall j = decide (j = entries.length) := by
  rw [StoreBuffer.validFall]
  split_ifs with hzero
  · subst hzero
    rw [h.valid 0 hj, ← decide_not, decide_eq_decide]
    omega
  · rw [h.valid j hj, h.valid (j - 1) (by omega), ← decide_not, ← Bool.decide_and,
      decide_eq_decide]
    omega

theorem Holds.pushReady (h : q.Holds entries marked) :
    q.pushReady = decide (entries.length < storeBufferDepth) := by
  have hdepth : storeBufferDepth = 8 := rfl
  rw [StoreBuffer.pushReady, h.valid _ (by decide), ← decide_not, decide_eq_decide]
  omega

theorem length_entriesNext (hok : Allowed entries marked commitStore push pop)
    (hle : entries.length ≤ storeBufferDepth) :
    (entriesNext entries marked commitStore push flush).length ≤ storeBufferDepth := by
  rw [entriesNext]
  split_ifs
  · rw [List.length_take]
    omega
  · cases push with
    | none => simpa using hle
    | some p =>
      have hroom := (hok.push p rfl).1
      simpa using hroom

section QueueNext

variable (h : q.Holds entries marked) (hok : Allowed entries marked commitStore push pop)

include h hok

theorem Holds.markedNext_le : markedNext marked commitStore ≤ entries.length := by
  have hle := h.marked_le
  rw [markedNext]
  split_ifs with hc
  · exact hok.commitStore hc
  · exact hle

omit hok in
/-- The slots of old entries, after marking. -/
theorem Holds.queueNext_slot {j : Nat} (hj : j < entries.length) :
    (q.queueNext commitStore push flush).slot j =
      entries[j].mark (decide (j < markedNext marked commitStore)) := by
  have hlen := h.length_le
  have hnew : q.validFall j = false := by
    rw [h.validFall (by omega)]
    simp
    omega
  have hslot : (q.queueNext commitStore push flush).slot j =
      if commitStore && q.retireFall j then (q.slot j).mark true else q.slot j := by
    cases push <;> simp [StoreBuffer.queueNext, hnew]
  rw [hslot, h.retireFall hj, h.slot j hj, markedNext]
  cases commitStore with
  | false => rfl
  | true =>
    by_cases heq : j = marked
    · simp [heq]
    · have hiff : decide (j < marked) = decide (j < marked + 1) := by
        rw [decide_eq_decide]
        omega
      simp [heq, hiff]

/-- The pushed slot. -/
theorem Holds.queueNext_pushed {p : StoreBufferSlot} (hp : p ∈ push) :
    (q.queueNext commitStore push flush).slot entries.length = p := by
  obtain rfl : push = some p := hp
  have hroom := (hok.push p rfl).1
  simp [StoreBuffer.queueNext, h.validFall hroom]

/-- A flush leaves the slots with a mark. -/
theorem Holds.queueNext_valid_flush {j : Nat} (hj : j < storeBufferDepth) :
    (q.queueNext commitStore push true).valid j =
      decide (j < (entriesNext entries marked commitStore push true).length) := by
  have hmarked := h.markedNext_le hok
  have hvalid : (q.queueNext commitStore push true).valid j =
      ((decide (j < entries.length) || (push.isSome && decide (j = entries.length))) &&
        ((q.queueNext commitStore push true).slot j).retired) := by
    rw [← h.valid j hj, ← h.validFall hj]
    simp [StoreBuffer.queueNext]
  have hlen : (entriesNext entries marked commitStore push true).length =
      markedNext marked commitStore := by
    rw [entriesNext, if_pos rfl]
    exact List.length_take_of_le hmarked
  rw [hvalid, hlen]
  rcases Nat.lt_trichotomy j entries.length with hlt | heq | hgt
  · rw [h.queueNext_slot hlt]
    simp [hlt]
  · subst heq
    cases push with
    | none =>
      simp
      omega
    | some p =>
      rw [h.queueNext_pushed hok rfl, (hok.push p rfl).2]
      simp
      omega
  · simp [Nat.not_lt_of_lt hgt, Nat.ne_of_gt hgt]
    omega

omit hok in
theorem Holds.queueNext_valid_push {j : Nat} (hj : j < storeBufferDepth) :
    (q.queueNext commitStore push false).valid j =
      decide (j < (entriesNext entries marked commitStore push false).length) := by
  have hvalid : (q.queueNext commitStore push false).valid j =
      (decide (j < entries.length) || (push.isSome && decide (j = entries.length))) := by
    rw [← h.valid j hj, ← h.validFall hj]
    simp [StoreBuffer.queueNext]
  rw [hvalid, entriesNext]
  cases push with
  | none => simp
  | some p =>
    simp only [Option.isSome_some, Bool.true_and, Bool.false_eq_true, if_false,
      Option.toList_some, List.length_append, List.length_singleton]
    rw [← Bool.decide_or, decide_eq_decide]
    omega

/-- Before compression. -/
theorem Holds.queueNext : (q.queueNext commitStore push flush).Holds
    (entriesNext entries marked commitStore push flush) (markedNext marked commitStore) := by
  have hmarked := h.markedNext_le hok
  refine ⟨length_entriesNext hok h.length_le, ?_, ?_, ?_⟩
  · rw [entriesNext]
    split_ifs
    · rw [List.length_take]
      omega
    · rw [List.length_append]
      omega
  · intro j hj
    cases flush with
    | false => exact h.queueNext_valid_push hj
    | true => exact h.queueNext_valid_flush hok hj
  · intro j hj
    cases flush with
    | true =>
      simp only [entriesNext, if_true, List.length_take] at hj ⊢
      rw [h.queueNext_slot (by omega), List.getElem_take]
    | false =>
      simp only [entriesNext, Bool.false_eq_true, if_false, List.length_append] at hj ⊢
      by_cases hlt : j < entries.length
      · rw [h.queueNext_slot hlt, List.getElem_append_left hlt]
      · cases push with
        | none => simp at hj; omega
        | some p =>
          simp only [Option.toList_some, List.length_singleton] at hj
          obtain rfl : j = entries.length := by omega
          have hfalse : decide (entries.length < markedNext marked commitStore) = p.retired := by
            rw [(hok.push p rfl).2]
            simp
            omega
          rw [h.queueNext_pushed hok rfl, hfalse]
          simp [StoreBufferSlot.mark_retired]

end QueueNext

theorem Holds.step (h : q.Holds entries marked)
    (hok : Allowed entries marked commitStore push pop) :
    (q.step commitStore push flush pop).Holds
      (if pop then (entriesNext entries marked commitStore push flush).tail
        else entriesNext entries marked commitStore push flush)
      (if pop then markedNext marked commitStore - 1 else markedNext marked commitStore) := by
  have hnext : (q.queueNext commitStore push flush).Holds
      (entriesNext entries marked commitStore push flush) (markedNext marked commitStore) :=
    h.queueNext hok
  cases hpop : pop with
  | false => exact hnext
  | true =>
    have hmarked : 0 < markedNext marked commitStore := by
      have hpos := hok.pop hpop
      rw [markedNext]
      split_ifs <;> omega
    have hdepth : storeBufferDepth = 8 := rfl
    have hle := hnext.length_le
    have hmle := hnext.marked_le
    refine ⟨?_, ?_, ?_, ?_⟩
    · simp only [if_true, List.length_tail]
      omega
    · simp only [if_true, List.length_tail]
      omega
    · intro j hj
      simp only [StoreBuffer.step, if_true, List.length_tail]
      split_ifs with hlast
      · rw [hnext.valid _ hlast, decide_eq_decide]
        omega
      · symm
        simp only [decide_eq_false_iff_not]
        omega
    · intro j hj
      simp only [if_true, List.length_tail] at hj ⊢
      simp only [StoreBuffer.step, if_true]
      rw [if_pos (by omega), hnext.slot (j + 1) (by omega), List.getElem_tail]
      congr 1
      rw [decide_eq_decide]
      omega

/-- A load is forwarded the cached stores of the queue, the youngest last. -/
theorem Holds.query (h : q.Holds entries marked) (addr : UWord) (word : BWord) :
    q.query addr word = Lanes.forwardAll
      ((entries.filter StoreBufferSlot.isCachedStore).map StoreBufferSlot.write)
      (wordAddr addr) word := by
  have hstep : ∀ n ≤ storeBufferDepth, (List.range n).foldl (fun word i =>
      if wordAddr addr = wordAddr (q.slot i).addr ∧ q.valid i ∧ (q.slot i).isCachedStore then
        Lanes.merge (q.slot i).be (q.slot i).data word
      else word) word = Lanes.forwardAll
        (((entries.take n).filter StoreBufferSlot.isCachedStore).map StoreBufferSlot.write)
        (wordAddr addr) word := by
    intro n hn
    induction n with
    | zero => rfl
    | succ n ih =>
      rw [List.range_succ, List.foldl_append, ih (by omega)]
      simp only [List.foldl_cons, List.foldl_nil]
      rw [h.valid n (by omega)]
      by_cases hlt : n < entries.length
      · rw [h.slot n hlt, List.take_add_one, List.getElem?_eq_getElem hlt, Option.toList_some,
          List.filter_append, List.map_append, Lanes.forwardAll_append]
        cases hstore : entries[n].isCachedStore with
        | false => simp [hstore]
        | true =>
          simp only [hlt, hstore, StoreBufferSlot.isCachedStore_mark, decide_true, and_true,
            List.filter_cons_of_pos, List.filter_nil, List.map_cons, List.map_nil,
            Lanes.forwardAll_cons, Lanes.forwardAll_nil]
          rw [Lanes.forward]
          refine if_congr ?_ rfl rfl
          exact eq_comm
      · rw [if_neg (by simp [hlt]), List.take_of_length_le (by omega),
          List.take_of_length_le (by omega)]
  have hall := hstep storeBufferDepth le_rfl
  rw [List.take_of_length_le h.length_le] at hall
  exact hall

/-! ## The two queues -/

theorem Holds.congr {q' : StoreBuffer} (h : q.Holds entries marked)
    (hvalid : ∀ j < storeBufferDepth, q'.valid j = q.valid j)
    (hslot : ∀ j < storeBufferDepth, q'.slot j = q.slot j) : q'.Holds entries marked where
  length_le := h.length_le
  marked_le := h.marked_le
  valid j hj := (hvalid j hj).trans (h.valid j hj)
  slot j hj := (hslot j (hj.trans_le h.length_le)).trans (h.slot j hj)

/-- A full buffer does not take what is pushed. -/
theorem Holds.step_full (h : q.Holds entries marked) (hfull : entries.length = storeBufferDepth)
    (hok : Allowed entries marked commitStore none pop) :
    (q.step commitStore push flush pop).Holds
      (if pop then (entriesNext entries marked commitStore none flush).tail
        else entriesNext entries marked commitStore none flush)
      (if pop then markedNext marked commitStore - 1 else markedNext marked commitStore) := by
  have hnot : ∀ j < storeBufferDepth, q.validFall j = false := by
    intro j hj
    rw [h.validFall hj]
    simp
    omega
  have hslot : ∀ j < storeBufferDepth, (q.queueNext commitStore push flush).slot j =
      (q.queueNext commitStore none flush).slot j := by
    intro j hj
    cases push <;> simp [StoreBuffer.queueNext, hnot j hj]
  have hvalid : ∀ j < storeBufferDepth, (q.queueNext commitStore push flush).valid j =
      (q.queueNext commitStore none flush).valid j := by
    intro j hj
    cases push <;> simp [StoreBuffer.queueNext, hnot j hj]
  refine (h.step hok).congr ?_ ?_
  · intro j hj
    cases pop with
    | false => exact hvalid j hj
    | true =>
      simp only [StoreBuffer.step, if_true]
      split_ifs with hnext
      · exact hvalid _ hnext
      · rfl
  · intro j hj
    cases pop with
    | false => exact hslot j hj
    | true =>
      simp only [StoreBuffer.step, if_true]
      split_ifs with hnext
      · exact hslot _ hnext
      · exact hslot _ hj

theorem Holds.hasUnretired (h : q.Holds entries marked) :
    q.hasUnretired = decide (marked < entries.length) := by
  have hle := h.length_le
  have hiff : q.hasUnretired = true ↔ marked < entries.length := by
    simp only [StoreBuffer.hasUnretired, List.any_eq_true, List.mem_range, Bool.and_eq_true,
      Bool.not_eq_true']
    constructor
    · rintro ⟨j, hj, hvalid, hretired⟩
      rw [h.valid j hj, decide_eq_true_eq] at hvalid
      rw [h.slot j hvalid, StoreBufferSlot.retired_mark, decide_eq_false_iff_not] at hretired
      omega
    · intro hlt
      refine ⟨marked, by omega, ?_, ?_⟩
      · rw [h.valid marked (by omega), decide_eq_true_eq]
        exact hlt
      · rw [h.slot marked hlt, StoreBufferSlot.retired_mark, decide_eq_false_iff_not]
        exact Nat.lt_irrefl marked
  rw [Bool.eq_iff_iff, hiff, decide_eq_true_eq]

/-- A retired head is a marked entry. -/
theorem Holds.marked_pos (h : q.Holds entries marked) (hvalid : q.valid 0 = true)
    (hretired : (q.slot 0).retired = true) : 0 < marked := by
  rw [h.valid 0 (by decide), decide_eq_true_eq] at hvalid
  rw [h.slot 0 hvalid, StoreBufferSlot.retired_mark, decide_eq_true_eq] at hretired
  exact hretired

end StoreBuffer

/-- What the buffer is for: the accesses that have retired wait for their turn at
the cache, those behind them for their retirement. -/
structure StoreQueue where
  retired : List StoreBufferSlot := []
  waiting : List StoreBufferSlot := []

namespace StoreQueue

/-- The accesses in order of age. -/
def entries (a : StoreQueue) : List StoreBufferSlot := a.retired ++ a.waiting

/-- The oldest access that has not retired retires. -/
def commit (a : StoreQueue) : StoreQueue :=
  { retired := a.retired ++ a.waiting.take 1, waiting := a.waiting.drop 1 }

def push (a : StoreQueue) (p : StoreBufferSlot) : StoreQueue :=
  { a with waiting := a.waiting ++ [p] }

def flush (a : StoreQueue) : StoreQueue := { a with waiting := [] }

def pop (a : StoreQueue) : StoreQueue := { a with retired := a.retired.tail }

@[simp] theorem entries_commit (a : StoreQueue) : a.commit.entries = a.entries := by
  rw [commit, entries, List.append_assoc, List.take_append_drop, entries]

theorem length_commit {a : StoreQueue} (h : 0 < a.waiting.length) :
    a.commit.retired.length = a.retired.length + 1 := by
  simp [commit, List.length_take]
  omega

@[simp] theorem entries_push (a : StoreQueue) (p : StoreBufferSlot) :
    (a.push p).entries = a.entries ++ [p] := by
  simp [push, entries]

@[simp] theorem retired_push (a : StoreQueue) (p : StoreBufferSlot) :
    (a.push p).retired = a.retired := rfl

@[simp] theorem entries_flush (a : StoreQueue) :
    a.flush.entries = a.entries.take a.retired.length := by
  simp [flush, entries]

@[simp] theorem retired_flush (a : StoreQueue) : a.flush.retired = a.retired := rfl

theorem entries_pop {a : StoreQueue} (h : 0 < a.retired.length) :
    a.pop.entries = a.entries.tail := by
  obtain ⟨retired, waiting⟩ := a
  cases retired with
  | nil => cases h
  | cons x retired => rfl

theorem length_pop (a : StoreQueue) : a.pop.retired.length = a.retired.length - 1 := by
  simp [pop]

end StoreQueue

/-- The buffer beside the two queues that it implements. -/
structure StoreBufferTrace where
  buffer : StoreBuffer := {}
  queue : StoreQueue := {}

namespace StoreBufferTrace

/-- What happens in a cycle; at most one access is pushed. -/
structure Inputs where
  commitStore : Bool := false
  push : Option StoreBufferSlot := none
  flush : Bool := false
  pop : Bool := false

variable (t : StoreBufferTrace) (i : Inputs)

/-- An access is taken if there is room for it. -/
def taken : Option StoreBufferSlot := if t.buffer.pushReady then i.push else none

/-- Retirement, push, flush and pop of one cycle, in this order. -/
def queueNext : StoreQueue :=
  let committed := if i.commitStore then t.queue.commit else t.queue
  let pushed := match t.taken i with
    | some p => committed.push p
    | none => committed
  let flushed := if i.flush then pushed.flush else pushed
  if i.pop then flushed.pop else flushed

def step : StoreBufferTrace where
  buffer := t.buffer.step i.commitStore i.push i.flush i.pop
  queue := t.queueNext i

structure Init (t : StoreBufferTrace) : Prop where
  buffer : ∀ j, t.buffer.valid j = false
  queue : t.queue = {}

/-- A store retires from the buffer, an access enters unretired, and only a
retired head leaves. -/
structure Legal (t : StoreBufferTrace) (i : Inputs) : Prop where
  commitStore : i.commitStore = true → t.buffer.hasUnretired = true
  push : ∀ p ∈ i.push, p.retired = false
  pop : i.pop = true → t.buffer.valid 0 = true ∧ (t.buffer.slot 0).retired = true

def machine : Clocked.Machine StoreBufferTrace Inputs where
  init := Init
  legal := Legal
  step := step

variable {t i}

/-- Whatever the retired bits of invalid slots are, the valid slots are the first
ones and hold the two queues, the retired one marked. -/
def Represents (t : StoreBufferTrace) : Prop :=
  t.buffer.Holds t.queue.entries t.queue.retired.length

/-- The queues before the head leaves. -/
def settled (t : StoreBufferTrace) (i : Inputs) : StoreQueue :=
  let committed := if i.commitStore then t.queue.commit else t.queue
  let pushed := match t.taken i with
    | some p => committed.push p
    | none => committed
  if i.flush then pushed.flush else pushed

theorem queueNext_eq : t.queueNext i = if i.pop then (t.settled i).pop else t.settled i := rfl

theorem settled_eq (h : t.Represents) (hlegal : t.Legal i) :
    (t.settled i).entries = StoreBuffer.entriesNext t.queue.entries t.queue.retired.length
        i.commitStore (t.taken i) i.flush ∧
      (t.settled i).retired.length =
        StoreBuffer.markedNext t.queue.retired.length i.commitStore := by
  have hwaiting : i.commitStore = true → 0 < t.queue.waiting.length := by
    intro hc
    have hun := hlegal.commitStore hc
    rw [h.hasUnretired, decide_eq_true_eq, StoreQueue.entries, List.length_append] at hun
    omega
  have hcommitted : (if i.commitStore then t.queue.commit else t.queue).entries =
      t.queue.entries ∧ (if i.commitStore then t.queue.commit else t.queue).retired.length =
        StoreBuffer.markedNext t.queue.retired.length i.commitStore := by
    rw [StoreBuffer.markedNext]
    split_ifs with hc
    · exact ⟨StoreQueue.entries_commit _, StoreQueue.length_commit (hwaiting hc)⟩
    · exact ⟨rfl, rfl⟩
  have hle : StoreBuffer.markedNext t.queue.retired.length i.commitStore ≤
      t.queue.entries.length := by
    rw [← hcommitted.1, ← hcommitted.2, StoreQueue.entries, List.length_append]
    omega
  simp only [settled, StoreBuffer.entriesNext]
  cases t.taken i with
  | none =>
    cases i.flush with
    | false => simpa using hcommitted
    | true =>
      simp only [if_true, StoreQueue.entries_flush, StoreQueue.retired_flush]
      exact ⟨by rw [hcommitted.1, hcommitted.2], hcommitted.2⟩
  | some p =>
    cases i.flush with
    | false =>
      simp only [Bool.false_eq_true, if_false, StoreQueue.entries_push, StoreQueue.retired_push,
        Option.toList_some]
      exact ⟨by rw [hcommitted.1], hcommitted.2⟩
    | true =>
      simp only [if_true, StoreQueue.entries_flush, StoreQueue.retired_flush,
        StoreQueue.entries_push, StoreQueue.retired_push]
      refine ⟨?_, hcommitted.2⟩
      rw [hcommitted.1, hcommitted.2, List.take_append_of_le_length hle]

theorem represents_step (h : t.Represents) (hlegal : t.Legal i) : (t.step i).Represents := by
  have hpos : i.pop = true → 0 < t.queue.retired.length := fun hp =>
    h.marked_pos (hlegal.pop hp).1 (hlegal.pop hp).2
  obtain ⟨hentries, hmarked⟩ := settled_eq h hlegal
  have hqueue : (t.queueNext i).entries = (if i.pop then (t.settled i).entries.tail
      else (t.settled i).entries) ∧ (t.queueNext i).retired.length =
        (if i.pop then (t.settled i).retired.length - 1 else (t.settled i).retired.length) := by
    rw [queueNext_eq]
    split_ifs with hp
    · refine ⟨StoreQueue.entries_pop ?_, StoreQueue.length_pop _⟩
      have hlt := hpos hp
      rw [hmarked, StoreBuffer.markedNext]
      split_ifs <;> omega
    · exact ⟨rfl, rfl⟩
  rw [hentries, hmarked] at hqueue
  rw [Represents, step, hqueue.1, hqueue.2]
  have hcommit : i.commitStore = true → t.queue.retired.length < t.queue.entries.length := by
    intro hc
    have hun := hlegal.commitStore hc
    rwa [h.hasUnretired, decide_eq_true_eq] at hun
  have hready := h.pushReady
  cases hroom : t.buffer.pushReady with
  | true =>
    rw [hroom, eq_comm, decide_eq_true_eq] at hready
    have htaken : t.taken i = i.push := by rw [taken, hroom, if_pos rfl]
    rw [htaken]
    exact h.step ⟨hcommit, fun p hp => ⟨hready, hlegal.push p hp⟩, hpos⟩
  | false =>
    rw [hroom, eq_comm, decide_eq_false_iff_not] at hready
    have htaken : t.taken i = none := by simp [taken, hroom]
    rw [htaken]
    exact h.step_full (le_antisymm h.length_le (Nat.le_of_not_lt hready))
      ⟨hcommit, by simp, hpos⟩

theorem represents_of_init (h : Init t) : t.Represents := by
  rw [Represents, h.queue]
  refine ⟨Nat.zero_le _, Nat.zero_le _, ?_, ?_⟩
  · intro j _
    rw [h.buffer]
    simp [StoreQueue.entries]
  · intro j hj
    simp [StoreQueue.entries] at hj

/-- In every reachable state the valid slots are the first ones and hold, in
order, the accesses that have retired, marked, and those that wait for their
retirement, unmarked: the buffer is the two queues, whatever the cycles did. -/
theorem represents (h : machine.Reachable t) : t.Represents :=
  Clocked.Machine.invariant (P := Represents) (fun _ => represents_of_init)
    (fun _ _ => represents_step) h

instance (t : StoreBufferTrace) (i : Inputs) : Decidable (machine.legal t i) :=
  decidable_of_iff
    ((i.commitStore = true → t.buffer.hasUnretired = true) ∧ (∀ p ∈ i.push, p.retired = false) ∧
      (i.pop = true → t.buffer.valid 0 = true ∧ (t.buffer.slot 0).retired = true))
    ⟨fun ⟨h1, h2, h3⟩ => ⟨h1, h2, h3⟩, fun h => ⟨h.commitStore, h.push, h.pop⟩⟩

/-- Two accesses enter, the first retires and leaves in the cycle of a flush in
which a third one enters. -/
def pushCommitFlush : List Inputs :=
  [{ push := some { addr := 0x100, isStore := true } },
   { push := some { addr := 0x104, isStore := true }, commitStore := true },
   { push := some { addr := 0x108 }, flush := true, pop := true },
   { push := some { addr := 0x10c } }]

theorem represents_pushCommitFlush : (machine.run {} pushCommitFlush).Represents :=
  represents (Clocked.Machine.Reachable.run
    (Clocked.Machine.Reachable.reset (⟨fun _ => rfl, rfl⟩ : Init {})) (by decide +kernel))

end StoreBufferTrace

end NopCore
