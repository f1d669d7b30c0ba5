import NopCore.Lib.System
import NopCore.Utils.MultiPortFifo
import NopCore.Utils.ReorderCacheRAM

/-!
# Three implementations of one queue

A bounded queue with several ports is a list: as many elements enter as there is room
for at the beginning of the cycle, and as many leave as pop ports are ready and have
something to show. Three circuits implement it. Two keep the elements in registers and
differ in whether the pop ports are registered. The third one keeps them in banks of
memory, one element of each group of neighbours in a bank, so that any run of
neighbours can be read or written in a cycle.

The state of each stands for a list, and what the ports show in a cycle is what the list
determines. So the three cannot be told apart.
-/

namespace NopCore

/-- What a cycle drives: the elements at the valid push ports and the number of pop ports
that are ready, which are the first ones in both cases. -/
structure FifoCycle (α : Type*) where
  push : List α := []
  ready : Nat := 0

/-- What a queue shows: which push ports are ready, the elements at the valid pop ports,
and the flags that tell empty from full. -/
structure FifoPorts (α : Type*) where
  pushReady : List Bool
  pop : List (Option α)
  isEmpty : Bool
  isFull : Bool

/-- The sizes of a queue. Neither kind of port outnumbers the elements. -/
structure FifoConfig where
  log2Depth : Nat
  pushPorts : Nat
  popPorts : Nat
  pushPorts_le : pushPorts ≤ 2 ^ log2Depth
  popPorts_le : popPorts ≤ 2 ^ log2Depth

namespace FifoConfig

variable {α : Type*} (c : FifoConfig)

def depth : Nat := 2 ^ c.log2Depth

/-- The environment uses the ports that there are. -/
def Fits (i : FifoCycle α) : Prop := i.push.length ≤ c.pushPorts ∧ i.ready ≤ c.popPorts

instance (i : FifoCycle α) : Decidable (c.Fits i) := inferInstanceAs (Decidable (_ ∧ _))

/-- A cycle of the queue as a list. -/
def next (l : List α) (i : FifoCycle α) : List α :=
  (l ++ i.push.take (c.depth - l.length)).drop (min i.ready l.length)

/-- What the queue shows as a list: push port `i` is ready if there were more than `i` free
places, and pop port `i` shows the element with `i` older ones. -/
def ports (l : List α) : FifoPorts α where
  pushReady := (List.range c.pushPorts).map fun i => decide (i + l.length < c.depth)
  pop := (List.range c.popPorts).map fun i => l[i]?
  isEmpty := decide (l.length = 0)
  isFull := decide (l.length = c.depth)

/-- What the list shows in each cycle of a run. -/
def trace (l : List α) (is : List (FifoCycle α)) : List (FifoPorts α) :=
  Clocked.trace c.next c.ports l is

/-- What the ports of a circuit show: the handshakes are computed from the pointers. -/
def circuitPorts (ptr : Ring.Pointers) (popPayload : Nat → α) : FifoPorts α where
  pushReady := (List.range c.pushPorts).map (ptr.pushReady c.depth)
  pop := (List.range c.popPorts).map fun i =>
    if ptr.popValid c.depth i then some (popPayload i) else none
  isEmpty := ptr.isEmpty
  isFull := ptr.isFull

variable {c}

theorem depth_pos : 0 < c.depth := Nat.two_pow_pos _

theorem Fits.push_le {i : FifoCycle α} (h : c.Fits i) : i.push.length ≤ c.depth :=
  h.1.trans c.pushPorts_le

theorem Fits.ready_le {i : FifoCycle α} (h : c.Fits i) : i.ready ≤ c.depth :=
  h.2.trans c.popPorts_le

end FifoConfig

namespace FifoConfig

variable {α : Type*} {c : FifoConfig}

/-- Ports with the right pointers and the right elements show the list. -/
theorem circuitPorts_eq {ptr : Ring.Pointers} {mem popPayload : Nat → α}
    (h : ptr.InRange c.depth)
    (hshown : ∀ j < ptr.count c.depth, j < c.popPorts →
      popPayload j = mem (Ring.slot c.depth ptr.pop j)) :
    c.circuitPorts ptr popPayload =
      c.ports (Ring.window c.depth mem ptr.pop (ptr.count c.depth)) := by
  have hpush : ∀ i ∈ List.range c.pushPorts, ptr.pushReady c.depth i =
      decide (i + ptr.count c.depth < c.depth) := by
    intro i hi
    have hlt := List.mem_range.mp hi
    rw [Bool.eq_iff_iff, decide_eq_true_eq]
    exact Ring.Pointers.pushReady_iff h (hlt.trans_le c.pushPorts_le)
  have hpop : ∀ i ∈ List.range c.popPorts,
      (if ptr.popValid c.depth i then some (popPayload i) else none) =
        (Ring.window c.depth mem ptr.pop (ptr.count c.depth))[i]? := by
    intro i hi
    have hlt := List.mem_range.mp hi
    have hvalid : ptr.popValid c.depth i = true ↔ i < ptr.count c.depth :=
      Ring.Pointers.popValid_iff (hlt.trans_le c.popPorts_le)
    split_ifs with hv
    · have hcount := hvalid.mp hv
      rw [Ring.window_getElem? mem hcount, hshown i hcount hlt]
    · rw [List.getElem?_eq_none]
      rw [Ring.window_length]
      exact Nat.le_of_not_lt fun hcount => hv (hvalid.mpr hcount)
  have hempty : ptr.isEmpty = decide (ptr.count c.depth = 0) := by
    rw [Bool.eq_iff_iff, decide_eq_true_eq, Ring.Pointers.isEmpty_iff h]
  have hfull : ptr.isFull = decide (ptr.count c.depth = c.depth) := by
    rw [Bool.eq_iff_iff, decide_eq_true_eq, Ring.Pointers.isFull_iff h]
  rw [circuitPorts, ports, Ring.window_length, List.map_congr_left hpush,
    List.map_congr_left hpop, hempty, hfull]

/-- The circuits compute the same list. -/
theorem next_eq {l accepted : List α} {i : FifoCycle α} {taken : Nat}
    (haccepted : accepted = i.push.take (c.depth - l.length))
    (htaken : taken = min i.ready l.length) :
    (l ++ accepted).drop taken = c.next l i := by
  rw [next, haccepted, htaken]

end FifoConfig

/-! ## With the elements in registers -/

namespace MultiPortFIFOVec

variable {α : Type*} (c : FifoConfig)

def cycle (f : MultiPortFIFOVec α) (i : FifoCycle α) : MultiPortFIFOVec α :=
  f.step c.depth i.push i.ready false

def ports (f : MultiPortFIFOVec α) : FifoPorts α := c.circuitPorts f.ptr (f.popPayload c.depth)

/-- The state stands for a list. -/
def Holds (f : MultiPortFIFOVec α) (l : List α) : Prop :=
  f.ptr.InRange c.depth ∧ f.contents c.depth = l

variable {c} {f : MultiPortFIFOVec α} {l : List α} {i : FifoCycle α}

theorem Holds.cycle (h : Holds c f l) (hi : c.Fits i) : Holds c (f.cycle c i) (c.next l i) := by
  obtain ⟨hrange, rfl⟩ := h
  refine ⟨inRange_step hrange hi.push_le hi.ready_le false, ?_⟩
  have hnext := MultiPortFIFOVecOutReg.contents_step (f := f.outReg c.depth) hrange hi.push_le
    hi.ready_le
  refine hnext.trans (FifoConfig.next_eq ?_ ?_)
  · rw [MultiPortFIFOVecOutReg.length_contents]
    rfl
  · rw [MultiPortFIFOVecOutReg.length_contents]
    rfl

theorem Holds.ports (h : Holds c f l) : f.ports c = c.ports l := by
  obtain ⟨hrange, rfl⟩ := h
  exact FifoConfig.circuitPorts_eq hrange fun _ _ _ => rfl

theorem Holds.trace (h : Holds c f l) {is : List (FifoCycle α)} (his : ∀ i ∈ is, c.Fits i) :
    Clocked.trace (MultiPortFIFOVec.cycle c) (MultiPortFIFOVec.ports c) f is = c.trace l is := by
  apply Clocked.trace_eq (P := fun i => c.Fits i) (R := Holds c) _ _ h his
  · intro f l i hf hi
    exact hf.cycle hi
  · intro f l hf
    exact hf.ports

end MultiPortFIFOVec

namespace MultiPortFIFOVecOutReg

variable {α : Type*} (c : FifoConfig)

def cycle (f : MultiPortFIFOVecOutReg α) (i : FifoCycle α) : MultiPortFIFOVecOutReg α :=
  f.step c.depth i.push i.ready

def ports (f : MultiPortFIFOVecOutReg α) : FifoPorts α := c.circuitPorts f.ptr f.popPayload

def Holds (f : MultiPortFIFOVecOutReg α) (l : List α) : Prop :=
  f.ptr.InRange c.depth ∧ f.contents c.depth = l

variable {c} {f : MultiPortFIFOVecOutReg α} {l : List α} {i : FifoCycle α}

theorem Holds.cycle (h : Holds c f l) (hi : c.Fits i) :
    Holds c (f.cycle c i) (c.next l i) ∧ (f.cycle c i).Shown c.depth := by
  obtain ⟨hrange, rfl⟩ := h
  refine ⟨⟨inRange_step hrange hi.push_le hi.ready_le, ?_⟩,
    shown_step hrange hi.push_le hi.ready_le⟩
  refine (contents_step hrange hi.push_le hi.ready_le).trans (FifoConfig.next_eq ?_ ?_)
  · rw [length_contents]
    rfl
  · rw [length_contents]
    rfl

theorem Holds.ports (h : Holds c f l) (hshown : f.Shown c.depth) : f.ports c = c.ports l := by
  obtain ⟨hrange, rfl⟩ := h
  exact FifoConfig.circuitPorts_eq hrange fun j hj _ => hshown j hj

theorem Holds.trace (h : Holds c f l) (hshown : f.Shown c.depth) {is : List (FifoCycle α)}
    (his : ∀ i ∈ is, c.Fits i) :
    Clocked.trace (MultiPortFIFOVecOutReg.cycle c) (MultiPortFIFOVecOutReg.ports c) f is =
      c.trace l is := by
  apply Clocked.trace_eq (P := fun i => c.Fits i)
    (R := fun f l => Holds c f l ∧ f.Shown c.depth) _ _ ⟨h, hshown⟩ his
  · intro f l i hf hi
    exact hf.1.cycle hi
  · intro f l hf
    exact hf.1.ports hf.2

/-- The pop ports need a cycle to be loaded. -/
theorem Holds.tail_trace (h : Holds c f l) {is : List (FifoCycle α)} (his : ∀ i ∈ is, c.Fits i) :
    (Clocked.trace (MultiPortFIFOVecOutReg.cycle c) (MultiPortFIFOVecOutReg.ports c) f is).tail =
      (c.trace l is).tail := by
  cases is with
  | nil => rfl
  | cons i is =>
    have hfirst := h.cycle (his i List.mem_cons_self)
    exact hfirst.1.trace hfirst.2 fun j hj => his j (List.mem_cons_of_mem i hj)

end MultiPortFIFOVecOutReg

/-! ## With the elements in banks of memory -/

structure MultiPortFIFOSyncImpl (α : Type*) where
  ram : ReorderCacheRAMOutReg α
  ptr : Ring.Pointers

namespace MultiPortFIFOSyncImpl

variable {α : Type*} (c : FifoConfig) (f : MultiPortFIFOSyncImpl α)

def banks : Nat := ReorderCacheRAMOutReg.bankCount c.popPorts c.pushPorts

def wordsPerBank : Nat := c.depth / banks c

/-- The queue in registers with the same elements. Handshakes and pointers are computed
as there. -/
def outReg : MultiPortFIFOVecOutReg α := ⟨f.ram.word (banks c), f.ptr, f.ram.rsp⟩

/-- The memory is written unless the queue is full, at the ports that are ready. It is
read where the pop pointer will be. -/
def cycle (i : FifoCycle α) : MultiPortFIFOSyncImpl α where
  ram := f.ram.step (banks c) (wordsPerBank c) c.pushPorts (!i.push.isEmpty && !f.ptr.isFull)
    f.ptr.push ((f.outReg c).pushFire c.depth i.push)
    (Ring.slot c.depth f.ptr.pop ((f.outReg c).popCount c.depth i.ready))
  ptr := f.ptr.advance c.depth ((f.outReg c).pushCount c.depth i.push)
    ((f.outReg c).popCount c.depth i.ready)

def ports : FifoPorts α := c.circuitPorts f.ptr f.ram.rsp

/-- The state stands for a list, whose oldest elements have been read. -/
structure Holds (f : MultiPortFIFOSyncImpl α) (l : List α) : Prop where
  inRange : f.ptr.InRange c.depth
  contents : (f.outReg c).contents c.depth = l
  shown : ∀ j < f.ptr.count c.depth, j < c.popPorts →
    f.ram.rsp j = f.ram.word (banks c) (Ring.slot c.depth f.ptr.pop j)

variable {c f} {l : List α} {i : FifoCycle α}

theorem banks_pos : 0 < banks c := Nat.two_pow_pos _

theorem banks_mul : banks c * wordsPerBank c = c.depth :=
  Nat.mul_div_cancel' (ReorderCacheRAMOutReg.bankCount_dvd c.popPorts_le c.pushPorts_le)

/-- What is written is what the other queue writes. -/
theorem word_cycle (h : f.ptr.InRange c.depth) (hi : c.Fits i) {n : Nat} (hn : n < c.depth) :
    (f.cycle c i).ram.word (banks c) n = ((f.outReg c).cycle c i).dataVec n := by
  have hports := (ReorderCacheRAMOutReg.ports_le_bankCount c.popPorts c.pushPorts).2
  have hdata : ∀ k, c.pushPorts ≤ k → (f.outReg c).pushFire c.depth i.push k = none := by
    intro k hk
    rw [MultiPortFIFOVecOutReg.pushFire, List.getElem?_eq_none (hi.1.trans hk), ite_self]
  have hword : (f.cycle c i).ram.word (banks c) n =
      (if !i.push.isEmpty && !f.ptr.isFull then (f.outReg c).pushFire c.depth i.push
        (Ring.offset (banks c * wordsPerBank c) f.ptr.push n) else none).getD
          (f.ram.word (banks c) n) := by
    apply ReorderCacheRAMOutReg.word_step banks_pos _ _ hports hdata
    · rw [banks_mul]
      exact h.push
    · rw [banks_mul]
      exact hn
  rw [banks_mul] at hword
  refine hword.trans ?_
  change _ = ((f.outReg c).writeAt c.depth i.push n).getD (f.ram.word (banks c) n)
  rw [MultiPortFIFOVecOutReg.writeAt]
  -- a port that is ready and valid makes the write valid
  cases hfire : (f.outReg c).pushFire c.depth i.push (Ring.offset c.depth f.ptr.push n) with
  | none =>
    have hnone : (f.outReg c).pushFire c.depth i.push
        (Ring.offset c.depth (f.outReg c).ptr.push n) = none := hfire
    rw [hnone]
    cases (!i.push.isEmpty && !f.ptr.isFull) <;> rfl
  | some x =>
    have hsome : (f.outReg c).pushFire c.depth i.push
        (Ring.offset c.depth (f.outReg c).ptr.push n) = some x := hfire
    have hvalid : (!i.push.isEmpty && !f.ptr.isFull) = true := by
      rw [MultiPortFIFOVecOutReg.pushFire] at hfire
      split_ifs at hfire with hready
      have hoff : Ring.offset c.depth f.ptr.push n < c.depth :=
        Ring.offset_lt FifoConfig.depth_pos _ _
      have hroom := (Ring.Pointers.pushReady_iff h hoff).mp hready
      have hfull : f.ptr.isFull = false := by
        rw [← Bool.not_eq_true, Ring.Pointers.isFull_iff h]
        omega
      have hpush : i.push.isEmpty = false := by
        cases hlist : i.push with
        | nil => rw [hlist] at hfire; cases hfire
        | cons => rfl
      rw [hfull, hpush]
      rfl
    rw [hsome, hvalid]
    rfl

theorem Holds.cycle (h : Holds c f l) (hi : c.Fits i) : Holds c (f.cycle c i) (c.next l i) := by
  obtain ⟨hrange, rfl, -⟩ := h
  have hreg : (f.outReg c).ptr.InRange c.depth := hrange
  have hptr := MultiPortFIFOVecOutReg.inRange_step hreg hi.push_le hi.ready_le
  refine ⟨hptr, ?_, ?_⟩
  · have hnext := MultiPortFIFOVecOutReg.Holds.cycle ⟨hreg, rfl⟩ hi
    rw [← hnext.1.2]
    apply Ring.window_congr
    intro k hk
    exact word_cycle hrange hi (Ring.slot_lt FifoConfig.depth_pos _ _)
  · intro j _ hj
    have hports := (ReorderCacheRAMOutReg.ports_le_bankCount c.popPorts c.pushPorts).1
    have hread : (f.cycle c i).ram.rsp j = (f.cycle c i).ram.word (banks c)
        (Ring.slot (banks c * wordsPerBank c) (f.cycle c i).ptr.pop j) :=
      ReorderCacheRAMOutReg.rsp_step (hj.trans_le hports)
    rwa [banks_mul] at hread

theorem Holds.ports (h : Holds c f l) : f.ports c = c.ports l := by
  obtain ⟨hrange, rfl, hshown⟩ := h
  exact FifoConfig.circuitPorts_eq hrange hshown

theorem Holds.trace (h : Holds c f l) {is : List (FifoCycle α)} (his : ∀ i ∈ is, c.Fits i) :
    Clocked.trace (MultiPortFIFOSyncImpl.cycle c) (MultiPortFIFOSyncImpl.ports c) f is =
      c.trace l is := by
  apply Clocked.trace_eq (P := fun i => c.Fits i) (R := Holds c) _ _ h his
  · intro f l i hf hi
    exact hf.cycle hi
  · intro f l hf
    exact hf.ports

/-- Out of reset the queue is empty, whatever the memory holds. -/
theorem holds_reset (hreset : f.ptr = {}) : Holds c f [] := by
  have hcount : f.ptr.count c.depth = 0 := by
    rw [hreset]
    rfl
  refine ⟨?_, ?_, fun j hj => by omega⟩
  · rw [hreset]
    exact ⟨FifoConfig.depth_pos, FifoConfig.depth_pos⟩
  · rw [← List.length_eq_zero_iff, MultiPortFIFOVecOutReg.length_contents]
    exact hcount

end MultiPortFIFOSyncImpl

/-! ## Traces -/

namespace FifoConfig

variable {α : Type*} {c : FifoConfig}

/-- The three circuits show what a bounded queue shows, whatever they hold out of reset.
The one with registered pop ports does so from the second cycle on; so it does in the
first one if it is empty out of reset. -/
theorem refinesFifo {is : List (FifoCycle α)} (his : ∀ i ∈ is, c.Fits i) :
    (∀ f : MultiPortFIFOVec α, f.ptr.InRange c.depth →
      Clocked.trace (MultiPortFIFOVec.cycle c) (MultiPortFIFOVec.ports c) f is =
        c.trace (f.contents c.depth) is) ∧
    (∀ f : MultiPortFIFOVecOutReg α, f.ptr.InRange c.depth →
      (Clocked.trace (MultiPortFIFOVecOutReg.cycle c) (MultiPortFIFOVecOutReg.ports c) f is).tail =
        (c.trace (f.contents c.depth) is).tail) ∧
    (∀ f : MultiPortFIFOVecOutReg α, f.ptr.InRange c.depth → f.contents c.depth = [] →
      Clocked.trace (MultiPortFIFOVecOutReg.cycle c) (MultiPortFIFOVecOutReg.ports c) f is =
        c.trace [] is) ∧
    ∀ f : MultiPortFIFOSyncImpl α, f.ptr = {} →
      Clocked.trace (MultiPortFIFOSyncImpl.cycle c) (MultiPortFIFOSyncImpl.ports c) f is =
        c.trace [] is := by
  refine ⟨fun f hf => ?_, fun f hf => ?_, fun f hf hempty => ?_, fun f hf => ?_⟩
  · exact MultiPortFIFOVec.Holds.trace ⟨hf, rfl⟩ his
  · exact MultiPortFIFOVecOutReg.Holds.tail_trace ⟨hf, rfl⟩ his
  · have hcount : f.ptr.count c.depth = 0 := by
      rw [← MultiPortFIFOVecOutReg.length_contents, hempty]
      rfl
    exact MultiPortFIFOVecOutReg.Holds.trace ⟨hf, hempty⟩ (fun j hj => by omega) his
  · exact (MultiPortFIFOSyncImpl.holds_reset hf).trace his

/-- A queue of four elements that is filled, emptied to the last one and filled again over
the end of the memory. -/
theorem refinesFifo_wrap :
    let c : FifoConfig := ⟨2, 3, 2, by decide, by decide⟩
    let is : List (FifoCycle Nat) :=
      [{ push := [1, 2, 3] }, { push := [4, 5], ready := 2 }, { push := [6, 7], ready := 2 },
       { ready := 1 }]
    let f : MultiPortFIFOSyncImpl Nat := ⟨⟨fun _ _ => 0, fun _ => 0⟩, {}⟩
    (∀ i ∈ is, c.Fits i) ∧
      Clocked.trace (MultiPortFIFOSyncImpl.cycle c) (MultiPortFIFOSyncImpl.ports c) f is =
        c.trace [] is ∧
      (c.trace [] is).map FifoPorts.pop =
        [[none, none], [some 1, some 2], [some 3, some 4], [some 6, some 7]] := by
  intro c is f
  have his : ∀ i ∈ is, c.Fits i := by decide
  exact ⟨his, (refinesFifo his).2.2.2 f rfl, by decide⟩

end FifoConfig

end NopCore
