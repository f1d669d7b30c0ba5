import NopCore.Lib.Compressed
import NopCore.Lib.System

/-!
# Compressing issue queues

The queue that the issue queues are built from, for any depth, any number of slots
issued in a cycle and any number entered. A slot holds an element and a flag for each
of its operands, which a wake-up sets in place. In a cycle the flags are set, elements
are entered behind the last valid slot, the slots that were granted are removed and
those behind them move up, and a flush goes before all of this.

A grant port is given the first slot it asks for that no earlier port has been given.

The elements entered since the last flush are numbered in the order in which they came.
`held` records the numbers of those in the queue and `granted` the numbers of those that
have left it, so that what the queue holds can be compared with what it should.
-/

namespace NopCore

structure QueueSlot (α : Type*) where
  payload : α
  ready : Nat → Bool

namespace CompressedQueue

/-- The sizes of a queue. It has at most as many grant ports as it can remove slots in
a cycle, and the ready signals of the push ports look at the last slots. -/
structure Config where
  depth : Nat
  issueWidth : Nat
  decodeWidth : Nat
  grantPorts : Nat
  grantPorts_le : grantPorts ≤ issueWidth
  decodeWidth_le : decodeWidth ≤ depth

/-- The inputs of a cycle: what is pushed to each port, the operands that are woken in
each slot, and the slots each grant port asks for. -/
structure Inputs (α : Type*) where
  push : Nat → Option (QueueSlot α) := fun _ => none
  wake : Nat → Nat → Bool := fun _ _ => false
  reqs : Nat → Nat → Bool := fun _ _ => false
  issueFire : Bool := true
  queueFlush : Bool := false

section Cycle

variable {α : Type*} (c : Config) (queue : Nat → Option (QueueSlot α)) (i : Inputs α)

/-- What the first `n` grant ports are given. -/
def grants : Nat → List (Option Nat)
  | 0 => []
  | n + 1 => grants n ++
      [(List.range c.depth).find? fun k => i.reqs n k && !(grants n).contains (some k)]

def issueMask (k : Nat) : Bool := (grants c i c.grantPorts).contains (some k)

/-- The slots that leave the queue. -/
def popMask (k : Nat) : Bool := i.issueFire && issueMask c i k

/-- The slots with the flags that are set in this cycle. -/
def woken (k : Nat) : Option (QueueSlot α) :=
  (queue k).map fun slot => { slot with ready := fun j => slot.ready j || i.wake k j }

/-- The next value of every slot, but for the removal of slots. -/
def queueNext : Nat → Option (QueueSlot α) :=
  Compressed.enqueue (woken queue i) c.decodeWidth i.push

def next : Nat → Option (QueueSlot α) :=
  if i.queueFlush then fun _ => none
  else Compressed.compress c.depth (queueNext c queue i) c.issueWidth (popMask c i)

/-- What is pushed in this cycle, in the order of the ports. -/
def pushed : List (QueueSlot α) := (List.range c.decodeWidth).filterMap i.push

/-- A port is pushed to when it is ready and those in front of it are used. A grant
port asks for valid slots. -/
structure Legal : Prop where
  ready : ∀ j, (i.push j).isSome = true → j < c.decodeWidth ∧
    Compressed.pushReady c.depth queue j = true
  contiguous : ∀ j, (i.push (j + 1)).isSome = true → (i.push j).isSome = true
  reqs : ∀ n k, i.reqs n k = true → (queue k).isSome = true

variable {c queue i}

/-! ### Grants -/

theorem mem_grants {n k : Nat} (hk : some k ∈ grants c i n) :
    k < c.depth ∧ ∃ m < n, i.reqs m k = true := by
  induction n with
  | zero => cases hk
  | succ n ih =>
    rw [grants, List.mem_append, List.mem_singleton] at hk
    rcases hk with hold | hnew
    · obtain ⟨hlt, m, hm, hreq⟩ := ih hold
      exact ⟨hlt, m, Nat.lt_succ_of_lt hm, hreq⟩
    · have hasks := List.find?_some hnew.symm
      rw [Bool.and_eq_true] at hasks
      have hrange := List.mem_of_find?_eq_some hnew.symm
      exact ⟨List.mem_range.mp hrange, n, Nat.lt_succ_self n, hasks.1⟩

/-- No slot is given to two ports. -/
theorem nodup_grants (n : Nat) : ((grants c i n).filterMap id).Nodup := by
  induction n with
  | zero => exact List.nodup_nil
  | succ n ih =>
    rw [grants, List.filterMap_append]
    cases hnew : (List.range c.depth).find? fun k =>
        i.reqs n k && !(grants c i n).contains (some k) with
    | none => simpa using ih
    | some k =>
      have hasks := List.find?_some hnew
      simp only [Bool.and_eq_true, Bool.not_eq_true', List.contains_eq_mem,
        decide_eq_false_iff_not] at hasks
      have hfresh : k ∉ (grants c i n).filterMap id := by simpa using hasks.2
      rw [List.nodup_append]
      refine ⟨ih, by simp, ?_⟩
      intro a ha b hb hab
      have hbk : b = k := by simpa using hb
      exact hfresh (hbk ▸ hab ▸ ha)

theorem length_grants (n : Nat) : (grants c i n).length = n := by
  induction n with
  | zero => rfl
  | succ n ih => rw [grants, List.length_append, ih, List.length_singleton]

theorem issueMask_iff {k : Nat} :
    issueMask c i k = true ↔ k ∈ (grants c i c.grantPorts).filterMap id := by
  simp [issueMask]

/-- At most as many slots leave as the queue can remove. -/
theorem count_popMask_le (n : Nat) :
    Nat.count (fun k => popMask c i k) n ≤ c.issueWidth := by
  have hnamed : ∀ k, popMask c i k = true → k ∈ (grants c i c.grantPorts).filterMap id := by
    intro k hk
    rw [popMask, Bool.and_eq_true] at hk
    exact issueMask_iff.mp hk.2
  have hcount := Compressed.count_le_length hnamed n
  have hlength := List.length_filterMap_le id (grants c i c.grantPorts)
  rw [length_grants] at hlength
  exact (hcount.trans hlength).trans c.grantPorts_le

/-! ### The queue as a list -/

theorem holds_woken {l : List (QueueSlot α)} (h : Compressed.Holds c.depth queue l) :
    ∃ l', Compressed.Holds c.depth (woken queue i) l' ∧
      l'.map QueueSlot.payload = l.map QueueSlot.payload := by
  refine ⟨l.mapIdx fun k slot => { slot with ready := fun j => slot.ready j || i.wake k j },
    ⟨by simpa using h.length_le, ?_⟩, ?_⟩
  · intro k hk
    rw [woken, h.slot k hk, List.getElem?_mapIdx]
  · apply List.ext_getElem?
    intro k
    simp only [List.getElem?_map, List.getElem?_mapIdx, Option.map_map]
    rfl

theorem push_eq (h : Legal c queue i) (j : Nat) : i.push j = (pushed c i)[j]? := by
  by_cases hj : j < c.decodeWidth
  · exact (Compressed.getElem?_filterMap_range h.contiguous hj).symm
  · have hunused : i.push j = none := by
      cases hpush : i.push j with
      | none => rfl
      | some slot => exact absurd (h.ready j (by simp [hpush])).1 hj
    have hlength := List.length_filterMap_le i.push (List.range c.decodeWidth)
    rw [List.length_range] at hlength
    rw [hunused, List.getElem?_eq_none (by rw [pushed]; omega)]

/-- What is pushed finds room. -/
theorem room {l : List (QueueSlot α)} (h : Compressed.Holds c.depth queue l)
    (hi : Legal c queue i) : l.length + (pushed c i).length ≤ c.depth := by
  have hle := h.length_le
  rcases Nat.eq_zero_or_pos (pushed c i).length with hzero | hpos
  · omega
  · have hlast : (i.push ((pushed c i).length - 1)).isSome = true := by
      rw [push_eq hi, isSome_getElem?]
      omega
    obtain ⟨hwidth, hready⟩ := hi.ready _ hlast
    have hfits := c.decodeWidth_le
    rw [h.pushReady_iff (by omega)] at hready
    omega

theorem popMask_lt {l : List (QueueSlot α)} (h : Compressed.Holds c.depth queue l)
    (hi : Legal c queue i) {k : Nat} (hk : popMask c i k = true) : k < l.length := by
  rw [popMask, Bool.and_eq_true, issueMask_iff] at hk
  have hgrant : some k ∈ grants c i c.grantPorts := by simpa using hk.2
  obtain ⟨hlt, m, -, hreq⟩ := mem_grants hgrant
  have hvalid := hi.reqs m k hreq
  rw [h.slot k hlt, isSome_getElem?] at hvalid
  exact hvalid

/-- The slots granted are removed, the others keep their order, and what is pushed
follows them in the order of the ports. -/
theorem holds_next {l : List (QueueSlot α)} (h : Compressed.Holds c.depth queue l)
    (hi : Legal c queue i) (hflush : i.queueFlush = false) :
    ∃ l', Compressed.Holds c.depth (next c queue i) l' ∧ l'.map QueueSlot.payload =
      Compressed.survivors (popMask c i) (l.map QueueSlot.payload) ++
        (pushed c i).map QueueSlot.payload := by
  obtain ⟨w, hw, hsame⟩ := holds_woken (i := i) h
  have hlength : w.length = l.length := by simpa using congrArg List.length hsame
  have hpop : ∀ k, popMask c i k = true → k < w.length := by
    intro k hk
    rw [hlength]
    exact popMask_lt h hi hk
  have hroom := room h hi
  have hwidth : (pushed c i).length ≤ c.decodeWidth :=
    (List.length_filterMap_le _ _).trans_eq List.length_range
  have hentered := hw.enqueue (by rw [hlength]; exact hroom) hwidth (push_eq hi)
  refine ⟨Compressed.survivors (popMask c i) (w ++ pushed c i), ?_, ?_⟩
  · rw [next, hflush, if_neg Bool.false_ne_true]
    refine hentered.compress (fun k hk => ?_) (count_popMask_le _)
    rw [List.length_append]
    exact Nat.lt_add_right _ (hpop k hk)
  · rw [Compressed.survivors_append hpop, List.map_append, ← Compressed.survivors_map, hsame]

end Cycle

end CompressedQueue

/-- The queue with the record of what it has held. -/
structure CompressedTrace (α : Type*) where
  queue : Nat → Option (QueueSlot α) := fun _ => none
  entered : List α := []
  held : List Nat := []
  granted : List Nat := []

namespace CompressedTrace

open CompressedQueue

variable {α : Type*} (c : Config) (t : CompressedTrace α) (i : Inputs α)

/-- The elements in the queue, from the oldest on. -/
def contents : List α := t.held.filterMap fun n => t.entered[n]?

/-- The slots that leave the queue, in the order of the ports they are given to. -/
def leaving : List Nat := if i.issueFire then (grants c i c.grantPorts).filterMap id else []

def step : CompressedTrace α :=
  if i.queueFlush then {}
  else
    { queue := next c t.queue i
      entered := t.entered ++ (pushed c i).map QueueSlot.payload
      held := Compressed.survivors (popMask c i) t.held ++
        List.range' t.entered.length (pushed c i).length
      granted := t.granted ++ (leaving c i).filterMap fun k => t.held[k]? }

def machine : Clocked.Machine (CompressedTrace α) (Inputs α) where
  init t := t = {}
  legal t i := Legal c t.queue i
  step := step c

variable {c t i}

/-- The queue stands for the list of the elements held: the valid slots come first and
are in program order, and every element entered is either held or has been granted, to
one port only. -/
structure Refines (c : Config) (t : CompressedTrace α) : Prop where
  slots : ∃ l, Compressed.Holds c.depth t.queue l ∧ l.map QueueSlot.payload = t.contents
  order : t.held.Pairwise (· < ·)
  accounted : (t.held ++ t.granted).Perm (List.range t.entered.length)

theorem lt_of_held (h : t.Refines c) {n : Nat} (hn : n ∈ t.held) : n < t.entered.length := by
  have hmem := h.accounted.mem_iff.mp (List.mem_append_left _ hn)
  exact List.mem_range.mp hmem

theorem some_contents (h : t.Refines c) :
    t.held.map (fun n => t.entered[n]?) = t.contents.map some := by
  have hvalid : ∀ ns : List Nat, (∀ n ∈ ns, n < t.entered.length) →
      ns.map (fun n => t.entered[n]?) = (ns.filterMap fun n => t.entered[n]?).map some := by
    intro ns hns
    induction ns with
    | nil => rfl
    | cons n ns ih =>
      obtain ⟨x, hn⟩ : ∃ x, t.entered[n]? = some x :=
        ⟨_, List.getElem?_eq_getElem (hns n List.mem_cons_self)⟩
      have hrest := ih fun m hm => hns m (List.mem_cons_of_mem _ hm)
      rw [List.map_cons, hrest, List.filterMap_cons_some hn, List.map_cons, hn]
  exact hvalid t.held fun n hn => lt_of_held h hn

theorem length_contents (h : t.Refines c) : t.contents.length = t.held.length := by
  have hlength := congrArg List.length (some_contents h)
  simpa using hlength.symm

theorem popMask_iff {k : Nat} : popMask c i k = true ↔ k ∈ leaving c i := by
  rw [popMask, leaving, Bool.and_eq_true, issueMask_iff]
  cases i.issueFire <;> simp

theorem nodup_leaving : (leaving c i).Nodup := by
  rw [leaving]
  split_ifs
  · exact nodup_grants _
  · exact List.nodup_nil

theorem leaving_lt (h : t.Refines c) (hi : Legal c t.queue i) :
    ∀ k ∈ leaving c i, k < t.contents.length := by
  obtain ⟨l, hl, hcontents⟩ := h.slots
  intro k hk
  rw [← hcontents, List.length_map]
  exact popMask_lt hl hi (popMask_iff.mpr hk)

/-- What is entered gets the next numbers. -/
theorem filterMap_range'_append (l ps : List α) :
    ((List.range' l.length ps.length).filterMap fun n => (l ++ ps)[n]?) = ps := by
  have hget : ∀ k, (l ++ ps)[l.length + k]? = ps[k]? := fun k => by
    rw [List.getElem?_append_right (Nat.le_add_right _ _), Nat.add_sub_cancel_left]
  rw [List.range'_eq_map_range, List.filterMap_map]
  simp only [Function.comp_def, hget]
  rw [Compressed.filterMap_range_getElem?, List.take_length]

theorem contents_step (h : t.Refines c) (hflush : i.queueFlush = false) :
    (t.step c i).contents = Compressed.survivors (popMask c i) t.contents ++
      (pushed c i).map QueueSlot.payload := by
  have hold : (Compressed.survivors (popMask c i) t.held).filterMap
      (fun n => (t.entered ++ (pushed c i).map QueueSlot.payload)[n]?) =
      Compressed.survivors (popMask c i) t.contents := by
    have hstays : (Compressed.survivors (popMask c i) t.held).map (fun n => t.entered[n]?) =
        (Compressed.survivors (popMask c i) t.contents).map some := by
      rw [← Compressed.survivors_map, ← Compressed.survivors_map, some_contents h]
    have hread := congrArg (List.filterMap id) hstays
    rw [List.filterMap_map, List.filterMap_map] at hread
    refine (List.filterMap_congr fun n hn => ?_).trans (hread.trans (List.filterMap_some))
    exact List.getElem?_append_left
      (lt_of_held h ((Compressed.survivors_sublist _ _).subset hn))
  have hnew := filterMap_range'_append t.entered ((pushed c i).map QueueSlot.payload)
  rw [List.length_map] at hnew
  rw [step, hflush, if_neg Bool.false_ne_true, contents, List.filterMap_append, hold, hnew]

theorem accounted_step (h : t.Refines c) (hi : Legal c t.queue i) (hflush : i.queueFlush = false) :
    ((t.step c i).held ++ (t.step c i).granted).Perm
      (List.range (t.step c i).entered.length) := by
  have hsplit : (Compressed.survivors (popMask c i) t.held ++
      (leaving c i).filterMap fun k => t.held[k]?).Perm t.held := by
    apply Compressed.survivors_append_perm (fun k => popMask_iff) nodup_leaving
    rw [← length_contents h]
    exact leaving_lt h hi
  rw [step, hflush, if_neg Bool.false_ne_true]
  dsimp only
  have hrange : List.range (t.entered ++ (pushed c i).map QueueSlot.payload).length =
      List.range t.entered.length ++ List.range' t.entered.length (pushed c i).length := by
    rw [List.length_append, List.length_map, List.range_add, List.range'_eq_map_range]
  rw [hrange]
  refine List.Perm.trans ?_ (h.accounted.append_right _)
  refine List.Perm.trans ?_ ((hsplit.append_right t.granted).append_right _)
  refine List.perm_iff_count.mpr fun n => ?_
  simp only [List.count_append]
  omega

theorem refines_step (h : t.Refines c) (hi : Legal c t.queue i) : (t.step c i).Refines c := by
  cases hflush : i.queueFlush with
  | true =>
    have hempty : t.step c i = {} := by rw [step, hflush, if_pos rfl]
    rw [hempty]
    exact ⟨⟨[], Compressed.Holds.nil, rfl⟩, List.Pairwise.nil, List.Perm.refl _⟩
  | false =>
    refine ⟨?_, ?_, accounted_step h hi hflush⟩
    · obtain ⟨l, hl, hcontents⟩ := h.slots
      obtain ⟨l', hl', hnext⟩ := holds_next hl hi hflush
      refine ⟨l', ?_, ?_⟩
      · rw [step, hflush, if_neg Bool.false_ne_true]
        exact hl'
      · rw [contents_step h hflush, hnext, hcontents]
    · rw [step, hflush, if_neg Bool.false_ne_true]
      refine List.pairwise_append.mpr ⟨h.order.sublist (Compressed.survivors_sublist _ _),
        List.pairwise_lt_range', fun n hn m hm => ?_⟩
      have hlt := lt_of_held h ((Compressed.survivors_sublist _ _).subset hn)
      have hle := List.left_le_of_mem_range' hm
      omega

theorem refines_of_reachable (h : (machine (α := α) c).Reachable t) : t.Refines c := by
  apply Clocked.Machine.invariant _ _ h
  · rintro t rfl
    exact ⟨⟨[], Compressed.Holds.nil, rfl⟩, List.Pairwise.nil, List.Perm.refl _⟩
  · intro t i ht hi
    exact refines_step ht hi

/-- A cycle of the list that the queue stands for. -/
structure Cycle (c : Config) (t : CompressedTrace α) (i : Inputs α) : Prop where
  /-- A push port is ready when there is room behind those in front of it. -/
  ready : ∀ j < c.decodeWidth,
    Compressed.pushReady c.depth t.queue j = true ↔ t.contents.length + j < c.depth
  /-- Each grant port has at most one slot, no slot has two ports, and all are valid. -/
  grants : (grants c i c.grantPorts).length = c.grantPorts ∧ (leaving c i).Nodup ∧
    ∀ k ∈ leaving c i, k < t.contents.length ∧ ∃ n < c.grantPorts, i.reqs n k = true
  /-- Those granted leave, in any number and from any place, and the pushed follow. -/
  next : i.queueFlush = false → (t.step c i).contents =
    Compressed.survivors (fun k => (leaving c i).contains k) t.contents ++
      (pushed c i).map QueueSlot.payload
  /-- Without the enable nothing leaves. -/
  idle : i.queueFlush = false → i.issueFire = false →
    (t.step c i).contents = t.contents ++ (pushed c i).map QueueSlot.payload
  flush : i.queueFlush = true → ∀ k, (t.step c i).queue k = none

theorem cycle_of_refines (h : t.Refines c) (hi : Legal c t.queue i) : t.Cycle c i := by
  have hmask : popMask c i = fun k => (leaving c i).contains k := by
    funext k
    rw [Bool.eq_iff_iff, popMask_iff]
    simp
  refine ⟨?_, ⟨length_grants _, nodup_leaving, ?_⟩, ?_, ?_, ?_⟩
  · intro j hj
    obtain ⟨l, hl, hcontents⟩ := h.slots
    have hfits := c.decodeWidth_le
    rw [hl.pushReady_iff (by omega), ← hcontents, List.length_map]
  · intro k hk
    refine ⟨leaving_lt h hi k hk, ?_⟩
    rw [← popMask_iff, popMask, Bool.and_eq_true, issueMask_iff] at hk
    exact (mem_grants (by simpa using hk.2)).2
  · intro hflush
    rw [contents_step h hflush, hmask]
  · intro hflush hfire
    rw [contents_step h hflush, Compressed.survivors_of_none]
    intro k
    rw [popMask, hfire]
    rfl
  · intro hflush k
    rw [step, hflush, if_pos rfl]

end CompressedTrace

/-! ## Single issue -/

namespace CompressedFIFO

variable {α : Type*} (depth decodeWidth : Nat) (queue : Nat → Option (QueueSlot α))
  (i : CompressedQueue.Inputs α)

/-- The queue that issues its first slot only: it moves up by one or not at all. -/
def next (issueReq : Bool) : Nat → Option (QueueSlot α) :=
  if i.queueFlush then fun _ => none
  else Compressed.shift depth
    (Compressed.enqueue (CompressedQueue.woken queue i) decodeWidth i.push)
    (issueReq && i.issueFire)

/-- The sizes with which the other queue does the same. -/
def config (h : decodeWidth ≤ depth) : CompressedQueue.Config where
  depth
  issueWidth := 1
  decodeWidth
  grantPorts := 1
  grantPorts_le := Nat.le_refl 1
  decodeWidth_le := h

variable {depth decodeWidth queue i}

/-- It is the other queue with one grant port, which asks for the first slot. -/
theorem next_eq (h : decodeWidth ≤ depth) (hpos : 0 < depth) (issueReq : Bool) :
    next depth decodeWidth queue i issueReq =
      CompressedQueue.next (config depth decodeWidth h) queue
        { i with reqs := fun _ k => k == 0 && issueReq } := by
  have hmask : CompressedQueue.popMask (config depth decodeWidth h)
      { i with reqs := fun _ k => k == 0 && issueReq } =
      fun k => (issueReq && i.issueFire) && k == 0 := by
    funext k
    obtain ⟨n, rfl⟩ : ∃ n, depth = n + 1 := ⟨depth - 1, by omega⟩
    have hgrants : CompressedQueue.grants (config (n + 1) decodeWidth h)
        { i with reqs := fun _ k => k == 0 && issueReq } 1 =
        [if issueReq then some 0 else none] := by
      cases issueReq <;> simp [CompressedQueue.grants, config, List.range_succ_eq_map]
    rw [CompressedQueue.popMask, CompressedQueue.issueMask]
    change (i.issueFire && List.contains (CompressedQueue.grants _ _ 1) (some k)) = _
    rw [hgrants, Bool.eq_iff_iff]
    cases issueReq <;> simp
  rw [next, CompressedQueue.next, hmask]
  split_ifs
  · rfl
  · exact (Compressed.compress_one _).symm

end CompressedFIFO

/-- In every run the queue stands for a list, and each of its cycles is one of that
list. The queue that issues its head only is the one of issue width 1. -/
theorem CompressedTrace.refines {α : Type*} {c : CompressedQueue.Config} {t : CompressedTrace α}
    (h : (machine c).Reachable t) :
    t.Refines c ∧ (∀ i, CompressedQueue.Legal c t.queue i → t.Cycle c i) ∧
      ∀ (depth decodeWidth : Nat) (hfits : decodeWidth ≤ depth), 0 < depth →
        ∀ (queue : Nat → Option (QueueSlot α)) (i : CompressedQueue.Inputs α) (issueReq : Bool),
          CompressedFIFO.next depth decodeWidth queue i issueReq =
            CompressedQueue.next (CompressedFIFO.config depth decodeWidth hfits) queue
              { i with reqs := fun _ k => k == 0 && issueReq } :=
  ⟨refines_of_reachable h, fun _ hi => cycle_of_refines (refines_of_reachable h) hi,
    fun _ _ hfits hpos _ _ issueReq => CompressedFIFO.next_eq hfits hpos issueReq⟩

/-- Two elements enter together; then the younger one is given to the second of three
ports, while another one enters. -/
theorem CompressedTrace.refines_outOfOrder :
    let c : CompressedQueue.Config := ⟨7, 3, 3, 3, by decide, by decide⟩
    let slot (n : Nat) : QueueSlot Nat := { payload := n, ready := fun _ => true }
    let t := (machine c).run {}
      [{ push := fun j => [slot 10, slot 11][j]? },
       { push := fun j => [slot 12][j]?, reqs := fun n k => n == 1 && k == 1 }]
    t.Refines c ∧ t.contents = [10, 12] ∧ t.granted = [1] := by
  intro c slot t
  have hlegal : (machine c).Legal ({} : CompressedTrace Nat)
      [{ push := fun j => [slot 10, slot 11][j]? },
       { push := fun j => [slot 12][j]?, reqs := fun n k => n == 1 && k == 1 }] := by
    refine ⟨⟨?_, ?_, fun n k h => by cases h⟩, ⟨?_, ?_, ?_⟩, trivial⟩
    · intro j hj
      have hlt : j < 2 := by simpa using hj
      exact ⟨by change j < 3; omega, rfl⟩
    · intro j hj
      have hzero : j = 0 := by simpa using hj
      subst hzero
      rfl
    · intro j hj
      have hzero : j = 0 := by simpa using hj
      subst hzero
      exact ⟨by decide, rfl⟩
    · intro j hj
      simp at hj
    · intro n k h
      rw [Bool.and_eq_true, beq_iff_eq, beq_iff_eq] at h
      obtain ⟨rfl, rfl⟩ := h
      rfl
  have hreach : (machine c).Reachable t := (Clocked.Machine.Reachable.reset rfl).run hlegal
  exact ⟨(refines hreach).1, by decide, by decide⟩

end NopCore
