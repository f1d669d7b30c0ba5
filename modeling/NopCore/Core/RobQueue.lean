import NopCore.Core.Rob
import NopCore.Lib.System

/-!
# What the reorder buffer is for

A queue of instructions. Each is entered under a name, the ring index that rename
hands to the pipes, and a completion finds it by this name. The oldest three are
shown at the pop ports.

The ring, the two memories and the registered pop ports with their forwarding
present nothing else: what a port shows is an entry of the queue with every push
and every completion of the earlier cycles.
-/

namespace NopCore

/-- An instruction in flight and the report on its execution, if there is one. -/
structure RobEntry where
  robIdx : Nat
  push : PushPort
  completed : Option Completion := none

namespace RobEntry

/-- The report among `cs` that is on this entry is entered. -/
def complete (cs : List Completion) (e : RobEntry) : RobEntry :=
  match cs.find? fun c => c.robIdx == e.robIdx with
  | some c => { e with completed := some c }
  | none => e

@[simp] theorem complete_robIdx (cs : List Completion) (e : RobEntry) :
    (e.complete cs).robIdx = e.robIdx := by
  rw [complete]
  split <;> rfl

@[simp] theorem complete_push (cs : List Completion) (e : RobEntry) :
    (e.complete cs).push = e.push := by
  rw [complete]
  split <;> rfl

/-- The state of the entry: that of its report, or what rename wrote. Rename
leaves the fields that only execution fills as they are. -/
def Shows (e : RobEntry) (info : ROBEntryInfo) (state : ROBEntryState) : Prop :=
  info = e.push.info ∧
    match e.completed with
    | some c => state = c.state
    | none => state = e.push.state state

end RobEntry

/-- The oldest entry comes first. -/
abbrev RobQueue := List RobEntry

/-- The reorder buffer beside its queue. -/
structure RobTrace where
  rob : ROBFIFO := {}
  queue : RobQueue := []

namespace RobTrace

/-- What happens in a cycle; `ready` belongs to the pop ports. -/
structure Inputs where
  push : List PushPort := []
  ready : Nat → Bool := fun _ => false
  completions : List Completion := []
  flush : Bool := false

variable (t : RobTrace) (i : Inputs)

/-- The ports up to the first that does not fire. -/
def popCount : Nat :=
  Ring.leading retireWidth fun j => t.rob.ptr.popValid robDepth j && i.ready j

/-- The names of the pushed instructions. -/
def pushed : RobQueue :=
  i.push.mapIdx fun k p => { robIdx := Ring.slot robDepth t.rob.ptr.push k, push := p }

/-- Reports are entered, the oldest leave, the pushed are added; a flush leaves
nothing. -/
def queueNext : RobQueue :=
  if i.flush then []
  else (t.queue.map (RobEntry.complete i.completions)).drop (t.popCount i) ++ t.pushed i

def step : RobTrace where
  rob := t.rob.step i.push (t.popCount i) i.completions i.flush
  queue := t.queueNext i

structure Init (t : RobTrace) : Prop where
  pointers : t.rob.ptr = {}
  queue : t.queue = []

/-- At most three pushes, to ports that are ready; reports on distinct entries in
the queue. -/
structure Legal (t : RobTrace) (i : Inputs) : Prop where
  width : i.push.length ≤ decodeWidth
  ready : ∀ k < i.push.length, t.rob.ptr.pushReady robDepth k = true
  inFlight : ∀ c ∈ i.completions, ∃ e ∈ t.queue, c.robIdx = e.robIdx
  distinct : (i.completions.map Completion.robIdx).Nodup

def machine : Clocked.Machine RobTrace Inputs where
  init := Init
  legal := Legal
  step := step

/-- Every pop port is valid exactly if the queue has an entry for it, and shows
this entry. -/
structure Presents (t : RobTrace) : Prop where
  valid : ∀ j < retireWidth, t.rob.ptr.popValid robDepth j = decide (j < t.queue.length)
  shows : ∀ j < retireWidth, ∀ e : RobEntry, t.queue[j]? = some e →
    e.Shows (t.rob.popInfo j) (t.rob.popState j)

variable {t i}

/-! ## Refinement -/

/-- The ring index of the `j`-th oldest entry. -/
def entry (t : RobTrace) (j : Nat) : Nat := Ring.slot robDepth t.rob.ptr.pop j

structure Refines (t : RobTrace) : Prop where
  range : t.rob.ptr.InRange robDepth
  length : t.queue.length = t.rob.ptr.count robDepth
  named : ∀ j (e : RobEntry), t.queue[j]? = some e → e.robIdx = t.entry j
  holds : ∀ j (e : RobEntry), t.queue[j]? = some e →
    e.Shows (t.rob.robInfo (t.entry j)) (t.rob.robState (t.entry j))
  loaded : ∀ j < t.rob.ptr.count robDepth, t.rob.popInfo j = t.rob.robInfo (t.entry j) ∧
    t.rob.popState j = t.rob.robState (t.entry j)

theorem Refines.of_init (h : Init t) : Refines t := by
  have hcount : t.rob.ptr.count robDepth = 0 := by rw [h.pointers]; rfl
  refine ⟨?_, ?_, ?_, ?_, ?_⟩
  · rw [h.pointers]
    exact ⟨by decide, by decide⟩
  · rw [hcount, h.queue, List.length_nil]
  · simp [h.queue]
  · simp [h.queue]
  · intro j hj
    omega

theorem Refines.shows (h : Refines t) : Presents t where
  valid j hj := by
    have hwidth : retireWidth = 3 := rfl
    rw [Bool.eq_iff_iff, decide_eq_true_eq, h.length,
      Ring.Pointers.popValid_iff (by simp only [robDepth]; omega)]
  shows j _ e he := by
    have hlt : j < t.queue.length := by
      obtain ⟨hlt, -⟩ := List.getElem?_eq_some_iff.mp he
      exact hlt
    obtain ⟨hinfo, hstate⟩ := h.loaded j (h.length ▸ hlt)
    rw [hinfo, hstate]
    exact h.holds j e he

theorem popCount_le : t.popCount i ≤ t.rob.ptr.count robDepth := by
  rcases Nat.eq_zero_or_pos (t.popCount i) with h | h
  · omega
  · have hlast : t.popCount i - 1 <
        Ring.leading retireWidth fun j => t.rob.ptr.popValid robDepth j && i.ready j := by
      rw [← popCount]
      omega
    obtain ⟨hwidth, hfire⟩ := Ring.fire_of_lt_leading hlast
    rw [Bool.and_eq_true] at hfire
    have hthree : retireWidth = 3 := rfl
    rw [Ring.Pointers.popValid_iff (by simp only [robDepth]; omega)] at hfire
    omega

theorem room (h : t.rob.ptr.InRange robDepth) (hlegal : t.Legal i) :
    t.rob.ptr.count robDepth + i.push.length ≤ robDepth := by
  have hwidth : i.push.length ≤ 3 := hlegal.width
  exact Ring.Pointers.room h (by simp only [robDepth]; omega) hlegal.ready

/-- On distinct entries the order of the ports does not matter. -/
theorem completionAt_eq_find {cs : List Completion} (h : (cs.map Completion.robIdx).Nodup)
    (idx : Nat) : ROBFIFO.completionAt idx (ROBFIFO.inPortOrder cs) =
      cs.find? fun c => c.robIdx == idx := by
  cases hc : ROBFIFO.completionAt idx (ROBFIFO.inPortOrder cs) with
  | some c =>
    obtain ⟨hmem, hidx⟩ := ROBFIFO.mem_of_completionAt hc
    obtain ⟨c', hc'⟩ : ∃ c', cs.find? (fun c => c.robIdx == idx) = some c' :=
      Option.isSome_iff_exists.mp (List.find?_isSome.mpr ⟨c, hmem, by simp [hidx]⟩)
    have hidx' : c'.robIdx = idx := by simpa using List.find?_some hc'
    rw [hc', List.inj_on_of_nodup_map h (List.mem_of_find?_eq_some hc') hmem
      (hidx'.trans hidx.symm)]
  | none =>
    symm
    rw [List.find?_eq_none]
    intro c hmem hidx
    have hport : c ∈ ROBFIFO.inPortOrder cs := by
      simp only [ROBFIFO.inPortOrder, List.mem_flatMap, List.mem_filter, beq_iff_eq]
      exact ⟨c.unit, by cases c.unit <;> decide, hmem, rfl⟩
    rw [ROBFIFO.completionAt, List.find?_eq_none] at hc
    exact hc c (List.mem_reverse.mpr hport) hidx

/-- The entries of the queue and the pushed ones, before the oldest leave. -/
def present (t : RobTrace) (i : Inputs) : RobQueue :=
  t.queue.map (RobEntry.complete i.completions) ++ t.pushed i

theorem Refines.queueNext (h : Refines t) (hflush : i.flush = false) :
    t.queueNext i = (t.present i).drop (t.popCount i) := by
  have hle := popCount_le (t := t) (i := i)
  rw [RobTrace.queueNext, hflush, if_neg Bool.false_ne_true, present,
    List.drop_append_of_le_length (by rw [List.length_map, h.length]; exact hle)]

theorem present_getElem? {o : Nat} {e : RobEntry} (he : (t.present i)[o]? = some e) :
    (∃ old, t.queue[o]? = some old ∧ e = old.complete i.completions) ∨
      (t.queue.length ≤ o ∧ ∃ p, i.push[o - t.queue.length]? = some p ∧
        e = { robIdx := Ring.slot robDepth t.rob.ptr.push (o - t.queue.length), push := p }) := by
  rw [present, List.getElem?_append] at he
  split_ifs at he with hlt
  · rw [List.getElem?_map, Option.map_eq_some_iff] at he
    obtain ⟨old, hold, rfl⟩ := he
    exact .inl ⟨old, hold, rfl⟩
  · rw [List.length_map] at hlt he
    rw [pushed, List.getElem?_mapIdx, Option.map_eq_some_iff] at he
    obtain ⟨p, hp, rfl⟩ := he
    exact .inr ⟨by omega, p, hp, rfl⟩

/-- What a cycle writes to the registers of an entry. -/
theorem Refines.present_step (h : Refines t) (hlegal : t.Legal i) {o : Nat} {e : RobEntry}
    (he : (t.present i)[o]? = some e) :
    e.robIdx = t.entry o ∧
      e.Shows ((t.step i).rob.robInfo (t.entry o)) ((t.step i).rob.robState (t.entry o)) := by
  have hroom := room h.range hlegal
  have hcount : (t.present i).length = t.rob.ptr.count robDepth + i.push.length := by
    simp [present, pushed, h.length]
  obtain ⟨ho, -⟩ := List.getElem?_eq_some_iff.mp he
  rw [hcount] at ho
  have hidx : t.entry o < robDepth := Ring.slot_lt h.range.pos _ _
  have hinfo : (t.step i).rob.robInfo (t.entry o) = _ :=
    ROBFIFO.step_robInfo h.range.push hidx (by omega)
  have hstate : (t.step i).rob.robState (t.entry o) = _ :=
    ROBFIFO.step_robState h.range.push hidx (by omega)
  have hpush : ROBFIFO.pushAt t.rob.ptr.push (t.entry o) 0 i.push = _ :=
    ROBFIFO.pushAt_slot h.range (by omega) hroom
  rw [hinfo, hstate, hpush, completionAt_eq_find hlegal.distinct, ← h.length]
  obtain ⟨old, hold, rfl⟩ | ⟨hnew, p, hp, rfl⟩ := present_getElem? he
  · -- an entry that was in the queue
    have hlt : o < t.queue.length := (List.getElem?_eq_some_iff.mp hold).1
    have hname := h.named o old hold
    obtain ⟨holdInfo, holdState⟩ := h.holds o old hold
    rw [if_neg (by omega)]
    simp only [Option.map_none, Option.getD_none, RobEntry.complete, hname, RobEntry.Shows]
    cases i.completions.find? fun c => c.robIdx == t.entry o with
    | none => exact ⟨hname, holdInfo, holdState⟩
    | some c => exact ⟨rfl, holdInfo, rfl⟩
  · -- an entry that is pushed
    rw [h.length] at hnew hp ⊢
    have hslot : Ring.slot robDepth t.rob.ptr.push (o - t.rob.ptr.count robDepth) = t.entry o := by
      rw [Ring.Pointers.push_eq_slot h.range, Ring.slot_slot, Nat.add_sub_cancel' hnew]
      rfl
    have hnone : (i.completions.find? fun c => c.robIdx == t.entry o) = none := by
      rw [List.find?_eq_none]
      intro c hc hno
      obtain ⟨e', he', hname⟩ := hlegal.inFlight c hc
      obtain ⟨k, hk, rfl⟩ := List.getElem_of_mem he'
      have hentry := h.named k t.queue[k] (List.getElem?_eq_getElem hk)
      rw [beq_iff_eq, hname, hentry] at hno
      have heq := Ring.slot_inj (by rw [h.length] at hk; omega) (by omega) hno
      rw [h.length] at hk
      omega
    rw [if_pos hnew, hp, hnone]
    exact ⟨hslot, rfl, rfl⟩

theorem Refines.step (h : Refines t) (hlegal : t.Legal i) : Refines (t.step i) := by
  have hroom := room h.range hlegal
  have hpop := popCount_le (t := t) (i := i)
  have hptr : (t.step i).rob.ptr = if i.flush then {} else
      t.rob.ptr.advance robDepth i.push.length (t.popCount i) := ROBFIFO.step_ptr
  have hqueue : (t.step i).queue = t.queueNext i := rfl
  cases hflush : i.flush with
  | true =>
    rw [hflush, if_pos rfl] at hptr
    have hempty : (t.step i).queue = [] := by rw [hqueue, RobTrace.queueNext, hflush, if_pos rfl]
    have hcount : (t.step i).rob.ptr.count robDepth = 0 := by rw [hptr]; rfl
    refine ⟨ROBFIFO.step_inRange h.range, by rw [hempty, hcount, List.length_nil], ?_, ?_, ?_⟩
    · simp [hempty]
    · simp [hempty]
    · intro j hj
      omega
  | false =>
    rw [hflush, if_neg Bool.false_ne_true] at hptr
    rw [h.queueNext hflush] at hqueue
    have hcount : (t.step i).rob.ptr.count robDepth =
        t.rob.ptr.count robDepth + i.push.length - t.popCount i := by
      rw [hptr]
      exact Ring.Pointers.count_advance h.range hroom hpop
    have hentry : ∀ j, (t.step i).entry j = t.entry (t.popCount i + j) := by
      intro j
      rw [entry, hptr]
      exact Ring.slot_slot _ _ _
    refine ⟨ROBFIFO.step_inRange h.range, ?_, ?_, ?_, ?_⟩
    · rw [hqueue, hcount, List.length_drop]
      simp [present, pushed, h.length]
    · intro j e he
      rw [hqueue, List.getElem?_drop] at he
      rw [hentry]
      exact (h.present_step hlegal he).1
    · intro j e he
      rw [hqueue, List.getElem?_drop] at he
      rw [hentry]
      exact (h.present_step hlegal he).2
    · intro j hj
      rw [hentry]
      refine ⟨(ROBFIFO.step_popInfo j).trans (by rw [Ring.slot_slot]; rfl), ?_⟩
      exact (ROBFIFO.step_popState h.range hpop hroom (by omega)).trans
        (by rw [Ring.slot_slot]; rfl)

/-- In every reachable state the pop ports present the queue. -/
theorem presents (h : machine.Reachable t) : Presents t :=
  (Clocked.Machine.invariant (P := Refines) (fun _ => Refines.of_init)
    (fun _ _ => Refines.step) h).shows

instance (t : RobTrace) (i : Inputs) : Decidable (machine.legal t i) :=
  decidable_of_iff
    (i.push.length ≤ decodeWidth ∧
      (∀ k < i.push.length, t.rob.ptr.pushReady robDepth k = true) ∧
      (∀ c ∈ i.completions, ∃ e ∈ t.queue, c.robIdx = e.robIdx) ∧
      (i.completions.map Completion.robIdx).Nodup)
    ⟨fun ⟨h1, h2, h3, h4⟩ => ⟨h1, h2, h3, h4⟩, fun h => ⟨h.width, h.ready, h.inFlight, h.distinct⟩⟩

/-- Three instructions enter; the second completes in the cycle in which the first
leaves and a fourth enters. -/
def completeNextHead : List Inputs :=
  [{ push := [{}, { uop := { pc := 4 } }, { uop := { pc := 8 } }] },
   { completions := [{ unit := .mem, robIdx := 1, uop := {}, result := 7 }]
     push := [{ uop := { pc := 12 } }]
     ready := fun j => j == 0 }]

theorem presents_completeNextHead :
    ((machine.run {} completeNextHead).rob.popState 0).intResult = 7 ∧
      Presents (machine.run {} completeNextHead) :=
  ⟨by decide +kernel, presents (Clocked.Machine.Reachable.run
    (Clocked.Machine.Reachable.reset (⟨rfl, rfl⟩ : Init {})) (by decide +kernel))⟩

end RobTrace

end NopCore
