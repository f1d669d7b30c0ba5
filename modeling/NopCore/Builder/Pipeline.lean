import NopCore.Lib.System
import Mathlib.Tactic

/-!
# Pipelines

The stages of a pipeline are connected in one way for all pipelines of the core. A stage
is stuck if it or one behind it is halted. It can be removed on its own, and a flush
removes everything in front of some stage. An instruction leaves its stage when this is
not stuck, and it goes on to the next one unless it has been removed.

Two registers go with each stage but the first. One tells whether there is an instruction
in it that counts. The other one tells whether an instruction that counted has entered and
is still there; state machines that must be run to their end look at it. The first stage
always has something to offer again when it is not stuck.

The instructions are numbered in the order in which they come to the first stage. `places`
records where each of them is, by the instruction's own rules and without the registers.
-/

namespace NopCore

namespace Pipeline

/-- The signals of a stage that the plugins set, and the word that comes to the first
stage next. -/
structure Inputs (α : Type*) where
  haltItself : Nat → Bool := fun _ => false
  haltByOther : Nat → Bool := fun _ => false
  removeIt : Nat → Bool := fun _ => false
  flushIt : Nat → Bool := fun _ => false
  flushNext : Nat → Bool := fun _ => false
  next : α

/-- The number of stages, and those that nothing may be removed from. -/
structure Config where
  stages : Nat
  unremovable : Nat → Bool := fun _ => false
  nonempty : 0 < stages

section Arbitration

variable {α : Type*} (c : Config) (i : Inputs α) (k : Nat)

/-- A stage is stuck if it is halted, by itself or by something else, or if a later one
is. -/
def isStuck : Bool :=
  (List.range c.stages).any fun j => decide (k ≤ j) && (i.haltItself j || i.haltByOther j)

def isFlushed : Bool :=
  ((List.range c.stages).any fun j => decide (k < j) && i.flushNext j) ||
    (List.range c.stages).any fun j => decide (k ≤ j) && i.flushIt j

def removeIt : Bool := i.removeIt k || (!c.unremovable k && isFlushed c i k)

variable {c i k}

theorem isStuck_iff : isStuck c i k = true ↔
    ∃ j < c.stages, k ≤ j ∧ (i.haltItself j || i.haltByOther j) = true := by
  simp [isStuck, List.any_eq_true]

/-- Whatever is in front of a stage that is stuck is stuck. -/
theorem isStuck_of_le {l : Nat} (h : isStuck c i l = true) (hk : k ≤ l) :
    isStuck c i k = true := by
  obtain ⟨j, hj, hl, hhalt⟩ := isStuck_iff.mp h
  exact isStuck_iff.mpr ⟨j, hj, hk.trans hl, hhalt⟩

/-- The equation by which the stages are connected. -/
theorem isStuck_eq (hk : k < c.stages) : isStuck c i k = (i.haltItself k ||
    (i.haltByOther k || (List.range c.stages).any fun j => decide (k < j) && isStuck c i j)) := by
  rw [Bool.eq_iff_iff]
  simp only [Bool.or_eq_true, List.any_eq_true, List.mem_range, Bool.and_eq_true,
    decide_eq_true_eq]
  constructor
  · intro hstuck
    obtain ⟨j, hj, hle, hhalt⟩ := isStuck_iff.mp hstuck
    rcases Nat.eq_or_lt_of_le hle with rfl | hlt
    · rcases (Bool.or_eq_true _ _).mp hhalt with hself | hother
      · exact .inl hself
      · exact .inr (.inl hother)
    · exact .inr (.inr ⟨j, hj, hlt, isStuck_iff.mpr ⟨j, hj, Nat.le_refl j, hhalt⟩⟩)
  · rintro (hself | hother | ⟨j, hj, hlt, hstuck⟩)
    · exact isStuck_iff.mpr ⟨k, hk, Nat.le_refl k, by rw [hself, Bool.true_or]⟩
    · exact isStuck_iff.mpr ⟨k, hk, Nat.le_refl k, by rw [hother, Bool.or_true]⟩
    · exact isStuck_of_le hstuck (Nat.le_of_lt hlt)

end Arbitration

end Pipeline

/-- The registers between the stages. `data` stands for what goes along with an
instruction. -/
structure Pipeline (α : Type*) where
  isValid : Nat → Bool
  isValidOnEntry : Nat → Bool
  data : Nat → α

namespace Pipeline

variable {α : Type*} (c : Config) (s : Pipeline α) (i : Inputs α)

/-- What is in stage `k` goes on to the next one. -/
def isMoving (k : Nat) : Bool := !isStuck c i k && !removeIt c i k

def nextValid : Nat → Bool
  | 0 => if !isStuck c i 0 then true else if removeIt c i 0 then false else s.isValid 0
  | k + 1 =>
    if isMoving c i k then s.isValid k
    else if !isStuck c i (k + 1) || removeIt c i (k + 1) then false
    else s.isValid (k + 1)

def nextValidOnEntry : Nat → Bool
  | 0 => true
  | k + 1 =>
    if isMoving c i k then s.isValid k
    else if !isStuck c i (k + 1) then false
    else s.isValidOnEntry (k + 1)

/-- The first stage keeps its word while it is stuck. The others sample the stage in
front of them. -/
def nextData : Nat → α
  | 0 => if isStuck c i 0 then s.data 0 else i.next
  | k + 1 => if isStuck c i (k + 1) then s.data (k + 1) else s.data k

def step : Pipeline α where
  isValid := s.nextValid c i
  isValidOnEntry := s.nextValidOnEntry c i
  data := s.nextData c i

/-- Out of reset the first stage is valid. -/
structure Init (s : Pipeline α) : Prop where
  first : s.isValid 0 = true
  others : ∀ k, s.isValid (k + 1) = false ∧ s.isValidOnEntry (k + 1) = false

/-! ## Where an instruction is -/

/-- An instruction is in a stage, and may have been removed there; it has gone through all
stages; or it has left one of them after it had been removed. -/
inductive Place
  | inStage (k : Nat) (removed : Bool)
  | through
  | dropped
  deriving DecidableEq, Repr

/-- A cycle of one instruction. -/
def Place.move : Place → Place
  | .inStage k removed =>
    let removed := removed || removeIt c i k
    if isStuck c i k then .inStage k removed
    else if removed then .dropped
    else if k + 1 < c.stages then .inStage (k + 1) false
    else .through
  | place => place

variable {c s i}

theorem isMoving_iff {k : Nat} :
    isMoving c i k = true ↔ isStuck c i k = false ∧ removeIt c i k = false := by
  simp [isMoving]

theorem not_stuck_succ {k : Nat} (h : isStuck c i k = false) : isStuck c i (k + 1) = false := by
  rw [← Bool.not_eq_true] at h ⊢
  exact fun hstuck => h (isStuck_of_le hstuck (Nat.le_succ k))

/-- An instruction is in a stage because it has stayed there or because it has come from
the one in front. -/
theorem Place.move_eq_inStage {place : Place} {l : Nat} {removed' : Bool} :
    place.move c i = .inStage l removed' ↔
      (∃ removed, place = .inStage l removed ∧ isStuck c i l = true ∧
        removed' = (removed || removeIt c i l)) ∨
      ∃ k, place = .inStage k false ∧ isMoving c i k = true ∧ l = k + 1 ∧ l < c.stages ∧
        removed' = false := by
  cases place with
  | through => simp [move]
  | dropped => simp [move]
  | inStage k removed =>
    rw [move]
    cases hstuck : isStuck c i k with
    | true =>
      have hstays : isMoving c i k = false := by simp [isMoving, hstuck]
      rw [if_pos rfl]
      constructor
      · rintro ⟨⟩
        exact .inl ⟨removed, rfl, hstuck, rfl⟩
      · rintro (⟨r, heq, -, rfl⟩ | ⟨k', heq, hmoves, -⟩)
        · obtain ⟨rfl, rfl⟩ := Place.inStage.inj heq
          rfl
        · obtain ⟨rfl, -⟩ := Place.inStage.inj heq
          rw [hstays] at hmoves
          cases hmoves
    | false =>
      rw [if_neg Bool.false_ne_true]
      constructor
      · intro hnext
        split_ifs at hnext with hremoved hlast
        · simp only [Bool.or_eq_true, not_or, Bool.not_eq_true] at hremoved
          obtain ⟨rfl, rfl⟩ := Place.inStage.inj hnext
          exact .inr ⟨k, by rw [hremoved.1], isMoving_iff.mpr ⟨hstuck, hremoved.2⟩, rfl, hlast,
            rfl⟩
      · rintro (⟨r, heq, hstays, -⟩ | ⟨k', heq, hmoves, rfl, hlast, rfl⟩)
        · obtain ⟨rfl, -⟩ := Place.inStage.inj heq
          rw [hstuck] at hstays
          cases hstays
        · obtain ⟨rfl, rfl⟩ := Place.inStage.inj heq
          rw [(isMoving_iff.mp hmoves).2, if_neg (by decide), if_pos hlast]

end Pipeline

/-- A pipeline with the record of its instructions. -/
structure PipelineTrace (α : Type*) where
  pipe : Pipeline α
  places : List Pipeline.Place
  words : List α

namespace PipelineTrace

open Pipeline

variable {α : Type*} (c : Config) (t : PipelineTrace α) (i : Inputs α)

def step : PipelineTrace α where
  pipe := t.pipe.step c i
  places := t.places.map (Place.move c i) ++
    if isStuck c i 0 then [] else [.inStage 0 false]
  words := t.words ++ if isStuck c i 0 then [] else [i.next]

/-- One instruction is in the first stage. -/
structure Init (t : PipelineTrace α) : Prop where
  pipe : t.pipe.Init
  places : t.places = [.inStage 0 false]
  words : t.words = [t.pipe.data 0]

def machine : Clocked.Machine (PipelineTrace α) (Inputs α) where
  init := Init
  legal := fun _ _ => True
  step := step c

/-- The registers tell where the instructions are. -/
structure Represents (c : Config) (t : PipelineTrace α) : Prop where
  /-- Every instruction has its word. -/
  length : t.words.length = t.places.length
  /-- What is in a stage is in one of the pipeline, and the stage has its word. -/
  inStage : ∀ (n k : Nat) (removed : Bool), t.places[n]? = some (Place.inStage k removed) →
    k < c.stages ∧ t.words[n]? = some (t.pipe.data k)
  /-- An older instruction is in a later stage. -/
  order : ∀ (n m k l : Nat) (removed removed' : Bool), n < m →
    t.places[n]? = some (Place.inStage k removed) →
    t.places[m]? = some (Place.inStage l removed') → l < k
  valid : ∀ k < c.stages, t.pipe.isValid k = true ↔
    ∃ n : Nat, t.places[n]? = some (Place.inStage k false)
  validOnEntry : ∀ k, k + 1 < c.stages → (t.pipe.isValidOnEntry (k + 1) = true ↔
    ∃ (n : Nat) (removed : Bool), t.places[n]? = some (Place.inStage (k + 1) removed))

variable {c t i}

/-- The instruction with a number is where it has gone from where it was, or it has just
come to the first stage. -/
theorem places_step {n : Nat} {place : Place} : (t.step c i).places[n]? = some place ↔
    (∃ old, t.places[n]? = some old ∧ old.move c i = place) ∨
      (n = t.places.length ∧ isStuck c i 0 = false ∧ place = .inStage 0 false) := by
  rw [step]
  dsimp only
  rcases Nat.lt_or_ge n t.places.length with hlt | hge
  · rw [List.getElem?_append_left (by simpa using hlt), List.getElem?_map, Option.map_eq_some_iff]
    constructor
    · exact .inl
    · rintro (hold | ⟨rfl, -⟩)
      · exact hold
      · exact absurd hlt (Nat.lt_irrefl _)
  · rw [List.getElem?_append_right (by simpa using hge), List.length_map,
      List.getElem?_eq_none hge]
    cases hstuck : isStuck c i 0 with
    | true => simp
    | false =>
      rw [if_neg Bool.false_ne_true, List.getElem?_singleton]
      constructor
      · intro hnew
        split_ifs at hnew with hzero
        exact .inr ⟨by omega, rfl, (Option.some.inj hnew).symm⟩
      · rintro (⟨old, hnone, -⟩ | ⟨rfl, -, rfl⟩)
        · cases hnone
        · simp

/-- What is in a stage after a cycle. -/
theorem inStage_step {n l : Nat} {removed' : Bool} :
    (t.step c i).places[n]? = some (Place.inStage l removed') ↔
      (∃ removed, t.places[n]? = some (Place.inStage l removed) ∧ isStuck c i l = true ∧
        removed' = (removed || removeIt c i l)) ∨
      (∃ k, t.places[n]? = some (Place.inStage k false) ∧ isMoving c i k = true ∧ l = k + 1 ∧
        l < c.stages ∧ removed' = false) ∨
      (n = t.places.length ∧ isStuck c i 0 = false ∧ l = 0 ∧ removed' = false) := by
  rw [places_step]
  constructor
  · rintro (⟨old, hold, hmove⟩ | ⟨hn, hstuck, heq⟩)
    · rcases Place.move_eq_inStage.mp hmove with ⟨r, rfl, hstay⟩ | ⟨k, rfl, hgo⟩
      · exact .inl ⟨r, hold, hstay⟩
      · exact .inr (.inl ⟨k, hold, hgo⟩)
    · obtain ⟨rfl, rfl⟩ := Place.inStage.inj heq
      exact .inr (.inr ⟨hn, hstuck, rfl, rfl⟩)
  · rintro (⟨r, hold, hstay⟩ | ⟨k, hold, hgo⟩ | ⟨hn, hstuck, rfl, rfl⟩)
    · exact .inl ⟨_, hold, Place.move_eq_inStage.mpr (.inl ⟨r, rfl, hstay⟩)⟩
    · exact .inl ⟨_, hold, Place.move_eq_inStage.mpr (.inr ⟨k, rfl, hgo⟩)⟩
    · exact .inr ⟨hn, hstuck, rfl⟩

theorem data_of_stuck {k : Nat} (h : isStuck c i k = true) :
    (t.step c i).pipe.data k = t.pipe.data k := by
  cases k with
  | zero => exact if_pos h
  | succ k => exact if_pos h

theorem data_of_moving {k : Nat} (h : isMoving c i k = true) :
    (t.step c i).pipe.data (k + 1) = t.pipe.data k := by
  have hfree := not_stuck_succ (isMoving_iff.mp h).1
  exact if_neg (by rw [hfree]; exact Bool.false_ne_true)

theorem inStage_kept (h : t.Represents c) {n l : Nat} {removed' : Bool}
    (hplace : (t.step c i).places[n]? = some (Place.inStage l removed')) :
    l < c.stages ∧ (t.step c i).words[n]? = some ((t.step c i).pipe.data l) := by
  have hword : ∀ {k r}, t.places[n]? = some (Place.inStage k r) →
      (t.step c i).words[n]? = t.words[n]? := by
    intro k r hold
    have hlt := (List.getElem?_eq_some_iff.mp hold).1
    rw [step]
    exact List.getElem?_append_left (by rw [h.length]; exact hlt)
  rcases inStage_step.mp hplace with ⟨r, hold, hstuck, -⟩ | ⟨k, hold, hmoves, rfl, hlast, -⟩ |
    ⟨rfl, hfree, rfl, -⟩
  · obtain ⟨hk, hdata⟩ := h.inStage n l r hold
    exact ⟨hk, by rw [hword hold, data_of_stuck hstuck, hdata]⟩
  · obtain ⟨-, hdata⟩ := h.inStage n k false hold
    exact ⟨hlast, by rw [hword hold, data_of_moving hmoves, hdata]⟩
  · refine ⟨c.nonempty, ?_⟩
    have hdata : (t.step c i).pipe.data 0 = i.next := if_neg (by rw [hfree]; decide)
    rw [hdata, step, ← h.length]
    simp [hfree]

/-- A later stage is never left behind by an earlier one. -/
theorem order_kept (h : t.Represents c) {n m k l : Nat} {removed removed' : Bool} (hnm : n < m)
    (hn : (t.step c i).places[n]? = some (Place.inStage k removed))
    (hm : (t.step c i).places[m]? = some (Place.inStage l removed')) : l < k := by
  have hlength : ∀ {m k r}, t.places[m]? = some (Place.inStage k r) → m < t.places.length :=
    fun hold => (List.getElem?_eq_some_iff.mp hold).1
  rcases inStage_step.mp hn with ⟨r, hold, hstuck, -⟩ | ⟨k, hold, hmoves, rfl, -, -⟩ | ⟨rfl, -⟩
  · rcases inStage_step.mp hm with ⟨r', hyounger, -, -⟩ | ⟨l, hyounger, hmoves, rfl, -, -⟩ |
      ⟨rfl, hfree, rfl, -⟩
    · exact h.order n m k l r r' hnm hold hyounger
    · have hlt := h.order n m k l r false hnm hold hyounger
      -- what is stuck in front of the younger one holds it back
      rcases Nat.eq_or_lt_of_le hlt with heq | hfar
      · have hheld := isStuck_of_le hstuck (Nat.le_of_lt hlt)
        rw [(isMoving_iff.mp hmoves).1] at hheld
        cases hheld
      · exact hfar
    · rw [isStuck_of_le hstuck (Nat.zero_le k)] at hfree
      cases hfree
  · rcases inStage_step.mp hm with ⟨r', hyounger, -, -⟩ | ⟨l, hyounger, -, rfl, -, -⟩ |
      ⟨rfl, -, rfl, -⟩
    · exact Nat.lt_succ_of_lt (h.order n m k l false r' hnm hold hyounger)
    · exact Nat.succ_lt_succ (h.order n m k l false false hnm hold hyounger)
    · exact Nat.succ_pos k
  · rcases inStage_step.mp hm with ⟨r', hyounger, -⟩ | ⟨l, hyounger, -⟩ | ⟨rfl, -⟩
    · exact absurd (hlength hyounger) (by omega)
    · exact absurd (hlength hyounger) (by omega)
    · exact absurd hnm (Nat.lt_irrefl _)

/-- An instruction counts in a stage after a cycle if it stays and is not removed, or if
it comes there. -/
theorem alive_step {l : Nat} :
    (∃ n : Nat, (t.step c i).places[n]? = some (Place.inStage l false)) ↔
      (isStuck c i l = true ∧ removeIt c i l = false ∧
        ∃ n : Nat, t.places[n]? = some (Place.inStage l false)) ∨
      (∃ k, isMoving c i k = true ∧ l = k + 1 ∧ l < c.stages ∧
        ∃ n : Nat, t.places[n]? = some (Place.inStage k false)) ∨
      (isStuck c i 0 = false ∧ l = 0) := by
  constructor
  · rintro ⟨n, hn⟩
    rcases inStage_step.mp hn with ⟨r, hold, hstuck, hkept⟩ | ⟨k, hold, hmoves, hl, hlast, -⟩ |
      ⟨-, hfree, hl, -⟩
    · obtain ⟨rfl, hremove⟩ := Bool.or_eq_false_iff.mp hkept.symm
      exact .inl ⟨hstuck, hremove, n, hold⟩
    · exact .inr (.inl ⟨k, hmoves, hl, hlast, n, hold⟩)
    · exact .inr (.inr ⟨hfree, hl⟩)
  · rintro (⟨hstuck, hremove, n, hold⟩ | ⟨k, hmoves, hl, hlast, n, hold⟩ | ⟨hfree, hl⟩)
    · exact ⟨n, inStage_step.mpr (.inl ⟨false, hold, hstuck, by rw [hremove]; rfl⟩)⟩
    · exact ⟨n, inStage_step.mpr (.inr (.inl ⟨k, hold, hmoves, hl, hlast, rfl⟩))⟩
    · exact ⟨t.places.length, inStage_step.mpr (.inr (.inr ⟨rfl, hfree, hl, rfl⟩))⟩

/-- A stage is occupied after a cycle if what is in it stays, or if something comes. -/
theorem occupied_step {l : Nat} :
    (∃ (n : Nat) (removed : Bool),
        (t.step c i).places[n]? = some (Place.inStage (l + 1) removed)) ↔
      (isStuck c i (l + 1) = true ∧
        ∃ (n : Nat) (removed : Bool), t.places[n]? = some (Place.inStage (l + 1) removed)) ∨
      (isMoving c i l = true ∧ l + 1 < c.stages ∧
        ∃ n : Nat, t.places[n]? = some (Place.inStage l false)) := by
  constructor
  · rintro ⟨n, removed', hn⟩
    rcases inStage_step.mp hn with ⟨r, hold, hstuck, -⟩ | ⟨k, hold, hmoves, hl, hlast, -⟩ |
      ⟨-, -, hl, -⟩
    · exact .inl ⟨hstuck, n, r, hold⟩
    · rw [← Nat.succ.inj hl] at hold hmoves
      exact .inr ⟨hmoves, hlast, n, hold⟩
    · cases hl
  · rintro (⟨hstuck, n, r, hold⟩ | ⟨hmoves, hlast, n, hold⟩)
    · exact ⟨n, _, inStage_step.mpr (.inl ⟨r, hold, hstuck, rfl⟩)⟩
    · exact ⟨n, false, inStage_step.mpr (.inr (.inl ⟨l, hold, hmoves, rfl, hlast, rfl⟩))⟩

theorem valid_kept (h : t.Represents c) {k : Nat} (hk : k < c.stages) :
    (t.step c i).pipe.isValid k = true ↔
      ∃ n : Nat, (t.step c i).places[n]? = some (Place.inStage k false) := by
  rw [alive_step]
  cases k with
  | zero =>
    have hstep : (t.step c i).pipe.isValid 0 = (if !isStuck c i 0 then true
      else if removeIt c i 0 then false else t.pipe.isValid 0) := rfl
    rw [hstep, ← h.valid 0 hk]
    cases isStuck c i 0 <;> cases removeIt c i 0 <;> simp
  | succ k =>
    have hstep : (t.step c i).pipe.isValid (k + 1) = (if isMoving c i k then t.pipe.isValid k
      else if !isStuck c i (k + 1) || removeIt c i (k + 1) then false
      else t.pipe.isValid (k + 1)) := rfl
    have hcomes : (∃ l, isMoving c i l = true ∧ k + 1 = l + 1 ∧ k + 1 < c.stages ∧
        ∃ n : Nat, t.places[n]? = some (Place.inStage l false)) ↔
        isMoving c i k = true ∧ t.pipe.isValid k = true := by
      rw [h.valid k (by omega)]
      constructor
      · rintro ⟨l, hmoves, hl, -, hold⟩
        rw [← Nat.succ.inj hl] at hmoves hold
        exact ⟨hmoves, hold⟩
      · rintro ⟨hmoves, hold⟩
        exact ⟨k, hmoves, rfl, hk, hold⟩
    rw [hstep, ← h.valid (k + 1) hk, hcomes]
    cases hmoves : isMoving c i k with
    | true =>
      have hfree := not_stuck_succ (isMoving_iff.mp hmoves).1
      simp [hfree]
    | false => cases isStuck c i (k + 1) <;> cases removeIt c i (k + 1) <;> simp

theorem validOnEntry_kept (h : t.Represents c) {k : Nat} (hk : k + 1 < c.stages) :
    (t.step c i).pipe.isValidOnEntry (k + 1) = true ↔ ∃ (n : Nat) (removed : Bool),
      (t.step c i).places[n]? = some (Place.inStage (k + 1) removed) := by
  have hstep : (t.step c i).pipe.isValidOnEntry (k + 1) =
    (if isMoving c i k then t.pipe.isValid k
      else if !isStuck c i (k + 1) then false else t.pipe.isValidOnEntry (k + 1)) := rfl
  rw [occupied_step, hstep, ← h.valid k (by omega), ← h.validOnEntry k hk]
  cases hmoves : isMoving c i k with
  | true =>
    have hfree := not_stuck_succ (isMoving_iff.mp hmoves).1
    simp [hfree, hk]
  | false => cases isStuck c i (k + 1) <;> simp

theorem represents_step (h : t.Represents c) : (t.step c i).Represents c where
  length := by
    simp only [step, List.length_append, List.length_map, h.length]
    split_ifs <;> rfl
  inStage _ _ _ hplace := inStage_kept h hplace
  order _ _ _ _ _ _ hnm hn hm := order_kept h hnm hn hm
  valid _ hk := valid_kept h hk
  validOnEntry _ hk := validOnEntry_kept h hk

theorem represents_of_init (h : t.Init) : t.Represents c := by
  have hone : ∀ {n : Nat} {place : Place}, t.places[n]? = some place →
      n = 0 ∧ place = .inStage 0 false := by
    intro n place hn
    rw [h.places, List.getElem?_singleton] at hn
    split_ifs at hn with hzero
    exact ⟨hzero, (Option.some.inj hn).symm⟩
  refine ⟨by rw [h.places, h.words]; rfl, ?_, ?_, ?_, ?_⟩
  · intro n k removed hn
    obtain ⟨rfl, heq⟩ := hone hn
    obtain ⟨rfl, rfl⟩ := Place.inStage.inj heq
    exact ⟨c.nonempty, by rw [h.words]; rfl⟩
  · intro n m k l removed removed' hnm hn hm
    have hzero := (hone hm).1
    omega
  · intro k hk
    cases k with
    | zero =>
      rw [h.pipe.first]
      exact ⟨fun _ => ⟨0, by rw [h.places]; rfl⟩, fun _ => rfl⟩
    | succ k =>
      rw [(h.pipe.others k).1]
      constructor
      · intro hvalid
        cases hvalid
      · rintro ⟨n, hn⟩
        cases (Place.inStage.inj (hone hn).2).1
  · intro k hk
    rw [(h.pipe.others k).2]
    constructor
    · intro hvalid
      cases hvalid
    · rintro ⟨n, removed, hn⟩
      cases (Place.inStage.inj (hone hn).2).1

/-- What a cycle does to the instructions. -/
structure Moves (c : Config) (t : PipelineTrace α) (i : Inputs α) : Prop where
  /-- One that counts and is not removed goes on if its stage is not stuck, and else stays. -/
  advances : ∀ (n k : Nat), t.places[n]? = some (Place.inStage k false) →
    removeIt c i k = false → (t.step c i).places[n]? = some
      (if isStuck c i k then Place.inStage k false
        else if k + 1 < c.stages then Place.inStage (k + 1) false else Place.through)
  /-- One that no longer counts has been removed, or flushed from its stage or a later one. -/
  removes : ∀ (n k : Nat), t.places[n]? = some (Place.inStage k false) →
    ((t.step c i).places[n]? = some Place.dropped ∨
      (t.step c i).places[n]? = some (Place.inStage k true)) →
    i.removeIt k = true ∨ ∃ j < c.stages, (k < j ∧ i.flushNext j = true) ∨
      (k ≤ j ∧ i.flushIt j = true)
  /-- One that has been removed stays where it is until the stage is not stuck. -/
  lingers : ∀ (n k : Nat), t.places[n]? = some (Place.inStage k true) →
    (t.step c i).places[n]? =
      some (if isStuck c i k then Place.inStage k true else Place.dropped)
  /-- One that has left the pipeline does not come back. -/
  leaves : ∀ (n : Nat) (place : Place), (place = .through ∨ place = .dropped) →
    t.places[n]? = some place → (t.step c i).places[n]? = some place

theorem isFlushed_iff {k : Nat} : isFlushed c i k = true ↔
    ∃ j < c.stages, (k < j ∧ i.flushNext j = true) ∨ (k ≤ j ∧ i.flushIt j = true) := by
  simp only [isFlushed, Bool.or_eq_true, List.any_eq_true, List.mem_range, Bool.and_eq_true,
    decide_eq_true_eq]
  constructor
  · rintro (⟨j, hj, hnext⟩ | ⟨j, hj, hflush⟩)
    · exact ⟨j, hj, .inl hnext⟩
    · exact ⟨j, hj, .inr hflush⟩
  · rintro ⟨j, hj, hnext | hflush⟩
    · exact .inl ⟨j, hj, hnext⟩
    · exact .inr ⟨j, hj, hflush⟩

theorem places_step_of {n : Nat} {place : Place} (h : t.places[n]? = some place) :
    (t.step c i).places[n]? = some (place.move c i) :=
  places_step.mpr (.inl ⟨place, h, rfl⟩)

theorem moves : t.Moves c i where
  advances n k hn hkept := by
    rw [places_step_of hn, Place.move, hkept]
    rfl
  removes n k hn hlost := by
    have hremove : removeIt c i k = true := by
      by_contra hkept
      rw [Bool.not_eq_true] at hkept
      rw [places_step_of hn, Place.move, hkept, Bool.or_false, if_neg Bool.false_ne_true] at hlost
      by_cases hstuck : isStuck c i k = true
      · simp [hstuck] at hlost
      · by_cases hlast : k + 1 < c.stages <;> simp [hstuck, hlast] at hlost
    rw [removeIt, Bool.or_eq_true, Bool.and_eq_true, isFlushed_iff] at hremove
    exact hremove.imp_right And.right
  lingers n k hn := by
    rw [places_step_of hn, Place.move]
    rfl
  leaves n place hgone hn := by
    rw [places_step_of hn]
    rcases hgone with rfl | rfl <;> rfl

theorem Represents.place_unique (h : t.Represents c) {n m k : Nat} {removed removed' : Bool}
    (hn : t.places[n]? = some (Place.inStage k removed))
    (hm : t.places[m]? = some (Place.inStage k removed')) : n = m := by
  rcases Nat.lt_trichotomy n m with hlt | heq | hlt
  · exact absurd (h.order n m k k _ _ hlt hn hm) (Nat.lt_irrefl k)
  · exact heq
  · exact absurd (h.order m n k k _ _ hlt hm hn) (Nat.lt_irrefl k)

/-- In every run, for any number of stages and whatever the plugins do, the registers tell
where the instructions are, no two are in one stage, older ones are further on, and each
goes its way by the rules above. -/
theorem arbitration (h : (machine c).Reachable t) :
    t.Represents c ∧
      (∀ (n m k : Nat) (removed removed' : Bool),
        t.places[n]? = some (Place.inStage k removed) →
        t.places[m]? = some (Place.inStage k removed') → n = m) ∧
      ∀ i, t.Moves c i := by
  have hrep : t.Represents c := by
    apply Clocked.Machine.invariant (fun t ht => represents_of_init ht) _ h
    intro t i ht _
    exact represents_step ht
  exact ⟨hrep, fun n m k r r' hn hm => hrep.place_unique hn hm, fun i => moves⟩

/-- Three stages. The second one halts while a flush removes what is in it, so that the
instruction stays and counts no longer; the one behind it goes on. -/
theorem arbitration_flushed :
    let c : Config := { stages := 3, nonempty := by decide }
    let start : PipelineTrace Nat :=
      ⟨⟨fun k => k == 0, fun k => k == 0, fun _ => 0⟩, [.inStage 0 false], [0]⟩
    let t := (machine c).run start
      [{ next := 1 }, { next := 2 },
       { next := 3, haltItself := fun k => k == 1, flushIt := fun k => k == 1 }]
    t.Represents c ∧ t.places = [.through, .inStage 1 true, .inStage 0 true] ∧
      t.pipe.isValid 1 = false ∧ t.pipe.isValidOnEntry 1 = true := by
  intro c start t
  have hreset : (machine c).Reachable start := .reset ⟨⟨rfl, fun _ => ⟨rfl, rfl⟩⟩, rfl, rfl⟩
  have hreach : (machine c).Reachable t :=
    hreset.run (Clocked.Machine.legal_of_forall (fun _ _ => trivial) _ _)
  exact ⟨(arbitration hreach).1, by decide, by decide, by decide⟩

end PipelineTrace

end NopCore
