import Mathlib.Data.List.Basic
import Mathlib.Data.List.Nodup
import Mathlib.Tactic

/-!
# Rings

A ring of `D` slots with a push pointer, a pop pointer and one bit that tells
full from empty when the two coincide. The bit records the direction of the last
change of occupancy, so a cycle that pushes and pops equally many elements
leaves it alone.

`leading` is the selection that turns port handshakes into a count: the number of
ports before the first one that does not fire.

`window` reads a run of slots as a list. Advancing the base of a window drops
elements, extending it appends them, and a write outside leaves it as it was:
the contents of a queue, and of what lies around it, are windows of one memory.
-/

namespace Ring

/-- The slot at distance `i` from `base`. -/
def slot (D base i : Nat) : Nat := (base + i) % D

variable {D : Nat}

theorem slot_lt (hD : 0 < D) (base i : Nat) : slot D base i < D := Nat.mod_lt _ hD

@[simp] theorem slot_zero {base : Nat} (h : base < D) : slot D base 0 = base :=
  Nat.mod_eq_of_lt h

@[simp] theorem slot_slot (base i j : Nat) : slot D (slot D base i) j = slot D base (i + j) := by
  simp only [slot, Nat.mod_add_mod, Nat.add_assoc]

/-- Going once around leads back to the same slot. -/
theorem slot_period {base : Nat} (h : base < D) : slot D base D = base := by
  rw [slot, Nat.add_mod_right, Nat.mod_eq_of_lt h]

theorem slot_inj {base i j : Nat} (hi : i < D) (hj : j < D)
    (h : slot D base i = slot D base j) : i = j := by
  have hcong : i % D = j % D := Nat.ModEq.add_left_cancel' base h
  rwa [Nat.mod_eq_of_lt hi, Nat.mod_eq_of_lt hj] at hcong

/-- The distance from `base` to a slot. -/
def offset (D base k : Nat) : Nat := (k + D - base) % D

theorem offset_lt (hD : 0 < D) (base k : Nat) : offset D base k < D := Nat.mod_lt _ hD

theorem slot_offset {base k : Nat} (hbase : base < D) (hk : k < D) :
    slot D base (offset D base k) = k := by
  unfold slot offset
  rw [Nat.add_mod_mod, show base + (k + D - base) = k + D by omega, Nat.add_mod_right,
    Nat.mod_eq_of_lt hk]

theorem offset_slot {base i : Nat} (hbase : base < D) (hi : i < D) :
    offset D base (slot D base i) = i :=
  slot_inj (offset_lt (by omega) _ _) hi
    (slot_offset hbase (slot_lt (by omega) base i))

/-! ## Ports -/

/-- The number of ports among the first `n` that fire before one does not. -/
def leading (n : Nat) (fire : Nat → Bool) : Nat :=
  ((List.range n).find? fun i => !fire i).getD n

/-- Ports that fire up to a bound. -/
theorem leading_eq_min {n c : Nat} {fire : Nat → Bool} (h : ∀ i < n, fire i = true ↔ i < c) :
    leading n fire = min n c := by
  unfold leading
  cases hfind : (List.range n).find? fun i => !fire i with
  | none =>
    have hall : ∀ i < n, fire i = true := by simpa using hfind
    have hle : n ≤ c := by
      by_contra hlt
      exact absurd ((h c (by omega)).mp (hall c (by omega))) (by omega)
    simp [hle]
  | some k =>
    obtain ⟨hk, as, bs, hsplit, has⟩ := List.find?_eq_some_iff_append.mp hfind
    have hlen : as.length = k := by
      have hget := congrArg (fun l => l[as.length]?) hsplit
      have hlt : as.length < n := by
        have := congrArg List.length hsplit
        simp only [List.length_range, List.length_append, List.length_cons] at this
        omega
      simpa [hlt] using hget
    have hkn : k < n := List.mem_range.mp (List.mem_of_find?_eq_some hfind)
    have hck : c ≤ k := by
      by_contra hlt
      have hfire := (h k hkn).mpr (by omega)
      simp [hfire] at hk
    have hkc : k ≤ c := by
      by_contra hlt
      have hmem : c ∈ as := by
        have hc : (List.range n)[c]? = some c := List.getElem?_range (by omega)
        rw [hsplit, List.getElem?_append_left (by omega)] at hc
        exact List.mem_of_getElem? hc
      have hfire : fire c = true := by simpa using has c hmem
      exact absurd ((h c (by omega)).mp hfire) (by omega)
    simp only [Option.getD_some]
    omega

/-- The ports in front of the first that does not fire all fire. -/
theorem fire_of_lt_leading {n k : Nat} {fire : Nat → Bool} (h : k < leading n fire) :
    k < n ∧ fire k = true := by
  unfold leading at h
  cases hfind : (List.range n).find? fun i => !fire i with
  | none =>
    rw [hfind, Option.getD_none] at h
    have hall : ∀ i < n, fire i = true := by simpa using hfind
    exact ⟨h, hall k h⟩
  | some m =>
    rw [hfind, Option.getD_some] at h
    obtain ⟨-, hmem, hbefore⟩ := List.find?_range_eq_some.mp hfind
    have hlt := List.mem_range.mp hmem
    exact ⟨by omega, by simpa using hbefore k h⟩

/-! ## Pointers -/

structure Pointers where
  push : Nat := 0
  pop : Nat := 0
  rising : Bool := false
  deriving DecidableEq, Repr

namespace Pointers

/-- The number of occupied slots. -/
def count (D : Nat) (p : Pointers) : Nat :=
  if p.push = p.pop then if p.rising then D else 0 else offset D p.pop p.push

/-- Push `k` elements and pop `m`. -/
def advance (D : Nat) (p : Pointers) (k m : Nat) : Pointers where
  push := slot D p.push k
  pop := slot D p.pop m
  rising := if k = m then p.rising else decide (m < k)

/-- The pointers lie inside the ring. -/
structure InRange (D : Nat) (p : Pointers) : Prop where
  push : p.push < D
  pop : p.pop < D

theorem InRange.pos {p : Pointers} (h : p.InRange D) : 0 < D := Nat.zero_lt_of_lt h.push

theorem InRange.advance {p : Pointers} (h : p.InRange D) (k m : Nat) :
    (p.advance D k m).InRange D :=
  ⟨slot_lt h.pos _ _, slot_lt h.pos _ _⟩

theorem count_le {p : Pointers} (h : p.InRange D) : p.count D ≤ D := by
  unfold count
  split_ifs
  · exact Nat.le_refl D
  · exact Nat.zero_le D
  · exact Nat.le_of_lt (offset_lt h.pos _ _)

/-- The push pointer is the slot behind the occupied ones. -/
theorem push_eq_slot {p : Pointers} (h : p.InRange D) : p.push = slot D p.pop (p.count D) := by
  unfold count
  split_ifs with heq hrise
  · rw [slot_period h.pop, heq]
  · rw [slot_zero h.pop, heq]
  · rw [slot_offset h.pop h.push]

/-- The pop pointer is the slot behind the free ones. -/
theorem pop_eq_slot {p : Pointers} (h : p.InRange D) :
    p.pop = slot D p.push (D - p.count D) := by
  rw [push_eq_slot h, slot_slot, Nat.add_sub_cancel' (count_le h), slot_period h.pop]

theorem count_advance {p : Pointers} {k m : Nat} (h : p.InRange D)
    (hk : p.count D + k ≤ D) (hm : m ≤ p.count D) :
    (p.advance D k m).count D = p.count D + k - m := by
  have hpush : (p.advance D k m).push = slot D p.pop (p.count D + k) := by
    change slot D p.push k = _
    rw [push_eq_slot h, slot_slot]
  have hslot : slot D (p.advance D k m).pop (p.count D + k - m) = (p.advance D k m).push := by
    change slot D (slot D p.pop m) _ = _
    rw [hpush, slot_slot, show m + (p.count D + k - m) = p.count D + k by omega]
  have hrange := h.advance k m
  have hpos := h.pos
  by_cases hfull : p.count D + k - m = D
  · -- Full: the pointers meet after a cycle that pushed more, or nothing moved.
    have heq : (p.advance D k m).push = (p.advance D k m).pop := by
      rw [← hslot, hfull, slot_period hrange.pop]
    have hrise : (p.advance D k m).rising = true := by
      simp only [Pointers.advance]
      split_ifs with hkm
      · have hall : p.count D = D := by omega
        unfold count at hall
        split_ifs at hall with h1 h2
        · exact h2
        · exact absurd hall (by omega)
        · exact absurd hall (Nat.ne_of_lt (offset_lt hpos _ _))
      · simp only [decide_eq_true_eq]
        omega
    rw [count, if_pos heq, if_pos hrise, hfull]
  · have hlt : p.count D + k - m < D := by omega
    by_cases hzero : p.count D + k - m = 0
    · have heq : (p.advance D k m).push = (p.advance D k m).pop := by
        rw [← hslot, hzero, slot_zero hrange.pop]
      have hfall : (p.advance D k m).rising = false := by
        simp only [Pointers.advance]
        split_ifs with hkm
        · have hnone : p.count D = 0 := by omega
          unfold count at hnone
          split_ifs at hnone with h1 h2
          · omega
          · simpa using h2
          · have hpp := slot_offset (D := D) h.pop h.push
            rw [hnone, slot_zero h.pop] at hpp
            exact absurd hpp.symm h1
        · simp only [decide_eq_false_iff_not]
          omega
      rw [count, if_pos heq, hfall, hzero]
      rfl
    · have hne : (p.advance D k m).push ≠ (p.advance D k m).pop := by
        intro heq
        rw [← hslot] at heq
        exact hzero (slot_inj hlt hpos (heq.trans (slot_zero hrange.pop).symm))
      rw [count, if_neg hne]
      conv_lhs => rw [← hslot]
      exact offset_slot hrange.pop hlt

/-! ### Handshakes

Port `i` of a multi-port queue compares `i` with the distance between the
pointers, which is ambiguous exactly when they coincide. -/

def isEmpty (p : Pointers) : Bool := p.push == p.pop && !p.rising

def isFull (p : Pointers) : Bool := p.push == p.pop && p.rising

def pushReady (D : Nat) (p : Pointers) (i : Nat) : Bool :=
  p.isEmpty || decide (i < offset D p.push p.pop)

def popValid (D : Nat) (p : Pointers) (i : Nat) : Bool :=
  p.isFull || decide (i < offset D p.pop p.push)

theorem popValid_iff {p : Pointers} {i : Nat} (hi : i < D) :
    p.popValid D i = true ↔ i < p.count D := by
  have hself : offset D p.pop p.pop = 0 := by
    rw [offset, Nat.add_sub_cancel_left, Nat.mod_self]
  simp only [popValid, isFull, count, Bool.or_eq_true, Bool.and_eq_true, beq_iff_eq,
    decide_eq_true_eq]
  split_ifs with heq hrise
  · simp [heq, hrise, hi]
  · simp [heq, hrise, hself]
  · simp [heq]

/-- The history bit tells empty from full. -/
theorem isEmpty_iff {p : Pointers} (h : p.InRange D) : p.isEmpty = true ↔ p.count D = 0 := by
  simp only [isEmpty, count, Bool.and_eq_true, beq_iff_eq, Bool.not_eq_true']
  split_ifs with heq hrise
  · simp [heq, hrise, Nat.ne_of_gt h.pos]
  · simp [heq, hrise]
  · have hne : offset D p.pop p.push ≠ 0 := by
      intro hzero
      have hslot := slot_offset h.pop h.push
      rw [hzero, slot_zero h.pop] at hslot
      exact heq hslot.symm
    simp [heq, hne]

theorem isFull_iff {p : Pointers} (h : p.InRange D) : p.isFull = true ↔ p.count D = D := by
  simp only [isFull, count, Bool.and_eq_true, beq_iff_eq]
  split_ifs with heq hrise
  · simp [heq, hrise]
  · simp [heq, hrise, Nat.ne_of_lt h.pos]
  · simp [heq, Nat.ne_of_lt (offset_lt h.pos p.pop p.push)]

theorem pushReady_iff {p : Pointers} {i : Nat} (h : p.InRange D) (hi : i < D) :
    p.pushReady D i = true ↔ i + p.count D < D := by
  have hempty := isEmpty_iff h
  have hle := count_le h
  simp only [pushReady, Bool.or_eq_true, hempty, decide_eq_true_eq]
  by_cases hzero : p.count D = 0
  · simp [hzero, hi]
  · have hoff : offset D p.push p.pop = D - p.count D := by
      conv_lhs => rw [pop_eq_slot h]
      exact offset_slot h.push (by omega)
    rw [hoff]
    omega

/-- Pushes to ports that are ready find room. -/
theorem room {p : Pointers} {n : Nat} (h : p.InRange D) (hn : n ≤ D)
    (hready : ∀ k < n, p.pushReady D k = true) : p.count D + n ≤ D := by
  have hle := count_le h
  rcases Nat.eq_zero_or_pos n with hzero | hpos
  · omega
  · have hlast := hready (n - 1) (by omega)
    rw [pushReady_iff h (by omega)] at hlast
    omega

end Pointers

/-! ## Windows -/

section Window

variable {α : Type*} (mem : Nat → α)

/-- The contents of `n` slots from `base` on. -/
def window (D : Nat) (mem : Nat → α) (base n : Nat) : List α :=
  (List.range n).map fun i => mem (slot D base i)

@[simp] theorem window_length (base n : Nat) : (window D mem base n).length = n := by
  simp [window]

@[simp] theorem window_zero (base : Nat) : window D mem base 0 = [] := rfl

theorem window_getElem? {base n i : Nat} (h : i < n) :
    (window D mem base n)[i]? = some (mem (slot D base i)) := by
  simp [window, h]

theorem window_add (base m n : Nat) :
    window D mem base (m + n) = window D mem base m ++ window D mem (slot D base m) n := by
  simp only [window, List.range_add, List.map_append, List.map_map, slot_slot]
  rfl

/-- The slots around the ring are all slots, once each. -/
theorem window_perm {base : Nat} (h : base < D) :
    (window D mem base D).Perm ((List.range D).map mem) := by
  have hperm : ((List.range D).map (slot D base)).Perm (List.range D) := by
    refine (List.subperm_of_subset ?_ ?_).perm_of_length_le (by simp)
    · refine List.Nodup.map_on ?_ List.nodup_range
      intro i hi j hj heq
      exact slot_inj (List.mem_range.mp hi) (List.mem_range.mp hj) heq
    · intro k hk
      obtain ⟨i, -, rfl⟩ := List.mem_map.mp hk
      exact List.mem_range.mpr (slot_lt (by omega) base i)
  have hmap := hperm.map mem
  rwa [List.map_map] at hmap

theorem window_drop (base : Nat) {m n : Nat} (h : m ≤ n) :
    (window D mem base n).drop m = window D mem (slot D base m) (n - m) := by
  obtain ⟨k, rfl⟩ := Nat.exists_eq_add_of_le h
  rw [window_add, List.drop_left' (window_length mem base m), Nat.add_sub_cancel_left]

theorem window_take (base : Nat) {m n : Nat} (h : m ≤ n) :
    (window D mem base n).take m = window D mem base m := by
  obtain ⟨k, rfl⟩ := Nat.exists_eq_add_of_le h
  rw [window_add, List.take_left' (window_length mem base m)]

theorem window_congr {mem mem' : Nat → α} {base n : Nat}
    (h : ∀ i < n, mem (slot D base i) = mem' (slot D base i)) :
    window D mem base n = window D mem' base n := by
  refine List.map_congr_left fun i hi => h i (List.mem_range.mp hi)

/-- The memory after the elements of a list are written to consecutive slots. -/
def write (D : Nat) (mem : Nat → α) (base : Nat) (vs : List α) (idx : Nat) : α :=
  (vs[offset D base idx]?).getD (mem idx)

theorem write_slot {base i : Nat} (hbase : base < D) (hi : i < D) (vs : List α) :
    write D mem base vs (slot D base i) = (vs[i]?).getD (mem (slot D base i)) := by
  rw [write, offset_slot hbase hi]

/-- Where the written slots are not reached, a window stays as it was. -/
theorem window_write_of_le {base i n : Nat} (hbase : base < D) (vs : List α)
    (hi : vs.length ≤ i) (hn : i + n ≤ D) :
    window D (write D mem base vs) (slot D base i) n = window D mem (slot D base i) n := by
  refine window_congr fun j hj => ?_
  rw [slot_slot, write_slot mem hbase (by omega), List.getElem?_eq_none (by omega)]
  rfl

theorem window_write_self {base : Nat} (hbase : base < D) (vs : List α) (hvs : vs.length ≤ D) :
    window D (write D mem base vs) base vs.length = vs := by
  refine List.ext_getElem (window_length _ _ _) fun i hi hi' => ?_
  simp only [window, List.getElem_map, List.getElem_range]
  rw [write_slot mem hbase (by omega), List.getElem?_eq_getElem hi']
  rfl

end Window

end Ring
