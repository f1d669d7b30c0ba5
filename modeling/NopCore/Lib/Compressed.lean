import Mathlib.Data.Nat.Count

/-!
# A compressed queue

The slots of the queue are in registers, the valid ones first. Several elements may
be entered in a cycle, behind the last valid slot; several may leave, from any place,
and the slots behind them move up. Which slot moves where is decided by prefix sums of
the slots that leave.

`Holds` reads such registers as a list. Entering appends to it, and leaving removes
from it without a change of order. The push ports have to be used from the first on,
so lanes of which only some have an element are connected to them by their rank.
-/

namespace Compressed

variable {α : Type*} (depth : Nat) (queue : Nat → Option α)

/-- The slot is the first free one. -/
def validFall (j : Nat) : Bool := (queue j).isNone && (j == 0 || (queue (j - 1)).isSome)

def pushReady (i : Nat) : Bool := (queue (depth - i - 1)).isNone

/-- The push port that writes a slot, if any; of several the last one would. -/
def pushedBy (width : Nat) (push : Nat → Option α) (j : Nat) : Option Nat :=
  (List.range width).reverse.find? fun i => (push i).isSome && i ≤ j && validFall queue (j - i)

def enqueue (width : Nat) (push : Nat → Option α) : Nat → Option α := fun j =>
  match pushedBy queue width push j with
  | some i => push i
  | none => queue j

/-- The slots that leave among the first ones, up to and including `k`. -/
def popCount (mask : Nat → Bool) (k : Nat) : Nat := Nat.count (fun p => mask p) (k + 1)

/-- How far the slot that comes to `i` moves; of several distances the last one. -/
def distance (width : Nat) (mask : Nat → Bool) (i : Nat) : Option Nat :=
  ((List.range width).map (· + 1)).reverse.find? fun j =>
    if i + j < depth then popCount mask (i + j - 1) == j else popCount mask (depth - 1) == j

def compress (width : Nat) (mask : Nat → Bool) : Nat → Option α := fun i =>
  match distance depth width mask i with
  | some j => if i + j < depth then queue (i + j) else none
  | none => queue i

/-- Without a choice of slots: only the first one leaves. -/
def shift (pop : Bool) : Nat → Option α := fun i =>
  if pop then if i + 1 < depth then queue (i + 1) else none else queue i

/-- The lane connected to a port, if any: the one with as many used lanes in front of it.
Of several the last one would be. -/
def portIndex (width : Nat) (mask : Nat → Bool) (j : Nat) : Option Nat :=
  (List.range width).reverse.find? fun i => mask i && Nat.count (fun p => mask p) i == j

/-- The registers hold the elements of the list. -/
structure Holds (l : List α) : Prop where
  length_le : l.length ≤ depth
  slot : ∀ i < depth, queue i = l[i]?

variable {depth queue}

/-- The last number that satisfies a condition is found. -/
theorem find?_reverse {l : List Nat} {p : Nat → Bool} {k : Nat} (hk : k ∈ l) (hp : p k = true)
    (hlater : l.Pairwise (· < ·)) (hmax : ∀ j ∈ l, k < j → p j = false) :
    l.reverse.find? p = some k := by
  induction l using List.reverseRecOn with
  | nil => cases hk
  | append_singleton l x ih =>
    rw [List.reverse_append, List.reverse_singleton, List.singleton_append, List.find?_cons]
    rw [List.pairwise_append] at hlater
    by_cases hx : x = k
    · rw [hx, hp]
    · have hmem : k ∈ l := by simpa [Ne.symm hx] using hk
      rw [hmax x (by simp) (hlater.2.2 k hmem x (by simp))]
      exact ih hmem hlater.1 fun j hj => hmax j (by simp [hj])

theorem find?_reverse_eq_none {l : List Nat} {p : Nat → Bool} (h : ∀ j ∈ l, p j = false) :
    l.reverse.find? p = none := by
  rw [List.find?_eq_none]
  intro j hj
  simp [h j (List.mem_reverse.mp hj)]

/-! ## Connecting the ports -/

/-- Read from the first port on. -/
theorem filterMap_range_getElem? (l : List α) (n : Nat) :
    (List.range n).filterMap (fun j => l[j]?) = l.take n := by
  induction n with
  | zero => rfl
  | succ n ih =>
    rw [List.range_succ, List.filterMap_append, ih, List.take_add_one]
    cases hn : l[n]? <;> simp [hn]

/-- Ports of which the first ones are used give the list of what they carry. -/
theorem getElem?_filterMap_range {push : Nat → Option α} {n j : Nat}
    (hcont : ∀ j, (push (j + 1)).isSome = true → (push j).isSome = true) (hj : j < n) :
    ((List.range n).filterMap push)[j]? = push j := by
  induction n generalizing j with
  | zero => cases hj
  | succ n ih =>
    have hle : ((List.range n).filterMap push).length ≤ n :=
      (List.length_filterMap_le _ _).trans_eq List.length_range
    rw [List.range_succ, List.filterMap_append]
    cases hlast : push n with
    | none =>
      simp only [List.filterMap_cons, hlast, List.filterMap_nil, List.append_nil]
      rcases Nat.lt_succ_iff_lt_or_eq.mp hj with hlt | rfl
      · exact ih hlt
      · rw [hlast, List.getElem?_eq_none hle]
    | some x =>
      have hused : ∀ k, (push (n - k)).isSome = true := by
        intro k
        induction k with
        | zero => simp [hlast]
        | succ k hk =>
          by_cases hge : n ≤ k
          · rwa [show n - (k + 1) = n - k by omega]
          · apply hcont
            rwa [show n - (k + 1) + 1 = n - k by omega]
      have hfull : ((List.range n).filterMap push).length = n := by
        apply Nat.le_antisymm hle
        by_contra hshort
        have hout := ih (j := ((List.range n).filterMap push).length) (by omega)
        rw [List.getElem?_eq_none le_rfl] at hout
        have hsome := hused (n - ((List.range n).filterMap push).length)
        rw [show n - (n - ((List.range n).filterMap push).length) =
          ((List.range n).filterMap push).length by omega, ← hout] at hsome
        cases hsome
      rcases Nat.lt_succ_iff_lt_or_eq.mp hj with hlt | rfl
      · rw [List.getElem?_append_left (by omega)]
        exact ih hlt
      · rw [List.getElem?_append_right (by omega), hfull]
        simp [hlast]

section Ports

variable {β : Type*} {p : β → Bool}

theorem count_any (l : List β) :
    Nat.count (fun i => l[i]?.any p = true) l.length = (l.filter p).length := by
  induction l with
  | nil => rfl
  | cons x l ih =>
    rw [List.length_cons, Nat.count_succ', List.filter_cons]
    simp only [List.getElem?_cons_succ, List.getElem?_cons_zero, Option.any_some, ih]
    split_ifs <;> rfl

/-- The rank of an element that is kept is its place among those kept. -/
theorem filter_getElem? (l : List β) {j : Nat} (hj : j < (l.filter p).length) :
    ∃ i < l.length, l[i]?.any p = true ∧ Nat.count (fun i => l[i]?.any p = true) i = j ∧
      (l.filter p)[j]? = l[i]? := by
  induction l generalizing j with
  | nil => cases hj
  | cons x l ih =>
    by_cases hx : p x = true
    · rw [List.filter_cons_of_pos hx] at hj ⊢
      cases j with
      | zero => exact ⟨0, Nat.succ_pos _, hx, Nat.count_zero _, rfl⟩
      | succ j =>
        obtain ⟨i, hlt, hkept, hrank, heq⟩ := ih (Nat.lt_of_succ_lt_succ hj)
        refine ⟨i + 1, Nat.succ_lt_succ hlt, hkept, ?_, heq⟩
        rw [Nat.count_succ']
        simp [hrank, hx]
    · rw [List.filter_cons_of_neg hx] at hj ⊢
      obtain ⟨i, hlt, hkept, hrank, heq⟩ := ih hj
      refine ⟨i + 1, Nat.succ_lt_succ hlt, hkept, ?_, heq⟩
      rw [Nat.count_succ']
      simp [hrank, hx]

theorem lt_length_of_any {l : List β} {i : Nat} (hi : l[i]?.any p = true) : i < l.length := by
  by_contra hge
  rw [List.getElem?_eq_none (Nat.le_of_not_lt hge)] at hi
  cases hi

/-- The used lanes have the first ports. -/
theorem count_lt_of_any {l : List β} {i : Nat} (hi : l[i]?.any p = true) :
    Nat.count (fun i => l[i]?.any p = true) i < (l.filter p).length := by
  rw [← count_any l]
  exact Nat.count_strict_mono hi (lt_length_of_any hi)

/-- The ports are connected to the elements that are kept, in their order. -/
theorem portIndex_bind {l : List β} {width : Nat} (hwidth : l.length ≤ width) (j : Nat) :
    (portIndex width (fun i => l[i]?.any p) j).bind (fun i => l[i]?) = (l.filter p)[j]? := by
  by_cases hj : j < (l.filter p).length
  · obtain ⟨i, hlt, hkept, hrank, heq⟩ := filter_getElem? l hj
    have hfound : portIndex width (fun i => l[i]?.any p) j = some i := by
      apply find?_reverse
      · exact List.mem_range.mpr (by omega)
      · simpa [hrank] using hkept
      · exact List.pairwise_lt_range
      · intro k _ hlater
        by_contra hclaims
        rw [Bool.not_eq_false, Bool.and_eq_true, beq_iff_eq] at hclaims
        have hsame := Nat.count_injective hclaims.1 hkept (hclaims.2.trans hrank.symm)
        omega
    rw [hfound, heq]
    rfl
  · have hnone : portIndex width (fun i => l[i]?.any p) j = none := by
      apply find?_reverse_eq_none
      intro i _
      by_contra hclaims
      rw [Bool.not_eq_false, Bool.and_eq_true, beq_iff_eq] at hclaims
      have hrank : Nat.count (fun i => l[i]?.any p = true) i = j := hclaims.2
      have hlt := count_lt_of_any hclaims.1
      omega
    rw [hnone, List.getElem?_eq_none (Nat.le_of_not_lt hj)]
    rfl

theorem portIndex_isSome {l : List β} {width : Nat} (hwidth : l.length ≤ width) (j : Nat) :
    (portIndex width (fun i => l[i]?.any p) j).isSome = decide (j < (l.filter p).length) := by
  have hport := portIndex_bind (p := p) hwidth j
  cases hfound : portIndex width (fun i => l[i]?.any p) j with
  | none =>
    rw [hfound] at hport
    have hlast := List.getElem?_eq_none_iff.mp hport.symm
    simpa using hlast
  | some i =>
    have hused := List.find?_some hfound
    rw [Bool.and_eq_true, beq_iff_eq] at hused
    have hrank : Nat.count (fun i => l[i]?.any p = true) i = j := hused.2
    have hlt := count_lt_of_any hused.1
    simp only [Option.isSome_some, Bool.true_eq, decide_eq_true_eq]
    omega

end Ports

/-! ## Entering -/

theorem Holds.nil : Holds depth (fun _ => (none : Option α)) [] :=
  ⟨Nat.zero_le _, fun _ _ => rfl⟩

/-- The registers tell which list they hold. -/
theorem Holds.unique {l l' : List α} (h : Holds depth queue l) (h' : Holds depth queue l') :
    l = l' := by
  apply List.ext_getElem?
  intro k
  by_cases hk : k < depth
  · rw [← h.slot k hk, h'.slot k hk]
  · rw [List.getElem?_eq_none (h.length_le.trans (Nat.le_of_not_lt hk)),
      List.getElem?_eq_none (h'.length_le.trans (Nat.le_of_not_lt hk))]

theorem Holds.pushReady_iff {l : List α} (h : Holds depth queue l) {i : Nat} (hi : i < depth) :
    pushReady depth queue i = true ↔ l.length + i < depth := by
  rw [pushReady, h.slot _ (by omega)]
  simp only [Option.isNone_iff_eq_none, List.getElem?_eq_none_iff]
  omega

theorem Holds.validFall_iff {l : List α} (h : Holds depth queue l) {j : Nat} (hj : j < depth) :
    validFall queue j = true ↔ j = l.length := by
  rw [validFall, h.slot j hj, h.slot (j - 1) (by omega)]
  simp only [Bool.and_eq_true, Bool.or_eq_true, Option.isNone_iff_eq_none, beq_iff_eq,
    List.getElem?_eq_none_iff, isSome_getElem?]
  omega

/-- Elements that find room are appended in the order of their ports. -/
theorem Holds.enqueue {l ps : List α} {width : Nat} {push : Nat → Option α}
    (h : Holds depth queue l) (hroom : l.length + ps.length ≤ depth) (hwidth : ps.length ≤ width)
    (hpush : ∀ i, push i = ps[i]?) :
    Holds depth (enqueue queue width push) (l ++ ps) where
  length_le := by simpa using hroom
  slot j hj := by
    have hwrites : ∀ i, ((push i).isSome && decide (i ≤ j) && validFall queue (j - i)) = true ↔
        i < ps.length ∧ j = l.length + i := by
      intro i
      rw [Bool.and_eq_true, Bool.and_eq_true, h.validFall_iff (by omega), hpush]
      simp only [isSome_getElem?, decide_eq_true_eq]
      omega
    rw [Compressed.enqueue]
    by_cases hnew : l.length ≤ j ∧ j < l.length + ps.length
    · have hfound : pushedBy queue width push j = some (j - l.length) := by
        refine find?_reverse (by simp; omega) ((hwrites _).mpr (by omega)) List.pairwise_lt_range ?_
        intro i _ hlt
        rw [← Bool.not_eq_true, hwrites]
        omega
      rw [hfound, List.getElem?_append_right hnew.1]
      exact hpush _
    · have hnone : pushedBy queue width push j = none := by
        refine find?_reverse_eq_none fun i _ => ?_
        rw [← Bool.not_eq_true, hwrites]
        omega
      rw [hnone]
      by_cases hlt : j < l.length
      · rw [List.getElem?_append_left hlt]
        exact h.slot j hj
      · rw [List.getElem?_eq_none (by simp; omega)]
        exact (h.slot j hj).trans (List.getElem?_eq_none (by omega))

/-! ## Leaving -/

/-- The elements that stay. -/
def survivors (mask : Nat → Bool) (l : List α) : List α :=
  (l.zipIdx.filter fun x => !mask x.2).map Prod.fst

theorem survivors_append_singleton (mask : Nat → Bool) (l : List α) (x : α) :
    survivors mask (l ++ [x]) = survivors mask l ++ if mask l.length then [] else [x] := by
  rw [survivors, survivors, List.zipIdx_append, List.filter_append, List.map_append]
  cases hmask : mask l.length <;> simp [hmask]

theorem survivors_sublist (mask : Nat → Bool) (l : List α) : (survivors mask l).Sublist l := by
  have hsub : ((l.zipIdx.filter fun x => !mask x.2).map Prod.fst).Sublist
      (l.zipIdx.map Prod.fst) := List.filter_sublist.map _
  rwa [List.zipIdx_map_fst] at hsub

/-- Those that stay, by their places. -/
theorem survivors_eq_filterMap (mask : Nat → Bool) (l : List α) :
    survivors mask l =
      ((List.range l.length).filter fun p => !mask p).filterMap fun p => l[p]? := by
  induction l using List.reverseRecOn with
  | nil => rfl
  | append_singleton l x ih =>
    have hold : (((List.range l.length).filter fun p => !mask p).filterMap
        fun p => (l ++ [x])[p]?) =
        ((List.range l.length).filter fun p => !mask p).filterMap fun p => l[p]? := by
      apply List.filterMap_congr
      intro p hp
      exact List.getElem?_append_left (List.mem_range.mp (List.mem_filter.mp hp).1)
    rw [survivors_append_singleton, ih, List.length_append, List.length_singleton,
      List.range_succ, List.filter_append, List.filterMap_append, hold]
    cases hmask : mask l.length <;> simp [hmask]

theorem survivors_map {β : Type*} (mask : Nat → Bool) (f : α → β) (l : List α) :
    survivors mask (l.map f) = (survivors mask l).map f := by
  induction l using List.reverseRecOn with
  | nil => rfl
  | append_singleton l x ih =>
    rw [List.map_append, List.map_singleton, survivors_append_singleton,
      survivors_append_singleton, ih, List.length_map, List.map_append]
    cases mask l.length <;> rfl

/-- What is behind the slots that leave stays. -/
theorem survivors_append {mask : Nat → Bool} {l : List α}
    (hmask : ∀ p, mask p = true → p < l.length)
    (ps : List α) : survivors mask (l ++ ps) = survivors mask l ++ ps := by
  induction ps using List.reverseRecOn with
  | nil => rw [List.append_nil, List.append_nil]
  | append_singleton ps x ih =>
    have hstays : mask (l ++ ps).length = false := by
      by_contra hleaves
      have hlt := hmask _ (Bool.of_not_eq_false hleaves)
      rw [List.length_append] at hlt
      omega
    rw [← List.append_assoc, survivors_append_singleton, ih, hstays, List.append_assoc]
    rfl

theorem survivors_of_none {mask : Nat → Bool} (hmask : ∀ p, mask p = false) (l : List α) :
    survivors mask l = l := by
  induction l using List.reverseRecOn with
  | nil => rfl
  | append_singleton l x ih =>
    rw [survivors_append_singleton, ih, hmask]
    rfl

theorem survivors_head (l : List α) : survivors (fun p => p == 0 && true) l = l.tail := by
  induction l using List.reverseRecOn with
  | nil => rfl
  | append_singleton l x ih =>
    rw [survivors_append_singleton, ih]
    cases l <;> rfl

/-- Those that stay and those that leave are all of them. -/
theorem survivors_append_perm {mask : Nat → Bool} {named : List Nat} {l : List α}
    (hnamed : ∀ p, mask p = true ↔ p ∈ named) (hnodup : named.Nodup)
    (hrange : ∀ p ∈ named, p < l.length) :
    (survivors mask l ++ named.filterMap fun p => l[p]?).Perm l := by
  have hplaces : named.Perm ((List.range l.length).filter fun p => mask p) := by
    refine (List.perm_ext_iff_of_nodup hnodup (List.nodup_range.filter _)).mpr fun p => ?_
    rw [List.mem_filter, List.mem_range, hnamed]
    exact ⟨fun hp => ⟨hrange p hp, hp⟩, And.right⟩
  have hsplit : (((List.range l.length).filter fun p => mask p) ++
      (List.range l.length).filter fun p => !mask p).Perm (List.range l.length) :=
    List.filter_append_perm _ _
  have hall := hsplit.filterMap fun p => l[p]?
  rw [List.filterMap_append, ← survivors_eq_filterMap, filterMap_range_getElem?,
    List.take_length] at hall
  exact (List.perm_append_comm.trans ((hplaces.filterMap _).append_right _)).trans hall

theorem length_survivors (mask : Nat → Bool) (l : List α) :
    (survivors mask l).length + Nat.count (fun p => mask p) l.length = l.length := by
  induction l using List.reverseRecOn with
  | nil => simp [survivors]
  | append_singleton l x ih =>
    rw [survivors_append_singleton, List.length_append, List.length_append,
      List.length_singleton, Nat.count_succ]
    cases mask l.length <;> simp <;> omega

/-- The `i`-th element that stays has as many leaving elements in front of it as it
moves. -/
theorem survivors_getElem? (mask : Nat → Bool) (l : List α) {i : Nat}
    (hi : i < (survivors mask l).length) : ∃ c, i + c < l.length ∧
      Nat.count (fun p => mask p) (i + c) = c ∧ mask (i + c) = false ∧
      (survivors mask l)[i]? = l[i + c]? := by
  induction l using List.reverseRecOn with
  | nil => simp [survivors] at hi
  | append_singleton l x ih =>
    have hlength := length_survivors mask l
    rw [survivors_append_singleton] at hi ⊢
    by_cases hold : i < (survivors mask l).length
    · obtain ⟨c, hlt, hcount, hmask, heq⟩ := ih hold
      refine ⟨c, by simp; omega, hcount, hmask, ?_⟩
      rw [List.getElem?_append_left hold, List.getElem?_append_left hlt, heq]
    · rw [List.length_append] at hi
      have hstays : mask l.length = false := by
        by_contra hmask
        rw [Bool.of_not_eq_false hmask, if_pos rfl, List.length_nil] at hi
        omega
      simp only [hstays, Bool.false_eq_true, if_false, List.length_singleton] at hi ⊢
      have hlast : i + Nat.count (fun p => mask p) l.length = l.length := by omega
      refine ⟨Nat.count (fun p => mask p) l.length, by simp; omega, by rw [hlast], ?_, ?_⟩
      · rw [hlast, hstays]
      · rw [hlast, List.getElem?_append_right (by omega), List.getElem?_append_right le_rfl]
        congr 1
        omega

theorem count_add_le (mask : Nat → Bool) (n m : Nat) :
    Nat.count (fun p => mask p) (n + m) ≤ Nat.count (fun p => mask p) n + m := by
  rw [Nat.count_add]
  exact Nat.add_le_add_left (Nat.count_le _) _

/-- Behind the last element nothing leaves. -/
theorem count_of_le {mask : Nat → Bool} {l : List α} (hmask : ∀ p, mask p = true → p < l.length)
    {n : Nat} (hn : l.length ≤ n) :
    Nat.count (fun p => mask p) n = Nat.count (fun p => mask p) l.length := by
  obtain ⟨m, rfl⟩ := Nat.exists_eq_add_of_le hn
  induction m with
  | zero => rfl
  | succ m ih =>
    have hstays : ¬mask (l.length + m) = true := fun hleaves => by
      have hlt := hmask _ hleaves
      omega
    rw [← Nat.add_assoc, Nat.count_succ, if_neg hstays, Nat.add_zero]
    exact ih (by omega)

/-- The distances at which a slot could be found, and the one that is used. -/
theorem distance_eq {mask : Nat → Bool} {width i c : Nat} (hc : 1 ≤ c) (hwidth : c ≤ width)
    (hfits : (if i + c < depth then popCount mask (i + c - 1) == c
      else popCount mask (depth - 1) == c) = true)
    (hmax : ∀ j, c < j → (if i + j < depth then popCount mask (i + j - 1) == j
      else popCount mask (depth - 1) == j) = false) :
    distance depth width mask i = some c := by
  refine find?_reverse ?_ hfits ?_ fun j _ => hmax j
  · simp only [List.mem_map, List.mem_range]
    exact ⟨c - 1, by omega, by omega⟩
  · rw [List.pairwise_map]
    exact List.pairwise_lt_range.imp fun h => by omega

theorem distance_eq_none {mask : Nat → Bool} {width i : Nat}
    (hnone : ∀ j, 0 < j → (if i + j < depth then popCount mask (i + j - 1) == j
      else popCount mask (depth - 1) == j) = false) :
    distance depth width mask i = none := by
  refine find?_reverse_eq_none fun j hj => hnone j ?_
  obtain ⟨k, -, rfl⟩ := List.mem_map.mp hj
  omega

/-- The slots move up over those that leave, in their order. -/
theorem Holds.compress {l : List α} {width : Nat} {mask : Nat → Bool} (h : Holds depth queue l)
    (hmask : ∀ p, mask p = true → p < l.length)
    (hwidth : Nat.count (fun p => mask p) l.length ≤ width) :
    Holds depth (compress depth queue width mask) (survivors mask l) where
  length_le := by
    have hlength := length_survivors mask l
    have hle := h.length_le
    omega
  slot i hi := by
    have hlength := length_survivors mask l
    have hle := h.length_le
    have htotal : popCount mask (depth - 1) = Nat.count (fun p => mask p) l.length := by
      rw [popCount, Nat.sub_add_cancel (by omega), count_of_le hmask hle]
    rw [Compressed.compress]
    by_cases hstays : i < (survivors mask l).length
    · obtain ⟨c, hlt, hcount, hfree, heq⟩ := survivors_getElem? mask l hstays
      -- farther slots have too few leaving ones in front of them
      have hfar : ∀ j, c < j → Nat.count (fun p => mask p) (i + j) < j := by
        intro j hj
        obtain ⟨m, rfl⟩ : ∃ m, j = c + 1 + m := ⟨j - c - 1, by omega⟩
        have hbound := count_add_le mask (i + c + 1) m
        rw [Nat.count_succ, hcount, hfree] at hbound
        rw [show i + (c + 1 + m) = i + c + 1 + m by omega]
        simp only [Bool.false_eq_true, if_false] at hbound
        omega
      have hmax : ∀ j, c < j → (if i + j < depth then popCount mask (i + j - 1) == j
          else popCount mask (depth - 1) == j) = false := by
        intro j hj
        have hlt' := hfar j hj
        split_ifs with hin
        · rw [popCount, Nat.sub_add_cancel (by omega), beq_eq_false_iff_ne]
          omega
        · have hall := count_of_le hmask (n := i + j) (by omega)
          rw [htotal, beq_eq_false_iff_ne]
          omega
      rcases Nat.eq_zero_or_pos c with hzero | hpos
      · rw [distance_eq_none fun j hj => hmax j (by omega), heq, hzero]
        exact h.slot i hi
      · have hsum : Nat.count (fun p => mask p) (i + c) ≤
            Nat.count (fun p => mask p) l.length := Nat.count_monotone _ hlt.le
        have hfits : (if i + c < depth then popCount mask (i + c - 1) == c
            else popCount mask (depth - 1) == c) = true := by
          rw [if_pos (by omega), popCount, Nat.sub_add_cancel (by omega), hcount]
          exact beq_self_eq_true c
        rw [distance_eq hpos (by omega) hfits hmax, heq]
        exact (if_pos (by omega)).trans (h.slot _ (by omega))
    · rw [List.getElem?_eq_none (by omega)]
      have hmax : ∀ j, Nat.count (fun p => mask p) l.length < j →
          (if i + j < depth then popCount mask (i + j - 1) == j
            else popCount mask (depth - 1) == j) = false := by
        intro j hj
        split_ifs with hin
        · have hall := count_of_le hmask (n := i + j) (by omega)
          rw [popCount, Nat.sub_add_cancel (by omega), hall, beq_eq_false_iff_ne]
          omega
        · rw [htotal, beq_eq_false_iff_ne]
          omega
      rcases Nat.eq_zero_or_pos (Nat.count (fun p => mask p) l.length) with hzero | hpos
      · rw [distance_eq_none fun j hj => hmax j (by omega)]
        exact (h.slot i hi).trans (List.getElem?_eq_none (by omega))
      · have hfits : (if i + Nat.count (fun p => mask p) l.length < depth then
              popCount mask (i + Nat.count (fun p => mask p) l.length - 1) ==
                Nat.count (fun p => mask p) l.length
            else popCount mask (depth - 1) == Nat.count (fun p => mask p) l.length) = true := by
          split_ifs
          · have hall := count_of_le hmask
              (n := i + Nat.count (fun p => mask p) l.length) (by omega)
            rw [popCount, Nat.sub_add_cancel (by omega), hall]
            exact beq_self_eq_true _
          · rw [htotal]
            exact beq_self_eq_true _
        rw [distance_eq hpos hwidth hfits hmax]
        change (if i + Nat.count (fun p => mask p) l.length < depth then _ else _) = none
        split_ifs with hin
        · exact (h.slot _ hin).trans (List.getElem?_eq_none (by omega))
        · rfl

/-- If nothing but the first slot ever leaves, there is no choice of slots to make. -/
theorem compress_one (pop : Bool) :
    compress depth queue 1 (fun k => pop && k == 0) = shift depth queue pop := by
  have hcount : ∀ k, popCount (fun k => pop && k == 0) k = if pop then 1 else 0 := by
    intro k
    rw [popCount, Nat.count_succ']
    cases pop <;> simp
  have hone : ((List.range 1).map (· + 1)).reverse = [1] := rfl
  have hdistance : ∀ i, distance depth 1 (fun k => pop && k == 0) i =
      if pop then some 1 else none := by
    intro i
    rw [distance, hone]
    simp only [hcount, List.find?_cons, List.find?_nil]
    cases pop <;> simp
  funext i
  rw [compress, hdistance, shift]
  cases pop <;> rfl

/-- The first element leaves. -/
theorem Holds.shift {l : List α} (h : Holds depth queue l) (pop : Bool) :
    Holds depth (shift depth queue pop) (if pop then l.tail else l) := by
  cases pop with
  | false => exact h
  | true =>
    refine ⟨?_, ?_⟩
    · have hle := h.length_le
      simp only [if_true, List.length_tail]
      omega
    · intro i hi
      have hle := h.length_le
      simp only [Compressed.shift, if_true, List.getElem?_tail]
      split_ifs with hin
      · exact h.slot _ hin
      · exact (List.getElem?_eq_none (by omega)).symm

/-- At most as many slots leave as are named. -/
theorem count_le_length {mask : Nat → Bool} {named : List Nat}
    (hnamed : ∀ p, mask p = true → p ∈ named) (n : Nat) :
    Nat.count (fun p => mask p) n ≤ named.length := by
  rw [Nat.count_eq_card_filter_range]
  refine (Finset.card_le_card fun p hp => ?_).trans named.toFinset_card_le
  exact List.mem_toFinset.mpr (hnamed p (Finset.mem_filter.mp hp).2)

/-! ## What the queue does not look at

The elements are moved as they are, so a part of each can be followed alone. -/

section Map

variable {β : Type*} (f : α → β)

theorem enqueue_map (queue : Nat → Option α) (width : Nat) (push : Nat → Option α) (k : Nat) :
    enqueue (fun j => (queue j).map f) width (fun j => (push j).map f) k =
      (enqueue queue width push k).map f := by
  have hfall : validFall (fun j => (queue j).map f) = validFall queue := by
    funext j
    simp [validFall]
  have hport : pushedBy (fun j => (queue j).map f) width (fun j => (push j).map f) k =
      pushedBy queue width push k := by
    simp [pushedBy, hfall]
  rw [enqueue, enqueue, hport]
  cases pushedBy queue width push k <;> rfl

theorem compress_map (depth : Nat) (queue : Nat → Option α) (width : Nat) (mask : Nat → Bool)
    (k : Nat) : compress depth (fun j => (queue j).map f) width mask k =
      (compress depth queue width mask k).map f := by
  rw [compress, compress]
  cases distance depth width mask k with
  | none => rfl
  | some j =>
    dsimp only
    split_ifs <;> rfl

theorem shift_map (depth : Nat) (queue : Nat → Option α) (pop : Bool) (k : Nat) :
    shift depth (fun j => (queue j).map f) pop k = (shift depth queue pop k).map f := by
  simp only [shift]
  split_ifs <;> rfl

end Map

end Compressed
