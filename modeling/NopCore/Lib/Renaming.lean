import Mathlib.Data.List.Perm.Basic
import Mathlib.Data.List.Nodup
import Mathlib.Tactic

/-!
# Register renaming

Architectural names of type `A` are mapped to registers of type `P`. A write
takes a register from the free list and becomes pending; the mapping that
younger instructions see is the committed one with all pending writes applied.
When the oldest pending write commits, the register it replaces becomes free.
Discarding the pending writes frees the registers they took.

Every pending write remembers the mapping it replaced. As long as these records
form a chain, none of the operations creates or loses a register.
-/

open scoped List

namespace Renaming

/-- The name `dst` moves from register `old` to register `new`. -/
structure Write (A P : Type*) where
  dst : A
  new : P
  old : P
  deriving DecidableEq, Repr

variable {A P : Type*} [DecidableEq A]

/-- The mapping after a list of writes. -/
def apply (f : A → P) (ws : List (Write A P)) : A → P :=
  ws.foldl (fun f w => Function.update f w.dst w.new) f

@[simp] theorem apply_nil (f : A → P) : apply f [] = f := rfl

@[simp] theorem apply_cons (f : A → P) (w : Write A P) (ws : List (Write A P)) :
    apply f (w :: ws) = apply (Function.update f w.dst w.new) ws := rfl

theorem apply_append (f : A → P) (ws vs : List (Write A P)) :
    apply f (ws ++ vs) = apply (apply f ws) vs := List.foldl_append

/-- Every write records the mapping that was in force before it. -/
def Chained : (A → P) → List (Write A P) → Prop
  | _, [] => True
  | f, w :: ws => w.old = f w.dst ∧ Chained (Function.update f w.dst w.new) ws

@[simp] theorem chained_nil (f : A → P) : Chained f [] := trivial

@[simp] theorem chained_cons (f : A → P) (w : Write A P) (ws : List (Write A P)) :
    Chained f (w :: ws) ↔ w.old = f w.dst ∧ Chained (Function.update f w.dst w.new) ws := Iff.rfl

theorem chained_append (f : A → P) (ws vs : List (Write A P)) :
    Chained f (ws ++ vs) ↔ Chained f ws ∧ Chained (apply f ws) vs := by
  induction ws generalizing f with
  | nil => simp
  | cons w ws ih => simp [ih, and_assoc]

/-- The registers in use by a committed mapping on the names `dom`. -/
def mapped (dom : List A) (f : A → P) : List P := dom.map f

/-- A write exchanges one register of the mapping for another. -/
theorem mapped_update {dom : List A} {a : A} (ha : a ∈ dom) (hdom : dom.Nodup) (f : A → P)
    (v : P) : (f a :: mapped dom (Function.update f a v)).Perm (v :: mapped dom f) := by
  induction dom with
  | nil => cases ha
  | cons b dom ih =>
    obtain ⟨hb, hdom⟩ := List.nodup_cons.mp hdom
    simp only [mapped, List.map_cons]
    rcases List.mem_cons.mp ha with rfl | ha
    · rw [Function.update_self]
      have hrest : dom.map (Function.update f a v) = dom.map f := by
        refine List.map_congr_left fun c hc => Function.update_of_ne ?_ _ _
        rintro rfl
        exact hb hc
      rw [hrest]
      exact List.Perm.swap _ _ _
    · have hne : b ≠ a := by
        rintro rfl
        exact hb ha
      rw [Function.update_of_ne hne]
      exact (List.Perm.swap _ _ _).trans
        (((ih ha hdom).cons (f b)).trans (List.Perm.swap _ _ _))

/-- Committing a chain of writes trades the registers it replaces for those it
installs. -/
theorem mapped_apply {dom : List A} (hdom : dom.Nodup) {f : A → P} {ws : List (Write A P)}
    (hchain : Chained f ws) (hdst : ∀ w ∈ ws, w.dst ∈ dom) :
    (ws.map Write.old ++ mapped dom (apply f ws)).Perm (ws.map Write.new ++ mapped dom f) := by
  induction ws generalizing f with
  | nil => exact List.Perm.refl _
  | cons w ws ih =>
    obtain ⟨hold, hchain⟩ := hchain
    have hw : w.dst ∈ dom := hdst w List.mem_cons_self
    have hrest := ih hchain fun v hv => hdst v (List.mem_cons_of_mem w hv)
    simp only [List.map_cons, List.cons_append, apply_cons, hold]
    calc f w.dst :: (ws.map Write.old ++ mapped dom (apply (Function.update f w.dst w.new) ws))
      _ ~ f w.dst :: (ws.map Write.new ++ mapped dom (Function.update f w.dst w.new)) :=
          hrest.cons _
      _ ~ ws.map Write.new ++ f w.dst :: mapped dom (Function.update f w.dst w.new) :=
          List.perm_middle.symm
      _ ~ ws.map Write.new ++ w.new :: mapped dom f :=
          (mapped_update hw hdom f w.new).append_left _
      _ ~ w.new :: (ws.map Write.new ++ mapped dom f) := List.perm_middle

/-- The renaming state: free registers, pending writes from the oldest on, and
the committed mapping. -/
structure State (A P : Type*) where
  free : List P
  pending : List (Write A P)
  map : A → P

namespace State

variable (s : State A P)

/-- The mapping seen by the next instruction. -/
def speculative : A → P := apply s.map s.pending

/-- Every register, by where it is. -/
def registers (dom : List A) : List P :=
  s.free ++ s.pending.map Write.new ++ mapped dom s.map

/-- Rename instructions that make the writes `ws`. -/
def allocate (ws : List (Write A P)) : State A P :=
  { s with free := s.free.drop ws.length, pending := s.pending ++ ws }

/-- Commit the `n` oldest writes. -/
def commit (n : Nat) : State A P where
  free := s.free ++ (s.pending.take n).map Write.old
  pending := s.pending.drop n
  map := apply s.map (s.pending.take n)

/-- Give up all pending writes. -/
def discard : State A P where
  free := s.free ++ s.pending.map Write.new
  pending := []
  map := s.map

/-- The pending writes are a chain over names of `dom`. -/
structure Ok (dom : List A) : Prop where
  chained : Chained s.map s.pending
  dst : ∀ w ∈ s.pending, w.dst ∈ dom

variable {s} {dom : List A}

theorem Ok.allocate (h : s.Ok dom) {ws : List (Write A P)} (hchain : Chained s.speculative ws)
    (hdst : ∀ w ∈ ws, w.dst ∈ dom) : (s.allocate ws).Ok dom := by
  refine ⟨(chained_append _ _ _).mpr ⟨h.chained, hchain⟩, ?_⟩
  intro w hw
  rcases List.mem_append.mp hw with hw | hw
  · exact h.dst w hw
  · exact hdst w hw

theorem Ok.commit (h : s.Ok dom) (n : Nat) : (s.commit n).Ok dom := by
  have hsplit := h.chained
  rw [← List.take_append_drop n s.pending, chained_append] at hsplit
  exact ⟨hsplit.2, fun w hw => h.dst w (List.mem_of_mem_drop hw)⟩

theorem Ok.discard (s : State A P) (dom : List A) : s.discard.Ok dom :=
  ⟨trivial, by simp [State.discard]⟩

@[simp] theorem speculative_allocate (ws : List (Write A P)) :
    (s.allocate ws).speculative = apply s.speculative ws := apply_append _ _ _

@[simp] theorem speculative_commit (n : Nat) : (s.commit n).speculative = s.speculative := by
  change apply (apply s.map (s.pending.take n)) (s.pending.drop n) = _
  rw [← apply_append, List.take_append_drop]
  rfl

omit [DecidableEq A] in
/-- Registers taken from the free list become pending. -/
theorem registers_allocate {ws : List (Write A P)}
    (hnew : ws.map Write.new = s.free.take ws.length) :
    ((s.allocate ws).registers dom).Perm (s.registers dom) := by
  simp only [registers, allocate, List.map_append, hnew]
  refine List.Perm.append_right _ ?_
  calc s.free.drop ws.length ++ (s.pending.map Write.new ++ s.free.take ws.length)
    _ ~ s.pending.map Write.new ++ s.free.take ws.length ++ s.free.drop ws.length :=
        List.perm_append_comm
    _ ~ s.pending.map Write.new ++ s.free := by
        rw [List.append_assoc, List.take_append_drop]
    _ ~ s.free ++ s.pending.map Write.new := List.perm_append_comm

/-- A commit exchanges registers between the pending writes, the mapping and the
free list. -/
theorem registers_commit (h : s.Ok dom) (hdom : dom.Nodup) (n : Nat) :
    ((s.commit n).registers dom).Perm (s.registers dom) := by
  have hchain := h.chained
  rw [← List.take_append_drop n s.pending, chained_append] at hchain
  have hswap := mapped_apply hdom hchain.1 fun w hw => h.dst w (List.mem_of_mem_take hw)
  have hpending : s.pending.map Write.new =
      (s.pending.take n).map Write.new ++ (s.pending.drop n).map Write.new := by
    rw [← List.map_append, List.take_append_drop]
  simp only [registers, commit, hpending]
  calc s.free ++ (s.pending.take n).map Write.old ++ (s.pending.drop n).map Write.new ++
        mapped dom (apply s.map (s.pending.take n))
    _ ~ s.free ++ (s.pending.drop n).map Write.new ++ ((s.pending.take n).map Write.old ++
          mapped dom (apply s.map (s.pending.take n))) := by
        simp only [List.append_assoc]
        exact (List.perm_append_comm_assoc _ _ _).append_left _
    _ ~ s.free ++ (s.pending.drop n).map Write.new ++
          ((s.pending.take n).map Write.new ++ mapped dom s.map) := hswap.append_left _
    _ ~ s.free ++ ((s.pending.take n).map Write.new ++ (s.pending.drop n).map Write.new) ++
          mapped dom s.map := by
        simp only [List.append_assoc]
        exact (List.perm_append_comm_assoc _ _ _).append_left _

omit [DecidableEq A] in
theorem registers_discard : (s.discard.registers dom).Perm (s.registers dom) := by
  simp [registers, discard]

/-! ## Earlier mappings

An instruction reads registers that were mapped when it was renamed. None of them is freed
before it commits itself, since only a later write replaces them. -/

/-- Behind the first `k` pending writes some name is mapped to `p`. -/
def Maps (dom : List A) (s : State A P) (k : Nat) (p : P) : Prop :=
  k ≤ s.pending.length ∧ ∃ a ∈ dom, apply s.map (s.pending.take k) a = p

theorem apply_mem {f : A → P} {ws : List (Write A P)} {a : A} (ha : a ∈ dom) :
    apply f ws a ∈ ws.map Write.new ++ mapped dom f := by
  induction ws using List.reverseRecOn with
  | nil => exact List.mem_map_of_mem ha
  | append_singleton ws w ih =>
    rw [apply_append, apply_cons, apply_nil, Function.update_apply, List.map_append,
      List.append_assoc]
    split_ifs
    · apply List.mem_append_right
      exact List.mem_append_left _ List.mem_cons_self
    · rcases List.mem_append.mp ih with hnew | hold
      · exact List.mem_append_left _ hnew
      · apply List.mem_append_right
        exact List.mem_append_right _ hold

variable {k : Nat} {p : P}

/-- What an earlier mapping has is still in use. -/
theorem Maps.mem_live (h : s.Maps dom k p) :
    p ∈ s.pending.map Write.new ++ mapped dom s.map := by
  obtain ⟨-, a, ha, rfl⟩ := h
  rcases List.mem_append.mp (apply_mem ha) with hnew | hold
  · exact List.mem_append_left _ (((List.take_sublist _ _).map _).subset hnew)
  · exact List.mem_append_right _ hold

theorem Maps.not_mem_free (h : s.Maps dom k p) (hnodup : (s.registers dom).Nodup) :
    p ∉ s.free := by
  obtain ⟨-, a, ha, rfl⟩ := h
  intro hfree
  rw [registers, List.append_assoc] at hnodup
  have hmem : apply s.map (s.pending.take k) a ∈ s.pending.map Write.new ++ mapped dom s.map := by
    rcases List.mem_append.mp (apply_mem ha) with hnew | hold
    · apply List.mem_append_left
      exact ((List.take_sublist _ _).map _).subset hnew
    · exact List.mem_append_right _ hold
  exact (List.nodup_append.mp hnodup).2.2 _ hfree _ hmem rfl

/-- The later writes install other registers. -/
theorem Maps.not_mem_later (h : s.Maps dom k p) (hnodup : (s.registers dom).Nodup) :
    p ∉ (s.pending.drop k).map Write.new := by
  obtain ⟨-, a, ha, rfl⟩ := h
  intro hlater
  rw [registers, List.append_assoc, List.nodup_append] at hnodup
  have hlive := hnodup.2.1
  rw [← List.take_append_drop k s.pending, List.map_append, List.append_assoc] at hlive
  obtain ⟨-, hrest, hapart⟩ := List.nodup_append.mp hlive
  rcases List.mem_append.mp (apply_mem ha) with hnew | hold
  · exact hapart _ hnew _ (List.mem_append_left _ hlater) rfl
  · exact (List.nodup_append.mp hrest).2.2 _ hlater _ hold rfl

theorem Maps.allocate (h : s.Maps dom k p) (ws : List (Write A P)) :
    (s.allocate ws).Maps dom k p := by
  obtain ⟨hk, a, ha, hmaps⟩ := h
  refine ⟨hk.trans (List.length_append.symm ▸ Nat.le_add_right _ _), a, ha, ?_⟩
  rw [State.allocate, List.take_append_of_le_length hk]
  exact hmaps

theorem Maps.commit {n : Nat} (h : s.Maps dom (n + k) p) : (s.commit n).Maps dom k p := by
  obtain ⟨hk, a, ha, hmaps⟩ := h
  refine ⟨by rw [State.commit, List.length_drop]; omega, a, ha, ?_⟩
  rw [State.commit, ← apply_append, ← List.take_add]
  exact hmaps

end State

end Renaming
