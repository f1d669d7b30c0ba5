import Mathlib.Data.List.Basic
import Mathlib.Tactic.SplitIfs

/-!
# Paths

A directory is the list of the names on the way to it from the root, which is its own parent.
A segment of a path stays in a directory, goes up to its parent, or enters what has a name.

A path can be read without a look at the directories, and it can be walked, where every
directory on the way has to be there. A walk that arrives does so where the reading does.
-/

inductive Segment (α : Type*) where
  | stay
  | up
  | name (a : α)
  deriving DecidableEq, Repr

namespace Path

variable {α : Type*}

def step (d : List α) : Segment α → List α
  | .stay => d
  | .up => d.dropLast
  | .name a => d ++ [a]

/-- Where a path leads, whatever directories there are. -/
def reading (d : List α) (p : List (Segment α)) : List α := p.foldl step d

/-- A name is looked up in the directory that has been reached. -/
def walk (IsDir : List α → Prop) [DecidablePred IsDir] (d : List α) :
    List (Segment α) → Option (List α)
  | [] => some d
  | .stay :: p => walk IsDir d p
  | .up :: p => walk IsDir d.dropLast p
  | .name a :: p => if IsDir (d ++ [a]) then walk IsDir (d ++ [a]) p else none

/-- Every directory on the way is there. -/
def Passable (IsDir : List α → Prop) (d : List α) : List (Segment α) → Prop
  | [] => IsDir d
  | s :: p => IsDir d ∧ Passable IsDir (step d s) p

/-- The path goes up where it has read up to the root. -/
def Climbs (d : List α) : List (Segment α) → Prop
  | [] => False
  | s :: p => (s = .up ∧ d = []) ∨ Climbs (step d s) p

instance decidablePassable (IsDir : List α → Prop) [DecidablePred IsDir] :
    ∀ (d : List α) (p : List (Segment α)), Decidable (Passable IsDir d p)
  | d, [] => inferInstanceAs (Decidable (IsDir d))
  | d, s :: p =>
    have := decidablePassable IsDir (step d s) p
    inferInstanceAs (Decidable (IsDir d ∧ Passable IsDir (step d s) p))

instance decidableClimbs [DecidableEq α] :
    ∀ (d : List α) (p : List (Segment α)), Decidable (Climbs d p)
  | _, [] => inferInstanceAs (Decidable False)
  | d, s :: p =>
    have := decidableClimbs (step d s) p
    inferInstanceAs (Decidable ((s = .up ∧ d = []) ∨ Climbs (step d s) p))

variable {IsDir : List α → Prop} {d : List α} {p : List (Segment α)}

theorem Passable.isDir (h : Passable IsDir d p) : IsDir d := by
  cases p with
  | nil => exact h
  | cons s p => exact h.1

theorem Passable.isDir_reading (h : Passable IsDir d p) : IsDir (reading d p) := by
  induction p generalizing d with
  | nil => exact h
  | cons s p ih => exact ih h.2

/-- A path can be walked if and only if every directory on the way is there. -/
theorem walk_eq [DecidablePred IsDir] (hparent : ∀ d, IsDir d → IsDir d.dropLast) (hd : IsDir d) :
    walk IsDir d p = if Passable IsDir d p then some (reading d p) else none := by
  induction p generalizing d with
  | nil => rw [walk, if_pos (show Passable IsDir d [] from hd), reading, List.foldl_nil]
  | cons s p ih =>
    have hcons : Passable IsDir d (s :: p) ↔ Passable IsDir (step d s) p := and_iff_right hd
    rw [reading, List.foldl_cons, ← reading]
    simp only [hcons]
    cases s with
    | stay => exact ih hd
    | up => exact ih (hparent d hd)
    | name a =>
      rw [walk]
      split_ifs with ha hpass hpass
      · exact (ih ha).trans (if_pos hpass)
      · exact (ih ha).trans (if_neg hpass)
      · exact absurd hpass.isDir ha
      · rfl

/-- What lies below the root is lost where the path goes up from there. -/
theorem reading_cons (x : α) [DecidableEq α] :
    reading (x :: d) p = if Climbs d p then reading d p else x :: reading d p := by
  induction p generalizing d with
  | nil => exact (if_neg not_false).symm
  | cons s p ih =>
    have hstep (hroot : ¬(s = .up ∧ d = [])) : step (x :: d) s = x :: step d s := by
      cases s with
      | stay => rfl
      | up => exact List.dropLast_cons_of_ne_nil fun hd => hroot ⟨rfl, hd⟩
      | name a => rfl
    have hreading (d' : List α) : reading d' (s :: p) = reading (step d' s) p := rfl
    rw [hreading, hreading]
    by_cases hroot : s = .up ∧ d = []
    · obtain ⟨rfl, rfl⟩ := hroot
      exact (if_pos (.inl ⟨rfl, rfl⟩)).symm
    · have hclimbs : Climbs d (s :: p) ↔ Climbs (step d s) p := or_iff_right hroot
      rw [hstep hroot, ih]
      simp only [hclimbs]

theorem mem_reading {a : α} (h : a ∈ reading d p) : a ∈ d ∨ .name a ∈ p := by
  induction p generalizing d with
  | nil => exact .inl h
  | cons s p ih =>
    rcases ih h with hd | hp
    · cases s with
      | stay => exact .inl hd
      | up => exact .inl (d.dropLast_subset hd)
      | name b =>
        rcases List.mem_append.mp hd with hd | hb
        · exact .inl hd
        · rw [List.mem_singleton] at hb
          exact .inr (by rw [hb]; exact List.mem_cons_self)
    · exact .inr (List.mem_cons_of_mem s hp)

end Path
