import Mathlib.Data.List.Basic

/-!
# Trails

An element of a trail has an address, and it names the address of the element behind it. A
list is followed from an address if its elements lie where those in front of them say.
-/

namespace Trail

variable {α β γ : Type*} {addr next : α → γ} {c : γ} {l l' : List α}

/-- The address behind a list that begins at `c`. -/
def behind (next : α → γ) (c : γ) (l : List α) : γ := l.foldl (fun _ a => next a) c

def Follows (addr next : α → γ) : γ → List α → Prop
  | _, [] => True
  | c, a :: l => addr a = c ∧ Follows addr next (next a) l

instance decidableFollows [DecidableEq γ] (addr next : α → γ) (c : γ) (l : List α) :
    Decidable (Follows addr next c l) :=
  match l with
  | [] => inferInstanceAs (Decidable True)
  | a :: l =>
    let _ := decidableFollows addr next (next a) l
    inferInstanceAs (Decidable (addr a = c ∧ Follows addr next (next a) l))

@[simp] theorem behind_nil : behind next c [] = c := rfl

@[simp] theorem behind_cons (a : α) : behind next c (a :: l) = behind next (next a) l := rfl

@[simp] theorem behind_append : behind next c (l ++ l') = behind next (behind next c l) l' :=
  List.foldl_append

theorem behind_map (f : β → α) (c : γ) (l : List β) :
    behind next c (l.map f) = behind (fun b => next (f b)) c l := List.foldl_map

/-- The last element alone says what is behind. -/
theorem behind_take_succ {n : Nat} {a : α} (h : l[n]? = some a) :
    behind next c (l.take (n + 1)) = next a := by
  rw [List.take_add_one, h, behind_append]
  rfl

theorem follows_append :
    Follows addr next c (l ++ l') ↔
      Follows addr next c l ∧ Follows addr next (behind next c l) l' := by
  induction l generalizing c with
  | nil => simp [Follows]
  | cons a l ih => simp [Follows, ih, and_assoc]

theorem follows_map (f : β → α) {c : γ} {l : List β} : Follows addr next c (l.map f) ↔
    Follows (fun b => addr (f b)) (fun b => next (f b)) c l := by
  induction l generalizing c with
  | nil => simp [Follows]
  | cons b l ih => simp [Follows, ih]

theorem Follows.append (h : Follows addr next c l)
    (h' : Follows addr next (behind next c l) l') : Follows addr next c (l ++ l') :=
  follows_append.mpr ⟨h, h'⟩

theorem Follows.of_prefix (h : Follows addr next c l') (hl : l <+: l') :
    Follows addr next c l := by
  obtain ⟨rest, rfl⟩ := hl
  exact (follows_append.mp h).1

/-- What is followed through other elements with the same addresses. -/
theorem Follows.of_forall₂ {addr' next' : β → γ} {m : List β} (h : Follows addr next c l)
    (hsame : List.Forall₂ (fun a b => addr' b = addr a ∧ next' b = next a) l m) :
    Follows addr' next' c m := by
  induction hsame generalizing c with
  | nil => trivial
  | cons hab _ ih =>
    refine ⟨hab.1.trans h.1, ?_⟩
    rw [hab.2]
    exact ih h.2

/-- An element lies behind those in front of it. -/
theorem Follows.addr_eq (h : Follows addr next c l) {n : Nat} {a : α} (ha : l[n]? = some a) :
    addr a = behind next c (l.take n) := by
  induction l generalizing c n with
  | nil => simp at ha
  | cons b l ih =>
    cases n with
    | zero =>
      obtain rfl : b = a := by simpa using ha
      exact h.1
    | succ n => exact ih h.2 (by simpa using ha)

end Trail
