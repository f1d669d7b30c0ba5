import Mathlib.Logic.Function.Basic
import Mathlib.Tactic

/-!
# Memories with byte lanes

A memory maps addresses to words, and a word maps lanes to values. A write names
an address and the lanes it replaces. Reading a word while writes to it are still
on their way means forwarding them over the stored word, the youngest last.

`forward` applies one write to a word read from an address, `forwardAll` a list
of writes from the oldest on. Performing writes on the memory and forwarding them
over a word read earlier give the same word, and a write that has been performed
may be forwarded again.
-/

namespace Lanes

/-- A write of some lanes of the word at an address. -/
structure Write (A L V : Type*) where
  addr : A
  be : L → Bool
  data : L → V

variable {A L V : Type*} [DecidableEq A]

/-- A word with the enabled lanes replaced. -/
def merge (be : L → Bool) (data old : L → V) : L → V := fun l => if be l then data l else old l

/-- Forward a write to a word read from `a`. -/
def forward (a : A) (x : L → V) (w : Write A L V) : L → V :=
  if w.addr = a then merge w.be w.data x else x

def forwardAll (ws : List (Write A L V)) (a : A) (x : L → V) : L → V := ws.foldl (forward a) x

/-- Perform a write. -/
def write (m : A → L → V) (w : Write A L V) : A → L → V := fun a => forward a (m a) w

def writes (m : A → L → V) (ws : List (Write A L V)) : A → L → V := ws.foldl write m

@[simp] theorem merge_merge (be : L → Bool) (data old : L → V) :
    merge be data (merge be data old) = merge be data old := by
  funext l
  simp only [merge]
  split_ifs <;> rfl

@[simp] theorem forward_forward (a : A) (x : L → V) (w : Write A L V) :
    forward a (forward a x w) w = forward a x w := by
  unfold forward
  split_ifs
  · exact merge_merge _ _ _
  · rfl

theorem forward_of_ne {a : A} {w : Write A L V} (h : w.addr ≠ a) (x : L → V) :
    forward a x w = x := if_neg h

@[simp] theorem forwardAll_nil (a : A) (x : L → V) :
    forwardAll ([] : List (Write A L V)) a x = x := rfl

@[simp] theorem forwardAll_cons (w : Write A L V) (ws : List (Write A L V)) (a : A) (x : L → V) :
    forwardAll (w :: ws) a x = forwardAll ws a (forward a x w) := rfl

theorem forwardAll_of_ne {ws : List (Write A L V)} {a : A} (h : ∀ w ∈ ws, w.addr ≠ a) (x : L → V) :
    forwardAll ws a x = x := by
  induction ws generalizing x with
  | nil => rfl
  | cons w ws ih =>
    rw [forwardAll_cons, forward_of_ne (h w List.mem_cons_self)]
    exact ih (fun v hv => h v (List.mem_cons_of_mem w hv)) x

theorem forwardAll_append (ws vs : List (Write A L V)) (a : A) (x : L → V) :
    forwardAll (ws ++ vs) a x = forwardAll vs a (forwardAll ws a x) := List.foldl_append

theorem writes_append (m : A → L → V) (ws vs : List (Write A L V)) :
    writes m (ws ++ vs) = writes (writes m ws) vs := List.foldl_append

@[simp] theorem writes_nil (m : A → L → V) : writes m [] = m := rfl

@[simp] theorem writes_singleton (m : A → L → V) (w : Write A L V) : writes m [w] = write m w := rfl

/-- Performing writes and forwarding them is the same. -/
theorem writes_apply (m : A → L → V) (ws : List (Write A L V)) (a : A) :
    writes m ws a = forwardAll ws a (m a) := by
  induction ws generalizing m with
  | nil => rfl
  | cons w ws ih => exact ih (write m w)

/-- A lane is decided by the youngest write to it. -/
theorem forwardAll_lane (ws : List (Write A L V)) (a : A) (x : L → V) (l : L) :
    forwardAll ws a x l =
      ((ws.reverse.find? fun w => decide (w.addr = a) && w.be l).map fun w => w.data l).getD
        (x l) := by
  induction ws using List.reverseRecOn with
  | nil => rfl
  | append_singleton ws w ih =>
    rw [forwardAll_append, List.reverse_append]
    simp only [forwardAll_cons, forwardAll_nil, List.reverse_cons, List.reverse_nil,
      List.nil_append, List.singleton_append, List.find?_cons]
    by_cases ha : w.addr = a
    · cases hb : w.be l with
      | true => simp [forward, merge, ha, hb]
      | false => simpa [forward, merge, ha, hb] using ih
    · simpa [forward, ha] using ih

/-- Writes that have been performed may be forwarded once more. -/
theorem forwardAll_absorb (ws vs : List (Write A L V)) (a : A) (x : L → V) :
    forwardAll vs a (forwardAll (ws ++ vs) a x) = forwardAll (ws ++ vs) a x := by
  funext l
  simp only [forwardAll_lane, List.reverse_append, List.find?_append]
  cases hfind : vs.reverse.find? fun w => decide (w.addr = a) && w.be l with
  | none => rfl
  | some w => rfl

end Lanes
