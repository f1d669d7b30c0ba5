import Mathlib.Data.List.Basic

/-!
# Tables of encodings

A decoder is written as a table. A line has a pattern and says what is set for the
words that it covers. The lines are applied one after the other, so a later one
overrides an earlier one. Where no word is covered by two lines the order is of no
concern: a word is decoded by one line, or by none. What is to be shown of all words
is then to be shown of the lines, and these can be run through.

A pattern fixes the upper bits of a word.
-/

namespace Encoding

/-- The upper `width` bits of a word are `bits`. -/
structure MaskedLiteral where
  width : Nat
  bits : Nat
  deriving DecidableEq, Repr

namespace MaskedLiteral

def covers {w : Nat} (m : MaskedLiteral) (word : BitVec w) : Bool :=
  word.toNat >>> (w - m.width) == m.bits

/-- The patterns differ in a bit that both fix. -/
def Disjoint (m m' : MaskedLiteral) : Prop :=
  m.bits >>> (m.width - m'.width) ≠ m'.bits >>> (m'.width - m.width)

instance : DecidableRel Disjoint := fun m m' =>
  inferInstanceAs (Decidable (m.bits >>> (m.width - m'.width) ≠ m'.bits >>> (m'.width - m.width)))

variable {w : Nat} {m m' : MaskedLiteral} {word : BitVec w}

/-- A pattern that covers a word has a shorter prefix of it in front. -/
theorem bits_of_covers (h : m.covers word = true) (hm : m.width ≤ w) (k : Nat)
    (hk : k ≤ m.width) : m.bits >>> (m.width - k) = word.toNat >>> (w - k) := by
  have hbits : word.toNat >>> (w - m.width) = m.bits := beq_iff_eq.mp h
  rw [← hbits, ← Nat.shiftRight_add]
  congr 1
  omega

theorem Disjoint.covers (h : Disjoint m m') (hm : m.width ≤ w) (hm' : m'.width ≤ w)
    (hcovers : m.covers word = true) : m'.covers word = false := by
  rw [← Bool.not_eq_true]
  intro hcovers'
  apply h
  obtain hle | hle := Nat.le_total m.width m'.width
  · have hshort := bits_of_covers hcovers hm m.width (Nat.le_refl _)
    rw [Nat.sub_self] at hshort
    rw [Nat.sub_eq_zero_of_le hle, bits_of_covers hcovers' hm' m.width hle, hshort]
  · have hshort := bits_of_covers hcovers' hm' m'.width (Nat.le_refl _)
    rw [Nat.sub_self] at hshort
    rw [Nat.sub_eq_zero_of_le hle, bits_of_covers hcovers hm m'.width hle, hshort]

end MaskedLiteral

variable {σ : Type*} {w : Nat}

/-- Apply the lines that cover the word. -/
def apply (table : List (MaskedLiteral × (σ → σ))) (word : BitVec w) (s : σ) : σ :=
  table.foldl (fun s line => if line.1.covers word then line.2 s else s) s

/-- No line covers the word. -/
def illegal (table : List (MaskedLiteral × (σ → σ))) (word : BitVec w) : Bool :=
  !table.any fun line => line.1.covers word

/-- No word of the width is covered by two lines. -/
structure WellFormed (w : Nat) (table : List (MaskedLiteral × (σ → σ))) : Prop where
  width : ∀ line ∈ table, line.1.width ≤ w
  disjoint : table.Pairwise fun line line' => line.1.Disjoint line'.1

variable {table : List (MaskedLiteral × (σ → σ))} {word : BitVec w} {s : σ}

theorem apply_of_not_covered (h : ∀ line ∈ table, line.1.covers word = false) :
    apply table word s = s := by
  induction table with
  | nil => rfl
  | cons line rest ih =>
    rw [apply, List.foldl_cons, h line List.mem_cons_self, if_neg Bool.false_ne_true]
    exact ih fun line hline => h line (List.mem_cons_of_mem _ hline)

/-- A word is decoded by the one line that covers it. -/
theorem WellFormed.apply_eq (h : WellFormed w table) :
    (∃ line ∈ table, line.1.covers word = true ∧ apply table word s = line.2 s) ∨
      (illegal table word = true ∧ apply table word s = s) := by
  induction table with
  | nil => exact .inr ⟨rfl, rfl⟩
  | cons line rest ih =>
    have hdisjoint := List.pairwise_cons.mp h.disjoint
    cases hcovers : line.1.covers word with
    | true =>
      have hrest : ∀ line' ∈ rest, line'.1.covers word = false := fun line' hline' =>
        (hdisjoint.1 line' hline').covers (h.width line List.mem_cons_self)
          (h.width line' (List.mem_cons_of_mem _ hline')) hcovers
      refine .inl ⟨line, List.mem_cons_self, hcovers, ?_⟩
      rw [apply, List.foldl_cons, hcovers, if_pos rfl]
      exact apply_of_not_covered hrest
    | false =>
      have hskip : apply (line :: rest) word s = apply rest word s := by
        rw [apply, List.foldl_cons, hcovers, if_neg Bool.false_ne_true]
        rfl
      have hillegal : illegal (line :: rest) word = illegal rest word := by
        rw [illegal, illegal, List.any_cons, hcovers, Bool.false_or]
      rw [hskip, hillegal]
      obtain ⟨line', hline', hfound⟩ | hnone :=
        ih ⟨fun line' hline' => h.width line' (List.mem_cons_of_mem _ hline'), hdisjoint.2⟩
      · exact .inl ⟨line', List.mem_cons_of_mem _ hline', hfound⟩
      · exact .inr hnone

/-- A word that a line covers is decoded by this line. -/
theorem WellFormed.apply_of_covers (h : WellFormed w table) {line : MaskedLiteral × (σ → σ)}
    (hline : line ∈ table) (hcovers : line.1.covers word = true) :
    apply table word s = line.2 s := by
  induction table with
  | nil => cases hline
  | cons first rest ih =>
    have hdisjoint := List.pairwise_cons.mp h.disjoint
    rw [apply, List.foldl_cons]
    obtain rfl | hrest := List.mem_cons.mp hline
    · rw [hcovers, if_pos rfl]
      exact apply_of_not_covered fun line' hline' =>
        (hdisjoint.1 line' hline').covers (h.width line List.mem_cons_self)
          (h.width line' (List.mem_cons_of_mem _ hline')) hcovers
    · have hfirst : first.1.covers word = false := by
        rw [← Bool.not_eq_true]
        intro hfirst
        have hnot := (hdisjoint.1 line hrest).covers (h.width first List.mem_cons_self)
          (h.width line hline) hfirst
        rw [hcovers] at hnot
        cases hnot
      rw [hfirst, if_neg Bool.false_ne_true]
      exact ih ⟨fun line' hline' => h.width line' (List.mem_cons_of_mem _ hline'), hdisjoint.2⟩
        hrest

/-- What holds of the defaults and of what each line makes of them holds of every
decoded word. -/
theorem WellFormed.apply_of_lines (h : WellFormed w table) {P : σ → Prop} (hdefault : P s)
    (hlines : ∀ line ∈ table, P (line.2 s)) : P (apply table word s) := by
  obtain ⟨line, hline, -, heq⟩ | ⟨-, heq⟩ := @WellFormed.apply_eq σ w table word s h
  · rw [heq]
    exact hlines line hline
  · rw [heq]
    exact hdefault

end Encoding
