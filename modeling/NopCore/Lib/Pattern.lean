import NopCore.Lib.Text

/-!
# Patterns of lines

A pattern is a row of pieces, and a piece is a word, some bytes of a class or a number of
them. Pieces take as much as they can and give some of it back if the rest does not match. A
search tries the beginnings of the lines one after the other.

The patterns here have a word behind each piece of variable length whose first byte is not in
the class, so nothing has to be given back.
-/

namespace Text

inductive Piece
  | word (w : Bytes)
  | oneOrMore (cls : BitVec 8 → Bool)
  | times (cls : BitVec 8 → Bool) (n : Nat)

namespace Piece

/-- What a piece can take of a text and what is left then, in the order in which it is
tried. -/
def splits (text : Bytes) : Piece → List (Bytes × Bytes)
  | word w => if w <+: text then [(w, text.drop w.length)] else []
  | oneOrMore cls => (List.range (text.takeWhile cls).length).reverse.map fun k =>
      (text.take (k + 1), text.drop (k + 1))
  | times cls n =>
      if n ≤ (text.takeWhile cls).length then [(text.take n, text.drop n)] else []

def Accepts : Piece → Bytes → Prop
  | word w, s => s = w
  | oneOrMore cls, s => s ≠ [] ∧ ∀ b ∈ s, cls b = true
  | times cls n, s => s.length = n ∧ ∀ b ∈ s, cls b = true

end Piece

def matchAt : List Piece → Bytes → Option (List Bytes)
  | [], _ => some []
  | p :: ps, text => (p.splits text).findSome? fun s => (matchAt ps s.2).map (s.1 :: ·)

/-- The first line that begins with the pattern: how much is in front of it, and what the
pieces have taken. `start` says whether a line begins here. -/
def searchFrom (ps : List Piece) : Bool → Bytes → Option (Nat × List Bytes)
  | start, [] => if start then (matchAt ps []).map (0, ·) else none
  | start, b :: text =>
    match if start then matchAt ps (b :: text) else none with
    | some m => some (0, m)
    | none => (searchFrom ps (b == newline) text).map fun r => (r.1 + 1, r.2)

def search (ps : List Piece) (text : Bytes) : Option (Nat × List Bytes) := searchFrom ps true text

variable {ps : List Piece} {text rest s w : Bytes} {cls : BitVec 8 → Bool} {m : List Bytes}

/-! ## What a match has taken -/

theorem cls_of_mem_take {k : Nat} (hk : k ≤ (text.takeWhile cls).length) {b : BitVec 8}
    (hb : b ∈ text.take k) : cls b = true := by
  have hbegins : text.take k <+: text.takeWhile cls :=
    List.prefix_of_prefix_length_le (List.take_prefix _ _) (List.takeWhile_prefix _)
      ((List.length_take_le _ _).trans hk)
  exact List.all_eq_true.mp List.all_takeWhile b (hbegins.mem hb)

/-- What a piece takes is at the beginning of the text, and is as it should be. -/
theorem Piece.of_mem_splits {p : Piece} {t : Bytes × Bytes} (h : t ∈ p.splits text) :
    t.1 ++ t.2 = text ∧ p.Accepts t.1 := by
  cases p with
  | word w =>
    rw [splits] at h
    split_ifs at h with hw
    · obtain rfl := List.mem_singleton.mp h
      exact ⟨List.prefix_iff_eq_append.mp hw, rfl⟩
    · cases h
  | oneOrMore cls =>
    rw [splits, List.mem_map] at h
    obtain ⟨k, hk, rfl⟩ := h
    rw [List.mem_reverse, List.mem_range] at hk
    refine ⟨List.take_append_drop _ _, ?_, fun b hb => cls_of_mem_take hk hb⟩
    have hlength := List.IsPrefix.length_le (List.takeWhile_prefix (l := text) cls)
    intro hempty
    have hzero := congrArg List.length hempty
    rw [List.length_take, List.length_nil] at hzero
    omega
  | times cls n =>
    rw [splits] at h
    split_ifs at h with hn
    · obtain rfl := List.mem_singleton.mp h
      have hlength := List.IsPrefix.length_le (List.takeWhile_prefix (l := text) cls)
      exact ⟨List.take_append_drop _ _, List.length_take_of_le (hn.trans hlength),
        fun b hb => cls_of_mem_take hn hb⟩
    · cases h

theorem of_matchAt (h : matchAt ps text = some m) :
    m.flatten <+: text ∧ List.Forall₂ Piece.Accepts ps m := by
  induction ps generalizing text m with
  | nil =>
    obtain rfl := Option.some.inj h
    exact ⟨List.nil_prefix, .nil⟩
  | cons p ps ih =>
    rw [matchAt] at h
    obtain ⟨t, ht, hm⟩ := List.exists_of_findSome?_eq_some h
    obtain ⟨m', hm', rfl⟩ := Option.map_eq_some_iff.mp hm
    obtain ⟨hbegins, haccepts⟩ := ih hm'
    obtain ⟨htext, haccept⟩ := Piece.of_mem_splits ht
    refine ⟨?_, .cons haccept haccepts⟩
    rw [← htext, List.flatten_cons]
    exact (List.prefix_append_right_inj _).mpr hbegins

/-! ## When there is a match -/

theorem matchAt_word :
    matchAt (.word w :: ps) (w ++ rest) = (matchAt ps rest).map (w :: ·) := by
  rw [matchAt, Piece.splits, if_pos (List.prefix_append _ _), List.drop_left,
    List.findSome?_singleton]

theorem takeWhile_append (hs : ∀ b ∈ s, cls b = true) (hrest : ∀ b ∈ rest.head?, cls b = false) :
    (s ++ rest).takeWhile cls = s := by
  rw [List.takeWhile_append_of_pos hs]
  cases rest with
  | nil => simp
  | cons b rest =>
    rw [List.takeWhile_cons_of_neg (by rw [hrest b rfl]; decide), List.append_nil]

theorem matchAt_times {n : Nat} (hn : s.length = n) (hs : ∀ b ∈ s, cls b = true) :
    matchAt (.times cls n :: ps) (s ++ rest) = (matchAt ps rest).map (s :: ·) := by
  subst hn
  have hle : s.length ≤ ((s ++ rest).takeWhile cls).length := by
    rw [List.takeWhile_append_of_pos hs, List.length_append]
    exact Nat.le_add_right _ _
  rw [matchAt, Piece.splits, if_pos hle, List.take_left, List.drop_left, List.findSome?_singleton]

/-- The longest choice comes first. -/
theorem splits_oneOrMore (hs : ∀ b ∈ s, cls b = true) (hempty : s ≠ [])
    (hrest : ∀ b ∈ rest.head?, cls b = false) :
    ∃ shorter, (Piece.oneOrMore cls).splits (s ++ rest) = (s, rest) :: shorter ∧
      ∀ t ∈ shorter, ∃ b ∈ t.2.head?, cls b = true := by
  have hpos := List.length_pos_iff.mpr hempty
  obtain ⟨n, hn⟩ : ∃ n, s.length = n + 1 := ⟨s.length - 1, by omega⟩
  rw [Piece.splits, takeWhile_append hs hrest, hn, List.range_succ, List.reverse_append,
    List.reverse_singleton, List.singleton_append, List.map_cons, ← hn, List.take_left,
    List.drop_left]
  refine ⟨_, rfl, ?_⟩
  intro t ht
  obtain ⟨k, hk, rfl⟩ := List.mem_map.mp ht
  rw [List.mem_reverse, List.mem_range] at hk
  have hlt : k + 1 < s.length := by omega
  refine ⟨s[k + 1], ?_, hs _ (List.getElem_mem hlt)⟩
  rw [Option.mem_def, List.head?_drop, List.getElem?_append_left hlt, List.getElem?_eq_getElem hlt]

/-- A piece in front of a word takes all that it can, if the word does not begin with a byte
of its class. -/
theorem matchAt_oneOrMore_word {b : BitVec 8} (hs : ∀ b ∈ s, cls b = true) (hempty : s ≠ [])
    (hb : cls b = false) (hrest : rest.head? = some b) :
    matchAt (.oneOrMore cls :: .word (b :: w) :: ps) (s ++ rest) =
      (matchAt (.word (b :: w) :: ps) rest).map (s :: ·) := by
  have hnext : ∀ b' ∈ rest.head?, cls b' = false := by
    intro b' hb'
    rw [hrest] at hb'
    rwa [← Option.some.inj hb']
  obtain ⟨shorter, hsplits, hshorter⟩ := splits_oneOrMore hs hempty hnext
  rw [matchAt, hsplits, List.findSome?_cons]
  cases hmatch : matchAt (.word (b :: w) :: ps) rest with
  | some m => rfl
  | none =>
    -- what is left by a shorter choice does not begin with the word
    rw [Option.map_none]
    dsimp only
    rw [List.findSome?_eq_none_iff]
    intro t ht
    obtain ⟨b', hb', hcls⟩ := hshorter t ht
    rw [Option.map_eq_none_iff, matchAt, Piece.splits, if_neg]
    · rfl
    · intro hbegins
      obtain ⟨after, hafter⟩ := hbegins
      rw [← hafter, List.cons_append, List.head?_cons] at hb'
      rw [← Option.some.inj hb', hb] at hcls
      cases hcls

theorem matchAt_oneOrMore_last (hs : ∀ b ∈ s, cls b = true) (hempty : s ≠ [])
    (hrest : ∀ b ∈ rest.head?, cls b = false) :
    matchAt [.oneOrMore cls] (s ++ rest) = some [s] := by
  obtain ⟨shorter, hsplits, -⟩ := splits_oneOrMore hs hempty hrest
  rw [matchAt, hsplits, List.findSome?_cons, matchAt]
  rfl

/-! ## The search -/

/-- No line in front of a position begins with the byte. -/
def Skips (c : BitVec 8) : Bool → Bytes → Prop
  | _, [] => True
  | start, b :: text => (start = true → b ≠ c) ∧ Skips c (b == newline) text

/-- Whether a line begins behind a text. -/
def startAfter : Bool → Bytes → Bool
  | start, [] => start
  | _, b :: text => startAfter (b == newline) text

variable {c : BitVec 8} {start : Bool}

theorem matchAt_eq_none {b : BitVec 8} (hb : b ≠ c) :
    matchAt (.word (c :: w) :: ps) (b :: text) = none := by
  rw [matchAt, Piece.splits, if_neg]
  · rfl
  · rintro ⟨after, hafter⟩
    rw [List.cons_append, List.cons.injEq] at hafter
    exact hb hafter.1.symm

/-- Lines that do not begin as the pattern does are passed over. -/
theorem searchFrom_append (h : Skips c start text) (rest : Bytes) :
    searchFrom (.word (c :: w) :: ps) start (text ++ rest) =
      (searchFrom (.word (c :: w) :: ps) (startAfter start text) rest).map
        fun r => (r.1 + text.length, r.2) := by
  induction text generalizing start with
  | nil =>
    rw [List.nil_append, startAfter]
    cases searchFrom (.word (c :: w) :: ps) start rest <;> rfl
  | cons b text ih =>
    obtain ⟨hb, hrest⟩ := h
    have hnone : (if start = true then matchAt (.word (c :: w) :: ps) (b :: (text ++ rest)) else
        none) = none := by
      split_ifs with hstart
      · exact matchAt_eq_none (hb hstart)
      · rfl
    rw [List.cons_append, searchFrom, hnone, ih hrest, startAfter]
    cases searchFrom (.word (c :: w) :: ps) (startAfter (b == newline) text) rest with
    | none => rfl
    | some r => simp only [Option.map_some, List.length_cons, Nat.add_assoc]

theorem searchFrom_eq_none (h : Skips c start text) :
    searchFrom (.word (c :: w) :: ps) start text = none := by
  rw [← List.append_nil text, searchFrom_append h, Option.map_eq_none_iff, searchFrom]
  split_ifs
  · rfl
  · rfl

theorem Skips.take (h : Skips c start text) (n : Nat) : Skips c start (text.take n) := by
  induction text generalizing start n with
  | nil => rw [List.take_nil]; trivial
  | cons b text ih =>
    cases n with
    | zero => trivial
    | succ n => exact ⟨h.1, ih h.2 n⟩

theorem Skips.append (h : Skips c start text) (hrest : Skips c (startAfter start text) rest) :
    Skips c start (text ++ rest) := by
  induction text generalizing start with
  | nil => exact hrest
  | cons b text ih => exact ⟨h.1, ih h.2 hrest⟩

theorem startAfter_append (text rest : Bytes) :
    startAfter start (text ++ rest) = startAfter (startAfter start text) rest := by
  induction text generalizing start with
  | nil => rfl
  | cons b text ih => exact ih

theorem skips_of_not_mem (h : newline ∉ text) : Skips c false text := by
  induction text with
  | nil => trivial
  | cons b text ih =>
    rw [List.mem_cons, not_or] at h
    refine ⟨fun hstart => (Bool.false_ne_true hstart).elim, ?_⟩
    have hb : (b == newline) = false := beq_eq_false_iff_ne.mpr fun heq => h.1 heq.symm
    rw [hb]
    exact ih h.2

theorem startAfter_of_not_mem (h : newline ∉ text) : startAfter false text = false := by
  induction text with
  | nil => rfl
  | cons b text ih =>
    rw [List.mem_cons, not_or] at h
    have hb : (b == newline) = false := beq_eq_false_iff_ne.mpr fun heq => h.1 heq.symm
    rw [startAfter, hb]
    exact ih h.2

theorem skips_line {b : BitVec 8} (hb : b ≠ c) (h : newline ∉ b :: text) :
    Skips c true (b :: text ++ [newline]) := by
  rw [List.mem_cons, not_or] at h
  have hfalse : (b == newline) = false := beq_eq_false_iff_ne.mpr fun heq => h.1 heq.symm
  refine ⟨fun _ => hb, ?_⟩
  rw [hfalse]
  apply (skips_of_not_mem h.2).append
  rw [startAfter_of_not_mem h.2]
  exact ⟨fun hstart => (Bool.false_ne_true hstart).elim, trivial⟩

theorem startAfter_line : startAfter start (text ++ [newline]) = true := by
  induction text generalizing start with
  | nil => rfl
  | cons b text ih => exact ih

theorem search_of_matchAt (h : matchAt ps text = some m) : search ps text = some (0, m) := by
  cases text with
  | nil => rw [search, searchFrom, if_pos rfl, h]; rfl
  | cons b text => rw [search, searchFrom, if_pos rfl, h]

/-- A line that does not match is not searched any further. -/
theorem search_eq_none (h : matchAt (.word (c :: w) :: ps) text = none) (hline : newline ∉ text) :
    search (.word (c :: w) :: ps) text = none := by
  cases text with
  | nil => rw [search, searchFrom, if_pos rfl, h]; rfl
  | cons b text =>
    rw [List.mem_cons, not_or] at hline
    have hb : (b == newline) = false := beq_eq_false_iff_ne.mpr fun heq => hline.1 heq.symm
    rw [search, searchFrom, if_pos rfl, h, hb]
    dsimp only
    rw [searchFrom_eq_none (skips_of_not_mem hline.2), Option.map_none]

end Text
