import Mathlib.Data.List.Infix
import Mathlib.Data.List.TakeWhile
import Mathlib.Data.Nat.Find
import Mathlib.Tactic.SplitIfs

/-!
# Text in bytes

Text that comes over a line is a list of bytes. Here are numbers and bytes written as text
and read back, and where in a text a word stands.
-/

namespace Text

abbrev Bytes := List (BitVec 8)

scoped instance lawfulBEqByte : LawfulBEq (BitVec 8) := inferInstance

def ascii (cs : List Char) : Bytes := cs.map fun c => BitVec.ofNat 8 c.toNat

def newline : BitVec 8 := 0x0a

def carriageReturn : BitVec 8 := 0x0d

def blank : BitVec 8 := 0x20

def slash : BitVec 8 := 0x2f

/-! ## Words in a text -/

/-- `word` stands at a position of the text. -/
def OccursAt (text word : Bytes) (q : Nat) : Prop := word <+: text.drop q

instance (text word : Bytes) (q : Nat) : Decidable (OccursAt text word q) :=
  inferInstanceAs (Decidable (word <+: text.drop q))

/-- `word` is a line of the text. -/
def LineAt (text word : Bytes) (q : Nat) : Prop :=
  OccursAt text word q ∧ (q = 0 ∨ text[q - 1]? = some newline) ∧
    (text[q + word.length]? = some carriageReturn ∨ text[q + word.length]? = some newline)

/-- A word stands at a position, and nowhere in front of it from `start` on. -/
def FirstFrom (text word : Bytes) (start q : Nat) : Prop :=
  start ≤ q ∧ OccursAt text word q ∧ ∀ q' < q, start ≤ q' → ¬ OccursAt text word q'

instance (text word : Bytes) (q : Nat) : Decidable (LineAt text word q) :=
  inferInstanceAs (Decidable (_ ∧ _ ∧ _))

instance (text word : Bytes) (start q : Nat) : Decidable (FirstFrom text word start q) :=
  inferInstanceAs (Decidable (_ ∧ _ ∧ _))

variable {text word : Bytes} {q : Nat}

theorem occursAt_of_infix (h : word <:+: text) : ∃ q ≤ text.length, OccursAt text word q := by
  obtain ⟨before, after, rfl⟩ := h
  refine ⟨before.length, by simp, after, ?_⟩
  rw [List.append_assoc, List.drop_left]

theorem OccursAt.append (h : OccursAt text word q) (hq : q ≤ text.length) (more : Bytes) :
    OccursAt (text ++ more) word q := by
  rw [OccursAt, List.drop_append_of_le_length hq]
  exact List.IsPrefix.trans h (List.prefix_append _ _)

theorem OccursAt.of_drop {n : Nat} (h : OccursAt (text.drop n) word q) :
    OccursAt text word (n + q) := by
  rwa [OccursAt, List.drop_drop] at h

theorem OccursAt.of_take {n : Nat} (h : OccursAt (text.take n) word q) :
    OccursAt text word q := by
  rw [OccursAt, List.drop_take] at h
  exact List.IsPrefix.trans h (List.take_prefix _ _)

/-- A word that stands somewhere has a first place. -/
theorem exists_firstFrom {start : Nat} (hq : start ≤ q) (h : OccursAt text word q) :
    ∃ q, FirstFrom text word start q := by
  have hsome : ∃ q, start ≤ q ∧ OccursAt text word q := ⟨q, hq, h⟩
  refine ⟨Nat.find hsome, (Nat.find_spec hsome).1, (Nat.find_spec hsome).2, ?_⟩
  intro q' hlt hstart hoccurs
  exact Nat.find_min hsome hlt ⟨hstart, hoccurs⟩

theorem FirstFrom.unique {start q' : Nat} (h : FirstFrom text word start q)
    (h' : FirstFrom text word start q') : q = q' := by
  rcases Nat.lt_trichotomy q q' with hlt | heq | hlt
  · exact absurd h.2.1 (h'.2.2 q hlt h.1)
  · exact heq
  · exact absurd h'.2.1 (h.2.2 q' hlt h'.1)

/-! ## Numbers -/

def isDigit (b : BitVec 8) : Bool := decide (0x30 ≤ b) && decide (b ≤ 0x39)

def isHex (b : BitVec 8) : Bool :=
  isDigit b || (decide (0x41 ≤ b) && decide (b ≤ 0x46)) || (decide (0x61 ≤ b) && decide (b ≤ 0x66))

def decimal (n : Nat) : Bytes := ascii (Nat.toDigits 10 n)

def readDecimal (s : Bytes) : Nat := s.foldl (fun n b => 10 * n + (b.toNat - 0x30)) 0

def hexDigit (v : BitVec 4) : BitVec 8 :=
  if v < 10 then 0x30 + v.setWidth 8 else 0x37 + v.setWidth 8

def hexVal (b : BitVec 8) : Nat :=
  if isDigit b then b.toNat - 0x30 else if b ≤ 0x46 then b.toNat - 0x37 else b.toNat - 0x57

def readHex (s : Bytes) : Nat := s.foldl (fun n b => 16 * n + hexVal b) 0

/-- Two digits for each byte. -/
def hex (data : Bytes) : Bytes :=
  data.flatMap fun b => [hexDigit (b.extractLsb' 4 4), hexDigit (b.extractLsb' 0 4)]

/-- Digits are read by twos, and none may be left. -/
def fromHex : Bytes → Option Bytes
  | [] => some []
  | [_] => none
  | a :: b :: s => (fromHex s).map (BitVec.ofNat 8 (16 * hexVal a + hexVal b) :: ·)

/-- A word in eight digits. -/
def hex8 (v : BitVec 32) : Bytes :=
  hex [v.extractLsb' 24 8, v.extractLsb' 16 8, v.extractLsb' 8 8, v.extractLsb' 0 8]

/-- The byte of a decimal digit. -/
theorem toNat_digit {n : Nat} {d : Char} (h : d ∈ Nat.toDigits 10 n) :
    0x30 ≤ d.toNat ∧ d.toNat ≤ 0x39 ∧ (BitVec.ofNat 8 d.toNat).toNat = d.toNat := by
  have hdigit := Nat.isDigit_of_mem_toDigits (by decide) (by decide) h
  rw [Char.isDigit_iff_toNat] at hdigit
  obtain ⟨hlow, hhigh⟩ := hdigit
  have hzero : '0'.toNat = 0x30 := rfl
  have hnine : '9'.toNat = 0x39 := rfl
  rw [hzero] at hlow
  rw [hnine] at hhigh
  exact ⟨hlow, hhigh, by rw [BitVec.toNat_ofNat, Nat.mod_eq_of_lt (by omega)]⟩

theorem isDigit_of_mem_decimal {n : Nat} {b : BitVec 8} (h : b ∈ decimal n) :
    isDigit b = true := by
  obtain ⟨d, hd, rfl⟩ := List.mem_map.mp h
  obtain ⟨hlow, hhigh, htoNat⟩ := toNat_digit hd
  rw [isDigit, Bool.and_eq_true, decide_eq_true_eq, decide_eq_true_eq, BitVec.le_def,
    BitVec.le_def, htoNat]
  exact ⟨hlow, hhigh⟩

theorem decimal_ne_nil (n : Nat) : decimal n ≠ [] := by
  intro hempty
  have hdigits : Nat.toDigits 10 n = [] := List.map_eq_nil_iff.mp hempty
  have hpos : 0 < (Nat.toDigits 10 n).length := Nat.length_toDigits_pos
  rw [hdigits] at hpos
  cases hpos

theorem readDecimal_decimal (n : Nat) : readDecimal (decimal n) = n := by
  have hread := Nat.ofDigitChars_ten_toDigits (n := n)
  rw [Nat.ofDigitChars_eq_foldl] at hread
  conv_rhs => rw [← hread]
  rw [readDecimal, decimal, ascii, List.foldl_map]
  apply List.foldl_ext
  intro sum d hd
  rw [(toNat_digit hd).2.2]
  rfl

theorem isHex_hexDigit (v : BitVec 4) : isHex (hexDigit v) = true := by
  revert v
  decide

theorem hexVal_hexDigit (v : BitVec 4) : hexVal (hexDigit v) = v.toNat := by
  revert v
  decide

theorem isHex_of_mem_hex {data : Bytes} {b : BitVec 8} (h : b ∈ hex data) : isHex b = true := by
  obtain ⟨byte, -, hb⟩ := List.mem_flatMap.mp h
  rcases List.mem_cons.mp hb with rfl | hb
  · exact isHex_hexDigit _
  · rw [List.mem_singleton.mp hb]
    exact isHex_hexDigit _

@[simp] theorem length_hex (data : Bytes) : (hex data).length = 2 * data.length := by
  induction data with
  | nil => rfl
  | cons b data ih =>
    rw [hex, List.flatMap_cons, ← hex, List.length_append, ih, List.length_cons]
    simp only [List.length_cons, List.length_nil]
    omega

theorem hex_cons (b : BitVec 8) (data : Bytes) : hex (b :: data) =
    hexDigit (b.extractLsb' 4 4) :: hexDigit (b.extractLsb' 0 4) :: hex data := rfl

/-- A byte is put together from its two digits. -/
theorem ofNat_hexDigits (b : BitVec 8) :
    16 * hexVal (hexDigit (b.extractLsb' 4 4)) + hexVal (hexDigit (b.extractLsb' 0 4)) =
      b.toNat := by
  rw [hexVal_hexDigit, hexVal_hexDigit]
  simp only [BitVec.extractLsb'_toNat, Nat.shiftRight_eq_div_pow]
  have hlt := b.isLt
  omega

/-- Some of the digits give some of the bytes, if their number is even. -/
theorem fromHex_take (data : Bytes) (k : Nat) (hk : k ≤ 2 * data.length) :
    fromHex ((hex data).take k) = if k % 2 = 0 then some (data.take (k / 2)) else none := by
  induction data generalizing k with
  | nil =>
    obtain rfl : k = 0 := by simpa using hk
    rfl
  | cons b data ih =>
    rw [List.length_cons] at hk
    match k with
    | 0 => rfl
    | 1 => rfl
    | k + 2 =>
      have hhalf : (k + 2) / 2 = k / 2 + 1 := by omega
      rw [hex_cons, List.take_succ_cons, List.take_succ_cons, fromHex, ih k (by omega),
        ofNat_hexDigits, BitVec.ofNat_toNat, BitVec.setWidth_eq, hhalf, List.take_succ_cons,
        Nat.add_mod_right]
      split_ifs
      · rfl
      · rfl

theorem fromHex_hex (data : Bytes) : fromHex (hex data) = some data := by
  have htake := fromHex_take data (2 * data.length) (Nat.le_refl _)
  rwa [← length_hex, List.take_length, length_hex, Nat.mul_mod_right, if_pos rfl,
    Nat.mul_div_cancel_left _ (by decide), List.take_length] at htake

@[simp] theorem length_hex8 (v : BitVec 32) : (hex8 v).length = 8 := length_hex _

theorem readHex_hex (data : Bytes) (n : Nat) :
    (hex data).foldl (fun n b => 16 * n + hexVal b) n =
      data.foldl (fun n b => 256 * n + b.toNat) n := by
  induction data generalizing n with
  | nil => rfl
  | cons b data ih =>
    have hbyte := ofNat_hexDigits b
    rw [hex_cons, List.foldl_cons, List.foldl_cons, ih, List.foldl_cons]
    congr 1
    omega

theorem readHex_hex8 (v : BitVec 32) : readHex (hex8 v) = v.toNat := by
  rw [readHex, hex8, readHex_hex]
  simp only [List.foldl_cons, List.foldl_nil, BitVec.extractLsb'_toNat, Nat.shiftRight_eq_div_pow]
  have hlt := v.isLt
  omega

end Text
