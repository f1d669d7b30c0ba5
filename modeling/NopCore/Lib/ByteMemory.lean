import Mathlib.Data.BitVec
import Mathlib.Algebra.BigOperators.Group.List.Basic
import Mathlib.Tactic.SplitIfs
import Mathlib.Tactic.Ring
import Mathlib.Tactic.IntervalCases

/-!
# Memory of bytes

A memory is a function of addresses, and an address past the last one is the first one. A
record is written field by field, each at its offset from the beginning of the record. If
no two fields overlap, every field can be read back after all of them have been written,
and what lies outside them is as before.

Words of four bytes are little-endian, and a string ends with a zero.
-/

abbrev ByteMemory (w : Nat) := BitVec w → BitVec 8

namespace ByteMemory

variable {w : Nat} (m : ByteMemory w) (a : BitVec w)

/-- Bytes are stored one after the other. -/
def store (m : ByteMemory w) (a : BitVec w) : List (BitVec 8) → ByteMemory w
  | [] => m
  | b :: bs => store (Function.update m a b) (a + 1) bs

def load (m : ByteMemory w) (a : BitVec w) : Nat → List (BitVec 8)
  | 0 => []
  | n + 1 => m a :: load m (a + 1) n

/-- The string at an address, if its end is found among as many bytes. -/
def cString (m : ByteMemory w) (a : BitVec w) : Nat → Option (List (BitVec 8))
  | 0 => none
  | n + 1 => if m a = 0 then some [] else (cString m (a + 1) n).map (m a :: ·)

/-- The bytes of a word, the lowest one first. -/
def wordBytes (v : BitVec 32) : List (BitVec 8) :=
  [(v &&& 0xff).setWidth 8, ((v >>> 8) &&& 0xff).setWidth 8, ((v >>> 16) &&& 0xff).setWidth 8,
    ((v >>> 24) &&& 0xff).setWidth 8]

def wr32 (v : BitVec 32) : ByteMemory w := m.store a (wordBytes v)

def rd32 : BitVec 32 :=
  (m a).setWidth 32 ||| ((m (a + 1)).setWidth 32 <<< 8) ||| ((m (a + 2)).setWidth 32 <<< 16) |||
    ((m (a + 3)).setWidth 32 <<< 24)

def rd16 : BitVec 16 := (m a).setWidth 16 ||| ((m (a + 1)).setWidth 16 <<< 8)

/-- Bytes are copied one after the other: what is read may have been written before. -/
def copy (m : ByteMemory w) (dst src : BitVec w) : Nat → ByteMemory w
  | 0 => m
  | n + 1 => copy (Function.update m dst (m src)) (dst + 1) (src + 1) n

variable {m a}

@[simp] theorem length_load (n : Nat) : (m.load a n).length = n := by
  induction n generalizing a with
  | zero => rfl
  | succ n ih => rw [load, List.length_cons, ih]

theorem add_succ (k : Nat) : a + 1 + BitVec.ofNat w k = a + BitVec.ofNat w (k + 1) := by
  rw [BitVec.add_assoc, BitVec.add_comm 1, BitVec.ofNat_add]
  rfl

theorem getElem?_load {n k : Nat} (h : k < n) :
    (m.load a n)[k]? = some (m (a + BitVec.ofNat w k)) := by
  induction n generalizing a k with
  | zero => cases h
  | succ n ih =>
    cases k with
    | zero => simp [load]
    | succ k =>
      rw [load, List.getElem?_cons_succ, ih (Nat.lt_of_succ_lt_succ h), add_succ]

theorem load_add (n k : Nat) :
    m.load a (n + k) = m.load a n ++ m.load (a + BitVec.ofNat w n) k := by
  induction n generalizing a with
  | zero => simp [load]
  | succ n ih => rw [Nat.succ_add, load, ih, load, List.cons_append, add_succ]

/-- What is loaded is said byte by byte. -/
theorem load_eq_iff (bs : List (BitVec 8)) : m.load a bs.length = bs ↔
    ∀ k (h : k < bs.length), m (a + BitVec.ofNat w k) = bs[k] := by
  constructor
  · intro hload k h
    have hk := getElem?_load (m := m) (a := a) h
    rw [hload, List.getElem?_eq_getElem h] at hk
    exact (Option.some.inj hk).symm
  · intro hbytes
    apply List.ext_getElem (length_load _)
    intro k hk h
    have hload := getElem?_load (m := m) (a := a) h
    rw [List.getElem?_eq_getElem hk] at hload
    rw [Option.some.inj hload, hbytes k h]

theorem load_congr {w' : Nat} {m' : ByteMemory w'} {a' : BitVec w'} {n : Nat}
    (h : ∀ k < n, m (a + BitVec.ofNat w k) = m' (a' + BitVec.ofNat w' k)) :
    m.load a n = m'.load a' n := by
  apply List.ext_getElem?
  intro k
  rcases Nat.lt_or_ge k n with hk | hk
  · rw [getElem?_load hk, getElem?_load hk, h k hk]
  · rw [List.getElem?_eq_none (by simpa using hk), List.getElem?_eq_none (by simpa using hk)]

/-! ## One store -/

theorem toNat_sub (x : BitVec w) : (x - a).toNat = ((x - (a + 1)).toNat + 1) % 2 ^ w := by
  have hnext : x - a = x - (a + 1) + 1 := by ring
  have hone : (1 : BitVec w).toNat = 1 % 2 ^ w := BitVec.toNat_ofNat 1 w
  rw [hnext, BitVec.toNat_add, hone, Nat.add_mod_mod]

/-- An address is the last one counted from the address behind it. -/
theorem toNat_sub_succ_self : (a - (a + 1)).toNat + 1 = 2 ^ w := by
  have hlt := (a - (a + 1)).isLt
  have hzero := toNat_sub (a := a) a
  rw [BitVec.sub_self, BitVec.toNat_ofNat, Nat.zero_mod] at hzero
  by_contra hne
  rw [Nat.mod_eq_of_lt (by omega)] at hzero
  cases hzero

theorem toNat_sub_of_ne {x : BitVec w} (hx : x ≠ a) :
    (x - a).toNat = (x - (a + 1)).toNat + 1 := by
  have hlt := (x - (a + 1)).isLt
  rw [toNat_sub]
  apply Nat.mod_eq_of_lt
  by_contra hwrap
  have hzero : (x - a).toNat = 0 := by
    rw [toNat_sub, show (x - (a + 1)).toNat + 1 = 2 ^ w by omega, Nat.mod_self]
  apply hx
  have hdiff : x - a = 0 := BitVec.eq_of_toNat_eq (by rw [hzero]; simp)
  rw [BitVec.sub_eq_iff_eq_add] at hdiff
  rw [hdiff]
  simp

/-- A store changes the bytes that it covers. -/
theorem store_apply {bs : List (BitVec 8)} (h : bs.length ≤ 2 ^ w) (x : BitVec w) :
    m.store a bs x = bs[(x - a).toNat]?.getD (m x) := by
  induction bs generalizing m a with
  | nil => rfl
  | cons b bs ih =>
    rw [List.length_cons] at h
    rw [store, ih (Nat.le_of_succ_le h)]
    by_cases hx : x = a
    · -- the byte at the address itself is not covered again
      subst hx
      have hlast := toNat_sub_succ_self (a := x)
      rw [List.getElem?_eq_none (by omega), Function.update_self, BitVec.sub_self]
      simp
    · rw [toNat_sub_of_ne hx, List.getElem?_cons_succ, Function.update_of_ne hx]

theorem store_append (xs ys : List (BitVec 8)) :
    m.store a (xs ++ ys) = (m.store a xs).store (a + BitVec.ofNat w xs.length) ys := by
  induction xs generalizing m a with
  | nil => simp [store]
  | cons x xs ih => rw [List.cons_append, store, ih, store, List.length_cons, add_succ]

/-- A copy that writes no byte which it has still to read moves the bytes as they were. -/
theorem copy_apply {dst src : BitVec w} {n : Nat} (hn : n ≤ 2 ^ w)
    (h : ∀ k j, k < j → j < n → dst + BitVec.ofNat w k ≠ src + BitVec.ofNat w j)
    (x : BitVec w) :
    m.copy dst src n x = if (x - dst).toNat < n then m (src + (x - dst)) else m x := by
  induction n generalizing m dst src with
  | zero => rfl
  | succ n ih =>
    have hzero : dst + BitVec.ofNat w 0 = dst := by simp
    have hread : ∀ j < n, Function.update m dst (m src) (src + 1 + BitVec.ofNat w j) =
        m (src + 1 + BitVec.ofNat w j) := by
      intro j hj
      apply Function.update_of_ne
      rw [add_succ]
      exact fun heq => h 0 (j + 1) (Nat.succ_pos j) (by omega) (by rw [hzero, heq])
    rw [copy, ih (by omega) fun k j hkj hj => by
      rw [add_succ, add_succ]
      exact h (k + 1) (j + 1) (by omega) (by omega)]
    by_cases hx : x = dst
    · subst hx
      have hlast := toNat_sub_succ_self (a := x)
      rw [if_neg (by omega), Function.update_self, BitVec.sub_self]
      simp
    · have hnext := toNat_sub_of_ne hx
      have hsrc : src + 1 + (x - (dst + 1)) = src + (x - dst) := by ring
      rw [hnext, Function.update_of_ne hx]
      split_ifs with hin hin' hin'
      · have hbyte := hread (x - (dst + 1)).toNat hin
        rw [BitVec.ofNat_toNat, BitVec.setWidth_eq, hsrc] at hbyte
        rw [hsrc, hbyte]
      · omega
      · omega
      · rfl

/-- The distance between two bytes of a record. -/
theorem toNat_offset_sub {k n : Nat} (hk : k < 2 ^ w) (hn : n < 2 ^ w) :
    (a + BitVec.ofNat w k - (a + BitVec.ofNat w n)).toNat =
      if n ≤ k then k - n else 2 ^ w + k - n := by
  have hsub : a + BitVec.ofNat w k - (a + BitVec.ofNat w n) =
      BitVec.ofNat w k - BitVec.ofNat w n := by ring
  rw [hsub, BitVec.toNat_sub, BitVec.toNat_ofNat, BitVec.toNat_ofNat, Nat.mod_eq_of_lt hk,
    Nat.mod_eq_of_lt hn]
  split_ifs with hle
  · rw [show 2 ^ w - n + k = 2 ^ w + (k - n) by omega, Nat.add_mod_left,
      Nat.mod_eq_of_lt (by omega)]
  · rw [Nat.mod_eq_of_lt (by omega)]
    omega

theorem offset_inj {k n : Nat} (hk : k < 2 ^ w) (hn : n < 2 ^ w) :
    a + BitVec.ofNat w k = a + BitVec.ofNat w n ↔ k = n := by
  rw [BitVec.add_right_inj, ← BitVec.toNat_inj, BitVec.toNat_ofNat, BitVec.toNat_ofNat,
    Nat.mod_eq_of_lt hk, Nat.mod_eq_of_lt hn]

theorem load_store_byte {b : BitVec 8} {k n : Nat} (hk : k < n) (hn : n ≤ 2 ^ w) :
    (m.store (a + BitVec.ofNat w k) [b]).load a n = (m.load a n).set k b := by
  apply List.ext_getElem?
  intro j
  rcases Nat.lt_or_ge j n with hj | hj
  · rw [getElem?_load hj, List.getElem?_set, length_load, getElem?_load hj, store, store]
    split_ifs with heq
    · rw [heq, Function.update_self]
    · rw [Function.update_of_ne]
      rw [Ne, offset_inj (by omega) (by omega)]
      exact fun hjk => heq hjk.symm
  · rw [List.getElem?_eq_none (by rw [length_load]; exact hj),
      List.getElem?_eq_none (by rw [List.length_set, length_load]; exact hj)]

/-! ## Records -/

/-- A field of a record: where it begins and what is in it. -/
structure Field where
  offset : Nat
  bytes : List (BitVec 8)
  deriving DecidableEq, Repr

namespace Field

def stop (f : Field) : Nat := f.offset + f.bytes.length

def Disjoint (f g : Field) : Prop := f.stop ≤ g.offset ∨ g.stop ≤ f.offset

instance : DecidableRel Disjoint := fun f g =>
  inferInstanceAs (Decidable (f.stop ≤ g.offset ∨ g.stop ≤ f.offset))

end Field

def storeField (m : ByteMemory w) (a : BitVec w) (f : Field) : ByteMemory w :=
  m.store (a + BitVec.ofNat w f.offset) f.bytes

def storeFields (m : ByteMemory w) (a : BitVec w) (fs : List Field) : ByteMemory w :=
  fs.foldl (fun m f => m.storeField a f) m

variable {f : Field} {fs : List Field} {k : Nat}

/-- The bytes of a field after it has been stored. -/
theorem storeField_inside (hf : f.stop ≤ 2 ^ w) (hk : k < f.bytes.length) :
    m.storeField a f (a + BitVec.ofNat w (f.offset + k)) = f.bytes[k] := by
  rw [Field.stop] at hf
  rw [storeField, store_apply (by omega), toNat_offset_sub (by omega) (by omega),
    if_pos (Nat.le_add_right _ _), Nat.add_sub_cancel_left, List.getElem?_eq_getElem hk]
  rfl

theorem storeField_outside (hf : f.stop ≤ 2 ^ w) (hk : k < 2 ^ w)
    (hout : k < f.offset ∨ f.stop ≤ k) :
    m.storeField a f (a + BitVec.ofNat w k) = m (a + BitVec.ofNat w k) := by
  rw [Field.stop] at hf hout
  rcases Nat.eq_zero_or_pos f.bytes.length with hempty | hpos
  · rw [storeField, List.length_eq_zero_iff.mp hempty]
    rfl
  · rw [storeField, store_apply (by omega), toNat_offset_sub hk (by omega)]
    split_ifs with hle
    · rw [List.getElem?_eq_none (by omega)]
      rfl
    · rw [List.getElem?_eq_none (by omega)]
      rfl

theorem storeFields_outside (hfs : ∀ f ∈ fs, f.stop ≤ 2 ^ w) (hk : k < 2 ^ w)
    (hout : ∀ f ∈ fs, k < f.offset ∨ f.stop ≤ k) :
    m.storeFields a fs (a + BitVec.ofNat w k) = m (a + BitVec.ofNat w k) := by
  induction fs generalizing m with
  | nil => rfl
  | cons f fs ih =>
    rw [List.forall_mem_cons] at hfs hout
    rw [storeFields, List.foldl_cons, ← storeFields, ih hfs.2 hout.2,
      storeField_outside hfs.1 hk hout.1]

/-- A field is not touched by those that do not overlap it, so it is there after all have
been stored. -/
theorem load_storeFields (hfs : ∀ f ∈ fs, f.stop ≤ 2 ^ w) (hdisjoint : fs.Pairwise Field.Disjoint)
    (hf : f ∈ fs) :
    (m.storeFields a fs).load (a + BitVec.ofNat w f.offset) f.bytes.length = f.bytes := by
  rw [load_eq_iff]
  intro k hk
  rw [BitVec.add_assoc, ← BitVec.ofNat_add]
  induction fs generalizing m with
  | nil => cases hf
  | cons g fs ih =>
    obtain ⟨hfirst, hrest⟩ := List.pairwise_cons.mp hdisjoint
    rw [List.forall_mem_cons] at hfs
    rw [storeFields, List.foldl_cons, ← storeFields]
    rcases List.mem_cons.mp hf with rfl | hmem
    · have hstop := hfs.1
      rw [Field.stop] at hstop
      rw [storeFields_outside hfs.2 (by omega), storeField_inside hfs.1 hk]
      intro g hg
      have hg := hfirst g hg
      simp only [Field.Disjoint, Field.stop] at hg ⊢
      omega
    · exact ih hfs.2 hrest hmem

/-- Nothing changes where the bytes are there already. -/
theorem storeField_eq_self (hf : f.stop ≤ 2 ^ w)
    (h : m.load (a + BitVec.ofNat w f.offset) f.bytes.length = f.bytes) :
    m.storeField a f = m := by
  rw [Field.stop] at hf
  funext x
  rw [storeField, store_apply (by omega)]
  rcases Nat.lt_or_ge (x - (a + BitVec.ofNat w f.offset)).toNat f.bytes.length with hin | hout
  · rw [List.getElem?_eq_getElem hin, Option.getD_some, ← (load_eq_iff _).mp h _ hin,
      BitVec.ofNat_toNat, BitVec.setWidth_eq]
    congr 1
    ring
  · rw [List.getElem?_eq_none hout]
    rfl

theorem storeFields_append (fs gs : List Field) :
    m.storeFields a (fs ++ gs) = (m.storeFields a fs).storeFields a gs :=
  List.foldl_append

theorem storeFields_eq_self (h : ∀ f ∈ fs, m.storeField a f = m) : m.storeFields a fs = m := by
  induction fs with
  | nil => rfl
  | cons f fs ih =>
    rw [List.forall_mem_cons] at h
    rw [storeFields, List.foldl_cons, h.1]
    exact ih h.2

/-- What is not in the record is not changed. -/
theorem storeFields_frame {n : Nat} (hn : n ≤ 2 ^ w) (hfs : ∀ f ∈ fs, f.stop ≤ n) {x : BitVec w}
    (hx : n ≤ (x - a).toNat) : m.storeFields a fs x = m x := by
  have hxa : x = a + BitVec.ofNat w (x - a).toNat := by
    rw [BitVec.ofNat_toNat, BitVec.setWidth_eq]
    ring
  rw [hxa]
  apply storeFields_outside
  · exact fun f hf => (hfs f hf).trans hn
  · exact (x - a).isLt
  · exact fun f hf => .inr ((hfs f hf).trans hx)

/-! ## Words and strings -/

@[simp] theorem length_wordBytes (v : BitVec 32) : (wordBytes v).length = 4 := rfl

/-- A word is put together again from its bytes. -/
theorem rd32_of_load {v : BitVec 32} (h : m.load a 4 = wordBytes v) : m.rd32 a = v := by
  have hbytes := (load_eq_iff (wordBytes v)).mp h
  have h0 : m (a + 0) = (v &&& 0xff).setWidth 8 := hbytes 0 (by simp)
  have h1 : m (a + 1) = ((v >>> 8) &&& 0xff).setWidth 8 := hbytes 1 (by simp)
  have h2 : m (a + 2) = ((v >>> 16) &&& 0xff).setWidth 8 := hbytes 2 (by simp)
  have h3 : m (a + 3) = ((v >>> 24) &&& 0xff).setWidth 8 := hbytes 3 (by simp)
  rw [add_zero] at h0
  rw [rd32, h0, h1, h2, h3]
  apply BitVec.eq_of_getLsbD_eq
  intro i hi
  interval_cases i <;> simp

/-- A word is what its bytes are. -/
theorem rd32_eq_iff {v : BitVec 32} : m.rd32 a = v ↔ m.load a 4 = wordBytes v := by
  refine ⟨fun h => ?_, rd32_of_load⟩
  have hload : m.load a 4 = [m a, m (a + 1), m (a + 2), m (a + 3)] := by
    have htwo : a + 1 + 1 = a + 2 := by ring
    have hthree : a + 2 + 1 = a + 3 := by ring
    rw [load, load, load, load, load, htwo, hthree]
  rw [hload, ← h, wordBytes, rd32]
  simp only [List.cons.injEq, and_true]
  refine ⟨?_, ?_, ?_, ?_⟩
  all_goals
    apply BitVec.eq_of_getLsbD_eq
    intro i hi
    interval_cases i <;> simp

theorem rd16_eq_iff {v : BitVec 16} :
    m.rd16 a = v ↔ m.load a 2 = [v.setWidth 8, (v >>> 8).setWidth 8] := by
  simp only [load, List.cons.injEq, and_true]
  rw [rd16]
  constructor
  · rintro rfl
    constructor
    all_goals
      apply BitVec.eq_of_getLsbD_eq
      intro i hi
      interval_cases i <;> simp
  · rintro ⟨hlow, hhigh⟩
    rw [hlow, hhigh]
    apply BitVec.eq_of_getLsbD_eq
    intro i hi
    interval_cases i <;> simp

/-- A string is read up to its end. -/
theorem cString_of_load {s : List (BitVec 8)} {n : Nat} (h : m.load a (s.length + 1) = s ++ [0])
    (hnul : 0 ∉ s) (hn : s.length < n) : m.cString a n = some s := by
  induction s generalizing a n with
  | nil =>
    obtain ⟨n, rfl⟩ := Nat.exists_eq_add_of_lt hn
    have hend : m a = 0 := (List.cons.inj h).1
    rw [Nat.add_comm _ 1, Nat.add_comm 1, cString, if_pos hend]
  | cons b s ih =>
    obtain ⟨n, rfl⟩ : ∃ n', n = n' + 1 := ⟨n - 1, by rw [List.length_cons] at hn; omega⟩
    rw [List.length_cons, load, List.cons_append, List.cons.injEq] at h
    obtain ⟨hb, hrest⟩ := h
    rw [List.mem_cons, not_or] at hnul
    rw [List.length_cons] at hn
    rw [cString, if_neg (by rw [hb]; exact fun hzero => hnul.1 hzero.symm),
      ih hrest hnul.2 (by omega), hb]
    rfl

theorem cString_congr {m' : ByteMemory w} {n : Nat}
    (h : ∀ k < n, m' (a + BitVec.ofNat w k) = m (a + BitVec.ofNat w k)) :
    m'.cString a n = m.cString a n := by
  induction n generalizing a with
  | zero => rfl
  | succ n ih =>
    have hfirst := h 0 (Nat.succ_pos n)
    rw [show a + BitVec.ofNat w 0 = a by simp] at hfirst
    rw [cString, cString, hfirst, ih fun k hk => ?_]
    rw [add_succ]
    exact h (k + 1) (Nat.succ_lt_succ hk)

/-- The first bytes that have been stored. -/
theorem load_store {bs : List (BitVec 8)} {n : Nat} (hn : n ≤ bs.length)
    (hbs : bs.length ≤ 2 ^ w) : (m.store a bs).load a n = bs.take n := by
  apply List.ext_getElem?
  intro k
  rcases Nat.lt_or_ge k n with hk | hk
  · rw [getElem?_load hk, store_apply hbs, add_sub_cancel_left, BitVec.toNat_ofNat,
      Nat.mod_eq_of_lt (by omega), List.getElem?_take_of_lt hk,
      List.getElem?_eq_getElem (by omega)]
    rfl
  · rw [List.getElem?_eq_none (by rw [length_load]; exact hk),
      List.getElem?_eq_none (by rw [List.length_take]; omega)]

end ByteMemory
