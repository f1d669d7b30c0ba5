import NopCore.Core.DecodedCore
import NopCore.Lib.ByteMemory
import NopCore.Lib.Words
import NopCore.Mem.LoadData
import NopCore.Privilege.Report

/-!
# Byte lanes

Memory is made of words, and an access may be smaller. MEMADDR moves the value of a store
to the lanes that the low bits of the address name, and enables them. Wherever the store
then meets a word, in the store buffer, on its way to MEM2, in the cache or in a line that
is fetched, the enabled lanes are replaced. After MEM2 the lanes of a load are moved back
and extended.

The reference is a memory of bytes. An access covers as many bytes as its size from its
address on, the lowest byte first. The word of a memory of bytes at an address is made of
the bytes at the addresses that differ from it in the last two bits only.
-/

namespace NopCore

/-- The lanes of a word. -/
def lanes (word : UWord) : BWord := fun k => word.extractLsb' (8 * k.val) 8

def ofLanes (word : BWord) : UWord := word 3 ++ word 2 ++ word 1 ++ word 0

namespace AddressGeneration

def byteEnable (accessType : LoadStoreType) (virtAddr : UWord) : BitVec 4 :=
  match accessType with
  | .byte | .byteU | .cacop | .preld =>
    match (virtAddr.extractLsb' 0 2).toNat with
    | 0 => 0b0001
    | 1 => 0b0010
    | 2 => 0b0100
    | _ => 0b1000
  | .half | .halfU => if virtAddr.getLsbD 1 then 0b1100 else 0b0011
  | .word => 0xf

/-- A load passes the register word on as it is. -/
def memWData (accessType : LoadStoreType) (isLoad : Bool) (virtAddr dataWord : UWord) : UWord :=
  if isLoad then dataWord
  else
    match accessType with
    | .byte | .byteU | .cacop | .preld => dataWord <<< (8 * (virtAddr.extractLsb' 0 2).toNat)
    | .half | .halfU => if virtAddr.getLsbD 1 then dataWord <<< 16 else dataWord
    | .word => dataWord

/-- What the address stages read besides the instruction: the address, the register word,
and the state of the translation. -/
structure Operands where
  virtAddr : UWord := 0
  dataWord : UWord := 0
  mmu : MMU := {}
  savedCSR : TranslateCSR := ⟨true, false, 0, 1⟩

variable (u : MemUop) (x : Operands)

def translated : TranslateResult :=
  let op : MemOperationType := if u.isStore then .store else .load
  translate x.virtAddr op (x.mmu.directTranslate x.virtAddr) (x.mmu.tlbTranslate x.virtAddr op)
    x.savedCSR

/-- An instruction of the issue queue with the result of MEMADDR and MEM1. -/
def generate : MemUop :=
  { u with
    addr := (translated u x).physAddr
    cached := (translated u x).cached
    except := (robWriteExcept x.mmu x.savedCSR u.lsType u.isStore x.virtAddr).valid
    be := fun k => (byteEnable u.lsType x.virtAddr).getLsbD k
    data := lanes (memWData u.lsType u.isLoad x.virtAddr x.dataWord) }

end AddressGeneration

/-! ## Memory by bytes -/

namespace LoadStoreType

/-- The number of bytes of an access. -/
def size : LoadStoreType → Nat
  | .byte | .byteU | .cacop | .preld => 1
  | .half | .halfU => 2
  | .word => 4

/-- The type of a load of data. -/
def IsData (type : LoadStoreType) : Prop := type ≠ .cacop ∧ type ≠ .preld

/-- A load from a memory of bytes: little-endian, extended as the type says. -/
def read (type : LoadStoreType) (m : ByteMemory 32) (addr : UWord) : UWord :=
  match type with
  | .byte => (m addr).signExtend 32
  | .half => (m (addr + 1) ++ m addr).signExtend 32
  | .byteU | .cacop | .preld => (m addr).setWidth 32
  | .halfU => (m (addr + 1) ++ m addr).setWidth 32
  | .word => m (addr + 3) ++ m (addr + 2) ++ m (addr + 1) ++ m addr

/-- A store to a memory of bytes. -/
def write (type : LoadStoreType) (m : ByteMemory 32) (addr value : UWord) : ByteMemory 32 :=
  m.store addr ((ByteMemory.wordBytes value).take type.size)

end LoadStoreType

/-- The lane that an address names. -/
def lane (addr : UWord) : Fin 4 := (addr.extractLsb' 0 2).toFin

/-- A memory of words, byte by byte. -/
def bytes (m : WordAddr → BWord) : ByteMemory 32 := fun addr => m (wordAddr addr) (lane addr)

/-- A word has the bytes of a memory. -/
def IsWordAt (m : ByteMemory 32) (a : WordAddr) (word : BWord) : Prop :=
  ∀ addr, wordAddr addr = a → word (lane addr) = m addr

/-! ## Addresses -/

theorem wordAddr_eq_iff {a b : UWord} : wordAddr a = wordAddr b ↔ a.toNat / 4 = b.toNat / 4 := by
  simp only [wordAddr, WordAddr.mk.injEq, ← BitVec.toNat_inj, BitVec.extractLsb'_toNat,
    Nat.shiftRight_eq_div_pow]
  omega

@[simp] theorem val_lane (a : UWord) : (lane a).val = a.toNat % 4 := by
  change (a.extractLsb' 0 2).toNat = _
  rw [BitVec.extractLsb'_toNat, Nat.shiftRight_zero]

/-- An access that is not refused lies at a multiple of its size. -/
theorem aligned_of_raiseALE {type : LoadStoreType} {addr : UWord} (h : raiseALE type addr = false) :
    addr.toNat % 4 % type.size = 0 := by
  have hbit : addr.getLsbD 0 = decide (addr.toNat % 2 = 1) := by
    rw [BitVec.getLsbD, Nat.testBit_zero]
  have hlow : (addr.extractLsb' 0 2).toNat = addr.toNat % 4 := by
    rw [BitVec.extractLsb'_toNat, Nat.shiftRight_zero]
  cases type with
  | half | halfU =>
    simp only [raiseALE, hbit, decide_eq_false_iff_not] at h
    change addr.toNat % 4 % 2 = 0
    omega
  | word =>
    simp only [raiseALE, bne_eq_false_iff_eq, ← BitVec.toNat_inj, hlow] at h
    change addr.toNat % 4 % 4 = 0
    rw [h]
    rfl
  | byte | byteU | cacop | preld => exact Nat.mod_one _

/-- An aligned access stays inside of its word: a byte is as far from its address as the
lanes are apart. -/
theorem distance_lt_iff {a b : UWord} {n : Nat} (hn : n = 1 ∨ n = 2 ∨ n = 4)
    (ha : a.toNat % 4 % n = 0) :
    (b - a).toNat < n ↔ wordAddr a = wordAddr b ∧ (lane a).val ≤ lane b ∧
      (lane b).val < lane a + n := by
  have hlt := a.isLt
  have hlt' := b.isLt
  rw [wordAddr_eq_iff, val_lane, val_lane, BitVec.toNat_sub]
  obtain rfl | rfl | rfl := hn <;> omega

theorem distance_eq {a b : UWord} (hword : wordAddr a = wordAddr b)
    (hle : (lane a).val ≤ lane b) : (b - a).toNat = (lane b).val - lane a := by
  have hlt := a.isLt
  have hlt' := b.isLt
  rw [wordAddr_eq_iff] at hword
  rw [val_lane, val_lane] at hle ⊢
  rw [BitVec.toNat_sub]
  omega

/-! ## Placing a value in the lanes -/

theorem lanes_shiftLeft {value : UWord} {n : Nat} {k : Fin 4} (h : n ≤ k) :
    lanes (value <<< (8 * n)) k = value.extractLsb' (8 * (k - n)) 8 := by
  apply BitVec.eq_of_getLsbD_eq
  intro i hi
  have hk := k.isLt
  simp only [lanes, BitVec.getLsbD_extractLsb', BitVec.getLsbD_shiftLeft]
  have hin : 8 * k.val + i < 32 := by omega
  have hout : ¬ 8 * k.val + i < 8 * n := by omega
  have hsub : 8 * k.val + i - 8 * n = 8 * (k.val - n) + i := by omega
  simp [hi, hin, hout, hsub]

theorem getElem_wordBytes {value : UWord} {n : Nat} (h : n < 4) :
    (ByteMemory.wordBytes value)[n]? = some (value.extractLsb' (8 * n) 8) := by
  have hmask : ∀ x : BitVec 8, x &&& 255#8 = x := fun _ => BitVec.and_allOnes
  have hext : ∀ j, value.extractLsb' j 8 = (value >>> j).setWidth 8 := fun _ => rfl
  interval_cases n <;> simp [ByteMemory.wordBytes, hmask, hext]

namespace AddressGeneration

/-- The lanes of an access are as many as its size, from the one that its address names on. -/
theorem getLsbD_byteEnable {type : LoadStoreType} {addr : UWord}
    (h : addr.toNat % 4 % type.size = 0) (k : Fin 4) :
    (byteEnable type addr).getLsbD k =
      decide ((lane addr).val ≤ k ∧ k.val < lane addr + type.size) := by
  have hbit : addr.getLsbD 1 = (addr.extractLsb' 0 2).getLsbD 1 := by simp
  have hlow : addr.toNat % 4 = (addr.extractLsb' 0 2).toNat := by
    rw [BitVec.extractLsb'_toNat, Nat.shiftRight_zero]
  simp only [byteEnable, hbit, val_lane, hlow] at h ⊢
  generalize addr.extractLsb' 0 2 = low at h ⊢
  revert h
  cases type <;> revert low k <;> decide

/-- An enabled lane has the byte of the value at its distance from the address. -/
theorem lanes_memWData {type : LoadStoreType} {addr value : UWord} {k : Fin 4}
    (h : addr.toNat % 4 % type.size = 0) (hle : (lane addr).val ≤ k) :
    lanes (memWData type false addr value) k = value.extractLsb' (8 * (k - (lane addr).val)) 8 := by
  have hbit : addr.getLsbD 1 = decide (addr.toNat % 4 / 2 = 1) := by
    rw [BitVec.getLsbD, Nat.testBit_eq_decide_div_mod_eq]
    congr 1
    simp only [eq_iff_iff]
    omega
  have hlow : (addr.extractLsb' 0 2).toNat = addr.toNat % 4 := by
    rw [BitVec.extractLsb'_toNat, Nat.shiftRight_zero]
  rw [val_lane] at hle ⊢
  have hplain : lanes value k = value.extractLsb' (8 * (k - 0)) 8 := rfl
  cases type with
  | byte | byteU | cacop | preld =>
    change lanes (value <<< _) k = _
    rw [hlow]
    exact lanes_shiftLeft hle
  | half | halfU =>
    change addr.toNat % 4 % 2 = 0 at h
    change lanes (if addr.getLsbD 1 then value <<< 16 else value) k = _
    rw [hbit]
    split_ifs with htop
    · rw [decide_eq_true_eq] at htop
      have hoff : addr.toNat % 4 = 2 := by omega
      rw [hoff] at hle ⊢
      exact lanes_shiftLeft (n := 2) hle
    · rw [decide_eq_true_eq] at htop
      have hoff : addr.toNat % 4 = 0 := by omega
      rw [hoff, hplain]
  | word =>
    change addr.toNat % 4 % 4 = 0 at h
    have hoff : addr.toNat % 4 = 0 := by omega
    rw [hoff]
    exact hplain

end AddressGeneration

/-! ## A store meets a word -/

/-- A store to the memory of bytes, with its place in program order. -/
structure ByteStore where
  number : Nat := 0
  lsType : LoadStoreType := .byte
  addr : UWord := 0
  value : UWord := 0

namespace ByteStore

def perform (m : ByteMemory 32) (x : ByteStore) : ByteMemory 32 :=
  x.lsType.write m x.addr x.value

/-- A write of lanes carries the bytes of a store. -/
structure Carried (x : ByteStore) (w : Lanes.Write WordAddr (Fin 4) (BitVec 8)) : Prop where
  aligned : x.addr.toNat % 4 % x.lsType.size = 0
  addr : w.addr = wordAddr x.addr
  be : ∀ k, w.be k = decide ((lane x.addr).val ≤ k ∧ k.val < lane x.addr + x.lsType.size)
  data : ∀ k : Fin 4, (lane x.addr).val ≤ k →
    w.data k = x.value.extractLsb' (8 * (k - (lane x.addr).val)) 8

end ByteStore

/-- The store that an instruction is to perform. -/
def MemUop.byteStore (u : MemUop) (value : UWord) : ByteStore :=
  ⟨u.number, u.lsType, u.addr, value⟩

theorem LoadStoreType.size_cases (type : LoadStoreType) :
    type.size = 1 ∨ type.size = 2 ∨ type.size = 4 := by
  cases type <;> decide

/-- A store to bytes, byte by byte. -/
theorem LoadStoreType.write_apply (type : LoadStoreType) (m : ByteMemory 32)
    (addr value b : UWord) :
    type.write m addr value b =
      if (b - addr).toNat < type.size then value.extractLsb' (8 * (b - addr).toNat) 8
      else m b := by
  have hsize := type.size_cases
  rw [write, ByteMemory.store_apply (by simp), List.getElem?_take]
  split_ifs with hlt
  · rw [getElem_wordBytes (by omega)]
    rfl
  · rfl

variable {m : ByteMemory 32} {a : WordAddr} {word : BWord}

/-- A write of lanes changes the bytes of its store and no others. -/
theorem IsWordAt.forward {x : ByteStore} {w : Lanes.Write WordAddr (Fin 4) (BitVec 8)}
    (h : IsWordAt m a word) (hx : x.Carried w) :
    IsWordAt (x.perform m) a (Lanes.forward a word w) := by
  intro b hb
  have hinside := distance_lt_iff (b := b) x.lsType.size_cases hx.aligned
  rw [ByteStore.perform, LoadStoreType.write_apply, Lanes.forward, hx.addr]
  by_cases hword : wordAddr x.addr = a
  · rw [if_pos hword, Lanes.merge, hx.be]
    rw [hb] at hinside
    by_cases hlanes : (lane x.addr).val ≤ lane b ∧ (lane b).val < lane x.addr + x.lsType.size
    · rw [if_pos (decide_eq_true hlanes), if_pos (hinside.mpr ⟨hword, hlanes⟩), hx.data _ hlanes.1,
        distance_eq (hword.trans hb.symm) hlanes.1]
    · rw [if_neg (by simpa using hlanes), if_neg fun hlt => hlanes (hinside.mp hlt).2, h b hb]
  · rw [if_neg hword, if_neg fun hlt => hword ((hinside.mp hlt).1.trans hb), h b hb]

theorem IsWordAt.forwardAll {xs : List ByteStore}
    {ws : List (Lanes.Write WordAddr (Fin 4) (BitVec 8))} (h : IsWordAt m a word)
    (hxs : List.Forall₂ ByteStore.Carried xs ws) :
    IsWordAt (xs.foldl ByteStore.perform m) a (Lanes.forwardAll ws a word) := by
  induction hxs generalizing m word with
  | nil => exact h
  | cons hx _ ih => exact ih (h.forward hx)

/-! ## A load extracts its bytes -/

/-- The lanes above a byte are filled with its extension. -/
theorem ofLanes_byte {b : BitVec 8} (signed : Bool) (h0 : word 0 = b)
    (hext : ∀ k : Fin 4, 1 ≤ k → word k = if signed && b.msb then BitVec.allOnes 8 else 0) :
    ofLanes word = if signed then b.signExtend 32 else b.setWidth 32 := by
  rw [Words.extend_eq_append b signed (by decide), ofLanes, h0, hext 3 (by decide),
    hext 2 (by decide), hext 1 (by decide)]
  cases signed && b.msb <;> rfl

theorem ofLanes_half {low high : BitVec 8} (signed : Bool) (h0 : word 0 = low)
    (h1 : word 1 = high)
    (hext : ∀ k : Fin 4, 2 ≤ k → word k = if signed && high.msb then BitVec.allOnes 8 else 0) :
    ofLanes word =
      if signed then (high ++ low).signExtend 32 else (high ++ low).setWidth 32 := by
  have hmsb : (high ++ low).msb = high.msb := BitVec.msb_append
  rw [Words.extend_eq_append (high ++ low) signed (by decide), ofLanes, h0, h1,
    hext 3 (by decide), hext 2 (by decide), hmsb, BitVec.append_assoc']
  cases signed && high.msb <;> rfl

/-- The byte behind an address is in the next lane of its word. -/
theorem IsWordAt.lane_add {addr : UWord} {n : Nat} (h : IsWordAt m (wordAddr addr) word)
    {k : Fin 4} (hk : k.val = addr.toNat % 4 + n) : word k = m (addr + BitVec.ofNat 32 n) := by
  have hlt := addr.isLt
  have hsum : (addr + BitVec.ofNat 32 n).toNat = addr.toNat + n := by
    have hkLt := k.isLt
    rw [BitVec.toNat_add, BitVec.toNat_ofNat]
    omega
  have hlane : lane (addr + BitVec.ofNat 32 n) = k := by
    apply Fin.ext
    rw [val_lane, hsum, hk]
    omega
  rw [← hlane]
  apply h
  rw [wordAddr_eq_iff, hsum]
  omega

/-- The bytes of an aligned load, moved to the lowest lanes and extended. -/
theorem IsWordAt.load {type : LoadStoreType} {addr : UWord} (h : IsWordAt m (wordAddr addr) word)
    (haligned : addr.toNat % 4 % type.size = 0) (hdata : type.IsData) :
    ofLanes (loadPostprocess type (addr.extractLsb' 0 2) word) = type.read m addr := by
  have hbyte : word (addr.extractLsb' 0 2).toFin = m addr := h addr rfl
  have hbit : (addr.extractLsb' 0 2).getLsbD 1 = decide (addr.toNat % 4 / 2 = 1) := by
    rw [BitVec.getLsbD, Nat.testBit_eq_decide_div_mod_eq, BitVec.extractLsb'_toNat]
    congr 1
    simp only [eq_iff_iff]
    omega
  have hhalf : addr.toNat % 4 % 2 = 0 →
      (if (addr.extractLsb' 0 2).getLsbD 1 then word 2 else word 0) = m addr ∧
        (if (addr.extractLsb' 0 2).getLsbD 1 then word 3 else word 1) = m (addr + 1) := by
    intro heven
    have hfirst {k : Fin 4} (hk : k.val = addr.toNat % 4) : word k = m addr :=
      (h.lane_add (n := 0) hk).trans (by simp)
    rw [hbit]
    by_cases htop : addr.toNat % 4 / 2 = 1
    · simp only [htop, decide_true, if_true]
      exact ⟨hfirst (by change 2 = _; omega), h.lane_add (n := 1) (by change 3 = _; omega)⟩
    · simp only [htop, decide_false, Bool.false_eq_true, if_false]
      exact ⟨hfirst (by change 0 = _; omega), h.lane_add (n := 1) (by change 1 = _; omega)⟩
  cases type with
  | byte =>
    refine (ofLanes_byte true hbyte fun k hk => ?_).trans rfl
    rw [← hbyte]
    exact if_neg (by omega)
  | byteU =>
    refine (ofLanes_byte false hbyte fun k hk => ?_).trans rfl
    exact if_neg (by omega)
  | half =>
    obtain ⟨hlow, hhigh⟩ := hhalf haligned
    refine (ofLanes_half true hlow hhigh fun k hk => ?_).trans rfl
    rw [← hhigh]
    exact (if_neg (by omega)).trans (if_neg (by omega))
  | halfU =>
    obtain ⟨hlow, hhigh⟩ := hhalf haligned
    refine (ofLanes_half false hlow hhigh fun k hk => ?_).trans rfl
    exact (if_neg (by omega)).trans (if_neg (by omega))
  | word =>
    change addr.toNat % 4 % 4 = 0 at haligned
    have hlane : ∀ n (k : Fin 4), k.val = n → word k = m (addr + BitVec.ofNat 32 n) := by
      intro n k hk
      exact h.lane_add (by omega)
    have hfirst := hlane 0 0 rfl
    rw [show addr + BitVec.ofNat 32 0 = addr by simp] at hfirst
    change ofLanes word = _
    rw [ofLanes, hlane 3 3 rfl, hlane 2 2 rfl, hlane 1 1 rfl, hfirst]
    rfl
  | cacop => exact absurd rfl hdata.1
  | preld => exact absurd rfl hdata.2

/-! ## What the address stages hand on -/

/-- Every load that is decoded has the type of a load. -/
theorem Decoder.isData_of_isLoad {plv : BitVec 2} {entry : FetchEntry}
    (h : (decode plv entry).isLoad = true) : (decode plv entry).lsType.IsData := by
  have hlines : ∀ line ∈ encodings, (line.2 {}).isLoad = true →
      (line.2 {}).lsType ≠ .cacop ∧ (line.2 {}).lsType ≠ .preld := by
    decide +kernel
  change (signals entry.inst).isLoad = true at h
  change (signals entry.inst).lsType.IsData
  obtain ⟨line, hline, -, heq⟩ | ⟨-, heq⟩ := signals_eq entry.inst
  · rw [heq] at h ⊢
    exact hlines line hline h
  · rw [heq] at h
    cases h

theorem append_offset {n k : Nat} (high : BitVec k) (virtAddr : UWord) (h : 12 ≤ n) :
    (high ++ virtAddr.extractLsb' 0 n).toNat % 2 ^ 12 = virtAddr.toNat % 2 ^ 12 := by
  have hdvd : 2 ^ 12 ∣ 2 ^ n := Nat.pow_dvd_pow 2 h
  rw [Words.toNat_append, BitVec.extractLsb'_toNat, Nat.shiftRight_zero, Nat.add_mod,
    Nat.mod_eq_zero_of_dvd (hdvd.mul_left _), Nat.zero_add, Nat.mod_mod, Nat.mod_mod_of_dvd _ hdvd]

theorem directTranslate_offset {mmu : MMU} {virtAddr : UWord} {r : TranslateResult}
    (h : mmu.directTranslate virtAddr = some r) :
    r.physAddr.toNat % 2 ^ 12 = virtAddr.toNat % 2 ^ 12 := by
  rw [MMU.directTranslate] at h
  split_ifs at h
  all_goals
    obtain rfl := Option.some.inj h
    exact append_offset (n := 29) _ _ (by decide)

theorem tlbTranslate_offset {mmu : MMU} {virtAddr : UWord} {op : MemOperationType}
    {r : TranslateResult} (h : mmu.tlbTranslate virtAddr op = some r) :
    r.physAddr.toNat % 2 ^ 12 = virtAddr.toNat % 2 ^ 12 := by
  rw [MMU.tlbTranslate, Option.some.injEq] at h
  rw [← h]
  cases hps : (mmu.tlbHitEntry virtAddr).ps == 12 with
  | true =>
    simp only [if_true]
    exact append_offset (n := 12) _ _ (by decide)
  | false =>
    simp only [Bool.false_eq_true, if_false]
    exact append_offset (n := 21) _ _ (by decide)

/-- Translation keeps the offset in the page. -/
theorem translate_offset {virtAddr : UWord} {op : MemOperationType} {mmu : MMU}
    {csr : TranslateCSR}
    (hcached : (translate virtAddr op (mmu.directTranslate virtAddr)
      (mmu.tlbTranslate virtAddr op) csr).cached = true) :
    (translate virtAddr op (mmu.directTranslate virtAddr)
      (mmu.tlbTranslate virtAddr op) csr).physAddr.toNat % 2 ^ 12 = virtAddr.toNat % 2 ^ 12 := by
  unfold translate at hcached ⊢
  by_cases hda : (csr.crmdDA && !csr.crmdPG) = true
  · rw [if_pos hda]
    exact append_offset (n := 29) _ _ (by decide)
  · rw [if_neg hda] at hcached ⊢
    by_cases hpg : (!csr.crmdDA && csr.crmdPG) = true
    · rw [if_pos hpg]
      cases hdirect : mmu.directTranslate virtAddr with
      | some r => exact directTranslate_offset hdirect
      | none => exact tlbTranslate_offset rfl
    · rw [if_neg hpg] at hcached
      cases hcached

/-- A misaligned access raises an exception. -/
theorem raiseALE_of_valid {mmu : MMU} {csr : TranslateCSR} {type : LoadStoreType} {isStore : Bool}
    {virtAddr : UWord} (h : (robWriteExcept mmu csr type isStore virtAddr).valid = false) :
    raiseALE type virtAddr = false := by
  by_contra hale
  have hraised : ∃ s ∈ memaddrSources type virtAddr, s.valid = true :=
    ⟨_, List.mem_singleton_self _, Bool.of_not_eq_false hale⟩
  have hclear : ({} : ExceptionSignals).occurred = false := rfl
  obtain ⟨-, -, hoccurred, -⟩ := ExceptionMux.stage_reports hclear hraised
  dsimp only [robWriteExcept] at h
  rw [ExceptionMux.stage_of_occurred hoccurred, hoccurred] at h
  cases h

namespace AddressGeneration

variable {u : MemUop} {x : Operands}

theorem offset_generate (hcached : (generate u x).cached = true) :
    (generate u x).addr.toNat % 4 = x.virtAddr.toNat % 4 := by
  have hoffset := translate_offset hcached
  change (translated u x).physAddr.toNat % 4 = _
  rw [translated]
  omega

theorem aligned_generate (hexcept : (generate u x).except = false)
    (hcached : (generate u x).cached = true) :
    (generate u x).addr.toNat % 4 % u.lsType.size = 0 := by
  rw [offset_generate hcached]
  exact aligned_of_raiseALE (raiseALE_of_valid hexcept)

/-- The lanes carry the bytes of the store. -/
theorem carried_generate (hload : u.isLoad = false) (hexcept : (generate u x).except = false)
    (hcached : (generate u x).cached = true) :
    ((generate u x).byteStore x.dataWord).Carried (generate u x).programStore.write := by
  have haligned := aligned_of_raiseALE (raiseALE_of_valid hexcept)
  have hlane : lane x.virtAddr = lane (generate u x).addr := by
    apply Fin.ext
    rw [val_lane, val_lane, offset_generate hcached]
  refine ⟨aligned_generate hexcept hcached, rfl, ?_, ?_⟩
  · intro k
    change (byteEnable u.lsType x.virtAddr).getLsbD k = _
    rw [getLsbD_byteEnable haligned, hlane]
    rfl
  · intro k hk
    change lane (generate u x).addr ≤ k at hk
    change lanes (memWData u.lsType u.isLoad x.virtAddr x.dataWord) k = _
    rw [hload, lanes_memWData haligned (by rw [hlane]; exact hk), hlane]
    rfl

end AddressGeneration

end NopCore
