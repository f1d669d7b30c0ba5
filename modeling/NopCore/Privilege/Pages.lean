import NopCore.Lib.Words
import NopCore.Privilege.Report
import Mathlib.Data.List.Find

/-!
# The pages that an entry maps

An entry of the TLB maps a pair of neighbouring pages. `PS` is the logarithm of their size,
and `VPPN` the number of the pair, counted in pairs of pages of 4 KiB. This is said here in
terms of numbers, and from it the translation of the architecture: it either gives an
address with its memory type, or names one cause for which the access is refused.

The translation of the core collects the causes first and orders them later. For the page
sizes of the architecture the two agree.
-/

namespace NopCore

open Words

/-! ## The architecture -/

/-- The sizes of pages that the architecture has. -/
def TLBEntry.Sized (entry : TLBEntry) : Prop := entry.ps = 12 ∨ entry.ps = 21

/-- One page of a pair. -/
structure Page where
  v : Bool
  d : Bool
  plv : BitVec 2
  mat : BitVec 2
  ppn : BitVec 20

/-- The cause of an access to an invalid page. -/
def MemOperationType.invalidCause : MemOperationType → Cause
  | .fetch => .pif
  | .load => .pil
  | .store => .pis

/-- Why the page does not permit an access: it is invalid, it needs a higher privilege, or
it has not been written yet. -/
def Page.cause (page : Page) (op : MemOperationType) (plv : BitVec 2) : Option Cause :=
  if page.v = false then some op.invalidCause
  else if page.plv.toNat < plv.toNat then some .ppi
  else if op = .store ∧ page.d = false then some .pme
  else none

/-- Memory of type 1 is cached, memory of type 0 is not. Of the other types, which are
reserved, the lower bit counts. -/
def cachedType (mat : BitVec 2) : Bool := mat.toNat % 2 = 1

namespace TLBEntry

variable (entry : TLBEntry) (virtAddr : UWord)

/-- The address is in the pair of pages. -/
def Maps : Prop :=
  virtAddr.toNat / 2 ^ (entry.ps.toNat + 1) =
    entry.vppn.toNat * 2 ^ 13 / 2 ^ (entry.ps.toNat + 1)

instance : Decidable (entry.Maps virtAddr) :=
  inferInstanceAs (Decidable (virtAddr.toNat / 2 ^ (entry.ps.toNat + 1) = _))

/-- The entry belongs to the address space. -/
def InSpace (asid : BitVec 10) : Prop := entry.g = true ∨ entry.asid = asid

instance (asid : BitVec 10) : Decidable (entry.InSpace asid) :=
  inferInstanceAs (Decidable (entry.g = true ∨ entry.asid = asid))

/-- The page of the pair that the address is in. -/
def page : Page :=
  if virtAddr.toNat / 2 ^ entry.ps.toNat % 2 = 1 then
    ⟨entry.v1, entry.d1, entry.plv1, entry.mat1, entry.ppn1⟩
  else ⟨entry.v0, entry.d0, entry.plv0, entry.mat0, entry.ppn0⟩

/-- The number of a page counts pages of 4 KiB. Of a larger page its lower bits do not
count. -/
def pageAddr : UWord :=
  BitVec.ofNat 32 ((entry.page virtAddr).ppn.toNat * 2 ^ 12 / 2 ^ entry.ps.toNat *
    2 ^ entry.ps.toNat + virtAddr.toNat % 2 ^ entry.ps.toNat)

end TLBEntry

namespace DMW

variable (d : DMW) (plv : BitVec 2) (virtAddr : UWord)

/-- The window is open at the privilege level and the address is in it. -/
def Covers : Prop :=
  (d.plv0 = true ∧ plv = 0 ∨ d.plv3 = true ∧ plv = 3) ∧ virtAddr.toNat / 2 ^ 29 = d.vseg.toNat

instance : Decidable (d.Covers plv virtAddr) := inferInstanceAs (Decidable (_ ∧ _))

def windowAddr : UWord := BitVec.ofNat 32 (d.pseg.toNat * 2 ^ 29 + virtAddr.toNat % 2 ^ 29)

end DMW

namespace MMU

variable (mmu : MMU) (csr : TranslateCSR) (op : MemOperationType) (virtAddr : UWord)

/-- The entry translates the address in the present address space. -/
def Matches (entry : TLBEntry) : Prop :=
  entry.e = true ∧ entry.InSpace mmu.asid ∧ entry.Maps virtAddr

instance (entry : TLBEntry) : Decidable (mmu.Matches virtAddr entry) :=
  inferInstanceAs (Decidable (_ ∧ _))

/-- The first entry that translates the address. -/
def firstMatch : Option (Fin 16) :=
  (List.finRange 16).find? fun k => decide (mmu.Matches virtAddr (mmu.tlbTable k))

/-- The page, if it permits the access. -/
def pageAccess (entry : TLBEntry) : Except Cause (UWord × Bool) :=
  match (entry.page virtAddr).cause op mmu.crmdPLV with
  | some c => .error c
  | none => .ok (entry.pageAddr virtAddr, cachedType (entry.page virtAddr).mat)

/-- The translation of the architecture. -/
def reference : Except Cause (UWord × Bool) :=
  if csr.crmdDA then
    .ok (BitVec.ofNat 32 (virtAddr.toNat % 2 ^ 29),
      cachedType (if op = .fetch then csr.crmdDATF else csr.crmdDATM))
  else if mmu.dmw0.Covers mmu.crmdPLV virtAddr then
    .ok (mmu.dmw0.windowAddr virtAddr, cachedType mmu.dmw0.mat)
  else if mmu.dmw1.Covers mmu.crmdPLV virtAddr then
    .ok (mmu.dmw1.windowAddr virtAddr, cachedType mmu.dmw1.mat)
  else
    match mmu.firstMatch virtAddr with
    | none => .error .tlbr
    | some k => mmu.pageAccess op virtAddr (mmu.tlbTable k)

/-! ## The core -/

/-- The sources that the exceptions of a translation are connected to. -/
def exceptionSources (e : TranslateResultException) : List ExceptionSource :=
  if op = .fetch then if2Sources virtAddr e else mem1Sources e

/-- What the stages make of a translation. -/
def access : Except ExceptionCode (UWord × Bool) :=
  let result := translate virtAddr op (mmu.directTranslate virtAddr)
    (mmu.tlbTranslate virtAddr op) csr
  let signals := ExceptionMux.stage (exceptionSources op virtAddr result.exception) {}
  if signals.occurred then .error signals.code else .ok (result.physAddr, result.cached)

end MMU

/-! ## Fields of words -/

section Fields

variable (virtAddr : UWord)

theorem toNat_segment : (virtAddr.extractLsb' 29 3).toNat = virtAddr.toNat / 2 ^ 29 := by
  have h := virtAddr.isLt
  rw [BitVec.extractLsb'_toNat, Nat.shiftRight_eq_div_pow, Nat.mod_eq_of_lt (by omega)]

theorem toNat_pair : (virtAddr.extractLsb' 13 19).toNat = virtAddr.toNat / 2 ^ 13 := by
  have h := virtAddr.isLt
  rw [BitVec.extractLsb'_toNat, Nat.shiftRight_eq_div_pow, Nat.mod_eq_of_lt (by omega)]

theorem toNat_largePair : (virtAddr.extractLsb' 22 10).toNat = virtAddr.toNat / 2 ^ 22 := by
  have h := virtAddr.isLt
  rw [BitVec.extractLsb'_toNat, Nat.shiftRight_eq_div_pow, Nat.mod_eq_of_lt (by omega)]

/-- Other upper bits for an address. -/
theorem append_extractLsb' {w : Nat} (high : BitVec w) (k : Nat) :
    high ++ virtAddr.extractLsb' 0 k =
      BitVec.ofNat (w + k) (high.toNat * 2 ^ k + virtAddr.toNat % 2 ^ k) := by
  rw [append_eq_ofNat, BitVec.extractLsb'_toNat, Nat.shiftRight_zero]

theorem getLsbD_zero_eq (mat : BitVec 2) : mat.getLsbD 0 = cachedType mat := by
  revert mat
  decide

end Fields

/-! ## Agreement -/

theorem DMW.valid_iff {d : DMW} {plv : BitVec 2} {virtAddr : UWord} :
    d.valid plv virtAddr = true ↔ d.Covers plv virtAddr := by
  rw [DMW.valid, DMW.Covers, Bool.and_eq_true, Bool.or_eq_true, Bool.and_eq_true,
    Bool.and_eq_true, beq_iff_eq, beq_iff_eq, beq_iff_eq,
    BitVec.toNat_eq (x := virtAddr.extractLsb' 29 3),
    toNat_segment]

theorem DMW.physAddr_eq (d : DMW) (virtAddr : UWord) :
    d.physAddr virtAddr = d.windowAddr virtAddr := append_extractLsb' virtAddr d.pseg 29

namespace TLBEntry

variable {entry : TLBEntry} {virtAddr : UWord}

/-- The comparison of page numbers that the size of the pages selects. -/
def vppnMatches (entry : TLBEntry) (vppn : BitVec 19) : Bool :=
  if entry.ps == 12 then entry.vppn == vppn
  else entry.vppn.extractLsb' 9 10 == vppn.extractLsb' 9 10

theorem vppnMatches_iff (h : entry.Sized) {vppn : BitVec 19} :
    entry.vppnMatches vppn = true ↔
      vppn.toNat * 2 ^ 13 / 2 ^ (entry.ps.toNat + 1) =
        entry.vppn.toNat * 2 ^ 13 / 2 ^ (entry.ps.toNat + 1) := by
  have hlt := vppn.isLt
  have hlt' := entry.vppn.isLt
  obtain hps | hps := h
  · have hsize : entry.ps.toNat = 12 := congrArg BitVec.toNat hps
    rw [vppnMatches, hsize, beq_iff_eq.mpr hps, if_pos rfl, beq_iff_eq, BitVec.toNat_eq]
    omega
  · have hsize : entry.ps.toNat = 21 := congrArg BitVec.toNat hps
    have hne : (entry.ps == 12) = false := by
      rw [hps]
      rfl
    rw [vppnMatches, hsize, hne, if_neg Bool.false_ne_true, beq_iff_eq, BitVec.toNat_eq,
      BitVec.extractLsb'_toNat, BitVec.extractLsb'_toNat, Nat.shiftRight_eq_div_pow,
      Nat.shiftRight_eq_div_pow]
    omega

theorem maps_iff (h : entry.Sized) :
    entry.Maps virtAddr ↔ entry.vppnMatches (virtAddr.extractLsb' 13 19) = true := by
  rw [vppnMatches_iff h, Maps, toNat_pair]
  obtain hps | hps := h
  · have hsize : entry.ps.toNat = 12 := congrArg BitVec.toNat hps
    rw [hsize]
    omega
  · have hsize : entry.ps.toNat = 21 := congrArg BitVec.toNat hps
    rw [hsize]
    omega

theorem pageSelect_eq (h : entry.Sized) :
    MMU.oddPage entry virtAddr = decide (virtAddr.toNat / 2 ^ entry.ps.toNat % 2 = 1) := by
  have hps : (entry.ps.extractLsb' 0 5).toNat = entry.ps.toNat := by
    obtain hps | hps := h <;> rw [hps] <;> rfl
  rw [MMU.oddPage, hps, BitVec.getLsbD, Nat.testBit_eq_decide_div_mod_eq]

end TLBEntry

namespace MMU

variable {mmu : MMU} {virtAddr : UWord} {entry : TLBEntry}

theorem entryHits_eq (mmu : MMU) (virtAddr : UWord) (entry : TLBEntry) :
    mmu.entryHits virtAddr entry =
      (entry.e && (entry.g || entry.asid == mmu.asid) &&
        entry.vppnMatches (virtAddr.extractLsb' 13 19)) := by
  have hlarge : (virtAddr.extractLsb' 13 19).extractLsb' 9 10 = virtAddr.extractLsb' 22 10 := by
    apply BitVec.eq_of_toNat_eq
    rw [toNat_largePair, BitVec.extractLsb'_toNat, toNat_pair, Nat.shiftRight_eq_div_pow]
    have h := virtAddr.isLt
    omega
  rw [entryHits, TLBEntry.vppnMatches, hlarge]

theorem entryHits_iff (h : entry.e = true → entry.Sized) :
    mmu.entryHits virtAddr entry = true ↔ mmu.Matches virtAddr entry := by
  rw [entryHits_eq, Matches, TLBEntry.InSpace, Bool.and_eq_true, Bool.and_eq_true,
    Bool.or_eq_true, beq_iff_eq, and_assoc]
  exact and_congr_right fun he => and_congr_right fun _ => (TLBEntry.maps_iff (h he)).symm

theorem matches_of_firstMatch {k : Fin 16} (h : mmu.firstMatch virtAddr = some k) :
    mmu.Matches virtAddr (mmu.tlbTable k) := by
  have hfound := List.find?_some h
  exact of_decide_eq_true hfound

/-- The first entry that hits is the first that translates the address. -/
theorem find?_entryHits (h : ∀ k, (mmu.tlbTable k).e = true → (mmu.tlbTable k).Sized) :
    ((List.finRange 16).find? fun k => mmu.entryHits virtAddr (mmu.tlbTable k)) =
      mmu.firstMatch virtAddr :=
  List.find?_congr fun k _ => by
    rw [Bool.eq_iff_iff, entryHits_iff (h k), decide_eq_true_iff]

theorem tlbHit_eq (mmu : MMU) (virtAddr : UWord) :
    mmu.tlbHit virtAddr =
      ((List.finRange 16).find? fun k => mmu.entryHits virtAddr (mmu.tlbTable k)).isSome := by
  rw [tlbHit, Bool.eq_iff_iff, List.any_eq_true, List.find?_isSome]

/-- The address that the multiplexer of the page sizes gives. -/
theorem pageAddr_eq (h : entry.Sized) :
    (if entry.ps == 12 then (entry.page virtAddr).ppn ++ virtAddr.extractLsb' 0 12
      else (entry.page virtAddr).ppn.extractLsb' 9 11 ++ virtAddr.extractLsb' 0 21) =
        entry.pageAddr virtAddr := by
  rw [TLBEntry.pageAddr]
  obtain hps | hps := h
  · have hsize : entry.ps.toNat = 12 := congrArg BitVec.toNat hps
    rw [hsize, beq_iff_eq.mpr hps, if_pos rfl, append_extractLsb',
      Nat.mul_div_cancel _ (by decide)]
  · have hsize : entry.ps.toNat = 21 := congrArg BitVec.toNat hps
    have hne : (entry.ps == 12) = false := by
      rw [hps]
      rfl
    have hlt := (entry.page virtAddr).ppn.isLt
    have hppn : ((entry.page virtAddr).ppn.extractLsb' 9 11).toNat =
        (entry.page virtAddr).ppn.toNat * 2 ^ 12 / 2 ^ 21 := by
      rw [BitVec.extractLsb'_toNat, Nat.shiftRight_eq_div_pow]
      omega
    rw [hsize, hne, if_neg Bool.false_ne_true, append_extractLsb', hppn]

/-- What a hit in the TLB gives: the page of the first entry that matches, and the reasons
for which the page does not permit the access. -/
theorem tlbTranslate_eq (op : MemOperationType)
    (hsized : ∀ k, (mmu.tlbTable k).e = true → (mmu.tlbTable k).Sized) {k : Fin 16}
    (hk : mmu.firstMatch virtAddr = some k) :
    mmu.tlbTranslate virtAddr op =
      some
        { physAddr := (mmu.tlbTable k).pageAddr virtAddr
          cached := cachedType ((mmu.tlbTable k).page virtAddr).mat
          exception :=
            { raiseTLBR := false
              raisePIF := !((mmu.tlbTable k).page virtAddr).v && op == .fetch
              raisePIL := !((mmu.tlbTable k).page virtAddr).v && op == .load
              raisePIS := !((mmu.tlbTable k).page virtAddr).v && op == .store
              raisePPI := ((mmu.tlbTable k).page virtAddr).plv < mmu.crmdPLV
              raisePME := op == .store && !((mmu.tlbTable k).page virtAddr).d } } := by
  have hsize := hsized k (matches_of_firstMatch hk).1
  have hfind := (find?_entryHits hsized).trans hk
  have hentry : mmu.tlbHitEntry virtAddr = mmu.tlbTable k := by
    rw [tlbHitEntry, hfind, Option.getD_some]
  have hhit : mmu.tlbHit virtAddr = true := by
    rw [tlbHit_eq, hfind, Option.isSome_some]
  have haddr := @pageAddr_eq virtAddr _ hsize
  rw [tlbTranslate, hentry, hhit, TLBEntry.pageSelect_eq hsize, ← getLsbD_zero_eq, ← haddr]
  by_cases hodd : virtAddr.toNat / 2 ^ (mmu.tlbTable k).ps.toNat % 2 = 1
  · have hpage : (mmu.tlbTable k).page virtAddr =
        ⟨(mmu.tlbTable k).v1, (mmu.tlbTable k).d1, (mmu.tlbTable k).plv1, (mmu.tlbTable k).mat1,
          (mmu.tlbTable k).ppn1⟩ := if_pos hodd
    rw [hpage, decide_eq_true hodd]
    rfl
  · have hpage : (mmu.tlbTable k).page virtAddr =
        ⟨(mmu.tlbTable k).v0, (mmu.tlbTable k).d0, (mmu.tlbTable k).plv0, (mmu.tlbTable k).mat0,
          (mmu.tlbTable k).ppn0⟩ := if_neg hodd
    rw [hpage, decide_eq_false hodd]
    rfl

/-- The cause that the priorities of the stage select. -/
def translationCause (op : MemOperationType) (e : TranslateResultException) : Option Cause :=
  if op = .fetch then if2Cause e else mem1Cause e

variable {csr : TranslateCSR} {op : MemOperationType}

/-- The exception of highest priority, or the result. -/
theorem access_eq_of_translate {result : TranslateResult}
    (h : translate virtAddr op (mmu.directTranslate virtAddr) (mmu.tlbTranslate virtAddr op) csr =
      result) :
    mmu.access csr op virtAddr =
      match translationCause op result.exception with
      | some c => .error c.exc
      | none => .ok (result.physAddr, result.cached) := by
  have hreports : Reports (exceptionSources op virtAddr result.exception)
      (translationCause op result.exception) := by
    rw [exceptionSources, translationCause]
    split_ifs
    · exact reports_if2 virtAddr _
    · exact reports_mem1 _
  rw [access, h]
  obtain ⟨hcause, hstage⟩ | ⟨c, hcause, hoccurred, hcode⟩ := hreports
  · rw [hcause, hstage]
    rfl
  · rw [hcause]
    simp only [hoccurred, hcode, if_true]

/-- Without an exception the result of the translation is that of the access. -/
theorem access_eq_ok {physAddr : UWord} {cached : Bool}
    (h : translate virtAddr op (mmu.directTranslate virtAddr) (mmu.tlbTranslate virtAddr op) csr =
      { physAddr, cached }) : mmu.access csr op virtAddr = .ok (physAddr, cached) := by
  rw [access_eq_of_translate h, translationCause]
  split_ifs <;> rfl

theorem translationCause_page (page : Page) (plv : BitVec 2) :
    translationCause op
        { raiseTLBR := false
          raisePIF := !page.v && op == .fetch
          raisePIL := !page.v && op == .load
          raisePIS := !page.v && op == .store
          raisePPI := page.plv < plv
          raisePME := op == .store && !page.d } = page.cause op plv := by
  rw [Page.cause]
  cases op <;> cases page.v <;> cases page.d <;>
    simp [translationCause, if2Cause, mem1Cause, BitVec.lt_def, MemOperationType.invalidCause]

/-- For pages of the sizes of the architecture the core translates as the architecture
does. -/
theorem access_eq_reference (hsized : ∀ k, (mmu.tlbTable k).e = true → (mmu.tlbTable k).Sized)
    (hmode : csr.crmdDA = !csr.crmdPG) :
    mmu.access csr op virtAddr =
      (mmu.reference csr op virtAddr).mapError Cause.exc := by
  rw [reference]
  cases hda : csr.crmdDA with
  | true =>
    have hpg : csr.crmdPG = false := by
      rw [hda] at hmode
      simpa using hmode.symm
    have haddr : 0#3 ++ virtAddr.extractLsb' 0 29 = BitVec.ofNat 32 (virtAddr.toNat % 2 ^ 29) := by
      rw [append_extractLsb', BitVec.toNat_ofNat, Nat.zero_mod, Nat.zero_mul, Nat.zero_add]
    rw [if_pos rfl, ← haddr]
    apply access_eq_ok
    rw [translate, hda, hpg, ← getLsbD_zero_eq]
    cases op <;> rfl
  | false =>
    have hpg : csr.crmdPG = true := by
      rw [hda] at hmode
      simpa using hmode.symm
    have htranslate : ∀ direct tlb, translate virtAddr op direct tlb csr =
        (direct.or tlb).getD {} := by
      intro direct tlb
      rw [translate, hda, hpg]
      rfl
    rw [if_neg Bool.false_ne_true]
    by_cases h0 : mmu.dmw0.Covers mmu.crmdPLV virtAddr
    · rw [if_pos h0, ← DMW.physAddr_eq, ← getLsbD_zero_eq]
      apply access_eq_ok
      rw [htranslate, directTranslate, if_pos (DMW.valid_iff.mpr h0)]
      rfl
    rw [if_neg h0]
    by_cases h1 : mmu.dmw1.Covers mmu.crmdPLV virtAddr
    · rw [if_pos h1, ← DMW.physAddr_eq, ← getLsbD_zero_eq]
      apply access_eq_ok
      rw [htranslate, directTranslate, if_neg (mt DMW.valid_iff.mp h0),
        if_pos (DMW.valid_iff.mpr h1)]
      rfl
    rw [if_neg h1]
    have hdirect : mmu.directTranslate virtAddr = none := by
      rw [directTranslate, if_neg (mt DMW.valid_iff.mp h0), if_neg (mt DMW.valid_iff.mp h1)]
    cases hk : mmu.firstMatch virtAddr with
    | none =>
      -- whatever entry 0 raises besides, the refill goes first
      have hmiss : mmu.tlbHit virtAddr = false := by
        rw [tlbHit_eq, find?_entryHits hsized, hk]
        rfl
      rw [access_eq_of_translate (htranslate _ _), hdirect, Option.none_or, tlbTranslate, hmiss]
      cases op <;> rfl
    | some k =>
      change _ = (mmu.pageAccess op virtAddr (mmu.tlbTable k)).mapError Cause.exc
      rw [access_eq_of_translate (htranslate _ _), hdirect, Option.none_or,
        tlbTranslate_eq op hsized hk, Option.getD_some, translationCause_page, pageAccess]
      cases ((mmu.tlbTable k).page virtAddr).cause op mmu.crmdPLV <;> rfl

end MMU

end NopCore
