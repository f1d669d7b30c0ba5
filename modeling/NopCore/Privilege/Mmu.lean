import Mathlib.Data.List.Basic

/-!
# Address translation

`directTranslate` and `tlbTranslate` run in the first stage of a pipeline and
produce address candidates; `translate` runs one stage later and chooses between
them by `CRMD.DA` and `CRMD.PG`. The two pipelines differ only in which copy of
the mode bits they hand to `translate`: the memory pipeline carries the ones of
the first stage along, the fetch pipeline reads the live ones.
-/

namespace NopCore

abbrev UWord := BitVec 32

inductive MemOperationType
  | fetch | load | store
  deriving DecidableEq, Repr

/-- The wires on which a translation raises its exceptions. Several of them may
be high at once; the priority between them belongs to the exception mux. -/
structure TranslateResultException where
  raisePIL : Bool := false
  raisePIS : Bool := false
  raisePIF : Bool := false
  raisePME : Bool := false
  raisePPI : Bool := false
  raiseTLBR : Bool := false
  deriving DecidableEq, Repr

structure TranslateResult where
  physAddr : UWord := 0
  cached : Bool := false
  exception : TranslateResultException := {}
  deriving DecidableEq, Repr

/-- The part of `CRMD` that selects the translation mode. -/
structure TranslateCSR where
  crmdDA : Bool
  crmdPG : Bool
  crmdDATF : BitVec 2
  crmdDATM : BitVec 2
  deriving DecidableEq, Repr

/-- A direct mapped window. -/
structure DMW where
  plv0 : Bool := false
  plv3 : Bool := false
  mat : BitVec 2 := 0
  pseg : BitVec 3 := 0
  vseg : BitVec 3 := 0
  deriving DecidableEq, Repr

structure TLBEntry where
  e : Bool := false
  asid : BitVec 10 := 0
  g : Bool := false
  ps : BitVec 6 := 0
  vppn : BitVec 19 := 0
  v0 : Bool := false
  d0 : Bool := false
  mat0 : BitVec 2 := 0
  plv0 : BitVec 2 := 0
  ppn0 : BitVec 20 := 0
  v1 : Bool := false
  d1 : Bool := false
  mat1 : BitVec 2 := 0
  plv1 : BitVec 2 := 0
  ppn1 : BitVec 20 := 0
  deriving DecidableEq, Repr

/-- What a translation reads: the privilege level, the two windows, the address
space identifier and the sixteen TLB entries. -/
structure MMU where
  crmdPLV : BitVec 2 := 0
  dmw0 : DMW := {}
  dmw1 : DMW := {}
  asid : BitVec 10 := 0
  tlbTable : Fin 16 → TLBEntry := fun _ => {}

namespace DMW

def valid (d : DMW) (plv : BitVec 2) (virtAddr : UWord) : Bool :=
  ((d.plv0 && plv == 0) || (d.plv3 && plv == 3)) && virtAddr.extractLsb' 29 3 == d.vseg

def physAddr (d : DMW) (virtAddr : UWord) : UWord :=
  d.pseg ++ virtAddr.extractLsb' 0 29

def cached (d : DMW) : Bool := d.mat.getLsbD 0

end DMW

namespace MMU

variable (mmu : MMU)

def directTranslate (virtAddr : UWord) : Option TranslateResult :=
  if mmu.dmw0.valid mmu.crmdPLV virtAddr then
    some { physAddr := mmu.dmw0.physAddr virtAddr, cached := mmu.dmw0.cached }
  else if mmu.dmw1.valid mmu.crmdPLV virtAddr then
    some { physAddr := mmu.dmw1.physAddr virtAddr, cached := mmu.dmw1.cached }
  else none

def entryHits (virtAddr : UWord) (entry : TLBEntry) : Bool :=
  entry.e && (entry.g || entry.asid == mmu.asid) &&
    if entry.ps == 12 then entry.vppn == virtAddr.extractLsb' 13 19
    else entry.vppn.extractLsb' 9 10 == virtAddr.extractLsb' 22 10

def tlbHit (virtAddr : UWord) : Bool :=
  (List.finRange 16).any fun i => mmu.entryHits virtAddr (mmu.tlbTable i)

/-- The lowest hitting entry. The one-hot multiplexer addresses entry 0 when no
select line is high. -/
def tlbHitEntry (virtAddr : UWord) : TLBEntry :=
  mmu.tlbTable
    (((List.finRange 16).find? fun i => mmu.entryHits virtAddr (mmu.tlbTable i)).getD 0)

/-- Entries come in pairs of pages; bit `PS` of the address picks the odd one. -/
def oddPage (entry : TLBEntry) (virtAddr : UWord) : Bool :=
  virtAddr.getLsbD (entry.ps.extractLsb' 0 5).toNat

def tlbTranslate (virtAddr : UWord) (memOperation : MemOperationType) :
    Option TranslateResult :=
  let entry := mmu.tlbHitEntry virtAddr
  let odd := oddPage entry virtAddr
  let v := if odd then entry.v1 else entry.v0
  let d := if odd then entry.d1 else entry.d0
  let mat := if odd then entry.mat1 else entry.mat0
  let plv := if odd then entry.plv1 else entry.plv0
  let ppn := if odd then entry.ppn1 else entry.ppn0
  some
    { physAddr :=
        if entry.ps == 12 then ppn ++ virtAddr.extractLsb' 0 12
        else ppn.extractLsb' 9 11 ++ virtAddr.extractLsb' 0 21
      cached := mat.getLsbD 0
      exception :=
        { raiseTLBR := !mmu.tlbHit virtAddr
          raisePIF := !v && memOperation == .fetch
          raisePIL := !v && memOperation == .load
          raisePIS := !v && memOperation == .store
          raisePPI := plv < mmu.crmdPLV
          raisePME := memOperation == .store && !d } }

end MMU

/-- Select between the candidates. The source assigns the TLB result, then the
window result, then the direct-mode result, and the last assignment wins. With
`DA = PG` none of them applies and the address is zero. -/
def translate (virtAddr : UWord) (memOperation : MemOperationType)
    (directTranslateResult tlbTranslateResult : Option TranslateResult)
    (savedCSR : TranslateCSR) : TranslateResult :=
  if savedCSR.crmdDA && !savedCSR.crmdPG then
    { physAddr := 0#3 ++ virtAddr.extractLsb' 0 29
      cached :=
        if memOperation = .fetch then savedCSR.crmdDATF.getLsbD 0
        else savedCSR.crmdDATM.getLsbD 0 }
  else if !savedCSR.crmdDA && savedCSR.crmdPG then
    (directTranslateResult.or tlbTranslateResult).getD {}
  else {}

/-- Direct-mode addresses and window hits raise nothing. -/
theorem translate_exception_of_direct (virtAddr : UWord) (op : MemOperationType)
    (mmu : MMU) (tlb : Option TranslateResult) (csr : TranslateCSR)
    (h : (mmu.directTranslate virtAddr).isSome ∨ csr.crmdPG = false ∨ csr.crmdDA = true) :
    (translate virtAddr op (mmu.directTranslate virtAddr) tlb csr).exception = {} := by
  unfold translate
  split
  · rfl
  · split
    · rename_i hda hpg
      have hmode : csr.crmdDA = false ∧ csr.crmdPG = true := by simpa using hpg
      simp only [hmode, Bool.true_eq_false, Bool.false_eq_true, or_false] at h
      unfold MMU.directTranslate at h ⊢
      split at h
      · simp_all
      · split at h <;> simp_all
    · rfl

/-- A TLB refill is raised exactly in mapped mode, outside both windows, when no
entry matches. -/
theorem translate_raiseTLBR (virtAddr : UWord) (op : MemOperationType)
    (mmu : MMU) (csr : TranslateCSR) :
    (translate virtAddr op (mmu.directTranslate virtAddr)
        (mmu.tlbTranslate virtAddr op) csr).exception.raiseTLBR =
      (!csr.crmdDA && csr.crmdPG && (mmu.directTranslate virtAddr).isNone &&
        !mmu.tlbHit virtAddr) := by
  by_cases hdirect : (mmu.directTranslate virtAddr).isSome ∨ csr.crmdPG = false ∨
      csr.crmdDA = true
  · rw [translate_exception_of_direct _ _ _ _ _ hdirect]
    rcases hdirect with h | h | h
    · simp [Option.isSome_iff_ne_none.mp h]
    · simp [h]
    · simp [h]
  · simp only [not_or, Bool.not_eq_false, Bool.not_eq_true, Option.isSome_eq_false_iff,
      Option.isNone_iff_eq_none] at hdirect
    obtain ⟨hnone, hpg, hda⟩ := hdirect
    simp [translate, hnone, hpg, hda, MMU.tlbTranslate]

end NopCore
