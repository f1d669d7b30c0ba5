import NopCore.Privilege.TlbInstructions

/-!
# Search, read and write

`TLBSRCH` looks for the pages of `TLBEHI`, `TLBRD` reads the entry that was found, and
`TLBWR` writes an entry from the registers. The search finds what a translation finds, and
reading and writing are inverse to each other. Between the instructions others may retire,
as long as they leave the control registers alone.
-/

namespace NopCore

/-- A TLB instruction retires, and commit asks for nothing else. -/
structure CommitSignals.RetiresTlb (c : CommitSignals) (op : TLBOpType) : Prop where
  except : c.request.except.valid = false
  ertn : c.request.ertn = false
  csrWrite : c.csrWrite = none
  tlbOp : c.tlbOp = op

/-! ## From the word to the signals -/

/-- A decoded TLB instruction does nothing else to the privileged registers. -/
theorem Decoder.alone_of_tlbOp {plv : BitVec 2} {entry : FetchEntry}
    (h : (decode plv entry).tlbOp ≠ .none) :
    (decode plv entry).writeCSR = false ∧ (decode plv entry).isErtn = false := by
  have hsignals : (signals entry.inst).tlbOp ≠ .none := by
    have hop : tlbOp entry ≠ .none := h
    rw [tlbOp] at hop
    by_cases hinvtlb : isInvtlb entry.inst = true
    · have hcovers : LoongArch.INVTLB.covers entry.inst = true := by
        simp only [isInvtlb, Bool.and_eq_true] at hinvtlb
        exact hinvtlb.1.1
      have hline : ∃ line ∈ encodings, line.1 = LoongArch.INVTLB ∧
          line.2 {} = { useRj := true, useRk := true, fuType := .invtlb, tlbOp := .invtlb1 } := by
        decide +kernel
      rw [signals_of_line hline hcovers]
      exact TLBOpType.noConfusion
    · rw [Bool.eq_false_of_not_eq_true hinvtlb, Bool.and_false, if_neg Bool.false_ne_true] at hop
      exact hop
  have hlines : ∀ line ∈ encodings, (line.2 {}).tlbOp ≠ .none →
      (line.2 {}).readCSR = false ∧ (line.2 {}).isErtn = false := by
    decide +kernel
  change writeCSR entry.inst = false ∧ (signals entry.inst).isErtn = false
  rw [writeCSR]
  obtain ⟨line, hline, -, heq⟩ | ⟨-, heq⟩ := signals_eq entry.inst
  · rw [heq] at hsignals ⊢
    obtain ⟨hcsr, hertn⟩ := hlines line hline hsignals
    rw [hcsr]
    exact ⟨rfl, hertn⟩
  · rw [heq] at hsignals
    exact absurd rfl hsignals

theorem Commit.retiresTlb_signals {ports : Nat → PopPort} {fsm : UncachedState}
    {inp : CommitInputs} (hretires : retires ports fsm inp 0 = true)
    (hwriteCSR : (ports 0).uop.writeCSR = false) (hisErtn : (ports 0).uop.isErtn = false) :
    (signals ports fsm inp).RetiresTlb (ports 0).uop.tlbOp := by
  constructor
  · have hexcept : hasExcept ports fsm inp = false := by
      simp only [retires, Bool.and_eq_true, Bool.not_eq_true'] at hretires
      exact hretires.2
    change (fire ports fsm inp 0 && hasExcept ports fsm inp) = false
    rw [hexcept, Bool.and_false]
  · change (retires ports fsm inp 0 && (ports 0).uop.isErtn) = false
    rw [hisErtn, Bool.and_false]
  · change csrWrite ports fsm inp = none
    rw [csrWrite, hwriteCSR, Bool.and_false, if_neg Bool.false_ne_true]
  · change tlbOp ports fsm inp = _
    rw [tlbOp, hretires, if_pos rfl]

namespace PrivilegedUnit

/-! ## One instruction -/

variable {innerCounterDownEvery : Nat} {p q : PrivilegedUnit} {c : PrivilegedCycle}

/-- What the TLB instructions read is the same. -/
structure SameTlb (p q : PrivilegedUnit) : Prop where
  index : q.tlbidxINDEX = p.tlbidxINDEX
  ne : q.tlbidxNE = p.tlbidxNE
  ps : q.handler.tlbidxPS = p.handler.tlbidxPS
  vppn : q.handler.tlbehiVPPN = p.handler.tlbehiVPPN
  tlbelo0 : q.tlbelo0 = p.tlbelo0
  tlbelo1 : q.tlbelo1 = p.tlbelo1
  asid : q.asid = p.asid
  tlbTable : q.tlbTable = p.tlbTable

theorem SameTlb.refl (p : PrivilegedUnit) : SameTlb p p := by
  constructor <;> rfl

theorem SameTlb.trans {r : PrivilegedUnit} (h : SameTlb p q) (h' : SameTlb q r) :
    SameTlb p r where
  index := h'.index.trans h.index
  ne := h'.ne.trans h.ne
  ps := h'.ps.trans h.ps
  vppn := h'.vppn.trans h.vppn
  tlbelo0 := h'.tlbelo0.trans h.tlbelo0
  tlbelo1 := h'.tlbelo1.trans h.tlbelo1
  asid := h'.asid.trans h.asid
  tlbTable := h'.tlbTable.trans h.tlbTable

/-- Instructions that leave the control registers alone keep it. -/
theorem sameTlb_run {cs : List PrivilegedCycle} (h : ∀ c ∈ cs, c.commit.Plain) :
    SameTlb p (cs.foldl (cycle innerCounterDownEvery) p) := by
  induction cs generalizing p with
  | nil => exact .refl p
  | cons c cs ih =>
    have hstep : SameTlb p (p.cycle innerCounterDownEvery c) := by
      rw [cycle, step_plain (h c List.mem_cons_self)]
      constructor <;> rfl
    exact hstep.trans (ih fun c hc => h c (List.mem_cons_of_mem _ hc))

/-- The cycle of a TLB instruction: what the instruction does, besides interrupts, the wait
state and the link bit. -/
theorem cycle_of_retiresTlb {op : TLBOpType} (h : c.commit.RetiresTlb op) :
    ∃ s : PrivilegedUnit, SameTlb p s ∧
      SameTlb (parseTLBInstruction c.commit p s) (p.cycle innerCounterDownEvery c) := by
  refine ⟨p.served innerCounterDownEvery c.commit c.intrpt, ?_, ?_⟩
  · have hhandler : { p.handler with llbctlLLBIT := c.commit.llbit }.step c.commit.request =
        { p.handler with llbctlLLBIT := c.commit.llbit } := by
      simp [ExceptionHandler.step, h.except, h.ertn]
    rw [served, hhandler]
    constructor <;> rfl
  · rw [cycle, step, h.csrWrite]
    constructor <;> rfl

/-- The entry that the search selects. -/
def searched (p : PrivilegedUnit) : Option (Fin 16) :=
  (List.finRange 16).find? fun k => p.tlbsrchHit (p.tlbTable k)

/-- The search compares as a translation does. -/
theorem searched_eq {virtAddr : UWord}
    (h : virtAddr.extractLsb' 13 19 = p.handler.tlbehiVPPN) :
    p.searched = (List.finRange 16).find? fun k => p.mmu.entryHits virtAddr (p.tlbTable k) := by
  apply List.find?_congr
  intro k _
  rw [MMU.entryHits_eq, h, tlbsrchHit, Bool.or_comm]
  rfl

theorem cycle_tlbsrch (h : c.commit.RetiresTlb .tlbsrch) :
    (p.cycle innerCounterDownEvery c).tlbTable = p.tlbTable ∧
      (p.cycle innerCounterDownEvery c).tlbidxNE = p.searched.isNone ∧
        ∀ k, p.searched = some k →
          (p.cycle innerCounterDownEvery c).tlbidxINDEX.toFin = k := by
  obtain ⟨s, hs, hcycle⟩ := @cycle_of_retiresTlb innerCounterDownEvery p c _ h
  rw [hcycle.tlbTable, hcycle.ne, hcycle.index, parseTLBInstruction, h.tlbOp]
  cases hsearched : p.searched with
  | none =>
    rw [searched] at hsearched
    simp only [hsearched]
    exact ⟨hs.tlbTable, rfl, fun k hk => by cases hk⟩
  | some k =>
    rw [searched] at hsearched
    simp only [hsearched]
    refine ⟨hs.tlbTable, rfl, fun j hj => ?_⟩
    obtain rfl := Option.some.inj hj
    rfl

/-- The registers have the fields of an entry. -/
structure Holds (p : PrivilegedUnit) (entry : TLBEntry) : Prop where
  ne : p.tlbidxNE = false
  ps : p.handler.tlbidxPS = entry.ps
  vppn : p.handler.tlbehiVPPN = entry.vppn
  asid : p.asid = entry.asid
  tlbelo0 : p.tlbelo0 = ⟨entry.v0, entry.d0, entry.plv0, entry.mat0, entry.g, entry.ppn0⟩
  tlbelo1 : p.tlbelo1 = ⟨entry.v1, entry.d1, entry.plv1, entry.mat1, entry.g, entry.ppn1⟩

theorem Holds.of_sameTlb {entry : TLBEntry} (h : p.Holds entry) (hsame : SameTlb p q) :
    q.Holds entry where
  ne := hsame.ne.trans h.ne
  ps := hsame.ps.trans h.ps
  vppn := hsame.vppn.trans h.vppn
  asid := hsame.asid.trans h.asid
  tlbelo0 := hsame.tlbelo0.trans h.tlbelo0
  tlbelo1 := hsame.tlbelo1.trans h.tlbelo1

/-- An enabled entry is written from its own fields. -/
theorem Holds.newEntry_eq {entry : TLBEntry} (h : p.Holds entry) (he : entry.e = true) :
    p.newEntry = entry := by
  rw [newEntry, h.ne, h.ps, h.vppn, h.asid, h.tlbelo0, h.tlbelo1, Bool.not_false, Bool.or_true,
    ← he, Bool.and_self]

theorem cycle_tlbrd (h : c.commit.RetiresTlb .tlbrd)
    (he : (p.tlbTable p.tlbidxINDEX.toFin).e = true) :
    (p.cycle innerCounterDownEvery c).Holds (p.tlbTable p.tlbidxINDEX.toFin) ∧
      (p.cycle innerCounterDownEvery c).tlbidxINDEX = p.tlbidxINDEX ∧
        (p.cycle innerCounterDownEvery c).tlbTable = p.tlbTable := by
  obtain ⟨s, hs, hcycle⟩ := @cycle_of_retiresTlb innerCounterDownEvery p c _ h
  rw [parseTLBInstruction, h.tlbOp] at hcycle
  change SameTlb (tlbrd p s) _ at hcycle
  simp only [tlbrd, he, if_true] at hcycle
  refine ⟨Holds.of_sameTlb ?_ hcycle, hcycle.index.trans hs.index,
    hcycle.tlbTable.trans hs.tlbTable⟩
  constructor <;> rfl

theorem cycle_tlbwr (h : c.commit.RetiresTlb .tlbwr) :
    (p.cycle innerCounterDownEvery c).tlbTable =
      Function.update p.tlbTable p.tlbidxINDEX.toFin p.newEntry := by
  obtain ⟨s, hs, hcycle⟩ := @cycle_of_retiresTlb innerCounterDownEvery p c _ h
  rw [parseTLBInstruction, h.tlbOp] at hcycle
  rw [hcycle.tlbTable]
  change Function.update s.tlbTable p.tlbidxINDEX.toFin p.newEntry = _
  rw [hs.tlbTable]

end PrivilegedUnit

/-- The search hits where a translation of an address in the page pair of `TLBEHI` hits, and
selects the same entry as each of them. Reading this entry and writing it back leaves all
entries as they were. -/
theorem tlbsrch_agrees (innerCounterDownEvery : Nat) (p : PrivilegedUnit)
    {srch rd wr : PrivilegedCycle} {between behind : List PrivilegedCycle}
    (hsrch : srch.commit.RetiresTlb .tlbsrch) (hrd : rd.commit.RetiresTlb .tlbrd)
    (hwr : wr.commit.RetiresTlb .tlbwr) (hbetween : ∀ c ∈ between, c.commit.Plain)
    (hbehind : ∀ c ∈ behind, c.commit.Plain) :
    let cycle := PrivilegedUnit.cycle innerCounterDownEvery
    let searched := cycle p srch
    let read := cycle (between.foldl cycle searched) rd
    let written := cycle (behind.foldl cycle read) wr
    let entry := p.tlbTable searched.tlbidxINDEX.toFin
    (searched.tlbidxNE = false ↔ ∃ virtAddr : UWord,
        virtAddr.extractLsb' 13 19 = p.handler.tlbehiVPPN ∧ p.mmu.tlbHit virtAddr = true) ∧
      (searched.tlbidxNE = false →
        (∀ virtAddr : UWord, virtAddr.extractLsb' 13 19 = p.handler.tlbehiVPPN →
          p.mmu.tlbHit virtAddr = true ∧
            (List.finRange 16).find? (fun k => p.mmu.entryHits virtAddr (p.tlbTable k)) =
              some searched.tlbidxINDEX.toFin ∧
            p.mmu.tlbHitEntry virtAddr = entry) ∧
          read.Holds entry ∧ written.tlbTable = p.tlbTable) := by
  intro cycle searched read written entry
  obtain ⟨htable, hne, hindex⟩ := @PrivilegedUnit.cycle_tlbsrch innerCounterDownEvery p _ hsrch
  have hhit : ∀ virtAddr : UWord, virtAddr.extractLsb' 13 19 = p.handler.tlbehiVPPN →
      p.mmu.tlbHit virtAddr = p.searched.isSome := fun virtAddr hvppn => by
    rw [MMU.tlbHit_eq, PrivilegedUnit.searched_eq hvppn]
    rfl
  constructor
  · change (cycle p srch).tlbidxNE = false ↔ _
    rw [hne, Option.isNone_eq_false_iff]
    constructor
    · intro hsome
      have hvppn : (p.handler.tlbehiVPPN ++ 0#13).extractLsb' 13 19 = p.handler.tlbehiVPPN :=
        BitVec.extractLsb'_append_eq_left
      exact ⟨_, hvppn, (hhit _ hvppn).trans hsome⟩
    · rintro ⟨virtAddr, hvppn, h⟩
      rw [← hhit virtAddr hvppn]
      exact h
  · intro hfound
    obtain ⟨k, hk⟩ : ∃ k, p.searched = some k := by
      rw [← Option.isSome_iff_exists, ← Option.isNone_eq_false_iff, ← hne]
      exact hfound
    have hk' : searched.tlbidxINDEX.toFin = k := hindex k hk
    have he : entry.e = true := by
      have hsearch := List.find?_some hk
      simp only [PrivilegedUnit.tlbsrchHit, Bool.and_eq_true] at hsearch
      change (p.tlbTable searched.tlbidxINDEX.toFin).e = true
      rw [hk']
      exact hsearch.1.1
    refine ⟨fun virtAddr hvppn => ?_, ?_⟩
    · have hfind := (PrivilegedUnit.searched_eq hvppn).symm.trans hk
      have hentry : p.mmu.tlbHitEntry virtAddr = p.tlbTable k :=
        congrArg (fun found : Option (Fin 16) => p.tlbTable (found.getD 0)) hfind
      rw [hhit virtAddr hvppn, hk, hfind, hentry, ← hk']
      exact ⟨rfl, rfl, rfl⟩
    · have hsame := @PrivilegedUnit.sameTlb_run innerCounterDownEvery searched _ hbetween
      have htable' : (between.foldl cycle searched).tlbTable = p.tlbTable :=
        hsame.tlbTable.trans htable
      have hentry : (between.foldl cycle searched).tlbTable
          (between.foldl cycle searched).tlbidxINDEX.toFin = entry := by
        rw [htable', hsame.index]
      obtain ⟨hholds, hkept, hread⟩ := @PrivilegedUnit.cycle_tlbrd innerCounterDownEvery
        (between.foldl cycle searched) _ hrd (by rw [hentry]; exact he)
      rw [hentry] at hholds
      have hsame' := @PrivilegedUnit.sameTlb_run innerCounterDownEvery read _ hbehind
      refine ⟨hholds, ?_⟩
      change (cycle (behind.foldl cycle read) wr).tlbTable = _
      rw [PrivilegedUnit.cycle_tlbwr hwr, (hholds.of_sameTlb hsame').newEntry_eq he,
        hsame'.index, hsame'.tlbTable]
      change Function.update read.tlbTable read.tlbidxINDEX.toFin entry = _
      rw [hkept, hsame.index, hread, htable']
      exact Function.update_eq_self _ _

/-- Two entries match; the first is found, read and written. -/
theorem tlbsrch_agrees_two :
    let p : PrivilegedUnit :=
      { handler := { tlbehiVPPN := 5 }
        tlbTable := fun k => { e := 2 ≤ k, g := true, ps := 12, vppn := 5, ppn0 := k.val } }
    let cycle := PrivilegedUnit.cycle 1
    let searched := cycle p { commit := { tlbOp := .tlbsrch } }
    let read := cycle searched { commit := { tlbOp := .tlbrd } }
    searched.tlbidxNE = false ∧ searched.tlbidxINDEX = 2 ∧
      (cycle read { commit := { tlbOp := .tlbwr } }).tlbTable = p.tlbTable := by
  intro p cycle searched read
  have hfound : searched.tlbidxNE = false := by decide +kernel
  refine ⟨hfound, by decide +kernel, ?_⟩
  exact ((@tlbsrch_agrees 1 p { commit := { tlbOp := .tlbsrch } }
    { commit := { tlbOp := .tlbrd } } { commit := { tlbOp := .tlbwr } } [] []
    ⟨rfl, rfl, rfl, rfl⟩ ⟨rfl, rfl, rfl, rfl⟩ ⟨rfl, rfl, rfl, rfl⟩
    (fun _ h => nomatch h) (fun _ h => nomatch h)).2 hfound).2.2

end NopCore
