import NopCore.Exe.IntExecute
import NopCore.Privilege.Pages
import NopCore.Privilege.RefillReturn

/-!
# The TLB instructions

A cycle writes at most one entry, by `TLBWR` or `TLBFILL`, and disables those that an
`INVTLB` selects. An entry that is neither written nor selected stays as it is, so what a
refill handler has written is found until then.

`TLBSRCH` compares the entries with `TLBEHI` as a translation compares them with an address
of this page pair. `INVTLB` leaves out one bit of the page number of the larger pages.
-/

namespace NopCore

namespace PrivilegedUnit

/-! ## The entries after a cycle -/

/-- The entry that a cycle writes. -/
def written (p : PrivilegedUnit) (c : CommitSignals) : Option (Fin 16) :=
  match c.tlbOp with
  | .tlbwr => some p.tlbidxINDEX.toFin
  | .tlbfill => some p.victimIdx.toFin
  | _ => none

/-- The operation is an `INVTLB`. -/
def isInvtlb (op : TLBOpType) : Bool :=
  match op with
  | .invtlb1 | .invtlb2 | .invtlb3 | .invtlb4 | .invtlb5 | .invtlb6 => true
  | _ => false

/-- The cycle disables the entry. -/
def disables (p : PrivilegedUnit) (c : CommitSignals) (k : Fin 16) : Bool :=
  isInvtlb c.tlbOp && invMask c (p.tlbTable k)

variable {innerCounterDownEvery : Nat} {p : PrivilegedUnit} {c : CommitSignals}
  {intrpt : BitVec 8}

theorem tlbTable_step (k : Fin 16) :
    (p.step innerCounterDownEvery c intrpt).tlbTable k =
      if p.written c = some k then p.newEntry
      else if p.disables c k then { p.tlbTable k with e := false }
      else p.tlbTable k := by
  have hexecuted : (p.step innerCounterDownEvery c intrpt).tlbTable k =
      (parseTLBInstruction c p (p.served innerCounterDownEvery c intrpt)).tlbTable k := by
    rw [step]
    cases c.csrWrite <;> rfl
  rw [hexecuted, parseTLBInstruction, written, disables]
  cases c.tlbOp with
  | none => rfl
  | tlbsrch =>
    cases (List.finRange 16).find? fun k => p.tlbsrchHit (p.tlbTable k) <;> rfl
  | tlbrd =>
    simp only [tlbrd, isInvtlb, Bool.false_and, Bool.false_eq_true, if_false]
    cases (p.tlbTable p.tlbidxINDEX.toFin).e <;> rfl
  | tlbwr | tlbfill =>
    simp only [isInvtlb, Bool.false_and, Bool.false_eq_true, if_false, Option.some_inj,
      Function.update_apply]
    split_ifs with h h' h'
    · rfl
    · exact absurd h.symm h'
    · exact absurd h'.symm h
    · rfl
  | invtlb1 | invtlb2 | invtlb3 | invtlb4 | invtlb5 | invtlb6 => rfl

/-! ## What a refill handler has written -/

/-- Cycles that neither write nor disable an entry. -/
def keeping (innerCounterDownEvery : Nat) (k : Fin 16) :
    Clocked.Machine PrivilegedUnit PrivilegedCycle where
  init _ := True
  legal p c := p.written c.commit ≠ some k ∧ p.disables c.commit k = false
  step := cycle innerCounterDownEvery

theorem tlbTable_run {k : Fin 16} {cs : List PrivilegedCycle}
    (h : (keeping innerCounterDownEvery k).Legal p cs) :
    ((keeping innerCounterDownEvery k).run p cs).tlbTable k = p.tlbTable k := by
  induction cs generalizing p with
  | nil => rfl
  | cons c cs ih =>
    obtain ⟨⟨hwritten, hdisables⟩, hrest⟩ := h
    rw [Clocked.Machine.run_cons, ih hrest]
    change (p.step _ _ _).tlbTable k = _
    rw [tlbTable_step, if_neg hwritten, hdisables, if_neg Bool.false_ne_true]

/-- In a refill handler the entry that is written is enabled. -/
theorem newEntry_e (h : p.handler.estat.ecode = ExceptionCode.TLBR.ecode) :
    p.newEntry.e = true := by
  rw [newEntry, h]
  rfl

end PrivilegedUnit

/-- The first number that satisfies a condition. -/
theorem find?_finRange_eq_some {n : Nat} {P : Fin n → Bool} {k : Fin n} :
    (List.finRange n).find? P = some k ↔ P k = true ∧ ∀ j < k, P j = false := by
  rw [List.find?_eq_some_iff_getElem]
  constructor
  · rintro ⟨hk, i, hi, hget, hbefore⟩
    rw [List.getElem_finRange] at hget
    refine ⟨hk, fun j hj => ?_⟩
    have hlt : j.val < i := by
      have hval : i = k.val := congrArg Fin.val hget
      rw [hval]
      exact hj
    have h := hbefore j.val hlt
    rw [List.getElem_finRange] at h
    simpa using h
  · rintro ⟨hk, hbefore⟩
    have hlen : k.val < (List.finRange n).length := by rw [List.length_finRange]; exact k.isLt
    refine ⟨hk, k.val, hlen, ?_, fun j hj => ?_⟩
    · rw [List.getElem_finRange]
      rfl
    · rw [List.getElem_finRange]
      have h := hbefore ⟨j, by omega⟩ hj
      simpa using h

namespace MMU

variable {mmu : MMU} {virtAddr : UWord}

/-- An entry that hits is selected, unless an earlier one hits. -/
theorem tlbHitEntry_of_hits {k : Fin 16} (h : mmu.entryHits virtAddr (mmu.tlbTable k) = true)
    (hfirst : ∀ j < k, mmu.entryHits virtAddr (mmu.tlbTable j) = false) :
    mmu.tlbHitEntry virtAddr = mmu.tlbTable k := by
  rw [tlbHitEntry, find?_finRange_eq_some.mpr ⟨h, hfirst⟩, Option.getD_some]

theorem tlbHit_iff {mmu : MMU} {virtAddr : UWord} :
    mmu.tlbHit virtAddr = true ↔ ∃ k, mmu.entryHits virtAddr (mmu.tlbTable k) = true := by
  rw [tlbHit, List.any_eq_true]
  constructor
  · rintro ⟨k, -, h⟩
    exact ⟨k, h⟩
  · rintro ⟨k, h⟩
    exact ⟨k, List.mem_finRange k, h⟩

end MMU

/-- What is written in a refill handler hits, as long as it is kept. -/
theorem PrivilegedUnit.hits_of_written {innerCounterDownEvery : Nat} {p : PrivilegedUnit}
    {c : PrivilegedCycle} {k : Fin 16} {cs : List PrivilegedCycle} {virtAddr : UWord}
    (hrefill : p.handler.estat.ecode = ExceptionCode.TLBR.ecode)
    (hwritten : p.written c.commit = some k) (hsized : p.newEntry.Sized)
    (hkept : (keeping innerCounterDownEvery k).Legal (p.cycle innerCounterDownEvery c) cs)
    (hmaps : p.newEntry.Maps virtAddr) :
    let q := (keeping innerCounterDownEvery k).run (p.cycle innerCounterDownEvery c) cs
    q.tlbTable k = p.newEntry ∧
      (p.newEntry.InSpace q.asid → q.mmu.entryHits virtAddr (q.tlbTable k) = true) := by
  intro q
  have hentry : q.tlbTable k = p.newEntry := by
    rw [tlbTable_run hkept]
    change (p.step _ _ _).tlbTable k = _
    rw [tlbTable_step, if_pos hwritten]
  refine ⟨hentry, fun hspace => ?_⟩
  rw [hentry]
  exact (MMU.entryHits_iff fun _ => hsized).mpr ⟨newEntry_e hrefill, hspace, hmaps⟩

/-- The core translates as the architecture does, for all tables with pages of the sizes of
the architecture. What a refill handler writes is found by every later translation of the
pages that it maps, until it is written over or disabled, unless an earlier entry hits. -/
theorem translation_correct :
    (∀ (mmu : MMU) (csr : TranslateCSR) (op : MemOperationType) (virtAddr : UWord),
      (∀ k, (mmu.tlbTable k).e = true → (mmu.tlbTable k).Sized) →
        csr.crmdDA = !csr.crmdPG →
          mmu.access csr op virtAddr = (mmu.reference csr op virtAddr).mapError Cause.exc) ∧
      ∀ (innerCounterDownEvery : Nat) (p : PrivilegedUnit) (c : PrivilegedCycle) (k : Fin 16)
        (cs : List PrivilegedCycle),
        p.handler.estat.ecode = ExceptionCode.TLBR.ecode → p.written c.commit = some k →
          p.newEntry.Sized →
            (PrivilegedUnit.keeping innerCounterDownEvery k).Legal
              (p.cycle innerCounterDownEvery c) cs →
              let q := (PrivilegedUnit.keeping innerCounterDownEvery k).run
                (p.cycle innerCounterDownEvery c) cs
              ∀ virtAddr, p.newEntry.Maps virtAddr → p.newEntry.InSpace q.asid →
                q.mmu.tlbHit virtAddr = true ∧
                  (q.mmu.tlbHitEntry virtAddr = p.newEntry ∨
                    ∃ j < k, q.mmu.entryHits virtAddr (q.tlbTable j) = true) := by
  refine ⟨fun mmu csr op virtAddr => MMU.access_eq_reference, ?_⟩
  intro n p c k cs hrefill hwritten hsized hkept q virtAddr hmaps hspace
  obtain ⟨hentry, hhits⟩ := PrivilegedUnit.hits_of_written hrefill hwritten hsized hkept hmaps
  refine ⟨MMU.tlbHit_iff.mpr ⟨k, hhits hspace⟩, ?_⟩
  by_cases hearlier : ∃ j < k, q.mmu.entryHits virtAddr (q.tlbTable j) = true
  · exact .inr hearlier
  · left
    rw [MMU.tlbHitEntry_of_hits (hhits hspace) fun j hj => ?_]
    · exact hentry
    · rw [← Bool.not_eq_true]
      exact fun h => hearlier ⟨j, hj, h⟩

/-- A refill handler at work: `TLBFILL` writes a global pair of large pages to entry 0. -/
def refillHandler : PrivilegedUnit where
  handler := { estat := .TLBR, tlbidxPS := 21, tlbehiVPPN := 0x200 }
  tlbidxNE := true
  tlbelo0 := { v := true, g := true, ppn := 0x200 }
  tlbelo1 := { v := true, g := true, mat := 1, ppn := 0x400 }

/-- A load from the odd one of the two pages. -/
theorem translation_correct_refill :
    MMU.access
        { tlbTable := fun _ => refillHandler.newEntry } ⟨false, true, 0, 0⟩ .load 0x00600010 =
      .ok (0x00400010, true) ∧
      ((refillHandler.cycle 1 { commit := { tlbOp := .tlbfill } }).mmu.tlbHit 0x00600010 =
        true) :=
  ⟨(translation_correct.1 { tlbTable := fun _ => refillHandler.newEntry } ⟨false, true, 0, 0⟩
      .load 0x00600010 (fun _ _ => .inr rfl) rfl).trans (by decide +kernel),
    (translation_correct.2 1 refillHandler { commit := { tlbOp := .tlbfill } } 0 [] rfl rfl
      (.inr rfl) trivial 0x00600010 (by decide +kernel) (by decide +kernel)).1⟩

/-! ## `INVTLB` -/

namespace PrivilegedUnit

/-- A translation of the address in the address space hits the entry. -/
def hitsUnder (p : PrivilegedUnit) (asid : BitVec 10) (virtAddr : UWord) (k : Fin 16) : Bool :=
  { p.mmu with asid }.entryHits virtAddr (p.tlbTable k)

/-- The entry was enabled and is not any more. -/
def Cleared (p q : PrivilegedUnit) (k : Fin 16) : Prop :=
  (p.tlbTable k).e = true ∧ (q.tlbTable k).e = false

/-- Sub-operation 5 clears the entries that are not global and translate the address in the
address space, sub-operation 6 also the global ones, and neither clears another entry. So
after sub-operation 6 nothing translates the address there. -/
structure Invalidates (op : TLBOpType) (asid : BitVec 10) (virtAddr : UWord)
    (p q : PrivilegedUnit) : Prop where
  cleared : ∀ k, Cleared p q k ↔
    p.hitsUnder asid virtAddr k = true ∧ (op = .invtlb5 → (p.tlbTable k).g = false)
  noHit : op = .invtlb6 → { q.mmu with asid }.tlbHit virtAddr = false

end PrivilegedUnit

/-- The entry is about pages of the larger size, which do not contain the address: they are
the neighbours of those that do. -/
structure TLBEntry.Neighbours (op : TLBOpType) (asid : BitVec 10) (virtAddr : UWord)
    (entry : TLBEntry) : Prop where
  e : entry.e = true
  ps : entry.ps ≠ 12
  space : entry.InSpace asid ∧ (op = .invtlb5 → entry.g = false)
  upper : entry.vppn.extractLsb' 10 9 = virtAddr.extractLsb' 23 9
  lowest : entry.vppn.getLsbD 9 ≠ virtAddr.getLsbD 22

/-- What the comparison of `INVTLB` leaves out. -/
theorem extractLsb'_eq_iff (x y : BitVec 19) :
    x.extractLsb' 9 10 = y.extractLsb' 9 10 ↔
      x.extractLsb' 10 9 = y.extractLsb' 10 9 ∧ x.getLsbD 9 = y.getLsbD 9 := by
  have hx := x.isLt
  have hy := y.isLt
  rw [BitVec.toNat_eq, BitVec.toNat_eq, BitVec.getLsbD, BitVec.getLsbD,
    Nat.testBit_eq_decide_div_mod_eq, Nat.testBit_eq_decide_div_mod_eq, decide_eq_decide]
  simp only [BitVec.extractLsb'_toNat, Nat.shiftRight_eq_div_pow]
  omega

/-- The comparison of `INVTLB` also finds the neighbours. -/
theorem invMatches_iff (entry : TLBEntry) (virtAddr : UWord) :
    (if entry.ps == 12 then entry.vppn == virtAddr.extractLsb' 13 19
      else entry.vppn.extractLsb' 10 9 == (virtAddr.extractLsb' 13 19).extractLsb' 10 9) = true ↔
      entry.vppnMatches (virtAddr.extractLsb' 13 19) = true ∨
        entry.ps ≠ 12 ∧ entry.vppn.extractLsb' 10 9 = virtAddr.extractLsb' 23 9 ∧
          entry.vppn.getLsbD 9 ≠ virtAddr.getLsbD 22 := by
  have hlt := virtAddr.isLt
  have hupper : (virtAddr.extractLsb' 13 19).extractLsb' 10 9 = virtAddr.extractLsb' 23 9 := by
    apply BitVec.eq_of_toNat_eq
    simp only [BitVec.extractLsb'_toNat, Nat.shiftRight_eq_div_pow]
    omega
  have hlowest : (virtAddr.extractLsb' 13 19).getLsbD 9 = virtAddr.getLsbD 22 := by
    rw [BitVec.getLsbD_extractLsb']
    rfl
  rw [TLBEntry.vppnMatches]
  by_cases hps : entry.ps = 12
  · rw [beq_iff_eq.mpr hps, if_pos rfl, if_pos rfl]
    exact ⟨.inl, fun h => h.resolve_right fun hno => hno.1 hps⟩
  · rw [beq_eq_false_iff_ne.mpr hps, if_neg Bool.false_ne_true, if_neg Bool.false_ne_true,
      beq_iff_eq, beq_iff_eq, extractLsb'_eq_iff, hupper, hlowest]
    by_cases hbit : entry.vppn.getLsbD 9 = virtAddr.getLsbD 22
    · exact ⟨fun h => .inl ⟨h, hbit⟩, fun h => h.elim And.left fun hno => hno.2.1⟩
    · exact ⟨fun h => .inr ⟨hps, h, hbit⟩, fun h => h.elim And.left fun hno => hno.2.1⟩

namespace PrivilegedUnit

variable {innerCounterDownEvery : Nat} {p : PrivilegedUnit} {c : CommitSignals}
  {intrpt : BitVec 8} {virtAddr : UWord}

/-- What an `INVTLB` for an address selects: the entries that it is to clear, and their
neighbours. -/
theorem invMask_iff (hop : c.tlbOp = .invtlb5 ∨ c.tlbOp = .invtlb6)
    (hvppn : c.tlbInvVPPN = virtAddr.extractLsb' 13 19) {k : Fin 16}
    (he : (p.tlbTable k).e = true) :
    invMask c (p.tlbTable k) = true ↔
      (p.hitsUnder c.tlbInvASID virtAddr k = true ∧
          (c.tlbOp = .invtlb5 → (p.tlbTable k).g = false)) ∨
        (p.tlbTable k).Neighbours c.tlbOp c.tlbInvASID virtAddr := by
  have hspace : invMask c (p.tlbTable k) = true ↔
      ((p.tlbTable k).InSpace c.tlbInvASID ∧ (c.tlbOp = .invtlb5 → (p.tlbTable k).g = false)) ∧
        (if (p.tlbTable k).ps == 12 then (p.tlbTable k).vppn == virtAddr.extractLsb' 13 19
          else (p.tlbTable k).vppn.extractLsb' 10 9 ==
            (virtAddr.extractLsb' 13 19).extractLsb' 10 9) = true := by
    rw [← hvppn, TLBEntry.InSpace]
    obtain hop | hop := hop
    · cases hg : (p.tlbTable k).g <;> simp [invMask, hop, hg]
    · simp [invMask, hop]
  have hhits : p.hitsUnder c.tlbInvASID virtAddr k = true ↔
      (p.tlbTable k).InSpace c.tlbInvASID ∧
        (p.tlbTable k).vppnMatches (virtAddr.extractLsb' 13 19) = true := by
    rw [hitsUnder, MMU.entryHits_eq, he, Bool.true_and, Bool.and_eq_true, Bool.or_eq_true,
      beq_iff_eq, TLBEntry.InSpace]
  rw [hspace, hhits, invMatches_iff]
  constructor
  · rintro ⟨hs, hmatch | ⟨hps, hupper, hlowest⟩⟩
    · exact .inl ⟨⟨hs.1, hmatch⟩, hs.2⟩
    · exact .inr ⟨he, hps, hs, hupper, hlowest⟩
  · rintro (⟨⟨hs, hmatch⟩, hg⟩ | h)
    · exact ⟨⟨hs, hg⟩, .inl hmatch⟩
    · exact ⟨h.space, .inr ⟨h.ps, h.upper, h.lowest⟩⟩

/-- Which entries an `INVTLB` for an address clears. -/
theorem cleared_iff (hop : c.tlbOp = .invtlb5 ∨ c.tlbOp = .invtlb6)
    (hvppn : c.tlbInvVPPN = virtAddr.extractLsb' 13 19) (k : Fin 16) :
    Cleared p (p.step innerCounterDownEvery c intrpt) k ↔
      (p.hitsUnder c.tlbInvASID virtAddr k = true ∧
          (c.tlbOp = .invtlb5 → (p.tlbTable k).g = false)) ∨
        (p.tlbTable k).Neighbours c.tlbOp c.tlbInvASID virtAddr := by
  have hwritten : p.written c = none := by
    obtain hop | hop := hop <;> rw [written, hop]
  have hdisables : p.disables c k = invMask c (p.tlbTable k) := by
    obtain hop | hop := hop <;> rw [disables, hop] <;> rfl
  rw [Cleared, tlbTable_step, hwritten, if_neg (Option.some_ne_none k).symm, hdisables]
  by_cases he : (p.tlbTable k).e = true
  · rw [← invMask_iff hop hvppn he]
    cases hmask : invMask c (p.tlbTable k) with
    | true => exact ⟨fun _ => rfl, fun _ => ⟨he, rfl⟩⟩
    | false => simp [he]
  · have hno : p.hitsUnder c.tlbInvASID virtAddr k = false := by
      rw [hitsUnder, MMU.entryHits_eq, Bool.eq_false_of_not_eq_true he]
      rfl
    rw [hno]
    exact ⟨fun h => absurd h.1 he, fun h => h.elim (fun h => nomatch h.1) fun h => absurd h.e he⟩

/-- A neighbour does not translate the address. -/
theorem hitsUnder_of_neighbours {op : TLBOpType} {asid : BitVec 10} {k : Fin 16}
    (h : (p.tlbTable k).Neighbours op asid virtAddr) : p.hitsUnder asid virtAddr k = false := by
  have hlt := virtAddr.isLt
  have hlowest : (virtAddr.extractLsb' 13 19).getLsbD 9 = virtAddr.getLsbD 22 := by
    rw [BitVec.getLsbD_extractLsb']
    rfl
  have hmatch : (p.tlbTable k).vppnMatches (virtAddr.extractLsb' 13 19) = false := by
    rw [TLBEntry.vppnMatches, beq_eq_false_iff_ne.mpr h.ps, if_neg Bool.false_ne_true,
      beq_eq_false_iff_ne, Ne, extractLsb'_eq_iff, hlowest]
    exact fun heq => h.lowest heq.2
  rw [hitsUnder, MMU.entryHits_eq, hmatch, Bool.and_false]

/-- An entry that hits after a cycle has hit before, and the cycle has not cleared it. -/
theorem hitsUnder_step (hop : c.tlbOp = .invtlb5 ∨ c.tlbOp = .invtlb6) {asid : BitVec 10}
    {k : Fin 16}
    (h : (p.step innerCounterDownEvery c intrpt).hitsUnder asid virtAddr k = true) :
    p.hitsUnder asid virtAddr k = true ∧
      ¬Cleared p (p.step innerCounterDownEvery c intrpt) k := by
  have hwritten : p.written c = none := by
    obtain hop | hop := hop <;> rw [written, hop]
  have he : ((p.step innerCounterDownEvery c intrpt).tlbTable k).e = true := by
    rw [hitsUnder, MMU.entryHits_eq, Bool.and_eq_true, Bool.and_eq_true] at h
    exact h.1.1
  have hkept : (p.step innerCounterDownEvery c intrpt).tlbTable k = p.tlbTable k := by
    rw [tlbTable_step, hwritten, if_neg (Option.some_ne_none k).symm] at he ⊢
    cases hdisables : p.disables c k with
    | false => rw [if_neg Bool.false_ne_true]
    | true =>
      rw [hdisables, if_pos rfl] at he
      cases he
  refine ⟨?_, fun hcleared => ?_⟩
  · rw [hitsUnder, MMU.entryHits_eq, hkept] at h
    rw [hitsUnder, MMU.entryHits_eq]
    exact h
  · rw [hcleared.2] at he
    cases he

end PrivilegedUnit

/-- Commit takes apart what EXE has packed into the result: the address space and the page
pair. -/
theorem Commit.signals_invtlb {ports : Nat → PopPort} {fsm : UncachedState} {inp : CommitInputs}
    {e : ExeInputs} {robIdx : Nat} (huop : (ports 0).uop = e.uop)
    (hstate : (ports 0).state = (IntExecutePlugin.int0.completion e .int0 robIdx).state)
    (hop : e.uop.tlbOp ≠ .none) (hretires : retires ports fsm inp 0 = true) :
    (signals ports fsm inp).tlbOp = e.uop.tlbOp ∧
      (signals ports fsm inp).tlbInvASID = (e.regData 0).extractLsb' 0 10 ∧
        (signals ports fsm inp).tlbInvVPPN = (e.regData 1).extractLsb' 13 19 := by
  have hresult : (ports 0).state.intResult =
      0#3 ++ (e.regData 1).extractLsb' 13 19 ++ (e.regData 0).extractLsb' 0 10 := by
    rw [hstate]
    change IntExecutePlugin.int0.actualTarget e = _
    rw [IntExecutePlugin.actualTarget, MicroOp.operateTLB, bne_iff_ne.mpr hop]
    rfl
  refine ⟨?_, ?_, ?_⟩
  · change tlbOp ports fsm inp = _
    rw [tlbOp, hretires, if_pos rfl, huop]
  · change (ports 0).state.intResult.extractLsb' 0 10 = _
    rw [hresult, BitVec.extractLsb'_append_eq_right]
  · change (ports 0).state.intResult.extractLsb' 10 19 = _
    rw [hresult, BitVec.extractLsb'_append_eq_of_le (by decide)]
    exact BitVec.extractLsb'_append_eq_right

/-- An `INVTLB` for an address clears what translates the address, unless there is a
neighbour that it clears as well. -/
theorem invtlb_iff (innerCounterDownEvery : Nat) (p : PrivilegedUnit) (intrpt : BitVec 8)
    {ports : Nat → PopPort} {fsm : UncachedState} {inp : CommitInputs} {e : ExeInputs}
    {robIdx : Nat} (huop : (ports 0).uop = e.uop)
    (hstate : (ports 0).state = (IntExecutePlugin.int0.completion e .int0 robIdx).state)
    (hop : e.uop.tlbOp = .invtlb5 ∨ e.uop.tlbOp = .invtlb6)
    (hretires : Commit.retires ports fsm inp 0 = true) :
    PrivilegedUnit.Invalidates e.uop.tlbOp ((e.regData 0).extractLsb' 0 10) (e.regData 1) p
        (p.step innerCounterDownEvery (Commit.signals ports fsm inp) intrpt) ↔
      ∀ k, ¬(p.tlbTable k).Neighbours e.uop.tlbOp ((e.regData 0).extractLsb' 0 10)
        (e.regData 1) := by
  have hne : e.uop.tlbOp ≠ .none := by
    obtain hop | hop := hop <;> rw [hop] <;> exact TLBOpType.noConfusion
  obtain ⟨hsignal, hasid, hvppn⟩ := Commit.signals_invtlb huop hstate hne hretires
  rw [← hsignal] at hop
  have hcleared := fun k =>
    @PrivilegedUnit.cleared_iff innerCounterDownEvery p _ intrpt _ hop hvppn k
  rw [hasid, hsignal] at hcleared
  constructor
  · intro h k hnear
    have hhits := (h.cleared k).mp ((hcleared k).mpr (.inr hnear))
    rw [PrivilegedUnit.hitsUnder_of_neighbours hnear] at hhits
    exact Bool.noConfusion hhits.1
  · intro hnone
    have hexact := fun k => (hcleared k).trans (or_iff_left (hnone k))
    refine ⟨hexact, fun hsix => ?_⟩
    rw [← Bool.not_eq_true, MMU.tlbHit_iff]
    rintro ⟨k, hk⟩
    obtain ⟨hbefore, hkept⟩ := PrivilegedUnit.hitsUnder_step hop hk
    refine hkept ((hexact k).mpr ⟨hbefore, fun hfive => ?_⟩)
    rw [hsix] at hfive
    cases hfive

/-- The instruction `INVTLB 5` for address space 1 and address `0x00400000`. -/
def invtlbFive : ExeInputs where
  uop := { fuType := .invtlb, tlbOp := .invtlb5, useRj := true, useRk := true }
  signals := { aluOp := .add, cmpOp := .eq }
  regData j := if j = 0 then 1 else 0x00400000

def invtlbFivePort : PopPort where
  valid := true
  info := { uop := invtlbFive.uop }
  state := (IntExecutePlugin.int0.completion invtlbFive .int0 0).state

/-- The large pages at address 0 are cleared. -/
theorem invtlb_clears_neighbour :
    ¬PrivilegedUnit.Invalidates .invtlb5 1 0x00400000
      { tlbTable := fun _ => { e := true, asid := 1, ps := 21 } }
      (PrivilegedUnit.step 1 { tlbTable := fun _ => { e := true, asid := 1, ps := 21 } }
        (Commit.signals (fun _ => invtlbFivePort) .stateBoot {}) 0) := by
  intro h
  have hcleared := (h.cleared 0).mp ⟨rfl, by decide +kernel⟩
  exact absurd hcleared.1 (by decide +kernel)

/-- Where the entry is about the pages of the address, all is well. -/
theorem invtlb_iff_five :
    PrivilegedUnit.Invalidates .invtlb5 1 0x00400000
      { tlbTable := fun _ => { e := true, asid := 1, ps := 21, vppn := 0x200 } }
      (PrivilegedUnit.step 1
        { tlbTable := fun _ => { e := true, asid := 1, ps := 21, vppn := 0x200 } }
        (Commit.signals (fun _ => invtlbFivePort) .stateBoot {}) 0) :=
  (@invtlb_iff 1 { tlbTable := fun _ => { e := true, asid := 1, ps := 21, vppn := 0x200 } } 0
    (fun _ => invtlbFivePort) .stateBoot {} invtlbFive 0 rfl rfl (.inl rfl)
    (by decide +kernel)).mpr fun _ h => h.lowest rfl

end NopCore
