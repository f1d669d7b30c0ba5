import NopCore.Core.Repair

/-!
# Precise commit

Instructions leave the reorder buffer in program order and have their effects in
this cycle or never. Behind an instruction that is not complete, has an
exception, was mispredicted or changes the state that younger ones have read,
nothing has an effect. If the oldest one is turned into an exception, by its own
or by an interrupt, nothing at all has.
-/

namespace NopCore

namespace CommitCore

open Commit (hasExcept)

variable (s : CommitCore) (i : Inputs)

/-- The instructions in the reorder buffer, from the oldest on. -/
def inFlight : List (ROBEntryInfo × ROBEntryState) :=
  (List.range (s.rob.ptr.count robDepth)).map fun k =>
    (s.rob.robInfo (s.entry k), s.rob.robState (s.entry k))

/-- Nothing behind the instruction may have an effect yet. -/
def Stops (e : ROBEntryInfo × ROBEntryState) : Prop :=
  e.2.complete = false ∨ e.2.except.valid = true ∨ e.2.mispredict = true ∨
    e.1.uop.flushState = true

/-- The effects that belong to the oldest instruction: CSR, TLB and instruction
cache operations, the store buffer, the link bit, exception return and the
predictor. -/
def HeadEffect : Prop :=
  (Commit.csrWrite s.ports s.fsm i.commit).isSome = true ∨
    Commit.tlbOp s.ports s.fsm i.commit ≠ .none ∨
    (Commit.cacheOp s.ports s.fsm i.commit).isSome = true ∨
    Commit.commitStore s.ports s.fsm i.commit = true ∨
    Commit.llbit s.ports s.fsm i.commit ≠ i.commit.handler.llbctlLLBIT ∨
    Commit.ertn s.ports s.fsm i.commit = true ∨
    Commit.doWait s.ports s.fsm i.commit = true ∨
    (Commit.predUpdate s.ports s.fsm i.commit).isSome = true

/-- The `k`-th oldest instruction has an effect in this cycle. -/
def HasEffect (k : Nat) : Prop :=
  (k < retireWidth ∧ (Commit.arfCommit s.ports s.fsm i.commit k).isSome = true) ∨
    (k = 0 ∧ s.HeadEffect i)

/-- The exception handler after the cycle. -/
def handlerNext : ExceptionHandler :=
  i.commit.handler.step (Commit.handlerRequest s.ports s.fsm i.commit)

/-- The cycle commits precisely. -/
structure Precise : Prop where
  /-- What leaves is the oldest part; the rest stays, in order. -/
  leaves : ∀ k < retireWidth, s.fires i k = true ↔ k < s.popCount i
  popped : s.popCount i ≤ s.inFlight.length
  stays : s.needFlush i = false → (s.step i).inFlight.map Prod.fst =
    (s.inFlight.map Prod.fst).drop (s.popCount i) ++ i.push.map PushPort.info
  effects : ∀ k, s.HasEffect i k → k < s.inFlight.length
  younger : ∀ j k e, j < k → s.inFlight[j]? = some e → Stops e → ¬ s.HasEffect i k
  alone : ∀ k e, s.inFlight[k]? = some e → e.1.uop.uniqueRetire = true →
    s.fires i k = true → k = 0
  /-- The oldest instruction leaves as an exception or as an interrupt. -/
  exceptional : s.fires i 0 = true → hasExcept s.ports s.fsm i.commit = true →
    (∀ k, ¬ s.HasEffect i k) ∧
      (s.handlerNext i).llbctlLLBIT = i.commit.handler.llbctlLLBIT ∧
      (∀ e, s.inFlight[0]? = some e → (s.handlerNext i).eraPC = e.1.uop.pc) ∧
      (s.step i).inFlight = []

variable {s i}

@[simp] theorem length_inFlight : s.inFlight.length = s.rob.ptr.count robDepth := by
  simp [inFlight]

/-- A pop port shows the instruction that is its turn. -/
theorem ports_of_inFlight (h : s.Inv) {k : Nat} {e : ROBEntryInfo × ROBEntryState}
    (he : s.inFlight[k]? = some e) :
    (s.ports k).info = e.1 ∧ (s.ports k).state = e.2 := by
  rw [inFlight, List.getElem?_map, Option.map_eq_some_iff] at he
  obtain ⟨k', hk', rfl⟩ := he
  obtain ⟨hlt, hk⟩ := List.getElem?_eq_some_iff.mp hk'
  rw [List.getElem_range] at hk
  rw [List.length_range] at hlt
  subst hk
  exact ⟨h.popInfo k hlt, h.popState k hlt⟩

theorem valid_of_succ (k : Nat) (h : (s.ports (k + 1)).valid = true) :
    (s.ports k).valid = true := by
  simp only [ports, Ring.Pointers.popValid, Bool.or_eq_true, decide_eq_true_eq] at h ⊢
  exact h.imp id fun hlt => by omega

theorem lt_of_valid {k : Nat} (hk : k < retireWidth) (h : (s.ports k).valid = true) :
    k < s.rob.ptr.count robDepth := by
  have hwidth : retireWidth = 3 := rfl
  exact (Ring.Pointers.popValid_iff (by simp only [robDepth]; omega)).mp h

/-- An instruction that leaves behind another one finds nothing in the way. -/
theorem not_stops_of_fires (h : s.Inv) {j k : Nat} {e : ROBEntryInfo × ROBEntryState}
    (hjk : j < k) (he : s.inFlight[j]? = some e) (hfire : s.fires i k = true) : ¬ Stops e := by
  obtain ⟨hinfo, hstate⟩ := ports_of_inFlight h he
  simp only [fires, Commit.fire, Commit.ready, Bool.and_eq_true] at hfire
  obtain ⟨-, ⟨⟨⟨hcomplete, hexc⟩, hunique⟩, hrecover⟩, -⟩ := hfire
  have hzero : (k == 0) = false := by simp; omega
  simp only [Commit.completeMask, List.all_eq_true, List.mem_range] at hcomplete
  simp only [Commit.excMask, hzero, Bool.false_or, Bool.not_eq_true', List.any_eq_false,
    List.mem_range, Bool.or_eq_true, not_or, Bool.not_eq_true] at hexc
  simp only [Commit.uniqueMask, Bool.not_eq_true', List.any_eq_false, List.mem_range,
    Bool.not_eq_true] at hunique
  simp only [Commit.recoverMask, Bool.not_eq_true', List.any_eq_false, List.mem_range,
    Bool.not_eq_true] at hrecover
  rintro (hno | hno | hno | hno)
  · have hyes := hcomplete j (by omega)
    rw [hstate, hno] at hyes
    cases hyes
  · have hnone := (hexc j (by omega)).1
    rw [hstate, hno] at hnone
    cases hnone
  · have hnone := hrecover j hjk
    rw [hstate, hno] at hnone
    cases hnone
  · have hflush : (s.ports j).uop.flushState = true := by rw [PopPort.uop, hinfo, hno]
    cases j with
    | zero =>
      have hnone := (hexc 0 (by omega)).2
      simp [Commit.linearRecover, hflush] at hnone
    | succ j =>
      have hnone := hunique j (by omega)
      simp [MicroOp.uniqueRetire, hflush] at hnone

/-- The oldest instruction has an effect only if it is there and is no exception. -/
theorem valid_of_headEffect (h : s.HeadEffect i) :
    (s.ports 0).valid = true ∧ hasExcept s.ports s.fsm i.commit = false := by
  have hretires : Commit.retires s.ports s.fsm i.commit 0 = true →
      (s.ports 0).valid = true ∧ hasExcept s.ports s.fsm i.commit = false := by
    intro hr
    simp only [Commit.retires, Commit.fire, Bool.and_eq_true, Bool.not_eq_true'] at hr
    exact ⟨hr.1.1, hr.2⟩
  by_cases hr : Commit.retires s.ports s.fsm i.commit 0 = true
  · exact hretires hr
  · have hno : Commit.retires s.ports s.fsm i.commit 0 = false := Bool.eq_false_of_not_eq_true hr
    simp [HeadEffect, Commit.csrWrite, Commit.tlbOp, Commit.cacheOp, Commit.commitStore,
      Commit.llbit, Commit.ertn, Commit.doWait, Commit.predUpdate, hno,
      Commit.startUncached] at h
    exact ⟨h.1.1.1.1.2, h.2⟩

/-- An exception saves the program counter and leaves the link bit alone. -/
theorem step_of_except (x : ExceptionHandler) (r : ExceptionHandler.Request)
    (h : r.except.valid = true) :
    (x.step r).eraPC = r.epc ∧ (x.step r).llbctlLLBIT = x.llbctlLLBIT := by
  have hfinish : (x.finishRefill r).llbctlLLBIT = x.llbctlLLBIT := by
    rw [ExceptionHandler.finishRefill]
    split_ifs <;> rfl
  have hcause : ((x.finishRefill r).recordCause r.except).llbctlLLBIT = x.llbctlLLBIT := by
    rw [← hfinish]
    simp only [ExceptionHandler.recordCause]
    split_ifs <;> rfl
  rw [ExceptionHandler.step, if_pos h]
  split_ifs
  · exact ⟨rfl, hfinish⟩
  · exact ⟨rfl, hcause⟩

theorem fires_of_arfCommit {k : Nat}
    (h : (Commit.arfCommit s.ports s.fsm i.commit k).isSome = true) :
    s.fires i k = true ∧ hasExcept s.ports s.fsm i.commit = false := by
  rw [Commit.arfCommit] at h
  split_ifs at h with hr
  · simp only [Commit.retires, Bool.and_eq_true, Bool.not_eq_true'] at hr
    exact hr.1
  · cases h

theorem hasEffect_hasExcept {k : Nat} (h : s.HasEffect i k) :
    hasExcept s.ports s.fsm i.commit = false := by
  obtain ⟨-, harf⟩ | ⟨-, hhead⟩ := h
  · exact (fires_of_arfCommit harf).2
  · exact (valid_of_headEffect hhead).2

/-- What stays in the reorder buffer, and what is added. -/
theorem inFlight_step (h : s.Inv) (hi : s.Legal i) (hflush : s.needFlush i = false) :
    (s.step i).inFlight.map Prod.fst =
      (s.inFlight.map Prod.fst).drop (s.popCount i) ++ i.push.map PushPort.info := by
  have hroom := room h.range hi
  have hpop := popCount_le s i
  have hcount := count_step h.range hi
  rw [hflush, if_neg Bool.false_ne_true] at hcount
  refine List.ext_getElem? fun k => ?_
  rw [List.getElem?_append, List.length_drop, List.length_map, length_inFlight,
    List.getElem?_drop]
  simp only [inFlight, List.map_map, List.getElem?_map, Function.comp_def]
  have hslot : ∀ o < s.rob.ptr.count robDepth + i.push.length,
      (s.step i).rob.robInfo (s.entry o) =
        ((if s.rob.ptr.count robDepth ≤ o then i.push[o - s.rob.ptr.count robDepth]?
          else none).map PushPort.info).getD (s.rob.robInfo (s.entry o)) := by
    intro o ho
    rw [← ROBFIFO.pushAt_slot h.range (by omega) hroom]
    exact ROBFIFO.step_robInfo h.range.push (Ring.slot_lt h.range.pos _ _) (by omega)
  by_cases hk : k < (s.step i).rob.ptr.count robDepth
  · rw [List.getElem?_range hk, Option.map_some, entry_step hflush, hslot _ (by omega)]
    split_ifs with hnew hold hold
    · omega
    · rw [List.getElem?_eq_getElem (by omega), List.getElem?_eq_getElem (by omega)]
      simp only [Option.map_some, Option.getD_some]
      congr 3
      omega
    · rw [List.getElem?_range (by omega)]
      rfl
    · omega
  · rw [List.getElem?_eq_none (by simpa using hk)]
    split_ifs with hold
    · omega
    · rw [List.getElem?_eq_none (by omega)]
      rfl

/-- Every cycle of every run commits precisely. -/
theorem precise (hs : machine.Reachable s) (hi : s.Legal i) : s.Precise i := by
  have hinv := inv_of_reachable hs
  refine ⟨?_, ?_, inFlight_step hinv hi, ?_, ?_, ?_, ?_⟩
  · intro k hk
    exact Commit.fire_iff_lt_popCount hk valid_of_succ
  · rw [length_inFlight]
    exact popCount_le s i
  · rintro k (⟨hk, harf⟩ | ⟨rfl, hhead⟩)
    · have hfire := (fires_of_arfCommit harf).1
      simp only [fires, Commit.fire, Bool.and_eq_true] at hfire
      rw [length_inFlight]
      exact lt_of_valid hk hfire.1
    · rw [length_inFlight]
      exact lt_of_valid (by decide) (valid_of_headEffect hhead).1
  · rintro j k e hjk he hstops (⟨-, harf⟩ | ⟨rfl, -⟩)
    · exact not_stops_of_fires hinv hjk he (fires_of_arfCommit harf).1 hstops
    · omega
  · intro k e he hunique hfire
    refine Commit.eq_zero_of_uniqueRetire hfire ?_
    rw [PopPort.uop, (ports_of_inFlight hinv he).1]
    exact hunique
  · intro hfire hexc
    have hvalid : (Commit.except s.ports s.fsm i.commit).valid = true := by
      rw [Commit.except, hexc, Bool.and_true]
      exact hfire
    obtain ⟨hera, hlink⟩ := step_of_except i.commit.handler
      (Commit.handlerRequest s.ports s.fsm i.commit) hvalid
    have hflush : s.needFlush i = true := by
      have hfire' : Commit.fire s.ports s.fsm i.commit 0 = true := hfire
      simp [needFlush, Commit.needFlush, hfire', hexc]
    refine ⟨fun k heffect => ?_, hlink, fun e he => ?_, ?_⟩
    · rw [hasEffect_hasExcept heffect] at hexc
      cases hexc
    · rw [handlerNext, hera, ← (ports_of_inFlight hinv he).1]
      rfl
    · rw [inFlight, count_step hinv.range hi, if_pos hflush]
      rfl

/-- Three instructions enter together; the second one has an exception. -/
def faultBehindHead : Inputs :=
  { push :=
      [{ uop := { pc := 0x1c000000, fuType := .none, doRegWrite := true } },
       { uop := { pc := 0x1c000004, except := { valid := true } } },
       { uop := { pc := 0x1c000008, fuType := .none, doRegWrite := true } }] }

/-- Only the first of them leaves. -/
theorem precise_faultBehindHead :
    let s := machine.step { redirected := some 0x1c000000 } faultBehindHead
    s.popCount {} = 1 ∧ s.Precise {} := by
  refine ⟨by decide +kernel, precise ?_ ?_⟩
  · refine .edge (.reset ⟨rfl, rfl, rfl⟩) ⟨by decide, by decide, by simp [faultBehindHead],
      by simp [faultBehindHead], ?_⟩
    rintro t ht p hp
    obtain rfl : (0x1c000000 : UWord) = t := Option.some.inj ht
    obtain rfl : faultBehindHead.push.head (by decide) = p := Option.some.inj hp
    rfl
  · exact ⟨by decide, by simp, by simp, by simp, by simp⟩

end CommitCore

end NopCore
