import NopCore.Mem.Pipeline

/-!
# Cache operations in the memory pipeline

A cache operation acts in MEM2, on behalf of the instruction that is there, and it goes
on when a flush removes that instruction. Whatever holds of the instructions that issue
holds of those that MEM2 acts for.
-/

namespace NopCore

namespace MemPipeline

variable {s : MemPipeline} {i : Inputs} {P Q : MemUop → Prop}

/-- The instructions in the stages satisfy `P`, among them the one for which the
state machine of the cache operations runs. -/
structure StagesSatisfy (P : MemUop → Prop) (s : MemPipeline) : Prop where
  rrd : s.rrd.isValid = true → P s.rrd.uop
  memaddr : s.memaddr.isValid = true → P s.memaddr.uop
  mem1 : s.mem1.isValid = true → P s.mem1.uop
  mem2 : s.mem2ValidOnEntry = true → P s.uop2
  cacheOp : s.cacheFSM.state ≠ .stateBoot → P s.uop2 ∧ s.uop2.cacheOp ≠ .none

theorem StagesSatisfy.mono (h : StagesSatisfy P s) (hPQ : ∀ u, P u → Q u) : StagesSatisfy Q s where
  rrd hvalid := hPQ _ (h.rrd hvalid)
  memaddr hvalid := hPQ _ (h.memaddr hvalid)
  mem1 hvalid := hPQ _ (h.mem1 hvalid)
  mem2 hvalid := hPQ _ (h.mem2 hvalid)
  cacheOp hstate := ⟨hPQ _ (h.cacheOp hstate).1, (h.cacheOp hstate).2⟩

theorem satisfies_nextStage {prev cur : MemStage} (hprev : prev.isValid = true → P prev.uop)
    (hcur : cur.isValid = true → P cur.uop) :
    (s.nextStage i prev cur).isValid = true → P (s.nextStage i prev cur).uop := by
  intro hvalid
  rw [nextStage] at hvalid ⊢
  split_ifs at hvalid ⊢
  · exact hcur (Bool.and_eq_true_iff.mp hvalid).1
  · exact hprev (Bool.and_eq_true_iff.mp hvalid).1

theorem cacheOp_of_startCacheOp (h : s.startCacheOp = true) :
    s.mem2ValidOnEntry = true ∧ s.uop2.cacheOp ≠ .none := by
  simp only [startCacheOp, cacheOpValid, Bool.and_eq_true, Bool.or_eq_true, beq_iff_eq] at h
  refine ⟨h.1.1.1.2, ?_⟩
  obtain hop | hop := h.2 <;> simp [hop]

theorem cacheOp_of_storeTag (h : s.storeTag = true) :
    s.mem2ValidOnEntry = true ∧ s.uop2.cacheOp ≠ .none := by
  simp only [storeTag, cacheOpValid, Bool.and_eq_true, beq_iff_eq] at h
  exact ⟨h.1.1.1.2, by simp [h.2]⟩

/-- While the state machine runs on, MEM2 is held. -/
theorem stuck2_of_nextCacheFSM (h : (s.nextCacheFSM i).state ≠ .stateBoot) :
    s.stuck2 i = true ∧ (s.cacheFSM.state ≠ .stateBoot ∨ s.startCacheOp = true) := by
  rw [nextCacheFSM] at h
  cases hstate : s.cacheFSM.state with
  | stateBoot =>
    rw [hstate] at h
    dsimp only at h
    split_ifs at h with hstart
    · exact ⟨by simp [stuck2, hstart], .inr hstart⟩
    · exact absurd hstate h
  | checkWay =>
    refine ⟨?_, .inl (by simp)⟩
    cases hall : s.cacheFSM.finishAllWay with
    | false => simp [stuck2, checking, hstate, hall]
    | true =>
      rw [hstate] at h
      dsimp only at h
      rw [hall, if_pos rfl] at h
      split_ifs at h with hstuck
      · exact hstuck
      · exact absurd rfl h
  | writebackWay => exact ⟨by simp [stuck2, hstate], .inl (by simp)⟩

/-- Only what issues has to be looked at. -/
theorem StagesSatisfy.step (h : StagesSatisfy P s)
    (hissue : s.issValid i = true → i.flush = false → P i.head) : StagesSatisfy P (s.step i) where
  rrd := by
    refine satisfies_nextStage (fun hvalid => ?_) h.rrd
    obtain ⟨hissued, hflush⟩ := Bool.and_eq_true_iff.mp hvalid
    exact hissue hissued (by simpa using hflush)
  memaddr := satisfies_nextStage h.rrd h.memaddr
  mem1 := satisfies_nextStage h.memaddr h.mem1
  mem2 := by
    intro hvalid
    simp only [MemPipeline.step] at hvalid
    change P (s.nextMem2 i).uop
    rw [nextMem2]
    split_ifs at hvalid ⊢ with hstuck hrefetch
    · exact h.mem2 hvalid
    · simp [hrefetch] at hvalid
    · simp only [Bool.and_eq_true] at hvalid
      exact h.mem1 hvalid.1.2
  cacheOp := by
    intro hstate
    obtain ⟨hstuck, hruns⟩ := stuck2_of_nextCacheFSM hstate
    have hstays : (s.step i).uop2 = s.uop2 := by
      change (s.nextMem2 i).uop = _
      rw [nextMem2, if_pos hstuck]
      rfl
    rw [hstays]
    obtain hruns | hstart := hruns
    · exact h.cacheOp hruns
    · obtain ⟨hvalid, hop⟩ := cacheOp_of_startCacheOp hstart
      exact ⟨h.mem2 hvalid, hop⟩

/-- A valid bit of the data cache changes when a line is refilled, when a line is
removed that is accessed uncached, or for a cache operation. -/
theorem StagesSatisfy.valids_step (h : StagesSatisfy P s) {set : BitVec 6} {way : Fin 2}
    (hchange : (s.step i).valids set way ≠ s.valids set way) :
    (s.refill.state = .commit ∧ set = s.addr2.index ∧ way = s.replaceWay) ∨
      (s.fixUncache = .waitWriteback ∧ set = s.addr2.index ∧ way = s.hitWay) ∨
      (P s.uop2 ∧ s.uop2.cacheOp ≠ .none) := by
  change s.nextValids i set way ≠ _ at hchange
  rw [nextValids] at hchange
  split_ifs at hchange with hrefill hclear htag
  · exact .inl hrefill
  · rw [clearWay] at hclear
    obtain ⟨hset, hway⟩ := hclear
    split_ifs at hway with hfix hop
    · exact .inr (.inl ⟨hfix.1, hset, (Option.some.inj hway).symm⟩)
    · exact .inr (.inr (h.cacheOp (by simp [hop.1])))
  · obtain ⟨hvalid, hop⟩ := cacheOp_of_storeTag htag
    exact .inr (.inr ⟨h.mem2 hvalid, hop⟩)
  · exact absurd rfl hchange

end MemPipeline

end NopCore
