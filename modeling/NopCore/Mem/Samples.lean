import NopCore.Mem.Control

/-!
# What MEM2 received from the cache

Valid bits, dirty bits and tags are read in MEM1 and used in MEM2, possibly much
later. Between the two the set changes only in ways that do not matter: a refill
fills the way it has chosen, and everybody behind it reads again; a valid bit is
cleared. So of every way that is still valid MEM2 knows the tag and the dirty
bit, except for the way that a refill has just filled.
-/

namespace NopCore

namespace MemPipeline

variable {s : MemPipeline} {i : Inputs}

/-- The way that has just been filled, before MEM1 reads it. -/
def Filled (s : MemPipeline) (set : BitVec 6) (way : Fin 2) : Prop :=
  s.refill.state = .finish ∧ set = s.addr2.index ∧ way = s.replaceWay

/-- The way that a refill is about to declare valid. -/
def Committing (s : MemPipeline) (set : BitVec 6) (way : Fin 2) : Prop :=
  s.refill.state = .commit ∧ set = s.addr2.index ∧ way = s.replaceWay

theorem finish_step :
    (s.step i).refill.state = .finish ↔
      s.refill.state = .commit ∨ (s.refill.state = .finish ∧ s.stuck2 i = true) := by
  simp only [step, nextRefill]
  cases hstate : s.refill.state <;> grind

theorem stuck2_of_commit (h : s.refill.state = .commit) : s.stuck2 i = true := by
  simp [stuck2, h]

theorem Committing.filled {set : BitVec 6} {way : Fin 2} (h : s.Committing set way) :
    (s.step i).Filled set way := by
  have hheld := held_step (i := i) (stuck2_of_commit h.1)
  exact ⟨finish_step.mpr (.inl h.1), by rw [hheld.addr2]; exact h.2.1,
    by rw [hheld.replaceWay]; exact h.2.2⟩

theorem Filled.step {set : BitVec 6} {way : Fin 2} (h : s.Filled set way)
    (hs : s.stuck2 i = true) : (s.step i).Filled set way := by
  have hheld := held_step hs
  exact ⟨finish_step.mpr (.inr ⟨h.1, hs⟩), by rw [hheld.addr2]; exact h.2.1,
    by rw [hheld.replaceWay]; exact h.2.2⟩

theorem not_filled_of_advance (hs : s.stuck2 i = false) (hr : s.doRefetch i = false)
    (set : BitVec 6) (way : Fin 2) : ¬ s.Filled set way := by
  rintro ⟨hstate, -⟩
  simp [doRefetch, hs, hstate] at hr

/-- A way becomes valid at the end of a refill only. -/
theorem valids_step {set : BitVec 6} {way : Fin 2} (h : (s.step i).valids set way = true) :
    s.valids set way = true ∨ s.Committing set way := by
  by_contra hno
  rw [not_or] at hno
  simp only [step, nextValids] at h
  split_ifs at h with hcommit
  · exact hno.2 hcommit
  · exact hno.1 h

theorem hitCommit_iff :
    s.hitCommit i = true ↔ s.reqValid = true ∧ s.stuck2 i = false ∧ s.hit = true := by
  simp [hitCommit, and_assoc]

/-- No refill is under way when a hit leaves MEM2. -/
theorem Control.not_refilling (h : s.Control) (hhit : s.hit = true) : s.refilling = false := by
  by_contra hbusy
  have hmiss := (h.refill (Bool.of_not_eq_false hbusy)).2
  rw [hmiss] at hhit
  cases hhit

theorem not_filled_of_not_refilling (h : s.refilling = false) (set : BitVec 6) (way : Fin 2) :
    ¬ s.Filled set way := by
  rintro ⟨hstate, -⟩
  simp [refilling, hstate] at h

/-- Of the ways that are valid, MEM1 and MEM2 know what the cache says. -/
structure Sampled (s : MemPipeline) : Prop where
  tags1 : ∀ way, s.valids s.mem1.memAddr.index way = true →
    ¬ s.Filled s.mem1.memAddr.index way →
      s.infoRsp.tags way = (s.infoRAM s.mem1.memAddr.index).tags way
  tags2 : s.active = true → ∀ way, s.valids s.addr2.index way = true →
    ¬ s.Filled s.addr2.index way → s.info.tags way = (s.infoRAM s.addr2.index).tags way
  tagMatches : s.active = true → ∀ way, s.tagMatches way = (s.info.tags way == s.addr2.tag)
  valids : s.active = true → ∀ way, s.valids s.addr2.index way = true →
    ¬ s.Filled s.addr2.index way → s.setValids way = true
  dirty : s.active = true → ∀ way, ¬ s.Filled s.addr2.index way →
    s.setDirty way = s.dirtyBits s.addr2.index way

namespace Sampled

theorem of_init (h : s.Init) : s.Sampled := by
  have hidle : s.active = false := by simp [active, h.validOnEntry, h.mem2.2]
  constructor
  · intro way hvalid
    rw [h.valids] at hvalid
    cases hvalid
  all_goals
    intro hactive
    rw [hidle] at hactive
    cases hactive

/-- The tag of a valid way changes at the end of a refill only. -/
theorem tags_step (h : s.Sampled) (hc : s.Control) {set : BitVec 6} {way : Fin 2}
    (hvalid : s.valids set way = true) (hno : ¬ s.Committing set way) :
    ((s.step i).infoRAM set).tags way = (s.infoRAM set).tags way := by
  simp only [step]
  split_ifs with hset
  · subst hset
    rw [infoWrite]
    by_cases hcommit : s.refill.state = .commit
    · rw [if_pos hcommit]
      have hactive := active_of_reqValid (hc.refill (by simp [refilling, hcommit])).1
      have hway : way ≠ s.replaceWay := fun hway => hno ⟨hcommit, rfl, hway⟩
      simp only [Option.getD_some, if_neg hway]
      refine h.tags2 hactive way hvalid ?_
      rintro ⟨hfinish, -⟩
      rw [hcommit] at hfinish
      cases hfinish
    · rw [if_neg hcommit]
      cases hhit : s.hitCommit i with
      | true =>
        obtain ⟨hreq, -, hhit⟩ := hitCommit_iff.mp hhit
        exact h.tags2 (active_of_reqValid hreq) way hvalid
          (not_filled_of_not_refilling (hc.not_refilling hhit) _ _)
      | false => rfl
  · rfl

theorem mem1_stuck (hs : s.stuck1 i = true) : (s.step i).mem1.memAddr = s.mem1.memAddr := by
  simp only [step, nextStage, hs]
  rfl

theorem mem1_advance (hs : s.stuck1 i = false) :
    (s.step i).mem1.memAddr = s.memaddr.memAddr := by
  simp only [step, nextStage, hs]
  rfl

theorem addr2_advance (hs : s.stuck2 i = false) (hr : s.doRefetch i = false) :
    (s.step i).addr2 = s.mem1.memAddr := by
  simp only [step, nextMem2, addr2, hs, hr]
  rfl

theorem active_refetch (hr : s.doRefetch i = true) : (s.step i).active = false := by
  have hs : s.stuck2 i = false := by
    simp only [doRefetch, Bool.and_eq_true, Bool.not_eq_true'] at hr
    exact hr.1
  simp [active, step, nextMem2, hs, hr]

/-- A valid way that survives the clock edge has been valid, unless it has just
been filled. -/
theorem valid_before {set : BitVec 6} {way : Fin 2} (hvalid : (s.step i).valids set way = true)
    (hno : ¬ (s.step i).Filled set way) : s.valids set way = true ∧ ¬ s.Committing set way := by
  have hcommit : ¬ s.Committing set way := fun hcommit => hno hcommit.filled
  exact ⟨(valids_step hvalid).resolve_right hcommit, hcommit⟩

theorem not_committing_of_not_stuck (hs : s.stuck2 i = false) (set : BitVec 6) (way : Fin 2) :
    ¬ s.Committing set way := by
  rintro ⟨hstate, -⟩
  rw [stuck2_of_commit hstate] at hs
  cases hs

theorem tags1_step (h : s.Sampled) (hc : s.Control) (way : Fin 2)
    (hvalid : (s.step i).valids (s.step i).mem1.memAddr.index way = true)
    (hno : ¬ (s.step i).Filled (s.step i).mem1.memAddr.index way) :
    (s.step i).infoRsp.tags way =
      ((s.step i).infoRAM (s.step i).mem1.memAddr.index).tags way := by
  obtain ⟨hold, hcommit⟩ := valid_before hvalid hno
  rw [h.tags_step hc hold hcommit]
  cases hs1 : s.stuck1 i with
  | false =>
    rw [mem1_advance hs1]
    simp only [stuck1, Bool.or_eq_false_iff] at hs1
    simp [step, readEnable, readAddr, stuck1, hs1]
  | true =>
    rw [mem1_stuck hs1] at hold hno ⊢
    cases hr : s.doRefetch i with
    | true => simp [step, readEnable, readAddr, hr]
    | false =>
      have hs : s.stuck2 i = true := by simpa [stuck1, hr] using hs1
      have hkeep : (s.step i).infoRsp = s.infoRsp := by simp [step, readEnable, hs1, hr]
      rw [hkeep]
      exact h.tags1 way hold fun hfilled => hno (hfilled.step hs)

theorem tags2_step (h : s.Sampled) (hc : s.Control) (hactive : (s.step i).active = true)
    (way : Fin 2) (hvalid : (s.step i).valids (s.step i).addr2.index way = true)
    (hno : ¬ (s.step i).Filled (s.step i).addr2.index way) :
    (s.step i).info.tags way = ((s.step i).infoRAM (s.step i).addr2.index).tags way := by
  obtain ⟨hold, hcommit⟩ := valid_before hvalid hno
  rw [h.tags_step hc hold hcommit]
  cases hs : s.stuck2 i with
  | true =>
    have hheld := held_step hs
    rw [hheld.addr2] at hold hno ⊢
    rw [hheld.info]
    exact h.tags2 (hheld.active ▸ hactive) way hold fun hfilled => hno (hfilled.step hs)
  | false =>
    cases hr : s.doRefetch i with
    | true =>
      rw [active_refetch hr] at hactive
      cases hactive
    | false =>
      rw [addr2_advance hs hr] at hold ⊢
      have hinfo : (s.step i).info = s.infoRsp := by simp [step, hs]
      rw [hinfo]
      exact h.tags1 way hold (not_filled_of_advance hs hr _ _)

theorem tagMatches_step (h : s.Sampled) (hactive : (s.step i).active = true) (way : Fin 2) :
    (s.step i).tagMatches way = ((s.step i).info.tags way == (s.step i).addr2.tag) := by
  cases hs : s.stuck2 i with
  | true =>
    have hheld := held_step hs
    rw [hheld.tagMatches, hheld.info, hheld.addr2]
    exact h.tagMatches (hheld.active ▸ hactive) way
  | false =>
    cases hr : s.doRefetch i with
    | true =>
      rw [active_refetch hr] at hactive
      cases hactive
    | false =>
      rw [addr2_advance hs hr]
      simp [step, hs]

theorem valids2_step (h : s.Sampled) (hactive : (s.step i).active = true) (way : Fin 2)
    (hvalid : (s.step i).valids (s.step i).addr2.index way = true)
    (hno : ¬ (s.step i).Filled (s.step i).addr2.index way) :
    (s.step i).setValids way = true := by
  obtain ⟨hold, -⟩ := valid_before hvalid hno
  cases hs : s.stuck2 i with
  | true =>
    have hheld := held_step hs
    rw [hheld.addr2] at hold hno
    rw [hheld.setValids]
    exact h.valids (hheld.active ▸ hactive) way hold fun hfilled => hno (hfilled.step hs)
  | false =>
    cases hr : s.doRefetch i with
    | true =>
      rw [active_refetch hr] at hactive
      cases hactive
    | false =>
      rw [addr2_advance hs hr] at hold
      simp [step, hs, hold]

theorem dirty_step (h : s.Sampled) (hactive : (s.step i).active = true) (way : Fin 2)
    (hno : ¬ (s.step i).Filled (s.step i).addr2.index way) :
    (s.step i).setDirty way = (s.step i).dirtyBits (s.step i).addr2.index way := by
  cases hs : s.stuck2 i with
  | true =>
    have hheld := held_step hs
    rw [hheld.addr2] at hno ⊢
    rw [hheld.setDirty]
    have hold := h.dirty (hheld.active ▸ hactive) way fun hfilled => hno (hfilled.step hs)
    rw [hold]
    -- while MEM2 is held only the end of a refill writes a dirty bit
    have hstd : s.stdCommit i = false := by simp [stdCommit, hitCommit, hs]
    by_cases hcommit : s.refill.state = .commit
    · have hway : way ≠ s.replaceWay := by
        rintro rfl
        exact hno (Committing.filled ⟨hcommit, rfl, rfl⟩)
      simp [step, nextDirtyBits, dirtyWrite, hcommit, hway]
    · simp [step, nextDirtyBits, dirtyWrite, hcommit, hstd]
  | false =>
    cases hr : s.doRefetch i with
    | true =>
      rw [active_refetch hr] at hactive
      cases hactive
    | false =>
      rw [addr2_advance hs hr]
      simp only [step, nextDirtyBits, hs]
      rfl

theorem step (h : s.Sampled) (hc : s.Control) : (s.step i).Sampled where
  tags1 := h.tags1_step hc
  tags2 := h.tags2_step hc
  tagMatches := h.tagMatches_step
  valids := h.valids2_step
  dirty := h.dirty_step

end Sampled

end MemPipeline

end NopCore
