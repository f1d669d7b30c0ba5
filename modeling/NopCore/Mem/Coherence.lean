import NopCore.Mem.Writeback

/-!
# Coherence of the data cache

A line is in a way of the cache, or on its way to memory, or in memory. The trace
keeps the memory at reset and the stores that have taken effect since, in order:
a cached store when it writes the cache, with a hit or at the end of a refill, an
uncached store when its write has been sent. The word at an address is the word
at reset with these stores performed on it.

The invariant is about one line. A way that holds it holds these words, unless a
refill is replacing the way; memory has them unless a dirty way owes them or they
are being written back; and what is being written back, or has come in with a
refill, is these words. So every line may be looked at on its own, and the only
assumptions are that no StoreTag operation acts on a valid line, and that the line is
not fetched while an uncached store to it is still to be sent.
-/

namespace NopCore

namespace MemPipeline

variable {s : MemPipeline} {i : Inputs}

/-! ## Ways and tags -/

theorem hit_of_hits {way : Fin 2} (h : s.hits way = true) : s.hit = true := by
  rw [hit, Bool.or_eq_true]
  obtain rfl | rfl : way = 0 ∨ way = 1 := by omega
  · exact .inl h
  · exact .inr h

theorem hits_hitWay (h : s.hit = true) : s.hits s.hitWay = true := by
  rw [hit, Bool.or_eq_true] at h
  rw [hitWay]
  split_ifs with h1
  · exact h1
  · exact h.resolve_right h1

/-- A way that the running cache operation has been through. -/
def Processed (s : MemPipeline) (way : Fin 2) : Prop :=
  s.cacheFSM.state ≠ .stateBoot ∧ (s.cacheFSM.finishAllWay = true ∨ way < s.cacheFSM.wayCounter)

/-- Tags are unique, and MEM2 believes no way to be valid that is not, unless it
has invalidated it itself. A way that has just been filled has the tag asked for. -/
structure Exact (s : MemPipeline) : Prop where
  unique : ∀ set way way', s.valids set way = true → s.valids set way' = true →
    (s.infoRAM set).tags way = (s.infoRAM set).tags way' → way = way'
  valids : s.active = true → ∀ way, s.setValids way = true → ¬ s.Processed way →
    s.valids s.addr2.index way = true
  sampled : s.active = true → ∀ way way', s.setValids way = true → s.setValids way' = true →
    s.info.tags way = s.info.tags way' → way = way'
  filled : s.refill.state = .finish →
    (s.infoRAM s.addr2.index).tags s.replaceWay = s.addr2.tag
  passing : s.cacheFSM.state = .writebackWay → s.cacheFSM.finishAllWay = false

/-- A valid way that MEM2 missed has another tag. -/
theorem tag_ne_of_miss (hsample : s.Sampled) (hreq : s.reqValid = true) (hmiss : s.hit = false)
    {way : Fin 2} (hvalid : s.valids s.addr2.index way = true)
    (hno : ¬ s.Filled s.addr2.index way) :
    (s.infoRAM s.addr2.index).tags way ≠ s.addr2.tag := by
  have hactive := active_of_reqValid hreq
  rw [← hsample.tags2 hactive way hvalid hno]
  intro htag
  have hhits : s.hits way = true := by
    simp [hits, hsample.valids hactive way hvalid hno, hsample.tagMatches hactive, htag]
  rw [hit_of_hits hhits] at hmiss
  cases hmiss

/-- A way that MEM2 believes to be valid has another tag after a miss. -/
theorem info_ne_of_miss (hsample : s.Sampled) (hreq : s.reqValid = true) (hmiss : s.hit = false)
    {way : Fin 2} (hset : s.setValids way = true) : s.info.tags way ≠ s.addr2.tag := by
  intro htag
  have hhits : s.hits way = true := by
    simp [hits, hset, hsample.tagMatches (active_of_reqValid hreq), htag]
  rw [hit_of_hits hhits] at hmiss
  cases hmiss

theorem Processed.step (hs : s.stuck2 i = true) {way : Fin 2} (h : s.Processed way) :
    (s.step i).Processed way := by
  obtain ⟨hboot, hdone⟩ := h
  simp only [Processed, MemPipeline.step, nextCacheFSM]
  cases hstate : s.cacheFSM.state with
  | stateBoot => exact absurd hstate hboot
  | checkWay => simp only; split_ifs <;> simp_all
  | writebackWay =>
    simp only
    split_ifs
    · refine ⟨by simp, ?_⟩
      obtain hall | hlt := hdone
      · exact .inl (by simp [hall])
      · refine .inl ?_
        have hlast : s.cacheFSM.wayCounter = 1 := by omega
        simp [hlast]
    · exact ⟨by simp [hstate], hdone⟩

/-- A way that is invalidated while MEM2 is held has been processed. -/
theorem Processed.of_clear (hs : s.stuck2 i = true) {way : Fin 2}
    (hclear : s.clearWay i = some way) : (s.step i).Processed way := by
  simp only [clearWay, hs] at hclear
  split_ifs at hclear with hfix hop
  · simp at hfix
  · obtain rfl := Option.some.inj hclear
    simp only [Processed, MemPipeline.step, nextCacheFSM, hop, if_true]
    refine ⟨by simp, ?_⟩
    obtain hway | hway : s.cacheFSM.wayCounter = 0 ∨ s.cacheFSM.wayCounter = 1 := by omega
    · exact .inr (by simp [hway])
    · exact .inl (by simp [hway])

theorem clearWay_advance (hs : s.stuck2 i = false) (hr : s.doRefetch i = false) :
    s.clearWay i = none := by
  have hop := (givesWay hs).cacheFSM
  have hfix : s.fixUncache ≠ .waitWriteback := by
    intro hfix
    simp [doRefetch, hs, hfix] at hr
  simp [clearWay, hop, hfix]

/-- No StoreTag operation acts on a valid line. -/
def KeepsTags (s : MemPipeline) : Prop := ∀ set way, s.valids set way = true → s.storeTag = false

theorem keepsTags (h : s.storeTag = false) : s.KeepsTags := fun _ _ _ => h

theorem valids_kept {set : BitVec 6} {way : Fin 2} (htag : s.KeepsTags)
    (hvalid : s.valids set way = true)
    (hclear : set = s.addr2.index → s.clearWay i ≠ some way) :
    (s.step i).valids set way = true := by
  have hkeep : ¬ (set = s.addr2.index ∧ s.clearWay i = some way) := fun hc => hclear hc.1 hc.2
  simp [step, nextValids, htag set way hvalid, hkeep, hvalid]

namespace Exact

theorem of_init (h : s.Init) : s.Exact := by
  have hidle : s.active = false := by simp [active, h.validOnEntry, h.mem2.2]
  constructor
  · intro set way way' hvalid
    rw [h.valids] at hvalid
    cases hvalid
  · intro hactive
    rw [hidle] at hactive
    cases hactive
  · intro hactive
    rw [hidle] at hactive
    cases hactive
  · simp [h.refill.1]
  · simp [h.cacheFSM]

/-- The way that is filled gets a tag that no other way has. -/
theorem filled_ne (hsample : s.Sampled) (hc : s.Control) {set : BitVec 6} {way way' : Fin 2}
    (hcommit : s.Committing set way) (hvalid : s.valids set way' = true)
    (hother : ¬ s.Committing set way') :
    ((s.step i).infoRAM set).tags way ≠ ((s.step i).infoRAM set).tags way' := by
  rw [hsample.tags_step hc hvalid hother]
  obtain ⟨hstate, rfl, rfl⟩ := hcommit
  obtain ⟨hreq, hmiss⟩ := hc.refill (by simp [refilling, hstate])
  have hnew : ((s.step i).infoRAM s.addr2.index).tags s.replaceWay = s.addr2.tag := by
    simp [step, infoWrite, hstate]
  rw [hnew]
  refine (tag_ne_of_miss hsample hreq hmiss hvalid ?_).symm
  rintro ⟨hfinish, -⟩
  rw [hstate] at hfinish
  cases hfinish

theorem unique_step (h : s.Exact) (hsample : s.Sampled) (hc : s.Control) {set : BitVec 6}
    {way way' : Fin 2} (hvalid : (s.step i).valids set way = true)
    (hvalid' : (s.step i).valids set way' = true)
    (htags : ((s.step i).infoRAM set).tags way = ((s.step i).infoRAM set).tags way') :
    way = way' := by
  by_cases hcommit : s.Committing set way
  · by_cases hcommit' : s.Committing set way'
    · rw [hcommit.2.2, hcommit'.2.2]
    · exact absurd htags
        (filled_ne hsample hc hcommit ((valids_step hvalid').resolve_right hcommit') hcommit')
  · have hold := (valids_step hvalid).resolve_right hcommit
    by_cases hcommit' : s.Committing set way'
    · exact absurd htags.symm (filled_ne hsample hc hcommit' hold hcommit)
    · have hold' := (valids_step hvalid').resolve_right hcommit'
      rw [hsample.tags_step hc hold hcommit, hsample.tags_step hc hold' hcommit'] at htags
      exact h.unique set way way' hold hold' htags

theorem valids_step' (h : s.Exact) (htag : s.KeepsTags)
    (hactive : (s.step i).active = true) (way : Fin 2) (hset : (s.step i).setValids way = true)
    (hno : ¬ (s.step i).Processed way) :
    (s.step i).valids (s.step i).addr2.index way = true := by
  cases hs : s.stuck2 i with
  | true =>
    have hheld := held_step hs
    rw [hheld.setValids] at hset
    rw [hheld.addr2]
    have hvalid := h.valids (hheld.active ▸ hactive) way hset fun hdone => hno (hdone.step hs)
    exact valids_kept htag hvalid fun _ hclear => hno (.of_clear hs hclear)
  | false =>
    cases hr : s.doRefetch i with
    | true =>
      rw [Sampled.active_refetch hr] at hactive
      cases hactive
    | false =>
      rw [Sampled.addr2_advance hs hr]
      have hvalid : s.valids s.mem1.memAddr.index way = true := by
        simpa [MemPipeline.step, hs] using hset
      refine valids_kept htag hvalid fun _ => ?_
      rw [clearWay_advance hs hr]
      simp

theorem sampled_step (h : s.Exact) (hsample : s.Sampled) (hactive : (s.step i).active = true)
    (way way' : Fin 2) (hset : (s.step i).setValids way = true)
    (hset' : (s.step i).setValids way' = true)
    (htags : (s.step i).info.tags way = (s.step i).info.tags way') : way = way' := by
  cases hs : s.stuck2 i with
  | true =>
    have hheld := held_step hs
    rw [hheld.setValids] at hset hset'
    rw [hheld.info] at htags
    exact h.sampled (hheld.active ▸ hactive) way way' hset hset' htags
  | false =>
    cases hr : s.doRefetch i with
    | true =>
      rw [Sampled.active_refetch hr] at hactive
      cases hactive
    | false =>
      simp only [MemPipeline.step, hs] at hset hset' htags
      have hno := not_filled_of_advance hs hr s.mem1.memAddr.index
      refine h.unique _ way way' hset hset' ?_
      rw [← hsample.tags1 way hset (hno way), ← hsample.tags1 way' hset' (hno way')]
      exact htags

theorem filled_step (h : s.Exact) (hnext : (s.step i).refill.state = .finish) :
    ((s.step i).infoRAM (s.step i).addr2.index).tags (s.step i).replaceWay =
      (s.step i).addr2.tag := by
  obtain hstate | ⟨hstate, hs⟩ := finish_step.mp hnext
  · have hheld := held_step (i := i) (stuck2_of_commit hstate)
    rw [hheld.addr2, hheld.replaceWay]
    simp [MemPipeline.step, infoWrite, hstate]
  · have hheld := held_step hs
    rw [hheld.addr2, hheld.replaceWay, infoRAM_stuck hs (by simp [hstate])]
    exact h.filled hstate

theorem passing_step (h : s.Exact) (hnext : (s.step i).cacheFSM.state = .writebackWay) :
    (s.step i).cacheFSM.finishAllWay = false := by
  have hpassing := h.passing
  simp only [MemPipeline.step, nextCacheFSM] at hnext ⊢
  cases hstate : s.cacheFSM.state <;> simp only [hstate] at hnext ⊢ <;> grind

theorem step (h : s.Exact) (hsample : s.Sampled) (hc : s.Control) (htag : s.KeepsTags) :
    (s.step i).Exact where
  unique _ _ _ := h.unique_step hsample hc
  valids := h.valids_step' htag
  sampled := h.sampled_step hsample
  filled := h.filled_step
  passing := h.passing_step

/-- The way that hits is the one that holds the line. -/
theorem hitWay_unique (h : s.Exact) (hsample : s.Sampled) (hactive : s.active = true)
    {way : Fin 2} (hhits : s.hits way = true) : way = s.hitWay := by
  have htag : ∀ w, s.hits w = true → s.setValids w = true ∧ s.info.tags w = s.addr2.tag := by
    intro w hw
    simp only [hits, Bool.and_eq_true, hsample.tagMatches hactive, beq_iff_eq] at hw
    exact hw
  obtain ⟨hset, htags⟩ := htag way hhits
  obtain ⟨hset', htags'⟩ := htag s.hitWay (hits_hitWay (hit_of_hits hhits))
  exact h.sampled hactive _ _ hset hset' (htags.trans htags'.symm)

end Exact

/-! ## Stores that take effect -/

/-- The stores that take effect in this cycle. -/
def performs (s : MemPipeline) (i : Inputs) : List (Lanes.Write WordAddr (Fin 4) (BitVec 8)) :=
  (if s.refill.state = .commit ∨ s.hitCommit i = true then stdWrites s.mem2.std else []) ++
    (if s.uncachedSent i then [s.uncached.regSTD.write] else [])

/-- The words of a line after this cycle. -/
def imageNext (s : MemPipeline) (i : Inputs) (l : LineAddr) (img : BitVec 4 → BWord) :
    BitVec 4 → BWord :=
  fun k => Lanes.forwardAll (s.performs i) (l.word k) (img k)

/-- The words of the line with the store data of MEM2. -/
def merged (s : MemPipeline) (l : LineAddr) (img : BitVec 4 → BWord) : BitVec 4 → BWord :=
  fun k => Lanes.forwardAll (stdWrites s.mem2.std) (l.word k) (img k)

/-- An uncached store to the line has left MEM2 and is still to be sent. -/
def Unsent (s : MemPipeline) (l : LineAddr) : Prop :=
  s.uncached.state = .waitAXIWriteU ∧ (wordAddr s.uncached.regSTD.addr).line = l

theorem stdWrites_addr {w : Lanes.Write WordAddr (Fin 4) (BitVec 8)}
    (h : w ∈ stdWrites s.mem2.std) : w.addr = s.addr2 := by
  cases hstd : s.mem2.std with
  | none => simp [stdWrites, hstd] at h
  | some std =>
    simp only [stdWrites, hstd, Option.toList_some, List.mem_map, List.mem_filter,
      List.mem_singleton] at h
    obtain ⟨slot, ⟨rfl, -⟩, rfl⟩ := h
    simp [addr2, MemStage.memAddr, hstd, StoreBufferSlot.write]

theorem merged_of_ne {l : LineAddr} (h : s.addr2.line ≠ l) (img : BitVec 4 → BWord) :
    s.merged l img = img := by
  funext k
  refine Lanes.forwardAll_of_ne ?_ _
  intro w hw heq
  rw [stdWrites_addr hw] at heq
  exact h (by rw [heq]; rfl)

theorem uncachedSent_unsent (h : s.uncachedSent i = true) :
    s.Unsent (wordAddr s.uncached.regSTD.addr).line := by
  simp only [uncachedSent, Bool.and_eq_true, beq_iff_eq] at h
  exact ⟨h.1.1, rfl⟩

/-- Without an uncached store to the line, only the store data of MEM2 counts. -/
theorem imageNext_of_not_unsent {l : LineAddr} (h : ¬ s.Unsent l) (img : BitVec 4 → BWord) :
    s.imageNext i l img =
      if s.refill.state = .commit ∨ s.hitCommit i = true then s.merged l img else img := by
  funext k
  have hsent : Lanes.forwardAll (if s.uncachedSent i then [s.uncached.regSTD.write] else [])
      (l.word k) = id := by
    funext x
    cases hsent : s.uncachedSent i with
    | false => rfl
    | true =>
      refine Lanes.forward_of_ne (fun heq => h ?_) x
      have hunsent := uncachedSent_unsent hsent
      have hline : (wordAddr s.uncached.regSTD.addr).line = l := by
        have heq' : wordAddr s.uncached.regSTD.addr = l.word k := heq
        rw [heq']
        rfl
      rwa [hline] at hunsent
  rw [imageNext, performs, Lanes.forwardAll_append, hsent]
  split_ifs <;> rfl

theorem imageNext_quiet {l : LineAddr} (h : ¬ s.Unsent l) (hcommit : s.refill.state ≠ .commit)
    (hhit : s.hitCommit i = false) (img : BitVec 4 → BWord) : s.imageNext i l img = img := by
  rw [imageNext_of_not_unsent h, if_neg]
  rintro (hstate | hhit')
  · exact hcommit hstate
  · rw [hhit] at hhit'
    cases hhit'

theorem imageNext_other {l : LineAddr} (h : ¬ s.Unsent l) (hline : s.addr2.line ≠ l)
    (img : BitVec 4 → BWord) : s.imageNext i l img = img := by
  rw [imageNext_of_not_unsent h, merged_of_ne hline, ite_self]

/-- The word that goes into the line. -/
theorem refillWord_eq {l : LineAddr} (hline : s.addr2.line = l) :
    s.refillWord =
      Lanes.forwardAll (stdWrites s.mem2.std) (l.word s.refill.rspId) s.refill.regBusWord := by
  cases hstd : s.mem2.std with
  | none => simp [refillWord, hstd, stdWrites]
  | some std =>
    have haddr : s.addr2 = wordAddr std.addr := by simp [addr2, MemStage.memAddr, hstd]
    have hSTD : s.isSTD = std.isCachedStore := by simp [isSTD, hstd]
    cases hstore : std.isCachedStore with
    | false => simp [refillWord, hstd, stdWrites, hSTD, hstore]
    | true =>
      simp only [refillWord, hstd, stdWrites, hSTD, hstore, Option.toList_some,
        List.filter_cons_of_pos, List.filter_nil, List.map_cons, List.map_nil,
        Lanes.forwardAll_cons, Lanes.forwardAll_nil, Lanes.forward, true_and]
      refine if_congr ?_ rfl rfl
      rw [← hline, haddr]
      constructor
      · intro h
        rw [h]
        rfl
      · intro h
        exact (congrArg WordAddr.offset h).symm

/-- A store that hits changes its line as the image changes. -/
theorem dataRAMs_hit {l : LineAddr} (hline : s.addr2.line = l) (hhit : s.hitCommit i = true)
    (hrefill : s.refillWrite = false) (k : BitVec 4) :
    (s.step i).dataRAMs s.hitWay l.index k =
      s.merged l (s.dataRAMs s.hitWay l.index) k := by
  subst hline
  cases hstd : s.mem2.std with
  | none => simp [step, nextDataRAMs, hrefill, hstd, merged, stdWrites]
  | some std =>
    have haddr : s.addr2 = wordAddr std.addr := by simp [addr2, MemStage.memAddr, hstd]
    have hSTD : s.isSTD = std.isCachedStore := by simp [isSTD, hstd]
    simp only [step, nextDataRAMs, hrefill, hstd, merged, stdWrites, stdCommit, hhit, hSTD,
      Bool.true_and, Option.toList_some]
    cases hstore : std.isCachedStore with
    | false => simp [hstore]
    | true =>
      simp only [hstore, List.filter_cons_of_pos, List.filter_nil, List.map_cons, List.map_nil,
        Lanes.forwardAll_cons, Lanes.forwardAll_nil, Lanes.forward, true_and, Bool.false_eq_true,
        false_and, if_false, WordAddr.line]
      refine if_congr ?_ rfl rfl
      rw [haddr]
      constructor
      · rintro rfl
        rfl
      · intro h
        exact (congrArg WordAddr.offset h).symm

/-- Other lines are not touched. -/
theorem dataRAMs_other {set : BitVec 6} {way : Fin 2}
    (hrefill : ¬ (s.refillWrite = true ∧ way = s.replaceWay ∧ set = s.addr2.index))
    (hhit : ¬ (s.hitCommit i = true ∧ way = s.hitWay ∧ set = s.addr2.index)) :
    (s.step i).dataRAMs way set = s.dataRAMs way set := by
  funext k
  have hno : ¬ (s.refillWrite = true ∧ way = s.replaceWay ∧ set = s.addr2.index ∧
      k = s.refill.rspId) := fun h => hrefill ⟨h.1, h.2.1, h.2.2.1⟩
  have hno' : ¬ (s.stdCommit i = true ∧ way = s.hitWay ∧ set = s.addr2.index ∧
      k = s.addr2.offset) := fun h =>
    hhit ⟨(Bool.and_eq_true_iff.mp h.1).1, h.2.1, h.2.2.1⟩
  simp only [step, nextDataRAMs, if_neg hno]
  cases s.mem2.std <;> simp [hno']

/-! ## The invariant of a line -/

/-- A way holds the line. -/
def HoldsLine (s : MemPipeline) (l : LineAddr) (way : Fin 2) : Prop :=
  s.valids l.index way = true ∧ (s.infoRAM l.index).tags way = l.tag

/-- A way holds one line. -/
theorem HoldsLine.line_eq {l l' : LineAddr} {way : Fin 2} (h : s.HoldsLine l way)
    (h' : s.HoldsLine l' way) (hindex : l.index = l'.index) : l = l' := by
  cases l
  cases l'
  cases hindex
  rw [LineAddr.mk.injEq]
  exact ⟨h.2.symm.trans h'.2, rfl⟩

/-- A refill is replacing the way. -/
def Replaced (s : MemPipeline) (set : BitVec 6) (way : Fin 2) : Prop :=
  (s.refill.state = .waitAXI ∨ s.refill.state = .readMem ∨ s.refill.state = .commit) ∧
    set = s.addr2.index ∧ way = s.replaceWay

/-- The way is about to be invalidated and needs no further write-back. -/
def Cleaned (s : MemPipeline) (set : BitVec 6) (way : Fin 2) : Prop :=
  s.writeback.state = .stateBoot ∧ s.Clearing way ∧ set = s.addr2.index

/-- A dirty way owes the line to memory. -/
def Owed (s : MemPipeline) (l : LineAddr) : Prop :=
  ∃ way, s.HoldsLine l way ∧ s.dirtyBits l.index way = true ∧ ¬ s.Replaced l.index way ∧
    ¬ s.Cleaned l.index way

/-- The line is being written back. -/
def Leaving (s : MemPipeline) (l : LineAddr) : Prop :=
  s.writeback.state ≠ .stateBoot ∧ s.wbLine = l

/-- The refill of the line has come as far as the counters say. -/
structure Filling (s : MemPipeline) (l : LineAddr) (img : BitVec 4 → BWord) : Prop where
  arLine : s.memory.arLine = l
  count : s.refill.rspId.toNat + (if s.refill.refillValid then 1 else 0) = s.memory.rCount
  more : s.refill.state = .readMem → s.memory.rCount < 16
  full : s.refill.state = .commit → s.memory.rCount = 16
  words : ∀ k : BitVec 4, k.toNat < s.refill.rspId.toNat →
    s.dataRAMs s.replaceWay l.index k = s.merged l img k
  last : s.refill.refillValid = true → s.refill.regBusWord = img s.refill.rspId
  stored : s.addr2.offset.toNat < s.refill.rspId.toNat →
    s.refill.storedWord = s.merged l img s.addr2.offset

/-- Cache, bus and memory have the line with these words. -/
structure Coherent (s : MemPipeline) (l : LineAddr) (img : BitVec 4 → BWord) : Prop where
  intact : ∀ way, s.HoldsLine l way → ¬ s.Replaced l.index way → s.dataRAMs way l.index = img
  settled : ¬ s.Owed l → ¬ s.Leaving l → ∀ k, s.memory.content (l.word k) = img k
  carried : s.Leaving l → s.Carries img fun k => s.memory.content (l.word k)
  filling : s.refill.state = .readMem ∨ s.refill.state = .commit → s.addr2.line = l →
    s.Filling l img
  finished : s.refill.state = .finish → s.addr2.line = l →
    s.refill.storedWord = img s.addr2.offset
  unsent : s.Unsent l → (∀ way, ¬ s.HoldsLine l way) ∧ ¬ s.Leaving l ∧
    (s.refilling = true → s.addr2.line ≠ l)

/-! ## One clock edge -/

/-- The control of the pipeline, and what MEM2 knows of the cache. -/
structure Sound (s : MemPipeline) : Prop where
  control : s.Control
  sampled : s.Sampled
  counters : s.Counters
  exact : s.Exact

namespace Sound

theorem of_init (h : s.Init) : s.Sound := ⟨.of_init h, .of_init h, .of_init h, .of_init h⟩

theorem step (h : s.Sound) (hlegal : s.Legal i) (htag : s.KeepsTags) : (s.step i).Sound :=
  ⟨h.control.step hlegal, h.sampled.step h.control, h.counters.step h.control,
    h.exact.step h.sampled h.control htag⟩

variable (b : s.Sound)
include b

/-- A hit is in the way that holds the line. -/
theorem holds_hitWay (hreq : s.reqValid = true) (hhit : s.hit = true) :
    s.HoldsLine s.addr2.line s.hitWay := by
  have hactive := active_of_reqValid hreq
  have hhits := hits_hitWay hhit
  simp only [hits, Bool.and_eq_true, b.sampled.tagMatches hactive, beq_iff_eq] at hhits
  have hvalid : s.valids s.addr2.index s.hitWay = true := by
    refine b.exact.valids hactive _ hhits.1 fun hdone => hdone.1 ?_
    exact (b.control.cacheFSM_of_reqValid hreq).1
  have htag := b.sampled.tags2 hactive _ hvalid
    (not_filled_of_not_refilling (b.control.not_refilling hhit) _ _)
  exact ⟨hvalid, htag.symm.trans hhits.2⟩

/-- The line that is being refilled is nowhere in the cache. -/
theorem ne_of_refilling (hrefill : s.refilling = true) {l : LineAddr} {way : Fin 2}
    (hholds : s.HoldsLine l way) (hno : ¬ s.Filled l.index way) : s.addr2.line ≠ l := by
  rintro rfl
  obtain ⟨hreq, hmiss⟩ := b.control.refill hrefill
  exact tag_ne_of_miss b.sampled hreq hmiss hholds.1 hno hholds.2

/-- It is not written back either. -/
theorem ne_of_leaving (hrefill : s.refilling = true) {l : LineAddr} (hleaving : s.Leaving l) :
    s.addr2.line ≠ l := by
  rintro rfl
  obtain ⟨hreq, hmiss⟩ := b.control.refill hrefill
  refine info_ne_of_miss b.sampled hreq hmiss (b.control.dirty hleaving.1).1 ?_
  exact congrArg LineAddr.tag hleaving.2

/-- A write-back starts with a line that the cache holds. -/
theorem holds_started (hidle : s.writeback.state = .stateBoot)
    (hbusy : (s.step i).writeback.state ≠ .stateBoot) :
    s.HoldsLine (s.step i).wbLine (s.step i).writeback.wayIdx := by
  have hs := stuck2_of_started hidle hbusy
  have hheld := held_step hs
  have hset := (b.control.writing_step hs hbusy).2.1
  have hactive : s.active = true := by
    obtain ⟨hmiss, -⟩ | hbegins := started_way hidle hbusy
    · simp only [miss, Bool.and_eq_true] at hmiss
      exact active_of_reqValid hmiss.1.2
    · exact active_of_begins b.control hbegins
  have hnot : ¬ s.Processed (s.step i).writeback.wayIdx := by
    rintro ⟨hop, hdone⟩
    obtain ⟨hmiss, -⟩ | ⟨hfix, -⟩ | ⟨hcheck, hway⟩ := started_way hidle hbusy
    · simp only [miss, Bool.and_eq_true] at hmiss
      exact hop (b.control.cacheFSM_of_reqValid hmiss.1.2).1
    · obtain ⟨hvalid, hcache⟩ := b.control.cacheOp hop
      have hstd := b.control.std_cacheOp hvalid hcache
      simp [startFix, isLDU, isSTU, hstd] at hfix
    · simp only [checking, Bool.and_eq_true, Bool.not_eq_true'] at hcheck
      rw [hway, hcheck.2] at hdone
      simp at hdone
  have hvalid := b.exact.valids hactive _ hset hnot
  have hno := not_filled_of_not_refilling (not_refilling_of_started b.control hidle hbusy)
    s.addr2.index (s.step i).writeback.wayIdx
  rw [wbLine, hheld.info, hheld.addr2]
  exact ⟨hvalid, (b.sampled.tags2 hactive _ hvalid hno).symm⟩

end Sound

theorem Replaced.refilling {set : BitVec 6} {way : Fin 2} (h : s.Replaced set way) :
    s.refilling = true := by
  obtain ⟨hstate | hstate | hstate, -⟩ := h <;> simp [MemPipeline.refilling, hstate]

theorem stuck2_of_replaced {set : BitVec 6} {way : Fin 2} (h : s.Replaced set way) :
    s.stuck2 i = true := by
  obtain ⟨hstate | hstate | hstate, -⟩ := h <;> simp [stuck2, hstate]

theorem Replaced.step {set : BitVec 6} {way : Fin 2} (h : s.Replaced set way)
    (hno : s.refill.state ≠ .commit) : (s.step i).Replaced set way := by
  have hheld := held_step (i := i) (stuck2_of_replaced h)
  refine ⟨?_, by rw [hheld.addr2]; exact h.2.1, by rw [hheld.replaceWay]; exact h.2.2⟩
  obtain ⟨hstate | hstate | hstate, -⟩ := h
  · simp only [MemPipeline.step, nextRefill, hstate]
    split_ifs <;> simp
  · simp only [MemPipeline.step, nextRefill, hstate]
    split_ifs <;> simp
  · exact absurd hstate hno

theorem refillWrite_cases (h : s.refillWrite = true) :
    s.refill.state = .readMem ∨ s.refill.state = .commit := by
  simp only [refillWrite, Bool.or_eq_true, Bool.and_eq_true, beq_iff_eq] at h
  exact h.imp And.left id

theorem not_refillWrite_of_hit (h : s.hitCommit i = true) : s.refillWrite = false := by
  by_contra hwrite
  have hs := (hitCommit_iff.mp h).2.1
  obtain hstate | hstate := refillWrite_cases (Bool.of_not_eq_false hwrite) <;>
    simp [stuck2, hstate] at hs

/-! ### The words of a refill -/

namespace Filling

variable {l : LineAddr} {img : BitVec 4 → BWord}

/-- A refill whose address is accepted has brought no word. -/
theorem start (hstate : s.refill.state = .waitAXI) (hready : i.arReady = true)
    (hline : s.addr2.line = l) : (s.step i).Filling l img := by
  have hfire : s.rFire i = false := by simp [rFire, rReady, hstate]
  refine ⟨?_, ?_, fun _ => ?_, ?_, ?_, ?_, ?_⟩
  · simp [MemPipeline.step, nextMemory, hstate, hready, hline]
  · simp [MemPipeline.step, nextMemory, nextRefill, hstate, hready, hfire]
  · simp [MemPipeline.step, nextMemory, hstate, hready]
  · rw [commit_step, hfire]
    simp
  · simp [MemPipeline.step, nextRefill, hstate, hready]
  · rw [refillValid_step, hfire]
    simp
  · simp [MemPipeline.step, nextRefill, hstate, hready]

/-- The words that have come are in the way, but for one that is just being written. -/
theorem arrived (h : s.Filling l img) {k : BitVec 4} (hk : k.toNat < s.memory.rCount) :
    (s.refill.refillValid = true ∧ k = s.refill.rspId) ∨ k.toNat < s.refill.rspId.toNat := by
  have hcount := h.count
  cases hvalid : s.refill.refillValid with
  | false =>
    rw [hvalid] at hcount
    simp only [Bool.false_eq_true, if_false] at hcount
    exact .inr (by omega)
  | true =>
    rw [hvalid] at hcount
    simp only [if_true] at hcount
    by_cases heq : k = s.refill.rspId
    · exact .inl ⟨rfl, heq⟩
    · have hne : k.toNat ≠ s.refill.rspId.toNat := fun hnat => heq (BitVec.eq_of_toNat_eq hnat)
      exact .inr (by omega)

theorem refillWord_eq (h : s.Filling l img) (hline : s.addr2.line = l)
    (hvalid : s.refill.refillValid = true) : s.refillWord = s.merged l img s.refill.rspId := by
  rw [MemPipeline.refillWord_eq hline, h.last hvalid, merged]

section Beat

variable (h : s.Filling l img) (hstate : s.refill.state = .readMem)

include h hstate

/-- The place of the next word counts the words that have come. -/
theorem rspId_step : (s.step i).refill.rspId.toNat = s.memory.rCount := by
  have hmore := h.more hstate
  have hcount := h.count
  have hrspId : (s.step i).refill.rspId =
      if s.refill.refillValid then s.refill.rspId + 1 else s.refill.rspId := by
    simp [MemPipeline.step, nextRefill, hstate]
  rw [hrspId]
  split_ifs with hvalid
  · rw [hvalid] at hcount
    simp only [if_true] at hcount
    rw [BitVec.toNat_add]
    simp
    omega
  · simpa [hvalid] using hcount

omit h in
theorem rCount_step : (s.step i).memory.rCount =
    s.memory.rCount + (if s.rFire i then 1 else 0) := by
  simp only [MemPipeline.step, nextMemory, hstate]
  cases s.rFire i <;> simp

theorem more_step (hstay : (s.step i).refill.state = .readMem) :
    (s.step i).memory.rCount < 16 := by
  have hmore := h.more hstate
  rw [rCount_step hstate]
  cases hfire : s.rFire i with
  | false => simpa using hmore
  | true =>
    have hlast : s.memory.rCount ≠ 15 := by
      intro hlast
      have hdone : (s.step i).refill.state = .commit :=
        commit_step.mpr ⟨hfire, by simp [rLast, hlast]⟩
      rw [hdone] at hstay
      cases hstay
    simp only [if_true]
    omega

omit h in
theorem full_step (hdone : (s.step i).refill.state = .commit) :
    (s.step i).memory.rCount = 16 := by
  obtain ⟨hfire, hlast⟩ := commit_step.mp hdone
  have hlast' : s.memory.rCount = 15 := by simpa [rLast] using hlast
  rw [rCount_step hstate, hfire, hlast']
  rfl

variable (hline : s.addr2.line = l)

include hline

omit h in
/-- A word that has come is written to its place. -/
theorem dataRAMs_beat (k : BitVec 4) : (s.step i).dataRAMs s.replaceWay l.index k =
    if s.refill.refillValid = true ∧ k = s.refill.rspId then s.refillWord
    else s.dataRAMs s.replaceWay l.index k := by
  have hs : s.stuck2 i = true := by simp [stuck2, hstate]
  have hindex : l.index = s.addr2.index := by rw [← hline]; rfl
  have hstd := stdCommit_of_stuck hs
  simp only [MemPipeline.step, nextDataRAMs, refillWrite, hstate, hindex, hstd]
  cases s.mem2.std <;> simp

/-- Every cycle keeps account of the words that have come. -/
theorem step (hmem : ∀ k, s.memory.content (l.word k) = img k) : (s.step i).Filling l img := by
  have hs : s.stuck2 i = true := by simp [stuck2, hstate]
  have hheld := held_step hs
  have hrspId := h.rspId_step (i := i) hstate
  have hmerged : (s.step i).merged l = s.merged l := by
    funext img' k
    rw [merged, hheld.std, merged]
  refine ⟨?_, ?_, h.more_step hstate, full_step hstate, ?_, ?_, ?_⟩
  · have harLine : (s.step i).memory.arLine = s.memory.arLine := by
      simp [MemPipeline.step, nextMemory, hstate]
    rw [harLine, h.arLine]
  · rw [hrspId, rCount_step hstate, refillValid_step]
  · intro k hk
    rw [hrspId] at hk
    rw [hheld.replaceWay, dataRAMs_beat hstate hline, hmerged]
    obtain ⟨hvalid, rfl⟩ | hlt := h.arrived hk
    · rw [if_pos ⟨hvalid, rfl⟩, h.refillWord_eq hline hvalid]
    · rw [if_neg, h.words k hlt]
      rintro ⟨-, rfl⟩
      omega
  · intro _
    have hbus : (s.step i).refill.regBusWord =
        s.memory.content (s.memory.arLine.word (BitVec.ofNat 4 s.memory.rCount)) := by
      simp [MemPipeline.step, nextRefill, hstate]
    rw [hbus, h.arLine, hmem, ← hrspId, BitVec.ofNat_toNat, BitVec.setWidth_eq]
  · intro hk
    rw [hrspId, hheld.addr2] at hk
    have hstored : (s.step i).refill.storedWord =
        if s.refill.refillValid = true ∧ s.refill.rspId = s.addr2.offset then s.refillWord
        else s.refill.storedWord := by
      simp [MemPipeline.step, nextRefill, hstate]
    rw [hstored, hheld.addr2, hmerged]
    obtain ⟨hvalid, heq⟩ | hlt := h.arrived hk
    · rw [if_pos ⟨hvalid, heq.symm⟩, h.refillWord_eq hline hvalid, heq]
    · rw [if_neg, h.stored hlt]
      rintro ⟨-, heq⟩
      rw [heq] at hlt
      omega

end Beat

end Filling

namespace Coherent

variable {l : LineAddr} {img : BitVec 4 → BWord}

theorem not_unsent (h : s.Coherent l img) {way : Fin 2} (hholds : s.HoldsLine l way) :
    ¬ s.Unsent l := fun hunsent => (h.unsent hunsent).1 way hholds

/-- Before the clock edge the way has held the line, unless it has just been
filled. -/
theorem holds_before (b : s.Sound) {way : Fin 2} (hholds : (s.step i).HoldsLine l way)
    (hno : ¬ s.Committing l.index way) : s.HoldsLine l way := by
  have hvalid := (valids_step hholds.1).resolve_right hno
  refine ⟨hvalid, ?_⟩
  rw [← b.sampled.tags_step b.control hvalid hno]
  exact hholds.2

/-- The line that has just been filled is the one asked for. -/
theorem line_committed {way : Fin 2} (hholds : (s.step i).HoldsLine l way)
    (hcommit : s.Committing l.index way) : s.addr2.line = l := by
  have htag := hholds.2
  obtain ⟨hstate, hset, rfl⟩ := hcommit
  have hnew : ((s.step i).infoRAM l.index).tags s.replaceWay = s.addr2.tag := by
    simp [step, infoWrite, hset, hstate]
  rw [hnew] at htag
  rw [WordAddr.line, ← hset, htag]

theorem intact_step (h : s.Coherent l img) (b : s.Sound) {way : Fin 2}
    (hholds : (s.step i).HoldsLine l way) (hnot : ¬ (s.step i).Replaced l.index way) :
    (s.step i).dataRAMs way l.index = s.imageNext i l img := by
  by_cases hcommit : s.Committing l.index way
  · have hline := line_committed hholds hcommit
    obtain ⟨hstate, hset, rfl⟩ := hcommit
    have hfill := h.filling (.inr hstate) hline
    have hunsent : ¬ s.Unsent l := fun hunsent =>
      (h.unsent hunsent).2.2 (by simp [refilling, hstate]) hline
    have hvalid := b.counters.commit hstate
    have hcount := hfill.count
    rw [hfill.full hstate, hvalid] at hcount
    rw [imageNext_of_not_unsent hunsent, if_pos (.inl hstate)]
    funext k
    have hram : (s.step i).dataRAMs s.replaceWay l.index k =
        if k = s.refill.rspId then s.refillWord else s.dataRAMs s.replaceWay l.index k := by
      have hstd := stdCommit_of_stuck (stuck2_of_commit (i := i) hstate)
      simp only [step, nextDataRAMs, refillWrite, hstate, hset, hstd]
      cases s.mem2.std <;> simp
    rw [hram]
    split_ifs with hk
    · rw [refillWord_eq hline, hfill.last hvalid, hk, merged]
    · refine hfill.words k ?_
      have hne : k.toNat ≠ s.refill.rspId.toNat := fun heq => hk (BitVec.eq_of_toNat_eq heq)
      have hlt := k.isLt
      simp at hcount
      omega
  · have hold := holds_before b hholds hcommit
    have hunsent := h.not_unsent hold
    have hnow : ¬ s.Replaced l.index way := by
      intro hrep
      exact hnot (hrep.step fun hstate => hcommit ⟨hstate, hrep.2⟩)
    have hram := h.intact way hold hnow
    by_cases hhit : s.hitCommit i = true ∧ s.addr2.line = l
    · obtain ⟨hhit, hline⟩ := hhit
      obtain ⟨hreq, -, hmatch⟩ := hitCommit_iff.mp hhit
      have hway : way = s.hitWay := by
        have hhw := b.holds_hitWay hreq hmatch
        rw [hline] at hhw
        exact b.exact.unique l.index way s.hitWay hold.1 hhw.1 (hold.2.trans hhw.2.symm)
      subst hway
      rw [imageNext_of_not_unsent hunsent, if_pos (.inr hhit), ← hram]
      funext k
      exact dataRAMs_hit hline hhit (not_refillWrite_of_hit hhit) k
    · rw [dataRAMs_other, hram]
      · by_cases hline : s.addr2.line = l
        · have hnohit : s.hitCommit i = false := by
            by_contra hyes
            exact hhit ⟨Bool.of_not_eq_false hyes, hline⟩
          refine (imageNext_quiet hunsent ?_ hnohit img).symm
          intro hstate
          refine b.ne_of_refilling (by simp [refilling, hstate]) hold ?_ hline
          rintro ⟨hfinish, -⟩
          rw [hstate] at hfinish
          cases hfinish
        · exact (imageNext_other hunsent hline img).symm
      · rintro ⟨hwrite, hway, hset⟩
        exact hnow ⟨.inr (refillWrite_cases hwrite), hset, hway⟩
      · rintro ⟨hyes, rfl, hset⟩
        obtain ⟨hreq, -, hmatch⟩ := hitCommit_iff.mp hyes
        exact hhit ⟨hyes, (b.holds_hitWay hreq hmatch).line_eq hold hset.symm⟩

/-! ### Memory -/

/-- What a word of memory becomes. -/
theorem content_step (a : WordAddr) :
    (s.step i).memory.content a =
      Lanes.forwardAll (if s.uncachedSent i then [s.uncached.regSTD.write] else []) a
        (if s.wFire i = true ∧ a = s.memory.awLine.word (BitVec.ofNat 4 s.memory.wCount) then
          s.writeback.dirtyLine s.writeback.rspId
        else s.memory.content a) := by
  have hwritten : (if s.wFire i then
      Function.update s.memory.content (s.memory.awLine.word (BitVec.ofNat 4 s.memory.wCount))
        (s.writeback.dirtyLine s.writeback.rspId) else s.memory.content) a =
      if s.wFire i = true ∧ a = s.memory.awLine.word (BitVec.ofNat 4 s.memory.wCount) then
        s.writeback.dirtyLine s.writeback.rspId else s.memory.content a := by
    cases s.wFire i with
    | false => simp
    | true =>
      by_cases ha : a = s.memory.awLine.word (BitVec.ofNat 4 s.memory.wCount) <;> simp [ha]
  simp only [step, nextMemory]
  cases s.uncachedSent i with
  | false => exact hwritten
  | true =>
    simp only [if_true, Lanes.write, Lanes.forwardAll_cons, Lanes.forwardAll_nil]
    rw [← hwritten]

/-- Without an uncached store to the line, memory receives it from the write-back
only. -/
theorem content_not_unsent (hunsent : ¬ s.Unsent l) (k : BitVec 4) :
    (s.step i).memory.content (l.word k) =
      if s.wFire i = true ∧ l.word k = s.memory.awLine.word (BitVec.ofNat 4 s.memory.wCount) then
        s.writeback.dirtyLine s.writeback.rspId
      else s.memory.content (l.word k) := by
  rw [content_step, Lanes.forwardAll_of_ne]
  intro w hw heq
  cases hsent : s.uncachedSent i with
  | false => simp [hsent] at hw
  | true =>
    simp only [hsent, if_true, List.mem_singleton] at hw
    have hline := uncachedSent_unsent hsent
    have haddr : wordAddr s.uncached.regSTD.addr = l.word k := by
      rw [hw] at heq
      exact heq
    rw [haddr] at hline
    exact hunsent hline

theorem awLine_of_wFire (b : s.Sound) (hfire : s.wFire i = true) :
    s.writeback.state = .writeMem ∧ s.memory.awLine = s.wbLine ∧
      BitVec.ofNat 4 s.memory.wCount = s.writeback.rspId := by
  have hstate : s.writeback.state = .writeMem := by
    simp only [wFire, Bool.and_eq_true, beq_iff_eq] at hfire
    exact hfire.1
  refine ⟨hstate, b.counters.line (.inl hstate), ?_⟩
  rw [b.counters.count hstate, BitVec.ofNat_toNat, BitVec.setWidth_eq]

/-- A store whose data is merged leaves the line dirty in the cache. -/
theorem owed_of_store (b : s.Sound) (htag : s.KeepsTags) (hline : s.addr2.line = l)
    (hstd : s.isSTD = true) (hstore : s.refill.state = .commit ∨ s.hitCommit i = true) :
    (s.step i).Owed l := by
  subst hline
  have hnot : ∀ w, ¬ (s.step i).Cleaned s.addr2.line.index w := by
    rintro w ⟨-, hclear, -⟩
    obtain ⟨hs, hbefore⟩ := clearing_before hclear
    have hreq := hbefore.elim b.control.reqValid_clearing (reqValid_begins b.control)
    simp [reqValid, hstd] at hreq
  obtain hstate | hhit := hstore
  · refine ⟨s.replaceWay, ⟨?_, ?_⟩, ?_, ?_, hnot _⟩
    · simp [step, nextValids, hstate, WordAddr.line]
    · simp [step, infoWrite, hstate, WordAddr.line]
    · simp [step, nextDirtyBits, dirtyWrite, hstate, hstd, WordAddr.line]
    · have hfinish : (s.step i).refill.state = .finish := finish_step.mpr (.inl hstate)
      rintro ⟨hnext | hnext | hnext, -⟩ <;> rw [hfinish] at hnext <;> cases hnext
  · obtain ⟨hreq, hs, hmatch⟩ := hitCommit_iff.mp hhit
    have hholds := b.holds_hitWay hreq hmatch
    have hcommit : s.refill.state ≠ .commit := by
      intro hstate
      rw [stuck2_of_commit hstate] at hs
      cases hs
    have hclear : s.clearWay i = none := by
      have hop := (b.control.cacheFSM_of_reqValid hreq).1
      have hfix := (b.control.fixUncache_of_reqValid hreq).1
      simp [clearWay, hop, hfix]
    refine ⟨s.hitWay, ⟨?_, ?_⟩, ?_, ?_, hnot _⟩
    · exact valids_kept htag hholds.1 fun _ => by simp [hclear]
    · rw [b.sampled.tags_step b.control hholds.1 fun hcom => hcommit hcom.1]
      exact hholds.2
    · simp [step, nextDirtyBits, dirtyWrite, hcommit, stdCommit, hhit, hstd, WordAddr.line]
    · have hboot := (givesWay hs).refill_step hs
      rintro ⟨hnext | hnext | hnext, -⟩ <;> rw [hboot] at hnext <;> cases hnext

section Owes

variable {way : Fin 2} (b : s.Sound) (hholds : s.HoldsLine l way)

include b hholds

/-- A line stays in its way, unless the way is refilled or invalidated. -/
theorem holds_kept (htag : s.KeepsTags) (hcommit : ¬ s.Committing l.index way)
    (hclean : ¬ s.Cleaned l.index way) : (s.step i).HoldsLine l way := by
  refine ⟨valids_kept htag hholds.1 fun hset hclear => ?_, ?_⟩
  · simp only [clearWay] at hclear
    split_ifs at hclear with hfix hop
    · have hidle := (givesWay (by simpa using hfix.2)).writeback
      exact hclean ⟨hidle, Or.inl ⟨hfix.1, (Option.some.inj hclear).symm⟩, hset⟩
    · have hidle : s.writeback.state = .stateBoot := by simpa [writebackIdle] using hop.2
      exact hclean ⟨hidle, Or.inr ⟨hop.1, (Option.some.inj hclear).symm⟩, hset⟩
  · rw [b.sampled.tags_step b.control hholds.1 hcommit]
    exact hholds.2

/-- A way that is chosen for a write-back has its line written back. -/
theorem leaving_of_started (hindex : l.index = s.addr2.index)
    (hboot : s.writeback.state = .stateBoot) (hbusy : (s.step i).writeback.state ≠ .stateBoot)
    (hway : (s.step i).writeback.wayIdx = way) : (s.step i).Leaving l := by
  refine ⟨hbusy, (b.holds_started hboot hbusy).line_eq (hway ▸ hholds) ?_⟩
  rw [wbLine, (held_step (stuck2_of_started hboot hbusy)).addr2, hindex]

variable (hdirty : s.dirtyBits l.index way = true)

include hdirty

/-- MEM2 knows that the way is valid and dirty. -/
theorem sampled_dirty (hact : s.active = true) (hindex : l.index = s.addr2.index)
    (hidle : s.refilling = false) : s.setValids way = true ∧ s.setDirty way = true := by
  have hnf := not_filled_of_not_refilling hidle s.addr2.index way
  refine ⟨b.sampled.valids hact way (hindex ▸ hholds.1) hnf, ?_⟩
  rw [b.sampled.dirty hact way hnf]
  exact hindex ▸ hdirty

omit b hholds in
theorem dirty_kept (hcommit : ¬ s.Committing l.index way) :
    (s.step i).dirtyBits l.index way = true := by
  simp only [step, nextDirtyBits, dirtyWrite]
  by_cases hstate : s.refill.state = .commit
  · have hne : ¬ (l.index = s.addr2.index ∧ way = s.replaceWay) := fun heq =>
      hcommit ⟨hstate, heq⟩
    simp [hstate, hne, hdirty]
  · simp only [if_neg hstate]
    cases s.stdCommit i with
    | false => simpa using hdirty
    | true =>
      simp only [if_true]
      split_ifs
      · rfl
      · exact hdirty

/-- A dirty way that is chosen to be replaced is written back. -/
theorem replaced_step (hrep : ¬ s.Replaced l.index way)
    (hnext : (s.step i).Replaced l.index way) : (s.step i).Leaving l := by
  have hs : s.stuck2 i = true := by
    by_contra hs
    have hboot := (givesWay (Bool.of_not_eq_true hs)).refill_step (Bool.of_not_eq_true hs)
    obtain ⟨hstate | hstate | hstate, -⟩ := hnext <;> rw [hboot] at hstate <;> cases hstate
  have hheld := held_step hs
  obtain ⟨hstate, hindex, hway⟩ := hnext
  rw [hheld.addr2] at hindex
  rw [hheld.replaceWay] at hway
  have hbusy : (s.step i).refilling = true := by
    obtain hstate | hstate | hstate := hstate <;> simp [refilling, hstate]
  obtain hnow | hmiss := refilling_before b.control hs hbusy
  · -- a refill under way has not chosen the way just now
    refine absurd ⟨?_, hindex, hway⟩ hrep
    simp only [refilling, Bool.or_eq_true, beq_iff_eq] at hnow
    obtain ((hnow | hnow) | hnow) | hnow := hnow
    · exact .inl hnow
    · exact .inr (.inl hnow)
    · exact .inr (.inr hnow)
    · have hfinish : (s.step i).refill.state = .finish := finish_step.mpr (.inr ⟨hnow, hs⟩)
      obtain hstate | hstate | hstate := hstate <;> rw [hfinish] at hstate <;> cases hstate
  · have hboot := b.control.writeback_miss hmiss
    have hreq : s.refill.state = .stateBoot ∧ s.reqValid = true := by
      simp only [miss, Bool.and_eq_true, beq_iff_eq] at hmiss
      exact hmiss.1
    have hidle : s.refilling = false := by simp [refilling, hreq.1]
    obtain ⟨hset, hbit⟩ := sampled_dirty b hholds hdirty (active_of_reqValid hreq.2) hindex hidle
    subst hway
    have hbusy' := triggered_of_miss (i := i) b.control hmiss hset hbit
    refine leaving_of_started b hholds hindex hboot hbusy' ?_
    obtain ⟨-, hw⟩ | hbegins := started_way hboot hbusy'
    · exact hw
    · have hno := reqValid_begins b.control hbegins
      rw [hreq.2] at hno
      cases hno

/-- A dirty way is not invalidated without a write-back. -/
theorem not_cleaned_step (hclean : ¬ s.Cleaned l.index way) (hno : ¬ s.Leaving l) :
    ¬ (s.step i).Cleaned l.index way := by
  rintro ⟨hidle', hclear, hindex⟩
  obtain ⟨hs, hbefore⟩ := clearing_before hclear
  rw [(held_step hs).addr2] at hindex
  obtain hclearing | hbegins := hbefore
  · by_cases hboot : s.writeback.state = .stateBoot
    · exact hclean ⟨hboot, hclearing, hindex⟩
    · have hidle := not_refilling_of_clearing b.control hclearing
      have hact := b.control.active_of_clearing hclearing
      have hway := b.control.clearing_unique hclearing (b.control.clearing_wayIdx hboot hidle)
      refine hno ⟨hboot, ?_⟩
      have hnf := not_filled_of_not_refilling hidle s.addr2.index way
      have htags := b.sampled.tags2 hact way (hindex ▸ hholds.1) hnf
      cases l
      cases hindex
      rw [wbLine, ← hway, LineAddr.mk.injEq]
      exact ⟨htags.trans hholds.2, rfl⟩
  · have hidle := b.control.refilling_of_not_reqValid (reqValid_begins b.control hbegins)
    have hact := active_of_begins b.control hbegins
    obtain ⟨hset, hbit⟩ := sampled_dirty b hholds hdirty hact hindex hidle
    exact triggered_of_begins b.control hbegins hset hbit hidle'

end Owes

/-- Who owes the line goes on to owe it, or writes it back. -/
theorem owed_step (b : s.Sound) (htag : s.KeepsTags) (hno : ¬ s.Leaving l)
    (howed : s.Owed l) : (s.step i).Owed l ∨ (s.step i).Leaving l := by
  obtain ⟨way, hholds, hdirty, hrep, hclean⟩ := howed
  have hcommit : ¬ s.Committing l.index way := fun hcom => hrep ⟨.inr (.inr hcom.1), hcom.2⟩
  by_cases hleaving : (s.step i).Leaving l
  · exact .inr hleaving
  · exact .inl ⟨way, holds_kept b hholds htag hcommit hclean, dirty_kept hdirty hcommit,
      fun hnext => hleaving (replaced_step b hholds hdirty hrep hnext),
      not_cleaned_step b hholds hdirty hclean hno⟩

theorem settled_step (h : s.Coherent l img) (b : s.Sound) (htag : s.KeepsTags)
    (howed : ¬ (s.step i).Owed l) (hleaving : ¬ (s.step i).Leaving l) (k : BitVec 4) :
    (s.step i).memory.content (l.word k) = s.imageNext i l img k := by
  by_cases hnow : s.Leaving l
  · -- the write-back of the line ends in this cycle
    have hunsent : ¬ s.Unsent l := fun hunsent => (h.unsent hunsent).2.1 hnow
    have hs := stuck2_of_writeback (i := i) hnow.1
    have hend : (s.step i).writeback.state = .stateBoot := by
      by_contra hbusy
      exact hleaving ⟨hbusy, (wbLine_step hnow.1).trans hnow.2⟩
    obtain ⟨-, -, hfar, hstate⟩ := (h.carried hnow).done b.counters hnow.1 hend
    have hfire : s.wFire i = false := by simp [wFire, hstate]
    have himg : s.imageNext i l img = img := by
      by_cases hcommit : s.refill.state = .commit
      · exact imageNext_other hunsent (b.ne_of_leaving (by simp [refilling, hcommit]) hnow) img
      · exact imageNext_quiet hunsent hcommit (by simp [hitCommit, hs]) img
    rw [content_not_unsent hunsent, himg, hfire]
    simpa using congrFun hfar k
  · have howed' : ¬ s.Owed l := fun how =>
      (owed_step b htag hnow how).elim howed hleaving
    have hmem := h.settled howed' hnow k
    have hbus : ¬ (s.wFire i = true ∧
        l.word k = s.memory.awLine.word (BitVec.ofNat 4 s.memory.wCount)) := by
      rintro ⟨hfire, haddr⟩
      obtain ⟨hstate, hline, -⟩ := awLine_of_wFire b hfire
      have heq : l = s.memory.awLine := congrArg WordAddr.line haddr
      exact hnow ⟨by simp [hstate], by rw [heq, hline]⟩
    have hstore : Lanes.forwardAll (if s.refill.state = .commit ∨ s.hitCommit i = true then
        stdWrites s.mem2.std else []) (l.word k) (img k) = img k := by
      split_ifs with hwrites
      · by_cases hline : s.addr2.line = l
        · cases hstd : s.isSTD with
          | true => exact absurd (owed_of_store b htag hline hstd hwrites) howed
          | false =>
            have hnone : stdWrites s.mem2.std = [] := by
              cases hslot : s.mem2.std with
              | none => rfl
              | some std =>
                have hc : std.isCachedStore = false := by simpa [isSTD, hslot] using hstd
                simp [stdWrites, hc]
            rw [hnone, Lanes.forwardAll_nil]
        · exact congrFun (merged_of_ne hline img) k
      · rfl
    rw [content_step, if_neg hbus, hmem, imageNext, performs, Lanes.forwardAll_append, hstore]

theorem carried_step (h : s.Coherent l img) (b : s.Sound) (hnext : (s.step i).Leaving l) :
    (s.step i).Carries (s.imageNext i l img)
      fun k => (s.step i).memory.content (l.word k) := by
  obtain ⟨hbusy, hline⟩ := hnext
  by_cases hboot : s.writeback.state = .stateBoot
  · have hholds := b.holds_started hboot hbusy
    rw [hline] at hholds
    have hidle := not_refilling_of_started b.control hboot hbusy
    have hs := stuck2_of_started hboot hbusy
    have hindex : l.index = s.addr2.index := by
      rw [← hline, wbLine, (held_step hs).addr2]
    have hrep : ¬ s.Replaced l.index (s.step i).writeback.wayIdx := by
      intro hrep
      rw [hrep.refilling] at hidle
      cases hidle
    rw [imageNext_quiet (h.not_unsent hholds) (not_commit_of_not_refilling hidle)
      (by simp [hitCommit, hs])]
    refine .start b.counters b.control hboot hbusy fun k => ?_
    rw [← hindex, h.intact _ hholds hrep]
  · have hnow : s.Leaving l := ⟨hboot, (wbLine_step hboot).symm.trans hline⟩
    have hunsent : ¬ s.Unsent l := fun hunsent => (h.unsent hunsent).2.1 hnow
    have hs := stuck2_of_writeback (i := i) hboot
    have himg : s.imageNext i l img = img := by
      by_cases hcommit : s.refill.state = .commit
      · exact imageNext_other hunsent (b.ne_of_leaving (by simp [refilling, hcommit]) hnow) img
      · exact imageNext_quiet hunsent hcommit (by simp [hitCommit, hs]) img
    rw [himg]
    refine (h.carried hnow).step b.counters hboot fun k => ?_
    rw [content_not_unsent hunsent]
    cases hfire : s.wFire i with
    | false => simp
    | true =>
      obtain ⟨-, haw, hcount⟩ := awLine_of_wFire b hfire
      rw [haw, hnow.2, hcount]
      by_cases hk : k = s.writeback.rspId
      · simp [hk]
      · have hne : l.word k ≠ l.word s.writeback.rspId := fun heq =>
          hk (congrArg WordAddr.offset heq)
        simp [hk, hne]

/-! ### Refill -/

/-- While the line comes in, memory has it. -/
theorem content_refilling (h : s.Coherent l img) (b : s.Sound)
    (hrefill : s.refilling = true) (hfinish : s.refill.state ≠ .finish)
    (hline : s.addr2.line = l) (k : BitVec 4) : s.memory.content (l.word k) = img k := by
  refine h.settled ?_ (fun hleaving => b.ne_of_leaving hrefill hleaving hline) k
  rintro ⟨way, hholds, -⟩
  exact b.ne_of_refilling hrefill hholds (fun hfilled => hfinish hfilled.1) hline

/-- A refill is under way since its address has been accepted. -/
theorem filling_before (hnext : (s.step i).refill.state = .readMem ∨
    (s.step i).refill.state = .commit) :
    (s.refill.state = .waitAXI ∧ i.arReady = true) ∨ s.refill.state = .readMem := by
  simp only [step, nextRefill] at hnext
  cases hstate : s.refill.state <;> simp only [hstate] at hnext <;> grind

theorem filling_step (h : s.Coherent l img) (b : s.Sound)
    (hnext : (s.step i).refill.state = .readMem ∨ (s.step i).refill.state = .commit)
    (hline : (s.step i).addr2.line = l) : (s.step i).Filling l (s.imageNext i l img) := by
  have hbefore := filling_before hnext
  have hs : s.stuck2 i = true := by
    obtain ⟨hstate, -⟩ | hstate := hbefore <;> simp [stuck2, hstate]
  have hrefill : s.refilling = true := by
    obtain ⟨hstate, -⟩ | hstate := hbefore <;> simp [refilling, hstate]
  have hcommit : s.refill.state ≠ .commit := by
    obtain ⟨hstate, -⟩ | hstate := hbefore <;> simp [hstate]
  have hfinish : s.refill.state ≠ .finish := by
    obtain ⟨hstate, -⟩ | hstate := hbefore <;> simp [hstate]
  rw [(held_step hs).addr2] at hline
  have hunsent : ¬ s.Unsent l := fun hunsent => (h.unsent hunsent).2.2 hrefill hline
  rw [imageNext_quiet hunsent hcommit (by simp [hitCommit, hs])]
  obtain ⟨hstate, hready⟩ | hstate := hbefore
  · exact .start hstate hready hline
  · exact (h.filling (.inl hstate) hline).step hstate hline
      (h.content_refilling b hrefill hfinish hline)

theorem finished_step (h : s.Coherent l img) (b : s.Sound)
    (hnext : (s.step i).refill.state = .finish) (hline : (s.step i).addr2.line = l) :
    (s.step i).refill.storedWord = s.imageNext i l img (s.step i).addr2.offset := by
  have hs : s.stuck2 i = true := by
    obtain hstate | ⟨-, hs⟩ := finish_step.mp hnext
    · exact stuck2_of_commit hstate
    · exact hs
  have hheld := held_step hs
  rw [hheld.addr2] at hline ⊢
  have hrefill : s.refilling = true := by
    obtain hstate | ⟨hstate, -⟩ := finish_step.mp hnext <;> simp [refilling, hstate]
  have hunsent : ¬ s.Unsent l := fun hunsent => (h.unsent hunsent).2.2 hrefill hline
  have hstored : (s.step i).refill.storedWord =
      if s.refill.refillValid = true ∧ s.refill.rspId = s.addr2.offset then s.refillWord
      else s.refill.storedWord := by
    obtain hstate | ⟨hstate, -⟩ := finish_step.mp hnext <;>
      simp [step, nextRefill, hstate, hs]
  rw [hstored]
  obtain hstate | ⟨hstate, -⟩ := finish_step.mp hnext
  · have hfill := h.filling (.inr hstate) hline
    have hvalid := b.counters.commit hstate
    have hcount := hfill.count
    rw [hfill.full hstate, hvalid] at hcount
    have himg : s.imageNext i l img = s.merged l img := by
      rw [imageNext_of_not_unsent hunsent]
      exact if_pos (.inl hstate)
    rw [himg]
    split_ifs with hlast
    · rw [refillWord_eq hline, hfill.last hvalid, ← hlast.2, merged]
    · refine hfill.stored ?_
      have hne : s.addr2.offset.toNat ≠ s.refill.rspId.toNat := fun heq =>
        hlast ⟨hvalid, (BitVec.eq_of_toNat_eq heq).symm⟩
      have hlt := s.addr2.offset.isLt
      simp only [if_true] at hcount
      omega
  · have hvalid : s.refill.refillValid = false := by
      by_contra hvalid
      obtain hno | hno := b.counters.refillValid (Bool.of_not_eq_false hvalid) <;>
        rw [hstate] at hno <;> cases hno
    rw [imageNext_quiet hunsent (by simp [hstate]) (by simp [hitCommit, hs]), hvalid]
    simpa using h.finished hstate hline

/-! ### Uncached stores -/

/-- An uncached store that leaves MEM2 leaves its line out of the cache. -/
theorem unsent_fired (b : s.Sound) (hfire : s.uncachedFire i = true) {way : Fin 2} :
    ¬ (s.step i).HoldsLine s.addr2.line way := by
  intro hholds
  simp only [uncachedFire, Bool.and_eq_true, Bool.not_eq_true'] at hfire
  obtain ⟨⟨hstu, hs⟩, -⟩ := hfire
  have hactive : s.active = true := active_of_uncached (by simp [hstu])
  have hreq := b.control.reqValid_uncached (by simp [hstu])
  have hidle := b.control.refilling_of_not_reqValid hreq
  have hold : s.HoldsLine s.addr2.line way :=
    holds_before b hholds (Sampled.not_committing_of_not_stuck hs _ _)
  have hno := not_filled_of_not_refilling hidle s.addr2.index way
  have hhits : s.hits way = true := by
    simp only [hits, Bool.and_eq_true, b.sampled.tagMatches hactive, beq_iff_eq]
    exact ⟨b.sampled.valids hactive way hold.1 hno,
      (b.sampled.tags2 hactive way hold.1 hno).trans hold.2⟩
  have hhit := hit_of_hits hhits
  have hway := b.exact.hitWay_unique b.sampled hactive hhits
  have hfix : s.fixUncache = .waitWriteback := by
    have hstart := (givesWay hs).startFix
    cases hfix : s.fixUncache with
    | waitWriteback => rfl
    | stateBoot => simp [startFix, hfix, hstu, hhit] at hstart
  have hgone := hholds.1
  have hcommit := not_commit_of_not_refilling hidle
  simp [step, nextValids, hcommit, clearWay, hfix, hs, hway, WordAddr.line] at hgone

theorem unsent_before (h : (s.step i).Unsent l) :
    s.Unsent l ∨ (s.uncachedFire i = true ∧ s.addr2.line = l) := by
  obtain ⟨hstate, hline⟩ := h
  simp only [step, nextUncached] at hstate hline
  cases hnow : s.uncached.state with
  | waitAXIWriteU =>
    simp only [hnow] at hline
    exact .inl ⟨hnow, hline⟩
  | stateBoot =>
    simp only [hnow] at hstate hline
    split_ifs at hstate hline with hfire
    · refine .inr ⟨hfire, ?_⟩
      simp only [uncachedFire, Bool.and_eq_true] at hfire
      obtain ⟨std, hstd⟩ := Option.isSome_iff_exists.mp (isSome_of_isSTU hfire.1.1)
      rw [hstd] at hline
      simpa [addr2, MemStage.memAddr, hstd] using hline

theorem unsent_step (h : s.Coherent l img) (b : s.Sound)
    (horder : s.miss = true → s.addr2.line = l → ¬ s.Unsent l) (hnext : (s.step i).Unsent l) :
    (∀ way, ¬ (s.step i).HoldsLine l way) ∧ ¬ (s.step i).Leaving l ∧
      ((s.step i).refilling = true → (s.step i).addr2.line ≠ l) := by
  obtain hunsent | ⟨hfire, rfl⟩ := unsent_before hnext
  · obtain ⟨hnone, hleaving, hrefill⟩ := h.unsent hunsent
    refine ⟨?_, ?_, ?_⟩
    · intro way hholds
      by_cases hcommit : s.Committing l.index way
      · exact hrefill (by simp [refilling, hcommit.1]) (line_committed hholds hcommit)
      · exact hnone way (holds_before b hholds hcommit)
    · rintro ⟨hbusy, hline⟩
      by_cases hboot : s.writeback.state = .stateBoot
      · have hholds := b.holds_started hboot hbusy
        rw [hline] at hholds
        exact hnone _ hholds
      · exact hleaving ⟨hboot, (wbLine_step hboot).symm.trans hline⟩
    · intro hbusy hline
      have hs : s.stuck2 i = true := by
        by_contra hs
        have hboot := (givesWay (Bool.of_not_eq_true hs)).refill_step (Bool.of_not_eq_true hs)
        simp [refilling, hboot] at hbusy
      rw [(held_step hs).addr2] at hline
      obtain hnow | hmiss := refilling_before b.control hs hbusy
      · exact hrefill hnow hline
      · exact horder hmiss hline hunsent
  · have hs : s.stuck2 i = false := by
      simp only [uncachedFire, Bool.and_eq_true, Bool.not_eq_true'] at hfire
      exact hfire.1.2
    refine ⟨fun way => unsent_fired b hfire, ?_, ?_⟩
    · exact fun hleaving => hleaving.1 (givesWay hs).writeback_step
    · intro hbusy
      simp [refilling, (givesWay hs).refill_step hs] at hbusy

/-- The line is not fetched while an uncached store to it is still to be sent. -/
def InOrder (s : MemPipeline) (l : LineAddr) : Prop :=
  s.miss = true → s.addr2.line = l → ¬ s.Unsent l

theorem step (h : s.Coherent l img) (b : s.Sound) (htag : s.KeepsTags)
    (horder : InOrder s l) : (s.step i).Coherent l (s.imageNext i l img) where
  intact _ := h.intact_step b
  settled := h.settled_step b htag
  carried := h.carried_step b
  filling := h.filling_step b
  finished := h.finished_step b
  unsent := h.unsent_step b horder

theorem of_init (h : s.Init) : s.Coherent l fun k => s.memory.content (l.word k) where
  intact way hholds := by
    have hvalid := hholds.1
    rw [h.valids] at hvalid
    cases hvalid
  settled _ _ _ := rfl
  carried hleaving := absurd h.writeback.1 hleaving.1
  filling hstate := by
    rw [h.refill.1] at hstate
    obtain hstate | hstate := hstate <;> cases hstate
  finished hstate := by
    rw [h.refill.1] at hstate
    cases hstate
  unsent hunsent := by
    have hstate := hunsent.1
    rw [h.uncached] at hstate
    cases hstate

end Coherent

end MemPipeline

end NopCore
