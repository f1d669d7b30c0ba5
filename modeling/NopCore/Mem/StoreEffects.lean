import NopCore.Mem.LogicalMemory
import NopCore.Mem.StoreOrder

/-!
# The order in which stores take effect

Store data leaves MEM2 in program order. A cached store has taken effect by then, and
an uncached store takes effect when its write has been sent. So the words of a line
are those at reset with the stores performed on them that have left MEM2, in program
order, but for an uncached store that is still to be sent; and at the end of a refill
the store data that has been merged has not left yet.

A cache operation that writes back and invalidates goes through both ways of its set
before it lets MEM2 go on. By then no way of the set is valid, and memory has every
line of the set as the stores have left it.
-/

namespace NopCore

/-- The access is a store to the line. -/
def StoreBufferSlot.storesTo (e : StoreBufferSlot) (l : LineAddr) : Bool :=
  e.isStore && decide ((wordAddr e.addr).line = l)

@[simp] theorem StoreBufferSlot.storesTo_mark (e : StoreBufferSlot) (b : Bool) (l : LineAddr) :
    (e.mark b).storesTo l = e.storesTo l := rfl

/-- The memory writes of the stores among some accesses. -/
def storeWrites (es : List StoreBufferSlot) : List (Lanes.Write WordAddr (Fin 4) (BitVec 8)) :=
  (es.filter StoreBufferSlot.isStore).map StoreBufferSlot.write

@[simp] theorem storeWrites_nil : storeWrites [] = [] := rfl

theorem storeWrites_append (es fs : List StoreBufferSlot) :
    storeWrites (es ++ fs) = storeWrites es ++ storeWrites fs := by
  rw [storeWrites, List.filter_append, List.map_append]
  rfl

/-- Accesses that store to other lines leave the words of a line. -/
theorem forwardAll_storeWrites {l : LineAddr} {es : List StoreBufferSlot}
    (h : ∀ e ∈ es, e.storesTo l = false) (k : BitVec 4) (x : BWord) :
    Lanes.forwardAll (storeWrites es) (l.word k) x = x := by
  refine Lanes.forwardAll_of_ne ?_ x
  intro w hw heq
  obtain ⟨e, he, rfl⟩ := List.mem_map.mp hw
  obtain ⟨hmem, hstore⟩ := List.mem_filter.mp he
  have hline : (wordAddr e.addr).line = l := congrArg WordAddr.line heq
  have hno := h e hmem
  simp [StoreBufferSlot.storesTo, hstore, hline] at hno

/-- A cache operation of the data cache that writes back and invalidates the set of
the line. -/
def MemUop.cleans (u : MemUop) (l : LineAddr) : Bool :=
  !u.isLoad && !u.isStore && u.cacheSel == .dCache &&
    (u.cacheOp == .indexInvalidate || u.cacheOp == .hitInvalidate) &&
    decide ((wordAddr u.addr).index = l.index)

namespace MemPipeline

variable {s : MemPipeline} {i : Inputs} {l : LineAddr} {gone : List StoreBufferSlot}
  {initial img : BitVec 4 → BWord}

/-! ## Stores -/

/-- The uncached store that is still to be sent. -/
def unsentWrites (s : MemPipeline) : List (Lanes.Write WordAddr (Fin 4) (BitVec 8)) :=
  if s.uncached.state = .waitAXIWriteU then [s.uncached.regSTD.write] else []

/-- The store data that has been merged by the refill that has just ended. -/
def filledWrites (s : MemPipeline) : List (Lanes.Write WordAddr (Fin 4) (BitVec 8)) :=
  if s.refill.state = .finish then stdWrites s.mem2.std else []

/-- The store data of MEM2 that takes effect in this cycle. -/
def effects (s : MemPipeline) (i : Inputs) : List (Lanes.Write WordAddr (Fin 4) (BitVec 8)) :=
  if s.refill.state = .commit ∨ s.hitCommit i = true then stdWrites s.mem2.std else []

/-- The write that is sent in this cycle. -/
def sentWrites (s : MemPipeline) (i : Inputs) : List (Lanes.Write WordAddr (Fin 4) (BitVec 8)) :=
  if s.uncachedSent i then [s.uncached.regSTD.write] else []

theorem performs_eq : s.performs i = s.effects i ++ s.sentWrites i := rfl

/-- The words of the line, with what is still to be sent, are those at reset with
the stores that have left MEM2 and the one that a refill has merged. -/
def TookEffect (s : MemPipeline) (l : LineAddr) (gone : List StoreBufferSlot)
    (initial img : BitVec 4 → BWord) : Prop :=
  ∀ k, Lanes.forwardAll s.unsentWrites (l.word k) (img k) =
    Lanes.forwardAll (storeWrites gone ++ s.filledWrites) (l.word k) (initial k)

theorem forwardAll_unsentWrites (h : ¬ s.Unsent l) (k : BitVec 4) (x : BWord) :
    Lanes.forwardAll s.unsentWrites (l.word k) x = x := by
  rw [unsentWrites]
  split_ifs with hstate
  · refine Lanes.forward_of_ne (fun heq => h ⟨hstate, ?_⟩) x
    exact congrArg WordAddr.line heq
  · rfl

/-- Store data of MEM2 for another line leaves the words of this one. -/
theorem forwardAll_effects (h : s.addr2.line ≠ l) (k : BitVec 4) (x : BWord) :
    Lanes.forwardAll (s.effects i) (l.word k) x = x := by
  refine Lanes.forwardAll_of_ne (fun w hw heq => h ?_) x
  rw [effects] at hw
  split_ifs at hw
  · rw [← stdWrites_addr hw, heq]
    rfl
  · cases hw

/-- While an uncached store to the line is still to be sent, no cached store to the
line takes effect. -/
theorem effects_of_unsent (b : s.Sound) (hc : s.Coherent l img) (hunsent : s.Unsent l)
    (k : BitVec 4) (x : BWord) : Lanes.forwardAll (s.effects i) (l.word k) x = x := by
  obtain ⟨hnone, -, hrefill⟩ := hc.unsent hunsent
  by_cases hline : s.addr2.line = l
  · rw [effects, if_neg]
    · rfl
    · rintro (hstate | hhit)
      · exact hrefill (by simp [refilling, hstate]) hline
      · obtain ⟨hreq, -, hmatch⟩ := hitCommit_iff.mp hhit
        exact hnone s.hitWay (hline ▸ b.holds_hitWay hreq hmatch)
  · exact forwardAll_effects hline k x

theorem effects_unsentWrites (b : s.Sound) (hc : s.Coherent l img) (k : BitVec 4) (x : BWord) :
    Lanes.forwardAll s.unsentWrites (l.word k) (Lanes.forwardAll (s.effects i) (l.word k) x) =
      Lanes.forwardAll (s.effects i) (l.word k)
        (Lanes.forwardAll s.unsentWrites (l.word k) x) := by
  by_cases hunsent : s.Unsent l
  · rw [effects_of_unsent b hc hunsent, effects_of_unsent b hc hunsent]
  · rw [forwardAll_unsentWrites hunsent, forwardAll_unsentWrites hunsent]

/-- What is sent is no longer to be sent. -/
theorem unsentWrites_step (hfire : s.uncachedFire i = false) (a : WordAddr) (x : BWord) :
    Lanes.forwardAll (s.step i).unsentWrites a (Lanes.forwardAll (s.sentWrites i) a x) =
      Lanes.forwardAll s.unsentWrites a x := by
  have hnext : (s.step i).uncached = s.nextUncached i := rfl
  rw [unsentWrites, sentWrites, unsentWrites, hnext]
  cases hstate : s.uncached.state with
  | stateBoot =>
    have hsent : s.uncachedSent i = false := by simp [uncachedSent, hstate]
    simp [nextUncached, hstate, hfire, hsent]
  | waitAXIWriteU =>
    cases hsent : s.uncachedSent i <;> simp [nextUncached, hstate, hsent]

/-- An uncached store does not leave MEM2 as a cached one. -/
theorem storeWrites_carried (h : s.isSTU = false) :
    storeWrites (carried s.mem2.std) = stdWrites s.mem2.std := by
  cases hstd : s.mem2.std with
  | none => rfl
  | some e =>
    have hkind : e.isStore = e.isCachedStore := by
      rw [isSTU, hstd, Option.any_some, Bool.and_eq_false_iff, Bool.not_eq_false'] at h
      rw [StoreBufferSlot.isCachedStore]
      obtain hstore | hcached := h
      · rw [hstore, Bool.false_and]
      · rw [hcached, Bool.and_true]
    cases hstore : e.isStore with
    | false =>
      rw [hstore] at hkind
      simp [storeWrites, stdWrites, hstore, ← hkind]
    | true =>
      rw [hstore] at hkind
      simp [storeWrites, stdWrites, hstore, ← hkind]

theorem stdWrites_of_not_isSTD (h : s.isSTD = false) : stdWrites s.mem2.std = [] := by
  cases hstd : s.mem2.std with
  | none => rfl
  | some e =>
    have hcached : e.isCachedStore = false := by simpa [isSTD, hstd] using h
    simp [stdWrites, hcached]

theorem hitCommit_of_stuck (hs : s.stuck2 i = true) : s.hitCommit i = false := by
  simp [hitCommit, hs]

/-- What takes effect while MEM2 is held leaves later. -/
theorem effects_held (hs : s.stuck2 i = true) :
    s.filledWrites ++ s.effects i = (s.step i).filledWrites := by
  have hstd : (s.step i).mem2.std = s.mem2.std := (held_step hs).std
  simp only [filledWrites, effects, finish_step, hstd, hitCommit_of_stuck hs, hs]
  by_cases hcommit : s.refill.state = .commit
  · simp [hcommit]
  · by_cases hfinish : s.refill.state = .finish
    · simp [hfinish]
    · simp [hcommit, hfinish]

/-- Cached store data has taken effect when it leaves MEM2. -/
theorem effects_left (hc : s.Control) (hs : s.stuck2 i = false) (hstu : s.isSTU = false) :
    s.filledWrites ++ s.effects i = storeWrites (carried s.mem2.std) := by
  have hgives := givesWay hs
  have hcommit : s.refill.state ≠ .commit := by
    obtain hstate | hstate | hstate := hgives.refill <;> simp [hstate]
  rw [storeWrites_carried hstu, filledWrites, effects]
  by_cases hfinish : s.refill.state = .finish
  · have hmiss := (hc.refill (by simp [refilling, hfinish])).2
    have hhit : s.hitCommit i = false := by simp [hitCommit, hmiss]
    simp [hfinish, hhit]
  · cases hstd : s.isSTD with
    | false => simp [stdWrites_of_not_isSTD hstd]
    | true =>
      have hboot : s.refill.state = .stateBoot := by
        obtain hstate | hstate | hstate := hgives.refill
        · exact hstate
        · exact absurd hstate hfinish
        · have hldu := hc.load (by simp [loadingU, hstate])
          have hno := hc.reqValid_uncached (by simp [hldu])
          simp [reqValid, hstd] at hno
      have hhit : s.hitCommit i = true := by
        have hmiss := hgives.miss
        simp only [miss, hboot, reqValid, hstd] at hmiss
        rw [hitCommit_iff]
        exact ⟨by simp [reqValid, hstd], hs, by simpa using hmiss⟩
      simp [hfinish, hhit]

/-- Stores take effect in the order in which they leave MEM2. -/
theorem TookEffect.step (h : s.TookEffect l gone initial img) (b : s.Sound)
    (hc : s.Coherent l img) :
    (s.step i).TookEffect l (gone ++ s.leaves i) initial (s.imageNext i l img) := by
  intro k
  rw [imageNext, performs_eq, Lanes.forwardAll_append]
  cases hfire : s.uncachedFire i with
  | false =>
    rw [unsentWrites_step hfire, effects_unsentWrites b hc, h k, ← Lanes.forwardAll_append,
      storeWrites_append, List.append_assoc, List.append_assoc]
    congr 2
    cases hs : s.stuck2 i with
    | true => rw [effects_held hs, leaves, if_pos hs, storeWrites_nil, List.nil_append]
    | false =>
      have hstu : s.isSTU = false := by
        by_contra hstu
        rw [Bool.not_eq_false] at hstu
        simp [uncachedFire, hstu, hs, (givesWay hs).stu hstu] at hfire
      have hboot : (s.step i).filledWrites = [] := by
        simp [filledWrites, (givesWay hs).refill_step hs]
      rw [effects_left b.control hs hstu, leaves, hs, hboot, List.append_nil]
      rfl
  | true =>
    simp only [uncachedFire, Bool.and_eq_true, Bool.not_eq_true'] at hfire
    obtain ⟨⟨hstu, hs⟩, hready⟩ := hfire
    obtain ⟨e, hstd⟩ := Option.isSome_iff_exists.mp (isSome_of_isSTU hstu)
    have hstore : e.isStore = true := by
      rw [isSTU, hstd, Option.any_some, Bool.and_eq_true] at hstu
      exact hstu.1
    have hboot : s.uncached.state = .stateBoot := by
      simp only [uncachedReady, Bool.and_eq_true, beq_iff_eq] at hready
      exact hready.1
    have hreq := b.control.reqValid_uncached (by simp [hstu] : (s.isLDU || s.isSTU) = true)
    have hstate : s.refill.state ≠ .commit ∧ s.refill.state ≠ .finish := by
      have hidle := b.control.refilling_of_not_reqValid hreq
      simp only [refilling, Bool.or_eq_false_iff, beq_eq_false_iff_ne] at hidle
      exact ⟨hidle.1.2, hidle.2⟩
    have heffects : s.effects i = [] := by simp [effects, hstate.1, hitCommit, hreq]
    have hsent : s.sentWrites i = [] := by simp [sentWrites, uncachedSent, hboot]
    have hunsent : (s.step i).unsentWrites = [e.write] := by
      have hfire : s.uncachedFire i = true := by simp [uncachedFire, hstu, hs, hready]
      simp [unsentWrites, MemPipeline.step, nextUncached, hboot, hfire, hstd]
    have hleaves : storeWrites (s.leaves i) = [e.write] := by
      simp [leaves, hs, hstd, storeWrites, hstore]
    have hfilled : (s.step i).filledWrites = [] := by
      simp [filledWrites, (givesWay hs).refill_step hs]
    have hnow := h k
    rw [unsentWrites, if_neg (by simp [hboot]), filledWrites, if_neg hstate.2,
      List.append_nil] at hnow
    rw [heffects, hsent, hunsent, hfilled, storeWrites_append, hleaves, List.append_nil,
      Lanes.forwardAll_append, ← hnow]
    rfl

theorem TookEffect.of_init (h : s.Init) : s.TookEffect l [] img img := by
  intro k
  simp [unsentWrites, filledWrites, h.uncached, h.refill.1]

/-! ## Cache operations -/

/-- A way that the running cache operation has been through is not valid. -/
def Swept (s : MemPipeline) : Prop := ∀ way, s.Processed way → s.valids s.addr2.index way = false

theorem Swept.of_init (h : s.Init) : s.Swept := fun _ hdone => absurd h.cacheFSM hdone.1

/-- A way has been processed before, or it is invalidated in this cycle. -/
theorem Processed.before (hs : s.stuck2 i = true) {way : Fin 2} (h : (s.step i).Processed way) :
    s.Processed way ∨ s.clearWay i = some way := by
  obtain ⟨hstate, hdone⟩ := h
  have hnext : (s.step i).cacheFSM = s.nextCacheFSM i := rfl
  rw [hnext] at hstate hdone
  rw [Processed, clearWay]
  simp only [nextCacheFSM] at hstate hdone
  cases hnow : s.cacheFSM.state with
  | stateBoot =>
    simp only [hnow] at hstate hdone
    split_ifs at hstate hdone with hstart
    · simp at hdone
    · exact absurd hnow hstate
  | checkWay =>
    refine .inl ⟨by simp, ?_⟩
    simp only [hnow] at hdone
    split_ifs at hdone <;> exact hdone
  | writebackWay =>
    simp only [hnow] at hdone
    cases hidle : s.writebackIdle with
    | false =>
      simp only [hidle, Bool.false_eq_true, if_false] at hdone
      exact .inl ⟨by simp, hdone⟩
    | true =>
      simp only [hidle, if_true, Bool.or_eq_true, beq_iff_eq] at hdone
      by_cases hway : s.cacheFSM.wayCounter = way
      · exact .inr (by simp [hs, hway])
      · refine .inl ⟨by simp, ?_⟩
        obtain (hall | hlast) | hlt := hdone
        · exact .inl hall
        · exact .inr (by omega)
        · exact .inr (by omega)

theorem Swept.step (h : s.Swept) (hc : s.Control) : (s.step i).Swept := by
  intro way hdone
  cases hs : s.stuck2 i with
  | false => exact absurd ((givesWay hs).cacheFSM_step hs) hdone.1
  | true =>
    have hop : s.mem2ValidOnEntry = true ∧ s.isCACHE = true := hc.cacheOp_step hdone.1
    have hidle := hc.refilling_of_not_reqValid (hc.reqValid_cacheOp hop.1 hop.2)
    have hcommit := not_commit_of_not_refilling hidle
    rw [(held_step hs).addr2]
    change s.nextValids i s.addr2.index way = false
    rw [nextValids, if_neg fun hstate => hcommit hstate.1]
    obtain hbefore | hclear := hdone.before hs
    · rw [h way hbefore]
      simp
    · rw [if_pos ⟨rfl, hclear⟩]

/-- A cache operation that leaves MEM2 has been through both ways. -/
theorem processed_of_leaves (hc : s.Control) (hvalid : s.mem2.isValid = true)
    (hop : s.uop2.cleans l = true) (hs : s.stuck2 i = false) (way : Fin 2) :
    s.Processed way ∧ s.addr2.index = l.index := by
  simp only [MemUop.cleans, Bool.and_eq_true, Bool.or_eq_true, beq_iff_eq, decide_eq_true_eq,
    Bool.not_eq_true'] at hop
  obtain ⟨⟨⟨⟨hload, hstore⟩, hsel⟩, hkind⟩, hindex⟩ := hop
  have hentered := hc.entered hvalid
  have hcache : s.isCACHE = true := by simp [isCACHE, hload, hstore]
  have hstd := hc.std_cacheOp hentered hcache
  -- the operation would only start now
  have hboot : s.cacheFSM.state ≠ .stateBoot := by
    intro hboot
    have hstart : s.startCacheOp = true := by
      simp [startCacheOp, cacheOpValid, hboot, hentered, hcache, hsel, hkind]
    rw [(givesWay hs).startCacheOp] at hstart
    cases hstart
  refine ⟨⟨hboot, .inl ?_⟩, ?_⟩
  · have hcheck := (givesWay hs).checking
    cases hstate : s.cacheFSM.state with
    | stateBoot => exact absurd hstate hboot
    | checkWay => simpa [checking, hstate] using hcheck
    | writebackWay => exact absurd hstate (givesWay hs).cacheFSM
  · rw [addr2, MemStage.memAddr, hstd]
    exact hindex

/-- When a cache operation leaves MEM2, memory has the lines of its set. -/
theorem content_of_cleans (hc : s.Coherent l img) (b : s.Sound) (hswept : s.Swept)
    (hvalid : s.mem2.isValid = true) (hop : s.uop2.cleans l = true) (hs : s.stuck2 i = false)
    (k : BitVec 4) : s.memory.content (l.word k) = img k := by
  refine hc.settled ?_ (fun hleaving => hleaving.1 (givesWay hs).writeback) k
  rintro ⟨way, hholds, -⟩
  obtain ⟨hdone, hindex⟩ := processed_of_leaves b.control hvalid hop hs way
  have hgone := hswept way hdone
  rw [hindex, hholds.1] at hgone
  cases hgone

/-! ## A line to which nothing is stored -/

section Elsewhere

variable (hstd : ∀ e ∈ carried s.mem2.std, e.storesTo l = false)

include hstd

theorem forwardAll_stdWrites (k : BitVec 4) (x : BWord) :
    Lanes.forwardAll (stdWrites s.mem2.std) (l.word k) x = x := by
  refine Lanes.forwardAll_of_ne (fun w hw heq => ?_) x
  cases hslot : s.mem2.std with
  | none => simp [stdWrites, hslot] at hw
  | some e =>
    have hno := hstd (e.mark false) (by simp [hslot])
    simp only [stdWrites, hslot, Option.toList_some, List.mem_map, List.mem_filter,
      List.mem_singleton] at hw
    obtain ⟨e', ⟨rfl, hcached⟩, rfl⟩ := hw
    rw [StoreBufferSlot.isCachedStore, Bool.and_eq_true] at hcached
    have hline : (wordAddr e'.addr).line = l := congrArg WordAddr.line heq
    rw [StoreBufferSlot.storesTo_mark, StoreBufferSlot.storesTo, hcached.1, hline] at hno
    simp at hno

theorem forwardAll_filledWrites (k : BitVec 4) (x : BWord) :
    Lanes.forwardAll s.filledWrites (l.word k) x = x := by
  rw [filledWrites]
  split_ifs
  · exact forwardAll_stdWrites hstd k x
  · rfl

variable (hunsent : ¬ s.Unsent l)

include hunsent

theorem imageNext_of_not_storesTo : s.imageNext i l img = img := by
  rw [imageNext_of_not_unsent hunsent]
  split_ifs
  · funext k
    exact forwardAll_stdWrites hstd k (img k)
  · rfl

theorem not_unsent_step : ¬ (s.step i).Unsent l := by
  intro hnext
  obtain hnow | ⟨hfire, hline⟩ := Coherent.unsent_before hnext
  · exact hunsent hnow
  · simp only [uncachedFire, Bool.and_eq_true] at hfire
    have hstu := hfire.1.1
    obtain ⟨e, hslot⟩ := Option.isSome_iff_exists.mp (isSome_of_isSTU hstu)
    rw [isSTU, hslot, Option.any_some, Bool.and_eq_true] at hstu
    rw [addr2, MemStage.memAddr, hslot] at hline
    have hno := hstd (e.mark false) (by simp [hslot])
    rw [StoreBufferSlot.storesTo_mark, StoreBufferSlot.storesTo, hstu.1] at hno
    simp [hline] at hno

end Elsewhere

/-- Memory keeps a line that it has, also while the line is written back. -/
theorem content_kept (hc : s.Coherent l img) (b : s.Sound) (hunsent : ¬ s.Unsent l)
    (hcontent : ∀ k, s.memory.content (l.word k) = img k) (k : BitVec 4) :
    (s.step i).memory.content (l.word k) = img k := by
  rw [Coherent.content_not_unsent hunsent]
  split_ifs with hwrite
  · obtain ⟨hfire, haddr⟩ := hwrite
    obtain ⟨hstate, hline, hcount⟩ := Coherent.awLine_of_wFire b hfire
    have hleaving : s.Leaving l := by
      refine ⟨by simp [hstate], ?_⟩
      rw [← hline]
      exact (congrArg WordAddr.line haddr).symm
    have hplace : k = s.writeback.rspId := by
      rw [← hcount]
      exact congrArg WordAddr.offset haddr
    rw [(hc.carried hleaving).buffer (by simp [hstate]) (by simp [hstate]), hplace]
  · exact hcontent k

end MemPipeline

end NopCore
