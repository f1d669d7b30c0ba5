import NopCore.Mem.LogicalMemory
import NopCore.Mem.Occupancy
import NopCore.Mem.StoreOrder

/-!
# Cached traffic

Where nothing but cached loads and stores issues, the uncached bus, the cache
operations and the repair of lines are idle, and MEM2 is held by a miss or the
refill that follows it. So outside of a refill every access hits and MEM2 gives
way in every cycle, and the store data behind MEM2 is what left it in the last
two cycles; during a refill the stages behind MEM2 run empty.
-/

namespace NopCore

/-- A load or a store to cached memory. -/
structure MemUop.CachedAccess (u : MemUop) : Prop where
  cached : u.cached = true
  kind : u.isLoad = !u.isStore

/-- A stage with a cached access and the store data of a cached store. -/
structure MemStage.CachedOnly (st : MemStage) : Prop where
  uop : st.isValid = true → st.uop.CachedAccess
  std : ∀ e ∈ st.std, e.isCachedStore = true

theorem MemStage.CachedOnly.mask {st : MemStage} (h : st.CachedOnly) (b : Bool) :
    MemStage.CachedOnly { st with isValid := st.isValid && b } :=
  ⟨fun hvalid => h.uop (Bool.and_eq_true_iff.mp hvalid).1, h.std⟩

namespace StoreBuffer

variable {q : StoreBuffer}

/-- Every access in the buffer is a cached store. -/
def CachedOnly (q : StoreBuffer) : Prop :=
  ∀ j, q.valid j = true → (q.slot j).isCachedStore = true

theorem CachedOnly.queueNext (h : q.CachedOnly) {commitStore flush : Bool}
    {push : Option StoreBufferSlot} (hpush : ∀ p ∈ push, p.isCachedStore = true) :
    (q.queueNext commitStore push flush).CachedOnly := by
  intro j hvalid
  have hold : q.valid j = true ∨ (push.isSome = true ∧ q.validFall j = true) := by
    simp only [StoreBuffer.queueNext, Bool.and_eq_true, Bool.or_eq_true] at hvalid
    exact hvalid.1
  have hmarked : (if commitStore && q.retireFall j then (q.slot j).mark true
      else q.slot j).isCachedStore = (q.slot j).isCachedStore := by
    split_ifs <;> rfl
  cases push with
  | none =>
    obtain hold | ⟨hsome, -⟩ := hold
    · exact hmarked.trans (h j hold)
    · cases hsome
  | some p =>
    cases hfall : q.validFall j with
    | true => simpa [StoreBuffer.queueNext, hfall] using hpush p rfl
    | false =>
      have hvalid' : q.valid j = true := by simpa [hfall] using hold
      simpa [StoreBuffer.queueNext, hfall] using hmarked.trans (h j hvalid')

theorem CachedOnly.step (h : q.CachedOnly) {commitStore flush pop : Bool}
    {push : Option StoreBufferSlot} (hpush : ∀ p ∈ push, p.isCachedStore = true) :
    (q.step commitStore push flush pop).CachedOnly := by
  have hnext : (q.queueNext commitStore push flush).CachedOnly := h.queueNext hpush
  unfold StoreBuffer.step
  split_ifs
  · intro j hvalid
    simp only at hvalid ⊢
    split_ifs at hvalid ⊢
    exact hnext _ hvalid
  · exact hnext

end StoreBuffer

namespace MemPipeline

variable {s : MemPipeline} {i : Inputs}

/-- Nothing but cached accesses is in the pipeline and in the buffer. -/
structure CachedOnly (s : MemPipeline) : Prop where
  rrd : s.rrd.CachedOnly
  memaddr : s.memaddr.CachedOnly
  mem1 : s.mem1.CachedOnly
  mem2 : s.mem2ValidOnEntry = true → s.uop2.CachedAccess
  std : ∀ e ∈ s.mem2.std, e.isCachedStore = true
  buffer : s.storeBuffer.CachedOnly
  uncached : s.uncached.state = .stateBoot

namespace CachedOnly

theorem of_init (h : s.Init) : s.CachedOnly where
  rrd := ⟨by simp [h.rrd.1], by simp [h.rrd.2]⟩
  memaddr := ⟨by simp [h.memaddr.1], by simp [h.memaddr.2]⟩
  mem1 := ⟨by simp [h.mem1.1], by simp [h.mem1.2]⟩
  mem2 := by simp [h.validOnEntry]
  std := by simp [h.mem2.2]
  buffer := fun j hvalid => by simp [h.storeBuffer] at hvalid
  uncached := h.uncached

variable (h : s.CachedOnly)
include h

/-! ### What MEM2 may hold -/

theorem isLDU : s.isLDU = false := by
  cases hstd : s.mem2.std with
  | none => simp [MemPipeline.isLDU, hstd]
  | some e =>
    have he := h.std e hstd
    rw [StoreBufferSlot.isCachedStore, Bool.and_eq_true] at he
    simp [MemPipeline.isLDU, hstd, he.1]

theorem isSTU : s.isSTU = false := by
  cases hstd : s.mem2.std with
  | none => simp [MemPipeline.isSTU, hstd]
  | some e =>
    have he := h.std e hstd
    rw [StoreBufferSlot.isCachedStore, Bool.and_eq_true] at he
    simp [MemPipeline.isSTU, hstd, he.2]

theorem isSTD : s.isSTD = s.mem2.std.isSome := by
  cases hstd : s.mem2.std with
  | none => simp [MemPipeline.isSTD, hstd]
  | some e => simp [MemPipeline.isSTD, hstd, h.std e hstd]

theorem isCACHE (hvalid : s.mem2ValidOnEntry = true) : s.isCACHE = false := by
  rw [MemPipeline.isCACHE, (h.mem2 hvalid).kind]
  cases s.uop2.isStore <;> rfl

theorem cacheOpValid : s.cacheOpValid = false := by
  cases hvalid : s.mem2ValidOnEntry with
  | false => simp [MemPipeline.cacheOpValid, hvalid]
  | true => simp [MemPipeline.cacheOpValid, h.isCACHE hvalid]

theorem storeTag : s.storeTag = false := by
  rw [MemPipeline.storeTag, h.cacheOpValid, Bool.false_and]

theorem startCacheOp : s.startCacheOp = false := by
  rw [MemPipeline.startCacheOp, h.cacheOpValid, Bool.false_and]

theorem startFix : s.startFix = false := by
  simp [MemPipeline.startFix, h.isLDU, h.isSTU]

theorem startLDU : s.startLDU = false := by
  rw [MemPipeline.startLDU, h.isLDU, Bool.and_false]

theorem not_unsent (l : LineAddr) : ¬ s.Unsent l := by
  rintro ⟨hstate, -⟩
  rw [h.uncached] at hstate
  cases hstate

theorem uncachedSent : s.uncachedSent i = false := by
  simp [MemPipeline.uncachedSent, h.uncached]

/-! ### The state machines -/

variable (hc : s.Control)
include hc

theorem cacheFSM : s.cacheFSM.state = .stateBoot := by
  by_contra hbusy
  obtain ⟨hvalid, hcache⟩ := hc.cacheOp hbusy
  rw [h.isCACHE hvalid] at hcache
  cases hcache

theorem fixUncache : s.fixUncache = .stateBoot := by
  cases hfix : s.fixUncache with
  | stateBoot => rfl
  | waitWriteback =>
    have hu := (hc.fixUncache hfix).1
    rw [h.isLDU, h.isSTU] at hu
    cases hu

/-- The refill serves cached accesses only. -/
theorem refill_cases : s.refill.state = .stateBoot ∨ s.refilling = true := by
  cases hload : s.loadingU with
  | true =>
    have hldu := hc.load hload
    rw [h.isLDU] at hldu
    cases hldu
  | false =>
    simp only [loadingU, Bool.or_eq_false_iff, beq_eq_false_iff_ne] at hload
    cases hstate : s.refill.state <;> simp_all [MemPipeline.refilling]

/-- Nothing is written back outside of a refill. -/
theorem writebackIdle (hboot : s.refill.state = .stateBoot) : s.writebackIdle = true := by
  by_contra hbusy
  have hstate : s.writeback.state ≠ .stateBoot := by
    simpa [MemPipeline.writebackIdle] using hbusy
  obtain ⟨hfix, -⟩ | ⟨hop, -⟩ := hc.clearing_wayIdx hstate (by simp [MemPipeline.refilling, hboot])
  · rw [h.fixUncache hc] at hfix
    cases hfix
  · rw [h.cacheFSM hc] at hop
    cases hop

variable (hroom : s.HasRoom)
include hroom

/-- Outside of a refill MEM2 is held by a miss alone. -/
theorem stuck2_boot (hboot : s.refill.state = .stateBoot) : s.stuck2 i = s.miss := by
  simp only [stuck2, hroom.push_not_stuck, h.writebackIdle hc hboot, h.startFix, h.startCacheOp,
    checking, h.cacheFSM hc, h.startLDU, hboot, h.isSTU]
  cases s.miss <;> rfl

omit hroom in
theorem doRefetch : s.doRefetch i = (!s.stuck2 i && s.refill.state == .finish) := by
  simp only [MemPipeline.doRefetch, h.fixUncache hc, h.cacheFSM hc]
  cases s.refill.state == .finish <;> rfl

end CachedOnly

/-! ## One clock edge -/

theorem cachedOnly_issStage (h : s.CachedOnly) (hhead : i.headReady = true → i.head.CachedAccess) :
    (s.issStage i).CachedOnly := by
  constructor
  · intro hvalid
    simp only [issStage, issValid, Bool.and_eq_true] at hvalid
    exact hhead hvalid.1.1
  · intro e he
    simp only [issStage, Option.mem_def] at he
    split_ifs at he with hissue
    obtain rfl := Option.some.inj he
    simp only [stdValid, Bool.and_eq_true] at hissue
    exact h.buffer 0 hissue.1.1

theorem cachedOnly_nextStage {prev cur : MemStage} (hprev : prev.CachedOnly)
    (hcur : cur.CachedOnly) : (s.nextStage i prev cur).CachedOnly := by
  unfold nextStage
  split_ifs
  · exact hcur.mask _
  · exact hprev.mask _

/-- What is pushed is a cached store. -/
theorem CachedOnly.push (h : s.CachedOnly) (hc : s.Control) {p : StoreBufferSlot}
    (hp : p ∈ s.push i) : p.isCachedStore = true := by
  simp only [MemPipeline.push, Option.mem_def] at hp
  split_ifs at hp with hpush
  obtain rfl := Option.some.inj hp
  simp only [pushValid, Bool.and_eq_true, Bool.or_eq_true] at hpush
  obtain ⟨⟨⟨hvalid, -⟩, hkind⟩, -⟩ := hpush
  have haccess := h.mem2 (hc.entered hvalid)
  have hstore : s.uop2.isStore = true := by
    obtain hstore | ⟨-, huncached⟩ := hkind
    · exact hstore
    · rw [haccess.cached] at huncached
      cases huncached
  simp [StoreBufferSlot.isCachedStore, pushSlot, hstore, haccess.cached]

theorem CachedOnly.step (h : s.CachedOnly) (hc : s.Control)
    (hhead : i.headReady = true → i.head.CachedAccess) : (s.step i).CachedOnly where
  rrd := cachedOnly_nextStage (cachedOnly_issStage h hhead) h.rrd
  memaddr := cachedOnly_nextStage h.rrd h.memaddr
  mem1 := cachedOnly_nextStage h.memaddr h.mem1
  mem2 := by
    cases hs : s.stuck2 i with
    | true =>
      rw [(held_step hs).validOnEntry, (held_step hs).uop2]
      exact h.mem2
    | false =>
      have huop := h.mem1.uop
      simp only [MemPipeline.step, nextMem2, uop2, hs]
      cases hr : s.doRefetch i <;> grind
  std := by
    cases hs : s.stuck2 i with
    | true =>
      rw [(held_step hs).std]
      exact h.std
    | false =>
      have hstd := h.mem1.std
      simp only [MemPipeline.step, nextMem2, hs]
      cases hr : s.doRefetch i <;> grind
  buffer := h.buffer.step fun _ => h.push hc
  uncached := by
    have hfire : s.uncachedFire i = false := by simp [uncachedFire, h.isSTU]
    simp [MemPipeline.step, nextUncached, h.uncached, hfire]

/-- While a refill is at work the stages behind MEM2 run empty. -/
structure Drained (s : MemPipeline) : Prop where
  wb : s.refilling = true → s.wb = none
  wb2 : s.refilling = true → s.refill.state ≠ .waitAXI → s.wb2 = none

theorem Drained.of_init (h : s.Init) : s.Drained := ⟨fun _ => h.wb.1, fun _ _ => h.wb.2⟩

theorem Drained.step (h : s.Drained) : (s.step i).Drained := by
  have hheld : (s.step i).refilling = true → s.stuck2 i = true := by
    intro hbusy
    by_contra hs
    rw [Bool.not_eq_true] at hs
    simp [refilling, (givesWay hs).refill_step hs] at hbusy
  constructor
  · intro hbusy
    simp [MemPipeline.step, hheld hbusy]
  · intro hbusy hstate
    refine h.wb ?_
    simp only [refilling, MemPipeline.step, nextRefill] at hbusy hstate ⊢
    cases hnow : s.refill.state <;> simp only [hnow] at hbusy hstate ⊢ <;> grind

end MemPipeline

end NopCore
