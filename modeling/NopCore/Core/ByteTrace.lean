import Mathlib.Data.List.Forall2
import NopCore.Core.ByteLanes

/-!
# Loads and stores by bytes

A store meets a word in one of four places. A load that looks into the store buffer, and a
load that looks at the store data in the stages, replace the enabled lanes of the word they
have read; store data that hits replaces them in the cache, and store data that misses in
the word that is fetched. In each of them the word has the bytes of the memory of bytes
after the store if it had those of the memory before.

A run of cached accesses is put beside a memory of bytes. Its issue queue offers accesses as
the address stages hand them on. What a load leaves MEM2 with is what the memory of bytes
has, after the stores of the program that are older than the load.
-/

namespace NopCore

open AddressGeneration

/-! ## Merging -/

/-- A cached store as the address stages hand it on. -/
structure PlacedStore where
  uop : MemUop
  operands : Operands
  isLoad : uop.isLoad = false
  except : (generate uop operands).except = false
  cached : (generate uop operands).cached = true

namespace PlacedStore

variable (p : PlacedStore)

def write : Lanes.Write WordAddr (Fin 4) (BitVec 8) :=
  (generate p.uop p.operands).programStore.write

def store : ByteStore := (generate p.uop p.operands).byteStore p.operands.dataWord

theorem carried : p.store.Carried p.write := carried_generate p.isLoad p.except p.cached

theorem carried_map (ps : List PlacedStore) :
    List.Forall₂ ByteStore.Carried (ps.map store) (ps.map write) := by
  rw [List.forall₂_map_left_iff, List.forall₂_map_right_iff, List.forall₂_same]
  exact fun p _ => p.carried

end PlacedStore

namespace StoreBuffer

/-- The cached stores in the buffer, from the oldest on. -/
def cachedStores (q : StoreBuffer) : List StoreBufferSlot :=
  ((List.range storeBufferDepth).filter fun j => q.valid j && (q.slot j).isCachedStore).map q.slot

theorem query_eq_forwardAll (q : StoreBuffer) (addr : UWord) (word : BWord) :
    q.query addr word =
      Lanes.forwardAll (q.cachedStores.map StoreBufferSlot.write) (wordAddr addr) word := by
  rw [query, Lanes.forwardAll, cachedStores, List.foldl_map, List.foldl_map, List.foldl_filter]
  congr 1
  funext word j
  rw [Lanes.forward]
  by_cases hstore : (q.valid j && (q.slot j).isCachedStore) = true
  · rw [if_pos hstore]
    rw [Bool.and_eq_true] at hstore
    refine if_congr ?_ rfl rfl
    simp only [hstore, and_true]
    exact eq_comm
  · rw [if_neg hstore, if_neg]
    rintro ⟨-, hvalid, hcached⟩
    exact hstore (Bool.and_eq_true_iff.mpr ⟨hvalid, hcached⟩)

end StoreBuffer

namespace MemPipeline

variable {s : MemPipeline} {i : Inputs} {e : StoreBufferSlot}

theorem not_refillWrite (hs : s.stuck2 i = false) : s.refillWrite = false := by
  obtain hstate | hstate | hstate := (givesWay hs).refill <;> simp [refillWrite, hstate]

/-- Store data that hits is merged in the cache. -/
theorem nextDataRAMs_hit (hcommit : s.stdCommit i = true) (hstd : s.mem2.std = some e) :
    s.nextDataRAMs i s.hitWay (wordAddr e.addr).index (wordAddr e.addr).offset =
      Lanes.merge e.be e.data
        (s.dataRAMs s.hitWay (wordAddr e.addr).index (wordAddr e.addr).offset) := by
  have haddr : s.addr2 = wordAddr e.addr := by rw [addr2, MemStage.memAddr, hstd]
  have hs : s.stuck2 i = false := by
    simp only [stdCommit, hitCommit, Bool.and_eq_true, Bool.not_eq_true'] at hcommit
    exact hcommit.1.1.2
  simp [nextDataRAMs, not_refillWrite hs, hstd, hcommit, haddr]

/-- Store data that misses is merged in the word that is fetched. -/
theorem refillWord_std (hisSTD : s.isSTD = true) (hstd : s.mem2.std = some e)
    (hplace : s.refill.rspId = (wordAddr e.addr).offset) :
    s.refillWord = Lanes.merge e.be e.data s.refill.regBusWord := by
  simp [refillWord, hstd, hisSTD, hplace]

/-- What WB receives from MEM2. -/
def wbWord (s : MemPipeline) : BWord :=
  match s.mem2.std with
  | some std => loadPostprocess std.lsType (std.addr.extractLsb' 0 2) s.memRData
  | none => loadPostprocess s.uop2.lsType (s.uop2.addr.extractLsb' 0 2) s.memRData

theorem readData_nextWb (t : MemCore) (i : MemCore.Inputs) :
    (t.nextWb i).readData = t.pipeline.wbWord := rfl

end MemPipeline

/-- What is merged, and what a load extracts, against the memory of bytes. -/
structure MergePoints (m : ByteMemory 32) : Prop where
  storeBuffer : ∀ (q : StoreBuffer) (ps : List PlacedStore) (addr : UWord) (word : BWord),
    q.cachedStores.map StoreBufferSlot.write = ps.map PlacedStore.write →
      IsWordAt m (wordAddr addr) word →
        IsWordAt ((ps.map PlacedStore.store).foldl ByteStore.perform m) (wordAddr addr)
          (q.query addr word)
  std : ∀ (s : MemPipeline) (ps : List PlacedStore) (a : WordAddr) (word : BWord),
    s.forwarded = ps.map PlacedStore.write → IsWordAt m a word →
      IsWordAt ((ps.map PlacedStore.store).foldl ByteStore.perform m) a
        (Lanes.forwardAll s.forwarded a word)
  hit : ∀ (s : MemPipeline) (i : MemPipeline.Inputs) (e : StoreBufferSlot) (p : PlacedStore),
    s.stdCommit i = true → s.mem2.std = some e → e.write = p.write →
      IsWordAt m p.write.addr
        (s.dataRAMs s.hitWay p.write.addr.index p.write.addr.offset) →
          IsWordAt (p.store.perform m) p.write.addr
            (s.nextDataRAMs i s.hitWay p.write.addr.index p.write.addr.offset)
  refill : ∀ (s : MemPipeline) (e : StoreBufferSlot) (p : PlacedStore),
    s.isSTD = true → s.mem2.std = some e → e.write = p.write →
      s.refill.rspId = p.write.addr.offset → IsWordAt m p.write.addr s.refill.regBusWord →
        IsWordAt (p.store.perform m) p.write.addr s.refillWord
  load : ∀ (u : MemUop) (x : Operands) (word : BWord),
    (generate u x).except = false → (generate u x).cached = true → u.lsType.IsData →
      IsWordAt m (wordAddr (generate u x).addr) word →
        ofLanes (loadPostprocess u.lsType ((generate u x).addr.extractLsb' 0 2) word) =
          u.lsType.read m (generate u x).addr

/-- A merge in a word with the bytes of a memory. -/
theorem IsWordAt.merge {m : ByteMemory 32} {p : PlacedStore} {e : StoreBufferSlot} {word : BWord}
    (hword : IsWordAt m p.write.addr word) (he : e.write = p.write) :
    IsWordAt (p.store.perform m) p.write.addr (Lanes.merge e.be e.data word) := by
  have hforward := hword.forward p.carried
  rw [Lanes.forward, if_pos rfl, ← he] at hforward
  exact he ▸ hforward

theorem mergePoints (m : ByteMemory 32) : MergePoints m where
  storeBuffer := by
    intro q ps addr word hps hword
    rw [q.query_eq_forwardAll, hps]
    exact hword.forwardAll (PlacedStore.carried_map ps)
  std := by
    intro s ps a word hps hword
    rw [hps]
    exact hword.forwardAll (PlacedStore.carried_map ps)
  hit := by
    intro s i e p hcommit hstd he hword
    have haddr : wordAddr e.addr = p.write.addr := congrArg Lanes.Write.addr he
    rw [← haddr, MemPipeline.nextDataRAMs_hit hcommit hstd, haddr]
    exact hword.merge he
  refill := by
    intro s e p hisSTD hstd he hplace hword
    have haddr : wordAddr e.addr = p.write.addr := congrArg Lanes.Write.addr he
    rw [MemPipeline.refillWord_std hisSTD hstd (by rw [haddr]; exact hplace)]
    exact hword.merge he
  load := by
    intro u x word hexcept hcached hdata hword
    exact hword.load (aligned_generate hexcept hcached) hdata

/-! ## A run beside the memory of bytes -/

/-- The stores of an instruction, if it is one and raises no exception. -/
def MemUop.byteStores (u : MemUop) (value : UWord) : List ByteStore :=
  if u.isStore && !u.except then [u.byteStore value] else []

/-- A run of cached accesses with the stores that have issued and were not flushed. -/
structure ByteTrace where
  trace : LoadTrace := {}
  stores : List ByteStore := []

namespace ByteTrace

/-- The head of the issue queue comes with its operands. -/
structure Inputs where
  mem : MemPipeline.Inputs := {}
  operands : Operands := {}

def Inputs.generated (i : Inputs) : MemPipeline.Inputs :=
  { i.mem with head := generate i.mem.head i.operands }

variable (t : ByteTrace) (i : Inputs)

def step : ByteTrace where
  trace := t.trace.step i.generated
  stores :=
    if i.mem.flush then t.stores.take (t.trace.retiredNext i.generated)
    else t.stores ++
      (t.trace.issues i.generated).flatMap fun u => u.byteStores i.operands.dataWord

structure Init (t : ByteTrace) : Prop where
  trace : t.trace.Init
  stores : t.stores = []

/-- The issue queue offers cached loads and stores in program order; a load has the type
of a load. -/
structure Legal (t : ByteTrace) (i : Inputs) : Prop where
  trace : t.trace.Legal i.generated
  data : i.mem.headReady = true → i.mem.head.isLoad = true → i.mem.head.lsType.IsData

def machine : Clocked.Machine ByteTrace Inputs where
  init := Init
  legal := Legal
  step := step

/-- The memory of bytes after the stores that are older than an instruction. -/
def memoryBefore (number : Nat) : ByteMemory 32 :=
  (t.stores.filter fun x => decide (x.number < number)).foldl ByteStore.perform
    (bytes t.trace.memory.initial)

variable {t i}

theorem trace_reachable (h : machine.Reachable t) : LoadTrace.machine.Reachable t.trace := by
  induction h with
  | reset h => exact .reset h.trace
  | edge _ hlegal ih => exact .edge ih hlegal.trace

/-- A store of the program and the write that carries it. -/
structure Matches (x : ByteStore) (st : ProgramStore) : Prop where
  number : x.number = st.number
  carried : x.Carried st.write

/-- A load that raises no exception lies inside of its word. -/
structure Aligned (u : MemUop) : Prop where
  data : u.isLoad = true → u.lsType.IsData
  aligned : u.except = false → u.addr.toNat % 4 % u.lsType.size = 0

structure Inv (t : ByteTrace) : Prop where
  stores : List.Forall₂ Matches t.stores t.trace.program
  uops : ∀ u ∈ t.trace.memory.pipeline.uops, Aligned u

/-- The instruction that issues is the head of the queue. -/
theorem head_of_issues {u : MemUop} (hu : u ∈ t.trace.issues i.generated) :
    u = generate i.mem.head i.operands ∧ i.mem.headReady = true := by
  rw [LoadTrace.issues, MemPipeline.issuing] at hu
  split_ifs at hu with hflush hissue
  · cases hu
  · simp only [MemPipeline.issValid, Bool.and_eq_true] at hissue
    exact ⟨List.mem_singleton.mp hu, hissue.1.1⟩
  · cases hu

theorem aligned_issues (hlegal : t.Legal i) : ∀ u ∈ t.trace.issues i.generated, Aligned u := by
  intro u hu
  obtain ⟨rfl, hready⟩ := head_of_issues hu
  have haccess := hlegal.trace.cached hready
  exact ⟨hlegal.data hready, fun hexcept => aligned_generate hexcept haccess.cached⟩

theorem matches_issues (hlegal : t.Legal i) :
    List.Forall₂ Matches
      ((t.trace.issues i.generated).flatMap fun u => u.byteStores i.operands.dataWord)
      ((t.trace.issues i.generated).flatMap MemUop.stores) := by
  have hhead := fun u => head_of_issues (t := t) (i := i) (u := u)
  generalize t.trace.issues i.generated = us at hhead ⊢
  induction us with
  | nil => exact .nil
  | cons u us ih =>
    refine List.rel_append ?_ (ih fun v hv => hhead v (List.mem_cons_of_mem u hv))
    obtain ⟨rfl, hready⟩ := hhead u List.mem_cons_self
    have haccess := hlegal.trace.cached hready
    simp only [MemUop.byteStores, MemUop.stores]
    split_ifs with hstore
    · rw [Bool.and_eq_true, Bool.not_eq_true'] at hstore
      refine .cons ⟨rfl, carried_generate ?_ hstore.2 haccess.cached⟩ .nil
      have hkind := haccess.kind
      rw [show (i.generated.head).isStore = true from hstore.1] at hkind
      exact hkind
    · exact .nil

theorem Inv.step (h : t.Inv) (hlegal : t.Legal i) : (t.step i).Inv where
  stores := by
    change List.Forall₂ Matches (ite (i.mem.flush = true) _ _) (ite (i.mem.flush = true) _ _)
    split_ifs
    · exact List.forall₂_take _ h.stores
    · exact List.rel_append h.stores (matches_issues hlegal)
  uops := by
    intro u hu
    change u ∈ (t.trace.memory.pipeline.step i.generated).uops at hu
    cases hflush : i.generated.flush with
    | true =>
      rw [MemPipeline.uops_flush hflush] at hu
      cases hu
    | false =>
      have hconserved := MemPipeline.uops_step (s := t.trace.memory.pipeline) hflush
      have hmem := List.mem_append_right (t.trace.memory.pipeline.departing i.generated) hu
      rw [hconserved] at hmem
      obtain hold | hnew := List.mem_append.mp hmem
      · exact h.uops u hold
      · apply aligned_issues hlegal
        rwa [LoadTrace.issues, hflush]

theorem inv_of_reachable (h : machine.Reachable t) : t.Inv := by
  refine Clocked.Machine.invariant (P := Inv) ?_ ?_ h
  · intro t ht
    have hpipeline := ht.trace.memory.pipeline
    refine ⟨?_, ?_⟩
    · rw [ht.stores, ht.trace.program]
      exact .nil
    · simp [MemPipeline.uops, MemPipeline.stageUop, hpipeline.rrd.1, hpipeline.memaddr.1,
        hpipeline.mem1.1, hpipeline.mem2.1]
  · intro t i hinv hlegal
    exact hinv.step hlegal

/-- The older stores of the two records. -/
theorem Inv.older (h : t.Inv) (number : Nat) :
    List.Forall₂ ByteStore.Carried (t.stores.filter fun x => decide (x.number < number))
      ((t.trace.older number).map ProgramStore.write) := by
  have hfilter := List.rel_filter (R := Matches)
    (p := fun x => decide (x.number < number)) (q := fun st => decide (st.number < number))
    (fun x st hx => by simp only [hx.number]) h.stores
  rw [List.forall₂_map_right_iff]
  exact hfilter.imp fun _ _ hx => hx.carried

/-- Whatever place supplies a byte, a load leaves MEM2 with the bytes of a memory of bytes
after the older stores of the program, extended as its type says; and at each place by itself
the bytes of the store are replaced and the others stay. -/
theorem byteLane_roundTrip (m : ByteMemory 32) (h : machine.Reachable t)
    {mem : MemPipeline.Inputs} (hreturns : t.trace.returns mem = true) :
    MergePoints m ∧
      ofLanes t.trace.memory.pipeline.wbWord =
        t.trace.memory.pipeline.uop2.lsType.read
          (t.memoryBefore t.trace.memory.pipeline.uop2.number)
          t.trace.memory.pipeline.uop2.addr := by
  refine ⟨mergePoints m, ?_⟩
  have hinv := inv_of_reachable h
  have htrace := LoadTrace.inv_of_reachable (trace_reachable h)
  have hstd := (htrace.load hreturns).2
  have hread := htrace.memRData hreturns
  simp only [LoadTrace.returns, Bool.and_eq_true, Bool.not_eq_true'] at hreturns
  obtain ⟨⟨⟨hvalid, hload⟩, hexcept⟩, -⟩ := hreturns
  have haligned : Aligned t.trace.memory.pipeline.uop2 := by
    apply hinv.uops
    simp [MemPipeline.uops, MemPipeline.stageUop, hvalid, MemPipeline.uop2]
  have hinitial : IsWordAt (bytes t.trace.memory.initial)
      (wordAddr t.trace.memory.pipeline.uop2.addr)
      (t.trace.memory.initial (wordAddr t.trace.memory.pipeline.uop2.addr)) := by
    intro addr haddr
    rw [bytes, haddr]
  have hword := hinitial.forwardAll (hinv.older t.trace.memory.pipeline.uop2.number)
  rw [← hread] at hword
  rw [MemPipeline.wbWord, hstd]
  exact hword.load (haligned.aligned hexcept) (haligned.data hload)

/-! ## A run of a store and a load -/

instance (type : LoadStoreType) : Decidable type.IsData :=
  inferInstanceAs (Decidable (_ ∧ _))

instance (t : ByteTrace) (i : Inputs) : Decidable (machine.legal t i) :=
  decidable_of_iff
    (LoadTrace.machine.legal t.trace i.generated ∧
      (i.mem.headReady = true → i.mem.head.isLoad = true → i.mem.head.lsType.IsData))
    ⟨fun ⟨h1, h2⟩ => ⟨h1, h2⟩, fun h => ⟨h.trace, h.data⟩⟩

def atReset : ByteTrace where
  trace := LoadTrace.atReset

def issue (u : MemUop) (virtAddr dataWord : UWord) : Inputs where
  mem := LoadTrace.issue u
  operands := { virtAddr, dataWord }

/-- The line of a load is fetched. -/
def fetchLine : List MemPipeline.Inputs :=
  MemTrace.wait 4 ++ [{ arReady := true }] ++ List.replicate 16 { rValid := true } ++
    MemTrace.wait 1

/-- A store of a half to the upper lanes and a load of its last byte, which misses. -/
def storeAndLoad : List Inputs :=
  [issue { number := 0, isStore := true, lsType := .half } 0x1102 0x12348f56,
   issue { number := 1, isLoad := true, lsType := .byte } 0x1103 0] ++
    fetchLine.map fun mem => { mem := mem }

/-- The byte is that of the store, and its sign is extended. -/
theorem byteLane_roundTrip_storeAndLoad :
    (machine.run atReset storeAndLoad).trace.returns MemTrace.idle = true ∧
      ofLanes (machine.run atReset storeAndLoad).trace.memory.pipeline.wbWord =
        LoadStoreType.byte.read ((machine.run atReset storeAndLoad).memoryBefore 1) 0x1103 ∧
      LoadStoreType.byte.read ((machine.run atReset storeAndLoad).memoryBefore 1) 0x1103 =
        0xffffff8f := by
  have hinit : Init atReset := ⟨LoadTrace.init_atReset, rfl⟩
  have hrun : machine.Reachable (machine.run atReset storeAndLoad) :=
    Clocked.Machine.Reachable.run (.reset hinit) (by decide +kernel)
  have hreturns : (machine.run atReset storeAndLoad).trace.returns MemTrace.idle = true := by
    decide +kernel
  have hload :
      (machine.run atReset storeAndLoad).trace.memory.pipeline.uop2.number = 1 ∧
        (machine.run atReset storeAndLoad).trace.memory.pipeline.uop2.lsType = .byte ∧
        (machine.run atReset storeAndLoad).trace.memory.pipeline.uop2.addr = 0x1103 := by
    decide +kernel
  have hword := (byteLane_roundTrip (fun _ => 0) hrun hreturns).2
  rw [hload.1, hload.2.1, hload.2.2] at hword
  exact ⟨hreturns, hword, by decide +kernel⟩

end ByteTrace

end NopCore
