import NopCore.Mem.CachedOnly

/-!
# What a cached load returns

The stores of the program are, from the oldest on, those that have left MEM2 as
store data, those that travel to it, those in the store buffer, and those whose
addresses are still on their way to the buffer. The first have been performed on
the logical memory. MEM1 read a word some cycles before MEM2 uses it; what has been
written to the line since then is still behind MEM2, and forwarding it over the word
gives the word of the logical memory. Forwarding the store data in front of MEM2 and
the buffer after it, in this order, performs the rest of the program.

The record of a run keeps the stores that have issued, in program order. A flush
takes away those that have not retired. An instruction is numbered when it issues,
so that older means a smaller number.
-/

namespace NopCore

/-- A store of the program. -/
structure ProgramStore where
  number : Nat
  write : Lanes.Write WordAddr (Fin 4) (BitVec 8)

def MemUop.programStore (u : MemUop) : ProgramStore := ⟨u.number, wordAddr u.addr, u.be, u.data⟩

/-- The store of an instruction, if it is one and raises no exception. -/
def MemUop.stores (u : MemUop) : List ProgramStore :=
  if u.isStore && !u.except then [u.programStore] else []

def StoreBufferSlot.programStore (e : StoreBufferSlot) : ProgramStore := ⟨e.number, e.write⟩

namespace MemPipeline

variable {s : MemPipeline} {i : Inputs}

/-! ## The instructions in the stages -/

/-- The instruction of a stage. -/
def stageUop (st : MemStage) : List MemUop := if st.isValid then [st.uop] else []

/-- The instructions between issue and the end of MEM2, from the oldest on. -/
def uops (s : MemPipeline) : List MemUop :=
  stageUop s.mem2 ++ stageUop s.mem1 ++ stageUop s.memaddr ++ stageUop s.rrd

/-- The instruction that leaves MEM2. -/
def departing (s : MemPipeline) (i : Inputs) : List MemUop :=
  if s.stuck2 i then [] else stageUop s.mem2

/-- The instruction that issues. -/
def issuing (s : MemPipeline) (i : Inputs) : List MemUop :=
  if s.issValid i && !s.stuck1 i then [i.head] else []

theorem uops_step (hflush : i.flush = false) :
    s.departing i ++ (s.step i).uops = s.uops ++ s.issuing i := by
  cases h2 : s.stuck2 i with
  | true =>
    have h1 : s.stuck1 i = true := by simp [stuck1, h2]
    simp [departing, issuing, uops, step, nextStage, nextMem2, h1, h2, hflush]
  | false =>
    cases hr : s.doRefetch i with
    | true =>
      have h1 : s.stuck1 i = true := by simp [stuck1, hr]
      simp [departing, issuing, uops, step, nextStage, nextMem2, stageUop, h1, h2, hr, hflush]
    | false =>
      have h1 : s.stuck1 i = false := by simp [stuck1, h2, hr]
      simp [departing, issuing, uops, step, nextStage, nextMem2, stageUop, issStage, h1, h2, hr,
        hflush]

theorem uops_flush (hflush : i.flush = true) : (s.step i).uops = [] := by
  have hstage : ∀ prev cur : MemStage, stageUop (s.nextStage i prev cur) = [] := by
    intro prev cur
    rw [nextStage]
    split_ifs <;> simp [stageUop, hflush]
  have hmem2 : stageUop (s.nextMem2 i) = [] := by
    rw [nextMem2]
    split_ifs <;> simp [stageUop, hflush]
  change stageUop (s.nextMem2 i) ++ stageUop (s.nextStage i _ _) ++
    stageUop (s.nextStage i _ _) ++ stageUop (s.nextStage i _ _) = []
  simp [hmem2, hstage]

/-- A store enters the buffer when its instruction leaves MEM2. -/
theorem push_programStore (h : s.CachedOnly) (hc : s.Control) :
    (s.push i).toList.map StoreBufferSlot.programStore =
      (s.departing i).flatMap MemUop.stores := by
  rw [push, departing, stageUop]
  cases hvalid : s.mem2.isValid with
  | false => simp [pushValid, hvalid]
  | true =>
    have haccess := h.mem2 (hc.entered hvalid)
    have hpush : s.pushValid = (s.uop2.isStore && !s.uop2.except) := by
      rw [pushValid, hvalid, haccess.cached]
      cases s.uop2.isStore <;> cases s.uop2.except <;> simp
    have hslot : s.pushSlot.programStore = s.uop2.programStore := rfl
    cases hs : s.stuck2 i with
    | true => simp
    | false =>
      have hflat : [s.mem2.uop].flatMap MemUop.stores = s.uop2.stores := by simp [uop2]
      simp only [hpush, Bool.not_false, Bool.and_true, Bool.false_eq_true, if_false, if_true]
      rw [hflat, MemUop.stores]
      split_ifs
      · rw [Option.toList_some, List.map_singleton, hslot]
      · rfl

/-- Store data is store data of a cached store. -/
theorem stdWrites_carried {std : Option StoreBufferSlot}
    (h : ∀ e ∈ std, e.isCachedStore = true) :
    stdWrites std = (carried std).map StoreBufferSlot.write := by
  cases std with
  | none => rfl
  | some e => simp [stdWrites, h e rfl]

/-! ## What takes effect -/

/-- A cycle that holds MEM2 outside of the last cycle of a refill changes nothing. -/
theorem performs_held (h : s.CachedOnly) (hs : s.stuck2 i = true)
    (hcommit : s.refill.state ≠ .commit) : s.performs i = [] := by
  simp [performs, hcommit, hitCommit, hs, h.uncachedSent]

theorem performs_commit (h : s.CachedOnly) (hcommit : s.refill.state = .commit) :
    s.performs i = stdWrites s.mem2.std := by
  simp [performs, hcommit, h.uncachedSent]

/-- After a refill the store data has been merged. -/
theorem performs_finish (h : s.CachedOnly) (hc : s.Control) (hfinish : s.refill.state = .finish) :
    s.performs i = [] := by
  have hmiss := (hc.refill (by simp [refilling, hfinish])).2
  simp [performs, hfinish, hitCommit, hmiss, h.uncachedSent]

/-- Outside of a refill the store data that leaves MEM2 hits. -/
theorem performs_boot (h : s.CachedOnly) (hboot : s.refill.state = .stateBoot)
    (hs : s.stuck2 i = false) : s.performs i = stdWrites s.mem2.std := by
  cases hstd : s.mem2.std with
  | none => simp [performs, hstd, stdWrites, h.uncachedSent]
  | some e =>
    have hreq : s.reqValid = true := by simp [reqValid, h.isSTD, hstd]
    have hmiss := (givesWay hs).miss
    have hhit : s.hit = true := by simpa [miss, hboot, hreq] using hmiss
    have hcommit : s.hitCommit i = true := hitCommit_iff.mpr ⟨hreq, hs, hhit⟩
    simp [performs, hcommit, h.uncachedSent, hstd]

end MemPipeline

namespace MemTrace

variable {t : MemTrace} {i : MemPipeline.Inputs}

theorem word_step (a : WordAddr) :
    (t.step i).word a = Lanes.forwardAll (t.pipeline.performs i) a (t.word a) := by
  rw [word, step, Lanes.writes_append, Lanes.writes_apply]
  rfl

/-- A store that has just been performed may be forwarded again. -/
theorem word_absorb {ws : List (Lanes.Write WordAddr (Fin 4) (BitVec 8))}
    (h : ∃ before, t.performed = before ++ ws) (a : WordAddr) :
    Lanes.forwardAll ws a (t.word a) = t.word a := by
  obtain ⟨before, hbefore⟩ := h
  rw [word, Lanes.writes_apply, hbefore, Lanes.forwardAll_absorb]

/-! ## What MEM1 has read -/

/-- Outside of a refill, what has been written to a line since MEM1 read it is
behind MEM2. -/
structure Fresh (t : MemTrace) : Prop where
  read : t.pipeline.refill.state = .stateBoot → ∀ way,
    t.pipeline.HoldsLine t.pipeline.mem1.memAddr.line way →
      Lanes.forwardAll (MemPipeline.stdWrites t.pipeline.wb) t.pipeline.mem1.memAddr
        (t.pipeline.dataRead way) = t.word t.pipeline.mem1.memAddr
  response : t.pipeline.refill.state = .stateBoot → t.pipeline.active = true → ∀ way,
    t.pipeline.HoldsLine t.pipeline.addr2.line way →
      Lanes.forwardAll (MemPipeline.stdWrites t.pipeline.wb2 ++ MemPipeline.stdWrites t.pipeline.wb)
        t.pipeline.addr2 (t.pipeline.dataRsp way) = t.word t.pipeline.addr2

theorem Fresh.of_init (h : Init t) : t.Fresh := by
  constructor
  · intro _ way hholds
    rw [MemPipeline.HoldsLine, h.pipeline.valids] at hholds
    cases hholds.1
  · intro _ _ way hholds
    rw [MemPipeline.HoldsLine, h.pipeline.valids] at hholds
    cases hholds.1

/-- The pipeline with cached accesses only, and the lines of the cache. -/
structure CachedState (t : MemTrace) : Prop where
  sound : t.pipeline.Sound
  cached : t.pipeline.CachedOnly
  room : t.pipeline.HasRoom
  drained : t.pipeline.Drained
  coherent : ∀ l, t.pipeline.Coherent l (t.image l)

namespace CachedState

theorem of_init (h : Init t) : t.CachedState where
  sound := .of_init h.pipeline
  cached := .of_init h.pipeline
  room := .of_init h.pipeline
  drained := .of_init h.pipeline
  coherent l := by
    have himage : t.image l = fun k => t.pipeline.memory.content (l.word k) := by
      funext k
      rw [image, word, h.performed, h.initial, Lanes.writes_nil]
    rw [himage]
    exact .of_init h.pipeline

variable (h : t.CachedState)
include h

theorem step (hlegal : t.pipeline.Legal i)
    (hhead : i.headReady = true → i.head.CachedAccess) : (t.step i).CachedState where
  sound := h.sound.step hlegal (MemPipeline.keepsTags h.cached.storeTag)
  cached := h.cached.step h.sound.control hhead
  room := h.room.step hlegal
  drained := h.drained.step
  coherent l := by
    rw [image_step]
    exact (h.coherent l).step h.sound (MemPipeline.keepsTags h.cached.storeTag)
      fun _ _ => h.cached.not_unsent l

/-- A way outside of a refill has the words of the line. -/
theorem ram {a : WordAddr} {way : Fin 2} (hholds : t.pipeline.HoldsLine a.line way)
    (hstate : t.pipeline.refill.state = .stateBoot ∨ t.pipeline.refill.state = .finish) :
    t.pipeline.dataRAMs way a.index a.offset = t.word a := by
  have hrep : ¬ t.pipeline.Replaced a.line.index way := by
    rintro ⟨hbusy | hbusy | hbusy, -⟩ <;> rw [hbusy] at hstate <;>
      obtain hstate | hstate := hstate <;> cases hstate
  exact congrFun ((h.coherent a.line).intact way hholds hrep) a.offset

/-- The boot state follows upon a hit or upon the end of a refill. -/
theorem boot_before (hnext : (t.step i).pipeline.refill.state = .stateBoot) :
    t.pipeline.stuck2 i = false ∧
      (t.pipeline.refill.state = .stateBoot ∨ t.pipeline.refill.state = .finish) := by
  have hcases := h.cached.refill_cases h.sound.control
  have hmiss := h.cached.stuck2_boot (i := i) h.sound.control h.room
  have hstart := h.cached.startLDU
  simp only [MemTrace.step, MemPipeline.step, MemPipeline.nextRefill] at hnext
  simp only [MemPipeline.refilling, Bool.or_eq_true, beq_iff_eq] at hcases
  cases hstate : t.pipeline.refill.state <;> simp only [hstate] at hnext hcases hmiss <;> grind

/-- At the end of a refill the store data of MEM2 is the last store performed. -/
def Merged (t : MemTrace) : Prop :=
  t.pipeline.refill.state = .finish →
    ∃ before, t.performed = before ++ MemPipeline.stdWrites t.pipeline.mem2.std

/-- What leaves MEM2 has taken effect. -/
theorem word_leaving (hmerged : Merged t) (hs : t.pipeline.stuck2 i = false)
    (hstate : t.pipeline.refill.state = .stateBoot ∨ t.pipeline.refill.state = .finish)
    (a : WordAddr) :
    Lanes.forwardAll (MemPipeline.stdWrites t.pipeline.mem2.std) a (t.word a) =
      (t.step i).word a := by
  rw [word_step]
  obtain hboot | hfinish := hstate
  · rw [MemPipeline.performs_boot h.cached hboot hs]
  · rw [MemPipeline.performs_finish h.cached h.sound.control hfinish, Lanes.forwardAll_nil]
    exact word_absorb (hmerged hfinish) a

theorem holds_before {l : LineAddr} {way : Fin 2} (hholds : (t.step i).pipeline.HoldsLine l way)
    (hs : t.pipeline.stuck2 i = false) : t.pipeline.HoldsLine l way :=
  MemPipeline.Coherent.holds_before h.sound hholds
    (MemPipeline.Sampled.not_committing_of_not_stuck hs _ _)

/-- The read ports serve MEM1 when MEM2 gives way. -/
theorem read_step (hs : t.pipeline.stuck2 i = false) (way : Fin 2) :
    (t.step i).pipeline.dataRead way = t.pipeline.dataRAMs way
        (t.step i).pipeline.mem1.memAddr.index (t.step i).pipeline.mem1.memAddr.offset ∧
      (t.step i).pipeline.dataRsp = t.pipeline.dataRead := by
  have hidle : t.pipeline.fetching = false := by
    simp [MemPipeline.fetching, (MemPipeline.givesWay hs).writeback]
  have hrefetch := h.cached.doRefetch (i := i) h.sound.control
  have henable : t.pipeline.readEnable i = true := by
    simp only [MemPipeline.readEnable, MemPipeline.stuck1, hs]
    cases t.pipeline.doRefetch i <;> rfl
  refine ⟨?_, by simp [MemTrace.step, MemPipeline.step, henable]⟩
  have hread : (t.step i).pipeline.dataRead way = t.pipeline.dataRAMs way
      (t.pipeline.readAddr i).index (t.pipeline.readAddr i).offset := by
    simp [MemTrace.step, MemPipeline.step, MemPipeline.nextDataRead, hidle, henable]
  have haddr : (t.step i).pipeline.mem1.memAddr = t.pipeline.readAddr i := by
    rw [MemPipeline.readAddr]
    cases hr : t.pipeline.doRefetch i with
    | true => exact MemPipeline.Sampled.mem1_stuck (by simp [MemPipeline.stuck1, hr])
    | false => exact MemPipeline.Sampled.mem1_advance (by simp [MemPipeline.stuck1, hs, hr])
  rw [hread, haddr]

theorem fresh_step (hfresh : t.Fresh) (hmerged : Merged t) : (t.step i).Fresh where
  read hnext way hholds := by
    obtain ⟨hs, hstate⟩ := h.boot_before hnext
    have hwb : (t.step i).pipeline.wb = t.pipeline.mem2.std := by
      simp [MemTrace.step, MemPipeline.step, hs]
    rw [hwb, (h.read_step hs way).1, h.ram (h.holds_before hholds hs) hstate]
    exact h.word_leaving hmerged hs hstate _
  response hnext hactive way hholds := by
    obtain ⟨hs, hstate⟩ := h.boot_before hnext
    have hr : t.pipeline.doRefetch i = false := by
      by_contra hr
      have hidle := MemPipeline.Sampled.active_refetch (Bool.of_not_eq_false hr)
      change (t.pipeline.step i).active = true at hactive
      rw [hidle] at hactive
      cases hactive
    have hboot : t.pipeline.refill.state = .stateBoot := by
      refine hstate.resolve_right fun hfinish => ?_
      rw [h.cached.doRefetch h.sound.control, hs, hfinish] at hr
      cases hr
    have haddr : (t.step i).pipeline.addr2 = t.pipeline.mem1.memAddr :=
      MemPipeline.Sampled.addr2_advance hs hr
    have hwb : (t.step i).pipeline.wb = t.pipeline.mem2.std := by
      simp [MemTrace.step, MemPipeline.step, hs]
    have hwb2 : (t.step i).pipeline.wb2 = t.pipeline.wb := rfl
    rw [haddr] at hholds ⊢
    rw [hwb, hwb2, (h.read_step hs way).2, Lanes.forwardAll_append,
      hfresh.read hboot way (h.holds_before hholds hs)]
    exact h.word_leaving hmerged hs hstate _

/-! ## What MEM2 reads -/

/-- The word of the cache with what is behind MEM2 is the word of the logical
memory, on a hit as after a refill. -/
theorem word_read (hfresh : t.Fresh) (hs : t.pipeline.stuck2 i = false)
    (hreq : t.pipeline.reqValid = true) :
    Lanes.forwardAll (MemPipeline.stdWrites t.pipeline.wb2 ++ MemPipeline.stdWrites t.pipeline.wb)
        t.pipeline.addr2
        (if t.pipeline.hit then t.pipeline.hitData else t.pipeline.refill.storedWord) =
      t.word t.pipeline.addr2 := by
  have hactive := MemPipeline.active_of_reqValid hreq
  obtain hboot | hrefill := h.cached.refill_cases h.sound.control
  · have hmiss := (MemPipeline.givesWay hs).miss
    have hhit : t.pipeline.hit = true := by simpa [MemPipeline.miss, hboot, hreq] using hmiss
    have hdata : t.pipeline.hitData = t.pipeline.dataRsp t.pipeline.hitWay := by
      rw [MemPipeline.hitData]
      split_ifs with h0
      · rw [← h.sound.exact.hitWay_unique h.sound.sampled hactive h0]
      · rw [MemPipeline.hitWay, if_pos]
        rw [MemPipeline.hit, Bool.or_eq_true] at hhit
        exact hhit.resolve_left h0
    rw [if_pos hhit, hdata]
    exact hfresh.response hboot hactive _ (h.sound.holds_hitWay hreq hhit)
  · have hfinish : t.pipeline.refill.state = .finish := by
      have hgives := (MemPipeline.givesWay hs).refill
      simp only [MemPipeline.refilling, Bool.or_eq_true, beq_iff_eq] at hrefill
      obtain hstate | hstate | hstate := hgives <;> simp_all
    have hmiss := (h.sound.control.refill hrefill).2
    rw [h.drained.wb hrefill, h.drained.wb2 hrefill (by simp [hfinish]), hmiss]
    exact (h.coherent t.pipeline.addr2.line).finished hfinish rfl

end CachedState

end MemTrace

/-- A run of cached accesses with its record. -/
structure LoadTrace where
  memory : MemTrace := {}
  /-- The stores that have issued and were not flushed, in program order. -/
  program : List ProgramStore := []
  /-- How many of them have retired. -/
  retired : Nat := 0
  /-- How many instructions have issued. -/
  issued : Nat := 0

namespace LoadTrace

open MemPipeline (Inputs)

variable (t : LoadTrace) (i : Inputs)

/-- The instruction that issues in this cycle and is not flushed. -/
def issues : List MemUop := if i.flush then [] else t.memory.pipeline.issuing i

def retiredNext : Nat := t.retired + i.commitStore.toNat

def step : LoadTrace where
  memory := t.memory.step i
  program :=
    if i.flush then t.program.take (t.retiredNext i)
    else t.program ++ (t.issues i).flatMap MemUop.stores
  retired := t.retiredNext i
  issued := t.issued + (t.issues i).length

structure Init (t : LoadTrace) : Prop where
  memory : t.memory.Init
  program : t.program = []
  retired : t.retired = 0
  issued : t.issued = 0

/-- The issue queue offers cached loads and stores in program order. -/
structure Legal (t : LoadTrace) (i : Inputs) : Prop where
  pipeline : t.memory.pipeline.Legal i
  cached : i.headReady = true → i.head.CachedAccess
  number : i.headReady = true → i.head.number = t.issued

def machine : Clocked.Machine LoadTrace Inputs where
  init := Init
  legal := Legal
  step := step

/-- A cached load leaves MEM2. -/
def returns : Bool :=
  t.memory.pipeline.mem2.isValid && t.memory.pipeline.uop2.isLoad &&
    !t.memory.pipeline.uop2.except && !t.memory.pipeline.stuck2 i

/-- The stores of the program before an instruction. -/
def older (number : Nat) : List ProgramStore :=
  t.program.filter fun st => decide (st.number < number)

/-- The byte that the youngest older store to it has written, or the initial one. -/
def byteBefore (number : Nat) (a : WordAddr) (lane : Fin 4) : BitVec 8 :=
  match (t.older number).reverse.find? fun st =>
    decide (st.write.addr = a) && st.write.be lane with
  | some st => st.write.data lane
  | none => t.memory.initial a lane

variable {t i}

theorem byteBefore_eq (number : Nat) (a : WordAddr) (lane : Fin 4) :
    t.byteBefore number a lane =
      Lanes.forwardAll ((t.older number).map ProgramStore.write) a (t.memory.initial a) lane := by
  rw [Lanes.forwardAll_lane, ← List.map_reverse, List.find?_map, byteBefore]
  simp only [Function.comp_def]
  cases (t.older number).reverse.find? fun st => decide (st.write.addr = a) && st.write.be lane <;>
    rfl

/-! ## Where the stores are -/

/-- The stores of the program by their place, and what has been performed. -/
structure Places (t : LoadTrace) (log : AccessLog) (gone entries : List StoreBufferSlot)
    (marked : Nat) : Prop where
  follows : log.Follows t.memory.pipeline gone entries marked
  program : t.program = log.program.map StoreBufferSlot.programStore ++
    t.memory.pipeline.uops.flatMap MemUop.stores
  retired : t.retired = log.retired
  performed : t.memory.performed = gone.map StoreBufferSlot.write ++
    (if t.memory.pipeline.refill.state = .finish then
      MemPipeline.stdWrites t.memory.pipeline.mem2.std else [])
  ordered : (log.program.map StoreBufferSlot.number ++
    t.memory.pipeline.uops.map fun u => u.number).Pairwise (· < ·)
  issued : ∀ n ∈ log.program.map StoreBufferSlot.number ++
    t.memory.pipeline.uops.map (fun u => u.number), n < t.issued

variable {log : AccessLog} {gone entries : List StoreBufferSlot} {marked : Nat}

theorem Places.of_init (h : Init t) : Places t {} [] [] 0 := by
  have hpipeline := h.memory.pipeline
  have huops : t.memory.pipeline.uops = [] := by
    simp [MemPipeline.uops, MemPipeline.stageUop, hpipeline.rrd.1, hpipeline.memaddr.1,
      hpipeline.mem1.1, hpipeline.mem2.1]
  refine ⟨.of_init hpipeline, ?_, h.retired, ?_, ?_, ?_⟩
  · simp [h.program, huops]
  · simp [h.memory.performed, hpipeline.refill.1]
  · simp [huops]
  · simp [huops]

theorem Places.merged (h : Places t log gone entries marked) :
    MemTrace.CachedState.Merged t.memory := by
  intro hfinish
  refine ⟨gone.map StoreBufferSlot.write, ?_⟩
  rw [h.performed, if_pos hfinish]

theorem retired_le (h : Places t log gone entries marked) (hlegal : t.memory.pipeline.Legal i) :
    log.retiredNext i ≤ log.program.length := by
  have hle := h.follows.buffer.marked_le
  have hcommit : i.commitStore = true → marked < entries.length := by
    intro hc
    have hun := hlegal.commitStore hc
    rwa [h.follows.buffer.hasUnretired, decide_eq_true_eq] at hun
  rw [AccessLog.retiredNext, h.follows.retired, h.follows.program, List.length_append,
    List.length_append]
  cases hc : i.commitStore with
  | false => simp only [Bool.toNat_false]; omega
  | true =>
    have hlt := hcommit hc
    simp only [Bool.toNat_true]
    omega

theorem program_step (h : Places t log gone entries marked) (hstate : t.memory.CachedState)
    (hlegal : t.memory.pipeline.Legal i) :
    (t.step i).program =
      (log.next t.memory.pipeline i).program.map StoreBufferSlot.programStore ++
        (t.step i).memory.pipeline.uops.flatMap MemUop.stores := by
  change _ = _ ++ (t.memory.pipeline.step i).uops.flatMap MemUop.stores
  have hretired : t.retiredNext i = log.retiredNext i := by
    rw [retiredNext, h.retired, AccessLog.retiredNext]
  cases hflush : i.flush with
  | true =>
    have hle := retired_le h hlegal
    rw [MemPipeline.uops_flush hflush]
    simp only [step, AccessLog.next, hflush, if_true, hretired, h.program, List.map_take,
      List.flatMap_nil, List.append_nil]
    rw [List.take_append_of_le_length (by rw [List.length_map]; exact hle)]
  | false =>
    have hconserved := congrArg (List.flatMap MemUop.stores)
      (MemPipeline.uops_step (s := t.memory.pipeline) hflush)
    rw [List.flatMap_append, List.flatMap_append,
      ← MemPipeline.push_programStore hstate.cached hstate.sound.control] at hconserved
    simp only [step, AccessLog.next, hflush, Bool.false_eq_true, if_false, h.program, issues,
      List.map_append]
    rw [List.append_assoc, List.append_assoc, hconserved]

/-- The numbers after a clock edge are some of those before, and the one that issues. -/
theorem numbers_step :
    ((log.next t.memory.pipeline i).program.map StoreBufferSlot.number ++
      (t.memory.pipeline.step i).uops.map fun u => u.number).Sublist
      ((log.program.map StoreBufferSlot.number ++
        t.memory.pipeline.uops.map fun u => u.number) ++ (t.issues i).map fun u => u.number) := by
  cases hflush : i.flush with
  | true =>
    rw [MemPipeline.uops_flush hflush]
    simp only [AccessLog.next, hflush, if_true, List.map_take, List.map_nil, List.append_nil]
    exact ((List.take_sublist _ _).trans (List.sublist_append_left _ _)).trans
      (List.sublist_append_left _ _)
  | false =>
    have hconserved := congrArg (List.map fun u : MemUop => u.number)
      (MemPipeline.uops_step (s := t.memory.pipeline) hflush)
    rw [List.map_append, List.map_append] at hconserved
    have hpush : ((t.memory.pipeline.push i).toList.map StoreBufferSlot.number).Sublist
        ((t.memory.pipeline.departing i).map fun u => u.number) := by
      rw [MemPipeline.push, MemPipeline.departing, MemPipeline.stageUop]
      split_ifs with hpush hs hvalid hvalid
      · simp [hs] at hpush
      · exact List.Sublist.refl _
      · simp [MemPipeline.pushValid, hvalid] at hpush
      all_goals exact List.nil_sublist _
    simp only [AccessLog.next, hflush, Bool.false_eq_true, if_false, issues, List.map_append]
    rw [List.append_assoc, List.append_assoc, ← hconserved]
    exact (List.Sublist.refl _).append (hpush.append (List.Sublist.refl _))

theorem performed_step (h : Places t log gone entries marked) (hstate : t.memory.CachedState) :
    (t.step i).memory.performed = (gone ++ t.memory.pipeline.leaves i).map StoreBufferSlot.write ++
      (if (t.memory.pipeline.step i).refill.state = .finish then
        MemPipeline.stdWrites (t.memory.pipeline.step i).mem2.std else []) := by
  have hstd := MemPipeline.stdWrites_carried hstate.cached.std
  have hperformed : (t.step i).memory.performed =
      t.memory.performed ++ t.memory.pipeline.performs i := rfl
  rw [hperformed, h.performed, List.map_append, MemPipeline.leaves]
  cases hs : t.memory.pipeline.stuck2 i with
  | true =>
    -- MEM2 keeps its store data, which the last cycle of the refill merges
    rw [(MemPipeline.held_step hs).std]
    simp only [MemPipeline.finish_step, hs, if_true, List.map_nil, List.append_nil, and_true]
    by_cases hcommit : t.memory.pipeline.refill.state = .commit
    · rw [MemPipeline.performs_commit hstate.cached hcommit]
      simp [hcommit]
    · rw [MemPipeline.performs_held hstate.cached hs hcommit]
      simp [hcommit]
  | false =>
    have hnext := (MemPipeline.givesWay hs).refill_step hs
    simp only [hnext, Bool.false_eq_true, if_false]
    obtain hboot | hrefill := hstate.cached.refill_cases hstate.sound.control
    · rw [MemPipeline.performs_boot hstate.cached hboot hs]
      simp [hboot, hstd]
    · have hfinish : t.memory.pipeline.refill.state = .finish := by
        have hgives := (MemPipeline.givesWay hs).refill
        simp only [MemPipeline.refilling, Bool.or_eq_true, beq_iff_eq] at hrefill
        obtain hstate | hstate | hstate := hgives <;> simp_all
      rw [MemPipeline.performs_finish hstate.cached hstate.sound.control hfinish]
      simp [hfinish, hstd]

/-- An instruction is numbered when it issues. -/
theorem number_issues (hlegal : t.Legal i) {u : MemUop} (hu : u ∈ t.issues i) :
    u.number = t.issued := by
  rw [issues, MemPipeline.issuing] at hu
  split_ifs at hu with hflush hissue
  · cases hu
  · obtain rfl := List.mem_singleton.mp hu
    simp only [MemPipeline.issValid, Bool.and_eq_true] at hissue
    exact hlegal.number hissue.1.1
  · cases hu

theorem Places.step (h : Places t log gone entries marked) (hstate : t.memory.CachedState)
    (hlegal : t.Legal i) :
    ∃ log gone entries marked, Places (t.step i) log gone entries marked := by
  refine ⟨log.next t.memory.pipeline i, gone ++ t.memory.pipeline.leaves i, _, _,
    h.follows.step hlegal.pipeline, program_step h hstate hlegal.pipeline, ?_,
    performed_step h hstate, ?_, ?_⟩
  · change t.retired + _ = log.retired + _
    rw [h.retired]
  · refine List.Pairwise.sublist numbers_step (List.pairwise_append.mpr ⟨h.ordered, ?_, ?_⟩)
    · rw [issues, MemPipeline.issuing]
      split_ifs <;> simp
    · intro n hn m hm
      obtain ⟨u, hu, rfl⟩ := List.mem_map.mp hm
      rw [number_issues hlegal hu]
      exact h.issued n hn
  · intro n hn
    change n < t.issued + (t.issues i).length
    obtain hold | hnew := List.mem_append.mp (numbers_step.subset hn)
    · exact (h.issued n hold).trans_le (Nat.le_add_right _ _)
    · obtain ⟨u, hu, rfl⟩ := List.mem_map.mp hnew
      have hpos := List.length_pos_of_mem hu
      rw [number_issues hlegal hu]
      omega

/-! ## Every run -/

/-- The invariant of a run. -/
structure Inv (t : LoadTrace) : Prop where
  state : t.memory.CachedState
  fresh : t.memory.Fresh
  places : ∃ log gone entries marked, Places t log gone entries marked

theorem inv_of_reachable (h : machine.Reachable t) : t.Inv := by
  refine Clocked.Machine.invariant (P := Inv) ?_ ?_ h
  · intro t ht
    exact ⟨.of_init ht.memory, .of_init ht.memory, _, _, _, _, .of_init ht⟩
  · rintro t i ⟨hstate, hfresh, log, gone, entries, marked, hplaces⟩ hlegal
    exact ⟨hstate.step hlegal.pipeline hlegal.cached, hstate.fresh_step hfresh hplaces.merged,
      hplaces.step hstate hlegal⟩

/-- The stores in front of the load in MEM2. -/
theorem Places.older (h : Places t log gone entries marked)
    (hvalid : t.memory.pipeline.mem2.isValid = true)
    (hstore : t.memory.pipeline.uop2.isStore = false) :
    t.older t.memory.pipeline.uop2.number = log.program.map StoreBufferSlot.programStore := by
  have hordered := h.ordered
  have huops : t.memory.pipeline.uops = t.memory.pipeline.uop2 ::
      (MemPipeline.stageUop t.memory.pipeline.mem1 ++
        MemPipeline.stageUop t.memory.pipeline.memaddr ++
        MemPipeline.stageUop t.memory.pipeline.rrd) := by
    simp [MemPipeline.uops, MemPipeline.stageUop, hvalid, MemPipeline.uop2]
  rw [huops, List.map_cons, List.pairwise_append, List.pairwise_cons] at hordered
  obtain ⟨-, ⟨hyounger, -⟩, hbefore⟩ := hordered
  have hself : t.memory.pipeline.uop2.stores = [] := by simp [MemUop.stores, hstore]
  rw [LoadTrace.older, h.program, huops, List.flatMap_cons, hself, List.nil_append,
    List.filter_append, List.filter_eq_self.mpr, List.filter_eq_nil_iff.mpr, List.append_nil]
  · intro st hst
    obtain ⟨u, hu, hstu⟩ := List.mem_flatMap.mp hst
    have hlt := hyounger _ (List.mem_map_of_mem hu)
    rw [MemUop.stores] at hstu
    split_ifs at hstu
    · obtain rfl := List.mem_singleton.mp hstu
      rw [decide_eq_true_eq]
      exact hlt.not_gt
    · cases hstu
  · intro st hst
    obtain ⟨e, he, rfl⟩ := List.mem_map.mp hst
    exact decide_eq_true (hbefore _ (List.mem_map_of_mem he) _ List.mem_cons_self)

/-- The accesses in the buffer are cached stores. -/
theorem Places.entries_cached (h : Places t log gone entries marked)
    (hcached : t.memory.pipeline.CachedOnly) : ∀ e ∈ entries, e.isCachedStore = true := by
  intro e he
  obtain ⟨j, hj, rfl⟩ := List.getElem_of_mem he
  have hlen := h.follows.buffer.length_le
  have hvalid := hcached.buffer j (by
    rw [h.follows.buffer.valid j (by omega)]
    exact decide_eq_true hj)
  rwa [h.follows.buffer.slot j hj, StoreBufferSlot.isCachedStore_mark] at hvalid

/-- A load comes without store data. -/
theorem Inv.load (h : t.Inv) (hreturns : t.returns i = true) :
    t.memory.pipeline.uop2.isStore = false ∧ t.memory.pipeline.mem2.std = none := by
  have hstate := h.state
  simp only [returns, Bool.and_eq_true, Bool.not_eq_true'] at hreturns
  obtain ⟨⟨⟨hvalid, hload⟩, -⟩, -⟩ := hreturns
  have hentry := hstate.sound.control.entered hvalid
  have hstore : t.memory.pipeline.uop2.isStore = false := by
    simpa [hload] using (hstate.cached.mem2 hentry).kind
  refine ⟨hstore, ?_⟩
  by_contra hsome
  have hno := hstate.sound.control.std hentry (Option.isSome_iff_ne_none.mpr hsome)
  rw [hstore] at hno
  cases hno

/-- What MEM2 reads for a cached load is the program of older stores performed on
the memory at reset. -/
theorem Inv.memRData (h : t.Inv) (hreturns : t.returns i = true) :
    t.memory.pipeline.memRData =
      Lanes.forwardAll ((t.older t.memory.pipeline.uop2.number).map ProgramStore.write)
        (wordAddr t.memory.pipeline.uop2.addr)
        (t.memory.initial (wordAddr t.memory.pipeline.uop2.addr)) := by
  obtain ⟨hstore, hstd⟩ := h.load hreturns
  obtain ⟨hstate, hfresh, log, gone, entries, marked, hplaces⟩ := h
  simp only [returns, Bool.and_eq_true, Bool.not_eq_true'] at hreturns
  obtain ⟨⟨⟨hvalid, hload⟩, hexcept⟩, hs⟩ := hreturns
  have hentry := hstate.sound.control.entered hvalid
  have haccess := hstate.cached.mem2 hentry
  have haddr : t.memory.pipeline.addr2 = wordAddr t.memory.pipeline.uop2.addr := by
    simp [MemPipeline.addr2, MemStage.memAddr, hstd, MemPipeline.uop2]
  have hreq : t.memory.pipeline.reqValid = true := by
    simp [MemPipeline.reqValid, hentry, hload, haccess.cached, hexcept]
  have hword := hstate.word_read hfresh hs hreq
  rw [haddr] at hword
  have htravelling : t.memory.pipeline.travelling.map StoreBufferSlot.write =
      MemPipeline.stdWrites t.memory.pipeline.mem1.std ++
        MemPipeline.stdWrites t.memory.pipeline.memaddr.std ++
        MemPipeline.stdWrites t.memory.pipeline.rrd.std := by
    rw [MemPipeline.stdWrites_carried hstate.cached.mem1.std,
      MemPipeline.stdWrites_carried hstate.cached.memaddr.std,
      MemPipeline.stdWrites_carried hstate.cached.rrd.std, MemPipeline.travelling, hstd]
    simp
  have hperformed : t.memory.performed = gone.map StoreBufferSlot.write := by
    rw [hplaces.performed, hstd]
    simp [MemPipeline.stdWrites]
  have hprogram : (t.older t.memory.pipeline.uop2.number).map ProgramStore.write =
      gone.map StoreBufferSlot.write ++ t.memory.pipeline.travelling.map StoreBufferSlot.write ++
        entries.map StoreBufferSlot.write := by
    rw [hplaces.older hvalid hstore, List.map_map, hplaces.follows.program, List.map_append,
      List.map_append]
    rfl
  have hnone : MemPipeline.stdWrites (none : Option StoreBufferSlot) = [] := rfl
  rw [MemPipeline.memRData, hstate.cached.isLDU, if_neg Bool.false_ne_true,
    hplaces.follows.buffer.query,
    List.filter_eq_self.mpr (hplaces.entries_cached hstate.cached), hprogram,
    Lanes.forwardAll_append, htravelling, Lanes.forwardAll_append, ← hperformed,
    ← Lanes.writes_apply]
  rw [MemPipeline.forwarded, hstd, hnone, List.append_nil, List.append_assoc, List.append_assoc,
    Lanes.forwardAll_append, hword, ← List.append_assoc]
  rfl

/-- Every byte that a cached load returns is the byte of the youngest older store to
it that was not flushed, or the byte of the memory at reset if there is none. -/
theorem loads_sequential (h : machine.Reachable t) (hreturns : t.returns i = true)
    (lane : Fin 4) :
    t.memory.pipeline.memRData lane =
      t.byteBefore t.memory.pipeline.uop2.number (wordAddr t.memory.pipeline.uop2.addr) lane := by
  rw [byteBefore_eq]
  exact congrFun ((inv_of_reachable h).memRData hreturns) lane

/-! ## A run -/

instance (t : LoadTrace) (i : Inputs) : Decidable (machine.legal t i) :=
  decidable_of_iff
    (((i.headReady = true → ¬ (i.head.isLoad = true ∧ i.head.isStore = true)) ∧
      (i.commitStore = true → t.memory.pipeline.storeBuffer.hasUnretired = true)) ∧
      (i.headReady = true → i.head.cached = true ∧ i.head.isLoad = !i.head.isStore) ∧
      (i.headReady = true → i.head.number = t.issued))
    ⟨fun ⟨⟨h1, h2⟩, h3, h4⟩ =>
      ⟨⟨h1, h2⟩, fun hr => ⟨(h3 hr).1, (h3 hr).2⟩, h4⟩,
      fun h => ⟨⟨h.pipeline.head, h.pipeline.commitStore⟩,
        fun hr => ⟨(h.cached hr).cached, (h.cached hr).kind⟩, h.number⟩⟩

def atReset : LoadTrace where
  memory := MemTrace.atReset

theorem init_atReset : Init atReset := ⟨MemTrace.init_atReset, rfl, rfl, rfl⟩

def issue (u : MemUop) : Inputs where
  head := u
  headReady := true

/-- A store of one byte that retires, a second one to the next byte that does not,
and a load of the word, which misses. -/
def storesAndLoad : List Inputs :=
  [issue
      { number := 0, isStore := true, addr := 0x1100, be := fun l => l == 0, data := fun _ => 5 },
   issue
      { number := 1, isStore := true, addr := 0x1101, be := fun l => l == 1, data := fun _ => 6 },
   issue { number := 2, isLoad := true, addr := 0x1102 }] ++
    MemTrace.wait 3 ++ [{ commitStore := true, arReady := true }, { arReady := true }] ++
    List.replicate 16 { rValid := true } ++ MemTrace.wait 1

/-- Both stores and the memory contribute. -/
theorem loads_sequential_storesAndLoad :
    (machine.run atReset storesAndLoad).returns MemTrace.idle = true ∧
      ∀ lane, (machine.run atReset storesAndLoad).memory.pipeline.memRData lane =
        (machine.run atReset storesAndLoad).byteBefore 2 (wordAddr 0x1102) lane := by
  have hrun : machine.Reachable (machine.run atReset storesAndLoad) :=
    Clocked.Machine.Reachable.run (.reset init_atReset) (by decide +kernel)
  have hreturns : (machine.run atReset storesAndLoad).returns MemTrace.idle = true := by
    decide +kernel
  refine ⟨hreturns, fun lane => ?_⟩
  have hload : (machine.run atReset storesAndLoad).memory.pipeline.uop2.number = 2 ∧
      wordAddr (machine.run atReset storesAndLoad).memory.pipeline.uop2.addr =
        wordAddr 0x1102 := by decide +kernel
  have hlane := loads_sequential hrun hreturns lane
  rwa [hload.1, hload.2] at hlane

end LoadTrace

end NopCore
