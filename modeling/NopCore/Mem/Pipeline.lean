import NopCore.Core.MicroOp
import NopCore.Fetch.ICache
import NopCore.Mem.StoreBuffer

/-!
# The memory pipeline and the data cache

Memory instructions issue in order and pass through register read (RRD), address
generation (MEMADDR) and two cache stages (MEM1, MEM2). A store only computes its
address there and enters the store buffer when it leaves MEM2. After it has
retired it issues a second time, as store data in the STD slot that accompanies
the stages, and writes the cache in MEM2. WB and WB2 follow MEM2 and never stall.

The cache has two ways of 64 sets with lines of 16 words and writes back. MEM1
reads the valid and dirty bits, the tags and the words; MEM2 acts on what was
read, through five state machines that may hold it: the refill of a line, which
also performs uncached loads, the write-back of a dirty line, the repair of a
line that is accessed uncached, the cache operations, and the uncached stores.
Whoever changes the set makes MEM1 read again.

An instruction carries the result of address generation and translation from the
start. Index bits are not translated, so that one address serves to index and to
compare. Memory is the far side of the bus, addressed as the cache splits it.
-/

namespace NopCore

/-- The address of a line. -/
structure LineAddr where
  tag : BitVec 20
  index : BitVec 6
  deriving DecidableEq, Repr

def WordAddr.line (a : WordAddr) : LineAddr := ⟨a.tag, a.index⟩

def LineAddr.word (l : LineAddr) (offset : BitVec 4) : WordAddr := ⟨l.tag, l.index, offset⟩

@[simp] theorem WordAddr.line_word (a : WordAddr) : a.line.word a.offset = a := rfl

@[simp] theorem LineAddr.word_line (l : LineAddr) (k : BitVec 4) : (l.word k).line = l := rfl

/-- What an instruction brings to the memory issue queue. The number is its place
in program order, a name that no circuit reads. -/
structure MemRequest where
  number : Nat := 0
  robIdx : Nat := 0
  isLoad : Bool := false
  isStore : Bool := false
  isSC : Bool := false
  lsType : LoadStoreType := .byte
  wReg : Option Nat := none

/-- A slot of the memory issue queue, with what the address stages add to it. -/
structure MemUop extends MemRequest where
  addr : UWord := 0
  cached : Bool := true
  except : Bool := false
  be : Fin 4 → Bool := fun _ => false
  data : BWord := fun _ => 0
  cacheOp : CacheOpType := .none
  cacheSel : CacheSelType := .none

/-- The registers of a stage. -/
structure MemStage where
  isValid : Bool := false
  uop : MemUop := {}
  std : Option StoreBufferSlot := none

/-- The address a stage works on: that of the store data, if there is any. -/
def MemStage.memAddr (s : MemStage) : WordAddr :=
  match s.std with
  | some std => wordAddr std.addr
  | none => wordAddr s.uop.addr

inductive WritebackState
  | stateBoot | fetchCache | waitAW | writeMem | waitB
  deriving DecidableEq, Repr

structure DirtyLineWriteback where
  state : WritebackState := .stateBoot
  wayIdx : Fin 2 := 0
  rspId : BitVec 4 := 0
  /-- The counter delayed by one and by two cycles. -/
  rspIdDelay1 : BitVec 4 := 0
  rspIdDelayed : BitVec 4 := 0
  dirtyLine : BitVec 4 → BWord := fun _ _ => 0

inductive FixUncacheState
  | stateBoot | waitWriteback
  deriving DecidableEq, Repr

inductive CacheOpState
  | stateBoot | checkWay | writebackWay
  deriving DecidableEq, Repr

structure CacheOpFSM where
  state : CacheOpState := .stateBoot
  finishAllWay : Bool := false
  wayCounter : Fin 2 := 0

inductive RefillState
  | stateBoot | waitAXI | readMem | commit | finish | waitAXIU | readMemU | finishU
  deriving DecidableEq, Repr

structure DCacheRefill where
  state : RefillState := .stateBoot
  rspId : BitVec 4 := 0
  refillValid : Bool := false
  regBusWord : BWord := fun _ => 0
  storedWord : BWord := fun _ => 0

inductive UncachedStoreState
  | stateBoot | waitAXIWriteU
  deriving DecidableEq, Repr

structure UncachedAccess where
  state : UncachedStoreState := .stateBoot
  regSTD : StoreBufferSlot := {}
  awSent : Bool := false
  wSent : Bool := false
  bRecv : Bool := true

/-- The memory behind the bus, with the read and the write burst it is serving. -/
structure Memory where
  content : WordAddr → BWord := fun _ _ => 0
  arLine : LineAddr := ⟨0, 0⟩
  rCount : Nat := 0
  awLine : LineAddr := ⟨0, 0⟩
  wCount : Nat := 0

structure MemPipeline where
  storeBuffer : StoreBuffer := {}
  rrd : MemStage := {}
  memaddr : MemStage := {}
  mem1 : MemStage := {}
  mem2 : MemStage := {}
  mem2ValidOnEntry : Bool := false
  /-- What MEM2 received from the cache. -/
  setValids : Fin 2 → Bool := fun _ => false
  setDirty : Fin 2 → Bool := fun _ => false
  tagMatches : Fin 2 → Bool := fun _ => false
  info : CacheLineInfo := {}
  /-- The store data in the last two stages. -/
  wb : Option StoreBufferSlot := none
  wb2 : Option StoreBufferSlot := none
  valids : BitVec 6 → Fin 2 → Bool := fun _ _ => false
  dirtyBits : BitVec 6 → Fin 2 → Bool := fun _ _ => false
  dataRAMs : Fin 2 → BitVec 6 → BitVec 4 → BWord := fun _ _ _ _ => 0
  infoRAM : BitVec 6 → CacheLineInfo := fun _ => {}
  /-- The read ports: the data RAMs have a second register behind the first. -/
  infoRsp : CacheLineInfo := {}
  dataRead : Fin 2 → BWord := fun _ _ => 0
  dataRsp : Fin 2 → BWord := fun _ _ => 0
  writeback : DirtyLineWriteback := {}
  fixUncache : FixUncacheState := .stateBoot
  cacheFSM : CacheOpFSM := {}
  refill : DCacheRefill := {}
  uncached : UncachedAccess := {}
  memory : Memory := {}

namespace MemPipeline

/-- The inputs of a cycle: the head of the issue queue and whether it is valid
and awake, the retirement of a store, the registered flush, and the handshakes of
the cached and the uncached bus. -/
structure Inputs where
  head : MemUop := {}
  headReady : Bool := false
  commitStore : Bool := false
  flush : Bool := false
  arReady : Bool := false
  rValid : Bool := false
  awReady : Bool := false
  wReady : Bool := false
  bValid : Bool := false
  uArReady : Bool := false
  uRValid : Bool := false
  uRData : BWord := fun _ => 0
  uAwReady : Bool := false
  uWReady : Bool := false
  uBValid : Bool := false

variable (s : MemPipeline) (i : Inputs)

/-! ## Decoding MEM2 -/

def uop2 : MemUop := s.mem2.uop

def isSTD : Bool := s.mem2.std.any StoreBufferSlot.isCachedStore

def isLDU : Bool := s.mem2.std.any fun std => !std.isStore

def isSTU : Bool := s.mem2.std.any fun std => std.isStore && !std.isCached

/-- Neither a load nor a store. -/
def isCACHE : Bool := !s.uop2.isLoad && !s.uop2.isStore

def reqValid : Bool :=
  (s.mem2ValidOnEntry && s.uop2.isLoad && s.uop2.cached && !s.uop2.except) || s.isSTD

def addr2 : WordAddr := s.mem2.memAddr

def hits (way : Fin 2) : Bool := s.setValids way && s.tagMatches way

def hit : Bool := s.hits 0 || s.hits 1

def hitWay : Fin 2 := if s.hits 1 then 1 else 0

def hitData : BWord := if s.hits 0 then s.dataRsp 0 else s.dataRsp 1

def replaceWay : Fin 2 := s.info.lru

def pushValid : Bool :=
  s.mem2.isValid && !s.uop2.except && (s.uop2.isStore || (s.uop2.isLoad && !s.uop2.cached))

def writebackIdle : Bool := s.writeback.state == .stateBoot

def uncachedReady : Bool := s.uncached.state == .stateBoot && (s.uncached.bRecv || i.uBValid)

/-! ## What starts in MEM2 -/

def miss : Bool := s.refill.state == .stateBoot && s.reqValid && !s.hit

def startLDU : Bool := s.refill.state == .stateBoot && s.isLDU

/-- An uncached access finds the line in the cache. -/
def startFix : Bool := s.fixUncache == .stateBoot && (s.isLDU || s.isSTU) && s.hit

def cacheOpValid : Bool :=
  s.cacheFSM.state == .stateBoot && s.mem2ValidOnEntry && s.isCACHE &&
    s.uop2.cacheSel == .dCache

def startCacheOp : Bool :=
  s.cacheOpValid && (s.uop2.cacheOp == .indexInvalidate || s.uop2.cacheOp == .hitInvalidate)

def storeTag : Bool := s.cacheOpValid && s.uop2.cacheOp == .storeTag

def checking : Bool := s.cacheFSM.state == .checkWay && !s.cacheFSM.finishAllWay

def triggerWriteback : Bool :=
  s.miss && s.setValids s.replaceWay && s.setDirty s.replaceWay

def triggerWritebackFixUncache : Bool :=
  s.startFix && s.setValids s.hitWay && s.setDirty s.hitWay

def triggerWritebackCACHE : Bool :=
  s.checking && s.setValids s.cacheFSM.wayCounter && s.setDirty s.cacheFSM.wayCounter

/-! ## Arbitration -/

/-- MEM2 is held. -/
def stuck2 : Bool :=
  (s.pushValid && !s.storeBuffer.pushReady) || !s.writebackIdle || s.startFix ||
    s.startCacheOp || s.checking || s.cacheFSM.state == .writebackWay || s.miss || s.startLDU ||
    s.refill.state == .waitAXI || s.refill.state == .readMem || s.refill.state == .commit ||
    s.refill.state == .waitAXIU || s.refill.state == .readMemU ||
    (s.isSTU && !s.uncachedReady i)

/-- MEM1 has to read the cache again before it moves on. -/
def doRefetch : Bool :=
  !s.stuck2 i && (s.refill.state == .finish || s.fixUncache == .waitWriteback ||
    (s.cacheFSM.state == .checkWay && s.cacheFSM.finishAllWay))

/-- The stages in front of MEM2 are held, and so is issue. -/
def stuck1 : Bool := s.stuck2 i || s.doRefetch i

/-! ## Issue -/

/-- Four free slots are kept for what is already between issue and MEM2. -/
def issValid : Bool := i.headReady && !s.storeBuffer.valid (storeBufferDepth - 5)

/-- Store data issues with the address of another store or in a bubble. -/
def stdValid : Bool :=
  s.storeBuffer.valid 0 && (s.storeBuffer.slot 0).retired &&
    ((s.issValid i && i.head.isStore && !i.head.isSC) || !s.issValid i)

def issStage : MemStage where
  isValid := s.issValid i && !i.flush
  uop := i.head
  std := if s.stdValid i then some (s.storeBuffer.slot 0) else none

def pushSlot : StoreBufferSlot where
  retired := false
  addr := s.uop2.addr
  be := s.uop2.be
  data := s.uop2.data
  isStore := s.uop2.isStore
  isCached := s.uop2.cached
  wReg := s.uop2.wReg
  lsType := s.uop2.lsType
  robIdx := s.uop2.robIdx
  number := s.uop2.number

def push : Option StoreBufferSlot :=
  if s.pushValid && !s.stuck2 i then some s.pushSlot else none

def pop : Bool := s.stdValid i && !s.stuck1 i

/-- A stage whose predecessor hands over, or which is held; a flush removes the
instruction but not the store data. -/
def nextStage (prev cur : MemStage) : MemStage :=
  if s.stuck1 i then { cur with isValid := cur.isValid && !i.flush }
  else { prev with isValid := prev.isValid && !i.flush }

def nextMem2 : MemStage :=
  if s.stuck2 i then { s.mem2 with isValid := s.mem2.isValid && !i.flush }
  else if s.doRefetch i then { s.mem1 with isValid := false, std := none }
  else { s.mem1 with isValid := s.mem1.isValid && !i.flush }

/-! ## Writes of MEM2 -/

/-- A hit leaves MEM2. -/
def hitCommit : Bool := s.reqValid && !s.stuck2 i && s.hit

/-- Store data writes a line that is in the cache. -/
def stdCommit : Bool := s.hitCommit i && s.isSTD

/-- The word that goes into the line, with the store data of a store miss. -/
def refillWord : BWord :=
  match s.mem2.std with
  | some std =>
    if s.isSTD ∧ s.refill.rspId = (wordAddr std.addr).offset then
      Lanes.merge std.be std.data s.refill.regBusWord
    else s.refill.regBusWord
  | none => s.refill.regBusWord

def refillWrite : Bool :=
  (s.refill.state == .readMem && s.refill.refillValid) || s.refill.state == .commit

/-- The new tags and replacement bit of the set, at the end of a refill or after
a hit. -/
def infoWrite : Option CacheLineInfo :=
  if s.refill.state = .commit then
    some
      { tags := fun way => if way = s.replaceWay then s.addr2.tag else s.info.tags way
        lru := s.info.lru + 1 }
  else if s.hitCommit i then some { tags := s.info.tags, lru := if s.hits 0 then 1 else 0 }
  else none

/-- The way whose dirty bit is written, and its value. -/
def dirtyWrite : Option (Fin 2 × Bool) :=
  if s.refill.state = .commit then some (s.replaceWay, s.isSTD)
  else if s.stdCommit i then some (s.hitWay, true)
  else none

/-- A way of the set is invalidated. -/
def clearWay : Option (Fin 2) :=
  if s.fixUncache = .waitWriteback ∧ !s.stuck2 i then some s.hitWay
  else if s.cacheFSM.state = .writebackWay ∧ s.writebackIdle then some s.cacheFSM.wayCounter
  else none

def nextValids : BitVec 6 → Fin 2 → Bool := fun set way =>
  if s.refill.state = .commit ∧ set = s.addr2.index ∧ way = s.replaceWay then true
  else if set = s.addr2.index ∧ s.clearWay i = some way then false
  else if s.storeTag then false
  else s.valids set way

def nextDirtyBits : BitVec 6 → Fin 2 → Bool := fun set way =>
  match s.dirtyWrite i with
  | some (w, b) => if set = s.addr2.index ∧ way = w then b else s.dirtyBits set way
  | none => s.dirtyBits set way

def nextDataRAMs : Fin 2 → BitVec 6 → BitVec 4 → BWord := fun way set k =>
  if s.refillWrite ∧ way = s.replaceWay ∧ set = s.addr2.index ∧ k = s.refill.rspId then
    s.refillWord
  else
    match s.mem2.std with
    | some std =>
      if s.stdCommit i ∧ way = s.hitWay ∧ set = s.addr2.index ∧ k = s.addr2.offset then
        Lanes.merge std.be std.data (s.dataRAMs way set k)
      else s.dataRAMs way set k
    | none => s.dataRAMs way set k

/-! ## Read ports -/

/-- The write-back reads a whole line through the ports of MEMADDR. -/
def fetching : Bool := s.writeback.state == .fetchCache

def readEnable : Bool := !s.stuck1 i || s.doRefetch i

def readAddr : WordAddr := if s.doRefetch i then s.mem1.memAddr else s.memaddr.memAddr

def nextDataRead : Fin 2 → BWord := fun way =>
  if s.fetching then s.dataRAMs way s.addr2.index s.writeback.rspId
  else if s.readEnable i then s.dataRAMs way (s.readAddr i).index (s.readAddr i).offset
  else s.dataRead way

/-! ## State machines -/

def nextWriteback : DirtyLineWriteback :=
  let w := { s.writeback with
    rspIdDelay1 := s.writeback.rspId
    rspIdDelayed := s.writeback.rspIdDelay1 }
  match s.writeback.state with
  | .stateBoot =>
    if s.triggerWriteback || s.triggerWritebackFixUncache || s.triggerWritebackCACHE then
      { w with
        state := .fetchCache
        rspId := 0
        wayIdx :=
          if s.triggerWriteback then s.replaceWay
          else if s.triggerWritebackFixUncache then s.hitWay
          else s.cacheFSM.wayCounter }
    else w
  | .fetchCache =>
    { w with
      state := if s.writeback.rspIdDelayed = 15 then .waitAW else .fetchCache
      rspId := s.writeback.rspId + 1
      dirtyLine := Function.update s.writeback.dirtyLine s.writeback.rspIdDelayed
        (s.dataRsp s.writeback.wayIdx) }
  | .waitAW => if i.awReady then { w with state := .writeMem, rspId := 0 } else w
  | .writeMem =>
    if i.wReady then
      { w with
        state := if s.writeback.rspId = 15 then .waitB else .writeMem
        rspId := s.writeback.rspId + 1 }
    else w
  | .waitB => if i.bValid then { w with state := .stateBoot } else w

def nextFixUncache : FixUncacheState :=
  match s.fixUncache with
  | .stateBoot => if s.startFix then .waitWriteback else .stateBoot
  | .waitWriteback => if s.stuck2 i then .waitWriteback else .stateBoot

def nextCacheFSM : CacheOpFSM :=
  match s.cacheFSM.state with
  | .stateBoot =>
    if s.startCacheOp then { state := .checkWay, finishAllWay := false, wayCounter := 0 }
    else s.cacheFSM
  | .checkWay =>
    if s.cacheFSM.finishAllWay then
      if s.stuck2 i then s.cacheFSM else { s.cacheFSM with state := .stateBoot }
    else if s.writebackIdle then { s.cacheFSM with state := .writebackWay }
    else s.cacheFSM
  | .writebackWay =>
    if s.writebackIdle then
      { state := .checkWay
        finishAllWay := s.cacheFSM.finishAllWay || s.cacheFSM.wayCounter == 1
        wayCounter := s.cacheFSM.wayCounter + 1 }
    else s.cacheFSM

/-- The write-back reads the victim before the refill may write it. -/
def rReady : Bool := s.refill.state == .readMem && !s.fetching

def rFire : Bool := i.rValid && s.rReady

def rLast : Bool := s.memory.rCount == 15

def nextRefill : DCacheRefill :=
  let r := { s.refill with
    refillValid := s.rFire i
    regBusWord := s.memory.content (s.memory.arLine.word (BitVec.ofNat 4 s.memory.rCount))
    storedWord :=
      if s.refill.refillValid ∧ s.refill.rspId = s.addr2.offset then s.refillWord
      else s.refill.storedWord }
  match s.refill.state with
  | .stateBoot =>
    if s.startLDU then { r with state := .waitAXIU }
    else if s.miss then { r with state := .waitAXI, rspId := 0 }
    else r
  | .waitAXI => if i.arReady then { r with state := .readMem, rspId := 0 } else r
  | .readMem =>
    { r with
      state := if s.rFire i && s.rLast then .commit else .readMem
      rspId := if s.refill.refillValid then s.refill.rspId + 1 else s.refill.rspId }
  | .commit => { r with state := .finish, rspId := 0 }
  | .finish => if s.stuck2 i then r else { r with state := .stateBoot }
  | .waitAXIU =>
    if i.uArReady && s.uncachedReady i && s.writebackIdle then { r with state := .readMemU }
    else r
  | .readMemU => if i.uRValid then { r with state := .finishU, storedWord := i.uRData } else r
  | .finishU => if s.stuck2 i then r else { r with state := .stateBoot }

/-- An uncached store leaves MEM2 for the uncached bus. -/
def uncachedFire : Bool := s.isSTU && !s.stuck2 i && s.uncachedReady i

/-- The write of an uncached store has been sent. -/
def uncachedSent : Bool :=
  s.uncached.state == .waitAXIWriteU && (s.uncached.awSent || i.uAwReady) &&
    (s.uncached.wSent || i.uWReady)

def nextUncached : UncachedAccess :=
  match s.uncached.state with
  | .stateBoot =>
    if s.uncachedFire i then
      { state := .waitAXIWriteU, regSTD := s.mem2.std.getD {}, awSent := false, wSent := false
        bRecv := false }
    else { s.uncached with bRecv := s.uncached.bRecv || i.uBValid }
  | .waitAXIWriteU =>
    { s.uncached with
      state := if s.uncachedSent i then .stateBoot else .waitAXIWriteU
      awSent := s.uncached.awSent || i.uAwReady
      wSent := s.uncached.wSent || i.uWReady
      bRecv := s.uncached.bRecv || i.uBValid }

/-! ## Memory -/

/-- A word of the dirty line is transferred. -/
def wFire : Bool := s.writeback.state == .writeMem && i.wReady

def nextMemory : Memory :=
  let m := s.memory
  let written := if s.wFire i then
      Function.update m.content (m.awLine.word (BitVec.ofNat 4 m.wCount))
        (s.writeback.dirtyLine s.writeback.rspId)
    else m.content
  { content := if s.uncachedSent i then Lanes.write written s.uncached.regSTD.write else written
    arLine := if s.refill.state = .waitAXI ∧ i.arReady then s.addr2.line else m.arLine
    rCount :=
      if s.refill.state = .waitAXI ∧ i.arReady then 0
      else if s.rFire i then m.rCount + 1 else m.rCount
    awLine :=
      if s.writeback.state = .waitAW ∧ i.awReady then
        ⟨s.info.tags s.writeback.wayIdx, s.addr2.index⟩
      else m.awLine
    wCount :=
      if s.writeback.state = .waitAW ∧ i.awReady then 0
      else if s.wFire i then m.wCount + 1 else m.wCount }

/-! ## Loads -/

/-- The store data of a stage, if it is a cached store. -/
def stdWrites (std : Option StoreBufferSlot) : List (Lanes.Write WordAddr (Fin 4) (BitVec 8)) :=
  (std.toList.filter StoreBufferSlot.isCachedStore).map StoreBufferSlot.write

/-- The store data between MEM2 and WB2, and in the stages in front of MEM2, from
the oldest on. -/
def forwarded : List (Lanes.Write WordAddr (Fin 4) (BitVec 8)) :=
  stdWrites s.wb2 ++ stdWrites s.wb ++ stdWrites s.mem2.std ++ stdWrites s.mem1.std ++
    stdWrites s.memaddr.std ++ stdWrites s.rrd.std

/-- What MEM2 reads for a load. -/
def memRData : BWord :=
  if s.isLDU then s.refill.storedWord
  else
    s.storeBuffer.query s.uop2.addr
      (Lanes.forwardAll s.forwarded (wordAddr s.uop2.addr)
        (if s.hit then s.hitData else s.refill.storedWord))

/-! ## The clock edge -/

def step : MemPipeline where
  storeBuffer := s.storeBuffer.step i.commitStore (s.push i) i.flush (s.pop i)
  rrd := s.nextStage i (s.issStage i) s.rrd
  memaddr := s.nextStage i s.rrd s.memaddr
  mem1 := s.nextStage i s.memaddr s.mem1
  mem2 := s.nextMem2 i
  mem2ValidOnEntry :=
    if s.stuck2 i then s.mem2ValidOnEntry
    else !s.doRefetch i && s.mem1.isValid && !i.flush
  setValids := if s.stuck2 i then s.setValids else s.valids s.mem1.memAddr.index
  setDirty :=
    if s.stuck2 i then s.setDirty
    else fun way =>
      match s.dirtyWrite i with
      | some (w, b) =>
        if s.mem1.memAddr.index = s.addr2.index ∧ way = w then b
        else s.dirtyBits s.mem1.memAddr.index way
      | none => s.dirtyBits s.mem1.memAddr.index way
  tagMatches :=
    if s.stuck2 i then s.tagMatches else fun way => s.infoRsp.tags way == s.mem1.memAddr.tag
  info := if s.stuck2 i then s.info else s.infoRsp
  wb := if s.stuck2 i then none else s.mem2.std
  wb2 := s.wb
  valids := s.nextValids i
  dirtyBits := s.nextDirtyBits i
  dataRAMs := s.nextDataRAMs i
  infoRAM := fun set =>
    if set = s.addr2.index then (s.infoWrite i).getD (s.infoRAM set) else s.infoRAM set
  infoRsp := if s.readEnable i then s.infoRAM (s.readAddr i).index else s.infoRsp
  dataRead := s.nextDataRead i
  dataRsp := if s.fetching || s.readEnable i then s.dataRead else s.dataRsp
  writeback := s.nextWriteback i
  fixUncache := s.nextFixUncache i
  cacheFSM := s.nextCacheFSM i
  refill := s.nextRefill i
  uncached := s.nextUncached i
  memory := s.nextMemory i

end MemPipeline

end NopCore
