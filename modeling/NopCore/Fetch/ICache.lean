import NopCore.Core.Commit
import NopCore.Privilege.Mmu

/-!
# The instruction cache

Two ways of 64 sets with lines of 16 words, virtually indexed and physically
tagged. The first fetch stage reads all ways of a set through registered read
ports; the second compares tags, and on a miss reads the line from memory and
writes it to the way the replacement bit names. A refill is never abandoned: the
state machine holds the stage until the line is written, even when the fetch has
been flushed.

The valid bits are registers. A retiring cache operation clears them at any
time, and the state machine sets one at the end of a refill; in one cycle the
latter assignment is the later one.

The second stage keeps the address candidates that the first one computed, but
chooses between them by the mode bits of the present cycle.
-/

namespace NopCore

def icacheLineWords : Nat := 16
def fetchWidth : Nat := 4

/-- The index range of an address. -/
def icacheIndex (addr : UWord) : BitVec 6 := addr.extractLsb' 6 6

def icacheTag (addr : UWord) : BitVec 20 := addr.extractLsb' 12 20

def icacheWordOffset (addr : UWord) : BitVec 4 := addr.extractLsb' 2 4

/-- The word of the line that belongs to slot `j` of a packet. -/
def icacheWord (addr : UWord) (j : Fin 4) : BitVec 4 :=
  icacheWordOffset addr + BitVec.ofNat 4 j

/-- The line an address lies in. -/
def icacheLine (addr : UWord) : BitVec 26 := addr.extractLsb' 6 26

/-- The replacement bit and the tags of a set. The bit is the way to replace. -/
structure CacheLineInfo where
  lru : Fin 2 := 0
  tags : Fin 2 → BitVec 20 := fun _ => 0

inductive CacheRefillState
  | stateBoot | waitAXI | readMem | commit | finish
  deriving DecidableEq, Repr

structure ICache where
  valids : BitVec 6 → Fin 2 → Bool := fun _ _ => false
  dataRAMs : Fin 2 → BitVec 6 → BitVec 4 → UWord := fun _ _ _ => 0
  infoRAM : BitVec 6 → CacheLineInfo := fun _ => {}
  /-- The registered read ports. -/
  dataRsp : Fin 2 → BitVec 4 → UWord := fun _ _ => 0
  infoRsp : CacheLineInfo := {}
  /-- The first stage. -/
  if1Valid : Bool := true
  regPC : UWord := 0x1c000000
  /-- The second stage, with what it received from the first. -/
  if2Valid : Bool := false
  if2ValidOnEntry : Bool := false
  pc : UWord := 0
  setValids : Fin 2 → Bool := fun _ => false
  rsps : Fin 2 → Fin 4 → UWord := fun _ _ => 0
  info : CacheLineInfo := {}
  direct : Option TranslateResult := none
  tlb : Option TranslateResult := none
  /-- The refill of a line. -/
  fsm : CacheRefillState := .stateBoot
  rspId : BitVec 4 := 0
  refillValid : Bool := false
  refillWord : UWord := 0
  storedPacket : Fin 4 → UWord := fun _ => 0
  /-- The mode bits of the privileged state. -/
  csr : TranslateCSR := ⟨true, false, 0, 0⟩

/-- A cache operation concerns this way of this set. Hit operations clear all
ways of the set. -/
def CacheOperation.clears (op : CacheOperation) (set : BitVec 6) (way : Fin 2) : Bool :=
  op.sel == .iCache &&
    match op.op with
    | .none => false
    | .indexInvalidate =>
      icacheIndex op.addr == set && (op.addr.getLsbD 0).toNat == way.val
    | .hitInvalidate => icacheIndex op.addr == set
    | .storeTag => true

namespace ICache

/-- The inputs of a cycle: the next fetch address, the halt of the first stage
while the core waits for an interrupt, the flushes of the two stages, the stall of
the fetch buffer, the translation state that the first stage reads, the next mode
bits, the read channel of the bus, and the cache operation that retires. -/
structure Inputs where
  nextPC : UWord := 0
  if1HaltByOther : Bool := false
  if1FlushIt : Bool := false
  if2FlushIt : Bool := false
  if2FlushNext : Bool := false
  isStall : Bool := false
  mmu : MMU := {}
  nextCSR : TranslateCSR := ⟨true, false, 0, 0⟩
  arReady : Bool := false
  rValid : Bool := false
  rData : UWord := 0
  rLast : Bool := false
  cacheOp : Option CacheOperation := none

variable (s : ICache) (i : Inputs)

def translateResult : TranslateResult := translate s.pc .fetch s.direct s.tlb s.csr

def physPC : UWord := s.translateResult.physAddr

def idx : BitVec 6 := icacheIndex s.pc

def tag : BitVec 20 := icacheTag s.physPC

/-- A misaligned address was found in the first stage, the other exceptions are
those of the translation under the present mode. -/
def exceptionOccurred : Bool :=
  s.pc.getLsbD 0 || s.pc.getLsbD 1 || s.translateResult.exception.raiseTLBR ||
    s.translateResult.exception.raisePIF || s.translateResult.exception.raisePPI

def reqValid : Bool := s.if2ValidOnEntry && !s.exceptionOccurred

def hits (way : Fin 2) : Bool := s.setValids way && s.info.tags way == s.tag

def hit : Bool := s.hits 0 || s.hits 1

def replaceWay : Fin 2 := s.info.lru

/-- A miss starts a refill. -/
def miss : Bool := s.fsm == .stateBoot && s.reqValid && !s.hit

/-- The state machine holds the second stage. -/
def haltItself : Bool :=
  s.miss || s.fsm == .waitAXI || s.fsm == .readMem || s.fsm == .commit

def if2Stuck : Bool := s.haltItself || i.isStall

def if2Flushed : Bool := i.if2FlushIt

def if1Flushed : Bool := i.if1FlushIt || i.if2FlushNext || i.if2FlushIt

/-- What the first stage has read is out of date after a refill. -/
def doRefetch : Bool := s.fsm == .finish && !s.if2Stuck i && !if1Flushed i

def refetchValid : Bool := s.if1Valid && s.doRefetch i

def if1Stuck : Bool := s.refetchValid i || i.if1HaltByOther || s.if2Stuck i

/-- The first stage hands its fetch over. -/
def if1Moves : Bool := !s.if1Stuck i && !if1Flushed i

def readEnable : Bool := !s.if1Stuck i || s.refetchValid i

def readAddr : BitVec 6 := icacheIndex (if s.refetchValid i then s.regPC else i.nextPC)

def arValid : Bool := s.fsm == .waitAXI

/-- The line requested on the bus; the byte offset in it is zero. -/
def arLine : BitVec 26 := icacheLine s.physPC

def rReady : Bool := s.fsm == .readMem

def rFire : Bool := i.rValid && s.rReady

def reqCommit : Bool := s.reqValid && !s.if2Stuck i

/-- The state machine writes a word of the line. -/
def dataWrite : Bool := (s.fsm == .readMem && s.refillValid) || s.fsm == .commit

/-- The write to the tags and the replacement bit: at the end of a refill, or to
record the use of a way. -/
def infoWrite : Option CacheLineInfo :=
  if s.fsm = .commit then
    some
      { tags := fun way => if way = s.replaceWay then s.tag else s.info.tags way
        lru := s.info.lru + 1 }
  else if s.reqCommit i && s.hit then
    some { tags := s.info.tags, lru := if s.hits 0 then 1 else 0 }
  else none

def nextFsm : CacheRefillState :=
  match s.fsm with
  | .stateBoot => if s.reqValid && !s.hit then .waitAXI else .stateBoot
  | .waitAXI => if i.arReady then .readMem else .waitAXI
  | .readMem => if i.rValid && i.rLast then .commit else .readMem
  | .commit => .finish
  | .finish => if s.if2Stuck i then .finish else .stateBoot

/-- The words handed to the fetch buffer. -/
def fetchWord (j : Fin 4) : UWord :=
  if s.hit then (if s.hits 0 then s.rsps 0 j else s.rsps 1 j) else s.storedPacket j

def step : ICache where
  valids := fun set way =>
    if s.fsm = .commit ∧ set = s.idx ∧ way = s.replaceWay then true
    else if (i.cacheOp.any fun op => op.clears set way) then false
    else s.valids set way
  dataRAMs := fun way set word =>
    if s.dataWrite ∧ way = s.replaceWay ∧ set = s.idx ∧ word = s.rspId then s.refillWord
    else s.dataRAMs way set word
  infoRAM := fun set => if set = s.idx then (s.infoWrite i).getD (s.infoRAM set) else s.infoRAM set
  -- the RAMs read before they write
  dataRsp := fun way =>
    if s.readEnable i then s.dataRAMs way (s.readAddr i) else s.dataRsp way
  infoRsp := if s.readEnable i then s.infoRAM (s.readAddr i) else s.infoRsp
  if1Valid :=
    if !s.if1Stuck i then true else if if1Flushed i then false else s.if1Valid
  regPC := if s.if1Stuck i then s.regPC else i.nextPC
  if2Valid :=
    if s.if1Moves i then s.if1Valid
    else if !s.if2Stuck i || if2Flushed i then false
    else s.if2Valid
  if2ValidOnEntry :=
    if s.if1Moves i then s.if1Valid
    else if !s.if2Stuck i then false
    else s.if2ValidOnEntry
  pc := if s.if2Stuck i then s.pc else s.regPC
  setValids := if s.if2Stuck i then s.setValids else s.valids (icacheIndex s.regPC)
  rsps :=
    if s.if2Stuck i then s.rsps
    else fun way j => s.dataRsp way (icacheWord s.regPC j)
  info := if s.if2Stuck i then s.info else s.infoRsp
  direct := if s.if2Stuck i then s.direct else i.mmu.directTranslate s.regPC
  tlb := if s.if2Stuck i then s.tlb else i.mmu.tlbTranslate s.regPC .fetch
  fsm := s.nextFsm i
  rspId :=
    if s.fsm = .waitAXI ∧ i.arReady then 0
    else if s.fsm = .readMem ∧ s.refillValid then s.rspId + 1
    else s.rspId
  refillValid := s.rFire i
  refillWord := i.rData
  storedPacket := fun j =>
    if s.refillValid ∧ s.rspId = icacheWord s.pc j then s.refillWord
    else s.storedPacket j
  csr := i.nextCSR

end ICache

end NopCore
