import NopCore.Fetch.ICache
import NopCore.Utils.MultiPortFifo

/-!
# The front end

The program counter, the two fetch stages around the instruction cache, the
prediction of a packet and the fetch buffer.

A packet has up to four words. It ends at the end of its line, and behind the
first word that is predicted taken. The prediction is looked up in the first stage
and acts in the second: it chooses the next address and flushes the first stage,
which has already gone on to the address behind the packet.

A redirection by commit flushes both stages and the buffer at once. Its target
goes through a register and reaches the program counter one cycle later, or when
the first stage is free; until then the first stage is flushed in every cycle.
-/

namespace NopCore

def fetchBufferDepth : Nat := 8

/-! ## The program counter -/

/-- The number of words from here to the end of the packet, without prediction. -/
def pcIncrement (pcOffset : BitVec 4) : Nat :=
  if icacheLineWords - fetchWidth < pcOffset.toNat then icacheLineWords - pcOffset.toNat
  else fetchWidth

def defaultPC (regPC : UWord) : UWord :=
  regPC + BitVec.ofNat 32 (4 * pcIncrement (icacheWordOffset regPC))

/-! ## The prediction of a packet -/

/-- An entry of the branch target buffer, as far as it is handed on. -/
structure BranchStatus where
  target : BitVec 30 := 0
  isCall : Bool := false
  isReturn : Bool := false

/-- What the tables answer for the four words from an address on. A word is valid
if its entry is and has the tag of the address. -/
structure PredictorRsp where
  validFlag : Fin 4 → Bool := fun _ => false
  status : Fin 4 → BranchStatus := fun _ => {}
  predCounters : Fin 4 → BitVec 2 := fun _ => 0
  globalHistory : BitVec 5 := 0

/-- The prediction that the second stage receives from the first. -/
structure PacketPrediction where
  lookup : PredictorLookup := ⟨fun _ => false, fun _ => false⟩
  jumpPayload : BranchStatus := {}
  predCounter : Fin 4 → BitVec 2 := fun _ => 0
  globalHistory : BitVec 5 := 0

namespace PacketPrediction

/-- Words behind the end of the line are not looked at. -/
def hit (pc : UWord) (rsp : PredictorRsp) (j : Fin 4) : Bool :=
  decide (icacheWordOffset pc ≤ icacheWord pc j) && rsp.validFlag j

def predict (pc : UWord) (rsp : PredictorRsp) : PacketPrediction :=
  let lookup : PredictorLookup :=
    { hit := hit pc rsp, predTaken := fun j => (rsp.predCounters j).msb }
  { lookup := lookup
    jumpPayload := rsp.status (lookup.jumpWay.getD 0)
    predCounter := fun j => if hit pc rsp j then rsp.predCounters j else 0
    globalHistory := rsp.globalHistory }

variable (p : PacketPrediction)

def jumpFlag : Bool := p.lookup.jumpWay.isSome

/-- The words up to the one predicted taken. -/
def instructionMask (j : Fin 4) : Bool := p.lookup.jumpWay.all fun way => decide (j ≤ way)

end PacketPrediction

/-! ## The front end -/

structure InstBufferEntry where
  pc : UWord := 0
  inst : UWord := 0
  /-- An exception of the packet, reported with its first word. -/
  except : Bool := false
  predInfo : BranchPredictInfo := {}
  predRecover : PredictRecover := {}

structure FrontEnd where
  cache : ICache := {}
  /-- The register on the way of a redirection. -/
  jumpPipe : Option UWord := none
  /-- What the second stage received from the first, besides the cache's part. -/
  prediction : PacketPrediction := {}
  inLowPowerMode : Bool := false
  buffer : MultiPortFIFOVec InstBufferEntry := ⟨fun _ => {}, {}⟩

namespace FrontEnd

/-- The inputs of a cycle: a flush by commit with its target, the wait instruction
and the interrupt lines that end it, the answers of the prediction tables to the
first stage, the top of the return address stack, whether the decode stage takes
instructions, and what the cache receives from outside the front end. -/
structure Inputs where
  redirect : Option UWord := none
  doWait : Bool := false
  interrupt : Bool := false
  rsp : PredictorRsp := {}
  ras : BitVec 30 := 0
  rasTopEntry : BitVec 3 := 0
  decodeFires : Bool := false
  outside : ICache.Inputs := {}

variable (s : FrontEnd) (i : Inputs)

/-- A word of the packet in the second stage: in the line, and not behind a word
that is predicted taken. -/
def fetchWordValid (j : Fin 4) : Bool :=
  (j == 0 || decide ((icacheWordOffset s.cache.pc).toNat < icacheLineWords - j)) &&
    s.prediction.instructionMask j

/-- A word that does not fit into the buffer stalls the whole packet. -/
def isStall : Bool :=
  s.cache.if2Valid &&
    (List.finRange 4).any fun j =>
      s.fetchWordValid j && !s.buffer.ptr.pushReady fetchBufferDepth j

def if2Stuck : Bool := s.cache.haltItself || s.isStall

/-- The second stage redirects the first. -/
def predictValid : Bool := s.cache.if2Valid && s.prediction.jumpFlag

/-- The return address stack is used for a packet that leaves. -/
def rasPredictValid : Bool :=
  s.cache.if2Valid && !s.if2Stuck && s.prediction.jumpFlag &&
    !s.prediction.jumpPayload.isCall && s.prediction.jumpPayload.isReturn

def payloadTarget : UWord :=
  if s.rasPredictValid then i.ras ++ 0#2 else s.prediction.jumpPayload.target ++ 0#2

def nextPC : UWord :=
  match s.jumpPipe with
  | some target => target
  | none => if s.predictValid then s.payloadTarget i else defaultPC s.cache.regPC

def cacheInputs : ICache.Inputs :=
  { i.outside with
    nextPC := s.nextPC i
    if1HaltByOther := s.inLowPowerMode
    if1FlushIt := s.jumpPipe.isSome
    if2FlushIt := i.redirect.isSome
    if2FlushNext := s.predictValid
    isStall := s.isStall }

def if1Stuck : Bool := s.cache.if1Stuck (s.cacheInputs i)

/-- The register takes a redirection when it is empty or being emptied. -/
def jumpReady : Bool := s.jumpPipe.isNone || !s.if1Stuck i

def word (j : Fin 4) : InstBufferEntry where
  pc := s.cache.pc + BitVec.ofNat 32 (4 * j)
  inst := s.cache.fetchWord j
  except := j == 0 && s.cache.exceptionOccurred
  predInfo := s.prediction.lookup.predInfo j (s.payloadTarget i)
  predRecover := ⟨i.rasTopEntry, s.prediction.predCounter j, s.prediction.globalHistory⟩

/-- The words through the push ports up to the first that is not valid. -/
def packet : List InstBufferEntry :=
  ((List.finRange 4).takeWhile s.fetchWordValid).map (s.word i)

def pushed : List InstBufferEntry :=
  if s.cache.if2Valid && !s.if2Stuck then s.packet i else []

/-- All pop ports are ready when the decode stage fires. -/
def popReady : Nat := if i.decodeFires then decodeWidth else 0

def popped : List InstBufferEntry := s.buffer.popped fetchBufferDepth (popReady i)

def step : FrontEnd where
  cache := s.cache.step (s.cacheInputs i)
  jumpPipe := if s.jumpReady i then i.redirect else s.jumpPipe
  prediction :=
    if s.if2Stuck then s.prediction else .predict s.cache.regPC i.rsp
  inLowPowerMode := if i.interrupt then false else i.doWait || s.inLowPowerMode
  buffer := s.buffer.step fetchBufferDepth (s.pushed i) (popReady i) i.redirect.isSome

end FrontEnd

end NopCore
