import NopCore.Fetch.FrontEnd
import NopCore.Lib.System
import Mathlib.Data.List.TakeWhile

/-!
# Redirections and the fetch stream

Between two redirections the fetch buffer receives one stream of instructions. It
starts at the target of the last redirection, and each instruction is followed by
the one that its prediction names. Nothing fetched before the redirection enters
it, although a refill that belongs to an abandoned fetch may still hold the second
stage, and although the target may wait for the first stage.
-/

namespace NopCore

/-! ## Streams of instructions -/

namespace InstBufferEntry

/-- The address of the next instruction, by the prediction. -/
def successor (e : InstBufferEntry) : UWord :=
  if e.predInfo.predictTaken then e.predInfo.predictAddr else e.pc + 4

/-- The address behind a stream that starts at `pc`. -/
def behind (pc : UWord) (es : List InstBufferEntry) : UWord :=
  es.foldl (fun _ e => e.successor) pc

/-- The instructions follow one another, the first is at `pc`. -/
def Continues : UWord → List InstBufferEntry → Prop
  | _, [] => True
  | pc, e :: es => e.pc = pc ∧ Continues e.successor es

theorem continues_append {pc : UWord} {es es' : List InstBufferEntry} :
    Continues pc (es ++ es') ↔ Continues pc es ∧ Continues (behind pc es) es' := by
  induction es generalizing pc with
  | nil => simp [Continues, behind]
  | cons e es ih => simp [Continues, behind, ih, and_assoc]

theorem behind_append (pc : UWord) (es es' : List InstBufferEntry) :
    behind pc (es ++ es') = behind (behind pc es) es' := List.foldl_append

theorem Continues.head {pc : UWord} {es : List InstBufferEntry} (h : Continues pc es) :
    ∀ e ∈ es.head?, e.pc = pc := by
  cases es with
  | nil => simp
  | cons e es =>
    simp only [List.head?_cons, Option.mem_def, Option.some.injEq]
    rintro _ rfl
    exact h.1

theorem Continues.isChain {pc : UWord} {es : List InstBufferEntry} (h : Continues pc es) :
    es.IsChain fun a b => b.pc = a.successor := by
  induction es generalizing pc with
  | nil => exact .nil
  | cons e es ih =>
    cases es with
    | nil => exact .singleton e
    | cons e' es => exact .cons_cons h.2.1 (ih h.2)

end InstBufferEntry

/-! ## One packet -/

namespace FrontEnd

open InstBufferEntry (Continues behind)

variable {s : FrontEnd} {i : Inputs}

/-- The prediction is about words of the line. -/
def JumpsInLine (s : FrontEnd) : Prop :=
  ∀ way, s.prediction.lookup.jumpWay = some way →
    icacheWordOffset s.cache.pc ≤ icacheWord s.cache.pc way

/-- A prediction jumps only at a word it has found. -/
theorem hit_of_jumpWay {pc : UWord} {rsp : PredictorRsp} {way : Fin 4}
    (h : (PacketPrediction.predict pc rsp).lookup.jumpWay = some way) :
    PacketPrediction.hit pc rsp way = true := by
  have hfound := List.find?_some h
  simp only [Bool.and_eq_true] at hfound
  exact hfound.1

theorem pcIncrement_eq (pcOffset : BitVec 4) :
    pcIncrement pcOffset = min 4 (16 - pcOffset.toNat) := by
  revert pcOffset
  decide

theorem fetchWordValid_iff {j : Fin 4} : s.fetchWordValid j = true ↔
    (icacheWordOffset s.cache.pc).toNat + j < 16 ∧ s.prediction.instructionMask j = true := by
  have hoffset : (icacheWordOffset s.cache.pc).toNat < 16 := BitVec.isLt _
  have hvalid : (j == 0 || decide ((icacheWordOffset s.cache.pc).toNat < icacheLineWords - j)) =
      true ↔ (icacheWordOffset s.cache.pc).toNat + j < 16 := by
    rw [Bool.or_eq_true, beq_iff_eq, decide_eq_true_eq, Fin.ext_iff]
    change j.val = 0 ∨ _ < 16 - j.val ↔ _
    omega
  rw [fetchWordValid, Bool.and_eq_true, hvalid]

/-- `n` words follow one another if the ones in front of the last are not predicted
taken. -/
theorem packet_of_count {n : Nat} (hpos : 0 < n) (hle : n ≤ 4)
    (hvalid : ∀ j, s.fetchWordValid j = decide (j.val < n))
    (huntaken : ∀ j : Fin 4, j.val + 1 < n → s.prediction.lookup.takenMask j = false) :
    Continues s.cache.pc (s.packet i) ∧ ∀ j : Fin 4, j.val + 1 = n →
      behind s.cache.pc (s.packet i) = (s.word i j).successor := by
  have hall : List.finRange 4 = [0, 1, 2, 3] := by decide
  have hpc : ∀ j, (s.word i j).pc = s.cache.pc + BitVec.ofNat 32 (4 * j) := fun _ => rfl
  have hsucc : ∀ j : Fin 4, j.val + 1 < n →
      (s.word i j).successor = s.cache.pc + BitVec.ofNat 32 (4 * (j + 1)) := by
    intro j hj
    have htaken : (s.word i j).predInfo.predictTaken = false := huntaken j hj
    rw [InstBufferEntry.successor, htaken, hpc, Nat.mul_add, BitVec.ofNat_add, BitVec.add_assoc]
    rfl
  rw [packet, hall]
  obtain rfl | rfl | rfl | rfl : n = 1 ∨ n = 2 ∨ n = 3 ∨ n = 4 := by omega
  all_goals
    simp [List.takeWhile, hvalid, Continues, behind, hpc, hsucc, Fin.forall_fin_succ]

theorem packet_of_noJump (h : s.prediction.lookup.jumpWay = none) :
    Continues s.cache.pc (s.packet i) ∧
      behind s.cache.pc (s.packet i) = defaultPC s.cache.pc := by
  have hoffset : (icacheWordOffset s.cache.pc).toNat < 16 := BitVec.isLt _
  have hincr := pcIncrement_eq (icacheWordOffset s.cache.pc)
  have hcount : 0 < pcIncrement (icacheWordOffset s.cache.pc) ∧
      pcIncrement (icacheWordOffset s.cache.pc) ≤ 4 := by omega
  have hvalid : ∀ j : Fin 4, s.fetchWordValid j =
      decide (j.val < pcIncrement (icacheWordOffset s.cache.pc)) := by
    intro j
    have hj := j.isLt
    rw [Bool.eq_iff_iff, fetchWordValid_iff, PacketPrediction.instructionMask, h,
      decide_eq_true_eq, Option.all_none, and_iff_left rfl]
    omega
  have huntaken : ∀ j, s.prediction.lookup.takenMask j = false := by
    simp [PredictorLookup.takenMask, h]
  obtain ⟨hcont, hbehind⟩ := packet_of_count (i := i) hcount.1 hcount.2 hvalid
    fun j _ => huntaken j
  refine ⟨hcont, ?_⟩
  have hlast := Nat.sub_add_cancel hcount.1
  have htaken (j : Fin 4) : (s.word i j).predInfo.predictTaken = false := huntaken j
  rw [hbehind ⟨pcIncrement (icacheWordOffset s.cache.pc) - 1, by omega⟩ hlast,
    InstBufferEntry.successor, htaken, if_neg Bool.false_ne_true, defaultPC]
  conv_rhs => rw [← hlast, Nat.mul_add, BitVec.ofNat_add, ← BitVec.add_assoc]
  rfl

theorem packet_of_jump (hline : s.JumpsInLine) {way : Fin 4}
    (h : s.prediction.lookup.jumpWay = some way) :
    Continues s.cache.pc (s.packet i) ∧
      behind s.cache.pc (s.packet i) = s.payloadTarget i := by
  have hway := way.isLt
  have hin : (icacheWordOffset s.cache.pc).toNat + way < 16 := by
    have hle := hline way h
    have hoffset : (icacheWordOffset s.cache.pc).toNat < 16 := BitVec.isLt _
    rw [icacheWord, BitVec.le_def, BitVec.toNat_add, BitVec.toNat_ofNat] at hle
    omega
  have hvalid : ∀ j : Fin 4, s.fetchWordValid j = decide (j.val < way.val + 1) := by
    intro j
    rw [Bool.eq_iff_iff, fetchWordValid_iff, PacketPrediction.instructionMask, h,
      decide_eq_true_eq, Option.all_some, decide_eq_true_eq, Fin.le_def]
    omega
  have htaken : ∀ j, s.prediction.lookup.takenMask j = (way == j) := by
    simp [PredictorLookup.takenMask, h]
  obtain ⟨hcont, hbehind⟩ := packet_of_count (i := i) (Nat.succ_pos way) hway hvalid fun j hj => by
    rw [htaken, beq_eq_false_iff_ne]
    rintro rfl
    omega
  refine ⟨hcont, ?_⟩
  have hthis : (s.word i way).predInfo.predictTaken = true := by
    change s.prediction.lookup.takenMask way = true
    simp [htaken]
  rw [hbehind way rfl, InstBufferEntry.successor, hthis, if_pos rfl]
  rfl

/-- The words of a packet follow one another, and the next address is the one
behind them. -/
theorem continues_packet (hline : s.JumpsInLine) :
    Continues s.cache.pc (s.packet i) ∧ behind s.cache.pc (s.packet i) =
      if s.prediction.jumpFlag then s.payloadTarget i else defaultPC s.cache.pc := by
  cases h : s.prediction.lookup.jumpWay with
  | none => simpa [PacketPrediction.jumpFlag, h] using packet_of_noJump h
  | some way => simpa [PacketPrediction.jumpFlag, h] using packet_of_jump hline h

/-- A packet that is not stalled fits into the buffer. -/
theorem pushReady_of_pushed {k : Nat} (hk : k < (s.pushed i).length) :
    s.buffer.ptr.pushReady fetchBufferDepth k = true := by
  rw [pushed] at hk
  split_ifs at hk with hpush
  · simp only [Bool.and_eq_true, Bool.not_eq_true', if2Stuck, Bool.or_eq_false_iff, isStall,
      Bool.and_eq_false_iff] at hpush
    obtain ⟨hvalid, -, hstall⟩ := hpush
    have hfits := hstall.resolve_left (by simp [hvalid])
    rw [List.any_eq_false] at hfits
    rw [packet, List.length_map] at hk
    have htaken : (List.finRange 4).takeWhile s.fetchWordValid <+: List.finRange 4 :=
      List.takeWhile_prefix _
    have hlt : k < 4 := Nat.lt_of_lt_of_le hk (by simpa using htaken.length_le)
    have hword : ((List.finRange 4).takeWhile s.fetchWordValid)[k] = ⟨k, hlt⟩ := by
      rw [htaken.getElem hk]
      simp
    have hmem : ⟨k, hlt⟩ ∈ (List.finRange 4).takeWhile s.fetchWordValid :=
      hword ▸ List.getElem_mem hk
    have hone := hfits ⟨k, hlt⟩ (List.mem_finRange _)
    simpa [(List.mem_takeWhile_imp hmem : s.fetchWordValid _ = true)] using hone
  · simp at hk

theorem length_pushed_le : (s.pushed i).length ≤ fetchBufferDepth := by
  rw [pushed]
  split_ifs
  · rw [packet, List.length_map]
    have hle := (List.takeWhile_prefix s.fetchWordValid (l := List.finRange 4)).length_le
    exact hle.trans (by decide)
  · exact Nat.zero_le _

/-! ## The two stages in one cycle -/

@[simp] theorem cacheInputs_nextPC : (s.cacheInputs i).nextPC = s.nextPC i := rfl

@[simp] theorem if1Flushed_cacheInputs : ICache.if1Flushed (s.cacheInputs i) =
    (s.jumpPipe.isSome || s.predictValid || i.redirect.isSome) := rfl

@[simp] theorem if2Flushed_cacheInputs :
    ICache.if2Flushed (s.cacheInputs i) = i.redirect.isSome := rfl

/-- A stalled second stage keeps its fetch, and the first stage waits. -/
theorem step_of_if2Stuck (hstuck : s.if2Stuck = true) (hstay : i.redirect = none) :
    (s.step i).cache.if2Valid = s.cache.if2Valid ∧ (s.step i).cache.pc = s.cache.pc ∧
      (s.step i).cache.regPC = s.cache.regPC ∧ (s.step i).prediction = s.prediction ∧
      (s.cache.if1Valid = true → s.jumpPipe = none → s.predictValid = false →
        (s.step i).cache.if1Valid = true) := by
  have h2 : s.cache.if2Stuck (s.cacheInputs i) = true := hstuck
  have h1 : s.cache.if1Stuck (s.cacheInputs i) = true := by simp [ICache.if1Stuck, h2]
  refine ⟨?_, ?_, ?_, ?_, fun hvalid hpipe hpredict => ?_⟩
  · simp [step, ICache.step, ICache.if1Moves, h1, h2, hstay]
  · simp [step, ICache.step, h2]
  · simp [step, ICache.step, h1]
  · simp [step, hstuck]
  · simp [step, ICache.step, h1, hvalid, hstay, hpipe, hpredict]

/-- A first stage that is held while the second is not leaves a gap behind it. -/
theorem step_of_if1Stuck (hmoves : s.if2Stuck = false) (hstuck : s.if1Stuck i = true) :
    (s.step i).cache.if2Valid = false ∧ (s.step i).cache.regPC = s.cache.regPC ∧
      (ICache.if1Flushed (s.cacheInputs i) = false →
        (s.step i).cache.if1Valid = s.cache.if1Valid) := by
  have h2 : s.cache.if2Stuck (s.cacheInputs i) = false := hmoves
  have h1 : s.cache.if1Stuck (s.cacheInputs i) = true := hstuck
  refine ⟨?_, ?_, fun hflushed => ?_⟩
  · simp [step, ICache.step, ICache.if1Moves, h1, h2]
  · simp [step, ICache.step, h1]
  · simp only [step, ICache.step, h1, hflushed]
    rfl

/-- A first stage that is free takes the next address, and hands over what it has
unless it is flushed. -/
theorem step_of_moves (hmoves : s.if1Stuck i = false) :
    (s.step i).cache.if2Valid =
        (!ICache.if1Flushed (s.cacheInputs i) && s.cache.if1Valid) ∧
      (s.step i).cache.pc = s.cache.regPC ∧
      (s.step i).prediction = .predict s.cache.regPC i.rsp ∧
      (s.step i).cache.if1Valid = true ∧ (s.step i).cache.regPC = s.nextPC i := by
  have h1 : s.cache.if1Stuck (s.cacheInputs i) = false := hmoves
  have h2 : s.cache.if2Stuck (s.cacheInputs i) = false := by
    simp only [ICache.if1Stuck, Bool.or_eq_false_iff] at h1
    exact h1.2
  have hstuck : s.if2Stuck = false := h2
  refine ⟨?_, ?_, ?_, ?_, ?_⟩
  · simp only [step, ICache.step, ICache.if1Moves, h1, h2]
    cases ICache.if1Flushed (s.cacheInputs i) <;> simp
  · simp [step, ICache.step, h2]
  · simp [step, hstuck]
  · simp [step, ICache.step, h1]
  · simp [step, ICache.step, h1]

/-- The first stage is held by the second, by a refill that has ended, or while the
core waits. -/
theorem if1Stuck_cases (h : s.if1Stuck i = true) : s.if2Stuck = true ∨
    s.inLowPowerMode = true ∨ (s.cache.if1Valid = true ∧ s.jumpPipe = none ∧
      s.predictValid = false ∧ i.redirect = none) := by
  have h1 : s.cache.if1Stuck (s.cacheInputs i) = true := h
  simp only [ICache.if1Stuck, Bool.or_eq_true] at h1
  obtain (hrefetch | hhalt) | hstuck := h1
  · simp only [ICache.refetchValid, ICache.doRefetch, if1Flushed_cacheInputs,
      Bool.and_eq_true, Bool.not_eq_true', Bool.or_eq_false_iff] at hrefetch
    obtain ⟨hvalid, -, ⟨hpipe, hpredict⟩, hredirect⟩ := hrefetch
    exact .inr (.inr ⟨hvalid, by simpa using hpipe, hpredict, by simpa using hredirect⟩)
  · exact .inr (.inl hhalt)
  · exact .inl hstuck

theorem step_of_redirect {target : UWord} (h : i.redirect = some target) :
    (s.step i).cache.if2Valid = false := by
  simp [step, ICache.step, ICache.if1Moves, h]

theorem jumpsInLine_step (hline : s.cache.if2Valid = true → s.JumpsInLine) :
    (s.step i).cache.if2Valid = true → (s.step i).JumpsInLine := by
  intro hvalid
  cases hstuck : s.if2Stuck with
  | true =>
    cases hredirect : i.redirect with
    | none =>
      obtain ⟨hif2, hpc, -, hprediction, -⟩ := step_of_if2Stuck hstuck hredirect
      rw [JumpsInLine, hpc, hprediction]
      exact hline (hif2 ▸ hvalid)
    | some target =>
      rw [step_of_redirect hredirect] at hvalid
      cases hvalid
  | false =>
    cases hif1 : s.if1Stuck i with
    | true =>
      rw [(step_of_if1Stuck hstuck hif1).1] at hvalid
      cases hvalid
    | false =>
      obtain ⟨-, hpc, hprediction, -, -⟩ := step_of_moves hif1
      intro way hway
      rw [hprediction] at hway
      have hhit := hit_of_jumpWay hway
      simp only [PacketPrediction.hit, Bool.and_eq_true, decide_eq_true_eq] at hhit
      rw [hpc]
      exact hhit.1

end FrontEnd

/-! ## The front end with the stream it delivers -/

/-- An instruction that has entered the fetch buffer, with the number of the
redirection that its fetch goes back to. -/
structure Fetched where
  entry : InstBufferEntry
  path : Nat

/-- The front end with what has happened since the last redirection: its target
and number, and the instructions that have entered the fetch buffer and those that
decode has taken out. The register of the redirection and the two stages remember
the redirection that they go back to. -/
structure FrontEndTrace where
  front : FrontEnd := {}
  target : UWord := 0x1c000000
  redirects : Nat := 0
  pipePath : Nat := 0
  if1Path : Nat := 0
  if2Path : Nat := 0
  entered : List Fetched := []
  decoded : List InstBufferEntry := []

namespace FrontEndTrace

open FrontEnd (Inputs)
open InstBufferEntry (Continues behind)

variable (t : FrontEndTrace) (i : Inputs)

def redirectsNext : Nat := t.redirects + if i.redirect.isSome then 1 else 0

def step : FrontEndTrace where
  front := t.front.step i
  target := i.redirect.getD t.target
  redirects := t.redirectsNext i
  pipePath := if t.front.jumpReady i then t.redirectsNext i else t.pipePath
  if1Path :=
    if t.front.if1Stuck i then t.if1Path
    else if t.front.jumpPipe.isSome then t.pipePath
    else if t.front.predictValid then t.if2Path
    else t.if1Path
  if2Path := if t.front.if2Stuck then t.if2Path else t.if1Path
  entered :=
    if i.redirect.isSome then []
    else t.entered ++ (t.front.pushed i).map fun e => ⟨e, t.if2Path⟩
  decoded := if i.redirect.isSome then [] else t.decoded ++ t.front.popped i

/-- Commit redirects on behalf of an instruction that decode has taken out of the
buffer after the last redirection; a wait instruction that retires flushes. -/
structure Legal : Prop where
  redirects : i.redirect.isSome = true → t.decoded ≠ []
  waits : i.doWait = true → i.redirect.isSome = true

/-- The first fetch after reset is that of the reset vector. -/
structure Init (t : FrontEndTrace) : Prop where
  if1Valid : t.front.cache.if1Valid = true
  if2Valid : t.front.cache.if2Valid = false
  regPC : t.front.cache.regPC = t.target
  jumpPipe : t.front.jumpPipe = none
  inLowPowerMode : t.front.inLowPowerMode = false
  ptr : t.front.buffer.ptr = {}
  if1Path : t.if1Path = t.redirects
  entered : t.entered = []
  decoded : t.decoded = []

def machine : Clocked.Machine FrontEndTrace Inputs where
  init := Init
  legal := Legal
  step := step

/-! ## The invariant -/

/-- The instructions that have entered since the last redirection. -/
def stream : List InstBufferEntry := t.entered.map Fetched.entry

/-- The address that continues the stream. -/
def expected : UWord := behind t.target t.stream

/-- The redirection is on its way, and nothing has entered since. -/
structure Redirecting : Prop where
  jumpPipe : t.front.jumpPipe = some t.target
  if2Valid : t.front.cache.if2Valid = false
  entered : t.entered = []
  path : t.pipePath = t.redirects

/-- The stages hold what continues the stream. -/
structure Fetching : Prop where
  jumpPipe : t.front.jumpPipe = none
  inLowPowerMode : t.front.inLowPowerMode = false
  second : t.front.cache.if2Valid = true →
    t.front.cache.pc = t.expected ∧ t.if2Path = t.redirects
  following : t.front.cache.if2Valid = true → t.front.prediction.jumpFlag = false →
    t.front.cache.if1Valid = true ∧ t.front.cache.regPC = defaultPC t.front.cache.pc ∧
      t.if1Path = t.redirects
  first : t.front.cache.if2Valid = false →
    t.front.cache.if1Valid = true ∧ t.front.cache.regPC = t.expected ∧
      t.if1Path = t.redirects

structure Inv : Prop where
  range : t.front.buffer.ptr.InRange fetchBufferDepth
  inLine : t.front.cache.if2Valid = true → t.front.JumpsInLine
  conserved : t.decoded ++ t.front.buffer.contents fetchBufferDepth = t.stream
  continues : Continues t.target t.stream
  paths : ∀ f ∈ t.entered, f.path = t.redirects
  phase : t.Redirecting ∨ t.Fetching

variable {t i}

theorem inv_of_init (h : Init t) : t.Inv := by
  have hcontents : t.front.buffer.contents fetchBufferDepth = [] := by
    simp only [MultiPortFIFOVec.contents, MultiPortFIFOVecOutReg.contents,
      MultiPortFIFOVec.outReg, h.ptr]
    rfl
  refine ⟨?_, ?_, ?_, ?_, ?_, .inr ⟨h.jumpPipe, h.inLowPowerMode, ?_, ?_, ?_⟩⟩
  · rw [h.ptr]
    exact ⟨by decide, by decide⟩
  · simp [h.if2Valid]
  · simp [h.decoded, hcontents, stream, h.entered]
  · simp [stream, h.entered, Continues]
  · simp [h.entered]
  · simp [h.if2Valid]
  · simp [h.if2Valid]
  · intro
    exact ⟨h.if1Valid, by simp [h.regPC, expected, stream, h.entered, behind], h.if1Path⟩

/-- A redirection finds the register empty. -/
theorem fetching_of_redirect (h : t.Inv) (hi : t.Legal i) (hredirect : i.redirect.isSome = true) :
    t.Fetching := by
  refine h.phase.resolve_left fun hr => ?_
  have hconserved := h.conserved
  rw [stream, hr.entered, List.map_nil, List.append_eq_nil_iff] at hconserved
  exact hi.redirects hredirect hconserved.1

theorem jumpReady_of_redirect (h : t.Inv) (hi : t.Legal i) (hredirect : i.redirect.isSome = true) :
    t.front.jumpReady i = true := by
  simp [FrontEnd.jumpReady, (fetching_of_redirect h hi hredirect).jumpPipe]

theorem redirecting_step (h : t.Inv) (hi : t.Legal i) {target : UWord}
    (hredirect : i.redirect = some target) : (t.step i).Redirecting := by
  have hready := jumpReady_of_redirect h hi (by simp [hredirect])
  refine ⟨?_, FrontEnd.step_of_redirect hredirect, ?_, ?_⟩
  · simp [step, FrontEnd.step, hready, hredirect]
  · simp [step, hredirect]
  · simp [step, hready]

theorem lowPower_step (hi : t.Legal i) (hstay : i.redirect = none)
    (hlow : t.front.inLowPowerMode = false) : (t.step i).front.inLowPowerMode = false := by
  have hwait : i.doWait = false := by
    by_contra hw
    have hsome := hi.waits (by simpa using hw)
    rw [hstay] at hsome
    cases hsome
  simp [step, FrontEnd.step, hlow, hwait]

theorem stream_step (hstay : i.redirect = none) :
    (t.step i).stream = t.stream ++ t.front.pushed i := by
  simp [stream, step, hstay, Function.comp_def]

theorem expected_step (hstay : i.redirect = none) :
    (t.step i).expected = behind t.expected (t.front.pushed i) := by
  rw [expected, stream_step hstay, InstBufferEntry.behind_append, expected, step, hstay]
  rfl

/-- A redirection on its way stays, or reaches the program counter. -/
theorem Redirecting.step (h : t.Redirecting) (hi : t.Legal i) (hstay : i.redirect = none) :
    (t.step i).Redirecting ∨ (t.step i).Fetching := by
  have hpushed : t.front.pushed i = [] := by simp [FrontEnd.pushed, h.if2Valid]
  have hexpected : t.expected = t.target := by simp [expected, stream, h.entered, behind]
  cases hstuck : t.front.if1Stuck i with
  | true =>
    have hready : t.front.jumpReady i = false := by
      simp [FrontEnd.jumpReady, h.jumpPipe, hstuck]
    refine .inl ⟨?_, ?_, ?_, ?_⟩
    · simp [FrontEndTrace.step, FrontEnd.step, hready, h.jumpPipe, hstay]
    · cases h2 : t.front.if2Stuck with
      | true => exact (FrontEnd.step_of_if2Stuck h2 hstay).1.trans h.if2Valid
      | false => exact (FrontEnd.step_of_if1Stuck h2 hstuck).1
    · simp [FrontEndTrace.step, hstay, h.entered, hpushed]
    · simp [FrontEndTrace.step, hready, h.path, redirectsNext, hstay]
  | false =>
    obtain ⟨hif2, -, -, hif1, hregPC⟩ := FrontEnd.step_of_moves hstuck
    have hinvalid : (t.step i).front.cache.if2Valid = false := by
      rw [FrontEnd.if1Flushed_cacheInputs, h.jumpPipe] at hif2
      exact hif2
    have hlow : t.front.inLowPowerMode = false := by
      have hfree : t.front.cache.if1Stuck (t.front.cacheInputs i) = false := hstuck
      simp only [ICache.if1Stuck, Bool.or_eq_false_iff] at hfree
      exact hfree.1.2
    refine .inr ⟨?_, lowPower_step hi hstay hlow, ?_, ?_, fun _ => ⟨hif1, ?_, ?_⟩⟩
    · simp [FrontEndTrace.step, FrontEnd.step, FrontEnd.jumpReady, hstuck, hstay]
    · simp [hinvalid]
    · simp [hinvalid]
    · rw [expected_step hstay, hpushed, hexpected]
      rw [FrontEnd.nextPC, h.jumpPipe] at hregPC
      exact hregPC
    · simp [FrontEndTrace.step, hstuck, h.jumpPipe, h.path, redirectsNext, hstay]

/-- What the stages hand over is followed by what the first stage has, or by the
target of the prediction. -/
theorem Fetching.expected_step (h : t.Fetching) (hinv : t.Inv) (hstay : i.redirect = none)
    (hmoves : t.front.if2Stuck = false) : (t.step i).expected =
      if t.front.predictValid then t.front.payloadTarget i else t.front.cache.regPC := by
  rw [FrontEndTrace.expected_step hstay, FrontEnd.pushed, hmoves, FrontEnd.predictValid]
  cases hif2 : t.front.cache.if2Valid with
  | false => exact (h.first hif2).2.1.symm
  | true =>
    have hpacket := (FrontEnd.continues_packet (i := i) (hinv.inLine hif2)).2
    rw [← (h.second hif2).1]
    refine hpacket.trans ?_
    cases hjump : t.front.prediction.jumpFlag with
    | false => exact (h.following hif2 hjump).2.1.symm
    | true => rfl

theorem Fetching.step (h : t.Fetching) (hinv : t.Inv) (hi : t.Legal i)
    (hstay : i.redirect = none) : (t.step i).Fetching := by
  have hlow := lowPower_step hi hstay h.inLowPowerMode
  have hpipe : (t.step i).front.jumpPipe = none := by
    simp [FrontEndTrace.step, FrontEnd.step, hstay, h.jumpPipe]
  have hredirects : (t.step i).redirects = t.redirects := by
    simp [FrontEndTrace.step, redirectsNext, hstay]
  cases hstuck2 : t.front.if2Stuck with
  | true =>
    have hstuck1 : t.front.if1Stuck i = true := by
      have h2 : t.front.cache.if2Stuck (t.front.cacheInputs i) = true := hstuck2
      simp [FrontEnd.if1Stuck, ICache.if1Stuck, h2]
    have hpushed : t.front.pushed i = [] := by simp [FrontEnd.pushed, hstuck2]
    have hexpected : (t.step i).expected = t.expected := by
      rw [FrontEndTrace.expected_step hstay, hpushed]
      rfl
    have hpath2 : (t.step i).if2Path = t.if2Path := by simp [FrontEndTrace.step, hstuck2]
    have hpath1 : (t.step i).if1Path = t.if1Path := by simp [FrontEndTrace.step, hstuck1]
    obtain ⟨hif2, hpc, hregPC, hprediction, hif1⟩ := FrontEnd.step_of_if2Stuck hstuck2 hstay
    refine ⟨hpipe, hlow, fun hvalid => ?_, fun hvalid hjump => ?_, fun hvalid => ?_⟩
    · rw [hexpected, hpath2, hredirects]
      exact ⟨hpc.trans (h.second (hif2.symm.trans hvalid)).1,
        (h.second (hif2.symm.trans hvalid)).2⟩
    · have hvalid' := hif2.symm.trans hvalid
      have hjump' : t.front.prediction.jumpFlag = false := hprediction ▸ hjump
      obtain ⟨hone, hregPC', hpath⟩ := h.following hvalid' hjump'
      refine ⟨hif1 hone h.jumpPipe (by simp [FrontEnd.predictValid, hjump']), ?_, ?_⟩
      · exact hregPC.trans (hregPC'.trans (congrArg defaultPC hpc.symm))
      · rw [hpath1, hredirects, hpath]
    · have hvalid' := hif2.symm.trans hvalid
      obtain ⟨hone, hregPC', hpath⟩ := h.first hvalid'
      refine ⟨hif1 hone h.jumpPipe (by simp [FrontEnd.predictValid, hvalid']), ?_, ?_⟩
      · exact hregPC.trans (hregPC'.trans hexpected.symm)
      · rw [hpath1, hredirects, hpath]
  | false =>
    have hexpected := h.expected_step hinv hstay hstuck2
    have hahead : t.front.predictValid = false →
        t.front.cache.if1Valid = true ∧ t.if1Path = t.redirects := by
      intro hpredict
      cases hif2 : t.front.cache.if2Valid with
      | false => exact ⟨(h.first hif2).1, (h.first hif2).2.2⟩
      | true =>
        have hjump : t.front.prediction.jumpFlag = false := by
          simpa [FrontEnd.predictValid, hif2] using hpredict
        exact ⟨(h.following hif2 hjump).1, (h.following hif2 hjump).2.2⟩
    cases hstuck1 : t.front.if1Stuck i with
    | true =>
      -- the first stage reads again after a refill
      have hpredict : t.front.predictValid = false := by
        obtain hc | hc | hc := FrontEnd.if1Stuck_cases hstuck1
        · rw [hstuck2] at hc
          cases hc
        · rw [h.inLowPowerMode] at hc
          cases hc
        · exact hc.2.2.1
      obtain ⟨hif2, hregPC, hif1⟩ := FrontEnd.step_of_if1Stuck hstuck2 hstuck1
      have hinvalid : (t.step i).front.cache.if2Valid = false := hif2
      have hunflushed : ICache.if1Flushed (t.front.cacheInputs i) = false := by
        simp [h.jumpPipe, hpredict, hstay]
      refine ⟨hpipe, hlow, by simp [hinvalid], by simp [hinvalid], fun _ => ⟨?_, ?_, ?_⟩⟩
      · exact (hif1 hunflushed).trans (hahead hpredict).1
      · rw [hexpected, hpredict]
        exact hregPC
      · rw [hredirects, ← (hahead hpredict).2]
        simp [FrontEndTrace.step, hstuck1]
    | false =>
      obtain ⟨hif2, hpc, -, hif1, hregPC⟩ := FrontEnd.step_of_moves hstuck1
      rw [FrontEnd.if1Flushed_cacheInputs, h.jumpPipe, hstay] at hif2
      rw [FrontEnd.nextPC, h.jumpPipe] at hregPC
      cases hpredict : t.front.predictValid with
      | true =>
        rw [hpredict] at hif2 hregPC hexpected
        have hinvalid : (t.step i).front.cache.if2Valid = false := hif2
        refine ⟨hpipe, hlow, by simp [hinvalid], by simp [hinvalid], fun _ => ⟨hif1, ?_, ?_⟩⟩
        · exact hregPC.trans hexpected.symm
        · have hif2Valid : t.front.cache.if2Valid = true := by
            simp only [FrontEnd.predictValid, Bool.and_eq_true] at hpredict
            exact hpredict.1
          rw [hredirects, ← (h.second hif2Valid).2]
          simp [FrontEndTrace.step, hstuck1, h.jumpPipe, hpredict]
      | false =>
        obtain ⟨hone, hpath⟩ := hahead hpredict
        rw [hpredict, hone] at hif2
        rw [hpredict] at hregPC hexpected
        have hvalid : (t.step i).front.cache.if2Valid = true := hif2
        refine ⟨hpipe, hlow, fun _ => ⟨?_, ?_⟩, fun _ _ => ⟨hif1, ?_, ?_⟩, by simp [hvalid]⟩
        · exact hpc.trans hexpected.symm
        · rw [hredirects, ← hpath]
          simp [FrontEndTrace.step, hstuck2]
        · exact hregPC.trans (congrArg defaultPC hpc.symm)
        · rw [hredirects, ← hpath]
          simp [FrontEndTrace.step, hstuck1, h.jumpPipe, hpredict]

/-- What enters the buffer continues the stream and goes back to the last
redirection. -/
theorem pushed_spec (h : t.Inv) : Continues t.expected (t.front.pushed i) ∧
    (t.front.pushed i ≠ [] → t.if2Path = t.redirects) := by
  cases hif2 : t.front.cache.if2Valid with
  | false =>
    have hnone : t.front.pushed i = [] := by simp [FrontEnd.pushed, hif2]
    rw [hnone]
    exact ⟨trivial, fun hne => absurd rfl hne⟩
  | true =>
    obtain hr | hf := h.phase
    · rw [hr.if2Valid] at hif2
      cases hif2
    · obtain ⟨hpc, hpath⟩ := hf.second hif2
      refine ⟨?_, fun _ => hpath⟩
      rw [FrontEnd.pushed, ← hpc]
      split_ifs
      · exact (FrontEnd.continues_packet (h.inLine hif2)).1
      · trivial

theorem inv_step (h : t.Inv) (hi : t.Legal i) : (t.step i).Inv := by
  have hready : FrontEnd.popReady i ≤ fetchBufferDepth := by
    rw [FrontEnd.popReady]
    split_ifs <;> decide
  have hrange := MultiPortFIFOVec.inRange_step h.range (t.front.length_pushed_le (i := i)) hready
    i.redirect.isSome
  have hline := FrontEnd.jumpsInLine_step (i := i) h.inLine
  cases hredirect : i.redirect with
  | some target =>
    have hcontents : (t.step i).front.buffer.contents fetchBufferDepth = [] := by
      simp only [step, FrontEnd.step, hredirect]
      exact MultiPortFIFOVec.contents_flush
    refine ⟨hrange, hline, ?_, ?_, ?_, .inl (redirecting_step h hi hredirect)⟩
    · rw [hcontents]
      simp [stream, step, hredirect]
    · simp [stream, step, hredirect, Continues]
    · simp [step, hredirect]
  | none =>
    have hconserved := MultiPortFIFOVec.popped_append_contents h.range
      (fun _ hk => t.front.pushReady_of_pushed (i := i) hk) t.front.length_pushed_le hready
    obtain ⟨hcontinues, hpath⟩ := pushed_spec (i := i) h
    have hbuffer : (t.step i).front.buffer = t.front.buffer.step fetchBufferDepth
        (t.front.pushed i) (FrontEnd.popReady i) false := by
      simp [step, FrontEnd.step, hredirect]
    refine ⟨hrange, hline, ?_, ?_, ?_, ?_⟩
    · have hdecoded : (t.step i).decoded = t.decoded ++ t.front.popped i := by
        simp [step, hredirect]
      rw [stream_step hredirect, hdecoded, hbuffer, List.append_assoc, FrontEnd.popped,
        hconserved, ← List.append_assoc, h.conserved]
    · rw [stream_step hredirect, InstBufferEntry.continues_append]
      simp only [step, hredirect]
      exact ⟨h.continues, hcontinues⟩
    · intro f hf
      simp only [step, hredirect, redirectsNext] at hf ⊢
      obtain hold | hnew := List.mem_append.mp hf
      · exact h.paths f hold
      · obtain ⟨e, he, rfl⟩ := List.mem_map.mp hnew
        exact hpath (List.ne_nil_of_mem he)
    · obtain hr | hf := h.phase
      · exact hr.step hi hredirect
      · exact .inr (hf.step h hi hredirect)

theorem inv_of_reachable (h : machine.Reachable t) : t.Inv :=
  Clocked.Machine.invariant (fun _ => inv_of_init) (fun _ _ => inv_step) h

/-! ## Redirections -/

/-- What has entered the buffer since the last redirection starts at its target and
goes back to it, and decode is given nothing else. As long as nothing has entered,
the target is in the register, in the first stage or in the second. A further
redirection is always accepted. -/
structure Redirected (t : FrontEndTrace) : Prop where
  first : ∀ e ∈ t.stream.head?, e.pc = t.target
  paths : ∀ f ∈ t.entered, f.path = t.redirects
  delivered : t.decoded ++ t.front.buffer.contents fetchBufferDepth = t.stream
  pending : t.entered = [] →
    (t.front.jumpPipe = some t.target ∧ t.pipePath = t.redirects) ∨
    (t.front.cache.if1Valid = true ∧ t.front.cache.regPC = t.target ∧
      t.if1Path = t.redirects) ∨
    (t.front.cache.if2Valid = true ∧ t.front.cache.pc = t.target ∧ t.if2Path = t.redirects)
  accepted : ∀ i, t.Legal i → i.redirect.isSome = true → t.front.jumpReady i = true

theorem redirected (h : machine.Reachable t) : t.Redirected := by
  have hinv := inv_of_reachable h
  refine ⟨hinv.continues.head, hinv.paths, hinv.conserved, fun hnone => ?_,
    fun _ => jumpReady_of_redirect hinv⟩
  obtain hr | hf := hinv.phase
  · exact .inl ⟨hr.jumpPipe, hr.path⟩
  · have hexpected : t.expected = t.target := by simp [expected, stream, hnone, behind]
    cases hif2 : t.front.cache.if2Valid with
    | false => exact .inr (.inl (hexpected ▸ hf.first hif2))
    | true => exact .inr (.inr ⟨rfl, hexpected ▸ hf.second hif2⟩)

instance (t : FrontEndTrace) (i : Inputs) : Decidable (machine.legal t i) :=
  decidable_of_iff
    ((i.redirect.isSome = true → t.decoded.isEmpty = false) ∧
      (i.doWait = true → i.redirect.isSome = true))
    ⟨fun h => ⟨by simpa using h.1, h.2⟩, fun h => ⟨by simpa using h.redirects, h.waits⟩⟩

def idle : Inputs := {}

/-- The first packet has an exception and is decoded. The second one misses, and
its refill is in progress when commit redirects; the packet at the target has an
exception again. -/
def redirectDuringRefill : List Inputs :=
  let mapped : TranslateCSR := ⟨false, true, 0, 0⟩
  [{ outside := { nextCSR := mapped } }, idle, { decodeFires := true },
    { redirect := some 0x1c000100 }, { outside := { arReady := true } }] ++
  (List.range 16).map (fun k => { outside := { rValid := true, rLast := k == 15 } }) ++
  [idle, idle, { outside := { nextCSR := mapped } }, idle]

theorem redirected_redirectDuringRefill :
    ((machine.run {} redirectDuringRefill).stream.map InstBufferEntry.pc =
        [0x1c000100, 0x1c000104, 0x1c000108, 0x1c00010c]) ∧
      (machine.run {} redirectDuringRefill).Redirected := by
  refine ⟨by decide +kernel, redirected (Clocked.Machine.Reachable.run (.reset ?_) ?_)⟩
  · exact ⟨rfl, rfl, rfl, rfl, rfl, rfl, rfl, rfl, rfl⟩
  · decide +kernel

/-! ## Continuity -/

/-- Each instruction is followed by the one that its prediction names, and all of
them reach decode in this order. -/
structure Continuous (t : FrontEndTrace) : Prop where
  chain : t.stream.IsChain fun a b => b.pc = a.successor
  delivered : t.decoded ++ t.front.buffer.contents fetchBufferDepth = t.stream

theorem continuous (h : machine.Reachable t) : t.Continuous :=
  ⟨(inv_of_reachable h).continues.isChain, (inv_of_reachable h).conserved⟩

/-- The second word of the first packet is known as a return that is taken. The
packet is cut behind it, and the stack gives the next address, two words in front
of the end of a line. -/
def returnInPacket : List Inputs :=
  let mapped : TranslateCSR := ⟨false, true, 0, 0⟩
  [{ outside := { nextCSR := mapped }
     rsp :=
      { validFlag := fun j => j == 1
        status := fun _ => { isReturn := true }
        predCounters := fun _ => 2 } },
    { outside := { nextCSR := mapped }, ras := 0x0700000e },
    { outside := { nextCSR := mapped } }, { outside := { nextCSR := mapped } }, idle]

theorem continuous_returnInPacket :
    ((machine.run {} returnInPacket).stream.map InstBufferEntry.pc =
        [0x1c000000, 0x1c000004, 0x1c000038, 0x1c00003c, 0x1c000040, 0x1c000044, 0x1c000048,
          0x1c00004c]) ∧
      (machine.run {} returnInPacket).Continuous := by
  refine ⟨by decide +kernel, continuous (Clocked.Machine.Reachable.run (.reset ?_) ?_)⟩
  · exact ⟨rfl, rfl, rfl, rfl, rfl, rfl, rfl, rfl, rfl⟩
  · decide +kernel

end FrontEndTrace

end NopCore
