import NopCore.Core.Commit
import NopCore.Lib.System

/-!
# Interrupts and the timer

The timer counts down in `TVAL` while its own flag `timer_en` is set, and pends
line 11 when it reaches zero. `TCFG.EN` is a second flag: a write to `TCFG` sets
both when bit 0 is high, but only `TCFG.EN` when it is low. The write switch of
the control registers is elaborated after everything else, so a write wins over
what the timer does in the same cycle.
-/

namespace NopCore

namespace CSRAddress

def CRMD : BitVec 14 := 0x0
def PRMD : BitVec 14 := 0x1
def ECFG : BitVec 14 := 0x4
def ESTAT : BitVec 14 := 0x5
def ERA : BitVec 14 := 0x6
def BADV : BitVec 14 := 0x7
def EENTRY : BitVec 14 := 0xc
def TLBIDX : BitVec 14 := 0x10
def TLBEHI : BitVec 14 := 0x11
def TLBELO0 : BitVec 14 := 0x12
def TLBELO1 : BitVec 14 := 0x13
def ASID : BitVec 14 := 0x18
def PGDL : BitVec 14 := 0x19
def PGDH : BitVec 14 := 0x1a
def SAVE0 : BitVec 14 := 0x30
def SAVE1 : BitVec 14 := 0x31
def SAVE2 : BitVec 14 := 0x32
def SAVE3 : BitVec 14 := 0x33
def TID : BitVec 14 := 0x40
def TCFG : BitVec 14 := 0x41
def TICLR : BitVec 14 := 0x44
def LLBCTL : BitVec 14 := 0x60
def TLBRENTRY : BitVec 14 := 0x88
def DMW0 : BitVec 14 := 0x180
def DMW1 : BitVec 14 := 0x181

end CSRAddress

/-- The register field at `addr` takes the value `new` when it is the one that
is written. -/
def CSRWrite.update {α : Type*} (w : CSRWrite) (addr : BitVec 14) (new old : α) : α :=
  if w.addr = addr then new else old

/-- The timer, the interrupt enables and the pending lines. Line 12 is tied to
zero and has no register. -/
structure InterruptHandler where
  tcfgEN : Bool := false
  tcfgPERIODIC : Bool := false
  tcfgINITVAL : BitVec 30 := 0
  timerEn : Bool := false
  tidTID : UWord := 0
  tvalTIMEVAL : UWord := 0
  innerCounter : Nat := 0
  ecfgLIE0 : BitVec 10 := 0
  ecfgLIE11 : BitVec 2 := 0
  estatIS0 : BitVec 2 := 0
  estatIS2 : BitVec 8 := 0
  estatIS11 : Bool := false
  deriving DecidableEq, Repr

namespace InterruptHandler

/-- The timer reaches zero in this cycle. -/
def setTimerInterrupt (s : InterruptHandler) : Bool := s.timerEn && s.tvalTIMEVAL == 0

/-- The counter that divides the clock wraps in this cycle. -/
def innerClk (innerCounterDownEvery : Nat) (s : InterruptHandler) : Bool :=
  s.innerCounter + 1 == innerCounterDownEvery

def nextTimeval (innerCounterDownEvery : Nat) (s : InterruptHandler) : UWord :=
  if s.timerEn then
    if s.tvalTIMEVAL == 0 then
      if s.tcfgPERIODIC then s.tcfgINITVAL ++ 0#2 else 0#32 - 1#32
    else if s.innerClk innerCounterDownEvery then s.tvalTIMEVAL - 1#32
    else s.tvalTIMEVAL
  else s.tvalTIMEVAL

/-- What the registers do by themselves. -/
def tick (innerCounterDownEvery : Nat) (s : InterruptHandler) (intrpt : BitVec 8) :
    InterruptHandler :=
  { s with
    estatIS11 := s.estatIS11 || s.setTimerInterrupt
    estatIS2 := intrpt
    innerCounter := if s.innerClk innerCounterDownEvery then 0 else s.innerCounter + 1
    timerEn := if s.setTimerInterrupt then s.tcfgPERIODIC else s.timerEn
    tvalTIMEVAL := s.nextTimeval innerCounterDownEvery }

/-- The write switch. `w1` actions see only their own bit of the data. -/
def writeCSR (s : InterruptHandler) (w : CSRWrite) : InterruptHandler :=
  let en := w.data.getLsbD 0
  { s with
    tidTID := w.update CSRAddress.TID w.data s.tidTID
    tcfgEN := w.update CSRAddress.TCFG en s.tcfgEN
    tcfgPERIODIC := w.update CSRAddress.TCFG (w.data.getLsbD 1) s.tcfgPERIODIC
    tcfgINITVAL := w.update CSRAddress.TCFG (w.data.extractLsb' 2 30) s.tcfgINITVAL
    timerEn := w.update CSRAddress.TCFG (en || s.timerEn) s.timerEn
    tvalTIMEVAL :=
      w.update CSRAddress.TCFG (if en then w.data.extractLsb' 2 30 ++ 0#2 else s.tvalTIMEVAL)
        s.tvalTIMEVAL
    estatIS11 := w.update CSRAddress.TICLR (!en && s.estatIS11) s.estatIS11
    ecfgLIE0 := w.update CSRAddress.ECFG (w.data.extractLsb' 0 10) s.ecfgLIE0
    ecfgLIE11 := w.update CSRAddress.ECFG (w.data.extractLsb' 11 2) s.ecfgLIE11
    estatIS0 := w.update CSRAddress.ESTAT (w.data.extractLsb' 0 2) s.estatIS0 }

/-- The control-register write commit sends in a cycle, and the interrupt pins. -/
structure Inputs where
  csrWrite : Option CSRWrite := none
  intrpt : BitVec 8 := 0
  deriving DecidableEq, Repr

def step (innerCounterDownEvery : Nat) (s : InterruptHandler) (i : Inputs) : InterruptHandler :=
  match i.csrWrite with
  | none => s.tick innerCounterDownEvery i.intrpt
  | some w => (s.tick innerCounterDownEvery i.intrpt).writeCSR w

/-- The pending lines as `ESTAT` shows them. -/
def estat (s : InterruptHandler) : BitVec 12 :=
  0#1 ++ BitVec.ofBool s.estatIS11 ++ s.estatIS2 ++ s.estatIS0

def ecfg (s : InterruptHandler) : BitVec 12 := s.ecfgLIE11 ++ s.ecfgLIE0

/-- Some line is pending and enabled in `ECFG.LIE`. -/
def enabledPending (s : InterruptHandler) : Bool := (s.ecfg &&& s.estat) != 0

/-- The request commit sees. Besides the global enable it is gated by the link
bit. -/
def intPending (s : InterruptHandler) (crmdIE llbctlLLBIT : Bool) : Bool :=
  s.enabledPending && crmdIE && !llbctlLLBIT

namespace Inputs

/-- The data of a write to the given register. -/
def writes (i : Inputs) (addr : BitVec 14) : Option UWord :=
  i.csrWrite.bind fun w => if w.addr = addr then some w.data else none

/-- `TCFG` is written with `EN` high. -/
def enables (i : Inputs) : Bool := (i.writes CSRAddress.TCFG).any (·.getLsbD 0)

/-- `TCFG` is written with `EN` low. -/
def disables (i : Inputs) : Bool := (i.writes CSRAddress.TCFG).any (!·.getLsbD 0)

/-- A write to `TICLR` acknowledges the timer interrupt. -/
def acknowledges (i : Inputs) : Bool := (i.writes CSRAddress.TICLR).any (·.getLsbD 0)

end Inputs

variable {innerCounterDownEvery : Nat} {s : InterruptHandler} {i : Inputs}

/-- What one cycle does to the running flag. -/
theorem step_timerEn : (s.step innerCounterDownEvery i).timerEn =
    (i.enables || if s.setTimerInterrupt then s.tcfgPERIODIC else s.timerEn) := by
  unfold step Inputs.enables Inputs.writes
  cases hw : i.csrWrite with
  | none => simp [tick]
  | some w => by_cases htcfg : w.addr = CSRAddress.TCFG <;>
      simp [writeCSR, CSRWrite.update, htcfg, tick]

theorem step_tcfgEN : (s.step innerCounterDownEvery i).tcfgEN =
    (i.enables || (!i.disables && s.tcfgEN)) := by
  unfold step Inputs.enables Inputs.disables Inputs.writes
  cases hw : i.csrWrite with
  | none => simp [tick]
  | some w =>
    by_cases htcfg : w.addr = CSRAddress.TCFG
    · cases hbit : w.data[0] <;> simp [writeCSR, CSRWrite.update, htcfg, hbit]
    · simp [writeCSR, CSRWrite.update, htcfg, tick]

theorem step_tvalTIMEVAL (h : i.enables = false) :
    (s.step innerCounterDownEvery i).tvalTIMEVAL = s.nextTimeval innerCounterDownEvery := by
  unfold Inputs.enables Inputs.writes at h
  unfold step
  cases hw : i.csrWrite with
  | none => rfl
  | some w =>
    by_cases htcfg : w.addr = CSRAddress.TCFG
    · have hbit : w.data[0] = false := by simpa [hw, htcfg] using h
      simp [writeCSR, CSRWrite.update, htcfg, hbit, tick]
    · simp [writeCSR, CSRWrite.update, htcfg, tick]

/-- An acknowledgement wins over an expiry in the same cycle. -/
theorem step_estatIS11 : (s.step innerCounterDownEvery i).estatIS11 =
    (!i.acknowledges && (s.estatIS11 || s.setTimerInterrupt)) := by
  unfold step Inputs.acknowledges Inputs.writes
  cases hw : i.csrWrite with
  | none => simp [tick]
  | some w => by_cases hticlr : w.addr = CSRAddress.TICLR <;>
      simp [writeCSR, CSRWrite.update, hticlr, tick]

/-- The interrupt handler under arbitrary control-register writes. -/
def machine (innerCounterDownEvery : Nat) : Clocked.Machine InterruptHandler Inputs where
  init s := s = {}
  legal _ _ := True
  step := step innerCounterDownEvery

instance (s : InterruptHandler) (i : Inputs) :
    Decidable ((machine innerCounterDownEvery).legal s i) :=
  inferInstanceAs (Decidable True)

/-! ## Switching the timer off -/

/-- The timer is not running after this cycle, whatever is written: it was
stopped, or it expires and is not periodic. -/
def stops (s : InterruptHandler) : Bool :=
  !s.timerEn || (s.tvalTIMEVAL == 0 && !s.tcfgPERIODIC)

theorem running_eq_not_stops :
    (if s.setTimerInterrupt then s.tcfgPERIODIC else s.timerEn) = !s.stops := by
  unfold setTimerInterrupt stops
  cases s.timerEn <;> cases s.tcfgPERIODIC <;> cases s.tvalTIMEVAL == 0 <;> rfl

/-- `TCFG.EN` is only cleared when the timer stops by itself. -/
def DisablesStopped (s : InterruptHandler) (i : Inputs) : Prop := i.disables = true → s.stops = true

instance : DecidableRel DisablesStopped := fun s i =>
  inferInstanceAs (Decidable (i.disables = true → s.stops = true))

/-- While `TCFG.EN` is clear, the timer is not running. -/
theorem stopped_of_disabled
    (h : ((machine innerCounterDownEvery).restrict DisablesStopped).Reachable s)
    (hen : s.tcfgEN = false) : s.timerEn = false := by
  suffices hinv : s.tcfgEN = false → s.timerEn = false from hinv hen
  refine Clocked.Machine.invariant (P := fun s => s.tcfgEN = false → s.timerEn = false)
    ?_ ?_ h
  · rintro s rfl _
    rfl
  · intro s i ih hlegal hclear
    change (s.step innerCounterDownEvery i).tcfgEN = false at hclear
    change (s.step innerCounterDownEvery i).timerEn = false
    rw [step_tcfgEN, Bool.or_eq_false_iff, Bool.and_eq_false_iff] at hclear
    obtain ⟨hno, hwas⟩ := hclear
    rw [step_timerEn, hno, Bool.false_or, running_eq_not_stops, Bool.not_eq_false']
    rcases hwas with hdis | hwas
    · exact hlegal.2 (by simpa using hdis)
    · simp [stops, ih hwas]

/-- A disabled timer is off: it raises nothing, and `TVAL` moves only by a write
that enables it again. -/
def DisabledOff (innerCounterDownEvery : Nat) (s : InterruptHandler) : Prop :=
  s.tcfgEN = false → s.setTimerInterrupt = false ∧
    ∀ i : Inputs, i.enables = false →
      (s.step innerCounterDownEvery i).tvalTIMEVAL = s.tvalTIMEVAL

/-- When `TCFG.EN` is only cleared while the timer stops by itself, a disabled
timer is off. -/
theorem disabled_timer_off
    (h : ((machine innerCounterDownEvery).restrict DisablesStopped).Reachable s) :
    DisabledOff innerCounterDownEvery s := by
  intro hen
  have hoff : s.timerEn = false := stopped_of_disabled h hen
  refine ⟨?_, fun i hi => ?_⟩
  · simp [setTimerInterrupt, hoff]
  · rw [step_tvalTIMEVAL hi]
    simp [nextTimeval, hoff]

def writeOf (addr : BitVec 14) (data : UWord) : Inputs := { csrWrite := some { addr, data } }

def wait (n : Nat) : List Inputs := List.replicate n {}

/-- Start a one-shot timer of 40 cycles, let it expire and stop, and clear
`TCFG.EN` afterwards. -/
theorem disabled_timer_off_expired :
    DisabledOff 1 ((machine 1).run {}
      (writeOf CSRAddress.TCFG 0x29 :: wait 60 ++ [writeOf CSRAddress.TCFG 0])) :=
  disabled_timer_off (Clocked.Machine.reachable_restrict_run rfl (by decide +kernel))

/-- A timer that is switched off while it counts goes on counting, and expires. -/
theorem disabled_timer_runs :
    let off := (machine 1).run {}
      (writeOf CSRAddress.TCFG 0x29 :: wait 20 ++ [writeOf CSRAddress.TCFG 0])
    (machine 1).Reachable off ∧ off.tcfgEN = false ∧
      (off.step 1 {}).tvalTIMEVAL = off.tvalTIMEVAL - 1 ∧ off.tvalTIMEVAL = 19 ∧
      ((machine 1).run off (wait 19)).tcfgEN = false ∧
      ((machine 1).run off (wait 19)).setTimerInterrupt = true ∧
      ¬ ∀ s, (machine 1).Reachable s → DisabledOff 1 s := by
  intro off
  have hreach : (machine 1).Reachable off := .run (.reset rfl) (by decide +kernel)
  have hmoves : (off.step 1 {}).tvalTIMEVAL ≠ off.tvalTIMEVAL := by decide +kernel
  refine ⟨hreach, by decide +kernel, by decide +kernel, by decide +kernel, by decide +kernel,
    by decide +kernel, fun hclaim => ?_⟩
  exact hmoves ((hclaim off hreach (by decide +kernel)).2 {} (by decide))

/-! ## Acknowledging an expiry -/

/-- The handler together with the history of line 11: an expiry is pending until
a later cycle acknowledges it. -/
structure Trace where
  handler : InterruptHandler := {}
  pending : Bool := false
  deriving DecidableEq, Repr

namespace Trace

def step (innerCounterDownEvery : Nat) (t : Trace) (i : Inputs) : Trace where
  handler := t.handler.step innerCounterDownEvery i
  pending := t.handler.setTimerInterrupt || (t.pending && !i.acknowledges)

def machine (innerCounterDownEvery : Nat) : Clocked.Machine Trace Inputs where
  init t := t = {}
  legal _ _ := True
  step := step innerCounterDownEvery

instance (t : Trace) (i : Inputs) : Decidable ((machine innerCounterDownEvery).legal t i) :=
  inferInstanceAs (Decidable True)

/-- No acknowledgement commits in the cycle of an expiry. -/
def AcknowledgedLater (t : Trace) (i : Inputs) : Prop :=
  t.handler.setTimerInterrupt = true → i.acknowledges = false

instance : DecidableRel AcknowledgedLater := fun t i =>
  inferInstanceAs (Decidable (t.handler.setTimerInterrupt = true → i.acknowledges = false))

/-- A cycle keeps line 11 in step with the history exactly when it does not
acknowledge and expire at once. -/
theorem step_agrees_iff {t : Trace} {i : Inputs} (h : t.handler.estatIS11 = t.pending) :
    (t.step innerCounterDownEvery i).handler.estatIS11 =
        (t.step innerCounterDownEvery i).pending ↔ t.AcknowledgedLater i := by
  unfold AcknowledgedLater
  simp only [step, step_estatIS11, h]
  cases i.acknowledges <;> cases t.pending <;> cases t.handler.setTimerInterrupt <;> simp

/-- As long as no acknowledgement commits in the cycle of an expiry, line 11 is
pending exactly from each expiry to the next acknowledgement. The first cycle
that breaks the rule loses an expiry. -/
theorem expiry_pending_iff {t : Trace}
    (h : ((machine innerCounterDownEvery).restrict AcknowledgedLater).Reachable t) :
    t.handler.estatIS11 = t.pending ∧
      ∀ i, (t.step innerCounterDownEvery i).handler.estatIS11 =
          (t.step innerCounterDownEvery i).pending ↔ t.AcknowledgedLater i := by
  have hagree : t.handler.estatIS11 = t.pending := by
    refine Clocked.Machine.invariant (P := fun t => t.handler.estatIS11 = t.pending) ?_ ?_ h
    · rintro t rfl
      rfl
    · intro t i ih hlegal
      exact (step_agrees_iff ih).mpr hlegal.2
  exact ⟨hagree, fun i => step_agrees_iff hagree⟩

/-- Start a periodic timer and acknowledge it while it counts again. -/
theorem expiry_pending_iff_periodic :
    ∃ t, t = (machine 1).run {} (writeOf CSRAddress.TCFG 0x2b :: wait 41) ∧
      t.handler.estatIS11 = true ∧ t.handler.estatIS11 = t.pending := by
  have hrun : ((machine 1).restrict AcknowledgedLater).Reachable ((machine 1).run {}
      (writeOf CSRAddress.TCFG 0x2b :: wait 41)) :=
    Clocked.Machine.reachable_restrict_run rfl (by decide +kernel)
  exact ⟨_, rfl, by decide +kernel, (expiry_pending_iff hrun).1⟩

/-- An acknowledgement in the cycle of the expiry swallows it: line 11 stays low
although the timer has just reached zero. -/
theorem acknowledge_swallows_expiry :
    let t := (machine 1).run {} (writeOf CSRAddress.TCFG 0x29 :: wait 40)
    (machine 1).Reachable t ∧ t.handler.setTimerInterrupt = true ∧
      (t.step 1 (writeOf CSRAddress.TICLR 1)).handler.estatIS11 = false ∧
      (t.step 1 (writeOf CSRAddress.TICLR 1)).pending = true := by
  intro t
  exact ⟨.run (.reset rfl) (by decide +kernel), by decide +kernel, by decide +kernel,
    by decide +kernel⟩

end Trace

end InterruptHandler

end NopCore
