import NopCore.Privilege.Mmu
import Mathlib.Data.List.Induction
import Mathlib.Data.List.Sort

/-!
# Merging exceptions along a pipeline

Each stage has a list of exception sources with priorities. The mux assigns
them in ascending order, so the last assignment, which wins, is the source of
highest priority; a stage whose input already carries an exception changes
nothing. Code and bad address travel together here. The refill flag does not go
through the mux.
-/

namespace NopCore

/-- Exception code and subcode. -/
structure ExceptionCode where
  ecode : BitVec 6
  esubcode : BitVec 9
  deriving DecidableEq, Repr

namespace ExceptionCode

def INT : ExceptionCode := ⟨0x0, 0⟩
def PIL : ExceptionCode := ⟨0x1, 0⟩
def PIS : ExceptionCode := ⟨0x2, 0⟩
def PIF : ExceptionCode := ⟨0x3, 0⟩
def PME : ExceptionCode := ⟨0x4, 0⟩
def PPI : ExceptionCode := ⟨0x7, 0⟩
def ADEF : ExceptionCode := ⟨0x8, 0⟩
def ADEM : ExceptionCode := ⟨0x8, 1⟩
def ALE : ExceptionCode := ⟨0x9, 0⟩
def SYS : ExceptionCode := ⟨0xb, 0⟩
def BRK : ExceptionCode := ⟨0xc, 0⟩
def INE : ExceptionCode := ⟨0xd, 0⟩
def IPE : ExceptionCode := ⟨0xe, 0⟩
def TLBR : ExceptionCode := ⟨0x3f, 0⟩

end ExceptionCode

/-- One wire that may raise an exception in a stage. A source without its own
bad address leaves the one of the stage input alone. -/
structure ExceptionSource where
  valid : Bool
  exc : ExceptionCode
  badVAddr : Option UWord := none
  priority : Nat := 0

/-- The exception signals that travel from stage to stage. Code and address are
don't-cares until an exception has occurred. -/
structure ExceptionSignals where
  occurred : Bool := false
  code : ExceptionCode := ExceptionCode.INT
  badVAddr : UWord := 0
  deriving DecidableEq, Repr

namespace ExceptionMux

/-- The assignments of one source, given the stage input and what the sources
assigned before have made of the output. -/
def assign (input output : ExceptionSignals) (excSrc : ExceptionSource) :
    ExceptionSignals :=
  { occurred := output.occurred || excSrc.valid
    code := if !input.occurred && excSrc.valid then excSrc.exc else output.code
    badVAddr :=
      if !input.occurred && excSrc.valid then excSrc.badVAddr.getD output.badVAddr
      else output.badVAddr }

/-- The output of a stage: its sources assigned in ascending priority. -/
def stage (sources : List ExceptionSource) (input : ExceptionSignals) :
    ExceptionSignals :=
  (sources.insertionSort fun a b => a.priority ≤ b.priority).foldl (assign input) input

/-- `s` is raised and no raised source of the list has a higher priority. -/
structure Wins (sources : List ExceptionSource) (s : ExceptionSource) : Prop where
  mem : s ∈ sources
  valid : s.valid = true
  highest : ∀ t ∈ sources, t.valid = true → t.priority ≤ s.priority

theorem Wins.mono {l l' : List ExceptionSource} {s : ExceptionSource} (h : Wins l s)
    (hmem : ∀ t, t ∈ l ↔ t ∈ l') : Wins l' s :=
  ⟨(hmem s).mp h.mem, h.valid, fun t ht => h.highest t ((hmem t).mpr ht)⟩

private theorem foldl_of_quiet {sources : List ExceptionSource} {input : ExceptionSignals}
    (hquiet : ∀ s ∈ sources, s.valid = false) (output : ExceptionSignals) :
    sources.foldl (assign input) output = output := by
  induction sources generalizing output with
  | nil => rfl
  | cons s l ih =>
    have hs : s.valid = false := hquiet s List.mem_cons_self
    have hstep : assign input output s = output := by simp [assign, hs]
    rw [List.foldl_cons, hstep]
    exact ih (fun t ht => hquiet t (List.mem_cons_of_mem s ht)) output

/-- A stage in which nothing is raised passes its input on. -/
theorem stage_of_quiet {sources : List ExceptionSource} {input : ExceptionSignals}
    (hquiet : ∀ s ∈ sources, s.valid = false) : stage sources input = input :=
  foldl_of_quiet (fun s hs => hquiet s ((List.mem_insertionSort _).mp hs)) input

/-- An exception from an earlier stage is never replaced. -/
theorem stage_of_occurred {sources : List ExceptionSource} {input : ExceptionSignals}
    (h : input.occurred = true) : stage sources input = input := by
  have hfold : ∀ l : List ExceptionSource, l.foldl (assign input) input = input := by
    intro l
    induction l with
    | nil => rfl
    | cons s l ih =>
      have hstep : assign input input s = input := by
        simp only [assign, h, Bool.true_or, Bool.not_true, Bool.false_and,
          Bool.false_eq_true, if_false]
        rw [← h]
      rw [List.foldl_cons, hstep, ih]
  exact hfold _

-- In ascending order the last raised source is the winner, so the induction
-- peels sources off the end of the list.
private theorem foldl_reports {sources : List ExceptionSource} {input : ExceptionSignals}
    (hin : input.occurred = false)
    (hsorted : sources.Pairwise fun a b => a.priority ≤ b.priority)
    (hraised : ∃ s ∈ sources, s.valid = true) :
    ∃ s, Wins sources s ∧ (sources.foldl (assign input) input).occurred = true ∧
      (sources.foldl (assign input) input).code = s.exc := by
  induction sources using List.reverseRecOn with
  | nil => obtain ⟨s, hs, -⟩ := hraised; cases hs
  | append_singleton l a ih =>
    rw [List.pairwise_append] at hsorted
    obtain ⟨hl, -, hle⟩ := hsorted
    rw [List.foldl_append]
    by_cases ha : a.valid = true
    · refine ⟨a, ⟨by simp, ha, ?_⟩, by simp [assign, ha], by simp [assign, ha, hin]⟩
      intro t ht _
      rcases List.mem_append.mp ht with ht | ht
      · exact hle t ht a List.mem_cons_self
      · rw [List.mem_singleton.mp ht]
    · have hrest : ∃ s ∈ l, s.valid = true := by
        obtain ⟨s, hs, hv⟩ := hraised
        rcases List.mem_append.mp hs with hs | hs
        · exact ⟨s, hs, hv⟩
        · exact absurd (List.mem_singleton.mp hs ▸ hv) ha
      obtain ⟨s, hs, hocc, hcode⟩ := ih hl hrest
      refine ⟨s, ⟨List.mem_append_left _ hs.mem, hs.valid, ?_⟩, by simp [assign, hocc],
        by simp [assign, ha, hcode]⟩
      intro t ht hv
      rcases List.mem_append.mp ht with ht | ht
      · exact hs.highest t ht hv
      · exact absurd (List.mem_singleton.mp ht ▸ hv) ha

/-- A stage that receives no exception and raises some reports the code of a
raised source of highest priority. -/
theorem stage_reports {sources : List ExceptionSource} {input : ExceptionSignals}
    (hin : input.occurred = false) (hraised : ∃ s ∈ sources, s.valid = true) :
    ∃ s, Wins sources s ∧ (stage sources input).occurred = true ∧
      (stage sources input).code = s.exc := by
  have hmem : ∀ t, t ∈ sources.insertionSort (fun a b => a.priority ≤ b.priority) ↔
      t ∈ sources := fun t => List.mem_insertionSort _
  have hsorted : (sources.insertionSort fun a b => a.priority ≤ b.priority).Pairwise
      fun a b => a.priority ≤ b.priority := by
    have : Std.Total fun a b : ExceptionSource => a.priority ≤ b.priority :=
      ⟨fun a b => Nat.le_total a.priority b.priority⟩
    have : IsTrans ExceptionSource fun a b => a.priority ≤ b.priority :=
      ⟨fun _ _ _ => Nat.le_trans⟩
    exact List.pairwise_insertionSort _ _
  obtain ⟨s, hs, hocc, hcode⟩ := foldl_reports hin hsorted
    (hraised.imp fun s hs => ⟨(hmem s).mpr hs.1, hs.2⟩)
  exact ⟨s, hs.mono hmem, hocc, hcode⟩

end ExceptionMux

end NopCore
