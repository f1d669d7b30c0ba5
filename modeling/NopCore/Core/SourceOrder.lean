import NopCore.Decode.Sources
import NopCore.Exe.IntExecute

/-!
# Reading in program order

An instruction reads its registers as the instructions in front of it leave them. As long as
it is in flight, its operands are where the committed mapping has the registers that it names,
once the writes in front of it are made.
-/

namespace NopCore

theorem MicroOp.readAddr_lt (uop : MicroOp) (j : Nat) : uop.readAddr j < nArchRegs := by
  rw [readAddr]
  split_ifs
  · exact BitVec.isLt _
  · exact BitVec.isLt _
  · exact BitVec.isLt _

namespace Rename

variable {rat payload : Nat → Nat} {older : List RegRename} {group : List (Option MicroOp)}

theorem operand_record_readAddr (uop : MicroOp) (j : Nat) :
    operand (record rat payload older uop).rRegs j = readPort rat older (uop.readAddr j) := by
  rw [operand, record, MicroOp.readAddr]
  dsimp only
  split_ifs <;> rfl

theorem operand_renamed_readAddr {n : Nat} {p : PushPort}
    (hp : (renamed rat payload older group)[n]? = some p) (j : Nat) :
    operand p.rename.rRegs j = Renaming.apply (readPort rat older)
      (writes ((renamed rat payload older group).take n)) (p.uop.readAddr j) := by
  induction group generalizing older n with
  | nil => cases hp
  | cons uop group ih =>
    have hport : readPort rat (older ++ [writePort payload older uop]) =
        Renaming.apply (readPort rat older)
          (writes (renamed rat payload older [uop])) := by
      rw [apply_renamed]
      rfl
    cases uop with
    | none =>
      rw [ih hp, hport]
      rfl
    | some u =>
      cases n with
      | zero =>
        obtain rfl : PushPort.mk u (record rat payload older u) = p := Option.some.inj hp
        exact operand_record_readAddr u j
      | succ n =>
        rw [ih (n := n) hp, hport, ← Renaming.apply_append, ← writes_append]
        rfl

end Rename

namespace RenameStage

variable {s : RenameStage} {i : Inputs}

/-- Every instruction in flight reads what the instructions in front of it leave. -/
def ReadsInOrder (s : RenameStage) : Prop :=
  ∀ n p, s.inFlight[n]? = some p → ∀ j, operand p.rename.rRegs j =
    Renaming.apply s.abs.map (writes (s.inFlight.take n)) (p.uop.readAddr j)

theorem readsInOrder_of_empty (h : s.inFlight = []) : s.ReadsInOrder := by
  intro n p hp
  rw [h] at hp
  cases hp

/-- What retires and what remains. -/
theorem retired_append_remaining (s : RenameStage) (i : Inputs) :
    s.retired i ++ s.remaining i = s.inFlight := by
  rw [retired, remaining]
  split_ifs
  · rfl
  · exact List.take_append_drop _ _

theorem map_step (h : s.Inv) (hi : s.Legal i) : (s.step i).abs.map =
    Renaming.apply s.abs.map (writes (s.retired i)) := by
  cases hflush : s.regFlush with
  | true =>
    have hempty : s.retired i = [] := by
      have hall := retired_append_remaining s i
      rw [(h.idle hflush).2] at hall
      exact (List.append_eq_nil_iff.mp hall).1
    rw [abs_recover h hi hflush, hempty]
    rfl
  | false =>
    have hpending : s.abs.pending = writes s.inFlight := by
      rw [abs, live, h.settled hflush]
      rfl
    have hold := writes_retired (s := s) (i := i)
    rw [← hpending] at hold
    rw [abs_step h hi hflush]
    exact congrArg (Renaming.apply _) hold.symm

theorem ReadsInOrder.step (hs : s.ReadsInOrder) (h : s.Inv) (hi : s.Legal i) :
    (s.step i).ReadsInOrder := by
  cases hneed : i.needFlush with
  | true =>
    apply readsInOrder_of_empty
    rw [RenameStage.step, hneed]
    rfl
  | false =>
    have hnext : (s.step i).inFlight = s.remaining i ++ s.issued i := by
      rw [RenameStage.step, hneed]
      rfl
    have hall := retired_append_remaining s i
    intro n p hp j
    rw [map_step h hi, ← Renaming.apply_append, ← writes_append]
    rw [hnext] at hp ⊢
    by_cases hold : n < (s.remaining i).length
    · -- one that was in flight
      rw [List.getElem?_append_left hold] at hp
      have hget : s.inFlight[(s.retired i).length + n]? = some p := by
        rw [← hall, List.getElem?_append_right (Nat.le_add_right _ _), Nat.add_sub_cancel_left]
        exact hp
      rw [hs _ p hget j, ← hall, List.take_length_add_append,
        List.take_append_of_le_length hold.le]
    · -- one that is renamed now
      obtain ⟨k, rfl⟩ := Nat.exists_eq_add_of_le (Nat.le_of_not_lt hold)
      rw [List.getElem?_append_right (Nat.le_add_right _ _), Nat.add_sub_cancel_left] at hp
      have hflush : s.regFlush = false := by
        by_contra hset
        have hidle : s.isValidNotStuck i = false := by
          rw [isValidNotStuck, (h.idle (Bool.of_not_eq_false hset)).1, Bool.false_and]
        rw [issued, hidle, if_neg Bool.false_ne_true] at hp
        cases hp
      have hpending : s.abs.pending = writes s.inFlight := by
        rw [abs, live, h.settled hflush]
        rfl
      have hspec : Rename.readPort s.sRAT [] = Renaming.apply s.abs.map (writes s.inFlight) := by
        rw [← hpending]
        exact h.speculative hflush
      rw [List.take_length_add_append, ← List.append_assoc, hall, writes_append,
        Renaming.apply_append, ← hspec]
      rw [issued] at hp ⊢
      split_ifs at hp ⊢ with hfire
      · exact Rename.operand_renamed_readAddr hp j
      · cases hp

end RenameStage

end NopCore
