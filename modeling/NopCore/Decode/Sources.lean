import NopCore.Decode.Atomic

/-!
# The sources of an instruction in flight

The sources of an instruction are the registers that were mapped when it was renamed,
with the writes in front of it in its group. As long as it is in flight none of them is in
the free list, so no younger instruction is given one: a register is freed by the
instruction that replaces it, which is behind everything that reads it and retires later.
-/

namespace NopCore

/-- The two source registers by the number of the operand. -/
def operand (rRegs : Nat × Nat) (j : Nat) : Nat := if j = 0 then rRegs.1 else rRegs.2

namespace Rename

variable {rat payload : Nat → Nat} {older : List RegRename} {group : List (Option MicroOp)}

theorem operand_record {uop : MicroOp} (j : Nat) :
    ∃ a < nArchRegs, operand (record rat payload older uop).rRegs j = readPort rat older a := by
  rw [operand, record]
  dsimp only
  split_ifs
  · exact ⟨_, BitVec.isLt _, rfl⟩
  · exact ⟨_, BitVec.isLt _, rfl⟩
  · exact ⟨_, BitVec.isLt _, rfl⟩

/-- An instruction of the group reads the table with the writes in front of it. -/
theorem operand_renamed {n : Nat} {p : PushPort}
    (hp : (renamed rat payload older group)[n]? = some p) (j : Nat) :
    ∃ a < nArchRegs, operand p.rename.rRegs j = Renaming.apply (readPort rat older)
      (writes ((renamed rat payload older group).take n)) a := by
  induction group generalizing older n with
  | nil => cases hp
  | cons uop group ih =>
    have hport : readPort rat (older ++ [writePort payload older uop]) =
        Renaming.apply (readPort rat older)
          (writes (renamed rat payload older [uop])) := by
      rw [apply_renamed]
      rfl
    cases uop with
    | none =>
      obtain ⟨a, ha, hread⟩ := ih hp
      refine ⟨a, ha, ?_⟩
      rw [hread, hport]
      rfl
    | some u =>
      cases n with
      | zero =>
        obtain rfl : PushPort.mk u (record rat payload older u) = p := Option.some.inj hp
        exact operand_record j
      | succ n =>
        obtain ⟨a, ha, hread⟩ := ih (n := n) hp
        refine ⟨a, ha, ?_⟩
        rw [hread, hport, ← Renaming.apply_append, ← writes_append]
        rfl

theorem apply_zero {f : Nat → Nat} {ws : List (Renaming.Write Nat Nat)}
    (hdst : ∀ w ∈ ws, 1 ≤ w.dst) : Renaming.apply f ws 0 = f 0 := by
  induction ws generalizing f with
  | nil => rfl
  | cons w ws ih =>
    have hw := hdst w List.mem_cons_self
    rw [Renaming.apply_cons, ih fun v hv => hdst v (List.mem_cons_of_mem _ hv),
      Function.update_of_ne (by omega)]

end Rename

namespace RenameStage

variable {s : RenameStage} {i : Inputs}

/-- The sources of every instruction in flight are mapped behind the writes in front of it,
but for register 0. -/
def Sourced (s : RenameStage) : Prop :=
  ∀ n p, s.inFlight[n]? = some p → ∀ j, operand p.rename.rRegs j = 0 ∨
    s.abs.Maps archRegs (writes (s.inFlight.take n)).length (operand p.rename.rRegs j)

theorem sourced_of_empty (h : s.inFlight = []) : s.Sourced := by
  intro n p hp
  rw [h] at hp
  cases hp

/-- The number of instructions that retire. -/
private theorem exists_retired (s : RenameStage) (i : Inputs) :
    ∃ r, s.retired i = s.inFlight.take r ∧ s.remaining i = s.inFlight.drop r := by
  rw [retired, remaining]
  cases i.hasExcept with
  | true => exact ⟨0, rfl, rfl⟩
  | false => exact ⟨i.retire, rfl, rfl⟩

/-- A new instruction reads the mapping that the next one sees, with the writes in front. -/
theorem operand_issued (h : s.Inv) (hflush : s.regFlush = false) {n : Nat} {p : PushPort}
    (hp : (s.issued i)[n]? = some p) (j : Nat) : operand p.rename.rRegs j = 0 ∨
      ∃ a ∈ archRegs, operand p.rename.rRegs j =
        Renaming.apply s.abs.speculative (writes ((s.issued i).take n)) a := by
  have hdst := dst_issued (i := i) h
  have hspec := h.speculative hflush
  rw [issued] at hp hdst ⊢
  split_ifs at hp hdst ⊢ with hfire
  · obtain ⟨a, ha, hread⟩ := Rename.operand_renamed hp j
    have htable : Rename.readPort s.sRAT [] = s.abs.speculative := hspec
    rw [htable] at hread
    rcases Nat.eq_zero_or_pos a with rfl | hpos
    · left
      rw [hread, Rename.apply_zero, ← hspec]
      · rfl
      · intro w hw
        rw [← writes_take] at hw
        exact (mem_archRegs.mp (hdst w (List.mem_of_mem_take hw))).1
    · exact .inr ⟨a, mem_archRegs.mpr ⟨hpos, ha⟩, hread⟩
  · cases hp

theorem Sourced.step (hs : s.Sourced) (h : s.Inv) (hi : s.Legal i) : (s.step i).Sourced := by
  cases hneed : i.needFlush with
  | true =>
    apply sourced_of_empty
    rw [RenameStage.step, hneed]
    rfl
  | false =>
    have hnext : (s.step i).inFlight = s.remaining i ++ s.issued i := by
      rw [RenameStage.step, hneed]
      rfl
    cases hflush : s.regFlush with
    | true =>
      obtain ⟨hinvalid, hempty⟩ := h.idle hflush
      apply sourced_of_empty
      obtain ⟨r, -, hremaining⟩ := exists_retired s i
      have hfire : s.isValidNotStuck i = false := by
        rw [isValidNotStuck, hinvalid, Bool.false_and]
      rw [hnext, hremaining, hempty, issued, hfire, List.drop_nil]
      rfl
    | false =>
      have habs := abs_step h hi hflush
      have hpending : s.abs.pending = writes s.inFlight := by
        rw [abs, live, h.settled hflush]
        rfl
      obtain ⟨r, hretired, hremaining⟩ := exists_retired s i
      intro n p hp j
      rw [hnext, List.getElem?_append] at hp
      rw [hnext, habs]
      split_ifs at hp with hold
      · -- one that was in flight has the retired writes behind it
        rw [hremaining, List.getElem?_drop] at hp
        rcases hs (r + n) p hp j with hzero | hmaps
        · exact .inl hzero
        · right
          rw [List.take_add, writes_append, List.length_append, ← hretired,
            ← hremaining] at hmaps
          rw [List.take_append_of_le_length hold.le]
          exact hmaps.commit.allocate _
      · -- one that is renamed now reads past all that were
        obtain ⟨k, rfl⟩ := Nat.exists_eq_add_of_le (Nat.le_of_not_lt hold)
        rw [Nat.add_sub_cancel_left] at hp
        rcases operand_issued h hflush hp j with hzero | ⟨a, ha, hread⟩
        · exact .inl hzero
        · right
          have hsome : (writes (s.remaining i)).length =
              (s.abs.commit (writes (s.retired i)).length).pending.length := by
            rw [writes_remaining, ← hpending]
            rfl
          have htake := writes_take (s.issued i) k
          have hle : (writes ((s.issued i).take k)).length ≤ (writes (s.issued i)).length := by
            rw [← htake]
            exact (List.take_sublist _ _).length_le
          rw [List.take_length_add_append, writes_append, List.length_append, hsome]
          refine ⟨?_, a, ha, ?_⟩
          · rw [Renaming.State.allocate, List.length_append]
            omega
          · rw [Renaming.State.allocate, List.take_length_add_append, Renaming.apply_append,
              htake, hread]
            congr 1
            exact (Renaming.State.speculative_commit _).trans rfl
end RenameStage

end NopCore
