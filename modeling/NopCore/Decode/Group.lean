import NopCore.Decode.Rename

/-!
# Renaming a group

The instructions of a group see each other's writes, and a flush may cut the
list of renamed instructions anywhere. Both are easier to follow through the
writes alone: renaming a group is a chain of writes on the mapping that `sRAT`
stands for, and retiring instructions commits the writes they make.
-/

namespace NopCore

open Rename

/-- A renamed instruction as a write of the abstract renaming. -/
def PushPort.write (p : PushPort) : Renaming.Write Nat Nat :=
  ⟨p.uop.wbAddr, p.rename.wReg, p.rename.wPrevReg⟩

/-- The writes of a list of renamed instructions. -/
def writes (ps : List PushPort) : List (Renaming.Write Nat Nat) :=
  (ps.filter fun p => p.uop.doRegWrite).map PushPort.write

@[simp] theorem writes_nil : writes [] = [] := rfl

@[simp] theorem writes_append (ps qs : List PushPort) :
    writes (ps ++ qs) = writes ps ++ writes qs := by
  simp [writes]

theorem writes_cons (p : PushPort) (ps : List PushPort) :
    writes (p :: ps) = if p.uop.doRegWrite then p.write :: writes ps else writes ps := by
  simp only [writes, List.filter_cons]
  split_ifs <;> rfl

/-- Committing the oldest instructions commits the oldest writes. -/
theorem writes_take (ps : List PushPort) (n : Nat) :
    (writes ps).take (writes (ps.take n)).length = writes (ps.take n) := by
  conv_lhs =>
    enter [2]
    rw [← List.take_append_drop n ps]
  rw [writes_append, List.take_left]

theorem writes_drop (ps : List PushPort) (n : Nat) :
    (writes ps).drop (writes (ps.take n)).length = writes (ps.drop n) := by
  conv_lhs =>
    enter [2]
    rw [← List.take_append_drop n ps]
  rw [writes_append, List.drop_left]

/-! ## Renaming a group

The mapping seen by the next instruction of a group is the table overridden by
the write ports in front of it. Each write port records that mapping and then
changes it, which is what it means for the writes to form a chain. -/

namespace Rename

theorem ratRead_update {rat : Nat → Nat} {addr v : Nat} (h : 1 ≤ addr) :
    ratRead (Function.update rat (addr - 1) v) = Function.update (ratRead rat) addr v := by
  funext a
  simp only [ratRead, Function.update_apply]
  by_cases ha : a = addr
  · have hne : addr ≠ 0 := by omega
    simp [ha, hne]
  · by_cases hz : a = 0
    · simp [hz, show (0 : Nat) ≠ addr by omega]
    · simp [ha, hz, show a - 1 ≠ addr - 1 by omega]

theorem readPort_append_idle {older : List RegRename} {p : RegRename} (rat : Nat → Nat)
    (hv : p.valid = false) : readPort rat (older ++ [p]) = readPort rat older := by
  funext a
  simp [readPort, List.foldl_append, hv]

theorem readPort_append_valid {older : List RegRename} {p : RegRename} (rat : Nat → Nat)
    (hv : p.valid = true) :
    readPort rat (older ++ [p]) = Function.update (readPort rat older) p.addr p.rsp := by
  funext a
  simp [readPort, List.foldl_append, hv, Function.update_apply]

/-- The decoder's promise about destinations, for one group. -/
def GoodDst (group : List (Option MicroOp)) : Prop :=
  ∀ uop, some uop ∈ group → uop.doRegWrite = true → 1 ≤ uop.wbAddr ∧ uop.wbAddr < nArchRegs

theorem GoodDst.tail {uop : Option MicroOp} {group : List (Option MicroOp)}
    (h : GoodDst (uop :: group)) : GoodDst group :=
  fun u hu => h u (List.mem_cons_of_mem _ hu)

section Group

variable {rat payload : Nat → Nat} {older : List RegRename} {uop : Option MicroOp}
  {group : List (Option MicroOp)}

theorem writes_renamed_idle (hv : (writePort payload older uop).valid = false) :
    writes (renamed rat payload older (uop :: group)) =
      writes (renamed rat payload (older ++ [writePort payload older uop]) group) := by
  cases uop with
  | none => rfl
  | some u =>
    have hu : u.doRegWrite = false := hv
    simp [renamed, writes_cons, hu]

theorem writes_renamed_valid (hv : (writePort payload older uop).valid = true) :
    writes (renamed rat payload older (uop :: group)) =
      ⟨(writePort payload older uop).addr, (writePort payload older uop).rsp,
        readPort rat older (writePort payload older uop).addr⟩ ::
      writes (renamed rat payload (older ++ [writePort payload older uop]) group) := by
  cases uop with
  | none => cases hv
  | some u =>
    have hu : u.doRegWrite = true := hv
    simp only [renamed, writes_cons, hu, if_true]
    rfl

theorem chained_renamed :
    Renaming.Chained (readPort rat older) (writes (renamed rat payload older group)) := by
  induction group generalizing older with
  | nil => trivial
  | cons uop group ih =>
    have hrest := @ih (older ++ [writePort payload older uop])
    cases hv : (writePort payload older uop).valid with
    | false =>
      rw [readPort_append_idle rat hv] at hrest
      rwa [writes_renamed_idle hv]
    | true =>
      rw [readPort_append_valid rat hv] at hrest
      rw [writes_renamed_valid hv]
      exact ⟨rfl, hrest⟩

theorem apply_renamed :
    Renaming.apply (readPort rat older) (writes (renamed rat payload older group)) =
      readPort rat (older ++ writePorts payload older group) := by
  induction group generalizing older with
  | nil => simp [renamed, writePorts]
  | cons uop group ih =>
    have hrest := @ih (older ++ [writePort payload older uop])
    rw [List.append_assoc] at hrest
    cases hv : (writePort payload older uop).valid with
    | false =>
      rw [readPort_append_idle rat hv] at hrest
      rw [writes_renamed_idle hv]
      exact hrest
    | true =>
      rw [readPort_append_valid rat hv] at hrest
      rw [writes_renamed_valid hv]
      exact hrest

theorem dst_renamed (hgood : GoodDst group) :
    ∀ w ∈ writes (renamed rat payload older group), 1 ≤ w.dst ∧ w.dst < nArchRegs := by
  induction group generalizing older with
  | nil => simp [renamed]
  | cons uop group ih =>
    have hrest := @ih (older ++ [writePort payload older uop]) hgood.tail
    cases hv : (writePort payload older uop).valid with
    | false => rwa [writes_renamed_idle hv]
    | true =>
      rw [writes_renamed_valid hv]
      intro w hw
      rcases List.mem_cons.mp hw with rfl | hw
      · cases uop with
        | none => cases hv
        | some u => exact hgood u List.mem_cons_self hv
      · exact hrest w hw

theorem popIdx_writePort : (writePort payload older uop).popIdx = older.countP RegRename.valid := by
  cases uop <;> rfl

theorem rsp_writePort (hv : (writePort payload older uop).valid = true) :
    (writePort payload older uop).rsp = payload (older.countP RegRename.valid) := by
  cases uop with
  | none => cases hv
  | some u =>
    have hu : u.doRegWrite = true := hv
    simp [writePort, hu]

/-- The destinations of a group are the first elements the pop ports show. -/
theorem new_renamed :
    (writes (renamed rat payload older group)).map Renaming.Write.new =
      (List.range ((writePorts payload older group).countP RegRename.valid)).map fun k =>
        payload (older.countP RegRename.valid + k) := by
  induction group generalizing older with
  | nil => simp [renamed, writePorts]
  | cons uop group ih =>
    have hrest := @ih (older ++ [writePort payload older uop])
    simp only [writePorts]
    cases hv : (writePort payload older uop).valid with
    | false =>
      rw [writes_renamed_idle hv, hrest, List.countP_cons_of_neg (by simp [hv])]
      simp [List.countP_append, hv]
    | true =>
      rw [writes_renamed_valid hv, List.map_cons, hrest, List.countP_cons_of_pos hv,
        Nat.add_comm _ 1, List.range_add, List.map_append, List.map_map, rsp_writePort hv]
      simp [List.countP_append, hv, Function.comp_def, Nat.add_assoc]

/-- The pop ports used by a group are the first ones. -/
theorem popIdx_writePorts {k : Nat}
    (hk : k < (writePorts payload older group).countP RegRename.valid) :
    ∃ p ∈ writePorts payload older group,
      p.valid = true ∧ p.popIdx = older.countP RegRename.valid + k := by
  induction group generalizing older k with
  | nil => simp [writePorts] at hk
  | cons uop group ih =>
    simp only [writePorts] at hk ⊢
    cases hv : (writePort payload older uop).valid with
    | false =>
      rw [List.countP_cons_of_neg (by simp [hv])] at hk
      obtain ⟨p, hp, hvalid, hpop⟩ := ih hk
      refine ⟨p, List.mem_cons_of_mem _ hp, hvalid, ?_⟩
      simpa [List.countP_append, hv] using hpop
    | true =>
      rw [List.countP_cons_of_pos hv] at hk
      cases k with
      | zero => exact ⟨_, List.mem_cons_self, hv, popIdx_writePort⟩
      | succ k =>
        obtain ⟨p, hp, hvalid, hpop⟩ := ih (Nat.lt_of_succ_lt_succ hk)
        refine ⟨p, List.mem_cons_of_mem _ hp, hvalid, ?_⟩
        rw [List.countP_append, List.countP_singleton, if_pos hv] at hpop
        omega

theorem addr_writePorts (hgood : GoodDst group) :
    ∀ p ∈ writePorts payload older group, p.valid = true → 1 ≤ p.addr := by
  induction group generalizing older with
  | nil => simp [writePorts]
  | cons uop group ih =>
    intro p hp hvalid
    rcases List.mem_cons.mp hp with rfl | hp
    · cases uop with
      | none => cases hvalid
      | some u => exact (hgood u List.mem_cons_self hvalid).1
    · exact ih hgood.tail p hp hvalid

end Group

/-- Writing the ports to the table has the effect of reading past them. -/
theorem ratRead_writeRAT (rat : Nat → Nat) {ports : List RegRename}
    (haddr : ∀ p ∈ ports, p.valid = true → 1 ≤ p.addr) :
    ratRead (writeRAT rat ports) = readPort rat ports := by
  induction ports using List.reverseRecOn with
  | nil => rfl
  | append_singleton ports p ih =>
    have hrest := ih fun q hq => haddr q (List.mem_append_left _ hq)
    rw [writeRAT, List.foldl_append]
    cases hv : p.valid with
    | false =>
      rw [readPort_append_idle rat hv, ← hrest]
      simp [hv, writeRAT]
    | true =>
      rw [readPort_append_valid rat hv, ← hrest,
        ← ratRead_update (haddr p (by simp) hv)]
      simp [hv, writeRAT]

end Rename

/-- The register mapping committed by a renamed instruction. -/
def PushPort.mapping (p : PushPort) : RegFileMapping :=
  { addr := p.uop.wbAddr, prevAddr := p.rename.wPrevReg, prfAddr := p.rename.wReg }

/-- The mappings committed by a list of instructions. -/
def mappings (ps : List PushPort) : List RegFileMapping :=
  (ps.filter fun p => p.uop.doRegWrite).map PushPort.mapping

theorem prevAddr_mappings (ps : List PushPort) :
    (mappings ps).map RegFileMapping.prevAddr = (writes ps).map Renaming.Write.old := by
  simp [mappings, writes, Function.comp_def, PushPort.mapping, PushPort.write]

theorem Rename.ratRead_commitRAT (rat : Nat → Nat) {ps : List PushPort}
    (hdst : ∀ w ∈ writes ps, 1 ≤ w.dst) :
    ratRead (commitRAT rat (mappings ps)) = Renaming.apply (ratRead rat) (writes ps) := by
  induction ps generalizing rat with
  | nil => rfl
  | cons p ps ih =>
    rw [writes_cons] at hdst ⊢
    cases hv : p.uop.doRegWrite with
    | false =>
      rw [hv] at hdst
      have hmap : mappings (p :: ps) = mappings ps := by simp [mappings, hv]
      rw [hmap]
      exact ih rat hdst
    | true =>
      rw [hv, if_pos rfl] at hdst
      have hmap : mappings (p :: ps) = p.mapping :: mappings ps := by simp [mappings, hv]
      have haddr : 1 ≤ p.uop.wbAddr := hdst p.write List.mem_cons_self
      have hrest := ih (Function.update rat (p.uop.wbAddr - 1) p.rename.wReg)
        fun w hw => hdst w (List.mem_cons_of_mem _ hw)
      rw [ratRead_update haddr] at hrest
      rw [hmap]
      exact hrest

end NopCore
