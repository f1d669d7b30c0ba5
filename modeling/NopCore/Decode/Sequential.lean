import NopCore.Decode.Conservation
import NopCore.Decode.Decoder

/-!
# Renaming in program order

What a group means is renaming its instructions one after the other: read the mappings
of the sources and of the destination, take a register from the free list if one is
written, and update the table. The stage does this for a whole group in one cycle. It
reads the table as it was before the group, and everything the group itself changes
comes from the write ports of older lanes.

The two agree for every table and every free list. The only thing the stage relies on
is that register 0 is not a destination, which the decoder sees to.
-/

namespace NopCore

open Rename

/-- The table and the free registers between two instructions. -/
structure InOrder where
  sRAT : Nat → Nat
  free : List Nat

namespace InOrder

/-- Rename one instruction. It takes the oldest free register if it writes one, and
there is no result if there is none. -/
def rename (s : InOrder) (uop : MicroOp) : Option (PushPort × InOrder) :=
  let fields : InstructionParser := ⟨uop.inst⟩
  let rRegs := (ratRead s.sRAT fields.rj,
    ratRead s.sRAT (if uop.useRk then fields.rk else fields.rd))
  let wPrevReg := ratRead s.sRAT uop.wbAddr
  if uop.doRegWrite then
    match s.free with
    | [] => none
    | wReg :: free =>
      some ({ uop, rename := { rRegs, wReg, wPrevReg } },
        { sRAT := Function.update s.sRAT (uop.wbAddr - 1) wReg, free })
  else some ({ uop, rename := { rRegs, wReg := 0, wPrevReg } }, s)

/-- Rename a list of instructions, the first one first. -/
def renameAll (s : InOrder) : List MicroOp → Option (List PushPort × InOrder)
  | [] => some ([], s)
  | uop :: group =>
    (s.rename uop).bind fun first =>
      (first.2.renameAll group).map fun rest => (first.1 :: rest.1, rest.2)

/-- The registers a list of instructions takes. -/
def needed (group : List MicroOp) : Nat := group.countP MicroOp.doRegWrite

variable {s : InOrder} {uop : MicroOp} {group : List MicroOp}

/-- Renaming fails for want of free registers only. -/
theorem renameAll_eq_none_iff :
    s.renameAll group = none ↔ s.free.length < needed group := by
  induction group generalizing s with
  | nil => simp [renameAll, needed]
  | cons uop group ih =>
    obtain ⟨sRAT, free⟩ := s
    cases hwrite : uop.doRegWrite with
    | false =>
      have hneeded : needed (uop :: group) = needed group := by simp [needed, hwrite]
      simp [renameAll, rename, hwrite, ih, hneeded]
    | true =>
      have hneeded : needed (uop :: group) = needed group + 1 := by simp [needed, hwrite]
      cases free with
      | nil => simp [renameAll, rename, hwrite, hneeded]
      | cons wReg free => simp [renameAll, rename, hwrite, ih, hneeded]

end InOrder

namespace Rename

variable {rat payload : Nat → Nat} {older : List RegRename} {group : List (Option MicroOp)}

/-- As many registers are popped as the instructions of the group take. -/
theorem countP_writePorts :
    (writePorts payload older group).countP RegRename.valid =
      InOrder.needed (group.filterMap id) := by
  induction group generalizing older with
  | nil => rfl
  | cons uop group ih =>
    cases uop with
    | none =>
      rw [writePorts, List.countP_cons_of_neg (by simp [writePort])]
      exact ih
    | some u =>
      have hgroup : (some u :: group).filterMap id = u :: group.filterMap id := rfl
      rw [writePorts, List.countP_cons, ih, hgroup]
      exact List.countP_cons.symm

/-- What the lanes in front have written can be read from the table that one gets by
renaming them first. -/
theorem record_eq {uop : MicroOp} (haddr : ∀ p ∈ older, p.valid = true → 1 ≤ p.addr) :
    record rat payload older uop =
      { rRegs := (ratRead (writeRAT rat older) (⟨uop.inst⟩ : InstructionParser).rj,
          ratRead (writeRAT rat older) (if uop.useRk then (⟨uop.inst⟩ : InstructionParser).rk
            else (⟨uop.inst⟩ : InstructionParser).rd))
        wReg := (writePort payload older (some uop)).rsp
        wPrevReg := ratRead (writeRAT rat older) uop.wbAddr } := by
  rw [ratRead_writeRAT rat haddr]
  rfl

theorem writeRAT_append_singleton (ports : List RegRename) (p : RegRename) :
    writeRAT rat (ports ++ [p]) =
      if p.valid then Function.update (writeRAT rat ports) (p.addr - 1) p.rsp
      else writeRAT rat ports := by
  simp only [writeRAT, List.foldl_append, List.foldl_cons, List.foldl_nil]

/-- The pop ports show the free registers that the lanes in front have left. -/
def ShowsFree (payload : Nat → Nat) (older : List RegRename) (free : List Nat) : Prop :=
  ∀ k < free.length, free[k]? = some (payload (older.countP RegRename.valid + k))

theorem ShowsFree.skip {free : List Nat} {p : RegRename} (h : ShowsFree payload older free)
    (hidle : p.valid = false) : ShowsFree payload (older ++ [p]) free := by
  intro k hk
  rw [List.countP_append, List.countP_singleton, hidle]
  exact h k hk

theorem ShowsFree.tail {free : List Nat} {wReg : Nat} {p : RegRename}
    (h : ShowsFree payload older (wReg :: free)) (hvalid : p.valid = true) :
    ShowsFree payload (older ++ [p]) free := by
  intro k hk
  have hshown := h (k + 1) (Nat.succ_lt_succ hk)
  rw [List.getElem?_cons_succ] at hshown
  rw [hshown, List.countP_append, List.countP_singleton, if_pos hvalid, Nat.add_assoc,
    Nat.add_comm 1 k]

/-- An instruction that writes no register leaves the table and the free list alone. -/
theorem rename_idle {uop : MicroOp} {free : List Nat} (hwrite : uop.doRegWrite = false)
    (haddr : ∀ p ∈ older, p.valid = true → 1 ≤ p.addr) :
    InOrder.rename ⟨writeRAT rat older, free⟩ uop =
      some ({ uop, rename := record rat payload older uop }, ⟨writeRAT rat older, free⟩) := by
  rw [record_eq haddr]
  simp [InOrder.rename, writePort, hwrite]

/-- One that writes a register takes the one its pop port shows. -/
theorem rename_writing {uop : MicroOp} {wReg : Nat} {free : List Nat}
    (hwrite : uop.doRegWrite = true) (haddr : ∀ p ∈ older, p.valid = true → 1 ≤ p.addr)
    (hshow : ShowsFree payload older (wReg :: free)) :
    InOrder.rename ⟨writeRAT rat older, wReg :: free⟩ uop =
      some ({ uop, rename := record rat payload older uop },
        ⟨writeRAT rat (older ++ [writePort payload older (some uop)]), free⟩) := by
  have hvalid : (writePort payload older (some uop)).valid = true := hwrite
  have hrsp : (writePort payload older (some uop)).rsp = wReg := by
    have hfirst := hshow 0 (Nat.succ_pos _)
    rw [List.getElem?_cons_zero, Option.some.injEq, Nat.add_zero] at hfirst
    rw [rsp_writePort hvalid, hfirst]
  rw [record_eq haddr, writeRAT_append_singleton, if_pos hvalid, hrsp]
  simp [InOrder.rename, hwrite, writePort]

/-- Renaming lane by lane behind the lanes `older`. The induction is on the lanes that
remain; the table carries the writes of those in front, the free list has lost the
registers they took. -/
theorem renameAll_of_room {free : List Nat}
    (haddr : ∀ p ∈ older, p.valid = true → 1 ≤ p.addr) (hgood : GoodDst group)
    (hshow : ShowsFree payload older free)
    (hroom : (writePorts payload older group).countP RegRename.valid ≤ free.length) :
    InOrder.renameAll ⟨writeRAT rat older, free⟩ (group.filterMap id) =
      some (renamed rat payload older group,
        { sRAT := writeRAT rat (older ++ writePorts payload older group)
          free := free.drop ((writePorts payload older group).countP RegRename.valid) }) := by
  induction group generalizing older free with
  | nil => simp [InOrder.renameAll, renamed, writePorts]
  | cons uop group ih =>
    have haddr' : ∀ p ∈ older ++ [writePort payload older uop], p.valid = true → 1 ≤ p.addr := by
      intro p hp hvalid
      rcases List.mem_append.mp hp with hold | hnew
      · exact haddr p hold hvalid
      · rw [List.mem_singleton] at hnew
        refine @addr_writePorts payload older (uop :: group) hgood p ?_ hvalid
        rw [hnew]
        exact List.mem_cons_self
    rw [writePorts] at hroom ⊢
    cases uop with
    | none =>
      rw [List.countP_cons_of_neg (by simp [writePort])] at hroom ⊢
      have hrest := ih haddr' hgood.tail (hshow.skip rfl) hroom
      rw [writeRAT_append_singleton, List.append_assoc] at hrest
      exact hrest
    | some u =>
      have hgroup : (some u :: group).filterMap id = u :: group.filterMap id := rfl
      cases hwrite : u.doRegWrite with
      | false =>
        have hidle : (writePort payload older (some u)).valid = false := hwrite
        rw [List.countP_cons_of_neg (by simp [hidle])] at hroom ⊢
        have hrest := ih haddr' hgood.tail (hshow.skip hidle) hroom
        rw [writeRAT_append_singleton, hidle, if_neg Bool.false_ne_true,
          List.append_assoc] at hrest
        rw [hgroup, InOrder.renameAll, @rename_idle rat payload older u free hwrite haddr,
          Option.bind_some, hrest]
        rfl
      | true =>
        have hvalid : (writePort payload older (some u)).valid = true := hwrite
        rw [List.countP_cons_of_pos hvalid] at hroom ⊢
        obtain ⟨wReg, free, rfl⟩ : ∃ wReg rest, free = wReg :: rest := by
          apply List.exists_cons_of_length_pos
          omega
        have hrest := ih haddr' hgood.tail (hshow.tail hvalid) (Nat.le_of_succ_le_succ hroom)
        rw [List.append_assoc] at hrest
        rw [hgroup, InOrder.renameAll, rename_writing hwrite haddr hshow, Option.bind_some, hrest]
        rfl

/-- A used pop port is one of those in front of the count. -/
theorem popIdx_lt : ∀ p ∈ writePorts payload older group, p.valid = true →
    p.popIdx < older.countP RegRename.valid +
      (writePorts payload older group).countP RegRename.valid := by
  induction group generalizing older with
  | nil => simp [writePorts]
  | cons uop group ih =>
    intro p hp hvalid
    rw [writePorts] at hp ⊢
    rcases List.mem_cons.mp hp with rfl | hp
    · rw [popIdx_writePort, List.countP_cons_of_pos hvalid]
      omega
    · have hrest := ih p hp hvalid
      rw [List.countP_append, List.countP_singleton] at hrest
      rw [List.countP_cons]
      omega

end Rename

namespace RenameStage

variable {s : RenameStage} {i : Inputs}

/-- A stage that may hold any table and any free list. Its pop ports have been loaded,
what it holds has been decoded, and it is empty while the tables recover. -/
structure Sound (s : RenameStage) : Prop where
  inRange : s.freeList.ptr.InRange freeListDepth
  shown : s.isValid = true → s.freeList.Shown freeListDepth
  decoded : s.isValid = true → Decoded s.decPacket
  idle : s.regFlush = true → s.isValid = false

/-- The instructions in the stage. -/
def group (s : RenameStage) : List MicroOp := s.decPacket.filterMap id

/-- What the instructions of the stage find before them. -/
def inOrder (s : RenameStage) : InOrder :=
  { sRAT := s.sRAT, free := s.freeList.contents freeListDepth }

/-- The registers that retired instructions give back in a cycle. -/
def returned (s : RenameStage) (i : Inputs) : List Nat :=
  s.freeList.accepted freeListDepth ((s.arfCommits i).map RegFileMapping.prevAddr)

/-- The cycle renames as one instruction at a time would, or not at all. -/
structure RenamesInOrder (s : RenameStage) (i : Inputs) : Prop where
  /-- Every record, the table and the free list come out as one at a time. -/
  renames : s.isValidNotStuck i = true → ∃ left, s.inOrder.renameAll s.group =
    some (s.issued i, { sRAT := (s.step i).sRAT, free := left }) ∧
      (s.step i).freeList.contents freeListDepth = left ++ s.returned i
  /-- The stage halts itself when one at a time would run out of registers. -/
  halts : s.isValid = true →
    (s.noFreeRegs = true ↔ s.inOrder.renameAll s.group = none)
  /-- Nothing is taken from a stage that is stuck. -/
  keeps : s.isStuck i = true → s.issued i = [] ∧
    (s.step i).sRAT = (if s.regFlush then s.aRAT else s.sRAT) ∧
    (s.regFlush = false → (s.step i).freeList.ptr.pop = s.freeList.ptr.pop ∧
      (s.step i).freeList.contents freeListDepth =
        s.freeList.contents freeListDepth ++ s.returned i)

theorem sound_of_reachable (h : machine.Reachable s) : s.Sound := by
  have hinv := inv_of_reachable h
  exact ⟨hinv.range, hinv.shown, hinv.decoded, fun hflush => (hinv.idle hflush).1⟩

/-- The pop ports show the free list to the first lane. -/
theorem showsFree (h : s.freeList.Shown freeListDepth) :
    ShowsFree s.freeList.popPayload [] (s.freeList.contents freeListDepth) := by
  intro k hk
  rw [MultiPortFIFOVecOutReg.length_contents] at hk
  rw [List.countP_nil, Nat.zero_add, MultiPortFIFOVecOutReg.contents,
    Ring.window_getElem? _ hk, h k hk]

theorem countP_ports : s.ports.countP RegRename.valid = InOrder.needed s.group :=
  countP_writePorts

theorem needed_le (h : s.Sound) (hv : s.isValid = true) :
    InOrder.needed s.group ≤ decodeWidth := by
  rw [← countP_ports]
  refine List.countP_le_length.trans ?_
  rw [ports, length_writePorts]
  exact (h.decoded hv).width

/-- The stage finds too few free registers exactly when there are too few. -/
theorem noFreeRegs_iff (h : s.Sound) (hv : s.isValid = true) :
    s.noFreeRegs = true ↔ s.freeList.ptr.count freeListDepth < InOrder.needed s.group := by
  have hneeded := needed_le h hv
  have hdepth : decodeWidth ≤ freeListDepth := by decide
  rw [noFreeRegs, hv, Bool.true_and, List.any_eq_true]
  constructor
  · rintro ⟨p, hp, hfails⟩
    rw [Bool.and_eq_true, Bool.not_eq_true'] at hfails
    have hlt := popIdx_lt p hp hfails.1
    rw [List.countP_nil, Nat.zero_add, countP_writePorts] at hlt
    have hgroup : InOrder.needed (s.decPacket.filterMap id) = InOrder.needed s.group := rfl
    have hnone : ¬p.popIdx < s.freeList.ptr.count freeListDepth := by
      rw [← Ring.Pointers.popValid_iff (by omega), hfails.2]
      exact Bool.false_ne_true
    omega
  · intro hshort
    obtain ⟨p, hp, hvalid, hidx⟩ := @popIdx_writePorts s.freeList.popPayload [] s.decPacket
      (s.freeList.ptr.count freeListDepth) (by rw [countP_writePorts]; exact hshort)
    rw [List.countP_nil, Nat.zero_add] at hidx
    have hnone : ¬p.popIdx < s.freeList.ptr.count freeListDepth := by omega
    rw [← Ring.Pointers.popValid_iff (by omega), Bool.not_eq_true] at hnone
    refine ⟨p, hp, ?_⟩
    rw [hvalid, hnone]
    rfl

/-- The free list loses the registers taken and gets back those returned. -/
theorem contents_freeList (h : s.Sound) (hi : s.Legal i) (hflush : s.regFlush = false)
    (hroom : s.popReady i ≤ s.freeList.ptr.count freeListDepth) :
    (s.step i).freeList.contents freeListDepth =
      (s.freeList.contents freeListDepth).drop (s.popReady i) ++ s.returned i := by
  have hle := Ring.Pointers.count_le h.inRange
  have hdepth : s.popReady i ≤ freeListDepth := by omega
  have hcontents := MultiPortFIFOVecOutReg.contents_step h.inRange (length_arfCommits_le hi)
    hdepth
  have htaken : s.freeList.taken freeListDepth (s.popReady i) = s.popReady i :=
    Nat.min_eq_left hroom
  rw [htaken, List.drop_append_of_le_length (by simpa using hroom)] at hcontents
  rw [step, hflush]
  exact hcontents

/-- The group is renamed as its instructions would be one at a time, for every table and
every free list. If these would run out of registers, or the stage is stuck for another
reason, the table stays and nothing is taken from the free list. -/
theorem renamesInOrder (h : s.Sound) (hi : s.Legal i) : s.RenamesInOrder i where
  renames hfire := by
    obtain ⟨hv, henough⟩ := ports_valid hfire
    have hflush : s.regFlush = false := by
      by_contra hrec
      rw [h.idle (Bool.of_not_eq_false hrec)] at hv
      cases hv
    have hroom : InOrder.needed s.group ≤ s.freeList.ptr.count freeListDepth := by
      apply Nat.le_of_not_lt
      rw [← noFreeRegs_iff h hv, henough]
      exact Bool.false_ne_true
    have hpop : s.popReady i = InOrder.needed s.group := by
      rw [popReady, if_pos hfire, countP_ports]
    have hlength : (writePorts s.freeList.popPayload [] s.decPacket).countP RegRename.valid ≤
        (s.freeList.contents freeListDepth).length := by
      rw [countP_writePorts, MultiPortFIFOVecOutReg.length_contents]
      exact hroom
    have hall := @renameAll_of_room s.sRAT _ [] _ _ (fun p hp => absurd hp List.not_mem_nil)
      (h.decoded hv).wbAddr (showsFree (h.shown hv)) hlength
    refine ⟨(s.freeList.contents freeListDepth).drop (s.popReady i), ?_, ?_⟩
    · have htable : (s.step i).sRAT = writeRAT s.sRAT s.ports := by
        simp [step, hflush, hfire]
      rw [htable, issued, if_pos hfire, hpop, ← countP_ports]
      exact hall
    · apply contents_freeList h hi hflush
      rw [hpop]
      exact hroom
  halts hv := by
    rw [noFreeRegs_iff h hv, InOrder.renameAll_eq_none_iff]
    simp [inOrder]
  keeps hstuck := by
    have hidle : s.isValidNotStuck i = false := by simp [isValidNotStuck, hstuck]
    have hpop : s.popReady i = 0 := by simp [popReady, hidle]
    refine ⟨by simp [issued, hidle], by simp [step, hidle], fun hflush => ⟨?_, ?_⟩⟩
    · have htaken : s.freeList.popCount freeListDepth 0 = 0 := rfl
      rw [step, hflush]
      change (s.nextFreeList i).ptr.pop = _
      rw [nextFreeList, hpop]
      change Ring.slot freeListDepth s.freeList.ptr.pop (s.freeList.popCount freeListDepth 0) = _
      rw [htaken, Ring.slot_zero h.inRange.pop]
    · have hcontents := contents_freeList h hi hflush (by omega)
      rwa [hpop, List.drop_zero] at hcontents

/-- A stage with some table and some free list, whose group has an instruction that
reads what the one in front of it writes, writes the same register, and reads
register 0. -/
def chained : RenameStage where
  sRAT := fun r => 62 - r
  aRAT := fun r => r + 1
  freeList :=
    { dataVec := fun r => r + 3, ptr := { push := 5, pop := 30 }
      popPayload := fun j => Ring.slot freeListDepth 30 j + 3 }
  isValid := true
  decPacket :=
    [some { inst := 0x1804#32, useRj := true, wbAddr := 4, doRegWrite := true }, none,
      some { inst := 0x0084#32, useRj := true, useRk := true, wbAddr := 4, doRegWrite := true }]
  regFlush := false
  inFlight := []
  flushed := []

theorem renamesInOrder_chained : chained.Sound ∧ chained.RenamesInOrder {} ∧
    (chained.step {}).sRAT 3 = 34 ∧ (chained.issued {}).map (fun p => p.rename.rRegs) =
      [(0, 59), (33, 0)] :=
  have hsound : chained.Sound :=
    ⟨⟨by decide, by decide⟩, fun _ _ _ => rfl, fun _ => by decide, fun h => by cases h⟩
  ⟨hsound, renamesInOrder hsound
    ⟨(fun h => by cases h), by decide, by decide, (fun h => by cases h), fun h => by cases h⟩,
    by decide, by decide⟩

end RenameStage

/-- The decoder keeps to what the stage relies on. -/
theorem Decoder.decoded (plv : BitVec 2) {entries : List (Option FetchEntry)}
    (hwidth : entries.length ≤ decodeWidth) :
    RenameStage.Decoded (entries.map (Option.map (decode plv))) where
  width := by simpa using hwidth
  wbAddr uop hmem hwrite := by
    obtain ⟨entry, -, hentry⟩ := List.mem_map.mp hmem
    obtain ⟨e, -, rfl⟩ := Option.map_eq_some_iff.mp hentry
    have hwrites : ((signals e.inst).isRegWrite && wbAddr e.inst != 0) = true := hwrite
    rw [Bool.and_eq_true, bne_iff_ne] at hwrites
    refine ⟨Nat.pos_of_ne_zero hwrites.2, ?_⟩
    change wbAddr e.inst < nArchRegs
    rw [wbAddr]
    split_ifs
    · decide
    · exact BitVec.isLt _
    · exact BitVec.isLt _

end NopCore
