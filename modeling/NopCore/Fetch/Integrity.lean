import NopCore.Fetch.Refill

/-!
# Integrity of the instruction cache

A valid line holds the words that memory returned for the line its tag names, and
a fetch that hits is given words of its own line. Both rest on the refill: the
line requested, the tag written and the index must belong to one address. The
index comes from the virtual address, the rest from the translation, and the
translation is repeated in every cycle with the mode bits of that cycle.

While a line is being written, its way is valid under the old tag although the
words are being replaced. No fetch sees it: the second stage is held, and the
first stage reads again before it moves on.
-/

namespace NopCore

/-! ## Lines and addresses -/

theorem icacheLine_eq (addr : UWord) : icacheLine addr = icacheTag addr ++ icacheIndex addr := by
  have hjoin : addr.extractLsb' 12 20 ++ addr.extractLsb' 6 6 = addr.extractLsb' 6 (20 + 6) :=
    BitVec.extractLsb'_append_extractLsb'_eq_extractLsb' rfl
  exact hjoin.symm

/-- Two addresses of one line have the same tag. -/
theorem icacheTag_eq (addr : UWord) : icacheTag addr = (icacheLine addr).extractLsb' 6 20 := by
  rw [icacheLine_eq]
  exact BitVec.extractLsb'_append_eq_left.symm

/-- The bits below the page size are not translated. -/
theorem icacheIndex_append {m n : Nat} (hi : BitVec m) (addr : UWord) (hn : 12 ≤ n) :
    (hi ++ addr.extractLsb' 0 n).extractLsb' 6 6 = icacheIndex addr := by
  rw [BitVec.extractLsb'_append_eq_of_add_le (by omega)]
  ext k hk
  simp [icacheIndex]
  omega

theorem icacheIndex_directTranslate {addr : UWord} {mmu : MMU} {r : TranslateResult}
    (h : mmu.directTranslate addr = some r) : icacheIndex r.physAddr = icacheIndex addr := by
  simp only [MMU.directTranslate] at h
  split_ifs at h
  · obtain rfl := Option.some.inj h
    exact icacheIndex_append _ addr (by decide)
  · obtain rfl := Option.some.inj h
    exact icacheIndex_append _ addr (by decide)

theorem icacheIndex_tlbTranslate {addr : UWord} {op : MemOperationType} {mmu : MMU}
    {r : TranslateResult} (h : mmu.tlbTranslate addr op = some r) :
    icacheIndex r.physAddr = icacheIndex addr := by
  simp only [MMU.tlbTranslate, Option.some.injEq] at h
  rw [← h]
  simp only
  split_ifs <;> exact icacheIndex_append _ addr (by decide)

/-- With exactly one mode bit set, a translation keeps the index. -/
theorem icacheIndex_translate (addr : UWord) (mmu : MMU) {csr : TranslateCSR}
    (hmode : csr.crmdDA ≠ csr.crmdPG) :
    icacheIndex (translate addr .fetch (mmu.directTranslate addr)
      (mmu.tlbTranslate addr .fetch) csr).physAddr = icacheIndex addr := by
  cases hda : csr.crmdDA with
  | true =>
    have hpg : csr.crmdPG = false := by
      rw [hda] at hmode
      simpa using hmode.symm
    simp only [translate, hda, hpg]
    exact icacheIndex_append (0#3) addr (by decide)
  | false =>
    have hpg : csr.crmdPG = true := by
      rw [hda] at hmode
      simpa using hmode.symm
    cases hdirect : mmu.directTranslate addr with
    | some r =>
      simp only [translate, hda, hpg]
      exact icacheIndex_directTranslate hdirect
    | none =>
      cases htlb : mmu.tlbTranslate addr .fetch with
      | some r =>
        simp only [translate, hda, hpg]
        exact icacheIndex_tlbTranslate htlb
      | none => simp [MMU.tlbTranslate] at htlb

namespace ICache

variable {s : ICache} {i : Inputs}

/-- Hits are decided by the line of the translated address. -/
theorem hits_eq (way : Fin 2) :
    s.hits way = (s.setValids way && s.info.tags way == s.arLine.extractLsb' 6 20) := by
  rw [hits, tag, icacheTag_eq]
  rfl

/-- What the second stage holds is the same in both states. -/
structure Held (s s' : ICache) : Prop where
  pc : s'.pc = s.pc
  setValids : s'.setValids = s.setValids
  rsps : s'.rsps = s.rsps
  info : s'.info = s.info
  direct : s'.direct = s.direct
  tlb : s'.tlb = s.tlb
  if2ValidOnEntry : s'.if2ValidOnEntry = s.if2ValidOnEntry

theorem held_step (h : s.if2Stuck i = true) : s.Held (s.step i) := by
  constructor <;> simp [step, if1Moves, if1Stuck, h]

theorem Held.trans {s' s'' : ICache} (h : s.Held s') (h' : s'.Held s'') : s.Held s'' where
  pc := h'.pc.trans h.pc
  setValids := h'.setValids.trans h.setValids
  rsps := h'.rsps.trans h.rsps
  info := h'.info.trans h.info
  direct := h'.direct.trans h.direct
  tlb := h'.tlb.trans h.tlb
  if2ValidOnEntry := h'.if2ValidOnEntry.trans h.if2ValidOnEntry

/-- Under the same mode bits a fetch that is held is translated to the same line. -/
theorem Held.tag {s' : ICache} (h : s.Held s') (hcsr : s'.csr = s.csr) : s'.tag = s.tag := by
  rw [ICache.tag, ICache.tag, physPC, physPC, translateResult, translateResult, h.pc, h.direct,
    h.tlb, hcsr]

theorem Held.hit {s' : ICache} (h : s.Held s') (hcsr : s'.csr = s.csr) : s'.hit = s.hit := by
  simp only [ICache.hit, hits, h.setValids, h.info, h.tag hcsr]

/-- The line that the held fetch would have under other mode bits. -/
def lineUnder (s : ICache) (csr : TranslateCSR) : BitVec 26 :=
  icacheLine (translate s.pc .fetch s.direct s.tlb csr).physAddr

theorem arLine_step (h : s.if2Stuck i = true) : (s.step i).arLine = s.lineUnder i.nextCSR := by
  obtain ⟨hpc, -, -, -, hdirect, htlb, -⟩ := held_step h
  have hcsr : (s.step i).csr = i.nextCSR := rfl
  rw [arLine, physPC, translateResult, hpc, hdirect, htlb, hcsr]
  rfl

theorem hit_step (h : s.if2Stuck i = true) (hline : s.lineUnder i.nextCSR = s.arLine) :
    (s.step i).hit = s.hit := by
  have hheld := held_step h
  simp only [hit, hits_eq, arLine_step h, hline, hheld.setValids, hheld.info]

theorem stuck_of_fsm (h : s.fsm = .waitAXI ∨ s.fsm = .readMem ∨ s.fsm = .commit) :
    s.if2Stuck i = true := by
  rcases h with h | h | h <;> simp [if2Stuck, haltItself, h]

end ICache

/-! ## The invariant -/

namespace ICacheTrace

open ICache (Inputs)

variable (s : ICacheTrace) (i : Inputs)

/-- The way of the set is being written. -/
def replacing (way : Fin 2) (set : BitVec 6) : Prop :=
  s.reading = true ∧ set = s.cache.idx ∧ way = s.cache.replaceWay

/-- The mode bits keep the line of a fetch that has missed, as long as it is held
in the second stage; and a miss starts with exactly one mode bit set, or in set
0, where the zero address of the other modes belongs. -/
structure ModeKept : Prop where
  starts : s.cache.miss = true → s.cache.csr.crmdDA ≠ s.cache.csr.crmdPG ∨ s.cache.idx = 0
  kept : s.cache.if2Stuck i = true → s.cache.fsm ≠ .stateBoot ∨ s.cache.miss = true →
    s.cache.lineUnder i.nextCSR = s.cache.arLine

/-- What the read ports show of a way is what the memories hold. -/
structure ReadBack (way : Fin 2) : Prop where
  tags : s.cache.infoRsp.tags way = (s.cache.infoRAM (icacheIndex s.cache.regPC)).tags way
  data : s.cache.dataRsp way = s.cache.dataRAMs way (icacheIndex s.cache.regPC)
  fill : s.rspFill way = s.fills way (icacheIndex s.cache.regPC)

/-- The words of the burst that have been written, and the one on its way. -/
structure Received : Prop where
  length : s.burst.beats.length = s.cache.rspId.toNat + if s.cache.refillValid then 1 else 0
  written : ∀ w < s.cache.rspId, s.burst.beats[w.toNat]? =
    some (s.cache.dataRAMs s.cache.replaceWay s.cache.idx w)
  last : s.cache.refillValid = true →
    s.burst.beats[s.cache.rspId.toNat]? = some s.cache.refillWord

structure Inv : Prop where
  idle : s.cache.fsm ≠ .waitAXI → s.presented = none
  presented : ∀ l, s.presented = some l → l = s.cache.arLine
  entered : s.cache.fsm ≠ .stateBoot → s.cache.if2ValidOnEntry = true
  missed : s.cache.fsm ≠ .stateBoot →
    s.cache.hit = false ∧ s.cache.arLine = s.cache.tag ++ s.cache.idx
  burst : s.reading = true → s.burst.line = s.cache.arLine
  translated : s.cache.if2ValidOnEntry = true → ∃ mmu : MMU,
    s.cache.direct = mmu.directTranslate s.cache.pc ∧
      s.cache.tlb = mmu.tlbTranslate s.cache.pc .fetch
  readBack : s.cache.fsm = .stateBoot → s.cache.if1Valid = true → ∀ way,
    s.cache.valids (icacheIndex s.cache.regPC) way = true → s.ReadBack way
  tags : s.cache.fsm ≠ .finish → s.cache.if2ValidOnEntry = true → ∀ way,
    s.cache.valids s.cache.idx way = true →
      s.cache.info.tags way = (s.cache.infoRAM s.cache.idx).tags way
  setFill : s.cache.if2ValidOnEntry = true → ∀ way, s.cache.setValids way = true →
    (s.setFill way).line = s.cache.info.tags way ++ s.cache.idx ∧
      ∀ j, (s.setFill way).beats[(icacheWord s.cache.pc j).toNat]? =
        some (s.cache.rsps way j)
  received : s.reading = true → s.Received
  unfinished : s.cache.fsm = .readMem → s.burst.beats.length < icacheLineWords
  finished : s.cache.fsm = .commit → s.burst.beats.length = icacheLineWords ∧
    s.cache.refillValid = true
  lines : ∀ way set, s.cache.valids set way = true → ¬ s.replacing way set →
    (s.fills way set).Fills ((s.cache.infoRAM set).tags way ++ set) (s.cache.dataRAMs way set)

theorem inv_of_init {s : ICacheTrace} (h : s.Init) : s.Inv := by
  have hnovalid : ∀ set way, s.cache.valids set way = false := by simp [h.valids]
  constructor <;> simp [h.fsm, h.presented, h.if2ValidOnEntry, reading, hnovalid]

/-! ## One cycle -/

section Step

variable {s : ICacheTrace} {i : Inputs}

/-- A request starts from the line and the set of one address. -/
theorem arLine_of_miss (h : s.Inv) (hi : s.ModeKept i) (hmiss : s.cache.miss = true) :
    s.cache.arLine = s.cache.tag ++ s.cache.idx := by
  have hentry : s.cache.if2ValidOnEntry = true := by
    simp only [ICache.miss, ICache.reqValid, Bool.and_eq_true] at hmiss
    exact hmiss.1.2.1
  obtain ⟨mmu, hdirect, htlb⟩ := h.translated hentry
  have hindex : icacheIndex s.cache.physPC = s.cache.idx := by
    by_cases hmode : s.cache.csr.crmdDA = s.cache.csr.crmdPG
    · have hzero : s.cache.idx = 0 := (hi.starts hmiss).resolve_left (not_not.mpr hmode)
      have hphys : s.cache.physPC = 0 := by
        rw [ICache.physPC, ICache.translateResult]
        cases hpg : s.cache.csr.crmdPG <;> simp [translate, hmode, hpg]
      rw [hphys, hzero]
      decide
    · rw [ICache.physPC, ICache.translateResult, hdirect, htlb]
      exact icacheIndex_translate _ _ hmode
  rw [ICache.arLine, icacheLine_eq, hindex]
  rfl

/-- The second stage is held as long as the refill is not over. -/
theorem stuck_of_next (hnext : s.cache.nextFsm i ≠ .stateBoot) :
    s.cache.if2Stuck i = true ∧ (s.cache.fsm ≠ .stateBoot ∨ s.cache.miss = true) := by
  cases hfsm : s.cache.fsm with
  | stateBoot =>
    have hmiss : s.cache.miss = true := by
      simp only [ICache.nextFsm, hfsm] at hnext
      split_ifs at hnext with hreq
      · simpa [ICache.miss, hfsm] using hreq
      · exact absurd rfl hnext
    exact ⟨by simp [ICache.if2Stuck, ICache.haltItself, hmiss], .inr hmiss⟩
  | waitAXI => exact ⟨ICache.stuck_of_fsm (.inl hfsm), .inl (by simp)⟩
  | readMem => exact ⟨ICache.stuck_of_fsm (.inr (.inl hfsm)), .inl (by simp)⟩
  | commit => exact ⟨ICache.stuck_of_fsm (.inr (.inr hfsm)), .inl (by simp)⟩
  | finish =>
    refine ⟨?_, .inl (by simp)⟩
    simp only [ICache.nextFsm, hfsm] at hnext
    split_ifs at hnext with hstuck
    · exact hstuck
    · exact absurd rfl hnext

theorem arLine_kept (hi : s.ModeKept i) (hnext : s.cache.nextFsm i ≠ .stateBoot) :
    (s.cache.step i).arLine = s.cache.arLine := by
  obtain ⟨hstuck, hheld⟩ := stuck_of_next hnext
  rw [ICache.arLine_step hstuck, hi.kept hstuck hheld]

theorem idx_kept (hnext : s.cache.nextFsm i ≠ .stateBoot) :
    (s.cache.step i).idx = s.cache.idx := by
  rw [ICache.idx, (ICache.held_step (stuck_of_next hnext).1).pc]
  rfl

theorem replaceWay_kept (hnext : s.cache.nextFsm i ≠ .stateBoot) :
    (s.cache.step i).replaceWay = s.cache.replaceWay := by
  rw [ICache.replaceWay, (ICache.held_step (stuck_of_next hnext).1).info]
  rfl

theorem entered_step (h : s.cache.fsm ≠ .stateBoot → s.cache.if2ValidOnEntry = true)
    (hnext : s.cache.nextFsm i ≠ .stateBoot) : (s.cache.step i).if2ValidOnEntry = true := by
  obtain ⟨hstuck, hheld⟩ := stuck_of_next hnext
  rw [(ICache.held_step hstuck).if2ValidOnEntry]
  rcases hheld with hfsm | hmiss
  · exact h hfsm
  · simp only [ICache.miss, ICache.reqValid, Bool.and_eq_true] at hmiss
    exact hmiss.1.2.1

theorem missed_step (h : s.Inv) (hi : s.ModeKept i) (hnext : s.cache.nextFsm i ≠ .stateBoot) :
    (s.cache.step i).hit = false ∧
      (s.cache.step i).arLine = (s.cache.step i).tag ++ (s.cache.step i).idx := by
  obtain ⟨hstuck, hheld⟩ := stuck_of_next hnext
  have hline := arLine_kept hi hnext
  have hnow : s.cache.hit = false ∧ s.cache.arLine = s.cache.tag ++ s.cache.idx := by
    rcases hheld with hfsm | hmiss
    · exact h.missed hfsm
    · refine ⟨?_, arLine_of_miss h hi hmiss⟩
      simp only [ICache.miss, Bool.and_eq_true, Bool.not_eq_true'] at hmiss
      exact hmiss.2
  refine ⟨?_, ?_⟩
  · rw [ICache.hit_step hstuck (hi.kept hstuck hheld), hnow.1]
  · have htag : (s.cache.step i).tag = s.cache.tag := by
      rw [ICache.tag, ICache.tag, icacheTag_eq, icacheTag_eq s.cache.physPC]
      exact congrArg _ hline
    rw [hline, htag, idx_kept hnext, hnow.2]

/-- A valid bit is set only at the end of a refill. -/
theorem valids_step {set : BitVec 6} {way : Fin 2}
    (hvalid : (s.cache.step i).valids set way = true) :
    (s.cache.fsm = .commit ∧ set = s.cache.idx ∧ way = s.cache.replaceWay) ∨
      s.cache.valids set way = true := by
  simp only [ICache.step] at hvalid
  split_ifs at hvalid with hcommit hcleared
  · exact .inl hcommit
  · exact .inr hvalid

/-- Outside a commit the tags of valid ways do not change: a write that records a
use puts back the tags that were read. -/
theorem tags_step (h : s.Inv) {set : BitVec 6} {way : Fin 2} (hfsm : s.cache.fsm ≠ .commit)
    (hvalid : s.cache.valids set way = true) :
    ((s.cache.step i).infoRAM set).tags way = (s.cache.infoRAM set).tags way := by
  simp only [ICache.step]
  split_ifs with hset
  · subst hset
    by_cases huse : (s.cache.reqCommit i && s.cache.hit) = true
    · simp only [ICache.infoWrite, if_neg hfsm, if_pos huse, Option.getD_some]
      simp only [Bool.and_eq_true, ICache.reqCommit, ICache.reqValid] at huse
      have hboot : s.cache.fsm = .stateBoot := by
        by_contra hne
        rw [(h.missed hne).1] at huse
        exact absurd huse.2 (by simp)
      exact h.tags (by simp [hboot]) huse.1.1.1 way hvalid
    · simp only [ICache.infoWrite, if_neg hfsm, if_neg huse, Option.getD_none]
  · rfl

theorem tags_commit {set : BitVec 6} {way : Fin 2} (h : s.Inv) (hfsm : s.cache.fsm = .commit)
    (hvalid : s.cache.valids set way = true)
    (hother : ¬(set = s.cache.idx ∧ way = s.cache.replaceWay)) :
    ((s.cache.step i).infoRAM set).tags way = (s.cache.infoRAM set).tags way := by
  simp only [ICache.step, ICache.infoWrite, if_pos hfsm]
  split_ifs with hset
  · subst hset
    have hway : way ≠ s.cache.replaceWay := fun hway => hother ⟨rfl, hway⟩
    simp only [Option.getD_some, if_neg hway]
    exact h.tags (by simp [hfsm]) (h.entered (by simp [hfsm])) way hvalid
  · rfl

theorem reading_of_dataWrite (hwrite : s.cache.dataWrite = true) : s.reading = true := by
  simp only [ICache.dataWrite, Bool.or_eq_true, Bool.and_eq_true, beq_iff_eq] at hwrite
  simp only [reading, Bool.or_eq_true, beq_iff_eq]
  exact hwrite.imp And.left id

theorem data_step {set : BitVec 6} {way : Fin 2} (hother : ¬ s.replacing way set) :
    (s.cache.step i).dataRAMs way set = s.cache.dataRAMs way set := by
  funext w
  simp only [ICache.step]
  refine if_neg ?_
  rintro ⟨hwrite, hway, hset, -⟩
  exact hother ⟨reading_of_dataWrite hwrite, hset, hway⟩

theorem not_replacing {set : BitVec 6} {way : Fin 2} (hread : s.reading = false) :
    ¬ s.replacing way set := by
  rintro ⟨hreading, -⟩
  rw [hread] at hreading
  cases hreading

theorem not_replacing_of_boot {set : BitVec 6} {way : Fin 2} (hfsm : s.cache.fsm = .stateBoot) :
    ¬ s.replacing way set := not_replacing (by simp [reading, hfsm])

theorem fills_step {set : BitVec 6} {way : Fin 2}
    (hother : ¬(s.cache.fsm = .commit ∧ set = s.cache.idx ∧ way = s.cache.replaceWay)) :
    (s.step i).fills way set = s.fills way set := by
  simp only [step, if_neg hother]

/-- Leaving the refill, or never having entered it. -/
theorem next_boot (hnext : s.cache.nextFsm i = .stateBoot) :
    (s.cache.fsm = .stateBoot ∧ s.cache.miss = false) ∨
      (s.cache.fsm = .finish ∧ s.cache.if2Stuck i = false) := by
  cases hfsm : s.cache.fsm with
  | stateBoot =>
    simp only [ICache.nextFsm, hfsm] at hnext
    split_ifs at hnext with hreq
    refine .inl ⟨rfl, ?_⟩
    simpa [ICache.miss, hfsm] using hreq
  | waitAXI => simp only [ICache.nextFsm, hfsm] at hnext; split_ifs at hnext
  | readMem => simp only [ICache.nextFsm, hfsm] at hnext; split_ifs at hnext
  | commit => simp [ICache.nextFsm, hfsm] at hnext
  | finish =>
    simp only [ICache.nextFsm, hfsm] at hnext
    split_ifs at hnext with hstuck
    exact .inr ⟨rfl, by simpa using hstuck⟩

/-- A valid way keeps its tag, words and burst over a cycle that neither reads
nor writes a line. -/
theorem way_kept (h : s.Inv) {set : BitVec 6} {way : Fin 2} (hfsm : s.cache.fsm ≠ .commit)
    (hread : s.reading = false) (hvalid : s.cache.valids set way = true) :
    ((s.cache.step i).infoRAM set).tags way = (s.cache.infoRAM set).tags way ∧
      (s.cache.step i).dataRAMs way set = s.cache.dataRAMs way set ∧
      (s.step i).fills way set = s.fills way set := by
  refine ⟨tags_step h hfsm hvalid, data_step (not_replacing hread), fills_step ?_⟩
  rintro ⟨hcommit, -⟩
  exact hfsm hcommit

/-- Before the next fetch the first stage has read its set in this cycle, or it was held
and had read it before. -/
theorem reads_step (hnext : s.cache.nextFsm i = .stateBoot)
    (hif1 : (s.cache.step i).if1Valid = true) :
    (s.cache.readEnable i = true ∧
        s.cache.readAddr i = icacheIndex (s.cache.step i).regPC) ∨
      (s.cache.readEnable i = false ∧ (s.cache.step i).regPC = s.cache.regPC ∧
        s.cache.fsm = .stateBoot ∧ s.cache.if1Valid = true) := by
  cases hread : s.cache.readEnable i with
  | true =>
    refine .inl ⟨rfl, ?_⟩
    simp only [ICache.readEnable, Bool.or_eq_true, Bool.not_eq_true'] at hread
    cases hre : s.cache.refetchValid i with
    | true => simp [ICache.readAddr, ICache.step, ICache.if1Stuck, hre]
    | false =>
      have hmoves := hread.resolve_right (by simp [hre])
      simp [ICache.readAddr, ICache.step, hmoves, hre]
  | false =>
    -- nothing was read, so the first stage is held, and not because of a refill
    simp only [ICache.readEnable, Bool.or_eq_false_iff, Bool.not_eq_false'] at hread
    obtain ⟨hstuck1, hre⟩ := hread
    have hpc : (s.cache.step i).regPC = s.cache.regPC := by
      simp [ICache.step, hstuck1]
    have hwas : ICache.if1Flushed i = false ∧ s.cache.if1Valid = true := by
      simp only [ICache.step, hstuck1] at hif1
      split_ifs at hif1 with hmoves hflushed
      · simp at hmoves
      · exact ⟨Bool.eq_false_of_not_eq_true hflushed, hif1⟩
    have hboot : s.cache.fsm = .stateBoot := by
      rcases next_boot hnext with ⟨hfsm, -⟩ | ⟨hfinish, hstuck⟩
      · exact hfsm
      · simp [ICache.refetchValid, ICache.doRefetch, hwas.1, hwas.2, hfinish, hstuck] at hre
    exact .inr ⟨rfl, hpc, hboot, hwas.2⟩

theorem readBack_step (h : s.Inv) (hnext : s.cache.nextFsm i = .stateBoot)
    (hif1 : (s.cache.step i).if1Valid = true) (way : Fin 2)
    (hvalid : (s.cache.step i).valids (icacheIndex (s.cache.step i).regPC) way = true) :
    (s.step i).ReadBack way := by
  have hquiet : s.cache.fsm ≠ .commit ∧ s.reading = false := by
    rcases next_boot hnext with ⟨hfsm, -⟩ | ⟨hfsm, -⟩ <;> simp [reading, hfsm]
  have hold : s.cache.valids (icacheIndex (s.cache.step i).regPC) way = true :=
    (valids_step hvalid).resolve_left fun hc => hquiet.1 hc.1
  obtain ⟨htags, hdata, hfill⟩ := way_kept (i := i) h hquiet.1 hquiet.2 hold
  obtain ⟨hread, haddr⟩ | ⟨hread, hpc, hboot, hwas⟩ := reads_step hnext hif1
  · refine ⟨?_, ?_, ?_⟩
    · change (ICache.step s.cache i).infoRsp.tags way = _
      rw [show (s.cache.step i).infoRsp = s.cache.infoRAM (s.cache.readAddr i) by
        simp [ICache.step, hread], haddr]
      exact htags.symm
    · change (ICache.step s.cache i).dataRsp way = _
      rw [show (s.cache.step i).dataRsp way = s.cache.dataRAMs way (s.cache.readAddr i) by
        simp [ICache.step, hread], haddr]
      exact hdata.symm
    · rw [show (s.step i).rspFill way = s.fills way (s.cache.readAddr i) by
        simp [step, hread], haddr]
      exact hfill.symm
  · rw [hpc] at hold htags hdata hfill
    obtain ⟨h1, h2, h3⟩ := h.readBack hboot hwas way hold
    have hkeep : (s.cache.step i).infoRsp = s.cache.infoRsp ∧
        (s.cache.step i).dataRsp = s.cache.dataRsp ∧ (s.step i).rspFill = s.rspFill := by
      simp [ICache.step, step, hread]
    refine ⟨?_, ?_, ?_⟩
    · change (ICache.step s.cache i).infoRsp.tags way =
        ((ICache.step s.cache i).infoRAM (icacheIndex (s.cache.step i).regPC)).tags way
      rw [hpc, hkeep.1, h1, htags]
    · change (ICache.step s.cache i).dataRsp way =
        (ICache.step s.cache i).dataRAMs way (icacheIndex (s.cache.step i).regPC)
      rw [hpc, hkeep.2.1, h2, hdata]
    · change (s.step i).rspFill way = (s.step i).fills way (icacheIndex (s.cache.step i).regPC)
      rw [hpc, hkeep.2.2, h3, hfill]

/-- A fetch enters the second stage only from a first stage that is up to date. -/
theorem boot_of_enters (hstuck : s.cache.if2Stuck i = false)
    (hentry : (s.cache.step i).if2ValidOnEntry = true)
    (hfsm : s.cache.fsm = .stateBoot ∨ s.cache.fsm = .finish) :
    s.cache.fsm = .stateBoot ∧ s.cache.if1Valid = true := by
  simp only [ICache.step, hstuck] at hentry
  split_ifs at hentry with hmoves
  · refine ⟨hfsm.resolve_right fun hfinish => ?_, hentry⟩
    simp only [ICache.if1Moves, ICache.if1Stuck, ICache.refetchValid, ICache.doRefetch, hfinish,
      hstuck, hentry] at hmoves
    cases hflushed : ICache.if1Flushed i <;> simp [hflushed] at hmoves
  · simp at *

theorem fsm_of_not_stuck (hstuck : s.cache.if2Stuck i = false) :
    s.cache.fsm = .stateBoot ∨ s.cache.fsm = .finish := by
  by_contra hne
  have hholds : s.cache.if2Stuck i = true := by
    refine ICache.stuck_of_fsm ?_
    cases hfsm : s.cache.fsm <;> simp_all
  rw [hstuck] at hholds
  cases hholds

theorem translated_step (h : s.Inv) (hentry : (s.cache.step i).if2ValidOnEntry = true) :
    ∃ mmu : MMU, (s.cache.step i).direct = mmu.directTranslate (s.cache.step i).pc ∧
      (s.cache.step i).tlb = mmu.tlbTranslate (s.cache.step i).pc .fetch := by
  cases hstuck : s.cache.if2Stuck i with
  | true =>
    have hheld := ICache.held_step hstuck
    rw [hheld.if2ValidOnEntry] at hentry
    obtain ⟨mmu, hdirect, htlb⟩ := h.translated hentry
    exact ⟨mmu, by rw [hheld.direct, hheld.pc, hdirect], by rw [hheld.tlb, hheld.pc, htlb]⟩
  | false =>
    exact ⟨i.mmu, by simp [ICache.step, hstuck], by simp [ICache.step, hstuck]⟩

theorem infoTags_step (h : s.Inv) (hfsm : s.cache.nextFsm i ≠ .finish)
    (hentry : (s.cache.step i).if2ValidOnEntry = true) (way : Fin 2)
    (hvalid : (s.cache.step i).valids (s.cache.step i).idx way = true) :
    (s.cache.step i).info.tags way =
      ((s.cache.step i).infoRAM (s.cache.step i).idx).tags way := by
  have hcommit : s.cache.fsm ≠ .commit := by
    intro hc
    exact hfsm (by simp [ICache.nextFsm, hc])
  have hold : s.cache.valids (s.cache.step i).idx way = true :=
    (valids_step hvalid).resolve_left fun hc => hcommit hc.1
  rw [tags_step h hcommit hold]
  cases hstuck : s.cache.if2Stuck i with
  | true =>
    have hheld := ICache.held_step hstuck
    have hfinish : s.cache.fsm ≠ .finish := by
      intro hf
      exact hfsm (by simp [ICache.nextFsm, hf, hstuck])
    rw [hheld.if2ValidOnEntry] at hentry
    rw [ICache.idx, hheld.pc] at hold ⊢
    rw [hheld.info]
    exact h.tags hfinish hentry way hold
  | false =>
    obtain ⟨hboot, hif1⟩ := boot_of_enters hstuck hentry (fsm_of_not_stuck hstuck)
    have hpc : (s.cache.step i).pc = s.cache.regPC := by simp [ICache.step, hstuck]
    have hinfo : (s.cache.step i).info = s.cache.infoRsp := by simp [ICache.step, hstuck]
    rw [ICache.idx, hpc] at hold ⊢
    rw [hinfo]
    exact (h.readBack hboot hif1 way hold).tags

theorem setFill_step (h : s.Inv) (hentry : (s.cache.step i).if2ValidOnEntry = true)
    (way : Fin 2) (hvalid : (s.cache.step i).setValids way = true) :
    ((s.step i).setFill way).line = (s.cache.step i).info.tags way ++ (s.cache.step i).idx ∧
      ∀ j, ((s.step i).setFill way).beats[(icacheWord (s.cache.step i).pc j).toNat]? =
        some ((s.cache.step i).rsps way j) := by
  cases hstuck : s.cache.if2Stuck i with
  | true =>
    have hheld := ICache.held_step hstuck
    have hfill : (s.step i).setFill = s.setFill := by simp [step, hstuck]
    rw [hheld.if2ValidOnEntry] at hentry
    rw [hheld.setValids] at hvalid
    rw [hfill, hheld.info, ICache.idx, hheld.pc, hheld.rsps]
    exact h.setFill hentry way hvalid
  | false =>
    obtain ⟨hboot, hif1⟩ := boot_of_enters hstuck hentry (fsm_of_not_stuck hstuck)
    have hvalid : s.cache.valids (icacheIndex s.cache.regPC) way = true := by
      simpa [ICache.step, hstuck] using hvalid
    have hline := h.lines way _ hvalid (not_replacing_of_boot hboot)
    obtain ⟨htags, hdata, hfill⟩ := h.readBack hboot hif1 way hvalid
    have hnew : (s.step i).setFill way = s.rspFill way ∧
        (s.cache.step i).info = s.cache.infoRsp ∧ (s.cache.step i).pc = s.cache.regPC := by
      simp [step, ICache.step, hstuck]
    rw [hnew.1, hnew.2.1, ICache.idx, hnew.2.2, hfill, htags]
    refine ⟨hline.line, fun j => ?_⟩
    rw [hline.words, ← hdata]
    simp [ICache.step, hstuck]

/-! ### The burst -/

theorem nextBurst_of_reading (hreading : s.reading = true) :
    (s.nextBurst i).line = s.burst.line ∧
      (s.nextBurst i).beats =
        if s.cache.rFire i then s.burst.beats ++ [i.rData] else s.burst.beats := by
  have har : s.cache.arValid = false := by
    simp only [reading, Bool.or_eq_true, beq_iff_eq] at hreading
    rcases hreading with hf | hf <;> simp [ICache.arValid, hf]
  simp [nextBurst, har]

theorem beats_of_readMem (hfsm : s.cache.fsm = .readMem) : (s.step i).burst.beats =
    if i.rValid then s.burst.beats ++ [i.rData] else s.burst.beats := by
  have hb := (nextBurst_of_reading (s := s) (i := i) (by simp [reading, hfsm])).2
  simp only [ICache.rFire, ICache.rReady, hfsm, beq_self_eq_true, Bool.and_true] at hb
  exact hb

/-- The next state reads from the bus: the request was accepted now or before. -/
theorem reading_step (hreading : (s.step i).reading = true) :
    (s.cache.fsm = .waitAXI ∧ i.arReady = true) ∨ s.cache.fsm = .readMem := by
  have hnext : s.cache.nextFsm i = .readMem ∨ s.cache.nextFsm i = .commit := by
    simpa [reading, step, ICache.step] using hreading
  unfold ICache.nextFsm at hnext
  grind

theorem next_ne_boot_of_reading (hreading : (s.step i).reading = true) :
    s.cache.nextFsm i ≠ .stateBoot := by
  intro hnext
  have hfsm : (s.step i).cache.fsm = .stateBoot := hnext
  simp [reading, hfsm] at hreading

theorem burst_step (h : s.Inv) (hi : s.ModeKept i) (hreading : (s.step i).reading = true) :
    (s.step i).burst.line = (s.cache.step i).arLine := by
  rw [arLine_kept hi (next_ne_boot_of_reading hreading)]
  rcases reading_step hreading with ⟨hfsm, hready⟩ | hfsm
  · simp [step, nextBurst, ICache.arValid, hfsm, hready]
  · have hnow : s.reading = true := by simp [reading, hfsm]
    exact (nextBurst_of_reading hnow).1.trans (h.burst hnow)

theorem received_step (h : s.reading = true → s.Received)
    (hunfinished : s.cache.fsm = .readMem → s.burst.beats.length < icacheLineWords)
    (hreading : (s.step i).reading = true) : (s.step i).Received := by
  have hnext := next_ne_boot_of_reading hreading
  rcases reading_step hreading with ⟨hfsm, hready⟩ | hfsm
  · -- the request is accepted: nothing has come back yet
    have hburst : (s.step i).burst.beats = [] := by
      simp [step, nextBurst, ICache.arValid, hfsm, hready]
    have hid : (s.step i).cache.rspId = 0 := by simp [step, ICache.step, hfsm, hready]
    have hvalid : (s.step i).cache.refillValid = false := by
      simp [step, ICache.step, ICache.rFire, ICache.rReady, hfsm]
    refine ⟨?_, ?_, ?_⟩
    · simp [hburst, hid, hvalid]
    · intro w hw
      rw [hid] at hw
      exact absurd hw (by simp)
    · intro hv
      rw [hvalid] at hv
      cases hv
  · have hnow : s.reading = true := by simp [reading, hfsm]
    obtain ⟨hlength, hwritten, hlast⟩ := h hnow
    have hroom := hunfinished hfsm
    have hbeats := beats_of_readMem (i := i) hfsm
    have hnewValid : (s.step i).cache.refillValid = i.rValid := by
      simp [step, ICache.step, ICache.rFire, ICache.rReady, hfsm]
    have hword : (s.step i).cache.refillWord = i.rData := rfl
    have hid : (s.step i).cache.rspId.toNat = s.burst.beats.length := by
      have hstep : (s.step i).cache.rspId =
          if s.cache.refillValid = true then s.cache.rspId + 1 else s.cache.rspId := by
        simp [step, ICache.step, hfsm]
      rw [hstep]
      have hlines : icacheLineWords = 16 := rfl
      split_ifs with hv
      · rw [if_pos hv] at hlength
        have hone : (1 : BitVec 4).toNat = 1 := rfl
        rw [BitVec.toNat_add, hone, hlength]
        omega
      · rw [if_neg hv] at hlength
        omega
    have hkeep : ∀ k < s.burst.beats.length,
        (s.step i).burst.beats[k]? = s.burst.beats[k]? := by
      intro k hk
      rw [hbeats]
      split_ifs
      · exact List.getElem?_append_left hk
      · rfl
    refine ⟨?_, ?_, ?_⟩
    · rw [hid, hnewValid, hbeats]
      split_ifs <;> simp
    · intro w hw
      have hlt : w.toNat < s.burst.beats.length := by
        rw [← hid]
        exact BitVec.lt_def.mp hw
      rw [hkeep _ hlt]
      change _ = some ((s.cache.step i).dataRAMs (s.cache.step i).replaceWay
        (s.cache.step i).idx w)
      rw [replaceWay_kept hnext, idx_kept hnext]
      simp only [ICache.step]
      split_ifs with hwrite
      · obtain ⟨hdata, -, -, rfl⟩ := hwrite
        have hv : s.cache.refillValid = true := by
          simpa [ICache.dataWrite, hfsm] using hdata
        exact hlast hv
      · refine hwritten w (BitVec.lt_def.mpr ?_)
        by_contra hge
        have hv : s.cache.refillValid = true := by
          by_contra hno
          rw [if_neg hno] at hlength
          omega
        rw [if_pos hv] at hlength
        have hw : w = s.cache.rspId := BitVec.eq_of_toNat_eq (by omega)
        exact hwrite ⟨by simp [ICache.dataWrite, hfsm, hv], trivial, trivial, hw⟩
    · intro hv
      rw [hnewValid] at hv
      rw [hid, hbeats, if_pos hv, hword]
      simp

theorem unfinished_step
    (h : s.cache.fsm = .readMem → s.burst.beats.length < icacheLineWords) (hlegal : s.Legal i)
    (hnext : s.cache.nextFsm i = .readMem) :
    (s.step i).burst.beats.length < icacheLineWords := by
  have hreading : (s.step i).reading = true := by
    have hfsm : (s.step i).cache.fsm = .readMem := hnext
    simp [reading, hfsm]
  rcases reading_step hreading with ⟨hfsm, hready⟩ | hfsm
  · simp [step, nextBurst, ICache.arValid, hfsm, hready, icacheLineWords]
  · have hroom := h hfsm
    rw [beats_of_readMem hfsm]
    split_ifs with hvalid
    · have hlast : i.rLast = false := by
        simp only [ICache.nextFsm, hfsm, hvalid, Bool.true_and] at hnext
        split_ifs at hnext with hl
        simpa using hl
      have hne : s.burst.beats.length ≠ icacheLineWords - 1 := by
        intro heq
        rw [(hlegal.rLast hvalid).mpr heq] at hlast
        cases hlast
      rw [List.length_append, List.length_singleton]
      omega
    · exact hroom

theorem finished_step (hlegal : s.Legal i) (hnext : s.cache.nextFsm i = .commit) :
    (s.step i).burst.beats.length = icacheLineWords ∧ (s.step i).cache.refillValid = true := by
  have hfsm : s.cache.fsm = .readMem := by
    unfold ICache.nextFsm at hnext
    grind
  have hlast : i.rValid = true ∧ i.rLast = true := by
    simp only [ICache.nextFsm, hfsm] at hnext
    split_ifs at hnext with hl
    simpa using hl
  have hlen := (hlegal.rLast hlast.1).mp hlast.2
  refine ⟨?_, ?_⟩
  · have hlines : icacheLineWords = 16 := rfl
    rw [beats_of_readMem hfsm, if_pos hlast.1, List.length_append, List.length_singleton]
    omega
  · simp [step, ICache.step, ICache.rFire, ICache.rReady, hfsm, hlast.1]

/-- With the last word the line has the words of the burst. -/
theorem line_commit (hreceived : s.Received) (hlength : s.burst.beats.length = icacheLineWords)
    (hvalid : s.cache.refillValid = true) (hfsm : s.cache.fsm = .commit) (w : BitVec 4) :
    s.burst.beats[w.toNat]? =
      some ((s.cache.step i).dataRAMs s.cache.replaceWay s.cache.idx w) := by
  obtain ⟨hcount, hwritten, hlast⟩ := hreceived
  simp only [ICache.step]
  split_ifs with hwrite
  · obtain ⟨-, -, -, rfl⟩ := hwrite
    exact hlast hvalid
  · refine hwritten w (BitVec.lt_def.mpr ?_)
    have hw := w.isLt
    have hlines : icacheLineWords = 16 := rfl
    rw [if_pos hvalid] at hcount
    by_contra hge
    have heq : w = s.cache.rspId := BitVec.eq_of_toNat_eq (by omega)
    exact hwrite ⟨by simp [ICache.dataWrite, hfsm], trivial, trivial, heq⟩

/-- Nothing comes back after the last word. -/
theorem beats_commit (hfsm : s.cache.fsm = .commit) : (s.nextBurst i).beats = s.burst.beats := by
  rw [(nextBurst_of_reading (by simp [reading, hfsm])).2]
  simp [ICache.rFire, ICache.rReady, hfsm]

/-- The line written at the end of a refill. -/
theorem fills_commit (h : s.Inv) (hfsm : s.cache.fsm = .commit) :
    ((s.step i).fills s.cache.replaceWay s.cache.idx).Fills
      (((s.cache.step i).infoRAM s.cache.idx).tags s.cache.replaceWay ++ s.cache.idx)
      ((s.cache.step i).dataRAMs s.cache.replaceWay s.cache.idx) := by
  have hreading : s.reading = true := by simp [reading, hfsm]
  obtain ⟨hlength, hvalid⟩ := h.finished hfsm
  have hfill : (s.step i).fills s.cache.replaceWay s.cache.idx = s.nextBurst i := by
    simp [step, hfsm]
  have htag : ((s.cache.step i).infoRAM s.cache.idx).tags s.cache.replaceWay = s.cache.tag := by
    simp [ICache.step, ICache.infoWrite, hfsm]
  rw [hfill, htag]
  refine ⟨?_, ?_, ?_⟩
  · rw [(nextBurst_of_reading hreading).1, h.burst hreading, (h.missed (by simp [hfsm])).2]
  · rw [beats_commit hfsm, hlength]
  · intro w
    rw [beats_commit hfsm]
    exact line_commit (h.received hreading) hlength hvalid hfsm w

theorem lines_step (h : s.Inv) {way : Fin 2} {set : BitVec 6}
    (hvalid : (s.cache.step i).valids set way = true) (hother : ¬ (s.step i).replacing way set) :
    ((s.step i).fills way set).Fills (((s.cache.step i).infoRAM set).tags way ++ set)
      ((s.cache.step i).dataRAMs way set) := by
  by_cases hcommit : s.cache.fsm = .commit ∧ set = s.cache.idx ∧ way = s.cache.replaceWay
  · obtain ⟨hfsm, rfl, rfl⟩ := hcommit
    exact fills_commit h hfsm
  · have hold : s.cache.valids set way = true := (valids_step hvalid).resolve_left hcommit
    have hnot : ¬ s.replacing way set := by
      rintro ⟨hreading, hset, hway⟩
      have hfsm : s.cache.fsm = .readMem := by
        simp only [reading, Bool.or_eq_true, beq_iff_eq] at hreading
        exact hreading.resolve_right fun hc => hcommit ⟨hc, hset, hway⟩
      have hnext : s.cache.nextFsm i = .readMem ∨ s.cache.nextFsm i = .commit := by
        unfold ICache.nextFsm
        grind
      have hne : s.cache.nextFsm i ≠ .stateBoot := by
        rcases hnext with hn | hn <;> simp [hn]
      refine hother ⟨?_, ?_, ?_⟩
      · simpa [reading, step, ICache.step] using hnext
      · exact hset.trans (idx_kept hne).symm
      · exact hway.trans (replaceWay_kept hne).symm
    have htags : ((s.cache.step i).infoRAM set).tags way = (s.cache.infoRAM set).tags way := by
      by_cases hfsm : s.cache.fsm = .commit
      · exact tags_commit h hfsm hold fun hc => hcommit ⟨hfsm, hc⟩
      · exact tags_step h hfsm hold
    rw [fills_step hcommit, htags, data_step hnot]
    exact h.lines way set hold hnot

theorem inv_step (h : s.Inv) (hlegal : s.Legal i) (hi : s.ModeKept i) : (s.step i).Inv where
  idle hfsm := by
    have hready : ¬(s.cache.arValid && !i.arReady) = true := by
      intro hwait
      simp only [ICache.arValid, Bool.and_eq_true, beq_iff_eq, Bool.not_eq_true'] at hwait
      exact hfsm (by simp [step, ICache.step, ICache.nextFsm, hwait])
    simp [step, hready]
  presented l hl := by
    simp only [step] at hl
    split_ifs at hl with hwait
    simp only [ICache.arValid, Bool.and_eq_true, beq_iff_eq, Bool.not_eq_true'] at hwait
    have hnext : s.cache.nextFsm i ≠ .stateBoot := by simp [ICache.nextFsm, hwait]
    rw [← Option.some.inj hl]
    exact (arLine_kept hi hnext).symm
  entered hfsm := entered_step h.entered hfsm
  missed hfsm := missed_step h hi hfsm
  burst hreading := burst_step h hi hreading
  translated hentry := translated_step h hentry
  readBack hfsm hif1 way hvalid := readBack_step h hfsm hif1 way hvalid
  tags hfsm hentry way hvalid := infoTags_step h hfsm hentry way hvalid
  setFill hentry way hvalid := setFill_step h hentry way hvalid
  received hreading := received_step h.received h.unfinished hreading
  unfinished hfsm := unfinished_step h.unfinished hlegal hfsm
  finished hfsm := finished_step hlegal hfsm
  lines _ _ hvalid hother := lines_step h hvalid hother

end Step

/-! ## Integrity -/

/-- A request that is not accepted is repeated with the same line. While a refill
is in progress the line and the tag are those requested, for the set they are
written to; at its end sixteen words have come back. Every valid line, unless it
is being replaced, holds the words of the burst for the line its tag names. Every
fetch that hits is handed words of the burst for its own line. -/
structure Intact (s : ICacheTrace) : Prop where
  stable : ∀ l, s.presented = some l → s.cache.arValid = true ∧ s.cache.arLine = l
  refill : s.reading = true →
    s.burst.line = s.cache.arLine ∧ s.burst.line = s.cache.tag ++ s.cache.idx
  complete : s.cache.fsm = .commit → s.burst.beats.length = icacheLineWords
  lines : ∀ way set, s.cache.valids set way = true → ¬ s.replacing way set →
    (s.fills way set).Fills ((s.cache.infoRAM set).tags way ++ set) (s.cache.dataRAMs way set)
  fetches : s.cache.reqValid = true → ∀ way, s.cache.hits way = true →
    (s.setFill way).line = s.cache.tag ++ s.cache.idx ∧
      ∀ j, (s.setFill way).beats[(icacheWord s.cache.pc j).toNat]? = some (s.cache.rsps way j)

/-- Along every run in which the mode bits keep the lines of the fetches that are
being refilled. -/
theorem intact_of_modeKept {s : ICacheTrace}
    (h : (machine.restrict ModeKept).Reachable s) : s.Intact := by
  have hinv : s.Inv := by
    refine Clocked.Machine.invariant (P := Inv) (fun _ => inv_of_init) ?_ h
    rintro s i hs ⟨hlegal, hi⟩
    exact inv_step hs hlegal hi
  refine ⟨?_, ?_, fun hfsm => (hinv.finished hfsm).1, hinv.lines, ?_⟩
  · intro l hl
    refine ⟨?_, (hinv.presented l hl).symm⟩
    by_contra hidle
    have hfsm : s.cache.fsm ≠ .waitAXI := by simpa [ICache.arValid] using hidle
    rw [hinv.idle hfsm] at hl
    cases hl
  · intro hreading
    have hfsm : s.cache.fsm ≠ .stateBoot := by
      intro hboot
      simp [reading, hboot] at hreading
    exact ⟨hinv.burst hreading, (hinv.burst hreading).trans (hinv.missed hfsm).2⟩
  · intro hreq way hhit
    simp only [ICache.reqValid, Bool.and_eq_true] at hreq
    simp only [ICache.hits, Bool.and_eq_true, beq_iff_eq] at hhit
    have hfill := hinv.setFill hreq.1 way hhit.1
    rw [hhit.2] at hfill
    exact hfill

instance (s : ICacheTrace) (i : Inputs) : Decidable ((machine.restrict ModeKept).legal s i) :=
  decidable_of_iff
    (machine.legal s i ∧
      (s.cache.miss = true → s.cache.csr.crmdDA ≠ s.cache.csr.crmdPG ∨ s.cache.idx = 0) ∧
      (s.cache.if2Stuck i = true → s.cache.fsm ≠ .stateBoot ∨ s.cache.miss = true →
        s.cache.lineUnder i.nextCSR = s.cache.arLine))
    ⟨fun ⟨h, h1, h2⟩ => ⟨h, h1, h2⟩, fun ⟨h, hi⟩ => ⟨h, hi.starts, hi.kept⟩⟩

/-- A user page: virtual 0x00400000 lies at physical 0x12345000. -/
def userPage : MMU where
  crmdPLV := 3
  tlbTable := fun _ =>
    { e := true, g := true, ps := 12, vppn := 0x200, v0 := true, plv0 := 3, ppn0 := 0x12345 }

def mapped : TranslateCSR := ⟨false, true, 0, 0⟩

/-- The page is fetched from, misses, and the request of its first line is
accepted. -/
def fetchUserPage : List Inputs :=
  [{ nextPC := 0x00400000, if1FlushIt := true, nextCSR := mapped },
   { nextPC := 0x00400010, nextCSR := mapped, mmu := userPage },
   { nextCSR := mapped, mmu := userPage },
   { nextCSR := mapped, mmu := userPage, arReady := true }]

theorem intact_fetchUserPage : (machine.run {} (fetchUserPage ++
    (beats fun _ => 0x03400000).map fun i => { i with nextCSR := mapped })).Intact :=
  intact_of_modeKept
    (Clocked.Machine.reachable_restrict_run init_atReset (by decide +kernel))

/-- While the line comes back, an older load misses the TLB: its exception
flushes the fetch and switches to direct mode. -/
def refillExceptionDuringRefill : List Inputs :=
  fetchUserPage ++ [{ if2FlushIt := true }] ++ beats (fun _ => 0x03400000) ++ [idle]

theorem refillExceptionDuringRefill_not_intact :
    machine.Reachable (machine.run {} refillExceptionDuringRefill) ∧
      ¬ (machine.run {} refillExceptionDuringRefill).Intact := by
  refine ⟨reachable_atReset.run (by decide +kernel), ?_⟩
  intro hintact
  have hvalid : (machine.run {} refillExceptionDuringRefill).cache.valids 0 0 = true := by
    decide +kernel
  have hidle : ¬ (machine.run {} refillExceptionDuringRefill).replacing 0 0 := by
    rintro ⟨hreading, -⟩
    revert hreading
    decide +kernel
  have hline := (hintact.lines 0 0 hvalid hidle).line
  revert hline
  decide +kernel

end ICacheTrace

end NopCore
