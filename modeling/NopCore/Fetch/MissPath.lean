import NopCore.Fetch.Integrity

/-!
# The two paths of a fetch packet

A fetch that hits takes its words from the way that was read in the first stage. A fetch
that misses takes them from registers that pick them out of the words as these come back,
while the line is written word by word. The word that is on its way is one cycle behind the
bus, and the last one is written in a state of its own.

What is said here of the words holds in every run, whatever becomes of the translation.
Only that the fetch still misses at the end of its refill needs the mode bits to be kept.
A later fetch at the same address is compared as long as its set is not refilled again: a
line that is fetched once more may have other words.
-/

namespace NopCore

namespace ICache

variable (s : ICache)

/-- Slot `j` of the packet is marked valid. -/
def fetchValid (j : Fin 4) : Bool :=
  j == 0 || (icacheWordOffset s.pc).toNat < icacheLineWords - j

variable {s}

/-- A slot is valid if its word lies in the line. -/
theorem fetchValid_eq (j : Fin 4) :
    s.fetchValid j = decide ((icacheWordOffset s.pc).toNat + j < icacheLineWords) := by
  have hlt := (icacheWordOffset s.pc).isLt
  have hlines : icacheLineWords = 16 := rfl
  rw [fetchValid, hlines, Bool.eq_iff_iff]
  simp only [Bool.or_eq_true, beq_iff_eq, decide_eq_true_eq]
  omega

end ICache

namespace ICacheTrace

open ICache (Inputs)

/-! ## What is read and what is written -/

section Step

variable {s : ICacheTrace} {i : Inputs}

/-- The words of the packet that have come back are those of the line. -/
def Picked (s : ICacheTrace) : Prop :=
  ∀ j, icacheWord s.cache.pc j < s.cache.rspId → s.cache.storedPacket j =
    s.cache.dataRAMs s.cache.replaceWay s.cache.idx (icacheWord s.cache.pc j)

/-- At the end of a refill the line has the words of the burst in their order, and the
packet has those that belong to it. -/
structure Written (s : ICacheTrace) : Prop where
  refillValid : s.cache.refillValid = false
  length : s.burst.beats.length = icacheLineWords
  line : ∀ w : BitVec 4, s.burst.beats[w.toNat]? =
    some (s.cache.dataRAMs s.cache.replaceWay s.cache.idx w)
  packet : ∀ j, s.cache.storedPacket j =
    s.cache.dataRAMs s.cache.replaceWay s.cache.idx (icacheWord s.cache.pc j)
  tags : ∀ w ≠ s.cache.replaceWay,
    (s.cache.infoRAM s.cache.idx).tags w = s.cache.info.tags w

/-- What the two paths rest on. -/
structure Paths (s : ICacheTrace) : Prop where
  entered : s.cache.fsm ≠ .stateBoot → s.cache.if2ValidOnEntry = true
  read : s.cache.fsm = .stateBoot → s.cache.if1Valid = true → ∀ way,
    s.cache.valids (icacheIndex s.cache.regPC) way = true →
      s.cache.dataRsp way = s.cache.dataRAMs way (icacheIndex s.cache.regPC)
  served : s.cache.fsm = .stateBoot → s.cache.if2ValidOnEntry = true → ∀ way,
    s.cache.setValids way = true → ∀ j, s.cache.rsps way j =
      s.cache.dataRAMs way s.cache.idx (icacheWord s.cache.pc j)
  known : s.cache.if2ValidOnEntry = true → ∀ way,
    s.cache.valids s.cache.idx way = true →
      s.cache.setValids way = true ∨ (s.cache.fsm = .finish ∧ way = s.cache.replaceWay)
  received : s.reading = true → s.Received
  unfinished : s.cache.fsm = .readMem → s.burst.beats.length < icacheLineWords
  finished : s.cache.fsm = .commit → s.burst.beats.length = icacheLineWords ∧
    s.cache.refillValid = true
  picked : s.reading = true → s.Picked
  written : s.cache.fsm = .finish → s.Written

theorem paths_of_init (h : s.Init) : s.Paths := by
  have hnovalid : ∀ set way, s.cache.valids set way = false := by simp [h.valids]
  constructor <;> simp [h.fsm, h.if2ValidOnEntry, reading, hnovalid]

theorem read_step (h : s.Paths) (hnext : s.cache.nextFsm i = .stateBoot)
    (hif1 : (s.cache.step i).if1Valid = true) (way : Fin 2)
    (hvalid : (s.cache.step i).valids (icacheIndex (s.cache.step i).regPC) way = true) :
    (s.cache.step i).dataRsp way =
      (s.cache.step i).dataRAMs way (icacheIndex (s.cache.step i).regPC) := by
  have hquiet : s.cache.fsm ≠ .commit ∧ s.reading = false := by
    rcases next_boot hnext with ⟨hfsm, -⟩ | ⟨hfsm, -⟩ <;> simp [reading, hfsm]
  have hold : s.cache.valids (icacheIndex (s.cache.step i).regPC) way = true :=
    (valids_step hvalid).resolve_left fun hc => hquiet.1 hc.1
  rw [data_step (not_replacing hquiet.2)]
  obtain ⟨hread, haddr⟩ | ⟨hread, hpc, hboot, hwas⟩ := reads_step hnext hif1
  · rw [← haddr]
    simp [ICache.step, hread]
  · rw [hpc] at hold ⊢
    rw [← h.read hboot hwas way hold]
    simp [ICache.step, hread]

theorem served_step (h : s.Paths) (hnext : s.cache.nextFsm i = .stateBoot)
    (hentry : (s.cache.step i).if2ValidOnEntry = true) (way : Fin 2)
    (hvalid : (s.cache.step i).setValids way = true) (j : Fin 4) :
    (s.cache.step i).rsps way j = (s.cache.step i).dataRAMs way (s.cache.step i).idx
      (icacheWord (s.cache.step i).pc j) := by
  have hread : s.reading = false := by
    rcases next_boot hnext with ⟨hfsm, -⟩ | ⟨hfsm, -⟩ <;> simp [reading, hfsm]
  rw [data_step (not_replacing hread)]
  cases hstuck : s.cache.if2Stuck i with
  | true =>
    have hheld := ICache.held_step hstuck
    have hboot : s.cache.fsm = .stateBoot := by
      obtain ⟨hfsm, -⟩ | ⟨-, hfree⟩ := next_boot hnext
      · exact hfsm
      · rw [hstuck] at hfree
        cases hfree
    rw [hheld.if2ValidOnEntry] at hentry
    rw [hheld.setValids] at hvalid
    rw [hheld.rsps, ICache.idx, hheld.pc]
    exact h.served hboot hentry way hvalid j
  | false =>
    obtain ⟨hboot, hif1⟩ := boot_of_enters hstuck hentry (fsm_of_not_stuck hstuck)
    have hvalid : s.cache.valids (icacheIndex s.cache.regPC) way = true := by
      simpa [ICache.step, hstuck] using hvalid
    have hpc : (s.cache.step i).pc = s.cache.regPC := by simp [ICache.step, hstuck]
    rw [ICache.idx, hpc, ← h.read hboot hif1 way hvalid]
    simp [ICache.step, hstuck]

theorem known_step (h : s.Paths) (hentry : (s.cache.step i).if2ValidOnEntry = true) (way : Fin 2)
    (hvalid : (s.cache.step i).valids (s.cache.step i).idx way = true) :
    (s.cache.step i).setValids way = true ∨
      (s.cache.nextFsm i = .finish ∧ way = (s.cache.step i).replaceWay) := by
  cases hstuck : s.cache.if2Stuck i with
  | true =>
    have hheld := ICache.held_step hstuck
    rw [hheld.if2ValidOnEntry] at hentry
    rw [ICache.idx, hheld.pc] at hvalid
    rw [hheld.setValids, ICache.replaceWay, hheld.info]
    obtain ⟨hcommit, -, hway⟩ | hold := valids_step hvalid
    · exact .inr ⟨by simp [ICache.nextFsm, hcommit], hway⟩
    · obtain hset | ⟨hfinish, hway⟩ := h.known hentry way hold
      · exact .inl hset
      · exact .inr ⟨by simp [ICache.nextFsm, hfinish, hstuck], hway⟩
  | false =>
    have hcommit : s.cache.fsm ≠ .commit := by
      obtain hfsm | hfsm := fsm_of_not_stuck hstuck <;> simp [hfsm]
    have hold := (valids_step hvalid).resolve_left fun hc => hcommit hc.1
    have hpc : (s.cache.step i).pc = s.cache.regPC := by simp [ICache.step, hstuck]
    rw [ICache.idx, hpc] at hold
    left
    simpa [ICache.step, hstuck] using hold

/-- A word of the packet is picked out in the cycle in which it is written. -/
theorem picked_step (h : s.Paths) (hreading : (s.step i).reading = true) : (s.step i).Picked := by
  have hnext := next_ne_boot_of_reading hreading
  have hheld := ICache.held_step (stuck_of_next hnext).1
  intro j hlt
  change icacheWord (s.cache.step i).pc j < (s.cache.step i).rspId at hlt
  change (s.cache.step i).storedPacket j = (s.cache.step i).dataRAMs
    (s.cache.step i).replaceWay (s.cache.step i).idx (icacheWord (s.cache.step i).pc j)
  rw [hheld.pc] at hlt
  rw [replaceWay_kept hnext, idx_kept hnext, hheld.pc]
  obtain ⟨hfsm, hready⟩ | hfsm := reading_step hreading
  · have hid : (s.cache.step i).rspId = 0 := by simp [ICache.step, hfsm, hready]
    rw [hid] at hlt
    exact absurd hlt (by simp)
  · have hwrite : s.cache.dataWrite = s.cache.refillValid := by simp [ICache.dataWrite, hfsm]
    by_cases hnow : s.cache.refillValid = true ∧ s.cache.rspId = icacheWord s.cache.pc j
    · simp [ICache.step, hwrite, hnow]
    · have hbefore : icacheWord s.cache.pc j < s.cache.rspId := by
        simp only [ICache.step, hfsm, reduceCtorEq, false_and, if_false, true_and] at hlt
        split_ifs at hlt with hvalid
        · have hone : (1 : BitVec 4).toNat = 1 := rfl
          have hne : s.cache.rspId.toNat ≠ (icacheWord s.cache.pc j).toNat := fun heq =>
            hnow ⟨hvalid, BitVec.eq_of_toNat_eq heq⟩
          rw [BitVec.lt_def, BitVec.toNat_add, hone] at hlt
          rw [BitVec.lt_def]
          omega
        · exact hlt
      have hpicked := h.picked (by simp [reading, hfsm]) j hbefore
      have hram : ¬(s.cache.dataWrite = true ∧ icacheWord s.cache.pc j = s.cache.rspId) :=
        fun hw => hnow ⟨hwrite ▸ hw.1, hw.2.symm⟩
      simp only [ICache.step, if_neg hnow, true_and, if_neg hram]
      exact hpicked

theorem written_commit (h : s.Paths) (hfsm : s.cache.fsm = .commit) : (s.step i).Written := by
  have hreading : s.reading = true := by simp [reading, hfsm]
  have hnext : s.cache.nextFsm i ≠ .stateBoot := by simp [ICache.nextFsm, hfsm]
  have hheld := ICache.held_step (stuck_of_next hnext).1
  obtain ⟨hlength, hvalid⟩ := h.finished hfsm
  have hline := line_commit (i := i) (h.received hreading) hlength hvalid hfsm
  have hlast : s.cache.rspId.toNat = icacheLineWords - 1 := by
    have hcount := (h.received hreading).length
    rw [if_pos hvalid, hlength] at hcount
    omega
  refine ⟨by simp [step, ICache.step, ICache.rFire, ICache.rReady, hfsm], ?_, ?_, ?_, ?_⟩
  · exact (congrArg List.length (beats_commit hfsm)).trans hlength
  · intro w
    change (s.nextBurst i).beats[w.toNat]? = some ((s.cache.step i).dataRAMs
      (s.cache.step i).replaceWay (s.cache.step i).idx w)
    rw [beats_commit hfsm, replaceWay_kept hnext, idx_kept hnext]
    exact hline w
  · intro j
    change (s.cache.step i).storedPacket j = (s.cache.step i).dataRAMs
      (s.cache.step i).replaceWay (s.cache.step i).idx (icacheWord (s.cache.step i).pc j)
    rw [replaceWay_kept hnext, idx_kept hnext, hheld.pc]
    have hwrite : s.cache.dataWrite = true := by simp [ICache.dataWrite, hfsm]
    by_cases hnow : s.cache.rspId = icacheWord s.cache.pc j
    · simp [ICache.step, hwrite, hvalid, hnow]
    · have hbefore : icacheWord s.cache.pc j < s.cache.rspId := by
        have hlt := (icacheWord s.cache.pc j).isLt
        have hlines : icacheLineWords = 16 := rfl
        have hne : s.cache.rspId.toNat ≠ (icacheWord s.cache.pc j).toNat := fun heq =>
          hnow (BitVec.eq_of_toNat_eq heq)
        rw [BitVec.lt_def]
        omega
      have hpicked := h.picked hreading j hbefore
      have hram : icacheWord s.cache.pc j ≠ s.cache.rspId := fun heq => hnow heq.symm
      simp only [ICache.step, hnow, and_false, if_false, hram]
      exact hpicked
  · intro w hw
    change w ≠ (s.cache.step i).replaceWay at hw
    change ((s.cache.step i).infoRAM (s.cache.step i).idx).tags w = (s.cache.step i).info.tags w
    rw [replaceWay_kept hnext] at hw
    rw [idx_kept hnext, hheld.info]
    simp [ICache.step, ICache.infoWrite, hfsm, hw]

theorem written_held (h : s.Paths) (hfsm : s.cache.fsm = .finish)
    (hstuck : s.cache.if2Stuck i = true) : (s.step i).Written := by
  have hnext : s.cache.nextFsm i ≠ .stateBoot := by simp [ICache.nextFsm, hfsm, hstuck]
  have hheld := ICache.held_step hstuck
  obtain ⟨hquiet, hlength, hline, hpacket, htags⟩ := h.written hfsm
  have hread : s.reading = false := by simp [reading, hfsm]
  have hbeats : (s.step i).burst.beats = s.burst.beats := by
    simp [step, nextBurst, ICache.arValid, ICache.rFire, ICache.rReady, hfsm]
  have hram : (s.cache.step i).dataRAMs (s.cache.step i).replaceWay (s.cache.step i).idx =
      s.cache.dataRAMs s.cache.replaceWay s.cache.idx := by
    rw [replaceWay_kept hnext, idx_kept hnext, data_step (not_replacing hread)]
  refine ⟨by simp [step, ICache.step, ICache.rFire, ICache.rReady, hfsm], ?_, ?_, ?_, ?_⟩
  · rw [hbeats, hlength]
  · intro w
    change _ = some ((s.cache.step i).dataRAMs (s.cache.step i).replaceWay
      (s.cache.step i).idx w)
    rw [hbeats, hram, hline]
  · intro j
    change (s.cache.step i).storedPacket j = (s.cache.step i).dataRAMs
      (s.cache.step i).replaceWay (s.cache.step i).idx (icacheWord (s.cache.step i).pc j)
    rw [hram, hheld.pc, ← hpacket j]
    simp [ICache.step, hquiet]
  · intro w hw
    change w ≠ (s.cache.step i).replaceWay at hw
    change ((s.cache.step i).infoRAM (s.cache.step i).idx).tags w = (s.cache.step i).info.tags w
    rw [replaceWay_kept hnext] at hw
    rw [idx_kept hnext, hheld.info, ← htags w hw]
    simp [ICache.step, ICache.infoWrite, ICache.reqCommit, hfsm, hstuck]

theorem written_step (h : s.Paths) (hnext : s.cache.nextFsm i = .finish) : (s.step i).Written := by
  cases hfsm : s.cache.fsm with
  | stateBoot => simp only [ICache.nextFsm, hfsm] at hnext; split_ifs at hnext
  | waitAXI => simp only [ICache.nextFsm, hfsm] at hnext; split_ifs at hnext
  | readMem => simp only [ICache.nextFsm, hfsm] at hnext; split_ifs at hnext
  | commit => exact written_commit h hfsm
  | finish =>
    cases hstuck : s.cache.if2Stuck i with
    | true => exact written_held h hfsm hstuck
    | false => simp [ICache.nextFsm, hfsm, hstuck] at hnext

theorem paths_step (h : s.Paths) (hlegal : s.Legal i) : (s.step i).Paths where
  entered hfsm := entered_step h.entered hfsm
  read hfsm hif1 way hvalid := read_step h hfsm hif1 way hvalid
  served hfsm hentry way hvalid j := served_step h hfsm hentry way hvalid j
  known hentry way hvalid := known_step h hentry way hvalid
  received hreading := received_step h.received h.unfinished hreading
  unfinished hfsm := unfinished_step h.unfinished hlegal hfsm
  finished hfsm := finished_step hlegal hfsm
  picked hreading := picked_step h hreading
  written hfsm := written_step h hfsm

end Step

theorem paths_of_reachable {s : ICacheTrace} (h : machine.Reachable s) : s.Paths :=
  Clocked.Machine.invariant (P := Paths) (fun _ => paths_of_init)
    (fun _ _ hs hlegal => paths_step hs hlegal) h

/-! ## From the miss to the packet -/

/-- The translation registers are not changed, and the refill goes on. -/
def Refilling (s : ICacheTrace) (i : Inputs) : Prop :=
  i.nextCSR = s.cache.csr ∧ s.cache.nextFsm i ≠ .stateBoot

variable {s t : ICacheTrace}

theorem held_of_refilling (h : machine.From Refilling s t) :
    s.cache.Held t.cache ∧ t.cache.csr = s.cache.csr := by
  refine h.invariant (P := fun t => s.cache.Held t.cache ∧ t.cache.csr = s.cache.csr)
    ⟨⟨rfl, rfl, rfl, rfl, rfl, rfl, rfl⟩, rfl⟩ ?_
  rintro t i - ⟨hheld, hcsr⟩ - ⟨hkept, hnext⟩
  exact ⟨hheld.trans (ICache.held_step (stuck_of_next hnext).1), hkept.trans hcsr⟩

/-! ## A later fetch -/

/-- No line of the set is being fetched. -/
def Untouched (set : BitVec 6) (s : ICacheTrace) (_ : Inputs) : Prop :=
  ¬(s.reading = true ∧ s.cache.idx = set)

/-- In a set no other way than one has a tag, in the memory as in the copies of it that the
two stages have. -/
structure OnlyIn (set : BitVec 6) (way : Fin 2) (tag : BitVec 20) (s : ICacheTrace) : Prop where
  ram : ∀ w ≠ way, s.cache.valids set w = true → (s.cache.infoRAM set).tags w ≠ tag
  read : s.cache.fsm = .stateBoot → s.cache.if1Valid = true →
    icacheIndex s.cache.regPC = set → ∀ w ≠ way, s.cache.valids set w = true →
      s.cache.infoRsp.tags w ≠ tag
  served : s.cache.if2ValidOnEntry = true → s.cache.idx = set → ∀ w ≠ way,
    s.cache.setValids w = true → s.cache.info.tags w ≠ tag
  replaced : s.cache.fsm = .finish → s.cache.idx = set → s.cache.replaceWay = way

section Later

variable {i : Inputs} {set : BitVec 6} {way : Fin 2} {tag : BitVec 20}

/-- At the end of a refill the fetch still misses in the other way. -/
theorem onlyIn_of_finish (h : s.Paths) (hfsm : s.cache.fsm = .finish)
    (hmiss : s.cache.hit = false) :
    OnlyIn s.cache.idx s.cache.replaceWay s.cache.tag s := by
  have hentry := h.entered (by simp [hfsm])
  have hserved : ∀ w, s.cache.setValids w = true → s.cache.info.tags w ≠ s.cache.tag := by
    intro w hvalid heq
    have hhit : s.cache.hits w = true := by simp [ICache.hits, hvalid, heq]
    have hnot : s.cache.hits 0 = false ∧ s.cache.hits 1 = false := by
      simpa [ICache.hit] using hmiss
    obtain rfl | rfl : w = 0 ∨ w = 1 := by omega
    · rw [hnot.1] at hhit
      cases hhit
    · rw [hnot.2] at hhit
      cases hhit
  refine ⟨?_, ?_, fun _ _ w _ => hserved w, fun _ _ => rfl⟩
  · intro w hw hvalid
    rw [(h.written hfsm).tags w hw]
    exact hserved w ((h.known hentry w hvalid).resolve_right fun hc => hw hc.2)
  · intro hboot
    rw [hfsm] at hboot
    cases hboot

theorem not_commit (hu : Untouched set s i) : ¬(s.cache.fsm = .commit ∧ set = s.cache.idx) :=
  fun hc => hu ⟨by simp [reading, hc.1], hc.2.symm⟩

/-- A valid way of the set was valid before. -/
theorem valids_before (hu : Untouched set s i) {w : Fin 2}
    (hvalid : (s.cache.step i).valids set w = true) : s.cache.valids set w = true :=
  (valids_step hvalid).resolve_left fun hc => not_commit hu ⟨hc.1, hc.2.1⟩

/-- What a hit writes back are the tags that it has read. -/
theorem onlyIn_ram (h : s.Paths) (ho : OnlyIn set way tag s) (hu : Untouched set s i) (w : Fin 2)
    (hw : w ≠ way) (hvalid : (s.cache.step i).valids set w = true) :
    ((s.cache.step i).infoRAM set).tags w ≠ tag := by
  have hold := valids_before hu hvalid
  have hkept := ho.ram w hw hold
  simp only [ICache.step]
  by_cases hset : set = s.cache.idx
  · have hcommit : s.cache.fsm ≠ .commit := fun hc => not_commit hu ⟨hc, hset⟩
    by_cases huse : (s.cache.reqCommit i && s.cache.hit) = true
    · have hentry : s.cache.if2ValidOnEntry = true := by
        simp only [Bool.and_eq_true, ICache.reqCommit, ICache.reqValid] at huse
        exact huse.1.1.1
      rw [if_pos hset]
      simp only [ICache.infoWrite, if_neg hcommit, if_pos huse, Option.getD_some]
      apply ho.served hentry hset.symm w hw
      obtain hvalid | ⟨hfinish, hway⟩ := h.known hentry w (hset ▸ hold)
      · exact hvalid
      · exact absurd (hway.trans (ho.replaced hfinish hset.symm)) hw
    · rw [if_pos hset]
      simpa only [ICache.infoWrite, if_neg hcommit, if_neg huse, Option.getD_none] using hkept
  · rwa [if_neg hset]

theorem onlyIn_step (h : s.Paths) (ho : OnlyIn set way tag s) (hu : Untouched set s i) :
    OnlyIn set way tag (s.step i) where
  ram w hw hvalid := onlyIn_ram h ho hu w hw hvalid
  read hnext hif1 hset w hw hvalid := by
    change icacheIndex (s.cache.step i).regPC = set at hset
    change (s.cache.step i).infoRsp.tags w ≠ tag
    have hold := valids_before hu hvalid
    obtain ⟨hread, haddr⟩ | ⟨hread, hpc, hboot, hwas⟩ := reads_step hnext hif1
    · have hrsp : (s.cache.step i).infoRsp = s.cache.infoRAM set := by
        rw [← hset, ← haddr]
        simp [ICache.step, hread]
      rw [hrsp]
      exact ho.ram w hw hold
    · have hrsp : (s.cache.step i).infoRsp = s.cache.infoRsp := by simp [ICache.step, hread]
      rw [hpc] at hset
      rw [hrsp]
      exact ho.read hboot hwas hset w hw hold
  served hentry hset w hw hvalid := by
    change (s.cache.step i).idx = set at hset
    change (s.cache.step i).setValids w = true at hvalid
    change (s.cache.step i).info.tags w ≠ tag
    cases hstuck : s.cache.if2Stuck i with
    | true =>
      have hheld := ICache.held_step hstuck
      rw [ICache.idx, hheld.pc] at hset
      rw [hheld.setValids] at hvalid
      rw [hheld.info]
      exact ho.served (hheld.if2ValidOnEntry ▸ hentry) hset w hw hvalid
    | false =>
      obtain ⟨hboot, hif1⟩ := boot_of_enters hstuck hentry (fsm_of_not_stuck hstuck)
      have hpc : (s.cache.step i).pc = s.cache.regPC := by simp [ICache.step, hstuck]
      have hinfo : (s.cache.step i).info = s.cache.infoRsp := by simp [ICache.step, hstuck]
      have hold : s.cache.valids (icacheIndex s.cache.regPC) w = true := by
        simpa [ICache.step, hstuck] using hvalid
      rw [ICache.idx, hpc] at hset
      rw [hset] at hold
      rw [hinfo]
      exact ho.read hboot hif1 hset w hw hold
  replaced hnext hset := by
    have hne : s.cache.nextFsm i ≠ .stateBoot := by
      change s.cache.nextFsm i = .finish at hnext
      simp [hnext]
    change (s.cache.step i).idx = set at hset
    change (s.cache.step i).replaceWay = way
    rw [idx_kept hne] at hset
    rw [replaceWay_kept hne]
    apply ho.replaced ?_ hset
    have hcommit : s.cache.fsm ≠ .commit := fun hc => not_commit hu ⟨hc, hset.symm⟩
    change s.cache.nextFsm i = .finish at hnext
    unfold ICache.nextFsm at hnext
    grind

/-- As long as its set is left alone a line keeps its words. -/
theorem onlyIn_of_untouched (hs : machine.Reachable s) (ho : OnlyIn set way tag s)
    (h : machine.From (Untouched set) s t) :
    OnlyIn set way tag t ∧ t.cache.dataRAMs way set = s.cache.dataRAMs way set := by
  refine h.invariant
    (P := fun t => OnlyIn set way tag t ∧ t.cache.dataRAMs way set = s.cache.dataRAMs way set)
    ⟨ho, rfl⟩ ?_
  rintro t i ht ⟨hot, hdata⟩ - hu
  refine ⟨onlyIn_step (paths_of_reachable (ht.reachable hs)) hot hu, ?_⟩
  rw [← hdata]
  exact data_step fun hreplacing => hu ⟨hreplacing.1, hreplacing.2.1.symm⟩

end Later

/-! ## The two paths -/

/-- A fetch that hits is served by the way that has the tag. -/
theorem fetchWord_of_hit (h : t.Paths) {set : BitVec 6} {way : Fin 2} {tag : BitVec 20}
    (ho : OnlyIn set way tag t) (hboot : t.cache.fsm = .stateBoot)
    (hreq : t.cache.reqValid = true) (hset : t.cache.idx = set) (htag : t.cache.tag = tag)
    (hhit : t.cache.hit = true) (j : Fin 4) :
    t.cache.fetchWord j = t.cache.dataRAMs way set (icacheWord t.cache.pc j) := by
  have hentry : t.cache.if2ValidOnEntry = true := by
    simp only [ICache.reqValid, Bool.and_eq_true] at hreq
    exact hreq.1
  have honly : ∀ w, t.cache.hits w = true → w = way := by
    intro w hw
    by_contra hne
    simp only [ICache.hits, Bool.and_eq_true, beq_iff_eq] at hw
    exact ho.served hentry hset w hne hw.1 (hw.2.trans htag)
  have hserves : ∀ w, t.cache.hits w = true →
      t.cache.rsps w j = t.cache.dataRAMs way set (icacheWord t.cache.pc j) := by
    intro w hw
    have hvalid : t.cache.setValids w = true := by
      simp only [ICache.hits, Bool.and_eq_true] at hw
      exact hw.1
    rw [h.served hboot hentry w hvalid j, honly w hw, hset]
  rw [ICache.fetchWord, if_pos hhit]
  split_ifs with h0
  · exact hserves 0 h0
  · rw [ICache.hit, Bool.or_eq_true] at hhit
    exact hserves 1 (hhit.resolve_left h0)

instance (s : ICacheTrace) (i : Inputs) : Decidable (Refilling s i) :=
  inferInstanceAs (Decidable (_ ∧ _))

instance (set : BitVec 6) (s : ICacheTrace) (i : Inputs) : Decidable (Untouched set s i) :=
  inferInstanceAs (Decidable (¬ _))

instance (s : ICacheTrace) (i : Inputs) : Decidable ((machine.restrict Refilling).legal s i) :=
  inferInstanceAs (Decidable (machine.legal s i ∧ Refilling s i))

instance (set : BitVec 6) (s : ICacheTrace) (i : Inputs) :
    Decidable ((machine.restrict (Untouched set)).legal s i) :=
  inferInstanceAs (Decidable (machine.legal s i ∧ Untouched set s i))

/-- The first fetch is of the last two words of a line. -/
def fetchLineEnd : List Inputs :=
  [{ nextPC := 0x1c000038, if1FlushIt := true }, { nextPC := 0x1c000040 }]

/-- The words come back with gaps, and the last one is written. -/
def refillLine : List Inputs :=
  [idle, { arReady := true }] ++
    (beats fun k => BitVec.ofNat 32 (0x100 + k)).flatMap (fun i => [idle, i]) ++ [idle]

/-- The same words are fetched once more. -/
def fetchAgain : List Inputs := [{ nextPC := 0x1c000038, if1FlushIt := true }, idle]

end ICacheTrace

end NopCore
