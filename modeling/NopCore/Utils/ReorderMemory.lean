import NopCore.Utils.ReorderCacheRAM
import NopCore.Utils.SDPRAM

/-!
# What a memory in banks is for

A run of words is read and another one is written, from any address on, and each word
written has a mask of its own. `ReorderMemory` is such a memory as its users see it, cycle
by cycle, whatever lies between a request and its answer; `Serves` says that what is read
are the last words written.

Addresses go around at a power of two. `Within` says that the words do too, or that the
word in question is not one behind the last.
-/

universe u

namespace NopCore

/-- How words lie in banks: there is a power of two of banks, and each has equally many. -/
structure BankGeometry where
  wordCount : Nat
  offWidth : Nat
  pos : 0 < wordCount
  banked : wordCount % 2 ^ offWidth = 0

namespace BankGeometry

variable (g : BankGeometry)

def bankCount : Nat := 2 ^ g.offWidth

def addressWidth : Nat := Nat.clog 2 g.wordCount

def wordsPerBank : Nat := g.wordCount / g.bankCount

/-- The rows that the upper part of an address can name. -/
def rows : Nat := 2 ^ (g.addressWidth - g.offWidth)

/-- Word `i` of a run from `address` on is not behind the last one, unless addresses and
words go around together. -/
def Within (address i : Nat) : Prop :=
  address + i < g.wordCount ∨ g.wordsPerBank.isPowerOfTwo

theorem bankCount_pos : 0 < g.bankCount := Nat.two_pow_pos _

theorem bankCount_mul_wordsPerBank : g.bankCount * g.wordsPerBank = g.wordCount :=
  Nat.mul_div_cancel' (Nat.dvd_of_mod_eq_zero g.banked)

theorem wordCount_le : g.wordCount ≤ 2 ^ g.addressWidth := Nat.le_pow_clog Nat.one_lt_two _

theorem offWidth_le : g.offWidth ≤ g.addressWidth := by
  have hbanks : 2 ^ g.offWidth ≤ g.wordCount := Nat.le_of_dvd g.pos
    (Nat.dvd_of_mod_eq_zero g.banked)
  exact (Nat.pow_le_pow_iff_right Nat.one_lt_two).mp (hbanks.trans g.wordCount_le)

theorem bankCount_mul_rows : g.bankCount * g.rows = 2 ^ g.addressWidth := by
  rw [bankCount, rows, ← Nat.pow_add, Nat.add_sub_cancel' g.offWidth_le]

theorem bankCount_le : g.bankCount ≤ 2 ^ g.addressWidth :=
  Nat.pow_le_pow_right Nat.two_pos g.offWidth_le

theorem address_lt (address : Fin (2 ^ g.addressWidth)) :
    (address : Nat) < g.bankCount * g.rows := by
  rw [bankCount_mul_rows]
  exact address.isLt

variable {g}

/-- A word is in a row that its bank has. -/
theorem row_lt {n : Nat} (hn : n < g.wordCount) : n / g.bankCount < g.wordsPerBank := by
  apply Nat.div_lt_of_lt_mul
  rwa [bankCount_mul_wordsPerBank]

theorem lt_space {n : Nat} (hn : n < g.wordCount) : n < g.bankCount * g.rows := by
  rw [bankCount_mul_rows]
  exact hn.trans_le g.wordCount_le

/-- Where the words in a bank are a power of two, addresses go around at the last word. -/
theorem wordCount_eq (h : g.wordsPerBank.isPowerOfTwo) : g.wordCount = 2 ^ g.addressWidth := by
  obtain ⟨k, hk⟩ := h
  have hcount : g.wordCount = 2 ^ (g.offWidth + k) := by
    rw [← g.bankCount_mul_wordsPerBank, hk, bankCount, Nat.pow_add]
  have hwidth : g.addressWidth = g.offWidth + k := by
    rw [addressWidth, hcount, Nat.clog_pow 2 _ Nat.one_lt_two]
  rw [hwidth, hcount]

theorem rows_eq (h : g.wordsPerBank.isPowerOfTwo) : g.rows = g.wordsPerBank := by
  apply Nat.eq_of_mul_eq_mul_left g.bankCount_pos
  rw [bankCount_mul_rows, bankCount_mul_wordsPerBank, wordCount_eq h]

theorem slot_of_within {address i : Nat} (h : g.Within address i) :
    Ring.slot (g.bankCount * g.rows) address i = (address + i) % g.wordCount := by
  rw [bankCount_mul_rows, Ring.slot]
  obtain hlt | hpow := h
  · rw [Nat.mod_eq_of_lt hlt, Nat.mod_eq_of_lt (hlt.trans_le g.wordCount_le)]
  · rw [← wordCount_eq hpow]

/-- The row and the bank that word `j` of a run has are those of the word. -/
theorem place {base j : Nat} (h : g.Within base j) (hj : j < g.bankCount) :
    (base + j) % g.wordCount % g.bankCount = (base % g.bankCount + j) % g.bankCount ∧
      (base + j) % g.wordCount / g.bankCount =
        ReorderCacheRAMOutReg.bankAddress g.bankCount g.rows base
          ((base % g.bankCount + j) % g.bankCount) := by
  rw [← slot_of_within h]
  exact ReorderCacheRAMOutReg.slot_eq g.rows base g.bankCount_pos hj

end BankGeometry

structure RAMWriteCmdWithMask (α : Type u) (addressWidth : Nat) where
  address : Fin (2 ^ addressWidth)
  data : Nat → α
  mask : Nat → Bool

/-- The inputs of a memory in a cycle. -/
structure ReorderCycle (α : Type u) (addressWidth : Nat) where
  readValid : Bool
  readAddress : Fin (2 ^ addressWidth)
  writeValid : Bool
  write : RAMWriteCmdWithMask α addressWidth

namespace ReorderCycle

variable {α : Type u} {addressWidth : Nat}

/-- What a port writes, if anything. -/
def written (ports : Nat) (c : ReorderCycle α addressWidth) (i : Nat) : Option α :=
  if c.writeValid && decide (i < ports) && c.write.mask i then some (c.write.data i) else none

/-- The words after the write of a cycle. -/
def words (wordCount ports : Nat) (c : ReorderCycle α addressWidth) (m : Nat → α) (n : Nat) : α :=
  ((List.range ports).find? fun i =>
    c.writeValid && c.write.mask i && (c.write.address + i) % wordCount == n).elim
      (m n) c.write.data

/-- Every port that writes has its word covered. -/
def Regular (Covers : Nat → Nat → Prop) (ports : Nat) (c : ReorderCycle α addressWidth) : Prop :=
  ∀ i < ports, c.writeValid = true → c.write.mask i = true → Covers c.write.address i

/-- The words that the writes of a run of cycles leave. -/
def lastWritten (wordCount ports : Nat) (m : Nat → α) (cs : List (ReorderCycle α addressWidth)) :
    Nat → α :=
  cs.foldl (fun m c => c.words wordCount ports m) m

variable {ports wordCount i n : Nat} {c : ReorderCycle α addressWidth} {x : α}

theorem written_eq_some :
    c.written ports i = some x ↔
      i < ports ∧ c.writeValid = true ∧ c.write.mask i = true ∧ c.write.data i = x := by
  simp only [written, Option.ite_none_right_eq_some, Bool.and_eq_true, decide_eq_true_eq,
    Option.some.injEq]
  tauto

theorem written_ports (h : ports ≤ i) : c.written ports i = none := by
  rw [written, decide_eq_false (Nat.not_lt.mpr h), Bool.and_false, Bool.false_and,
    if_neg Bool.false_ne_true]

/-- A word that no port with its mask set has is left alone. -/
theorem words_of_masked {m : Nat → α}
    (h : ∀ i < ports, c.writeValid = true → c.write.mask i = true →
      (c.write.address + i) % wordCount ≠ n) :
    c.words wordCount ports m n = m n := by
  have hnone : (List.range ports).find? (fun i =>
      c.writeValid && c.write.mask i && (c.write.address + i) % wordCount == n) = none := by
    apply List.find?_eq_none.mpr
    intro i hi hport
    simp only [Bool.and_eq_true, beq_iff_eq] at hport
    exact h i (List.mem_range.mp hi) hport.1.1 hport.1.2 hport.2
  rw [words, hnone, Option.elim_none]

theorem words_congr {m m' : Nat → α} (h : m n = m' n) :
    c.words wordCount ports m n = c.words wordCount ports m' n := by
  rw [words, words, h]

/-- Each word has a history of its own. -/
theorem lastWritten_congr {m m' : Nat → α} (cs : List (ReorderCycle α addressWidth))
    (h : m n = m' n) : lastWritten wordCount ports m cs n = lastWritten wordCount ports m' cs n := by
  induction cs generalizing m m' with
  | nil => exact h
  | cons c cs ih => exact ih (words_congr h)

section Covered

variable {g : BankGeometry} {c : ReorderCycle α g.addressWidth}

/-- A word is written by the port at its distance from the address. -/
theorem words_eq {m : Nat → α} (hports : ports ≤ g.bankCount) (hn : n < g.wordCount)
    (hc : c.Regular g.Within ports) :
    c.words g.wordCount ports m n =
      (c.written ports (Ring.offset (g.bankCount * g.rows) c.write.address n)).getD (m n) := by
  have haddress := g.address_lt c.write.address
  have hback := Ring.slot_offset haddress (BankGeometry.lt_space hn)
  cases hfind : (List.range ports).find? fun i =>
      c.writeValid && c.write.mask i && (c.write.address + i) % g.wordCount == n with
  | none =>
    have hnone :
        c.written ports (Ring.offset (g.bankCount * g.rows) c.write.address n) = none := by
      apply Option.eq_none_iff_forall_ne_some.mpr
      intro x hx
      obtain ⟨hi, hvalid, hmask, -⟩ := written_eq_some.mp hx
      have hport := List.find?_eq_none.mp hfind _ (List.mem_range.mpr hi)
      apply hport
      rw [hvalid, hmask, ← BankGeometry.slot_of_within (hc _ hi hvalid hmask), hback]
      exact beq_self_eq_true n
    rw [words, hfind, hnone]
    rfl
  | some i =>
    have hport := List.find?_some hfind
    have hi := List.mem_range.mp (List.mem_of_find?_eq_some hfind)
    simp only [Bool.and_eq_true, beq_iff_eq] at hport
    obtain ⟨⟨hvalid, hmask⟩, hword⟩ := hport
    have hoffset : Ring.offset (g.bankCount * g.rows) c.write.address n = i := by
      rw [← hword, ← BankGeometry.slot_of_within (hc i hi hvalid hmask)]
      apply Ring.offset_slot haddress
      rw [g.bankCount_mul_rows]
      exact (hi.trans_le hports).trans_le g.bankCount_le
    rw [words, hfind, hoffset, written_eq_some.mpr ⟨hi, hvalid, hmask, rfl⟩]
    rfl

end Covered

end ReorderCycle

/-- A memory in banks as its users see it. -/
structure ReorderMemory (g : BankGeometry) (α : Type u) where
  State : Type u
  step : State → ReorderCycle α g.addressWidth → State
  rsp : State → Nat → α
  contents : State → Nat → α
  readPorts : Nat
  writePorts : Nat
  writeFirst : Bool
  /-- The answer to a request is there after the request and these cycles. -/
  Answers : List (ReorderCycle α g.addressWidth) → Prop

namespace ReorderMemory

variable {g : BankGeometry} {α : Type u} (memory : ReorderMemory g α)

def run (s : memory.State) (cs : List (ReorderCycle α g.addressWidth)) : memory.State :=
  cs.foldl memory.step s

/-- The cycles whose writes a read gets to see. -/
def seen (before : List (ReorderCycle α g.addressWidth)) (request : ReorderCycle α g.addressWidth) :
    List (ReorderCycle α g.addressWidth) :=
  if memory.writeFirst then before ++ [request] else before

/-- What a memory in banks is for, as far as its words are covered. -/
structure Serves (Covers : Nat → Nat → Prop) : Prop where
  /-- A read gets the last words written. -/
  reads : ∀ (s : memory.State) (before after : List (ReorderCycle α g.addressWidth))
    (request : ReorderCycle α g.addressWidth) (i : Nat),
    request.readValid = true → memory.Answers after →
    (∀ c ∈ memory.seen before request, c.Regular Covers memory.writePorts) →
    i < memory.readPorts → Covers request.readAddress i →
    memory.rsp (memory.run s (before ++ request :: after)) i =
      ReorderCycle.lastWritten g.wordCount memory.writePorts (memory.contents s)
        (memory.seen before request) ((request.readAddress + i) % g.wordCount)
  /-- A word whose mask is clear stays. -/
  masked : ∀ (s : memory.State) (c : ReorderCycle α g.addressWidth) (n : Nat),
    c.Regular Covers memory.writePorts → n < g.wordCount →
    (∀ i < memory.writePorts, c.writeValid = true → c.write.mask i = true →
      (c.write.address + i) % g.wordCount ≠ n) →
    memory.contents (memory.step s c) n = memory.contents s n

/-- What is to be shown of a cycle, and of a request until it is answered. -/
structure StepSpec (Covers : Nat → Nat → Prop) : Prop where
  write : ∀ (s : memory.State) (c : ReorderCycle α g.addressWidth) (n : Nat),
    c.Regular Covers memory.writePorts → n < g.wordCount →
    memory.contents (memory.step s c) n =
      c.words g.wordCount memory.writePorts (memory.contents s) n
  answer : ∀ (s : memory.State) (request : ReorderCycle α g.addressWidth)
    (after : List (ReorderCycle α g.addressWidth)) (i : Nat),
    request.readValid = true → memory.Answers after →
    (∀ c ∈ memory.seen [] request, c.Regular Covers memory.writePorts) →
    i < memory.readPorts → Covers request.readAddress i →
    memory.rsp (memory.run s (request :: after)) i =
      memory.contents (memory.run s (memory.seen [] request))
        ((request.readAddress + i) % g.wordCount)

variable {memory} {Covers : Nat → Nat → Prop}

/-- After any run the words are those that the writes of the run have left. -/
theorem StepSpec.contents_run (h : memory.StepSpec Covers) (s : memory.State)
    {cs : List (ReorderCycle α g.addressWidth)} {n : Nat}
    (hcs : ∀ c ∈ cs, c.Regular Covers memory.writePorts) (hn : n < g.wordCount) :
    memory.contents (memory.run s cs) n =
      ReorderCycle.lastWritten g.wordCount memory.writePorts (memory.contents s) cs n := by
  induction cs generalizing s with
  | nil => rfl
  | cons c cs ih =>
    have hwrite := h.write s c n (hcs c List.mem_cons_self) hn
    have hrest := ih (memory.step s c) fun c hc => hcs c (List.mem_cons_of_mem _ hc)
    exact hrest.trans (ReorderCycle.lastWritten_congr cs hwrite)

theorem seen_append (before : List (ReorderCycle α g.addressWidth))
    (request : ReorderCycle α g.addressWidth) :
    memory.seen before request = before ++ memory.seen [] request := by
  rw [seen, seen]
  cases memory.writeFirst with
  | true => rfl
  | false => exact (List.append_nil before).symm

theorem run_append (s : memory.State) (cs cs' : List (ReorderCycle α g.addressWidth)) :
    memory.run s (cs ++ cs') = memory.run (memory.run s cs) cs' := List.foldl_append

theorem StepSpec.serves (h : memory.StepSpec Covers) : memory.Serves Covers where
  reads s before after request i hvalid hafter hseen hi hcovers := by
    have hlast : ∀ c ∈ memory.seen [] request, c.Regular Covers memory.writePorts := by
      intro c hc
      apply hseen
      rw [seen_append]
      exact List.mem_append_right before hc
    rw [run_append, h.answer _ request after i hvalid hafter hlast hi hcovers, ← run_append,
      ← seen_append]
    exact h.contents_run s hseen (Nat.mod_lt _ g.pos)
  masked s c n hc hn hmasked := (h.write s c n hc hn).trans (ReorderCycle.words_of_masked hmasked)

end ReorderMemory

end NopCore
