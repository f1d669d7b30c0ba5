import NopCore.Lib.ByteMemory
import NopCore.Lib.Paths
import NopCore.Lib.Text
import Mathlib.Data.List.GetD

/-!
# The shell on the board

The first program of the system is a shell in assembly language. It reads a line into a buffer,
cuts its end off, and goes through its commands one by one, by comparisons of whole words or of
the first bytes of the buffer. Most of what it writes is a stretch of its data section, of a
length given by hand.

The buffers are memories of their own: no access goes past the end of one. What is left in a
buffer from an earlier line stays there until it is written over.
-/

namespace NopCore

namespace Shell

open ByteMemory Text

abbrev U32 := BitVec 32

/-- A directory is the names on the way to it. -/
abbrev Dir := List Bytes

/-! ## The data section -/

inductive Label where
  | banner | prompt | newline | space | dot | cmdHelp | cmdEcho | cmdUname | cmdLs | cmdCat
  | cmdClear | cmdReset | msgUnknown | msgUnknown2 | msgCatfail | msgHelp | ansiClear | msgLsroot
  | msgLsdev | msgLsdot | msgCdfail | pathRoot | pathDev | pathProc | pathSys | pathTmp | cmdCd
  | cmdPwd
  deriving DecidableEq, Repr

namespace Label

/-- A text with a zero at its end. -/
def asciz (cs : List Char) : Bytes := ascii cs ++ [0]

def text : Label → Bytes
  | .banner => ascii ['\n', 'T', '2', '6', ' ', 'm', 'i', 'n', 'i', 'm', 'a', 'l', ' ', 's', 'h',
      'e', 'l', 'l', ' ', '(', 'N', 'O', 'P', '-', 'C', 'o', 'r', 'e', ' ', 'L', 'A', '3', '2',
      'R', ')', ' ', '-', ' ', 'b', 'u', 'i', 'l', 't', 'i', 'n', ':', ' ', 'h', 'e', 'l', 'p',
      ' ', 'e', 'c', 'h', 'o', ' ', 'u', 'n', 'a', 'm', 'e', ' ', 'l', 's', ' ', 'c', 'a', 't',
      ' ', 'c', 'd', ' ', 'p', 'w', 'd', ' ', 'c', 'l', 'e', 'a', 'r', '\n']
  | .prompt => ascii ['n', 'o', 'p', '$', ' ']
  | .newline => ascii ['\n']
  | .space => ascii [' ']
  | .dot => asciz ['.']
  | .cmdHelp => asciz ['h', 'e', 'l', 'p']
  | .cmdEcho => asciz ['e', 'c', 'h', 'o']
  | .cmdUname => asciz ['u', 'n', 'a', 'm', 'e']
  | .cmdLs => asciz ['l', 's']
  | .cmdCat => asciz ['c', 'a', 't']
  | .cmdClear => asciz ['c', 'l', 'e', 'a', 'r']
  | .cmdReset => asciz ['r', 'e', 's', 'e', 't']
  | .msgUnknown => ascii ['n', 'o', 'p', '-', 's', 'h', ':', ' ']
  | .msgUnknown2 => ascii [':', ' ', 'c', 'o', 'm', 'm', 'a', 'n', 'd', ' ', 'n', 'o', 't', ' ',
      'f', 'o', 'u', 'n', 'd', '\n']
  | .msgCatfail => ascii ['n', 'o', 'p', '-', 's', 'h', ':', ' ', 'c', 'a', 't', ':', ' ', 'c',
      'a', 'n', 'n', 'o', 't', ' ', 'o', 'p', 'e', 'n', ' ', 'f', 'i', 'l', 'e', '\n']
  | .msgHelp => ascii ['b', 'u', 'i', 'l', 't', 'i', 'n', ' ', 'c', 'o', 'm', 'm', 'a', 'n', 'd',
      's', ':', ' ', 'h', 'e', 'l', 'p', ' ', 'e', 'c', 'h', 'o', ' ', '<', 't', 'e', 'x', 't',
      '>', ' ', 'u', 'n', 'a', 'm', 'e', ' ', 'l', 's', ' ', 'c', 'a', 't', ' ', '<', 'f', 'i',
      'l', 'e', '>', ' ', 'c', 'd', ' ', '<', 'd', 'i', 'r', '>', ' ', 'p', 'w', 'd', ' ', 'c',
      'l', 'e', 'a', 'r', ' ', 'r', 'e', 's', 'e', 't', '\n']
  | .ansiClear => [0x1b] ++ ascii ['[', '2', 'J'] ++ [0x1b] ++ ascii ['[', 'H']
  | .msgLsroot => ascii ['.', ' ', '.', '.', ' ', 'd', 'e', 'v', ' ', 'p', 'r', 'o', 'c', ' ',
      's', 'y', 's', ' ', 't', 'm', 'p', ' ', 'i', 'n', 'i', 't', ' ', '\n']
  | .msgLsdev => ascii ['.', ' ', '.', '.', ' ', 'c', 'o', 'n', 's', 'o', 'l', 'e', ' ', 'n', 'u',
      'l', 'l', ' ', 't', 't', 'y', 'S', '0', ' ', '\n']
  | .msgLsdot => ascii ['.', ' ', '.', '.', ' ', '\n']
  | .msgCdfail => ascii ['n', 'o', 'p', '-', 's', 'h', ':', ' ', 'c', 'd', ':', ' ', 'c', 'a',
      'n', 'n', 'o', 't', ' ', 'c', 'd', '\n']
  | .pathRoot => asciz ['/']
  | .pathDev => asciz ['/', 'd', 'e', 'v']
  | .pathProc => asciz ['/', 'p', 'r', 'o', 'c']
  | .pathSys => asciz ['/', 's', 'y', 's']
  | .pathTmp => asciz ['/', 't', 'm', 'p']
  | .cmdCd => asciz ['c', 'd']
  | .cmdPwd => asciz ['p', 'w', 'd']

/-- The labels in the order of the section. -/
def order : List Label :=
  [.banner, .prompt, .newline, .space, .dot, .cmdHelp, .cmdEcho, .cmdUname, .cmdLs, .cmdCat,
    .cmdClear, .cmdReset, .msgUnknown, .msgUnknown2, .msgCatfail, .msgHelp, .ansiClear, .msgLsroot,
    .msgLsdev, .msgLsdot, .msgCdfail, .pathRoot, .pathDev, .pathProc, .pathSys, .pathTmp, .cmdCd,
    .cmdPwd]

/-- What lies in the section from a label on. -/
def onward (l : Label) : Bytes := (order.dropWhile fun l' => l' ≠ l).flatMap text

end Label

/-- As many bytes are written as is said, from a label on. -/
def write1 (l : Label) (n : Nat) : Bytes := l.onward.take n

/-! ## The system -/

/-- The system calls of the shell. A call that fails has no result. -/
structure Kernel where
  /-- The directory that a path leads to from another one. -/
  chdir : Dir → Bytes → Option Dir
  /-- The text of a directory, if it fits into the buffer. -/
  getcwd : Dir → Option Bytes
  /-- What is written into the buffer of the names of the system. -/
  uname : Bytes
  /-- The bytes of a file that is opened, if it can be read. -/
  openat : Dir → Bytes → Option (Option Bytes)

structure Board where
  buf : ByteMemory 32 := fun _ => 0
  cwdbuf : ByteMemory 32 := fun _ => 0
  unambuf : ByteMemory 32 := fun _ => 0
  cwd : Dir := []

/-- The longest path that the system takes, with its end. -/
def pathMax : Nat := 4096

/-- The difference of the first bytes that are not the same. -/
def strcmp (m : ByteMemory 32) (a0 : U32) : Bytes → U32
  | [] => 0
  | t1 :: a1 =>
    if m a0 ≠ t1 then (m a0).setWidth 32 - t1.setWidth 32
    else if m a0 = 0 then 0
    else strcmp m (a0 + 1) a1

namespace Board

variable (k : Kernel) (b : Board)

def doHelp : Bytes × Board := (write1 .msgHelp 80, b)

def doEcho (s0 : Nat) : Bytes × Board :=
  let t0 : U32 := if b.buf 4 = 32 then 5 else 4
  let s0 : Int := if b.buf 4 = 32 then s0 - 1 else s0
  let a2 := s0 - 4
  ((if a2 < 0 then [] else b.buf.load t0 a2.toNat) ++ write1 .newline 1, b)

def doUname : Bytes × Board :=
  let b := { b with unambuf := b.unambuf.store 0 k.uname }
  (b.unambuf.load 0 65 ++ write1 .newline 1, b)

def doClear : Bytes × Board := (write1 .ansiClear 11, b)

/-- The shell begins again. -/
def doReset : Bytes × Board := (write1 .banner 83, b)

def doCd : Bytes × Board :=
  match (b.buf.cString 3 pathMax).bind (k.chdir b.cwd) with
  | none => (write1 .msgCdfail 22, b)
  | some d => ([], { b with cwd := d })

/-- The text of the directory is put into its buffer. -/
def getcwd : Option Board :=
  (k.getcwd b.cwd).map fun text => { b with cwdbuf := b.cwdbuf.store 0 (text ++ [0]) }

/-- The text is written up to its end. -/
def doPwd : Bytes × Board :=
  match b.getcwd k with
  | none => (write1 .newline 1, b)
  | some b => ((b.cwdbuf.cString 0 256).getD [] ++ write1 .newline 1, b)

/-- Pieces of a file are read into the buffer and written. -/
def catLoop (b : Board) : List Bytes → Bytes × Board
  | [] => ([], b)
  | piece :: rest =>
    let b := { b with buf := b.buf.store 0 piece }
    let (text, b') := catLoop b rest
    (b.buf.load 0 piece.length ++ text, b')

def doCat (s0 : Nat) : Bytes × Board :=
  if (s0 : Int) - 4 < 0 then ([], b)
  else
    match (b.buf.cString 4 pathMax).bind (k.openat b.cwd) with
    | none => (write1 .msgCatfail 30, b)
    | some contents =>
      let (text, b) := catLoop b ((contents.getD []).toChunks 256)
      (text ++ write1 .newline 1, b)

def doLs : Bytes × Board :=
  match b.getcwd k with
  | none => (write1 .msgLsdot 6, b)
  | some b =>
    if strcmp b.cwdbuf 0 Label.pathRoot.onward = 0 then (write1 .msgLsroot 28, b)
    else if strcmp b.cwdbuf 0 Label.pathDev.onward = 0 then (write1 .msgLsdev 25, b)
    -- three more directories are looked for, and are listed as any other one
    else (write1 .msgLsdot 6, b)

def doUnknown (s0 : Nat) : Bytes × Board :=
  (write1 .msgUnknown 8 ++ b.buf.load 0 s0 ++ write1 .msgUnknown2 20, b)

/-- The buffer begins with `echo` and a blank or the end of the line. -/
def IsEcho : Prop := b.buf.rd32 0 = 0x6f686365 ∧ (b.buf 4 = 0 ∨ b.buf 4 = 32)

/-- The buffer begins with `cd` and a blank or the end of the line. -/
def IsCd : Prop := b.buf.rd16 0 = 0x6463 ∧ (b.buf 2 = 0 ∨ b.buf 2 = 32)

instance : Decidable b.IsEcho := inferInstanceAs (Decidable (_ ∧ _))

instance : Decidable b.IsCd := inferInstanceAs (Decidable (_ ∧ _))

/-- The command in the buffer. -/
def execute (s0 : Nat) : Bytes × Board :=
  if strcmp b.buf 0 Label.cmdHelp.onward = 0 then b.doHelp
  else if b.IsEcho then b.doEcho s0
  else if strcmp b.buf 0 Label.cmdUname.onward = 0 then b.doUname k
  else if strcmp b.buf 0 Label.cmdLs.onward = 0 then b.doLs k
  else if strcmp b.buf 0 Label.cmdCat.onward = 0 then b.doCat k s0
  else if b.IsCd then b.doCd k
  else if strcmp b.buf 0 Label.cmdPwd.onward = 0 then b.doPwd k
  else if strcmp b.buf 0 Label.cmdClear.onward = 0 then b.doClear
  else if strcmp b.buf 0 Label.cmdReset.onward = 0 then b.doReset
  else b.doUnknown s0

/-- The newline in front stands for the echo of the line's end. -/
def dispatch (s0 : Nat) : Bytes × Board :=
  if s0 = 0 then ([], b) else ((b.execute k s0).map (write1 .newline 1 ++ ·) id)

/-- The newline and the carriage return at the end of a line are cut off. -/
def strip (buf : ByteMemory 32) : Nat → ByteMemory 32 × Nat
  | 0 => (buf, 0)
  | n + 1 =>
    if buf (BitVec.ofNat 32 n) = 10 ∨ buf (BitVec.ofNat 32 n) = 13 then
      strip (buf.store (BitVec.ofNat 32 n) [0]) n
    else (buf, n + 1)

/-- From one prompt to the next one, with what has been read in between. -/
def mainloop (input : Bytes) : Bytes × Board :=
  let input := input.take 256
  if input = [] then ([], b)
  else
    let (buf, s0) := strip (b.buf.store 0 input) input.length
    dispatch k { b with buf } s0

end Board

/-! ## A line in the buffer -/

/-- The bytes of a line other than those that end it. -/
def Printable (c : BitVec 8) : Prop := 0x20 ≤ c ∧ c ≠ 0x7f

instance : DecidablePred Printable := fun _ => inferInstanceAs (Decidable (_ ∧ _))

/-- A line that fits into what is read at a time, with its end. -/
structure IsLine (line : Bytes) : Prop where
  printable : ∀ c ∈ line, Printable c
  short : line.length < 256

/-- What is read when a line has been typed. -/
def typed (line : Bytes) : Bytes := line ++ [newline]

/-- A line lies at the beginning of a buffer, with a zero at its end. -/
def Holds (m : ByteMemory 32) (line : Bytes) : Prop :=
  ∀ n ≤ line.length, m (BitVec.ofNat 32 n) = line.getD n 0

variable {m : ByteMemory 32} {line s : Bytes}

theorem IsLine.not_mem (hline : IsLine line) {c : BitVec 8} (hc : c < 0x20) : c ∉ line := by
  intro hmem
  exact absurd (hline.printable c hmem).1 (BitVec.not_le.mpr hc)

theorem holds_store (m : ByteMemory 32) (line : Bytes) (hshort : line.length < 2 ^ 32) :
    Holds (m.store 0 (line ++ [0])) line := by
  intro n hn
  have hlength : (line ++ [0]).length = line.length + 1 := by simp
  rw [store_apply (by omega), sub_zero, BitVec.toNat_ofNat, Nat.mod_eq_of_lt (by omega),
    List.getElem?_eq_getElem (by omega), Option.getD_some, List.getElem_append]
  rcases Nat.lt_or_ge n line.length with hlt | hge
  · rw [dif_pos hlt, List.getD_eq_getElem _ _ hlt]
  · rw [dif_neg (by omega), List.getD_eq_default _ _ hge]
    simp

/-- What is behind the line is left as it was. -/
theorem store_behind (m : ByteMemory 32) {n : Nat} (hn : line.length < n) (hshort : n < 2 ^ 32) :
    m.store 0 (line ++ [0]) (BitVec.ofNat 32 n) = m (BitVec.ofNat 32 n) := by
  have hlength : (line ++ [0]).length = line.length + 1 := by simp
  rw [store_apply (by omega), sub_zero, BitVec.toNat_ofNat, Nat.mod_eq_of_lt hshort,
    List.getElem?_eq_none (by omega)]
  rfl

/-- The buffer as the commands find it. -/
def Board.entered (b : Board) (line : Bytes) : Board :=
  { b with buf := b.buf.store 0 (line ++ [0]) }

/-- The end of a typed line is cut off. -/
theorem strip_typed (hline : IsLine line) :
    Board.strip (m.store 0 (typed line)) (typed line).length =
      (m.store 0 (line ++ [0]), line.length) := by
  have hshort := hline.short
  have hlast : m.store 0 (typed line) (BitVec.ofNat 32 line.length) = 10 := by
    rw [typed, store_append, zero_add, store, store, Function.update_self]
    rfl
  have hcut : (m.store 0 (typed line)).store (BitVec.ofNat 32 line.length) [0] =
      m.store 0 (line ++ [0]) := by
    rw [typed, store_append, store_append, zero_add]
    simp only [store, Function.update_idem]
  rw [show (typed line).length = line.length + 1 by simp [typed], Board.strip, if_pos (.inl hlast),
    hcut]
  cases hlength : line.length with
  | zero => rfl
  | succ n =>
    -- the last byte of the line is printable, so nothing more is cut off
    have hbyte := holds_store m line (by omega) n (by omega)
    rw [List.getD_eq_getElem _ _ (by omega)] at hbyte
    have hne (c : BitVec 8) (hc : c < 0x20) : m.store 0 (line ++ [0]) (BitVec.ofNat 32 n) ≠ c := by
      rw [hbyte]
      intro heq
      exact hline.not_mem hc (heq ▸ List.getElem_mem _)
    rw [Board.strip, if_neg (not_or.mpr ⟨hne 10 (by decide), hne 13 (by decide)⟩)]

theorem mainloop_typed (k : Kernel) (b : Board) (hline : IsLine line) :
    b.mainloop k (typed line) = (b.entered line).dispatch k line.length := by
  have hshort := hline.short
  have htake : (typed line).take 256 = typed line := by
    apply List.take_of_length_le
    simp [typed]
    omega
  have hne : typed line ≠ [] := by simp [typed]
  simp only [Board.mainloop, htake, if_neg hne, strip_typed hline]
  rfl

theorem getD_ne_zero (hline : 0 ∉ line) {n : Nat} (hn : n < line.length) : line.getD n 0 ≠ 0 := by
  rw [List.getD_eq_getElem _ _ hn]
  exact fun heq => hline (heq ▸ List.getElem_mem hn)

/-- A comparison from somewhere in the line on finds whether the rest is the word. -/
theorem strcmp_eq_zero (h : Holds m line) (hline : 0 ∉ line) (hs : 0 ∉ s) {n : Nat} (rest : Bytes)
    (hn : n ≤ line.length) :
    strcmp m (BitVec.ofNat 32 n) (s ++ 0 :: rest) = 0 ↔ line.drop n = s := by
  have hdiff (x y : BitVec 8) (hxy : x ≠ y) : x.setWidth 32 - y.setWidth 32 ≠ 0 := by
    intro hzero
    apply hxy
    bv_omega
  induction s generalizing n with
  | nil =>
    rw [List.nil_append, strcmp, h n hn, List.drop_eq_nil_iff]
    by_cases hlt : n < line.length
    · have hne := getD_ne_zero hline hlt
      rw [if_pos hne]
      exact iff_of_false (hdiff _ _ hne) (by omega)
    · rw [List.getD_eq_default _ _ (by omega), if_neg (not_not.mpr rfl), if_pos rfl]
      exact iff_of_true rfl (by omega)
  | cons c s ih =>
    rw [List.mem_cons, not_or] at hs
    rw [List.cons_append, strcmp, h n hn]
    by_cases hlt : n < line.length
    · rw [List.drop_eq_getElem_cons hlt, List.cons.injEq, ← List.getD_eq_getElem _ 0 hlt]
      by_cases hc : line.getD n 0 = c
      · have hrest := ih (n := n + 1) hs.2 hlt
        rw [BitVec.ofNat_add] at hrest
        rw [if_neg (not_not.mpr hc), if_neg (getD_ne_zero hline hlt), and_iff_right hc]
        exact hrest
      · rw [if_pos hc]
        exact iff_of_false (hdiff _ _ hc) fun heq => hc heq.1
    · rw [List.getD_eq_default _ _ (by omega), if_pos hs.1, List.drop_of_length_le (by omega)]
      exact iff_of_false (hdiff _ _ hs.1) (by simp)

/-- The first bytes of the buffer are a word if and only if the line begins with it. -/
theorem Holds.load_eq_iff (h : Holds m line) (hs : 0 ∉ s) :
    m.load 0 s.length = s ↔ s <+: line := by
  rw [ByteMemory.load_eq_iff, List.prefix_iff_getElem?]
  simp only [zero_add]
  constructor
  · intro hbytes n hn
    have hnonzero {j : Nat} (hj : j < s.length) : s[j] ≠ 0 := fun heq =>
      hs (heq ▸ List.getElem_mem hj)
    have hlt : n < line.length := by
      by_contra hge
      -- the end of the line would be a byte of the word
      have hend := hbytes line.length (by omega)
      rw [h _ le_rfl, List.getD_eq_default _ _ le_rfl] at hend
      exact hnonzero (by omega) hend.symm
    have hbyte := hbytes n hn
    rw [h n hlt.le, List.getD_eq_getElem _ _ hlt] at hbyte
    rw [List.getElem?_eq_getElem hlt, hbyte]
  · intro hbegins n hn
    have hbyte := hbegins n hn
    obtain ⟨hlt, heq⟩ := List.getElem?_eq_some_iff.mp hbyte
    rw [h n hlt.le, List.getD_eq_getElem _ _ hlt, heq]

/-- Behind a word that the line begins with, there is the end of the line or its next byte. -/
theorem Holds.next_eq_iff (h : Holds m line) (hline : 0 ∉ line) (hs : s <+: line) :
    (m (BitVec.ofNat 32 s.length) = 0 ↔ line = s) ∧
      ∀ c ≠ 0, m (BitVec.ofNat 32 s.length) = c ↔ s ++ [c] <+: line := by
  obtain ⟨rest, rfl⟩ := hs
  rw [h _ (by simp), List.getD_append_right _ _ _ _ le_rfl, Nat.sub_self]
  cases rest with
  | nil =>
    rw [List.append_nil]
    refine ⟨iff_of_true rfl rfl, fun c hc => iff_of_false hc.symm fun hbegins => ?_⟩
    have hlength := hbegins.length_le
    simp at hlength
  | cons d rest =>
    have hd : d ≠ 0 := by
      rintro rfl
      exact hline (by simp)
    refine ⟨iff_of_false hd (by simp), fun c _ => ?_⟩
    rw [List.prefix_append_right_inj, List.cons_prefix_cons]
    exact ⟨fun heq => ⟨heq.symm, List.nil_prefix⟩, fun heq => heq.1.symm⟩

theorem Holds.load (h : Holds m line) {n j : Nat} (hj : n + j ≤ line.length) :
    m.load (BitVec.ofNat 32 n) j = (line.drop n).take j := by
  apply List.ext_getElem?
  intro i
  rcases Nat.lt_or_ge i j with hi | hi
  · rw [getElem?_load hi, ← BitVec.ofNat_add, h _ (by omega), List.getElem?_take_of_lt hi,
      List.getElem?_drop, List.getElem?_eq_getElem (by omega),
      List.getD_eq_getElem _ _ (by omega)]
  · rw [List.getElem?_eq_none (by rw [length_load]; exact hi),
      List.getElem?_eq_none (by rw [List.length_take]; omega)]

/-- From somewhere in the line on, there is a string up to its end. -/
theorem Holds.cString (h : Holds m line) (hline : 0 ∉ line) {n j : Nat} (hn : n ≤ line.length)
    (hj : line.length - n < j) : m.cString (BitVec.ofNat 32 n) j = some (line.drop n) := by
  apply cString_of_load
  · have hend : m (BitVec.ofNat 32 n + BitVec.ofNat 32 (line.length - n)) = 0 := by
      rw [← BitVec.ofNat_add, Nat.add_sub_of_le hn, h _ le_rfl, List.getD_eq_default _ _ le_rfl]
    have hbytes := h.load (n := n) (j := line.length - n) (by omega)
    rw [List.take_of_length_le (by simp)] at hbytes
    rw [List.length_drop, load_add, hbytes, ByteMemory.load, ByteMemory.load, hend]
  · exact fun hmem => hline (List.mem_of_mem_drop hmem)
  · rw [List.length_drop]
    exact hj

end Shell

end NopCore
