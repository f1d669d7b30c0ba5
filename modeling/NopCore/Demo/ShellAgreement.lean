import NopCore.Demo.ShellPaths

/-!
# The two shells

The shell that stands in for the board is to print what the board's shell prints, and to end in
the same directory. It does so for a line unless the line is one of these: a file that is to be
printed, which is no command on the board; `echo` with anything behind it; `clear`; `cd` alone
when an earlier line has left a directory in the buffer; and a path to a directory that the two
read in different ways.
-/

namespace NopCore

namespace Shell

open ByteMemory Path Text

def helpWord : Bytes := ascii ['h', 'e', 'l', 'p']

def echoWord : Bytes := ascii ['e', 'c', 'h', 'o']

def unameWord : Bytes := ascii ['u', 'n', 'a', 'm', 'e']

def lsWord : Bytes := ascii ['l', 's']

def catWord : Bytes := ascii ['c', 'a', 't']

def cdWord : Bytes := ascii ['c', 'd']

def pwdWord : Bytes := ascii ['p', 'w', 'd']

def clearWord : Bytes := ascii ['c', 'l', 'e', 'a', 'r']

def resetWord : Bytes := ascii ['r', 'e', 's', 'e', 't']

/-- The newline that stands for the echo of the end of a line. -/
def lineEcho (line : Bytes) : Bytes := if line = [] then [] else [newline]

/-- The shells are in the same directory. -/
def SamePlace (b : Board) (f : FakeShell) : Prop := b.cwd ∈ boardDirs ∧ f.cwd = pathText b.cwd

/-- The shells print the same for a line, apart from its echo, and are in the same directory
behind it. -/
def SameStep (k : Kernel) (b : Board) (f : FakeShell) (line : Bytes) : Prop :=
  (b.mainloop k (typed line)).1 = lineEcho line ++ (f.dispatch line).1 ∧
    (f.dispatch line).2.cwd = pathText (b.mainloop k (typed line)).2.cwd

instance (k : Kernel) (b : Board) (f : FakeShell) (line : Bytes) :
    Decidable (SameStep k b f line) :=
  inferInstanceAs (Decidable (_ ∧ _))

/-- The line is none that the shells take in different ways. -/
def Alike (b : Board) (line : Bytes) : Prop :=
  ¬catWord <+: line ∧ line ≠ clearWord ∧ (echoWord <+: line → line = echoWord) ∧
    (line = cdWord → ∀ path ∈ b.buf.cString 3 pathMax, path ≠ [] → ¬Reaches b.cwd path) ∧
    (cdWord ++ [blank] <+: line → line.drop 3 ≠ [] →
      (Reaches b.cwd (line.drop 3) ↔ Finds b.cwd (line.drop 3)))

variable {k : Kernel} {b : Board} {f : FakeShell} {line : Bytes} {m : ByteMemory 32}

/-! ## The commands of the board -/

/-- The line is a command with its arguments or without. -/
def IsCommand (w line : Bytes) : Prop := line = w ∨ w ++ [blank] <+: line

instance (w line : Bytes) : Decidable (IsCommand w line) := inferInstanceAs (Decidable (_ ∨ _))

theorem IsCommand.begins {w : Bytes} (h : IsCommand w line) : w <+: line := by
  rcases h with rfl | hblank
  · exact List.prefix_rfl
  · exact (List.prefix_append _ _).trans hblank

theorem strcmp_label (h : Holds m line) (hline : 0 ∉ line) {l : Label} {w : Bytes}
    (hl : w ++ [0] <+: l.onward) (hw : 0 ∉ w) : strcmp m 0 l.onward = 0 ↔ line = w := by
  obtain ⟨rest, hrest⟩ := hl
  have hzero := strcmp_eq_zero h hline hw (n := 0) rest (Nat.zero_le _)
  rw [← hrest, List.append_assoc]
  exact hzero

/-- A command is found by its first bytes and the one behind them. -/
theorem isCommand_iff (h : Holds m line) (hline : 0 ∉ line) {w : Bytes} (hw : 0 ∉ w) :
    m.load 0 w.length = w ∧
        (m (BitVec.ofNat 32 w.length) = 0 ∨ m (BitVec.ofNat 32 w.length) = 32) ↔
      IsCommand w line := by
  rw [h.load_eq_iff hw, IsCommand]
  constructor
  · rintro ⟨hbegins, hnext⟩
    obtain ⟨hend, hblank⟩ := h.next_eq_iff hline hbegins
    exact hnext.imp hend.mp (hblank 32 (by decide)).mp
  · intro hcommand
    have hbegins : w <+: line := IsCommand.begins hcommand
    obtain ⟨hend, hblank⟩ := h.next_eq_iff hline hbegins
    exact ⟨hbegins, hcommand.imp hend.mpr (hblank 32 (by decide)).mpr⟩

theorem isEcho_iff (h : Holds b.buf line) (hline : 0 ∉ line) :
    b.IsEcho ↔ IsCommand echoWord line := by
  have hword : wordBytes 0x6f686365 = echoWord := by decide
  rw [Board.IsEcho, rd32_eq_iff, hword]
  exact isCommand_iff h hline (w := echoWord) (by decide)

theorem isCd_iff (h : Holds b.buf line) (hline : 0 ∉ line) : b.IsCd ↔ IsCommand cdWord line := by
  have hword : [(0x6463 : BitVec 16).setWidth 8, ((0x6463 : BitVec 16) >>> 8).setWidth 8] =
      cdWord := by
    decide
  rw [Board.IsCd, rd16_eq_iff, hword]
  exact isCommand_iff h hline (w := cdWord) (by decide)

theorem execute_eq {n : Nat} (h : Holds b.buf line) (hline : 0 ∉ line) :
    b.execute k n =
      if line = helpWord then b.doHelp
      else if IsCommand echoWord line then b.doEcho n
      else if line = unameWord then b.doUname k
      else if line = lsWord then b.doLs k
      else if line = catWord then b.doCat k n
      else if IsCommand cdWord line then b.doCd k
      else if line = pwdWord then b.doPwd k
      else if line = clearWord then b.doClear
      else if line = resetWord then b.doReset
      else b.doUnknown n := by
  have hcmp {l : Label} {w : Bytes} (hl : w ++ [0] <+: l.onward) (hw : 0 ∉ w) :
      strcmp b.buf 0 l.onward = 0 ↔ line = w := strcmp_label h hline hl hw
  have hhelp := hcmp (l := .cmdHelp) (w := helpWord) (by decide) (by decide)
  have huname := hcmp (l := .cmdUname) (w := unameWord) (by decide) (by decide)
  have hls := hcmp (l := .cmdLs) (w := lsWord) (by decide) (by decide)
  have hcat := hcmp (l := .cmdCat) (w := catWord) (by decide) (by decide)
  have hpwd := hcmp (l := .cmdPwd) (w := pwdWord) (by decide) (by decide)
  have hclear := hcmp (l := .cmdClear) (w := clearWord) (by decide) (by decide)
  have hreset := hcmp (l := .cmdReset) (w := resetWord) (by decide) (by decide)
  simp only [Board.execute, hhelp, isEcho_iff h hline, huname, hls, hcat, isCd_iff h hline, hpwd,
    hclear, hreset]

/-! ## What is printed -/

theorem holds_entered (hline : IsLine line) : Holds (b.entered line).buf line :=
  holds_store b.buf line (hline.short.trans (by decide))

theorem IsLine.nul (hline : IsLine line) : 0 ∉ line := hline.not_mem (by decide)

theorem doUnknown_eq (h : Holds b.buf line) :
    b.doUnknown line.length = (FakeShell.msgUnknown1 ++ line ++ FakeShell.msgUnknown2, b) := by
  have hfront : write1 .msgUnknown 8 = FakeShell.msgUnknown1 := by decide
  have hback : write1 .msgUnknown2 20 = FakeShell.msgUnknown2 := by decide
  have hload := h.load (n := 0) (j := line.length) (by omega)
  rw [List.drop_zero, List.take_length] at hload
  rw [Board.doUnknown, hfront, hback]
  exact congrArg (fun text => (FakeShell.msgUnknown1 ++ text ++ FakeShell.msgUnknown2, b)) hload

/-- What is behind `echo` and a blank is printed. -/
theorem doEcho_eq (h : Holds b.buf line) (hline : 0 ∉ line) (hcommand : IsCommand echoWord line) :
    b.doEcho line.length = (line.drop 5 ++ [newline], b) := by
  have hnewline : write1 .newline 1 = [newline] := by decide
  have hbegins : echoWord <+: line := IsCommand.begins hcommand
  obtain ⟨hend, hblank⟩ := h.next_eq_iff hline hbegins
  have hbyte : b.buf 4 = 32 ↔ echoWord ++ [blank] <+: line := hblank 32 (by decide)
  have hlength : 4 ≤ line.length := hbegins.length_le
  rw [Board.doEcho, hnewline]
  rcases hcommand with rfl | hargs
  · have hnot : ¬b.buf 4 = 32 := fun heq => absurd (hbyte.mp heq) (by decide)
    simp only [if_neg hnot]
    rfl
  · have hlength' : 5 ≤ line.length := hargs.length_le
    have ha2 : ((line.length : Int) - 1 - 4).toNat = line.length - 5 := by omega
    have hload := h.load (n := 5) (j := line.length - 5) (by omega)
    rw [List.take_of_length_le (by rw [List.length_drop])] at hload
    simp only [if_pos (hbyte.mpr hargs)]
    rw [if_neg (by omega), ha2]
    exact congrArg (fun text => (text ++ [newline], b)) hload

/-- What the two shells answer. -/
def SameAnswer (board : Bytes × Board) (fake : Bytes × FakeShell) : Prop :=
  board.1 = fake.1 ∧ fake.2.cwd = pathText board.2.cwd

theorem sameStep_iff (hline : IsLine line) (hne : line ≠ []) :
    SameStep k b f line ↔
      SameAnswer ((b.entered line).execute k line.length) (f.dispatch line) := by
  have hnewline : write1 .newline 1 = [newline] := by decide
  have hlength : line.length ≠ 0 := fun h => hne (List.eq_nil_of_length_eq_zero h)
  rw [SameStep, mainloop_typed k b hline, Board.dispatch, if_neg hlength, lineEcho, if_neg hne,
    SameAnswer, hnewline]
  exact and_congr_left' (List.append_cancel_left_eq _ _ _).to_iff

theorem fake_dispatch (hline : IsLine line) (hne : line ≠ []) :
    f.dispatch line =
      if line = helpWord then (FakeShell.msgHelp, f)
      else if echoWord <+: line then (line.drop 4 ++ [newline], f)
      else if line = unameWord then (FakeShell.unameOutput ++ [newline], f)
      else if line = lsWord then (FakeShell.lsFor f.cwd, f)
      else if line = pwdWord then (f.cwd ++ [newline], f)
      else if IsCommand cdWord line then f.cd (line.drop 3)
      else if line = clearWord then (FakeShell.ansiClear, f)
      else if line = resetWord then (FakeShell.banner, f)
      else if catWord <+: line then (FakeShell.cat (FakeShell.strip (line.drop 4)), f)
      else (FakeShell.msgUnknown1 ++ line ++ FakeShell.msgUnknown2, f) := by
  have hcut : (line.rdropWhile fun c => c = carriageReturn ∨ c = newline) = line := by
    rw [List.rdropWhile_eq_self_iff]
    intro hnil
    have hmem := List.getLast_mem hnil
    have hcr : line.getLast hnil ≠ carriageReturn := fun heq =>
      hline.not_mem (c := carriageReturn) (by decide) (heq ▸ hmem)
    have hnl : line.getLast hnil ≠ newline := fun heq =>
      hline.not_mem (c := newline) (by decide) (heq ▸ hmem)
    simp [hcr, hnl]
  rw [FakeShell.dispatch]
  simp only [hcut, if_neg hne]
  rfl

/-- A line that begins with one of two words which do not begin with each other does not begin
with the other one. -/
theorem not_begins {v w : Bytes} (hv : v <+: line) (hvw : ¬v <+: w) (hwv : ¬w <+: v) :
    ¬w <+: line := by
  intro hw
  rcases Nat.le_total v.length w.length with hle | hle
  · exact hvw (List.prefix_of_prefix_length_le hv hw hle)
  · exact hwv (List.prefix_of_prefix_length_le hw hv hle)

theorem ne_of_begins {v w : Bytes} (hv : v <+: line) (hvw : ¬v <+: w) : line ≠ w := by
  rintro rfl
  exact hvw hv

/-- `echo` prints the blank in front of its argument in one of the shells only, and with another
byte it is no command on the board. -/
theorem answer_echo (hs : SamePlace b f) (hline : IsLine line) (hecho : echoWord <+: line) :
    SameAnswer ((b.entered line).execute k line.length) (f.dispatch line) ↔ line = echoWord := by
  have hne : line ≠ [] := ne_of_begins hecho (by decide)
  have hhelp : line ≠ helpWord := ne_of_begins hecho (by decide)
  have hcd : ¬IsCommand cdWord line := fun h =>
    not_begins hecho (by decide) (by decide) (IsCommand.begins h)
  have hholds := holds_entered (b := b) hline
  have hplace : f.cwd = pathText (b.entered line).cwd := hs.2
  have hlength : 4 ≤ line.length := hecho.length_le
  rw [execute_eq hholds hline.nul, fake_dispatch hline hne, if_neg hhelp, if_neg hhelp,
    if_pos hecho]
  by_cases hcommand : IsCommand echoWord line
  · rw [if_pos hcommand, doEcho_eq hholds hline.nul hcommand, SameAnswer, and_iff_left hplace,
      List.append_cancel_right_eq]
    constructor
    · intro hdrop
      have hlengths := congrArg List.length hdrop
      rw [List.length_drop, List.length_drop] at hlengths
      exact (hecho.eq_of_length (by change 4 = _; omega)).symm
    · rintro rfl
      rfl
  · rw [if_neg hcommand, if_neg (ne_of_begins hecho (by decide)),
      if_neg (ne_of_begins hecho (by decide)), if_neg (ne_of_begins hecho (by decide)),
      if_neg hcd, if_neg (ne_of_begins hecho (by decide)), if_neg (ne_of_begins hecho (by decide)),
      if_neg (ne_of_begins hecho (by decide)), doUnknown_eq hholds]
    refine iff_of_false (fun hsame => ?_) fun heq => hcommand (.inl heq)
    have hlengths := congrArg List.length hsame.1
    have hfront : FakeShell.msgUnknown1.length = 8 := rfl
    have hback : FakeShell.msgUnknown2.length = 20 := rfl
    simp only [List.length_append, List.length_drop, List.length_singleton, hfront, hback]
      at hlengths
    omega

/-- What is printed for a file has another first byte than a message, or is the message that
there is no such file. -/
theorem cat_cases (arg : Bytes) : FakeShell.cat arg = FakeShell.msgCatfail ∨
    (FakeShell.cat arg).head? ≠ FakeShell.msgUnknown1.head? := by
  have hfiles : ∀ file ∈ FakeShell.fakeFiles,
      (file.2 ++ [newline]).head? ≠ FakeShell.msgUnknown1.head? := by decide
  rw [FakeShell.cat]
  cases hlookup : FakeShell.fakeFiles.lookup arg with
  | some contents =>
    obtain ⟨before, after, hmem, _⟩ := List.lookup_eq_some_iff.mp hlookup
    exact .inr (hfiles (arg, contents) (by rw [hmem]; simp))
  | none =>
    change (if _ then _ else _) = _ ∨ _
    split_ifs
    · exact .inr (by decide)
    · exact .inl rfl

/-- No file is printed on the board. -/
theorem answer_cat (hline : IsLine line) (hcat : catWord <+: line) :
    ¬SameAnswer ((b.entered line).execute k line.length) (f.dispatch line) := by
  have hne : line ≠ [] := ne_of_begins hcat (by decide)
  have hecho : ¬echoWord <+: line := not_begins hcat (by decide) (by decide)
  have hecho' : ¬IsCommand echoWord line := fun h => hecho (IsCommand.begins h)
  have hcd : ¬IsCommand cdWord line := fun h =>
    not_begins hcat (by decide) (by decide) (IsCommand.begins h)
  have hword {w : Bytes} (hw : ¬catWord <+: w) : line ≠ w := ne_of_begins hcat hw
  have hholds := holds_entered (b := b) hline
  have hlength : 3 ≤ line.length := hcat.length_le
  have hfake : f.dispatch line = (FakeShell.cat (FakeShell.strip (line.drop 4)), f) := by
    rw [fake_dispatch hline hne, if_neg (hword (by decide)), if_neg hecho,
      if_neg (hword (by decide)), if_neg (hword (by decide)), if_neg (hword (by decide)),
      if_neg hcd, if_neg (hword (by decide)), if_neg (hword (by decide)), if_pos hcat]
  rw [execute_eq hholds hline.nul, hfake, if_neg (hword (by decide)), if_neg hecho',
    if_neg (hword (by decide)), if_neg (hword (by decide))]
  by_cases halone : line = catWord
  · subst halone
    intro hsame
    have htext : ([] : Bytes) = FakeShell.cat (FakeShell.strip (catWord.drop 4)) := hsame.1
    exact absurd htext (by decide)
  · rw [if_neg halone, if_neg hcd, if_neg (hword (by decide)), if_neg (hword (by decide)),
      if_neg (hword (by decide)), doUnknown_eq hholds]
    intro hsame
    have htext : FakeShell.msgUnknown1 ++ line ++ FakeShell.msgUnknown2 =
        FakeShell.cat (FakeShell.strip (line.drop 4)) := hsame.1
    rcases cat_cases (FakeShell.strip (line.drop 4)) with hfail | hhead
    · rw [hfail] at htext
      have hlengths := congrArg List.length htext
      have hfront : FakeShell.msgUnknown1.length = 8 := rfl
      have hback : FakeShell.msgUnknown2.length = 20 := rfl
      have hmessage : FakeShell.msgCatfail.length = 30 := rfl
      simp only [List.length_append, hfront, hback, hmessage] at hlengths
      omega
    · rw [← htext] at hhead
      exact hhead rfl

/-! ## Directories -/

theorem doCd_eq {path : Bytes} (hk : k.Serves) (hdir : b.cwd ∈ boardDirs)
    (hpath : b.buf.cString 3 pathMax = some path) :
    b.doCd k =
      if path ≠ [] ∧ Reaches b.cwd path then ([], { b with cwd := lead b.cwd path })
      else (FakeShell.msgCdfail, b) := by
  have hmessage : write1 .msgCdfail 22 = FakeShell.msgCdfail := by decide
  rw [Board.doCd, hpath, Option.bind_some, hmessage]
  by_cases hnil : path = []
  · rw [hk.chdir _ hdir, if_pos hnil, if_neg fun h => h.1 hnil]
  · rw [hk.chdir_eq hdir hnil]
    simp only [ne_eq, hnil, not_false_eq_true, true_and]
    split_ifs <;> rfl

/-- What is behind a line of two bytes is left in the buffer. -/
theorem cString_entered (hlength : line.length = 2) :
    (b.entered line).buf.cString 3 pathMax = b.buf.cString 3 pathMax := by
  apply cString_congr
  intro n hn
  rw [show (3 : U32) = BitVec.ofNat 32 3 from rfl, ← BitVec.ofNat_add]
  apply store_behind
  · omega
  · rw [pathMax] at hn
    omega

/-- `cd` alone takes what an earlier line has left in the buffer. -/
theorem answer_cd (hk : k.Serves) (hs : SamePlace b f) :
    SameAnswer ((b.entered cdWord).execute k cdWord.length) (f.dispatch cdWord) ↔
      ∀ path ∈ b.buf.cString 3 pathMax, path ≠ [] → ¬Reaches b.cwd path := by
  have hline : IsLine cdWord := ⟨by decide, by decide⟩
  have hfake : f.dispatch cdWord = (FakeShell.msgCdfail, f) := by
    rw [fake_dispatch hline (by decide)]
    rfl
  have hboard : (b.entered cdWord).execute k cdWord.length = (b.entered cdWord).doCd k := by
    rw [execute_eq (holds_entered hline) hline.nul]
    rfl
  have hpath : (b.entered cdWord).buf.cString 3 pathMax = b.buf.cString 3 pathMax :=
    cString_entered rfl
  rw [hfake, hboard, SameAnswer]
  cases hrest : b.buf.cString 3 pathMax with
  | none =>
    rw [Board.doCd, hpath, hrest]
    have hmessage : write1 .msgCdfail 22 = FakeShell.msgCdfail := by decide
    exact iff_of_true ⟨hmessage, hs.2⟩ fun path hmem => by cases hmem
  | some path =>
    have hdir : (b.entered cdWord).cwd ∈ boardDirs := hs.1
    rw [doCd_eq hk hdir (hpath.trans hrest)]
    simp only [Option.mem_some_iff, forall_eq']
    split_ifs with hfound
    · have hne : ([] : Bytes) ≠ FakeShell.msgCdfail := by decide
      exact iff_of_false (fun hsame => hne hsame.1) fun hnone => hnone hfound.1 hfound.2
    · exact iff_of_true ⟨rfl, hs.2⟩ fun hne hreaches => hfound ⟨hne, hreaches⟩

/-- A path is taken in the same way if the board reaches a directory just where the other shell
finds one. -/
theorem answer_cdPath (hk : k.Serves) (hs : SamePlace b f) (hline : IsLine line)
    (hcd : cdWord ++ [blank] <+: line) :
    SameAnswer ((b.entered line).execute k line.length) (f.dispatch line) ↔
      (line.drop 3 ≠ [] → (Reaches b.cwd (line.drop 3) ↔ Finds b.cwd (line.drop 3))) := by
  have hne : line ≠ [] := ne_of_begins hcd (by decide)
  have hword {w : Bytes} (hw : ¬cdWord ++ [blank] <+: w) : line ≠ w := ne_of_begins hcd hw
  have hecho : ¬echoWord <+: line := not_begins hcd (by decide) (by decide)
  have hecho' : ¬IsCommand echoWord line := fun h => hecho (IsCommand.begins h)
  have hholds := holds_entered (b := b) hline
  have hlength : 3 ≤ line.length := hcd.length_le
  have hshort := hline.short
  have hfake : f.dispatch line = f.cd (line.drop 3) := by
    rw [fake_dispatch hline hne, if_neg (hword (by decide)), if_neg hecho,
      if_neg (hword (by decide)), if_neg (hword (by decide)), if_neg (hword (by decide)),
      if_pos (.inr hcd)]
  have hboard : (b.entered line).execute k line.length = (b.entered line).doCd k := by
    rw [execute_eq hholds hline.nul, if_neg (hword (by decide)), if_neg hecho',
      if_neg (hword (by decide)), if_neg (hword (by decide)), if_neg (hword (by decide)),
      if_pos (.inr hcd)]
  have hdir : (b.entered line).cwd ∈ boardDirs := hs.1
  have hpath : (b.entered line).buf.cString 3 pathMax = some (line.drop 3) :=
    hholds.cString hline.nul hlength (by rw [pathMax]; omega)
  have hmessage : ([] : Bytes) ≠ FakeShell.msgCdfail := by decide
  rw [hfake, hboard, doCd_eq hk hdir hpath, FakeShell.cd, SameAnswer]
  by_cases hnil : line.drop 3 = []
  · rw [if_neg fun h => h.1 hnil, if_pos hnil]
    exact iff_of_true ⟨rfl, hs.2⟩ fun h => absurd hnil h
  · rw [if_neg hnil]
    simp only [resolve_mem_iff hs.1 hs.2]
    have hreaches : (b.entered line).cwd = b.cwd := rfl
    rw [hreaches]
    by_cases hboth : Reaches b.cwd (line.drop 3)
    · rw [if_pos ⟨hnil, hboth⟩]
      by_cases hfinds : Finds b.cwd (line.drop 3)
      · rw [if_pos hfinds]
        exact iff_of_true ⟨rfl, resolve_of_finds hs.1 hs.2 hfinds⟩
          fun _ => iff_of_true hboth hfinds
      · rw [if_neg hfinds]
        exact iff_of_false (fun hsame => hmessage hsame.1)
          fun hiff => hfinds ((hiff hnil).mp hboth)
    · rw [if_neg fun h => hboth h.2]
      by_cases hfinds : Finds b.cwd (line.drop 3)
      · rw [if_pos hfinds]
        exact iff_of_false (fun hsame => hmessage hsame.1.symm)
          fun hiff => hboth ((hiff hnil).mpr hfinds)
      · rw [if_neg hfinds]
        exact iff_of_true ⟨rfl, hs.2⟩ fun _ => iff_of_false hboth hfinds

/-! ## The other commands -/

theorem doUname_eq (hk : k.Serves) : (b.doUname k).1 = FakeShell.unameOutput ++ [newline] := by
  have hnewline : write1 .newline 1 = [newline] := by decide
  have hlength := hk.uname
  rw [Board.doUname, hnewline]
  dsimp only
  rw [load_store (by omega) (by omega), hk.sysname]
  rfl

/-- The text of the directory is in its buffer. -/
theorem getcwd_eq (hk : k.Serves) (hdir : b.cwd ∈ boardDirs) : b.getcwd k =
    some { b with cwdbuf := b.cwdbuf.store 0 (pathText b.cwd ++ [0]) } := by
  rw [Board.getcwd, hk.getcwd _ hdir]
  rfl

theorem pathText_mem : ∀ d ∈ boardDirs, 0 ∉ pathText d ∧ (pathText d).length < 256 := by decide

theorem doPwd_eq (hk : k.Serves) (hdir : b.cwd ∈ boardDirs) :
    (b.doPwd k).1 = pathText b.cwd ++ [newline] ∧ (b.doPwd k).2.cwd = b.cwd := by
  have hnewline : write1 .newline 1 = [newline] := by decide
  obtain ⟨hnul, hshort⟩ := pathText_mem _ hdir
  have htext := (holds_store b.cwdbuf (pathText b.cwd) (by omega)).cString hnul (n := 0) (j := 256)
    (Nat.zero_le _) (by omega)
  have htext' : (b.cwdbuf.store 0 (pathText b.cwd ++ [0])).cString 0 256 = some (pathText b.cwd) :=
    htext
  rw [Board.doPwd, getcwd_eq hk hdir, hnewline]
  dsimp only
  rw [htext']
  exact ⟨rfl, rfl⟩

theorem doLs_eq (hk : k.Serves) (hdir : b.cwd ∈ boardDirs) :
    (b.doLs k).1 = FakeShell.lsFor (pathText b.cwd) ∧ (b.doLs k).2.cwd = b.cwd := by
  obtain ⟨hnul, hshort⟩ := pathText_mem _ hdir
  have hholds := holds_store b.cwdbuf (pathText b.cwd) (by omega)
  have hroot := strcmp_label hholds hnul (l := .pathRoot) (w := [slash]) (by decide) (by decide)
  have hdev := strcmp_label hholds hnul (l := .pathDev) (w := ascii ['/', 'd', 'e', 'v'])
    (by decide) (by decide)
  have hlsRoot : write1 .msgLsroot 28 = FakeShell.lsRoot := by decide
  have hlsDev : write1 .msgLsdev 25 = FakeShell.lsDev := by decide
  have hlsDot : write1 .msgLsdot 6 = FakeShell.lsDot := by decide
  rw [Board.doLs, getcwd_eq hk hdir, FakeShell.lsFor]
  simp only [hroot, hdev, hlsRoot, hlsDev, hlsDot]
  split_ifs <;> exact ⟨rfl, rfl⟩

theorem answer_other (hk : k.Serves) (hs : SamePlace b f) (hline : IsLine line) (hne : line ≠ [])
    (hecho : ¬echoWord <+: line) (hcat : ¬catWord <+: line) (hcd : ¬IsCommand cdWord line) :
    SameAnswer ((b.entered line).execute k line.length) (f.dispatch line) ↔ line ≠ clearWord := by
  have hecho' : ¬IsCommand echoWord line := fun h => hecho (IsCommand.begins h)
  have hcat' : line ≠ catWord := fun h => hcat (h ▸ List.prefix_rfl)
  have hholds := holds_entered (b := b) hline
  have hdir : (b.entered line).cwd ∈ boardDirs := hs.1
  have hplace : f.cwd = pathText (b.entered line).cwd := hs.2
  rw [execute_eq hholds hline.nul, fake_dispatch hline hne]
  simp only [if_neg hecho, if_neg hecho', if_neg hcat, if_neg hcat', if_neg hcd]
  by_cases hhelp : line = helpWord
  · have htext : write1 .msgHelp 80 = FakeShell.msgHelp := by decide
    rw [if_pos hhelp, if_pos hhelp]
    exact iff_of_true ⟨htext, hplace⟩ (by rw [hhelp]; decide)
  rw [if_neg hhelp, if_neg hhelp]
  by_cases huname : line = unameWord
  · rw [if_pos huname, if_pos huname]
    exact iff_of_true ⟨doUname_eq hk, hplace⟩ (by rw [huname]; decide)
  rw [if_neg huname, if_neg huname]
  by_cases hls : line = lsWord
  · obtain ⟨htext, hcwd⟩ := doLs_eq hk hdir
    rw [if_pos hls, if_pos hls, SameAnswer, htext, hcwd, hplace]
    exact iff_of_true ⟨rfl, rfl⟩ (by rw [hls]; decide)
  rw [if_neg hls, if_neg hls]
  by_cases hpwd : line = pwdWord
  · obtain ⟨htext, hcwd⟩ := doPwd_eq hk hdir
    rw [if_pos hpwd, if_pos hpwd, SameAnswer, htext, hcwd, hplace]
    exact iff_of_true ⟨rfl, rfl⟩ (by rw [hpwd]; decide)
  rw [if_neg hpwd, if_neg hpwd]
  by_cases hclear : line = clearWord
  · -- four bytes of the next text are written too
    have htext : write1 .ansiClear 11 ≠ FakeShell.ansiClear := by decide
    rw [if_pos hclear, if_pos hclear]
    exact iff_of_false (fun hsame => htext hsame.1) (not_not.mpr hclear)
  rw [if_neg hclear, if_neg hclear]
  by_cases hreset : line = resetWord
  · have htext : write1 .banner 83 = FakeShell.banner := by decide
    rw [if_pos hreset, if_pos hreset]
    exact iff_of_true ⟨htext, hplace⟩ hclear
  rw [if_neg hreset, if_neg hreset, doUnknown_eq hholds]
  exact iff_of_true ⟨rfl, hplace⟩ hclear

/-! ## One line -/

/-- The shells answer a line in the same way if and only if it is none of those that they take
differently. -/
theorem sameStep_iff_alike (hk : k.Serves) (hs : SamePlace b f) (hline : IsLine line) :
    SameStep k b f line ↔ Alike b line := by
  by_cases hne : line = []
  · subst hne
    have hboard : b.mainloop k (typed []) = ([], b.entered []) := mainloop_typed k b hline
    have hfake : f.dispatch [] = ([], f) := rfl
    rw [SameStep, hboard, hfake]
    refine iff_of_true ⟨rfl, hs.2⟩ ⟨by decide, by decide, by decide, ?_, ?_⟩
    · exact fun h => absurd h (by decide)
    · exact fun h => absurd h (by decide)
  rw [sameStep_iff hline hne, Alike]
  by_cases hecho : echoWord <+: line
  · have hcat : ¬catWord <+: line := not_begins hecho (by decide) (by decide)
    have hclear : line ≠ clearWord := ne_of_begins hecho (by decide)
    have hcd : line ≠ cdWord := ne_of_begins hecho (by decide)
    have hcdPath : ¬cdWord ++ [blank] <+: line := not_begins hecho (by decide) (by decide)
    simp only [answer_echo hs hline hecho, hcat, hclear, hcd, hcdPath, hecho, ne_eq,
      not_false_eq_true, true_and, forall_true_left, false_implies, and_true]
  by_cases hcat : catWord <+: line
  · exact iff_of_false (answer_cat hline hcat) fun halike => halike.1 hcat
  by_cases hcd : line = cdWord
  · subst hcd
    have hclear : cdWord ≠ clearWord := by decide
    have hcdPath : ¬cdWord ++ [blank] <+: cdWord := by decide
    simp only [answer_cd hk hs, hcat, hclear, hecho, hcdPath, ne_eq, not_false_eq_true, true_and,
      forall_true_left, false_implies, and_true]
  by_cases hcdPath : cdWord ++ [blank] <+: line
  · have hclear : line ≠ clearWord := ne_of_begins hcdPath (by decide)
    simp only [answer_cdPath hk hs hline hcdPath, hcat, hclear, hecho, hcd, hcdPath, ne_eq,
      not_false_eq_true, true_and, forall_true_left, false_implies]
  · have hcommand : ¬IsCommand cdWord line := not_or.mpr ⟨hcd, hcdPath⟩
    simp only [answer_other hk hs hline hne hecho hcat hcommand, hcat, hecho, hcd, hcdPath,
      not_false_eq_true, true_and, false_implies, and_true]

/-! ## Runs -/

/-- The shells answer one line after the other in the same way. -/
def SameRun (k : Kernel) : Board → FakeShell → List Bytes → Prop
  | _, _, [] => True
  | b, f, line :: lines => SameStep k b f line ∧
      SameRun k (b.mainloop k (typed line)).2 (f.dispatch line).2 lines

/-- No line of a run is one that the shells take in different ways. -/
def AlikeRun (k : Kernel) : Board → List Bytes → Prop
  | _, [] => True
  | b, line :: lines => Alike b line ∧ AlikeRun k (b.mainloop k (typed line)).2 lines

theorem catLoop_cwd (pieces : List Bytes) : (b.catLoop pieces).2.cwd = b.cwd := by
  induction pieces generalizing b with
  | nil => rfl
  | cons piece pieces ih => exact ih

theorem doCd_cwd (hk : k.Serves) (hdir : b.cwd ∈ boardDirs) : (b.doCd k).2.cwd ∈ boardDirs := by
  cases hpath : b.buf.cString 3 pathMax with
  | none =>
    rw [Board.doCd, hpath]
    exact hdir
  | some path =>
    rw [doCd_eq hk hdir hpath]
    split_ifs with hfound
    · exact hfound.2.mem
    · exact hdir

theorem doCat_cwd {n : Nat} : (b.doCat k n).2.cwd = b.cwd := by
  rw [Board.doCat]
  split_ifs
  · rfl
  · cases (b.buf.cString 4 pathMax).bind (k.openat b.cwd) with
    | none => rfl
    | some contents => exact catLoop_cwd _

/-- The board stays in a directory that there is. -/
theorem execute_cwd {n : Nat} (hk : k.Serves) (hdir : b.cwd ∈ boardDirs) :
    (b.execute k n).2.cwd ∈ boardDirs := by
  rw [Board.execute]
  split_ifs
  · exact hdir
  · exact hdir
  · exact hdir
  · rw [(doLs_eq hk hdir).2]
    exact hdir
  · rw [doCat_cwd]
    exact hdir
  · exact doCd_cwd hk hdir
  · rw [(doPwd_eq hk hdir).2]
    exact hdir
  · exact hdir
  · exact hdir
  · exact hdir

theorem mainloop_cwd (hk : k.Serves) (hdir : b.cwd ∈ boardDirs) (hline : IsLine line) :
    (b.mainloop k (typed line)).2.cwd ∈ boardDirs := by
  rw [mainloop_typed k b hline, Board.dispatch]
  split_ifs
  · exact hdir
  · exact execute_cwd hk hdir

theorem sameRun_iff (hk : k.Serves) {lines : List Bytes} (hs : SamePlace b f)
    (hlines : ∀ line ∈ lines, IsLine line) : SameRun k b f lines ↔ AlikeRun k b lines := by
  induction lines generalizing b f with
  | nil => exact Iff.rfl
  | cons line lines ih =>
    obtain ⟨hline, hrest⟩ := List.forall_mem_cons.mp hlines
    rw [SameRun, AlikeRun, ← sameStep_iff_alike hk hs hline]
    exact and_congr_right fun hsame => ih ⟨mainloop_cwd hk hs.1 hline, hsame.2⟩ hrest

/-- For every line, in every directory and whatever has been left in the buffers, and for every
run from the beginning. -/
theorem fakeShell_sameAsBoard (hk : k.Serves) :
    (∀ b f line, SamePlace b f → IsLine line → (SameStep k b f line ↔ Alike b line)) ∧
      ∀ lines : List Bytes, (∀ line ∈ lines, IsLine line) →
        (SameRun k {} {} lines ↔ AlikeRun k {} lines) := by
  refine ⟨fun b f line hs hline => sameStep_iff_alike hk hs hline, fun lines hlines => ?_⟩
  exact sameRun_iff hk ⟨by decide, by decide⟩ hlines

/-- A system with the directories and nothing else that can be opened. -/
def boardKernel : Kernel where
  chdir d path :=
    if path = [] then none else walk (· ∈ boardDirs) (origin d path) (segments path)
  getcwd d := if d ∈ boardDirs then some (pathText d) else none
  uname := ascii ['L', 'i', 'n', 'u', 'x'] ++ List.replicate 385 0
  openat _ _ := none

theorem boardKernel_serves : boardKernel.Serves where
  chdir := fun _ _ _ => rfl
  getcwd := fun _ hd => if_pos hd
  uname := by decide +kernel
  sysname := by decide

/-- The blank in front of an argument of `echo` is printed in one of the shells only. -/
theorem fakeShell_echo :
    ¬SameStep boardKernel {} {} (ascii ['e', 'c', 'h', 'o', ' ', 'h', 'i']) := by
  decide +kernel

theorem fakeShell_cdAndBack :
    SameRun boardKernel {} {}
      [ascii ['c', 'd', ' ', 'd', 'e', 'v'], lsWord, ascii ['c', 'd', ' ', '.', '.'], pwdWord] := by
  apply ((fakeShell_sameAsBoard boardKernel_serves).2 _ ?_).mpr
  · refine ⟨⟨by decide, by decide, by decide, fun h => absurd h (by decide), ?_⟩,
      ⟨by decide, by decide, by decide, fun h => absurd h (by decide), ?_⟩,
      ⟨by decide, by decide, by decide, fun h => absurd h (by decide), ?_⟩,
      ⟨by decide, by decide, by decide, fun h => absurd h (by decide), ?_⟩, trivial⟩
    · exact fun _ _ => by decide +kernel
    · exact fun h => absurd h (by decide)
    · exact fun _ _ => by decide +kernel
    · exact fun h => absurd h (by decide)
  · intro line hmem
    simp only [List.mem_cons, List.not_mem_nil, or_false] at hmem
    rcases hmem with rfl | rfl | rfl | rfl
    all_goals exact ⟨by decide, by decide⟩

end Shell

end NopCore
