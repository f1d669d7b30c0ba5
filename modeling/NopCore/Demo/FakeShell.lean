import NopCore.Lib.Text
import Mathlib.Data.List.DropRight

/-!
# The shell that stands in for the board

Where the board does not answer, a demonstration goes on with a shell that is to behave as the
one on the board does. It takes a command line as a string and keeps its directory as a text.

A string is the list of the bytes of its encoding.
-/

namespace NopCore

open Text

structure FakeShell where
  cwd : Bytes := [slash]

namespace FakeShell

/-! ## What it prints -/

def banner : Bytes :=
  ascii ['\n', 'T', '2', '6', ' ', 'm', 'i', 'n', 'i', 'm', 'a', 'l', ' ', 's', 'h', 'e', 'l', 'l',
    ' ', '(', 'N', 'O', 'P', '-', 'C', 'o', 'r', 'e', ' ', 'L', 'A', '3', '2', 'R', ')', ' ', '-',
    ' ', 'b', 'u', 'i', 'l', 't', 'i', 'n', ':', ' ', 'h', 'e', 'l', 'p', ' ', 'e', 'c', 'h', 'o',
    ' ', 'u', 'n', 'a', 'm', 'e', ' ', 'l', 's', ' ', 'c', 'a', 't', ' ', 'c', 'd', ' ', 'p', 'w',
    'd', ' ', 'c', 'l', 'e', 'a', 'r', '\n']

def msgHelp : Bytes :=
  ascii ['b', 'u', 'i', 'l', 't', 'i', 'n', ' ', 'c', 'o', 'm', 'm', 'a', 'n', 'd', 's', ':', ' ',
    'h', 'e', 'l', 'p', ' ', 'e', 'c', 'h', 'o', ' ', '<', 't', 'e', 'x', 't', '>', ' ', 'u', 'n',
    'a', 'm', 'e', ' ', 'l', 's', ' ', 'c', 'a', 't', ' ', '<', 'f', 'i', 'l', 'e', '>', ' ', 'c',
    'd', ' ', '<', 'd', 'i', 'r', '>', ' ', 'p', 'w', 'd', ' ', 'c', 'l', 'e', 'a', 'r', ' ', 'r',
    'e', 's', 'e', 't', '\n']

def msgCdfail : Bytes :=
  ascii ['n', 'o', 'p', '-', 's', 'h', ':', ' ', 'c', 'd', ':', ' ', 'c', 'a', 'n', 'n', 'o', 't',
    ' ', 'c', 'd', '\n']

def msgUnknown1 : Bytes := ascii ['n', 'o', 'p', '-', 's', 'h', ':', ' ']

def msgUnknown2 : Bytes :=
  ascii [':', ' ', 'c', 'o', 'm', 'm', 'a', 'n', 'd', ' ', 'n', 'o', 't', ' ', 'f', 'o', 'u', 'n',
    'd', '\n']

def msgCatfail : Bytes :=
  ascii ['n', 'o', 'p', '-', 's', 'h', ':', ' ', 'c', 'a', 't', ':', ' ', 'c', 'a', 'n', 'n', 'o',
    't', ' ', 'o', 'p', 'e', 'n', ' ', 'f', 'i', 'l', 'e', '\n']

def ansiClear : Bytes := [0x1b] ++ ascii ['[', '2', 'J'] ++ [0x1b] ++ ascii ['[', 'H']

def lsRoot : Bytes :=
  ascii ['.', ' ', '.', '.', ' ', 'd', 'e', 'v', ' ', 'p', 'r', 'o', 'c', ' ', 's', 'y', 's', ' ',
    't', 'm', 'p', ' ', 'i', 'n', 'i', 't', ' ', '\n']

def lsDev : Bytes :=
  ascii ['.', ' ', '.', '.', ' ', 'c', 'o', 'n', 's', 'o', 'l', 'e', ' ', 'n', 'u', 'l', 'l', ' ',
    't', 't', 'y', 'S', '0', ' ', '\n']

def lsDot : Bytes := ascii ['.', ' ', '.', '.', ' ', '\n']

def unameOutput : Bytes := ascii ['L', 'i', 'n', 'u', 'x'] ++ List.replicate 60 0

/-- The first bytes of a program. -/
def fakeInitBlob : Bytes :=
  [0x7f] ++ ascii ['E', 'L', 'F'] ++ [1, 1, 1, 0] ++ List.replicate 8 0 ++ [2, 0, 0xf3, 0] ++
    [1, 0, 0, 0] ++ [0, 0x10, 1, 0] ++ List.replicate 24 0

def fakeDirs : List Bytes :=
  [ascii ['/'], ascii ['/', 'd', 'e', 'v'], ascii ['/', 'p', 'r', 'o', 'c'],
    ascii ['/', 's', 'y', 's'], ascii ['/', 't', 'm', 'p']]

def fakeFiles : List (Bytes × Bytes) := [(ascii ['/', 'i', 'n', 'i', 't'], fakeInitBlob)]

/-! ## Commands -/

variable (self : FakeShell)

/-- A segment of a path on the stack of those in front of it. -/
def push (stack : List Bytes) (seg : Bytes) : List Bytes :=
  if seg = [] ∨ seg = ascii ['.'] then stack
  else if seg = ascii ['.', '.'] then if stack ≠ [] then stack.dropLast else stack
  else stack ++ [seg]

def resolve (path : Bytes) : Bytes :=
  let stack :=
    if path.head? = some slash then []
    else if self.cwd ≠ [slash] then (self.cwd.rdropWhile (· = slash)).splitOn slash
    else []
  let stack := (path.splitOn slash).foldl push stack
  if stack ≠ [] then [slash] ++ [slash].intercalate stack else [slash]

def lsFor (d : Bytes) : Bytes :=
  if d = [slash] then lsRoot else if d = ascii ['/', 'd', 'e', 'v'] then lsDev else lsDot

/-- The white space of a printable string is the blank. -/
def isSpace (c : BitVec 8) : Bool := c ∈ [blank, 9, 10, 11, 12, 13, 0x1c, 0x1d, 0x1e, 0x1f]

def strip (s : Bytes) : Bytes := (s.dropWhile isSpace).rdropWhile isSpace

def cd (path : Bytes) : Bytes × FakeShell :=
  if path = [] then (msgCdfail, self)
  else
    let target := self.resolve path
    if target ∈ fakeDirs then ([], { self with cwd := target }) else (msgCdfail, self)

def cat (arg : Bytes) : Bytes :=
  match fakeFiles.lookup arg with
  | some contents => contents ++ [newline]
  | none => if arg ∈ fakeDirs then [newline] else msgCatfail

/-- What is printed, and the shell behind the command. -/
def dispatch (cmd : Bytes) : Bytes × FakeShell :=
  let cmd := cmd.rdropWhile fun c => c = carriageReturn ∨ c = newline
  if cmd = [] then ([], self)
  else if cmd = ascii ['h', 'e', 'l', 'p'] then (msgHelp, self)
  else if ascii ['e', 'c', 'h', 'o'] <+: cmd then (cmd.drop 4 ++ [newline], self)
  else if cmd = ascii ['u', 'n', 'a', 'm', 'e'] then (unameOutput ++ [newline], self)
  else if cmd = ascii ['l', 's'] then (lsFor self.cwd, self)
  else if cmd = ascii ['p', 'w', 'd'] then (self.cwd ++ [newline], self)
  else if cmd = ascii ['c', 'd'] ∨ ascii ['c', 'd', ' '] <+: cmd then self.cd (cmd.drop 3)
  else if cmd = ascii ['c', 'l', 'e', 'a', 'r'] then (ansiClear, self)
  else if cmd = ascii ['r', 'e', 's', 'e', 't'] then (banner, self)
  else if ascii ['c', 'a', 't'] <+: cmd then (cat (strip (cmd.drop 4)), self)
  else (msgUnknown1 ++ cmd ++ msgUnknown2, self)

end FakeShell

end NopCore
