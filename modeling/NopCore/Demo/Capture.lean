import NopCore.Lib.Pattern

/-!
# The capture of the serial line

A thread of the host reads what the board sends and keeps the end of it in a buffer. The
commands of the demonstration look for answers there: `expect` for a word anywhere in the
buffer, `expectLine` for a line behind the position up to which lines have been parsed.
-/

namespace NopCore

namespace Demo

open Text

structure UartCapture where
  tail : Bytes := []
  parsePos : Nat := 0
  deriving DecidableEq, Repr

namespace UartCapture

def maxTail : Nat := 262144

/-- The thread has read some bytes. A buffer that has grown too long is cut to a half. -/
def receive (c : UartCapture) (data : Bytes) : UartCapture :=
  let tail := c.tail ++ data
  if maxTail < tail.length then
    let cut := tail.length - maxTail / 2
    { tail := tail.drop cut, parsePos := c.parsePos - cut }
  else { c with tail }

/-- One look of `expect` at the buffer. -/
def expect (c : UartCapture) (pattern : Bytes) : Bool := decide (pattern <:+: c.tail)

/-- What has not been parsed yet. -/
def unparsed (c : UartCapture) : Bytes := c.tail.drop c.parsePos

/-- One look of `expectLine`. What is in front of the end of the match has been parsed. -/
def expectLine (c : UartCapture) (ps : List Piece) : Option (UartCapture × List Bytes) :=
  (search ps c.unparsed).map fun r =>
    ({ c with parsePos := c.parsePos + (r.1 + r.2.flatten.length) }, r.2)

variable {c : UartCapture} {data : Bytes}

/-- What is kept is the end of what there has been. -/
theorem receive_tail (c : UartCapture) (data : Bytes) :
    ∃ n, (c.receive data).tail = (c.tail ++ data).drop n := by
  by_cases hlong : maxTail < (c.tail ++ data).length
  · exact ⟨(c.tail ++ data).length - maxTail / 2, by rw [receive, if_pos hlong]⟩
  · exact ⟨0, by rw [receive, if_neg hlong, List.drop_zero]⟩

theorem unparsed_advance (n : Nat) :
    ({ c with parsePos := c.parsePos + n } : UartCapture).unparsed = c.unparsed.drop n := by
  rw [unparsed, unparsed, List.drop_drop]

theorem expectLine_of_search {ps : List Piece} {n : Nat} {m : List Bytes}
    (h : search ps c.unparsed = some (n, m)) : c.expectLine ps =
      some ({ c with parsePos := c.parsePos + (n + m.flatten.length) }, m) := by
  rw [expectLine, h]
  rfl

/-- Nothing is lost that has not been parsed, if it is less than what is kept of a buffer
that is cut. -/
theorem receive_unparsed (hpos : c.parsePos ≤ c.tail.length)
    (hfit : c.unparsed.length + data.length ≤ maxTail / 2) :
    (c.receive data).parsePos ≤ (c.receive data).tail.length ∧
      (c.receive data).unparsed = c.unparsed ++ data := by
  have hdrop : (c.tail ++ data).drop c.parsePos = c.unparsed ++ data :=
    List.drop_append_of_le_length hpos
  rw [unparsed, List.length_drop] at hfit
  by_cases hlong : maxTail < (c.tail ++ data).length
  · rw [receive, if_pos hlong, unparsed]
    dsimp only
    rw [List.length_append] at hlong ⊢
    have hcut : c.tail.length + data.length - maxTail / 2 ≤ c.parsePos := by omega
    rw [List.length_drop, List.length_append, List.drop_drop, Nat.add_sub_cancel' hcut]
    exact ⟨by omega, hdrop⟩
  · rw [receive, if_neg hlong, unparsed]
    dsimp only
    rw [List.length_append]
    exact ⟨hpos.trans (Nat.le_add_right _ _), hdrop⟩

end UartCapture

/-- `binascii.crc32` -/
def crc32 (data : Bytes) : BitVec 32 :=
  let shift (c : BitVec 32) : BitVec 32 :=
    if c.getLsbD 0 then (c >>> 1) ^^^ 0xEDB88320 else c >>> 1
  ~~~ data.foldl (fun c b => shift^[8] (c ^^^ b.setWidth 32)) 0xFFFFFFFF

example : crc32 (ascii ['1', '2', '3', '4', '5', '6', '7', '8', '9']) = 0xCBF43926 := by
  decide +kernel

/-- Files are transferred in chunks of 128 bytes. -/
def chunk (data : Bytes) (seq : Nat) : Bytes := (data.drop (128 * seq)).take 128

/-- The line that has a chunk. The board sends the same lines as the host. -/
def chunkLine (data : Bytes) (seq : Nat) : Bytes :=
  ascii ['D', ' '] ++ decimal seq ++ ascii [' '] ++ decimal (chunk data seq).length ++
    ascii [' '] ++ hex8 (crc32 (chunk data seq)) ++ ascii [' '] ++ hex (chunk data seq)

def doneWord : Bytes := ascii ['X', 'D', 'O', 'N', 'E']

def ackLine (seq : Nat) : Bytes := ascii ['A', 'C', 'K', ' '] ++ decimal seq

end Demo

end NopCore
