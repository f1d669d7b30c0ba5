import NopCore.Demo.Capture
import NopCore.Lib.System
import Mathlib.Tactic

/-!
# The upload of a file

`transferPut` sends a command and then the chunks of a file, each up to three times, and
waits for an answer of the board after each of them. The board sends what it likes and when
it likes; the capture reads of it what it likes. The state has all that the board has sent.

A wait looks for a word in the whole buffer, and leaves it there. So it also finds an answer
that has been there before, or a longer one: an acknowledgement of chunk 10 has that of chunk
1 in it. What the transfer returns can be relied on when the first place at which the word
stands, from the beginning of the buffer on, is in a line that has come since.
-/

namespace NopCore

namespace Demo

open Text

/-- Why `transferPut` has raised. -/
inductive PutFailure
  | noReady
  | noAck (seq : Nat)
  | noDone
  deriving DecidableEq, Repr

inductive PutPhase
  | sendPut
  | waitReady
  | sendChunk (seq attempt : Nat)
  | waitAck (seq attempt : Nat)
  | waitDone
  | returned
  | raised (why : PutFailure)
  deriving DecidableEq, Repr

/-- When something has been sent that is to be answered: how much the board had sent by then,
and where the buffer began. -/
structure Wait where
  start : Nat
  mark : Nat
  deriving DecidableEq, Repr

/-- The host and the line from the board. Of `board`, which is all that the board has ever
sent, the first `read` bytes have reached the capture. -/
structure Upload where
  cap : UartCapture
  board : Bytes
  read : Nat
  phase : PutPhase
  written : Bytes
  /-- The call, and the first sending of each chunk. -/
  call : Wait
  acks : List Wait
  deriving DecidableEq, Repr

namespace Upload

inductive Event
  /-- The board sends. -/
  | board (text : Bytes)
  /-- The capture reads at most `n` bytes. -/
  | read (n : Nat)
  /-- The host has sent its line. -/
  | sent
  /-- The host looks at the buffer. When it is late it does not look again. -/
  | poll (late : Bool)
  deriving DecidableEq, Repr

def readyWord : Bytes := ascii ['X', 'R', 'E', 'A', 'D', 'Y', ' ', 'P', 'U', 'T']

def putLine (remote data : Bytes) : Bytes :=
  ascii ['x', 'p', 'u', 't', ' '] ++ remote ++ ascii [' '] ++ decimal data.length ++ ascii [' '] ++
    hex8 (crc32 data)

variable (remote data : Bytes) (u : Upload)

/-- Where the buffer begins in what the board has sent. -/
def start : Nat := u.read - u.cap.tail.length

def now : Wait := ⟨u.start, u.board.length⟩

/-- The chunk that comes next, or the end of the loop. -/
def next (seq : Nat) : PutPhase :=
  if 128 * seq < data.length then .sendChunk seq 0 else .waitDone

def sent : Upload :=
  match u.phase with
  | .sendPut =>
    { u with written := u.written ++ putLine remote data ++ [carriageReturn], phase := .waitReady }
  | .sendChunk seq attempt =>
    { u with
      written := u.written ++ chunkLine data seq ++ [carriageReturn]
      phase := .waitAck seq attempt
      acks := if attempt = 0 then u.acks ++ [u.now] else u.acks }
  | _ => u

def poll (late : Bool) : PutPhase :=
  match u.phase with
  | .waitReady =>
    if u.cap.expect readyWord then next data 0 else if late then .raised .noReady else u.phase
  | .waitAck seq attempt =>
    if u.cap.expect (ackLine seq) then next data (seq + 1)
    else if late then
      if attempt + 1 < 3 then .sendChunk seq (attempt + 1) else .raised (.noAck seq)
    else u.phase
  | .waitDone =>
    if u.cap.expect doneWord then .returned else if late then .raised .noDone else u.phase
  | _ => u.phase

def step : Event → Upload
  | .board text => { u with board := u.board ++ text }
  | .read n =>
    let bytes := (u.board.drop u.read).take n
    { u with cap := u.cap.receive bytes, read := u.read + bytes.length }
  | .sent => u.sent remote data
  | .poll late => { u with phase := u.poll data late }

/-- The call. The buffer has the end of what the board has sent before. -/
structure Init (u : Upload) : Prop where
  tail : u.cap.tail <:+ u.board.take u.read
  read : u.read ≤ u.board.length
  phase : u.phase = .sendPut
  call : u.call = u.now
  acks : u.acks = []

def machine : Clocked.Machine Upload Event where
  init := Init
  legal := fun _ _ => True
  step := step remote data

/-- What a caller may rely on after a return. -/
structure Sound : Prop where
  ready : ∃ q ≥ u.call.mark, OccursAt u.board readyWord q
  acks : ∀ seq, 128 * seq < data.length → ∃ wait, u.acks[seq]? = some wait ∧
    ∃ q ≥ wait.mark, LineAt u.board (ackLine seq) q
  done : ∃ q ≥ u.call.mark, OccursAt u.board doneWord q

/-- The first place of each word that is waited for, from the beginning of the buffer on, is
in what the board has sent since, and an acknowledgement is a line there. -/
structure Clean : Prop where
  ready : ∀ q, FirstFrom u.board readyWord u.call.start q → u.call.mark ≤ q
  acks : ∀ (seq : Nat) (wait : Wait), u.acks[seq]? = some wait →
    ∀ q, FirstFrom u.board (ackLine seq) wait.start q →
      wait.mark ≤ q ∧ LineAt u.board (ackLine seq) q
  done : ∀ q, FirstFrom u.board doneWord u.call.start q → u.call.mark ≤ q

/-! ## What has been found -/

/-- A word that is waited for stands in what has been kept since. -/
def Seen (wait : Wait) (word : Bytes) : Prop :=
  ∃ q, wait.start ≤ q ∧ q ≤ u.board.length ∧ OccursAt u.board word q

/-- The acknowledgements of the first chunks have been seen. -/
def Acked (n : Nat) : Prop :=
  ∀ seq < n, ∃ wait, u.acks[seq]? = some wait ∧ u.Seen wait (ackLine seq)

/-- How far the transfer has come. -/
def Progress : PutPhase → Prop
  | .sendPut => u.acks = []
  | .waitReady => u.acks = []
  | .sendChunk seq attempt => u.Seen u.call readyWord ∧ u.Acked seq ∧
      u.acks.length = if attempt = 0 then seq else seq + 1
  | .waitAck seq _ => u.Seen u.call readyWord ∧ u.Acked seq ∧ u.acks.length = seq + 1
  | .waitDone => u.Seen u.call readyWord ∧ ∀ seq, 128 * seq < data.length → u.Acked (seq + 1)
  | .returned => u.Seen u.call readyWord ∧ (∀ seq, 128 * seq < data.length → u.Acked (seq + 1)) ∧
      u.Seen u.call doneWord
  | .raised _ => True

/-- The buffer has the end of what has been read, no wait began behind it, and the words that
have been waited for have been seen. -/
structure Found : Prop where
  tail : u.cap.tail <:+ u.board.take u.read
  read : u.read ≤ u.board.length
  call : u.call.start ≤ u.start
  acks : ∀ wait ∈ u.acks, wait.start ≤ u.start
  progress : u.Progress data u.phase

variable {remote data u}

theorem Found.of_init (h : u.Init) : u.Found data where
  tail := h.tail
  read := h.read
  call := by
    rw [h.call]
    exact Nat.le_refl _
  acks wait hwait := by
    rw [h.acks] at hwait
    cases hwait
  progress := by
    rw [h.phase]
    exact h.acks

/-- The buffer is the part of the text from `start` on. -/
theorem tail_eq (h : u.Found data) : u.cap.tail = (u.board.take u.read).drop u.start := by
  have hlength : (u.board.take u.read).length = u.read := by
    rw [List.length_take, Nat.min_eq_left h.read]
  have hsuffix := List.suffix_iff_eq_drop.mp h.tail
  rwa [hlength] at hsuffix

/-- A word that a look finds has been seen by every wait. -/
theorem seen_of_expect (h : u.Found data) {wait : Wait} (hwait : wait.start ≤ u.start)
    {word : Bytes} (hfound : u.cap.expect word = true) : u.Seen wait word := by
  obtain ⟨q, hq, hoccurs⟩ := occursAt_of_infix (of_decide_eq_true hfound)
  have hle := List.IsSuffix.length_le h.tail
  rw [List.length_take, Nat.min_eq_left h.read] at hle
  rw [tail_eq h] at hoccurs
  have hread := h.read
  refine ⟨u.start + q, by omega, ?_, hoccurs.of_drop.of_take⟩
  rw [start]
  omega

/-! ## One event -/

/-- What has been seen stays seen while the board sends more. -/
theorem Seen.mono {v : Upload} {wait : Wait} {word : Bytes} (h : u.Seen wait word) {more : Bytes}
    (hboard : v.board = u.board ++ more) : v.Seen wait word := by
  obtain ⟨q, hstart, hq, hoccurs⟩ := h
  refine ⟨q, hstart, ?_, ?_⟩
  · rw [hboard, List.length_append]
    omega
  · rw [hboard]
    exact hoccurs.append hq more

theorem Acked.mono {v : Upload} {n : Nat} (h : u.Acked n) {more : Bytes} {waits : List Wait}
    (hboard : v.board = u.board ++ more) (hacks : v.acks = u.acks ++ waits) : v.Acked n := by
  intro seq hseq
  obtain ⟨wait, hwait, hseen⟩ := h seq hseq
  refine ⟨wait, ?_, hseen.mono hboard⟩
  have hlt := (List.getElem?_eq_some_iff.mp hwait).1
  rw [hacks, List.getElem?_append_left hlt, hwait]

theorem Progress.mono {v : Upload} {phase : PutPhase} (h : u.Progress data phase) {more : Bytes}
    (hboard : v.board = u.board ++ more) (hacks : v.acks = u.acks) (hcall : v.call = u.call) :
    v.Progress data phase := by
  have hseen : ∀ {word}, u.Seen u.call word → v.Seen v.call word := by
    intro word hword
    rw [hcall]
    exact hword.mono hboard
  have hsame : v.acks = u.acks ++ [] := hacks.trans (List.append_nil _).symm
  have hacked : ∀ {n}, u.Acked n → v.Acked n := fun hn => hn.mono hboard hsame
  cases phase with
  | sendPut => exact hacks.trans h
  | waitReady => exact hacks.trans h
  | sendChunk seq attempt => exact ⟨hseen h.1, hacked h.2.1, by rw [hacks]; exact h.2.2⟩
  | waitAck seq attempt => exact ⟨hseen h.1, hacked h.2.1, by rw [hacks]; exact h.2.2⟩
  | waitDone => exact ⟨hseen h.1, fun seq hseq => hacked (h.2 seq hseq)⟩
  | returned => exact ⟨hseen h.1, fun seq hseq => hacked (h.2.1 seq hseq), hseen h.2.2⟩
  | raised why => trivial

theorem Found.board (h : u.Found data) (text : Bytes) :
    ({ u with board := u.board ++ text } : Upload).Found data where
  tail := by
    have hread := h.read
    rw [List.take_append_of_le_length hread]
    exact h.tail
  read := by
    rw [List.length_append]
    exact h.read.trans (Nat.le_add_right _ _)
  call := h.call
  acks := h.acks
  progress := h.progress.mono rfl rfl rfl

/-- The capture reads the next bytes, and the buffer begins where it began or later. -/
theorem Found.readBytes (h : u.Found data) (remote : Bytes) (n : Nat) :
    (u.step remote data (.read n)).Found data := by
  set bytes := (u.board.drop u.read).take n with hbytes
  obtain ⟨cut, hcut⟩ := UartCapture.receive_tail u.cap bytes
  have hlength := List.IsSuffix.length_le h.tail
  have hread := h.read
  rw [List.length_take, Nat.min_eq_left hread] at hlength
  have hlater : u.start ≤ (u.step remote data (.read n)).start := by
    rw [start, start, step]
    dsimp only
    rw [← hbytes, hcut, List.length_drop, List.length_append]
    omega
  refine ⟨?_, ?_, h.call.trans hlater, fun wait hwait => (h.acks wait hwait).trans hlater,
    h.progress.mono (List.append_nil _).symm rfl rfl⟩
  · have htake : u.board.take (u.read + bytes.length) = u.board.take u.read ++ bytes := by
      rw [List.take_add, hbytes, List.length_take, List.length_drop]
      congr 1
      rcases Nat.le_total n (u.board.length - u.read) with hle | hle
      · rw [Nat.min_eq_left hle]
      · rw [Nat.min_eq_right hle, List.take_of_length_le (by simp),
          List.take_of_length_le (by simpa using hle)]
    have htail : (u.step remote data (.read n)).cap.tail = (u.cap.tail ++ bytes).drop cut := hcut
    have hboard : (u.step remote data (.read n)).board.take (u.step remote data (.read n)).read =
        u.board.take u.read ++ bytes := htake
    rw [htail, hboard]
    obtain ⟨front, hfront⟩ := h.tail
    rw [← hfront, List.append_assoc]
    exact (List.drop_suffix _ _).trans (List.suffix_append _ _)
  · rw [step]
    dsimp only
    rw [List.length_take, List.length_drop]
    omega

/-- The first sending of a chunk begins a wait. -/
theorem Found.sent (h : u.Found data) : (u.sent remote data).Found data := by
  have hprogress := h.progress
  cases hphase : u.phase with
  | sendPut =>
    rw [hphase] at hprogress
    rw [Upload.sent, hphase]
    exact ⟨h.tail, h.read, h.call, h.acks, hprogress⟩
  | sendChunk seq attempt =>
    rw [hphase] at hprogress
    obtain ⟨hready, hacked, hlength⟩ := hprogress
    rw [Upload.sent, hphase]
    by_cases hfirst : attempt = 0
    · rw [if_pos hfirst] at hlength
      refine ⟨h.tail, h.read, h.call, ?_, hready, ?_, ?_⟩
      · intro wait hwait
        dsimp only at hwait
        rw [if_pos hfirst] at hwait
        rcases List.mem_append.mp hwait with hold | hnew
        · exact h.acks wait hold
        · rw [List.mem_singleton.mp hnew]
          exact Nat.le_refl _
      · exact hacked.mono (List.append_nil _).symm (if_pos hfirst)
      · dsimp only
        rw [if_pos hfirst, List.length_append, hlength, List.length_singleton]
    · rw [if_neg hfirst] at hlength
      refine ⟨h.tail, h.read, h.call, ?_, hready, ?_, ?_⟩
      · intro wait hwait
        dsimp only at hwait
        rw [if_neg hfirst] at hwait
        exact h.acks wait hwait
      · exact hacked.mono (List.append_nil _).symm
          ((if_neg hfirst).trans (List.append_nil _).symm)
      · dsimp only
        rw [if_neg hfirst, hlength]
  | waitReady | waitAck | waitDone | returned | raised =>
    rw [Upload.sent, hphase]
    exact h

/-- What comes after the acknowledgements of the chunks in front of `seq`. -/
theorem progress_next {seq : Nat} (hready : u.Seen u.call readyWord) (hacked : u.Acked seq)
    (hlength : u.acks.length = seq) : u.Progress data (next data seq) := by
  rw [next]
  split_ifs with hmore
  · exact ⟨hready, hacked, hlength⟩
  · refine ⟨hready, ?_⟩
    intro seq' hseq' k hk
    exact hacked k (by omega)

/-- A look at the buffer moves on only if it finds the word. -/
theorem Found.poll (h : u.Found data) (late : Bool) : u.Progress data (u.poll data late) := by
  have hprogress := h.progress
  cases hphase : u.phase with
  | waitReady =>
    rw [hphase] at hprogress
    rw [Upload.poll, hphase]
    dsimp only
    split_ifs with hfound hlate
    · apply progress_next (seen_of_expect h h.call hfound)
      · intro seq hseq
        cases hseq
      · rw [hprogress, List.length_nil]
    · trivial
    · exact hprogress
  | waitAck seq attempt =>
    rw [hphase] at hprogress
    obtain ⟨hready, hacked, hlength⟩ := hprogress
    rw [Upload.poll, hphase]
    dsimp only
    split_ifs with hfound hlate hagain
    · apply progress_next hready _ hlength
      intro k hk
      rcases Nat.lt_succ_iff_lt_or_eq.mp hk with hlt | rfl
      · exact hacked k hlt
      · have hwait : u.acks[k]? = some u.acks[k] := List.getElem?_eq_getElem (by omega)
        exact ⟨_, hwait, seen_of_expect h (h.acks _ (List.getElem_mem _)) hfound⟩
    · exact ⟨hready, hacked, hlength⟩
    · trivial
    · exact ⟨hready, hacked, hlength⟩
  | waitDone =>
    rw [hphase] at hprogress
    obtain ⟨hready, hacked⟩ := hprogress
    rw [Upload.poll, hphase]
    dsimp only
    split_ifs with hfound hlate
    · exact ⟨hready, hacked, seen_of_expect h h.call hfound⟩
    · trivial
    · exact ⟨hready, hacked⟩
  | sendPut | sendChunk | returned | raised =>
    rw [hphase] at hprogress
    rw [Upload.poll, hphase]
    exact hprogress

theorem Found.of_reachable (h : (machine remote data).Reachable u) : u.Found data := by
  apply Clocked.Machine.invariant (fun u hu => Found.of_init hu) _ h
  intro u event hu _
  cases event with
  | board text => exact hu.board text
  | read n => exact hu.readBytes remote n
  | sent => exact hu.sent
  | poll late => exact ⟨hu.tail, hu.read, hu.call, hu.acks, (hu.poll late).mono
      (List.append_nil _).symm rfl rfl⟩

/-! ## What a return says -/

/-- A word that has been seen has a first place. -/
theorem Seen.first {wait : Wait} {word : Bytes} (h : u.Seen wait word) :
    ∃ q, FirstFrom u.board word wait.start q := by
  obtain ⟨q, hstart, -, hoccurs⟩ := h
  exact exists_firstFrom hstart hoccurs

/-- When the first places are where they should be, a return says what has happened: in every
run, for every file, whatever the buffer has had in it and whatever the board does. -/
theorem transferPut_sound (h : (machine remote data).Reachable u) (hclean : u.Clean)
    (hreturned : u.phase = .returned) : u.Sound data := by
  have hprogress := (Found.of_reachable h).progress
  rw [hreturned] at hprogress
  obtain ⟨hready, hacked, hdone⟩ := hprogress
  refine ⟨?_, ?_, ?_⟩
  · obtain ⟨q, hfirst⟩ := hready.first
    exact ⟨q, hclean.ready q hfirst, hfirst.2.1⟩
  · intro seq hseq
    obtain ⟨wait, hwait, hseen⟩ := hacked seq hseq seq (Nat.lt_succ_self seq)
    obtain ⟨q, hfirst⟩ := hseen.first
    obtain ⟨hmark, hline⟩ := hclean.acks seq wait hwait q hfirst
    exact ⟨wait, hwait, q, hmark, hline⟩
  · obtain ⟨q, hfirst⟩ := hdone.first
    exact ⟨q, hclean.done q hfirst, hfirst.2.1⟩

/-- A board that answers as it should, and a file of one byte. -/
theorem transferPut_sound_oneByte :
    let u := (machine [] [0x41]).run ⟨{}, [], 0, .sendPut, [], ⟨0, 0⟩, []⟩
      [.sent, .board (readyWord ++ [carriageReturn, newline]), .read 512, .poll false, .sent,
        .board (ackLine 0 ++ [carriageReturn, newline]), .read 3, .poll false, .read 512,
        .poll false, .board doneWord, .read 512, .poll false]
    u.Sound [0x41] := by
  intro u
  have hreset : (machine [] [0x41]).Reachable ⟨{}, [], 0, .sendPut, [], ⟨0, 0⟩, []⟩ :=
    .reset ⟨List.suffix_rfl, Nat.le_refl _, rfl, rfl, rfl⟩
  have hreach : (machine [] [0x41]).Reachable u :=
    hreset.run (Clocked.Machine.legal_of_forall (fun _ _ => trivial) _ _)
  have hacks : u.acks = [⟨0, 12⟩] := by decide
  have hfirst : FirstFrom u.board (ackLine 0) 0 12 := by decide
  apply transferPut_sound hreach _ (by decide)
  refine ⟨fun q _ => Nat.zero_le q, ?_, fun q _ => Nat.zero_le q⟩
  intro seq wait hwait q hq
  rw [hacks, List.getElem?_singleton] at hwait
  split_ifs at hwait with hseq
  obtain rfl := hseq
  obtain rfl := Option.some.inj hwait
  obtain rfl := hq.unique hfirst
  decide

/-- The buffer has the answers of an earlier transfer. The call returns, and the board has
not sent anything. -/
theorem transferPut_unsound : ¬ ∀ (remote data : Bytes) (u : Upload),
    (machine remote data).Reachable u → u.phase = .returned → u.Sound data := by
  intro hsound
  let before : Bytes := readyWord ++ [carriageReturn, newline] ++ ackLine 0 ++
    [carriageReturn, newline] ++ doneWord ++ [carriageReturn, newline]
  let start : Upload := ⟨⟨before, 0⟩, before, before.length, .sendPut, [], ⟨0, before.length⟩, []⟩
  let events : List Event := [.sent, .poll false, .sent, .poll false, .poll false]
  have hreset : (machine [] [0x41]).Reachable start := .reset ⟨by decide, by decide, rfl, rfl, rfl⟩
  have hreach := hreset.run (Clocked.Machine.legal_of_forall (fun _ _ => trivial) start events)
  obtain ⟨q, hq, hoccurs⟩ := (hsound [] [0x41] _ hreach (by decide)).done
  have hboard : ((machine [] [0x41]).run start events).board.length ≤ q := hq
  rw [OccursAt, List.drop_eq_nil_of_le hboard] at hoccurs
  exact absurd (List.prefix_nil.mp hoccurs) (by decide)

end Upload

end Demo

end NopCore
