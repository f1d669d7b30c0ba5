import NopCore.Demo.Capture
import NopCore.Lib.System
import Mathlib.Tactic

/-!
# The download of a file

The board answers the command with a line about the file and with the first chunk, and each
acknowledgement with the next chunk or with a last line. It may echo what the host sends.
`transferGet` looks for one line after the other in what has not been parsed yet.

How the capture cuts the text and when the host looks is left open. The pattern of a chunk has
no end, so a look at a line that has come up to the middle of its digits takes what is there
for the whole. This is the one thing that may not happen; then the file comes as it is.
-/

namespace NopCore

namespace Demo

open Text

/-- Why `transferGet` has raised. `notHex` is the error of the conversion. -/
inductive GetFailure
  | noMeta
  | noLine
  | badSeq
  | notHex
  | badChunk
  | noDone
  | badFile
  deriving DecidableEq, Repr

inductive GetPhase
  | waitMeta
  | waitLine
  | waitDone
  | returned
  | raised (why : GetFailure)
  deriving DecidableEq, Repr

/-- The host and the board. `wire` is what the board has sent and the capture has not read,
and `looks` counts how often the host has looked when this was nothing. -/
structure Download where
  cap : UartCapture
  wire : Bytes
  boardNext : Nat
  phase : GetPhase
  size : Nat
  crc : Nat
  data : Bytes
  seq : Nat
  /-- What has been written to the local file. -/
  written : Option Bytes
  looks : Nat
  deriving DecidableEq, Repr

namespace Download

inductive Event
  /-- The capture reads at most `n` bytes. -/
  | read (n : Nat)
  /-- The host looks at the buffer. When it is late it does not look again. -/
  | poll (late : Bool)
  deriving DecidableEq, Repr

def reXmeta : List Piece :=
  [.word (ascii ['X', 'M', 'E', 'T', 'A', ' ']), .oneOrMore isDigit, .word (ascii [' ']),
    .times isHex 8]

def reDline : List Piece :=
  [.word (ascii ['D', ' ']), .oneOrMore isDigit, .word (ascii [' ']), .oneOrMore isDigit,
    .word (ascii [' ']), .times isHex 8, .word (ascii [' ']), .oneOrMore isHex]

/-! ## The board -/

def lineEnd : Bytes := [carriageReturn, newline]

def getLine (remote : Bytes) : Bytes := ascii ['x', 'g', 'e', 't', ' '] ++ remote

variable (file remote : Bytes) (echoes : Bool)

def echo (line : Bytes) : Bytes := if echoes then line ++ lineEnd else []

def metaLine : Bytes :=
  ascii ['X', 'M', 'E', 'T', 'A', ' '] ++ decimal file.length ++ ascii [' '] ++ hex8 (crc32 file)

/-- The chunk with a number, or the last line and a prompt. -/
def reply (seq : Nat) : Bytes :=
  if 128 * seq < file.length then chunkLine file seq ++ lineEnd
  else doneWord ++ lineEnd ++ ascii ['$', ' ']

/-! ## The host -/

variable (t : Download)

/-- The head of the loop. -/
def loop (length size : Nat) : GetPhase := if length < size then .waitLine else .waitDone

/-- The host has got a line with a chunk, and acknowledges it. -/
def accept (m : List Bytes) : Download :=
  if readDecimal (m.getD 1 []) ≠ t.seq then { t with phase := .raised .badSeq }
  else
    match fromHex (m.getD 7 []) with
    | none => { t with phase := .raised .notHex }
    | some chunk =>
      if chunk.length ≠ readDecimal (m.getD 3 []) ∨ (crc32 chunk).toNat ≠ readHex (m.getD 5 []) then
        { t with phase := .raised .badChunk }
      else
        { t with
          data := t.data ++ chunk
          seq := t.seq + 1
          phase := loop (t.data ++ chunk).length t.size
          wire := t.wire ++ echo echoes (ackLine t.seq) ++ reply file t.boardNext
          boardNext := t.boardNext + 1 }

def finish : Download :=
  if t.data.length ≠ t.size ∨ (crc32 t.data).toNat ≠ t.crc then
    { t with phase := .raised .badFile }
  else { t with phase := .returned, written := some t.data }

def poll (late : Bool) : Download :=
  match t.phase with
  | .waitMeta =>
    match t.cap.expectLine reXmeta with
    | some (cap, m) =>
      { t with
        cap
        size := readDecimal (m.getD 1 [])
        crc := readHex (m.getD 3 [])
        phase := loop 0 (readDecimal (m.getD 1 [])) }
    | none => if late then { t with phase := .raised .noMeta } else t
  | .waitLine =>
    match t.cap.expectLine reDline with
    | some (cap, m) => accept file echoes { t with cap } m
    | none => if late then { t with phase := .raised .noLine } else t
  | .waitDone =>
    if t.cap.expect doneWord then t.finish
    else if late then { t with phase := .raised .noDone } else t
  | _ => t

def step : Event → Download
  | .read n => { t with cap := t.cap.receive (t.wire.take n), wire := t.wire.drop n }
  | .poll late =>
    { t.poll file echoes late with looks := t.looks + if t.wire = [] then 1 else 0 }

/-- The command has been sent, and everything before has been parsed. A path has no end of a
line in it. -/
structure Init (t : Download) : Prop where
  path : newline ∉ remote
  pos : t.cap.parsePos = t.cap.tail.length
  wire : t.wire = echo echoes (getLine remote) ++ metaLine file ++ lineEnd ++ reply file 0
  boardNext : t.boardNext = 1
  phase : t.phase = .waitMeta
  data : t.data = []
  seq : t.seq = 0
  looks : t.looks = 0

/-- What has come of the line that is waited for ends within its digits: the line is the last
that the board has sent, and more of it than its end is still to come, but not all digits. -/
def CutInHex : Prop :=
  t.phase = .waitLine ∧ lineEnd.length < t.wire.length ∧
    t.wire.length < lineEnd.length + (hex (chunk file t.seq)).length

/-- The text comes in time, and the buffer is not cut where it has not been parsed. -/
def InTime : Event → Prop
  | .read n => t.cap.unparsed.length + (t.wire.take n).length ≤ UartCapture.maxTail / 2
  | .poll late => late = true → t.wire = []

/-- No look comes while the line is cut within its digits. -/
def Uncut : Event → Prop
  | .read _ => True
  | .poll _ => ¬ t.CutInHex file

instance : Decidable (t.CutInHex file) := inferInstanceAs (Decidable (_ ∧ _ ∧ _))

instance (event : Event) : Decidable (t.InTime event) :=
  match event with
  | .read _ => inferInstanceAs (Decidable (_ ≤ _))
  | .poll _ => inferInstanceAs (Decidable (_ → _))

instance (event : Event) : Decidable (t.Uncut file event) :=
  match event with
  | .read _ => inferInstanceAs (Decidable True)
  | .poll _ => inferInstanceAs (Decidable (¬ _))

def machine : Clocked.Machine Download Event where
  init := Init file remote echoes
  legal := fun _ _ => True
  step := step file echoes

instance (event : Event) : Decidable ((machine file remote echoes).legal t event) :=
  inferInstanceAs (Decidable True)

/-! ## What a look finds -/

section Search

variable {file remote : Bytes} {echoes : Bool} {lead rest region : Bytes} {seq : Nat}

/-- A search passes over lines that begin otherwise, and does not find anything before it has
come to their end. -/
theorem search_lead {c : BitVec 8} {w : Bytes} {ps : List Piece} (hskips : Skips c true lead)
    (hstart : startAfter true lead = true) (h : region <+: lead ++ rest) :
    search (.word (c :: w) :: ps) region =
      if lead.length ≤ region.length then
        (search (.word (c :: w) :: ps) (region.drop lead.length)).map
          fun r => (r.1 + lead.length, r.2)
      else none := by
  split_ifs with hle
  · have hbegins : lead <+: region :=
      List.prefix_of_prefix_length_le (List.prefix_append _ _) h hle
    have hregion : region = lead ++ region.drop lead.length :=
      (List.prefix_iff_eq_append.mp hbegins).symm
    conv_lhs => rw [search, hregion, searchFrom_append hskips, hstart]
    rfl
  · have htake : region = lead.take region.length := by
      have hbegins : region <+: lead :=
        List.prefix_of_prefix_length_le h (List.prefix_append _ _) (Nat.le_of_not_le hle)
      exact List.prefix_iff_eq_take.mp hbegins
    rw [search, htake, searchFrom_eq_none (hskips.take _)]

theorem newline_not_mem_decimal (n : Nat) : newline ∉ decimal n := by
  intro hmem
  have hdigit := isDigit_of_mem_decimal hmem
  revert hdigit
  decide

theorem newline_not_mem_hex (data : Bytes) : newline ∉ hex data := by
  intro hmem
  have hhex := isHex_of_mem_hex hmem
  revert hhex
  decide

/-- The line about the file, as the pieces of its pattern. -/
theorem matchAt_metaLine (file rest : Bytes) : matchAt reXmeta (metaLine file ++ rest) =
    some [ascii ['X', 'M', 'E', 'T', 'A', ' '], decimal file.length, ascii [' '],
      hex8 (crc32 file)] := by
  rw [reXmeta, metaLine, List.append_assoc, List.append_assoc, List.append_assoc, matchAt_word]
  rw [show ascii [' '] = [0x20] from rfl,
    matchAt_oneOrMore_word (b := 0x20) (fun b hb => isDigit_of_mem_decimal hb) (decimal_ne_nil _)
      (by decide) rfl]
  rw [matchAt_word, matchAt_times (length_hex8 _) (fun b hb => isHex_of_mem_hex hb), matchAt]
  rfl

/-- A line with a chunk up to its digits. -/
def header (file : Bytes) (seq : Nat) : Bytes :=
  ascii ['D', ' '] ++ decimal seq ++ ascii [' '] ++ decimal (chunk file seq).length ++
    ascii [' '] ++ hex8 (crc32 (chunk file seq)) ++ ascii [' ']

def pieces (file : Bytes) (seq k : Nat) : List Bytes :=
  [ascii ['D', ' '], decimal seq, ascii [' '], decimal (chunk file seq).length, ascii [' '],
    hex8 (crc32 (chunk file seq)), ascii [' '], (hex (chunk file seq)).take k]

/-- The pattern takes as many digits as there are. -/
theorem matchAt_header {k : Nat} (hk : 0 < k) (hchunk : chunk file seq ≠ [])
    (hrest : ∀ b ∈ rest.head?, isHex b = false) :
    matchAt reDline (header file seq ++ ((hex (chunk file seq)).take k ++ rest)) =
      some (pieces file seq k) := by
  have hdigits : (hex (chunk file seq)).take k ≠ [] := by
    rw [← List.length_pos_iff, List.length_take, length_hex]
    have hpos := List.length_pos_iff.mpr hchunk
    omega
  rw [reDline, header, List.append_assoc, List.append_assoc, List.append_assoc, List.append_assoc,
    List.append_assoc, List.append_assoc, matchAt_word]
  rw [show ascii [' '] = [0x20] from rfl,
    matchAt_oneOrMore_word (b := 0x20) (fun b hb => isDigit_of_mem_decimal hb) (decimal_ne_nil _)
      (by decide) rfl]
  rw [matchAt_word,
    matchAt_oneOrMore_word (b := 0x20) (fun b hb => isDigit_of_mem_decimal hb) (decimal_ne_nil _)
      (by decide) rfl]
  rw [matchAt_word, matchAt_times (length_hex8 _) (fun b hb => isHex_of_mem_hex hb), matchAt_word,
    matchAt_oneOrMore_last (fun b hb => isHex_of_mem_hex (List.mem_of_mem_take hb)) hdigits hrest]
  rfl

/-- What has more blanks than the beginning of a line is longer. -/
theorem length_lt_of_count {a front back : Bytes} {b : BitVec 8} (h : a <+: front ++ back)
    (hcount : front.count b < a.count b) : front.length < a.length := by
  by_contra hle
  have hbegins : a <+: front :=
    List.prefix_of_prefix_length_le h (List.prefix_append _ _) (Nat.le_of_not_lt hle)
  exact absurd (hbegins.sublist.count_le b) (Nat.not_le_of_lt hcount)

theorem count_decimal (n : Nat) : (decimal n).count 0x20 = 0 := by
  rw [List.count_eq_zero]
  intro hmem
  have hdigit := isDigit_of_mem_decimal hmem
  revert hdigit
  decide

theorem count_hex8 (v : BitVec 32) : (hex8 v).count 0x20 = 0 := by
  rw [List.count_eq_zero]
  intro hmem
  have hhex := isHex_of_mem_hex hmem
  revert hhex
  decide

/-- A part of the line about the file is not taken for the line. -/
theorem matchAt_metaLine_none (h : region <+: metaLine file ++ rest)
    (hlt : region.length < (metaLine file).length) : matchAt reXmeta region = none := by
  rw [Option.eq_none_iff_forall_not_mem]
  intro m hm
  obtain ⟨hbegins, haccepts⟩ := of_matchAt hm
  rcases haccepts with _ | ⟨h1, _ | ⟨h2, _ | ⟨h3, _ | ⟨h4, _ | _⟩⟩⟩⟩
  rename_i s1 s2 s3 s4
  obtain rfl := h1
  obtain rfl := h3
  have hflat : [ascii ['X', 'M', 'E', 'T', 'A', ' '], s2, ascii [' '], s4].flatten =
      ascii ['X', 'M', 'E', 'T', 'A', ' '] ++ s2 ++ ascii [' '] ++ s4 := by
    simp only [List.flatten_cons, List.flatten_nil, List.append_nil, List.append_assoc]
  have hlength := hbegins.length_le
  have hline : ascii ['X', 'M', 'E', 'T', 'A', ' '] ++ s2 ++ ascii [' '] <+:
      (ascii ['X', 'M', 'E', 'T', 'A', ' '] ++ decimal file.length) ++
        (ascii [' '] ++ hex8 (crc32 file) ++ rest) := by
    have hall := (List.prefix_append _ s4).trans (hflat ▸ hbegins.trans h)
    simpa only [metaLine, List.append_assoc] using hall
  have hxmeta : (ascii ['X', 'M', 'E', 'T', 'A', ' ']).count 0x20 = 1 := by decide
  have hblank : (ascii [' ']).count 0x20 = 1 := by decide
  have hlong := length_lt_of_count (b := 0x20) hline (by
    simp only [List.count_append, count_decimal, hxmeta, hblank]
    omega)
  have hone : (ascii [' ']).length = 1 := rfl
  rw [hflat] at hlength
  simp only [metaLine, List.length_append, h4.1, length_hex8, hone] at hlength hlt hlong
  omega

/-- A part of the line with a chunk is not taken for the line as long as there is no digit of
the chunk in it. -/
theorem matchAt_header_none (h : region <+: header file seq) : matchAt reDline region = none := by
  rw [Option.eq_none_iff_forall_not_mem]
  intro m hm
  obtain ⟨hbegins, haccepts⟩ := of_matchAt hm
  rcases haccepts with _ | ⟨h1, _ | ⟨h2, _ | ⟨h3, _ | ⟨h4, _ | ⟨h5, _ | ⟨h6, _ | ⟨h7, _ |
    ⟨h8, _ | _⟩⟩⟩⟩⟩⟩⟩⟩
  rename_i s1 s2 s3 s4 s5 s6 s7 s8
  obtain rfl := h1
  obtain rfl := h3
  obtain rfl := h5
  obtain rfl := h7
  have hflat : [ascii ['D', ' '], s2, ascii [' '], s4, ascii [' '], s6, ascii [' '], s8].flatten =
      ascii ['D', ' '] ++ s2 ++ ascii [' '] ++ s4 ++ ascii [' '] ++ s6 ++ ascii [' '] ++ s8 := by
    simp only [List.flatten_cons, List.flatten_nil, List.append_nil, List.append_assoc]
  have hlength := hbegins.length_le.trans h.length_le
  have hline := (List.prefix_append _ s8).trans (hflat ▸ hbegins.trans h)
  have hd : (ascii ['D', ' ']).count 0x20 = 1 := by decide
  have hblank : (ascii [' ']).count 0x20 = 1 := by decide
  have hlong := length_lt_of_count (b := 0x20) hline (by
    simp only [List.count_append, count_decimal, count_hex8, hd, hblank]
    omega)
  have hpos := List.length_pos_iff.mpr h8.1
  have hone : (ascii [' ']).length = 1 := rfl
  rw [hflat] at hlength
  simp only [header, List.length_append, hone] at hlength hlong
  omega

theorem drop_lead (h : region <+: lead ++ rest) : region.drop lead.length <+: rest := by
  have hdrop := h.drop lead.length
  rwa [List.drop_left] at hdrop

theorem newline_not_mem_metaLine : newline ∉ metaLine file := by
  have hhex : newline ∉ hex8 (crc32 file) := newline_not_mem_hex _
  simp only [metaLine, List.mem_append, not_or]
  exact ⟨⟨⟨by decide, newline_not_mem_decimal _⟩, by decide⟩, hhex⟩

/-- The line about the file is found when all of it has come. -/
theorem search_metaLine (hskips : Skips 0x58 true lead) (hstart : startAfter true lead = true)
    (h : region <+: lead ++ (metaLine file ++ rest)) :
    search reXmeta region = if lead.length + (metaLine file).length ≤ region.length then
      some (lead.length, [ascii ['X', 'M', 'E', 'T', 'A', ' '], decimal file.length, ascii [' '],
        hex8 (crc32 file)]) else none := by
  have hbody := drop_lead h
  have hlead : search reXmeta region = _ := search_lead hskips hstart h
  rw [hlead]
  split_ifs with hle hall hall
  · have hbegins : metaLine file <+: region.drop lead.length :=
      List.prefix_of_prefix_length_le (List.prefix_append _ _) hbody
        (by rw [List.length_drop]; omega)
    obtain ⟨after, hafter⟩ := hbegins
    have hfound := search_of_matchAt (matchAt_metaLine file after)
    rw [hafter] at hfound
    have hmap := congrArg (Option.map fun r => (r.1 + lead.length, r.2)) hfound
    rw [Option.map_some, Nat.zero_add] at hmap
    exact hmap
  · have hlt : (region.drop lead.length).length < (metaLine file).length := by
      rw [List.length_drop]
      omega
    have hpart : region.drop lead.length <+: metaLine file :=
      List.prefix_of_prefix_length_le hbody (List.prefix_append _ _) (Nat.le_of_lt hlt)
    have hnone : search reXmeta (region.drop lead.length) = none :=
      search_eq_none (matchAt_metaLine_none hbody hlt)
        fun hmem => newline_not_mem_metaLine (hpart.mem hmem)
    exact (congrArg _ hnone).trans (Option.map_none ..)
  · omega
  · rfl

theorem newline_not_mem_header : newline ∉ header file seq := by
  have hhex : newline ∉ hex8 (crc32 (chunk file seq)) := newline_not_mem_hex _
  simp only [header, List.mem_append, not_or]
  exact ⟨⟨⟨⟨⟨⟨by decide, newline_not_mem_decimal _⟩, by decide⟩, newline_not_mem_decimal _⟩,
    by decide⟩, hhex⟩, by decide⟩

/-- The line with a chunk is found when a digit of the chunk has come. -/
theorem search_chunkLine (hskips : Skips 0x44 true lead) (hstart : startAfter true lead = true)
    (hchunk : chunk file seq ≠ [])
    (h : region <+: lead ++ (header file seq ++ (hex (chunk file seq) ++ lineEnd))) :
    search reDline region = if lead.length + (header file seq).length < region.length then
      some (lead.length, pieces file seq
        (region.length - (lead.length + (header file seq).length))) else none := by
  have hbody := drop_lead h
  have hlead : search reDline region = _ := search_lead hskips hstart h
  rw [hlead]
  split_ifs with hle hdigit hdigit
  · set k := region.length - (lead.length + (header file seq).length) with hk
    have hregion : region.drop lead.length = header file seq ++
        ((hex (chunk file seq)).take k ++ lineEnd.take (k - (hex (chunk file seq)).length)) := by
      have hlength : (region.drop lead.length).length = (header file seq).length + k := by
        rw [List.length_drop]
        omega
      rw [← List.take_append, List.prefix_iff_eq_take.mp hbody, hlength,
        List.take_length_add_append]
    have hrest : ∀ b ∈ (lineEnd.take (k - (hex (chunk file seq)).length)).head?,
        isHex b = false := by
      have hend : ∀ b ∈ lineEnd, isHex b = false := by decide
      exact fun b hb => hend b (List.mem_of_mem_take (List.mem_of_mem_head? hb))
    have hpos : 0 < k := by omega
    have hfound := search_of_matchAt (matchAt_header hpos hchunk hrest)
    rw [← hregion] at hfound
    have hmap := congrArg (Option.map fun r => (r.1 + lead.length, r.2)) hfound
    rw [Option.map_some, Nat.zero_add] at hmap
    exact hmap
  · have hpart : region.drop lead.length <+: header file seq :=
      List.prefix_of_prefix_length_le hbody (List.prefix_append _ _)
        (by rw [List.length_drop]; omega)
    have hnone : search reDline (region.drop lead.length) = none :=
      search_eq_none (matchAt_header_none hpart)
        fun hmem => newline_not_mem_header (hpart.mem hmem)
    exact (congrArg _ hnone).trans (Option.map_none ..)
  · omega
  · rfl

end Search

/-! ## What the host does with a line -/

section Accept

variable {file : Bytes} {echoes : Bool} {t : Download}

theorem chunk_ne_nil {seq : Nat} (h : 128 * seq < file.length) : chunk file seq ≠ [] := by
  rw [← List.length_pos_iff, chunk, List.length_take, List.length_drop]
  omega

theorem take_append_chunk (seq : Nat) :
    file.take (128 * seq) ++ chunk file seq = file.take (128 * (seq + 1)) := by
  rw [chunk, ← List.take_add, Nat.mul_succ]

theorem pieces_flatten_length {seq k : Nat} (hk : k ≤ (hex (chunk file seq)).length) :
    (pieces file seq k).flatten.length = (header file seq).length + k := by
  have hflat : (pieces file seq k).flatten = header file seq ++ (hex (chunk file seq)).take k := by
    simp only [pieces, header, List.flatten_cons, List.flatten_nil, List.append_nil,
      List.append_assoc]
  rw [hflat, List.length_append, List.length_take, Nat.min_eq_left hk]

/-- A whole line is accepted. -/
theorem accept_whole {k : Nat} (hk : (hex (chunk file t.seq)).length ≤ k) :
    t.accept file echoes (pieces file t.seq k) = { t with
      data := t.data ++ chunk file t.seq
      seq := t.seq + 1
      phase := loop (t.data ++ chunk file t.seq).length t.size
      wire := t.wire ++ echo echoes (ackLine t.seq) ++ reply file t.boardNext
      boardNext := t.boardNext + 1 } := by
  have hseq : readDecimal ((pieces file t.seq k).getD 1 []) = t.seq := readDecimal_decimal _
  have hlen : readDecimal ((pieces file t.seq k).getD 3 []) = (chunk file t.seq).length :=
    readDecimal_decimal _
  have hcrc : readHex ((pieces file t.seq k).getD 5 []) = (crc32 (chunk file t.seq)).toNat :=
    readHex_hex8 _
  have hdata : (pieces file t.seq k).getD 7 [] = hex (chunk file t.seq) := List.take_of_length_le hk
  rw [accept, hseq, if_neg (fun hne => hne rfl), hdata, fromHex_hex]
  dsimp only
  rw [hlen, hcrc, if_neg (by simp)]

/-- A line that is cut within its digits is not. -/
theorem accept_cut {k : Nat} (hk : k < (hex (chunk file t.seq)).length) :
    ∃ why, (t.accept file echoes (pieces file t.seq k)).phase = .raised why := by
  have hseq : readDecimal ((pieces file t.seq k).getD 1 []) = t.seq := readDecimal_decimal _
  have hlen : readDecimal ((pieces file t.seq k).getD 3 []) = (chunk file t.seq).length :=
    readDecimal_decimal _
  have hdata : (pieces file t.seq k).getD 7 [] = (hex (chunk file t.seq)).take k := rfl
  rw [length_hex] at hk
  rw [accept, hseq, if_neg (fun hne => hne rfl), hdata, fromHex_take _ _ (Nat.le_of_lt hk)]
  split_ifs with heven
  · have hshort : ((chunk file t.seq).take (k / 2)).length ≠ (chunk file t.seq).length := by
      rw [List.length_take]
      omega
    dsimp only
    rw [hlen, if_pos (.inl hshort)]
    exact ⟨_, rfl⟩
  · exact ⟨_, rfl⟩

end Accept

/-! ## The transfer -/

section Transfer

variable (file remote : Bytes) (echoes : Bool) (t : Download)

def chunks : Nat := (file.length + 127) / 128

/-- What the host has of the line about the file. -/
def KnowsFile : Prop := t.size = file.length ∧ t.crc = (crc32 file).toNat

/-- What is to come of the text, and how far the host is. -/
def Expected : GetPhase → Prop
  | .waitMeta => t.cap.unparsed ++ t.wire =
      echo echoes (getLine remote) ++ (metaLine file ++ (lineEnd ++ reply file 0)) ∧
      newline ∉ remote ∧ t.data = [] ∧ t.seq = 0 ∧ t.boardNext = 1 ∧ t.looks = 0
  | .waitLine => (∃ lead, Skips 0x44 true lead ∧ startAfter true lead = true ∧
      t.cap.unparsed ++ t.wire =
        lead ++ (header file t.seq ++ (hex (chunk file t.seq) ++ lineEnd))) ∧
      KnowsFile file t ∧ 128 * t.seq < file.length ∧ t.data = file.take (128 * t.seq) ∧
      t.boardNext = t.seq + 1 ∧ t.looks ≤ t.seq + 1
  | .waitDone => doneWord <:+: t.cap.unparsed ++ t.wire ∧ KnowsFile file t ∧ t.data = file ∧
      t.looks ≤ chunks file + 1
  | .returned => t.data = file ∧ t.written = some file
  | .raised _ => False

structure Tracks : Prop where
  pos : t.cap.parsePos ≤ t.cap.tail.length
  expected : Expected file remote echoes t t.phase

variable {file remote : Bytes} {echoes : Bool} {t : Download}

theorem Tracks.of_init (h : Init file remote echoes t) : Tracks file remote echoes t where
  pos := Nat.le_of_eq h.pos
  expected := by
    have hunparsed : t.cap.unparsed = [] := by
      rw [UartCapture.unparsed, h.pos, List.drop_length]
    rw [h.phase]
    refine ⟨?_, h.path, h.data, h.seq, h.boardNext, h.looks⟩
    rw [hunparsed, h.wire, List.nil_append]
    simp only [List.append_assoc]

/-- Reading moves the text from the line to the buffer. -/
theorem Tracks.read (h : Tracks file remote echoes t) {n : Nat} (htime : t.InTime (.read n)) :
    Tracks file remote echoes (t.step file echoes (.read n)) := by
  obtain ⟨hpos, hunparsed⟩ := UartCapture.receive_unparsed h.pos htime
  have htext : (t.step file echoes (.read n)).cap.unparsed ++
      (t.step file echoes (.read n)).wire = t.cap.unparsed ++ t.wire := by
    rw [step]
    dsimp only
    rw [hunparsed, List.append_assoc, List.take_append_drop]
  have hexpected := h.expected
  refine ⟨hpos, ?_⟩
  have hphase : (t.step file echoes (.read n)).phase = t.phase := rfl
  rw [hphase]
  cases hp : t.phase with
  | waitMeta => rw [hp] at hexpected; rw [Expected, htext]; exact hexpected
  | waitLine => rw [hp] at hexpected; rw [Expected, htext]; exact hexpected
  | waitDone => rw [hp] at hexpected; rw [Expected, htext]; exact hexpected
  | returned => rw [hp] at hexpected; exact hexpected
  | raised why => rw [hp] at hexpected; exact hexpected

/-- The beginning of a line that the host does not look for. -/
theorem skips_echo (echoes : Bool) {c b : BitVec 8} {line : Bytes} (hb : b ≠ c)
    (h : newline ∉ b :: line) :
    Skips c true (echo echoes (b :: line)) ∧ startAfter true (echo echoes (b :: line)) = true := by
  cases echoes with
  | false => exact ⟨trivial, rfl⟩
  | true =>
    have hline : echo true (b :: line) = (b :: (line ++ [carriageReturn])) ++ [newline] := by
      rw [echo, if_pos rfl, lineEnd]
      simp
    rw [hline]
    refine ⟨skips_line hb ?_, startAfter_line⟩
    rw [← List.cons_append, List.mem_append, not_or]
    exact ⟨h, by decide⟩

theorem skips_lineEnd {c : BitVec 8} (h : carriageReturn ≠ c) :
    Skips c true lineEnd ∧ startAfter true lineEnd = true :=
  ⟨⟨fun _ => h, fun hfalse => absurd hfalse (by decide), trivial⟩, rfl⟩

/-- The chunk that the host waits for next, behind the end of the last line. -/
theorem expected_loop {seq : Nat} {lead : Bytes} (hskips : Skips 0x44 true lead)
    (hstart : startAfter true lead = true)
    (htext : t.cap.unparsed ++ t.wire = lead ++ reply file seq) (hknows : KnowsFile file t)
    (hseq : t.seq = seq) (hdata : t.data = file.take (128 * seq)) (hnext : t.boardNext = seq + 1)
    (hlooks : t.looks ≤ seq + 1) (hdone : 128 * seq < file.length + 128) :
    Expected file remote echoes t (loop t.data.length t.size) := by
  subst hseq
  have hlength : t.data.length < t.size ↔ 128 * t.seq < file.length := by
    rw [hdata, hknows.1, List.length_take]
    omega
  rw [loop]
  split_ifs with hmore
  · rw [hlength] at hmore
    rw [reply, if_pos hmore] at htext
    refine ⟨⟨lead, hskips, hstart, ?_⟩, hknows, hmore, hdata, hnext, hlooks⟩
    rw [htext]
    simp only [chunkLine, header, List.append_assoc]
  · rw [hlength] at hmore
    rw [reply, if_neg hmore] at htext
    refine ⟨?_, hknows, ?_, ?_⟩
    · rw [htext]
      exact ⟨lead, lineEnd ++ ascii ['$', ' '], by simp only [List.append_assoc]⟩
    · rw [hdata, List.take_of_length_le (Nat.le_of_not_lt hmore)]
    · rw [chunks]
      omega

theorem drop_append_of_eq {unparsed wire front back : Bytes} (h : unparsed ++ wire = front ++ back)
    (hle : front.length ≤ unparsed.length) : unparsed.drop front.length ++ wire = back := by
  have hdrop := congrArg (List.drop front.length) h
  rwa [List.drop_append_of_le_length hle, List.drop_left] at hdrop

/-- A look that does not find anything changes nothing, and it has not been one at all of the
text. -/
theorem tracks_of_not_found (h : Tracks file remote echoes t) {late : Bool}
    (why : GetFailure) (htime : t.InTime (.poll late)) (hwire : t.wire ≠ [])
    (hpoll : t.poll file echoes late =
      if late then { t with phase := .raised why } else t) :
    Tracks file remote echoes (t.step file echoes (.poll late)) := by
  have hlate : late = false := by
    cases late with
    | false => rfl
    | true => exact absurd (htime rfl) hwire
  have hstep : t.step file echoes (.poll late) = t := by
    rw [step, hpoll, hlate, if_neg (by decide), if_neg hwire]
    rfl
  rw [hstep]
  exact h

theorem Tracks.pollMeta (h : Tracks file remote echoes t) {late : Bool}
    (htime : t.InTime (.poll late)) (hphase : t.phase = .waitMeta) :
    Tracks file remote echoes (t.step file echoes (.poll late)) := by
  have hexpected := h.expected
  rw [hphase] at hexpected
  obtain ⟨htext, hpath, hdata, hseq, hnext, hlooks⟩ := hexpected
  have hcommand : newline ∉ (0x78 :: (ascii ['g', 'e', 't', ' '] ++ remote) : Bytes) := by
    rw [← List.cons_append, List.mem_append, not_or]
    exact ⟨by decide, hpath⟩
  have hecho : (0x78 : BitVec 8) ≠ 0x58 := by decide
  obtain ⟨hskips, hstart⟩ := skips_echo echoes hecho hcommand
  have hlead : echo echoes (0x78 :: (ascii ['g', 'e', 't', ' '] ++ remote)) =
      echo echoes (getLine remote) := rfl
  rw [hlead] at hskips hstart
  have hbegins : t.cap.unparsed <+:
      echo echoes (getLine remote) ++ (metaLine file ++ (lineEnd ++ reply file 0)) := ⟨_, htext⟩
  have hsearch := search_metaLine hskips hstart hbegins
  split_ifs at hsearch with hall
  · set m : List Bytes := [ascii ['X', 'M', 'E', 'T', 'A', ' '], decimal file.length, ascii [' '],
      hex8 (crc32 file)] with hm
    set lead := echo echoes (getLine remote) with hleadDef
    have hflat : m.flatten = metaLine file := by
      simp only [hm, metaLine, List.flatten_cons, List.flatten_nil, List.append_nil,
        List.append_assoc]
    have hsize : readDecimal (m.getD 1 []) = file.length := readDecimal_decimal _
    have hcrc : readHex (m.getD 3 []) = (crc32 file).toNat := readHex_hex8 _
    have hfound := UartCapture.expectLine_of_search hsearch
    rw [hflat] at hfound
    have hrest : t.cap.unparsed.drop (lead.length + (metaLine file).length) ++ t.wire =
        lineEnd ++ reply file 0 := by
      rw [← List.append_assoc] at htext
      have hdrop := drop_append_of_eq htext (by rw [List.length_append]; exact hall)
      rwa [List.length_append] at hdrop
    have hpos := h.pos
    have hlength : t.cap.unparsed.length = t.cap.tail.length - t.cap.parsePos := List.length_drop
    have hstep : t.step file echoes (.poll late) = { t with
        cap := { t.cap with
          parsePos := t.cap.parsePos + (lead.length + (metaLine file).length) }
        size := file.length
        crc := (crc32 file).toNat
        phase := loop 0 file.length
        looks := t.looks + if t.wire = [] then 1 else 0 } := by
      rw [step, poll, hphase]
      dsimp only
      rw [hfound]
      dsimp only
      rw [hsize, hcrc]
    have hloop : loop t.data.length file.length = loop 0 file.length := by
      rw [hdata]
      rfl
    rw [hstep]
    refine ⟨?_, ?_⟩
    · dsimp only
      omega
    · obtain ⟨hskipsEnd, hstartEnd⟩ := skips_lineEnd (c := 0x44) (by decide)
      dsimp only
      rw [← hloop]
      refine expected_loop (t := Download.mk _ _ _ _ _ _ _ _ _ _) hskipsEnd hstartEnd ?_ ⟨rfl, rfl⟩
        hseq hdata hnext ?_ (by omega)
      · rw [UartCapture.unparsed_advance]
        exact hrest
      · dsimp only
        rw [hlooks]
        split_ifs <;> omega
  · apply tracks_of_not_found h .noMeta htime
    · intro hwire
      rw [hwire, List.append_nil] at htext
      apply hall
      rw [htext]
      simp only [List.length_append]
      omega
    · rw [poll, hphase]
      dsimp only
      rw [UartCapture.expectLine, hsearch]
      rfl

theorem newline_not_mem_ackLine (seq : Nat) : newline ∉ ackLine seq := by
  rw [ackLine, List.mem_append, not_or]
  exact ⟨by decide, newline_not_mem_decimal seq⟩

theorem Tracks.pollLine (h : Tracks file remote echoes t) {late : Bool}
    (htime : t.InTime (.poll late)) (huncut : ¬ t.CutInHex file) (hphase : t.phase = .waitLine) :
    Tracks file remote echoes (t.step file echoes (.poll late)) := by
  have hexpected := h.expected
  rw [hphase] at hexpected
  obtain ⟨⟨lead, hskips, hstart, htext⟩, hknows, hmore, hdata, hnext, hlooks⟩ := hexpected
  have hlengths := congrArg List.length htext
  simp only [List.length_append] at hlengths
  have hsearch := search_chunkLine hskips hstart (chunk_ne_nil hmore) ⟨_, htext⟩
  set k := t.cap.unparsed.length - (lead.length + (header file t.seq).length) with hk
  split_ifs at hsearch with hdigit
  · -- a digit has come, so all of them have
    have hwhole : (hex (chunk file t.seq)).length ≤ k := by
      by_contra hcut
      apply huncut
      exact ⟨hphase, by omega, by omega⟩
    have hpieces : pieces file t.seq k = pieces file t.seq (hex (chunk file t.seq)).length := by
      rw [pieces, pieces, List.take_of_length_le hwhole, List.take_length]
    rw [hpieces] at hsearch
    have hfound := UartCapture.expectLine_of_search hsearch
    rw [pieces_flatten_length (Nat.le_refl _)] at hfound
    have hrest : t.cap.unparsed.drop
        (lead.length + ((header file t.seq).length + (hex (chunk file t.seq)).length)) ++ t.wire =
          lineEnd := by
      rw [← List.append_assoc (header file t.seq), ← List.append_assoc] at htext
      have hdrop := drop_append_of_eq htext (by simp only [List.length_append]; omega)
      simpa only [List.length_append] using hdrop
    have hpos := h.pos
    have hlength : t.cap.unparsed.length = t.cap.tail.length - t.cap.parsePos := List.length_drop
    have hstep : t.step file echoes (.poll late) = { t with
        cap := { t.cap with parsePos := t.cap.parsePos +
          (lead.length + ((header file t.seq).length + (hex (chunk file t.seq)).length)) }
        data := t.data ++ chunk file t.seq
        seq := t.seq + 1
        phase := loop (t.data ++ chunk file t.seq).length t.size
        wire := t.wire ++ echo echoes (ackLine t.seq) ++ reply file t.boardNext
        boardNext := t.boardNext + 1
        looks := t.looks + if t.wire = [] then 1 else 0 } := by
      rw [step, poll, hphase]
      dsimp only
      rw [hfound]
      dsimp only
      rw [accept_whole (t := Download.mk _ _ _ _ _ _ _ _ _ _) (Nat.le_refl _)]
    rw [hstep]
    refine ⟨?_, ?_⟩
    · dsimp only
      omega
    · obtain ⟨hskipsEnd, hstartEnd⟩ := skips_lineEnd (c := 0x44) (by decide)
      obtain ⟨hskipsAck, hstartAck⟩ : Skips 0x44 true (echo echoes (ackLine t.seq)) ∧
          startAfter true (echo echoes (ackLine t.seq)) = true :=
        skips_echo echoes (b := 0x41) (by decide) (newline_not_mem_ackLine t.seq)
      refine expected_loop (t := Download.mk _ _ _ _ _ _ _ _ _ _)
        (hskipsEnd.append (by rw [hstartEnd]; exact hskipsAck)) ?_ ?_ hknows rfl ?_ ?_ ?_ ?_
      · rw [startAfter_append, hstartEnd, hstartAck]
      · dsimp only
        rw [UartCapture.unparsed_advance, hnext, List.append_assoc, ← List.append_assoc, hrest,
          List.append_assoc]
      · dsimp only
        rw [hdata, take_append_chunk]
      · dsimp only
        rw [hnext]
      · dsimp only
        split_ifs <;> omega
      · dsimp only
        omega
  · apply tracks_of_not_found h .noLine htime
    · intro hwire
      rw [hwire, List.length_nil] at hlengths
      have hend : lineEnd.length = 2 := rfl
      omega
    · rw [poll, hphase]
      dsimp only
      rw [UartCapture.expectLine, hsearch]
      rfl

theorem Tracks.pollDone (h : Tracks file remote echoes t) {late : Bool}
    (htime : t.InTime (.poll late)) (hphase : t.phase = .waitDone) :
    Tracks file remote echoes (t.step file echoes (.poll late)) := by
  have hexpected := h.expected
  rw [hphase] at hexpected
  obtain ⟨hdone, hknows, hdata, hlooks⟩ := hexpected
  by_cases hfound : t.cap.expect doneWord = true
  · have hgood : ¬ (t.data.length ≠ t.size ∨ (crc32 t.data).toNat ≠ t.crc) := by
      rw [hdata, hknows.1, hknows.2]
      simp
    have hstep : t.step file echoes (.poll late) = { t with
        phase := .returned
        written := some t.data
        looks := t.looks + if t.wire = [] then 1 else 0 } := by
      rw [step, poll, hphase]
      dsimp only
      rw [if_pos hfound, finish, if_neg hgood]
    rw [hstep]
    exact ⟨h.pos, hdata, congrArg some hdata⟩
  · apply tracks_of_not_found h .noDone htime
    · intro hwire
      rw [hwire, List.append_nil] at hdone
      exact hfound (decide_eq_true (hdone.trans (List.drop_suffix _ _).isInfix))
    · rw [poll, hphase]
      dsimp only
      rw [if_neg hfound]

theorem Tracks.poll (h : Tracks file remote echoes t) {late : Bool}
    (htime : t.InTime (.poll late)) (huncut : ¬ t.CutInHex file) :
    Tracks file remote echoes (t.step file echoes (.poll late)) := by
  have hexpected := h.expected
  cases hphase : t.phase with
  | waitMeta => exact h.pollMeta htime hphase
  | waitLine => exact h.pollLine htime huncut hphase
  | waitDone => exact h.pollDone htime hphase
  | returned =>
    rw [hphase] at hexpected
    have hpoll : t.poll file echoes late = t := by rw [Download.poll, hphase]
    have hstep : (t.step file echoes (.poll late)).phase = .returned := by
      rw [step, hpoll, hphase]
    refine ⟨?_, ?_⟩
    · rw [step, hpoll]
      exact h.pos
    · rw [hstep, step, hpoll]
      exact hexpected
  | raised why =>
    rw [hphase] at hexpected
    exact hexpected.elim

/-- Looks that come in time and not while the line is cut. -/
def Whole (file : Bytes) (t : Download) (event : Event) : Prop :=
  t.InTime event ∧ t.Uncut file event

instance : DecidableRel (Whole file) := fun _ _ => inferInstanceAs (Decidable (_ ∧ _))

theorem Tracks.of_reachable
    (h : ((machine file remote echoes).restrict (Whole file)).Reachable t) :
    Tracks file remote echoes t := by
  apply Clocked.Machine.invariant (fun t ht => Tracks.of_init ht) _ h
  intro t event ht hlegal
  cases event with
  | read n => exact ht.read hlegal.2.1
  | poll late => exact ht.poll hlegal.2.1 hlegal.2.2

/-- A look at a line that is cut within its digits raises. -/
theorem raised_of_cut (h : Tracks file remote echoes t) (hcut : t.CutInHex file) (late : Bool) :
    ∃ why, (t.step file echoes (.poll late)).phase = .raised why := by
  obtain ⟨hphase, hlow, hhigh⟩ := hcut
  have hexpected := h.expected
  rw [hphase] at hexpected
  obtain ⟨⟨lead, hskips, hstart, htext⟩, -, hmore, -⟩ := hexpected
  have hlengths := congrArg List.length htext
  simp only [List.length_append] at hlengths
  have hsearch := search_chunkLine hskips hstart (chunk_ne_nil hmore) ⟨_, htext⟩
  rw [if_pos (by omega)] at hsearch
  have hfound := UartCapture.expectLine_of_search hsearch
  rw [step, Download.poll, hphase]
  dsimp only
  rw [hfound]
  exact accept_cut (t := Download.mk _ _ _ _ _ _ _ _ _ _) (by dsimp only; omega)

/-- If no look comes while a line is cut within its digits, the host does not raise, the file
comes chunk by chunk, and what is written at the end is the file. The end comes when the host
has looked often enough at all that had been sent. A look at a line that is cut raises. -/
theorem transferGet_whole
    (h : ((machine file remote echoes).restrict (Whole file)).Reachable t) :
    (∀ why, t.phase ≠ .raised why) ∧ t.data <+: file ∧
      (t.phase = .returned → t.written = some file) ∧
      (chunks file + 2 ≤ t.looks → t.phase = .returned) ∧
      (t.CutInHex file → ∀ late, ∃ why, (t.step file echoes (.poll late)).phase = .raised why) := by
  have htracks := Tracks.of_reachable h
  refine ⟨?_, ?_, ?_, ?_, fun hcut late => raised_of_cut htracks hcut late⟩
  · intro why hraised
    have hexpected := htracks.expected
    rw [hraised] at hexpected
    exact hexpected
  · have hexpected := htracks.expected
    cases hphase : t.phase with
    | waitMeta =>
      rw [hphase] at hexpected
      rw [hexpected.2.2.1]
      exact List.nil_prefix
    | waitLine =>
      rw [hphase] at hexpected
      rw [hexpected.2.2.2.1]
      exact List.take_prefix _ _
    | waitDone =>
      rw [hphase] at hexpected
      rw [hexpected.2.2.1]
    | returned =>
      rw [hphase] at hexpected
      rw [hexpected.1]
    | raised why =>
      rw [hphase] at hexpected
      exact hexpected.elim
  · intro hreturned
    have hexpected := htracks.expected
    rw [hreturned] at hexpected
    exact hexpected.2
  · intro hlooks
    have hexpected := htracks.expected
    cases hphase : t.phase with
    | waitMeta =>
      rw [hphase] at hexpected
      have hzero := hexpected.2.2.2.2.2
      omega
    | waitLine =>
      rw [hphase] at hexpected
      obtain ⟨-, -, hmore, -, -, hle⟩ := hexpected
      rw [chunks] at hlooks
      omega
    | waitDone =>
      rw [hphase] at hexpected
      have hle := hexpected.2.2.2
      omega
    | returned => rfl
    | raised why =>
      rw [hphase] at hexpected
      exact hexpected.elim

/-- Out of a call for a path of no bytes. -/
def atCall (file : Bytes) (echoes : Bool) : Download :=
  ⟨{}, echo echoes (getLine []) ++ metaLine file ++ lineEnd ++ reply file 0, 1, .waitMeta, 0, 0, [],
    0, none, 0⟩

theorem init_atCall (file : Bytes) (echoes : Bool) : Init file [] echoes (atCall file echoes) :=
  ⟨by decide, rfl, rfl, rfl, rfl, rfl, rfl, rfl⟩

/-- A file of two bytes. The host looks at a part of the line that has no digit of the chunk
in it, and then at the whole. -/
theorem transferGet_whole_twoBytes :
    let t := (machine [0x41, 0x0a] [] true).run (atCall [0x41, 0x0a] true)
      [.read 9, .poll false, .read 31, .poll false, .poll false, .read 512, .poll false, .read 512,
        .poll true]
    t.phase = .returned ∧ t.written = some [0x41, 0x0a] := by
  intro t
  have hreach : ((machine [0x41, 0x0a] [] true).restrict (Whole [0x41, 0x0a])).Reachable t :=
    Clocked.Machine.reachable_restrict_run (init_atCall _ _) (by decide +kernel)
  have hphase : t.phase = .returned := by decide +kernel
  exact ⟨hphase, (transferGet_whole hreach).2.2.1 hphase⟩

/-- A file of one byte, and a look between its two digits. -/
theorem transferGet_cut : ¬ ∀ (file remote : Bytes) (echoes : Bool) (t : Download),
    ((machine file remote echoes).restrict InTime).Reachable t → ∀ why, t.phase ≠ .raised why := by
  intro hclaim
  have hreach : ((machine [0x41] [] false).restrict InTime).Reachable
      ((machine [0x41] [] false).run (atCall [0x41] false) [.read 34, .poll false, .poll false]) :=
    Clocked.Machine.reachable_restrict_run (init_atCall _ _) (by decide +kernel)
  exact hclaim [0x41] [] false _ hreach .notHex (by decide +kernel)

end Transfer

end Download

end Demo

end NopCore
