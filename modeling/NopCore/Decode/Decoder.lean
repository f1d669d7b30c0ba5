import NopCore.Decode.Rename
import NopCore.Fetch.FrontEnd
import NopCore.Lib.Encoding

/-!
# The decoder

Each encoding sets the signals in which it differs from the defaults. An epilogue
computes from them and from the fields of the word what the instruction writes, and
which exception it carries: a system call or a break, an illegal encoding, or an
instruction that the privilege level of the present cycle does not permit.

The signals that choose between operations of the same pipe (the operation of the
ALU, the comparison, signedness, the kind of immediate) are left out.
-/

namespace NopCore

open Encoding (MaskedLiteral)

/-! ## Encodings -/

namespace LoongArch

def ADD : MaskedLiteral := ⟨17, 0b00000000000100000⟩
def SUB : MaskedLiteral := ⟨17, 0b00000000000100010⟩
def SLT : MaskedLiteral := ⟨17, 0b00000000000100100⟩
def SLTU : MaskedLiteral := ⟨17, 0b00000000000100101⟩
def NOR : MaskedLiteral := ⟨17, 0b00000000000101000⟩
def AND : MaskedLiteral := ⟨17, 0b00000000000101001⟩
def OR : MaskedLiteral := ⟨17, 0b00000000000101010⟩
def XOR : MaskedLiteral := ⟨17, 0b00000000000101011⟩
def SLL : MaskedLiteral := ⟨17, 0b00000000000101110⟩
def SRL : MaskedLiteral := ⟨17, 0b00000000000101111⟩
def SRA : MaskedLiteral := ⟨17, 0b00000000000110000⟩

def SLLI : MaskedLiteral := ⟨17, 0b00000000010000001⟩
def SRLI : MaskedLiteral := ⟨17, 0b00000000010001001⟩
def SRAI : MaskedLiteral := ⟨17, 0b00000000010010001⟩

def SLTI : MaskedLiteral := ⟨10, 0b0000001000⟩
def SLTUI : MaskedLiteral := ⟨10, 0b0000001001⟩
def ADDI : MaskedLiteral := ⟨10, 0b0000001010⟩
def ANDI : MaskedLiteral := ⟨10, 0b0000001101⟩
def ORI : MaskedLiteral := ⟨10, 0b0000001110⟩
def XORI : MaskedLiteral := ⟨10, 0b0000001111⟩

def LU12I : MaskedLiteral := ⟨7, 0b0001010⟩
def PCADDI : MaskedLiteral := ⟨7, 0b0001100⟩
def PCADDU12I : MaskedLiteral := ⟨7, 0b0001110⟩

def JIRL : MaskedLiteral := ⟨6, 0b010011⟩
def B : MaskedLiteral := ⟨6, 0b010100⟩
def BL : MaskedLiteral := ⟨6, 0b010101⟩
def BEQ : MaskedLiteral := ⟨6, 0b010110⟩
def BNE : MaskedLiteral := ⟨6, 0b010111⟩
def BLT : MaskedLiteral := ⟨6, 0b011000⟩
def BGE : MaskedLiteral := ⟨6, 0b011001⟩
def BLTU : MaskedLiteral := ⟨6, 0b011010⟩
def BGEU : MaskedLiteral := ⟨6, 0b011011⟩

def MUL : MaskedLiteral := ⟨17, 0b00000000000111000⟩
def MULH : MaskedLiteral := ⟨17, 0b00000000000111001⟩
def MULHU : MaskedLiteral := ⟨17, 0b00000000000111010⟩
def DIV : MaskedLiteral := ⟨17, 0b00000000001000000⟩
def MOD : MaskedLiteral := ⟨17, 0b00000000001000001⟩
def DIVU : MaskedLiteral := ⟨17, 0b00000000001000010⟩
def MODU : MaskedLiteral := ⟨17, 0b00000000001000011⟩

def LDB : MaskedLiteral := ⟨10, 0b0010100000⟩
def LDBU : MaskedLiteral := ⟨10, 0b0010101000⟩
def LDH : MaskedLiteral := ⟨10, 0b0010100001⟩
def LDHU : MaskedLiteral := ⟨10, 0b0010101001⟩
def LDW : MaskedLiteral := ⟨10, 0b0010100010⟩
def STB : MaskedLiteral := ⟨10, 0b0010100100⟩
def STH : MaskedLiteral := ⟨10, 0b0010100101⟩
def STW : MaskedLiteral := ⟨10, 0b0010100110⟩

def ERTN : MaskedLiteral := ⟨32, 0b00000110010010000011100000000000⟩
def BREAK : MaskedLiteral := ⟨17, 0b00000000001010100⟩
def SYSCALL : MaskedLiteral := ⟨17, 0b00000000001010110⟩
def CSR : MaskedLiteral := ⟨8, 0b00000100⟩
def IDLE : MaskedLiteral := ⟨17, 0b00000110010010001⟩

def CPUCFG : MaskedLiteral := ⟨22, 0b0000000000000000011011⟩

def IOCSRRD_B : MaskedLiteral := ⟨22, 0b0000011001001000000000⟩
def IOCSRRD_H : MaskedLiteral := ⟨22, 0b0000011001001000000001⟩
def IOCSRRD_W : MaskedLiteral := ⟨22, 0b0000011001001000000010⟩
def IOCSRWR_B : MaskedLiteral := ⟨22, 0b0000011001001000000100⟩
def IOCSRWR_H : MaskedLiteral := ⟨22, 0b0000011001001000000101⟩
def IOCSRWR_W : MaskedLiteral := ⟨22, 0b0000011001001000000110⟩
def RDCNTVL : MaskedLiteral := ⟨22, 0b0000000000000000011000⟩
def RDCNTVH : MaskedLiteral := ⟨27, 0b000000000000000001100100000⟩

def CACOP : MaskedLiteral := ⟨10, 0b0000011000⟩
def PRELD : MaskedLiteral := ⟨10, 0b0010101011⟩
def DBAR : MaskedLiteral := ⟨17, 0b00111000011100100⟩
def IBAR : MaskedLiteral := ⟨17, 0b00111000011100101⟩

def LL : MaskedLiteral := ⟨8, 0b00100000⟩
def SC : MaskedLiteral := ⟨8, 0b00100001⟩

def TLBSRCH : MaskedLiteral := ⟨32, 0b00000110010010000010100000000000⟩
def TLBRD : MaskedLiteral := ⟨32, 0b00000110010010000010110000000000⟩
def TLBWR : MaskedLiteral := ⟨32, 0b00000110010010000011000000000000⟩
def TLBFILL : MaskedLiteral := ⟨32, 0b00000110010010000011010000000000⟩
def INVTLB : MaskedLiteral := ⟨17, 0b00000110010010011⟩

end LoongArch

/-! ## Signals -/

/-- What the encodings set, with the defaults. -/
structure DecodeSignals where
  fuType : FUType := .alu
  tlbOp : TLBOpType := .none
  operateCache : Bool := false
  useRj : Bool := false
  useRk : Bool := false
  useRd : Bool := false
  isRegWrite : Bool := false
  overrideRdToRA : Bool := false
  overrideRdToRj : Bool := false
  readCSR : Bool := false
  readTimer64H : Bool := false
  lsType : LoadStoreType := .byte
  isLoad : Bool := false
  isStore : Bool := false
  isLL : Bool := false
  isSC : Bool := false
  isBranch : Bool := false
  isJump : Bool := false
  isJR : Bool := false
  isSyscall : Bool := false
  isErtn : Bool := false
  isBreak : Bool := false
  isWait : Bool := false
  isBar : Bool := false

namespace DecodeSignals

def reg1W (s : DecodeSignals) : DecodeSignals := { s with isRegWrite := true }

def reg1R (s : DecodeSignals) : DecodeSignals := { s with useRj := true }

def reg1R1W (s : DecodeSignals) : DecodeSignals := s.reg1R.reg1W

def reg2R (s : DecodeSignals) : DecodeSignals := { s with useRj := true, useRk := true }

def reg2R1W (s : DecodeSignals) : DecodeSignals := s.reg2R.reg1W

/-- A branch compares `rj` with `rd`. -/
def branch (s : DecodeSignals) : DecodeSignals :=
  reg1R { s with fuType := .cmp, isBranch := true, useRd := true }

def jump (s : DecodeSignals) : DecodeSignals := { s with fuType := .cmp, isJump := true }

def jumpLink (s : DecodeSignals) : DecodeSignals :=
  { s with fuType := .cmp, isJR := true, useRj := true }

def load (lsType : LoadStoreType) (s : DecodeSignals) : DecodeSignals :=
  { s.reg1R1W with fuType := .lsu, isLoad := true, lsType }

def store (lsType : LoadStoreType) (s : DecodeSignals) : DecodeSignals :=
  { s.reg1R with fuType := .lsu, isStore := true, useRd := true, lsType }

/-- The write of an I/O control register reads `rd` and `rj`, and writes `rd`. -/
def iocsrwr (s : DecodeSignals) : DecodeSignals :=
  { s with useRj := true, useRd := true, isRegWrite := true }

/-- An instruction that commit alone executes, if anything is to be done. -/
def none (s : DecodeSignals) : DecodeSignals := { s with fuType := .none }

end DecodeSignals

open LoongArch DecodeSignals in
/-- The table of encodings. -/
def encodings : List (MaskedLiteral × (DecodeSignals → DecodeSignals)) :=
  [(ADD, reg2R1W), (SUB, reg2R1W), (SLT, reg2R1W), (SLTU, reg2R1W), (NOR, reg2R1W),
    (AND, reg2R1W), (OR, reg2R1W), (XOR, reg2R1W), (SLL, reg2R1W), (SRL, reg2R1W),
    (SRA, reg2R1W),
    (SLLI, reg1R1W), (SRLI, reg1R1W), (SRAI, reg1R1W), (SLTI, reg1R1W), (SLTUI, reg1R1W),
    (ADDI, reg1R1W), (ANDI, reg1R1W), (ORI, reg1R1W), (XORI, reg1R1W),
    (LU12I, reg1W), (PCADDI, reg1W), (PCADDU12I, reg1W),
    (BEQ, branch), (BNE, branch), (BLT, branch), (BGE, branch), (BLTU, branch), (BGEU, branch),
    (B, jump),
    (BL, fun s => { s.jump with isRegWrite := true, overrideRdToRA := true }),
    (JIRL, fun s => { s.jumpLink with isRegWrite := true }),
    (MUL, fun s => { s.reg2R1W with fuType := .mul }),
    (MULH, fun s => { s.reg2R1W with fuType := .mulh }),
    (MULHU, fun s => { s.reg2R1W with fuType := .mulh }),
    (DIV, fun s => { s.reg2R1W with fuType := .div }),
    (DIVU, fun s => { s.reg2R1W with fuType := .div }),
    (MOD, fun s => { s.reg2R1W with fuType := .mod }),
    (MODU, fun s => { s.reg2R1W with fuType := .mod }),
    (LDW, load .word), (LDH, load .half), (LDHU, load .halfU), (LDB, load .byte),
    (LDBU, load .byteU),
    (STW, store .word), (STH, store .half), (STB, store .byte),
    (LL, fun s => { s.load .word with isLL := true }),
    (SC, fun s => { s.store .word with isRegWrite := true, isSC := true }),
    (CSR, fun s => { s with fuType := .csr, isRegWrite := true, readCSR := true }),
    (RDCNTVL, fun s => { s with fuType := .timer, isRegWrite := true }),
    (RDCNTVH, fun s => { s with fuType := .timer, isRegWrite := true, readTimer64H := true }),
    (CPUCFG, reg1R1W),
    (IOCSRRD_B, reg1R1W), (IOCSRRD_H, reg1R1W), (IOCSRRD_W, reg1R1W),
    (IOCSRWR_B, iocsrwr), (IOCSRWR_H, iocsrwr), (IOCSRWR_W, iocsrwr),
    (SYSCALL, fun s => { s.none with isSyscall := true }),
    (BREAK, fun s => { s.none with isBreak := true }),
    (ERTN, fun s => { s.none with isErtn := true }),
    (IDLE, fun s => { s.none with isWait := true }),
    (TLBSRCH, fun s => { s.none with tlbOp := .tlbsrch }),
    (TLBRD, fun s => { s.none with tlbOp := .tlbrd }),
    (TLBWR, fun s => { s.none with tlbOp := .tlbwr }),
    (TLBFILL, fun s => { s.none with tlbOp := .tlbfill }),
    (INVTLB, fun s => { s.reg2R with fuType := .invtlb, tlbOp := .invtlb1 }),
    (IBAR, fun s => { s.none with isBar := true }),
    (DBAR, fun s => { s.none with isBar := true }),
    (CACOP, fun s =>
      { s with fuType := .lsu, operateCache := true, useRj := true, lsType := .cacop }),
    (PRELD, DecodeSignals.none)]

/-- The encodings that only privilege level 0 may execute. -/
def privInst : List MaskedLiteral :=
  open LoongArch in
  [CSR, CACOP, ERTN, IDLE, TLBRD, TLBWR, TLBSRCH, TLBFILL, INVTLB, IOCSRRD_B, IOCSRRD_H,
    IOCSRRD_W, IOCSRWR_B, IOCSRWR_H, IOCSRWR_W]

/-! ## The epilogue -/

/-- An entry of the fetch buffer with all of the exception that it may carry. -/
structure FetchEntry extends InstBufferEntry where
  payload : ExceptionPayload := {}

namespace Decoder

variable (plv : BitVec 2) (entry : FetchEntry)

def signals (inst : UWord) : DecodeSignals := Encoding.apply encodings inst {}

def illegalEncoding (inst : UWord) : Bool := Encoding.illegal encodings inst

def fields (inst : UWord) : InstructionParser := ⟨inst⟩

/-- `CSRRD` is the encoding with `rj` = 0. -/
def writeCSR (inst : UWord) : Bool := (signals inst).readCSR && (fields inst).rj != 0

def useRd (inst : UWord) : Bool := (signals inst).useRd || writeCSR inst

/-- `CSRWR` is the encoding with `rj` = 1; the others mask the write with `rj`. -/
def useRj (inst : UWord) : Bool := (signals inst).useRj || (writeCSR inst && (fields inst).rj != 1)

/-- `RDTIMEID` is the encoding of `RDTIMEL` with `rd` = 0. -/
def overrideRdToRj (inst : UWord) : Bool :=
  (signals inst).overrideRdToRj ||
    ((signals inst).fuType == .timer && !(signals inst).readTimer64H && (fields inst).rd == 0)

def wbAddr (inst : UWord) : Nat :=
  if (signals inst).overrideRdToRA then 1
  else if overrideRdToRj inst then (fields inst).rj
  else (fields inst).rd

/-- The sub-operation of `INVTLB`, unless it is illegal. -/
def invtlbOp (inst : UWord) : Option TLBOpType :=
  match (fields inst).rd with
  | 0 | 1 => some .invtlb1
  | 2 => some .invtlb2
  | 3 => some .invtlb3
  | 4 => some .invtlb4
  | 5 => some .invtlb5
  | 6 => some .invtlb6
  | _ => none

def isInvtlb (inst : UWord) : Bool :=
  LoongArch.INVTLB.covers inst && useRj inst && (signals inst).useRk

def tlbOp : TLBOpType :=
  if !entry.except && isInvtlb entry.inst then
    (invtlbOp entry.inst).getD (signals entry.inst).tlbOp
  else (signals entry.inst).tlbOp

def raise (valid : Bool) (code : ExceptionCode) (e : ExceptionPayload) : ExceptionPayload :=
  if valid then { e with valid := true, code } else e

/-- The exception of the fetch goes first; of those found here the last one wins. -/
def except : ExceptionPayload :=
  if entry.except then { entry.payload with valid := true }
  else
    raise (plv != 0 && privInst.any fun m => m.covers entry.inst) ExceptionCode.IPE
      (raise (isInvtlb entry.inst && (invtlbOp entry.inst).isNone) ExceptionCode.INE
        (raise (illegalEncoding entry.inst) ExceptionCode.INE
          (raise (signals entry.inst).isBreak ExceptionCode.BRK
            (raise (signals entry.inst).isSyscall ExceptionCode.SYS
              { entry.payload with valid := false, isTLBRefill := false }))))

/-- Decode an entry at a privilege level. -/
def decode : MicroOp where
  pc := entry.pc
  inst := entry.inst
  predInfo := entry.predInfo
  predRecover := entry.predRecover
  fuType := (signals entry.inst).fuType
  useRj := useRj entry.inst
  useRk := (signals entry.inst).useRk
  useRd := useRd entry.inst
  wbAddr := wbAddr entry.inst
  doRegWrite := (signals entry.inst).isRegWrite && wbAddr entry.inst != 0
  lsType := (signals entry.inst).lsType
  isLoad := (signals entry.inst).isLoad
  isStore := (signals entry.inst).isStore
  isBranch := (signals entry.inst).isBranch
  isJump := (signals entry.inst).isJump
  isJR := (signals entry.inst).isJR
  writeCSR := writeCSR entry.inst
  tlbOp := tlbOp entry
  operateCache := (signals entry.inst).operateCache
  isWait := (signals entry.inst).isWait
  isBar := (signals entry.inst).isBar
  isLL := (signals entry.inst).isLL
  isSC := (signals entry.inst).isSC
  isErtn := (signals entry.inst).isErtn
  except := except plv entry

/-! ## Every word -/

theorem wellFormed : Encoding.WellFormed 32 encodings := ⟨by decide +kernel, by decide +kernel⟩

/-- What an encoding sets has an effect that is reserved to privilege level 0. -/
def Reserved (s : DecodeSignals) : Bool :=
  s.readCSR || s.tlbOp != .none || s.operateCache || s.isErtn || s.isWait || s.lsType == .cacop

/-- A word is decoded by the one encoding that covers it. -/
theorem signals_eq (inst : UWord) :
    (∃ line ∈ encodings, line.1.covers inst = true ∧ signals inst = line.2 {}) ∨
      (illegalEncoding inst = true ∧ signals inst = {}) := wellFormed.apply_eq

theorem signals_of_covers {inst : UWord} {line : MaskedLiteral × (DecodeSignals → DecodeSignals)}
    (hline : line ∈ encodings) (hcovers : line.1.covers inst = true) :
    signals inst = line.2 {} := wellFormed.apply_of_covers hline hcovers

/-- What is reserved is checked. -/
theorem privInst_of_reserved {inst : UWord} (h : Reserved (signals inst) = true) :
    (privInst.any fun m => m.covers inst) = true := by
  have hlines : ∀ line ∈ encodings, Reserved (line.2 {}) = true → line.1 ∈ privInst := by
    decide +kernel
  obtain ⟨line, hline, hcovers, heq⟩ | ⟨-, heq⟩ := signals_eq inst
  · rw [heq] at h
    exact List.any_eq_true.mpr ⟨line.1, hlines line hline h, hcovers⟩
  · rw [heq] at h
    cases h

variable {plv : BitVec 2} {entry : FetchEntry}

/-- Where no exception is found, its cause is not there. -/
theorem valid_of_raise {valid : Bool} {code : ExceptionCode} {e : ExceptionPayload}
    (h : (raise valid code e).valid = false) : valid = false := by
  cases valid with
  | false => rfl
  | true => cases h

/-- The instruction has no effect that is reserved to privilege level 0. -/
structure Harmless (uop : MicroOp) : Prop where
  isErtn : uop.isErtn = false
  writeCSR : uop.writeCSR = false
  tlbOp : uop.tlbOp = .none
  operateCache : uop.operateCache = false
  isWait : uop.isWait = false
  lsType : uop.lsType ≠ .cacop

/-- At another level than 0 an instruction that is decoded without an exception is
harmless, whatever its word is. -/
theorem harmless (hplv : plv ≠ 0) (hexcept : (decode plv entry).except.valid = false) :
    Harmless (decode plv entry) := by
  have hfetch : entry.except = false := by
    cases hentry : entry.except with
    | false => rfl
    | true =>
      have hvalid : (except plv entry).valid = false := hexcept
      rw [except, hentry, if_pos rfl] at hvalid
      cases hvalid
  have hraised : (except plv entry).valid = false := hexcept
  rw [except, hfetch, if_neg Bool.false_ne_true] at hraised
  have hpriv := valid_of_raise hraised
  have hfree : Reserved (signals entry.inst) = false := by
    by_contra hno
    rw [privInst_of_reserved (Bool.of_not_eq_false hno), Bool.and_true, bne_eq_false_iff_eq]
      at hpriv
    exact hplv hpriv
  simp only [Reserved, Bool.or_eq_false_iff, bne_eq_false_iff_eq, beq_eq_false_iff_ne] at hfree
  obtain ⟨⟨⟨⟨⟨hcsr, htlb⟩, hcache⟩, hertn⟩, hwait⟩, hls⟩ := hfree
  have hinvtlb : isInvtlb entry.inst = false := by
    -- `INVTLB` is itself checked
    by_contra hno
    have hcovers : LoongArch.INVTLB.covers entry.inst = true := by
      have hyes := Bool.of_not_eq_false hno
      simp only [isInvtlb, Bool.and_eq_true] at hyes
      exact hyes.1.1
    have hlist : (privInst.any fun m => m.covers entry.inst) = true :=
      List.any_eq_true.mpr ⟨LoongArch.INVTLB, by decide, hcovers⟩
    rw [hlist, Bool.and_true, bne_eq_false_iff_eq] at hpriv
    exact hplv hpriv
  refine ⟨hertn, ?_, ?_, hcache, hwait, hls⟩
  · change ((signals entry.inst).readCSR && _) = false
    rw [hcsr, Bool.false_and]
  · change tlbOp entry = .none
    rw [tlbOp, hinvtlb, Bool.and_false, if_neg Bool.false_ne_true, htlb]

end Decoder

end NopCore
