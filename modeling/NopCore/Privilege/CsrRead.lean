import NopCore.Privilege.Csr

/-!
# Reading a control register

The read switch puts the fields of the addressed register at their offsets; all other
bits are zero, and so is a register that nothing is mapped to.

Two kinds of fields change on their own: the value of the timer and the pending lines.
All others change only by what commit sends.
-/

namespace NopCore

namespace CSRAddress

def EUEN : BitVec 14 := 0x2
def PGD : BitVec 14 := 0x1b
def CPUID : BitVec 14 := 0x20
def PRCFG1 : BitVec 14 := 0x21
def PRCFG2 : BitVec 14 := 0x22
def PRCFG3 : BitVec 14 := 0x23
def TVAL : BitVec 14 := 0x42

end CSRAddress

/-- A field at its offset. -/
def csrRead {w : Nat} (bitOffset : Nat) (that : BitVec w) : UWord :=
  that.setWidth 32 <<< bitOffset

/-- A flag at its offset. -/
def csrReadBool (bitOffset : Nat) (that : Bool) : UWord := csrRead bitOffset (BitVec.ofBool that)

def TLBELO.reads (e : TLBELO) : List UWord :=
  [csrReadBool 0 e.v, csrReadBool 1 e.d, csrRead 2 e.plv, csrRead 4 e.mat, csrReadBool 6 e.g,
    csrRead 8 e.ppn]

def DMW.reads (d : DMW) : List UWord :=
  [csrReadBool 0 d.plv0, csrReadBool 3 d.plv3, csrRead 4 d.mat, csrRead 25 d.pseg,
    csrRead 29 d.vseg]

/-- The pending lines as they are read. -/
def InterruptHandler.estatReads (s : InterruptHandler) : List UWord :=
  [csrRead 0 s.estatIS0, csrRead 2 s.estatIS2, csrReadBool 11 s.estatIS11, csrRead 12 0#1]

namespace PrivilegedUnit

variable (p : PrivilegedUnit)

def pgd : BitVec 20 := if p.handler.badvVADDR.getLsbD 31 then p.pgdhBASE else p.pgdlBASE

/-- The fields of every register that can be read. -/
def mapping : List (BitVec 14 × List UWord) :=
  [(CSRAddress.CRMD,
      [csrRead 0 p.handler.crmdPLV, csrReadBool 2 p.handler.crmdIE,
        csrReadBool 3 p.handler.crmdDA, csrReadBool 4 p.handler.crmdPG, csrRead 5 p.crmdDATF,
        csrRead 7 p.crmdDATM]),
    (CSRAddress.PRMD, [csrRead 0 p.handler.prmdPPLV, csrReadBool 2 p.handler.prmdPIE]),
    (CSRAddress.EUEN, []),
    (CSRAddress.ECFG, [csrRead 0 p.interrupts.ecfgLIE0, csrRead 11 p.interrupts.ecfgLIE11]),
    (CSRAddress.ESTAT,
      p.interrupts.estatReads ++
        [csrRead 16 p.handler.estat.ecode, csrRead 22 p.handler.estat.esubcode]),
    (CSRAddress.ERA, [csrRead 0 p.handler.eraPC]),
    (CSRAddress.BADV, [csrRead 0 p.handler.badvVADDR]),
    (CSRAddress.EENTRY, [csrRead 6 p.handler.eentryVA]),
    (CSRAddress.CPUID, []),
    (CSRAddress.SAVE0, [csrRead 0 p.save0]),
    (CSRAddress.SAVE1, [csrRead 0 p.save1]),
    (CSRAddress.SAVE2, [csrRead 0 p.save2]),
    (CSRAddress.SAVE3, [csrRead 0 p.save3]),
    (CSRAddress.LLBCTL,
      [csrReadBool 2 p.handler.llbctlKLO, csrReadBool 0 p.handler.llbctlLLBIT]),
    (CSRAddress.TID, [csrRead 0 p.interrupts.tidTID]),
    (CSRAddress.TCFG,
      [csrReadBool 0 p.interrupts.tcfgEN, csrReadBool 1 p.interrupts.tcfgPERIODIC,
        csrRead 2 p.interrupts.tcfgINITVAL]),
    (CSRAddress.TVAL, [csrRead 0 p.interrupts.tvalTIMEVAL]),
    (CSRAddress.TICLR, []),
    (CSRAddress.TLBIDX,
      [csrRead 0 p.tlbidxINDEX, csrRead 24 p.handler.tlbidxPS, csrReadBool 31 p.tlbidxNE]),
    (CSRAddress.TLBEHI, [csrRead 13 p.handler.tlbehiVPPN]),
    (CSRAddress.TLBELO0, p.tlbelo0.reads),
    (CSRAddress.TLBELO1, p.tlbelo1.reads),
    (CSRAddress.ASID, [csrRead 0 p.asid, csrRead 16 0xa#8]),
    (CSRAddress.PGDL, [csrRead 12 p.pgdlBASE]),
    (CSRAddress.PGDH, [csrRead 12 p.pgdhBASE]),
    (CSRAddress.PGD, [csrRead 12 p.pgd]),
    (CSRAddress.TLBRENTRY, [csrRead 6 p.handler.tlbrentryPA]),
    (CSRAddress.DMW0, p.dmw0.reads),
    (CSRAddress.DMW1, p.dmw1.reads),
    (CSRAddress.PRCFG1, [4#32 ||| 63#32 <<< 4]),
    (CSRAddress.PRCFG2, [1#32 <<< 12]),
    (CSRAddress.PRCFG3, [1#32 ||| 15#32 <<< 4])]

/-- The fields of a register side by side. -/
def assemble (reads : List UWord) : UWord := reads.foldr (· ||| ·) 0

/-- What the read port shows of the register at `addr`. -/
def readData (addr : BitVec 14) : UWord := assemble ((p.mapping.lookup addr).getD [])

/-- The bits of a register that only instructions and exceptions change: all but the timer
value and the lines 2 to 9 and 11 of `ESTAT`. -/
def steadyBits (addr : BitVec 14) : UWord :=
  if addr = CSRAddress.TVAL then 0#32
  else if addr = CSRAddress.ESTAT then ~~~0xbfc#32
  else BitVec.allOnes 32

/-! ## Reading again later -/

theorem assemble_append (as bs : List UWord) :
    assemble (as ++ bs) = assemble as ||| assemble bs := by
  induction as with
  | nil => exact BitVec.zero_or.symm
  | cons a as ih =>
    change a ||| assemble (as ++ bs) = (a ||| assemble as) ||| assemble bs
    rw [ih, BitVec.or_assoc]

/-- Of the lines only those that are written by software are steady. -/
theorem assemble_estatReads (s : InterruptHandler) :
    assemble s.estatReads &&& steadyBits CSRAddress.ESTAT = csrRead 0 s.estatIS0 := by
  have hne : CSRAddress.ESTAT ≠ CSRAddress.TVAL := by decide
  rw [steadyBits, if_neg hne, if_pos rfl]
  simp only [assemble, InterruptHandler.estatReads, List.foldr_cons, List.foldr_nil,
    csrReadBool, csrRead]
  generalize s.estatIS0 = is0
  generalize s.estatIS2 = is2
  cases s.estatIS11 <;> revert is2 <;> revert is0 <;> decide +kernel

/-- A cycle in which commit asks for nothing leaves the steady bits of all registers. -/
theorem readData_step {innerCounterDownEvery : Nat} {p : PrivilegedUnit} {c : CommitSignals}
    {intrpt : BitVec 8} (h : c.Plain) (hlink : c.llbit = p.handler.llbctlLLBIT)
    (addr : BitVec 14) :
    (p.step innerCounterDownEvery c intrpt).readData addr &&& steadyBits addr =
      p.readData addr &&& steadyBits addr := by
  rw [step_plain h, hlink]
  by_cases htval : addr = CSRAddress.TVAL
  · rw [steadyBits, if_pos htval, BitVec.and_zero, BitVec.and_zero]
  · by_cases hestat : addr = CSRAddress.ESTAT
    · subst hestat
      change assemble (InterruptHandler.estatReads _ ++ _) &&& _ =
        assemble (InterruptHandler.estatReads _ ++ _) &&& _
      rw [assemble_append, assemble_append, BitVec.and_or_distrib_right,
        BitVec.and_or_distrib_right, assemble_estatReads, assemble_estatReads]
      rfl
    · -- the fields of the other registers have not been written
      have htval' : (addr == CSRAddress.TVAL) = false := beq_eq_false_iff_ne.mpr htval
      have hestat' : (addr == CSRAddress.ESTAT) = false := beq_eq_false_iff_ne.mpr hestat
      simp only [readData, mapping, List.lookup_cons, List.lookup_nil, htval', hestat']
      rfl

end PrivilegedUnit

end NopCore
