import MelonSoc.Rtl.SocPkg

set_option autoImplicit false

/-! # The CSR file and the trap unit

`priv_csr.sv`: the machine and supervisor CSRs, the selection of interrupts and the entry to
and return from traps. The outputs are functions of the registers and the inputs of the cycle;
`PrivCsr.next` is the register update.
-/

namespace MelonSoc

def privU : BitVec 2 := 0b00#2
def privS : BitVec 2 := 0b01#2
def privM : BitVec 2 := 0b11#2

def misaValue : Word := 0x40141105#32
def mstatusMask : Word := 0x007e19aa#32
def sstatusMask : Word := 0x000c0122#32
def medelegMask : Word := 0x0000b3ff#32
def midelegMask : Word := 0x00000222#32
def irqMask : Word := 0x00000aaa#32
def sipWriteMask : Word := 0x00000002#32
def mipWriteMask : Word := 0x00000222#32

/-- The registers of `priv_csr.sv`. -/
structure PrivCsr where
  currentPriv : BitVec 2
  mstatus : Word
  medeleg : Word
  mideleg : Word
  mie : Word
  mtvec : Word
  mcounteren : Word
  mscratch : Word
  mepc : Word
  mcause : Word
  mtval : Word
  stvec : Word
  scounteren : Word
  sscratch : Word
  sepc : Word
  scause : Word
  stval : Word
  satp : Word
  supervisorPending : Word
  cycleCounter : BitVec 64
  instretCounter : BitVec 64

/-- The inputs of `priv_csr.sv`. -/
structure PrivIn where
  irqPending : Word
  exFire : Bool
  exPc : Word
  csrValid : Bool
  csrAddr : BitVec 12
  csrWrite : Bool
  csrWdata : Word
  exceptionValid : Bool
  exceptionCause : Word
  exceptionTval : Word
  mret : Bool
  sret : Bool
  sfenceVma : Bool
  wfi : Bool
  retire : Bool

/-- `w` with bit `n` set to `b`. -/
def setBit (w : Word) (n : Nat) (b : Bool) : Word :=
  if b then w ||| (1#32 <<< n) else w &&& ~~~(1#32 <<< n)

/-- `mstatus[12:11] <= p`. -/
def setMpp (mstatus : Word) (p : BitVec 2) : Word :=
  setBit (setBit mstatus 12 (p.getLsbD 1)) 11 (p.getLsbD 0)

/-- `mstatus[12:11]`. -/
def mppOf (mstatus : Word) : BitVec 2 := mstatus.extractLsb' 11 2

/-- `warl_mstatus`. -/
def warlMstatus (value : Word) : Word :=
  let result := value &&& mstatusMask
  if mppOf result == 0b10#2 then setMpp result privU else result

/-- The `xtvec` write: the reserved modes are written as direct. -/
def warlTvec (wdata : Word) : Word :=
  if wdata.extractLsb' 0 2 ≤ 0b01#2 then wdata else wdata &&& 0xFFFFFFFC#32

/-- `{x[31:1], 1'b0}`. -/
def clearBit0 (x : Word) : Word := x &&& 0xFFFFFFFE#32

namespace PrivCsr

def reset : PrivCsr :=
  { currentPriv := privM, mstatus := 0#32, medeleg := 0#32, mideleg := 0#32, mie := 0#32
    mtvec := 0#32, mcounteren := 0#32, mscratch := 0#32, mepc := 0#32, mcause := 0#32
    mtval := 0#32, stvec := 0#32, scounteren := 0#32, sscratch := 0#32, sepc := 0#32
    scause := 0#32, stval := 0#32, satp := 0#32, supervisorPending := 0#32
    cycleCounter := 0#64, instretCounter := 0#64 }

/-- `mip_value`. -/
def mipValue (irqPending : Word) (s : PrivCsr) : Word :=
  (irqPending &&& 0x00000888#32) ||| (s.supervisorPending &&& midelegMask)

/-! ## CSR reads -/

/-- `csr_rdata_o` when the address is implemented, `none` otherwise. -/
def csrRead (irqPending : Word) (addr : BitVec 12) (s : PrivCsr) : Option Word :=
  if addr == 0x100#12 then some (s.mstatus &&& sstatusMask)
  else if addr == 0x104#12 then some (s.mie &&& s.mideleg)
  else if addr == 0x105#12 then some s.stvec
  else if addr == 0x106#12 then some s.scounteren
  else if addr == 0x140#12 then some s.sscratch
  else if addr == 0x141#12 then some s.sepc
  else if addr == 0x142#12 then some s.scause
  else if addr == 0x143#12 then some s.stval
  else if addr == 0x144#12 then some (s.mipValue irqPending &&& s.mideleg)
  else if addr == 0x180#12 then some s.satp
  else if addr == 0x300#12 then some s.mstatus
  else if addr == 0x301#12 then some misaValue
  else if addr == 0x302#12 then some s.medeleg
  else if addr == 0x303#12 then some s.mideleg
  else if addr == 0x304#12 then some s.mie
  else if addr == 0x305#12 then some s.mtvec
  else if addr == 0x306#12 then some s.mcounteren
  else if addr == 0x310#12 then some 0#32
  else if addr == 0x340#12 then some s.mscratch
  else if addr == 0x341#12 then some s.mepc
  else if addr == 0x342#12 then some s.mcause
  else if addr == 0x343#12 then some s.mtval
  else if addr == 0x344#12 then some (s.mipValue irqPending)
  else if addr == 0xb00#12 then some (s.cycleCounter.extractLsb' 0 32)
  else if addr == 0xb80#12 then some (s.cycleCounter.extractLsb' 32 32)
  else if addr == 0xb02#12 then some (s.instretCounter.extractLsb' 0 32)
  else if addr == 0xb82#12 then some (s.instretCounter.extractLsb' 32 32)
  else if addr == 0xc00#12 then some (s.cycleCounter.extractLsb' 0 32)
  else if addr == 0xc01#12 then some (s.cycleCounter.extractLsb' 0 32)
  else if addr == 0xc80#12 then some (s.cycleCounter.extractLsb' 32 32)
  else if addr == 0xc81#12 then some (s.cycleCounter.extractLsb' 32 32)
  else if addr == 0xc02#12 then some (s.instretCounter.extractLsb' 0 32)
  else if addr == 0xc82#12 then some (s.instretCounter.extractLsb' 32 32)
  else if addr == 0xf11#12 then some 0#32
  else if addr == 0xf12#12 then some 0#32
  else if addr == 0xf13#12 then some 0#32
  else if addr == 0xf14#12 then some 0#32
  else none

/-- `csr_rdata_o`. -/
def csrRdata (irqPending : Word) (addr : BitVec 12) (s : PrivCsr) : Word :=
  (s.csrRead irqPending addr).getD 0#32

/-- `csr_implemented`. -/
def csrImplemented (irqPending : Word) (addr : BitVec 12) (s : PrivCsr) : Bool :=
  (s.csrRead irqPending addr).isSome

/-- The bit `n` of the counter-enable registers at the current privilege. -/
def counterEnabled (n : Nat) (s : PrivCsr) : Bool :=
  if s.currentPriv == privS then s.mcounteren.getLsbD n
  else if s.currentPriv == privU then s.mcounteren.getLsbD n && s.scounteren.getLsbD n
  else true

/-- `counter_allowed`. -/
def counterAllowed (addr : BitVec 12) (s : PrivCsr) : Bool :=
  if addr == 0xc00#12 || addr == 0xc80#12 then s.counterEnabled 0
  else if addr == 0xc01#12 || addr == 0xc81#12 then s.counterEnabled 1
  else if addr == 0xc02#12 || addr == 0xc82#12 then s.counterEnabled 2
  else true

/-- `csr_illegal_o`. -/
def csrIllegal (irqPending : Word) (csrValid csrWrite : Bool) (addr : BitVec 12)
    (s : PrivCsr) : Bool :=
  csrValid &&
    (!s.csrImplemented irqPending addr ||
     s.currentPriv < addr.extractLsb' 8 2 ||
     (csrWrite && addr.extractLsb' 10 2 == 0b11#2) ||
     !s.counterAllowed addr ||
     (addr == 0x180#12 && s.mstatus.getLsbD 20 && s.currentPriv == privS))

/-- `xret_illegal_o`. -/
def xretIllegal (mret sret sfenceVma wfi : Bool) (s : PrivCsr) : Bool :=
  (mret && s.currentPriv != privM) ||
  (sret && (s.currentPriv == privU || (s.currentPriv == privS && s.mstatus.getLsbD 22))) ||
  (sfenceVma && (s.currentPriv == privU || (s.currentPriv == privS && s.mstatus.getLsbD 20))) ||
  (wfi && (s.currentPriv == privU || (s.currentPriv == privS && s.mstatus.getLsbD 21)))

/-! ## Interrupts and traps -/

def pendingEnabled (irqPending : Word) (s : PrivCsr) : Word :=
  s.mipValue irqPending &&& s.mie &&& irqMask

def mCandidates (irqPending : Word) (s : PrivCsr) : Word :=
  s.pendingEnabled irqPending &&& ~~~s.mideleg

def sCandidates (irqPending : Word) (s : PrivCsr) : Word :=
  s.pendingEnabled irqPending &&& s.mideleg

def mIrqEnabled (s : PrivCsr) : Bool :=
  s.currentPriv < privM || (s.currentPriv == privM && s.mstatus.getLsbD 3)

def sIrqEnabled (s : PrivCsr) : Bool :=
  s.currentPriv == privU || (s.currentPriv == privS && s.mstatus.getLsbD 1)

/-- An M-mode interrupt is selected. -/
def interruptToM (irqPending : Word) (s : PrivCsr) : Bool :=
  s.mIrqEnabled && s.mCandidates irqPending != 0#32

/-- `interrupt_to_s`. -/
def interruptToS (irqPending : Word) (s : PrivCsr) : Bool :=
  !s.interruptToM irqPending &&
    (s.currentPriv != privM && s.sIrqEnabled && s.sCandidates irqPending != 0#32)

/-- `interrupt_valid`. -/
def interruptValid (irqPending : Word) (s : PrivCsr) : Bool :=
  s.interruptToM irqPending || s.interruptToS irqPending

/-- `interrupt_code`. -/
def interruptCode (irqPending : Word) (s : PrivCsr) : BitVec 5 :=
  if s.interruptToM irqPending then
    let m := s.mCandidates irqPending
    if m.getLsbD 11 then 11#5
    else if m.getLsbD 3 then 3#5
    else if m.getLsbD 7 then 7#5
    else if m.getLsbD 9 then 9#5
    else if m.getLsbD 1 then 1#5
    else 5#5
  else if s.interruptToS irqPending then
    let c := s.sCandidates irqPending
    if c.getLsbD 9 then 9#5 else if c.getLsbD 1 then 1#5 else 5#5
  else 0#5

/-- The cause an interrupt is reported with. -/
def interruptCause (irqPending : Word) (s : PrivCsr) : Word :=
  0x80000000#32 ||| (s.interruptCode irqPending).setWidth 32

/-- `trap_to_s`. -/
def trapToS (i : PrivIn) (s : PrivCsr) : Bool :=
  if i.exceptionValid then
    s.currentPriv != privM && s.medeleg.getLsbD (i.exceptionCause.extractLsb' 0 5).toNat
  else s.interruptToS i.irqPending

/-- `trap_taken_o`. -/
def trapTaken (i : PrivIn) (s : PrivCsr) : Bool :=
  i.exFire && (i.exceptionValid || s.interruptValid i.irqPending)

/-- `return_taken_o`. -/
def returnTaken (i : PrivIn) (s : PrivCsr) : Bool :=
  i.exFire && !s.trapTaken i && !s.xretIllegal i.mret i.sret i.sfenceVma i.wfi &&
    (i.mret || i.sret)

/-- `redirect_valid_o`. -/
def redirectValid (i : PrivIn) (s : PrivCsr) : Bool := s.trapTaken i || s.returnTaken i

/-- `trap_vector`. -/
def trapVector (i : PrivIn) (s : PrivCsr) : Word := if s.trapToS i then s.stvec else s.mtvec

/-- `redirect_pc_o`. -/
def redirectPc (i : PrivIn) (s : PrivCsr) : Word :=
  if s.trapTaken i then
    let base := s.trapVector i &&& 0xFFFFFFFC#32
    if !i.exceptionValid && (s.trapVector i).extractLsb' 0 2 == 0b01#2 then
      base + ((s.interruptCode i.irqPending).setWidth 32 <<< 2)
    else base
  else if s.returnTaken i then (if i.mret then s.mepc else s.sepc)
  else 0#32

/-! ## Register update -/

/-- Trap entry. -/
def enterTrap (i : PrivIn) (s : PrivCsr) : PrivCsr :=
  let cause := if i.exceptionValid then i.exceptionCause else s.interruptCause i.irqPending
  let tval := if i.exceptionValid then i.exceptionTval else 0#32
  if s.trapToS i then
    { s with
      sepc := clearBit0 i.exPc
      scause := cause
      stval := tval
      mstatus := setBit (setBit (setBit s.mstatus 5 (s.mstatus.getLsbD 1)) 1 false) 8
        (s.currentPriv == privS)
      currentPriv := privS }
  else
    { s with
      mepc := clearBit0 i.exPc
      mcause := cause
      mtval := tval
      mstatus := setMpp (setBit (setBit s.mstatus 7 (s.mstatus.getLsbD 3)) 3 false) s.currentPriv
      currentPriv := privM }

/-- MRET. -/
def mretUpdate (s : PrivCsr) : PrivCsr :=
  let m1 := setBit (setBit s.mstatus 3 (s.mstatus.getLsbD 7)) 7 true
  let m2 := if mppOf s.mstatus != privM then setBit m1 17 false else m1
  { s with currentPriv := mppOf s.mstatus, mstatus := setMpp m2 privU }

/-- SRET. -/
def sretUpdate (s : PrivCsr) : PrivCsr :=
  { s with
    currentPriv := if s.mstatus.getLsbD 8 then privS else privU
    mstatus := setBit (setBit (setBit (setBit s.mstatus 1 (s.mstatus.getLsbD 5)) 5 true) 8 false)
      17 false }

/-- A CSR write. The counters in `s1` have already advanced; a write to one half of a counter
replaces that half. -/
def csrUpdate (addr : BitVec 12) (wdata : Word) (s s1 : PrivCsr) : PrivCsr :=
  if addr == 0x100#12 then
    { s1 with mstatus := (s.mstatus &&& ~~~sstatusMask) ||| (wdata &&& sstatusMask) }
  else if addr == 0x104#12 then
    { s1 with mie := (s.mie &&& ~~~s.mideleg) ||| (wdata &&& s.mideleg &&& irqMask) }
  else if addr == 0x105#12 then { s1 with stvec := warlTvec wdata }
  else if addr == 0x106#12 then { s1 with scounteren := wdata &&& 0x7#32 }
  else if addr == 0x140#12 then { s1 with sscratch := wdata }
  else if addr == 0x141#12 then { s1 with sepc := clearBit0 wdata }
  else if addr == 0x142#12 then { s1 with scause := wdata }
  else if addr == 0x143#12 then { s1 with stval := wdata }
  else if addr == 0x144#12 then
    { s1 with supervisorPending :=
        (s.supervisorPending &&& ~~~sipWriteMask) ||| (wdata &&& sipWriteMask) }
  else if addr == 0x180#12 then { s1 with satp := wdata }
  else if addr == 0x300#12 then { s1 with mstatus := warlMstatus wdata }
  else if addr == 0x302#12 then { s1 with medeleg := wdata &&& medelegMask }
  else if addr == 0x303#12 then { s1 with mideleg := wdata &&& midelegMask }
  else if addr == 0x304#12 then { s1 with mie := wdata &&& irqMask }
  else if addr == 0x305#12 then { s1 with mtvec := warlTvec wdata }
  else if addr == 0x306#12 then { s1 with mcounteren := wdata &&& 0x7#32 }
  else if addr == 0x340#12 then { s1 with mscratch := wdata }
  else if addr == 0x341#12 then { s1 with mepc := clearBit0 wdata }
  else if addr == 0x342#12 then { s1 with mcause := wdata }
  else if addr == 0x343#12 then { s1 with mtval := wdata }
  else if addr == 0x344#12 then
    { s1 with supervisorPending :=
        (s.supervisorPending &&& ~~~mipWriteMask) ||| (wdata &&& mipWriteMask) }
  else if addr == 0xb00#12 then
    { s1 with cycleCounter := s1.cycleCounter.extractLsb' 32 32 ++ wdata }
  else if addr == 0xb80#12 then
    { s1 with cycleCounter := wdata ++ s1.cycleCounter.extractLsb' 0 32 }
  else if addr == 0xb02#12 then
    { s1 with instretCounter := s1.instretCounter.extractLsb' 32 32 ++ wdata }
  else if addr == 0xb82#12 then
    { s1 with instretCounter := wdata ++ s1.instretCounter.extractLsb' 0 32 }
  else s1

/-- The free-running counters after the clock edge. -/
def tickCounters (retire : Bool) (s : PrivCsr) : PrivCsr :=
  { s with
    cycleCounter := s.cycleCounter + 1#64
    instretCounter := if retire then s.instretCounter + 1#64 else s.instretCounter }

/-- The instruction in EX writes a CSR at this edge. -/
def csrWriteTaken (i : PrivIn) (s : PrivCsr) : Bool :=
  !s.trapTaken i && !s.returnTaken i && i.exFire && i.csrValid && i.csrWrite &&
    !s.csrIllegal i.irqPending i.csrValid i.csrWrite i.csrAddr

/-- The registers after the clock edge. -/
def next (i : PrivIn) (s : PrivCsr) : PrivCsr :=
  let s1 := s.tickCounters i.retire
  if s.trapTaken i then s1.enterTrap i
  else if s.returnTaken i then (if i.mret then s1.mretUpdate else s1.sretUpdate)
  else if s.csrWriteTaken i then csrUpdate i.csrAddr i.csrWdata s s1
  else s1

end PrivCsr

end MelonSoc
