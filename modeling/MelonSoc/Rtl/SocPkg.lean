import Mathlib.Data.BitVec
import Mathlib.Logic.Function.Basic

set_option autoImplicit false

/-! # The address map and the bus signals

`soc_pkg.sv` fixes the address map of the SoC, `bus_if.sv` the two interfaces the modules
are connected by: `imem_if` for instruction fetch and `wb_if` for data. An address is a byte
address of 32 bits. Memories are functions of the word address, so a read needs no bound.
-/

namespace MelonSoc

/-- A machine word; also a byte address. -/
abbrev Word := BitVec 32

/-- `addr[31:2]`: the word a byte address falls into. -/
def wordOf (addr : Word) : BitVec 30 := addr.extractLsb' 2 30

/-! ## `soc_pkg` -/

def ioBaseAddr : Word := 0x00400000#32

def ioLedsAddr : Word := ioBaseAddr + 0x04#32
def ioUartDatAddr : Word := ioBaseAddr + 0x08#32
def ioUartCtrlAddr : Word := ioBaseAddr + 0x10#32
def ioI2cTxrxAddr : Word := ioBaseAddr + 0x20#32
def ioI2cCmdAddr : Word := ioBaseAddr + 0x24#32
def ioI2cStatusAddr : Word := ioBaseAddr + 0x28#32
def ioI2cDivAddr : Word := ioBaseAddr + 0x2C#32
def ioTimerCtrlAddr : Word := ioBaseAddr + 0x30#32
def ioTimerPrescAddr : Word := ioBaseAddr + 0x34#32
def ioTimerCountAddr : Word := ioBaseAddr + 0x38#32
def ioTimerCmpAddr : Word := ioBaseAddr + 0x3C#32
def ioTimerPeriodAddr : Word := ioBaseAddr + 0x40#32
def ioTimerStatusAddr : Word := ioBaseAddr + 0x44#32
def ioSpiTxrxAddr : Word := ioBaseAddr + 0x50#32
def ioSpiCtrlAddr : Word := ioBaseAddr + 0x54#32
def ioSpiStatusAddr : Word := ioBaseAddr + 0x58#32
def ioSpiDivAddr : Word := ioBaseAddr + 0x5C#32
def ioSdCmdAddr : Word := ioBaseAddr + 0x60#32
def ioSdArgAddr : Word := ioBaseAddr + 0x64#32
def ioSdCtrlAddr : Word := ioBaseAddr + 0x68#32
def ioSdResp0Addr : Word := ioBaseAddr + 0x6C#32
def ioSdDebugAddr : Word := ioBaseAddr + 0x70#32
def ioSdCrcAddr : Word := ioBaseAddr + 0x74#32
def ioSdDataAddr : Word := ioBaseAddr + 0x80#32
def ioClintBaseAddr : Word := ioBaseAddr
def ioClintMsipAddr : Word := ioClintBaseAddr + 0x0#32
def ioClintMtimecmpAddr : Word := ioClintBaseAddr + 0x4000#32
def ioClintMtimeAddr : Word := ioClintBaseAddr + 0xBFF8#32

def ddrBaseAddr : Word := 0x80000000#32
def ddrSizeBytes : Word := 0x08000000#32
def ddrEndAddr : Word := ddrBaseAddr + ddrSizeBytes
def dataramBaseAddr : Word := 0x00010000#32
/-- `DATARAM_WORDS * 4` with 4096 words. -/
def dataramSizeBytes : Word := 0x4000#32
def dataramEndAddr : Word := dataramBaseAddr + dataramSizeBytes

/-- Byte address to word address. -/
def alignWord (addr : Word) : Word := addr.extractLsb' 2 30 ++ 0#2

def isDdrRegion (addr : Word) : Bool := ddrBaseAddr ≤ addr && addr < ddrEndAddr

def isDataramRegion (addr : Word) : Bool := dataramBaseAddr ≤ addr && addr < dataramEndAddr

def isMappedMmio (addr : Word) : Bool :=
  let wordAddr := alignWord addr
  wordAddr == ioLedsAddr ||
  wordAddr == ioUartDatAddr ||
  wordAddr == ioUartCtrlAddr ||
  (ioI2cTxrxAddr ≤ wordAddr && wordAddr ≤ ioI2cDivAddr) ||
  (ioTimerCtrlAddr ≤ wordAddr && wordAddr ≤ ioTimerStatusAddr) ||
  (ioSpiTxrxAddr ≤ wordAddr && wordAddr ≤ ioSpiDivAddr) ||
  (ioSdCmdAddr ≤ wordAddr && wordAddr ≤ ioSdCrcAddr) ||
  (ioSdDataAddr ≤ wordAddr && wordAddr < ioSdDataAddr + 512#32) ||
  wordAddr == ioClintMsipAddr ||
  wordAddr == ioClintMtimecmpAddr ||
  wordAddr == ioClintMtimecmpAddr + 4#32 ||
  wordAddr == ioClintMtimeAddr ||
  wordAddr == ioClintMtimeAddr + 4#32

def isMappedDataAddress (addr : Word) : Bool :=
  isDataramRegion addr || isDdrRegion addr || isMappedMmio addr

def supportsAtomic (addr : Word) : Bool := isDataramRegion addr || isDdrRegion addr

/-! ## `bus_if`

Of each interface the two directions are separate records: what the master drives and what
the slave answers. `wb_if.stall` is left out, no module of the core reads it. -/

/-- `imem_if`, driven by the master. -/
structure ImemReq where
  addr : Word
  ren : Bool
  flush : Bool

/-- `imem_if`, driven by the slave. -/
structure ImemRsp where
  rdata : Word
  stall : Bool

/-- `wb_if`, driven by the master. -/
structure WbReq where
  adr : Word
  datW : Word
  sel : BitVec 4
  we : Bool
  cyc : Bool
  stb : Bool
  lock : Bool

/-- `wb_if`, driven by the slave. -/
structure WbRsp where
  datR : Word
  ack : Bool

/-- The bytes of `old` selected by `sel` are replaced by those of `datW`: the byte-enabled
write of `mem.sv`. -/
def mergeBytes (old datW : Word) (sel : BitVec 4) : Word :=
  (if sel.getLsbD 3 then datW.extractLsb' 24 8 else old.extractLsb' 24 8) ++
  (if sel.getLsbD 2 then datW.extractLsb' 16 8 else old.extractLsb' 16 8) ++
  (if sel.getLsbD 1 then datW.extractLsb' 8 8 else old.extractLsb' 8 8) ++
  (if sel.getLsbD 0 then datW.extractLsb' 0 8 else old.extractLsb' 0 8)

/-! ## Regions

The three regions a data address can fall into are disjoint; the walker's page tables lie in
the first two only. -/

theorem isDdrRegion_iff (a : Word) :
    isDdrRegion a = true ↔ 0x80000000 ≤ a.toNat ∧ a.toNat < 0x88000000 := by
  simp [isDdrRegion, ddrBaseAddr, ddrEndAddr, ddrSizeBytes, BitVec.le_def, BitVec.lt_def]

theorem isDataramRegion_iff (a : Word) :
    isDataramRegion a = true ↔ 0x10000 ≤ a.toNat ∧ a.toNat < 0x14000 := by
  simp [isDataramRegion, dataramBaseAddr, dataramEndAddr, dataramSizeBytes, BitVec.le_def,
    BitVec.lt_def]

theorem not_dataram_of_ddr {a : Word} (h : isDdrRegion a = true) : isDataramRegion a = false := by
  rw [isDdrRegion_iff] at h
  rw [← Bool.not_eq_true, isDataramRegion_iff]
  omega

theorem not_ddr_of_dataram {a : Word} (h : isDataramRegion a = true) : isDdrRegion a = false := by
  rw [isDataramRegion_iff] at h
  rw [← Bool.not_eq_true, isDdrRegion_iff]
  omega

theorem alignWord_toNat (a : Word) : (alignWord a).toNat = a.toNat / 4 * 4 := by
  have ha : a.toNat < 2 ^ 32 := a.isLt
  show (a.extractLsb' 2 30 ++ 0#2 : BitVec (30 + 2)).toNat = _
  rw [BitVec.toNat_append, BitVec.extractLsb'_toNat, Nat.shiftRight_eq_div_pow, Nat.shiftLeft_eq,
    BitVec.toNat_zero, Nat.or_zero]
  omega

theorem alignWord_range_of_mmio {a : Word} (h : isMappedMmio a = true) :
    0x400000 ≤ (alignWord a).toNat ∧ (alignWord a).toNat + 4 ≤ 0x410000 := by
  unfold isMappedMmio at h
  generalize alignWord a = w at h ⊢
  have hin : ∀ c : Word, w = c → 0x400000 ≤ c.toNat → c.toNat + 4 ≤ 0x410000 →
      0x400000 ≤ w.toNat ∧ w.toNat + 4 ≤ 0x410000 := by
    rintro c rfl h1 h2
    exact ⟨h1, h2⟩
  have hbetween : ∀ c d : Word, c ≤ w ∧ w ≤ d → 0x400000 ≤ c.toNat → d.toNat + 4 ≤ 0x410000 →
      0x400000 ≤ w.toNat ∧ w.toNat + 4 ≤ 0x410000 := by
    rintro c d ⟨h1, h2⟩ hc hd
    rw [BitVec.le_def] at h1 h2
    omega
  simp only [Bool.or_eq_true, Bool.and_eq_true, beq_iff_eq, decide_eq_true_eq] at h
  rcases h with (((((((((((h | h) | h) | h) | h) | h) | h) | h) | h) | h) | h) | h) | h
  · exact hin _ h (by decide) (by decide)
  · exact hin _ h (by decide) (by decide)
  · exact hin _ h (by decide) (by decide)
  · exact hbetween _ _ h (by decide) (by decide)
  · exact hbetween _ _ h (by decide) (by decide)
  · exact hbetween _ _ h (by decide) (by decide)
  · exact hbetween _ _ h (by decide) (by decide)
  · exact hbetween _ _ ⟨h.1, BitVec.le_of_lt h.2⟩ (by decide) (by decide)
  · exact hin _ h (by decide) (by decide)
  · exact hin _ h (by decide) (by decide)
  · exact hin _ h (by decide) (by decide)
  · exact hin _ h (by decide) (by decide)
  · exact hin _ h (by decide) (by decide)

/-- The registers of the peripherals lie in one block of 64 KiB. -/
theorem isMappedMmio_range {a : Word} (h : isMappedMmio a = true) :
    0x400000 ≤ a.toNat ∧ a.toNat < 0x410000 := by
  have hr := alignWord_range_of_mmio h
  rw [alignWord_toNat] at hr
  omega

theorem not_mmio_of_ddr {a : Word} (h : isDdrRegion a = true) : isMappedMmio a = false := by
  rw [isDdrRegion_iff] at h
  by_contra hm
  have := isMappedMmio_range (by simpa using hm)
  omega

theorem not_mmio_of_dataram {a : Word} (h : isDataramRegion a = true) :
    isMappedMmio a = false := by
  rw [isDataramRegion_iff] at h
  by_contra hm
  have := isMappedMmio_range (by simpa using hm)
  omega

/-- A mapped data address lies in exactly one of the three regions. -/
theorem region_cases {a : Word} (h : isMappedDataAddress a = true) :
    (isDataramRegion a = true ∧ isDdrRegion a = false ∧ isMappedMmio a = false) ∨
    (isDataramRegion a = false ∧ isDdrRegion a = true ∧ isMappedMmio a = false) ∨
    (isDataramRegion a = false ∧ isDdrRegion a = false ∧ isMappedMmio a = true) := by
  simp only [isMappedDataAddress, Bool.or_eq_true] at h
  rcases h with (h | h) | h
  · exact .inl ⟨h, not_ddr_of_dataram h, not_mmio_of_dataram h⟩
  · exact .inr (.inl ⟨not_dataram_of_ddr h, h, not_mmio_of_ddr h⟩)
  · refine .inr (.inr ⟨?_, ?_, h⟩)
    · by_contra hr
      rw [not_mmio_of_dataram (by simpa using hr)] at h
      cases h
    · by_contra hd
      rw [not_mmio_of_ddr (by simpa using hd)] at h
      cases h

end MelonSoc
