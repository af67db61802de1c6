import MelonSoc.Lib.BitFields
import MelonSoc.Rtl.SocPkg

set_option autoImplicit false

/-! # The SPI master

`spi_mmio.sv`: the MMIO registers and the engine that shifts one byte out and one in, most
significant bit first. `DIV` is half a clock period in cycles. The two `always_ff` blocks read the
registers of before the edge; within the second one a later assignment wins.
-/

namespace MelonSoc

/-- The registers of `spi_mmio.sv`. -/
structure SpiMmio where
  txReg : BitVec 8
  rxReg : BitVec 8
  divReg : BitVec 16
  csNReg : Bool
  busy : Bool
  done : Bool
  shIn : BitVec 8
  bitIdx : BitVec 3
  divCnt : BitVec 16
  lastRise : Bool
  spiSck : Bool
  spiMosi : Bool
  deriving DecidableEq

namespace SpiMmio

/-- What the module sees in a cycle. -/
structure In where
  bus : WbReq
  spiMiso : Bool

/-- `DEFAULT_DIV[15:0]` for a clock and an SPI rate. -/
def defaultDiv (clkFreqHz spiDefaultHz : Nat) : BitVec 16 :=
  BitVec.ofNat 16
    (if 0 < clkFreqHz / (2 * spiDefaultHz) then clkFreqHz / (2 * spiDefaultHz) else 1)

def reset (clkFreqHz spiDefaultHz : Nat) : SpiMmio :=
  { txReg := 0xFF#8, rxReg := 0xFF#8, divReg := defaultDiv clkFreqHz spiDefaultHz, csNReg := true
    busy := false, done := false, shIn := 0#8, bitIdx := 7#3, divCnt := 0#16, lastRise := false
    spiSck := false, spiMosi := true }

/-! ## Selection -/

def selTxrx (b : WbReq) : Bool := alignWord b.adr == ioSpiTxrxAddr
def selCtrl (b : WbReq) : Bool := alignWord b.adr == ioSpiCtrlAddr
def selStatus (b : WbReq) : Bool := alignWord b.adr == ioSpiStatusAddr
def selDiv (b : WbReq) : Bool := alignWord b.adr == ioSpiDivAddr

/-- `bus.cyc && bus.stb && bus.we && (|bus.sel)`. -/
def written (b : WbReq) : Bool := b.cyc && b.stb && b.we && b.sel != 0#4

/-- A write of CTRL with the bit that starts a transfer. -/
def startWrite (b : WbReq) : Bool := written b && selCtrl b && b.datW.getLsbD 1

/-! ## The engine -/

/-- `div_eff`. -/
def divEff (s : SpiMmio) : BitVec 16 := if s.divReg = 0#16 then 1#16 else s.divReg

/-- `tick`. -/
def tick (s : SpiMmio) : Bool := s.divCnt == 0#16

/-- The MMIO registers of `s` are latched in `t`. -/
def latch (b : WbReq) (s t : SpiMmio) : SpiMmio :=
  { t with
    txReg := if written b && selTxrx b then b.datW.extractLsb' 0 8 else s.txReg
    divReg := if written b && selDiv b then b.datW.extractLsb' 0 16 else s.divReg
    csNReg := if written b && selCtrl b then b.datW.getLsbD 0 else s.csNReg }

/-- A tick of a transfer; `t` is what the assignments before it have made of `s`. -/
def edge (miso : Bool) (s t : SpiMmio) : SpiMmio :=
  let t := { t with divCnt := s.divEff }
  if !s.spiSck then
    { t with
      spiSck := true
      shIn := BitFields.put s.shIn s.bitIdx.toNat (BitVec.ofBool miso)
      lastRise := if s.bitIdx = 0#3 then true else t.lastRise }
  else if s.lastRise then
    { t with spiSck := false, busy := false, done := true, rxReg := s.shIn }
  else
    { t with
      spiSck := false
      bitIdx := s.bitIdx - 1#3
      spiMosi := s.txReg.getLsbD (s.bitIdx - 1#3).toNat }

/-- The engine after the clock edge, before the MMIO registers are latched. -/
def engine (i : In) (s : SpiMmio) : SpiMmio :=
  let t := if s.busy && s.divCnt != 0#16 then { s with divCnt := s.divCnt - 1#16 } else s
  let t := if startWrite i.bus && !s.busy then
      { t with
        busy := true, done := false, divCnt := s.divEff
        spiSck := false, spiMosi := s.txReg.getLsbD 7
        shIn := 0#8, bitIdx := 7#3, lastRise := false }
    else t
  let t := if s.busy && s.tick then edge i.spiMiso s t else t
  if !s.busy && !startWrite i.bus then { t with spiSck := false } else t

/-- The registers after the clock edge. -/
def next (i : In) (s : SpiMmio) : SpiMmio := latch i.bus s (engine i s)

/-! ## The bus -/

/-- `status_rdata`. -/
def statusRdata (s : SpiMmio) : Word :=
  (BitVec.ofBool s.done ++ BitVec.ofBool s.busy).setWidth 32

/-- `bus.dat_r`. -/
def datR (b : WbReq) (s : SpiMmio) : Word :=
  if selTxrx b then s.rxReg.setWidth 32
  else if selCtrl b then (BitVec.ofBool s.csNReg).setWidth 32
  else if selStatus b then s.statusRdata
  else if selDiv b then s.divReg.setWidth 32
  else 0#32

end SpiMmio

end MelonSoc
