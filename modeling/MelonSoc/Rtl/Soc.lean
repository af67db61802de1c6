import MelonSoc.Rtl.Hart

set_option autoImplicit false

/-! # The SoC around the core

`soc.sv` and `mem.sv`: the decoder of the data bus, the acknowledge registers of MMIO and of
unmapped accesses, the block RAMs, the fetch path to DDR, the arbiter in front of the DDR
bridge, and the bus side of the bridge itself (`ddr3_wb_bridge.sv`).

The peripherals and the DDR clock domain stay outside. Their behaviour is an input of the
cycle: the interrupt lines, the word the selected peripheral presents, and the moment at which
the response toggle of the bridge arrives. A request is performed on the memory `ddr` when its
response is taken; until then the bridge is busy, so nobody can see the memory in between.
-/

namespace MelonSoc

/-- The peripherals `soc.sv` selects between on the MMIO bus. -/
inductive Periph
  | leds
  | uart
  | i2c
  | timer
  | spi
  | sd
  | clint
  deriving DecidableEq

/-- The registers of the bus side of `ddr3_wb_bridge.sv` and its read register. -/
structure Bridge where
  busBusy : Bool
  rspAckPending : Bool
  ack : Bool
  datR : Word
  reqWe : Bool
  reqAddr : Word
  reqDatW : Word
  reqSel : BitVec 4
  rspDatR : Word

/-- `ddr_owner_*`. -/
structure DdrArbiter where
  ownerValid : Bool
  ownerIsData : Bool
  cooldown : Bool

/-- The registers of the fetch path, with the read register of PROGROM. -/
structure FetchPath where
  romRdata : Word
  ddrPending : Bool
  ddrKilled : Bool
  ddrAddr : Word
  ddrRdataQ : Word

/-- The registers of the data path. `ramAck` and `ramDatR` belong to `mem.sv`. -/
structure DataPath where
  ramAck : Bool
  ramDatR : Word
  mmioAckQ : Bool
  unmappedAckQ : Bool
  cpuDataRdataQ : Word

/-- The memories, addressed by word. -/
structure Memories where
  progrom : BitVec 13 → Word
  dataram : BitVec 12 → Word
  ddr : BitVec 30 → Word

structure Soc where
  hart : Hart
  data : DataPath
  fetch : FetchPath
  arb : DdrArbiter
  bridge : Bridge
  mem : Memories

/-- What the outside contributes in a cycle. -/
structure SocIn where
  extIrq : Bool
  swIrq : Bool
  timerIrq : Bool
  mmioDatR : Word
  ddrRsp : Bool

/-! ## Decoding -/

/-- `instr.addr[PROGROM_AW+1:2]`. -/
def progromIndex (addr : Word) : BitVec 13 := addr.extractLsb' 2 13

/-- `data.adr[DATARAM_AW+1:2]`. -/
def dataramIndex (addr : Word) : BitVec 12 := addr.extractLsb' 2 12

/-- `sel_*`. -/
def periphSel (p : Periph) (adr : Word) : Bool :=
  let a := alignWord adr
  match p with
  | .leds => a == ioLedsAddr
  | .uart => a == ioUartDatAddr || a == ioUartCtrlAddr
  | .i2c => a == ioI2cTxrxAddr || a == ioI2cCmdAddr || a == ioI2cStatusAddr || a == ioI2cDivAddr
  | .timer => a == ioTimerCtrlAddr || a == ioTimerPrescAddr || a == ioTimerCountAddr ||
      a == ioTimerCmpAddr || a == ioTimerPeriodAddr || a == ioTimerStatusAddr
  | .spi => a == ioSpiTxrxAddr || a == ioSpiCtrlAddr || a == ioSpiStatusAddr || a == ioSpiDivAddr
  | .sd => a == ioSdCmdAddr || a == ioSdArgAddr || a == ioSdCtrlAddr || a == ioSdResp0Addr ||
      a == ioSdDebugAddr || a == ioSdCrcAddr ||
      (ioSdDataAddr ≤ a && a < ioSdDataAddr + 512#32)
  | .clint => a == ioClintMsipAddr || a == ioClintMtimecmpAddr || a == ioClintMtimecmpAddr + 4#32 ||
      a == ioClintMtimeAddr || a == ioClintMtimeAddr + 4#32

namespace Soc

/-! ## The data bus -/

/-- `cpu_data_bus`, driven by the hart. -/
def dataReq (s : Soc) : WbReq := s.hart.dataReq

/-- `data_unmapped`. -/
def dataUnmapped (s : Soc) : Bool :=
  s.dataReq.cyc && s.dataReq.stb && !isMappedDataAddress s.dataReq.adr

/-- `ram_bus.cyc && ram_bus.stb`. -/
def ramStrobe (s : Soc) : Bool :=
  s.dataReq.cyc && s.dataReq.stb && isDataramRegion s.dataReq.adr && !s.dataUnmapped

/-- `mmio_bus.cyc && mmio_bus.stb`. -/
def mmioStrobe (s : Soc) : Bool := s.dataReq.cyc && s.dataReq.stb && isMappedMmio s.dataReq.adr

/-- The `cyc && stb` a peripheral sees. -/
def periphStrobe (p : Periph) (s : Soc) : Bool :=
  s.mmioStrobe && periphSel p s.dataReq.adr && !s.data.mmioAckQ

/-- `ddr_data_bus`. -/
def ddrDataReq (s : Soc) : WbReq :=
  { s.dataReq with
    cyc := s.dataReq.cyc && isDdrRegion s.dataReq.adr
    stb := s.dataReq.stb && isDdrRegion s.dataReq.adr }

/-- The answer of the bridge reaches `ddr_data_bus`. -/
def ddrDataRsp (s : Soc) : WbRsp :=
  if s.arb.ownerValid && !s.arb.cooldown && s.arb.ownerIsData then
    { datR := s.bridge.datR, ack := s.bridge.ack }
  else { datR := 0#32, ack := false }

/-- `cpu_data_rdata_mux` and the acknowledge selected with it. -/
def dataMux (i : SocIn) (s : Soc) : WbRsp :=
  if isMappedMmio s.dataReq.adr then { datR := i.mmioDatR, ack := s.data.mmioAckQ }
  else if isDdrRegion s.dataReq.adr then s.ddrDataRsp
  else if s.dataUnmapped then { datR := 0#32, ack := s.data.unmappedAckQ }
  else { datR := s.data.ramDatR, ack := s.data.ramAck }

/-- The answer on `cpu_data_bus`. -/
def dataRsp (i : SocIn) (s : Soc) : WbRsp :=
  let m := s.dataMux i
  { datR := if m.ack then m.datR else s.data.cpuDataRdataQ, ack := m.ack }

/-! ## The hart -/

/-- The inputs of the hart; `ext_write_valid` is tied to 0. -/
def hartIn (i : SocIn) (s : Soc) : HartIn :=
  { extIrq := i.extIrq, swIrq := i.swIrq, timerIrq := i.timerIrq
    extWriteValid := false, extWriteAddr := 0#32, extWriteSel := 0#4
    data := s.dataRsp i }

/-! ## The fetch path -/

/-- `instr_bus`, driven by the hart. -/
def instrReq (i : SocIn) (s : Soc) : ImemReq := s.hart.instrReq (s.hartIn i)

/-- `ddr_instr_bus`. -/
def ddrInstrReq (i : SocIn) (s : Soc) : WbReq :=
  let q := s.instrReq i
  let cyc := s.fetch.ddrPending || (q.ren && isDdrRegion q.addr)
  { adr := if s.fetch.ddrPending then s.fetch.ddrAddr else q.addr
    datW := 0#32, sel := 0b1111#4, we := false, cyc := cyc, stb := cyc, lock := false }

/-- The answer of the bridge reaches `ddr_instr_bus`. -/
def ddrInstrRsp (s : Soc) : WbRsp :=
  if s.arb.ownerValid && !s.arb.cooldown && !s.arb.ownerIsData then
    { datR := s.bridge.datR, ack := s.bridge.ack }
  else { datR := 0#32, ack := false }

/-- The answer on `instr_bus`. -/
def instrRsp (i : SocIn) (s : Soc) : ImemRsp :=
  let q := s.instrReq i
  let live := s.ddrInstrRsp.ack && s.fetch.ddrPending && !s.fetch.ddrKilled && !q.flush
  if isDdrRegion q.addr then
    { rdata := if live then s.ddrInstrRsp.datR else s.fetch.ddrRdataQ
      stall := !(live && q.addr == s.fetch.ddrAddr) }
  else { rdata := s.fetch.romRdata, stall := false }

def fetchNext (i : SocIn) (s : Soc) : FetchPath :=
  let q := s.instrReq i
  let f := { s.fetch with
    romRdata := if q.ren && !isDdrRegion q.addr then s.mem.progrom (progromIndex q.addr)
      else s.fetch.romRdata }
  if s.ddrInstrRsp.ack then
    { f with
      ddrPending := false
      ddrKilled := false
      ddrRdataQ := if !s.fetch.ddrKilled && !q.flush then s.ddrInstrRsp.datR
        else s.fetch.ddrRdataQ }
  else if q.flush && s.fetch.ddrPending then { f with ddrKilled := true }
  else if !s.fetch.ddrPending && q.ren && isDdrRegion q.addr then
    { f with ddrPending := true, ddrKilled := false, ddrAddr := q.addr }
  else f

/-! ## The DDR arbiter and the bridge -/

/-- `ddr_bus`: the request the owner puts to the bridge. -/
def ddrReq (i : SocIn) (s : Soc) : WbReq :=
  if s.arb.cooldown || !s.arb.ownerValid then
    { adr := 0#32, datW := 0#32, sel := 0#4, we := false, cyc := false, stb := false
      lock := false }
  else if s.arb.ownerIsData then s.ddrDataReq
  else s.ddrInstrReq i

def arbNext (i : SocIn) (s : Soc) : DdrArbiter :=
  let release (lock cyc : Bool) : DdrArbiter :=
    -- a master that withdrew its request keeps the bridge until it has answered
    if !lock && (s.bridge.ack || (!cyc && !s.bridge.busBusy)) then
      { s.arb with ownerValid := false, cooldown := s.bridge.ack }
    else s.arb
  if s.arb.ownerValid then
    if s.arb.ownerIsData then release s.ddrDataReq.lock s.ddrDataReq.cyc
    else release (s.ddrInstrReq i).lock (s.ddrInstrReq i).cyc
  else if s.arb.cooldown then { s.arb with cooldown := false }
  else if s.ddrDataReq.cyc then { s.arb with ownerValid := true, ownerIsData := true }
  else if (s.ddrInstrReq i).cyc then { s.arb with ownerValid := true, ownerIsData := false }
  else s.arb

/-- The response of the DDR side is taken at this edge. -/
def bridgeRespond (i : SocIn) (s : Soc) : Bool :=
  !s.bridge.rspAckPending && s.bridge.busBusy && i.ddrRsp

/-- The bridge accepts the request on `ddr_bus` at this edge. -/
def bridgeAccept (i : SocIn) (s : Soc) : Bool :=
  !s.bridge.rspAckPending && !s.bridgeRespond i && !s.bridge.busBusy && (s.ddrReq i).cyc &&
    (s.ddrReq i).stb && !s.bridge.ack

def bridgeNext (i : SocIn) (s : Soc) : Bridge :=
  let b := { s.bridge with ack := false }
  let q := s.ddrReq i
  if s.bridge.rspAckPending then { b with ack := true, busBusy := false, rspAckPending := false }
  else if s.bridgeRespond i then
    let word := if s.bridge.reqWe then s.bridge.rspDatR else s.mem.ddr (wordOf s.bridge.reqAddr)
    { b with datR := word, rspDatR := word, rspAckPending := true }
  else if s.bridgeAccept i then
    { b with
      reqWe := q.we, reqAddr := q.adr, reqDatW := q.datW, reqSel := q.sel, busBusy := true }
  else b

/-! ## The data path and the memories -/

def dataNext (i : SocIn) (s : Soc) : DataPath :=
  { ramAck := s.ramStrobe
    ramDatR := if s.ramStrobe && !s.dataReq.we then s.mem.dataram (dataramIndex s.dataReq.adr)
      else s.data.ramDatR
    mmioAckQ := s.mmioStrobe && !s.data.mmioAckQ
    unmappedAckQ := s.dataUnmapped && !s.data.unmappedAckQ
    cpuDataRdataQ :=
      if s.dataReq.cyc && s.dataReq.stb && (s.dataMux i).ack then (s.dataMux i).datR
      else s.data.cpuDataRdataQ }

def memNext (i : SocIn) (s : Soc) : Memories :=
  let q := s.dataReq
  let b := s.bridge
  { s.mem with
    dataram := if s.ramStrobe && q.we then
        Function.update s.mem.dataram (dataramIndex q.adr)
          (mergeBytes (s.mem.dataram (dataramIndex q.adr)) q.datW q.sel)
      else s.mem.dataram
    ddr := if s.bridgeRespond i && b.reqWe then
        Function.update s.mem.ddr (wordOf b.reqAddr)
          (mergeBytes (s.mem.ddr (wordOf b.reqAddr)) b.reqDatW b.reqSel)
      else s.mem.ddr }

/-! ## All registers -/

/-- The state after reset, with the given contents of the memories. -/
def reset (m : Memories) : Soc :=
  { hart := Hart.reset
    data := { ramAck := false, ramDatR := 0#32, mmioAckQ := false, unmappedAckQ := false
              cpuDataRdataQ := 0#32 }
    fetch := { romRdata := 0#32, ddrPending := false, ddrKilled := false, ddrAddr := 0#32
               ddrRdataQ := 0#32 }
    arb := { ownerValid := false, ownerIsData := false, cooldown := false }
    bridge := { busBusy := false, rspAckPending := false, ack := false, datR := 0#32
                reqWe := false, reqAddr := 0#32, reqDatW := 0#32, reqSel := 0#4
                rspDatR := 0#32 }
    mem := m }

/-- The registers after the clock edge. -/
def next (i : SocIn) (s : Soc) : Soc :=
  { hart := s.hart.next (s.hartIn i) (s.instrRsp i)
    data := s.dataNext i
    fetch := s.fetchNext i
    arb := s.arbNext i
    bridge := s.bridgeNext i
    mem := s.memNext i }

end Soc

end MelonSoc
