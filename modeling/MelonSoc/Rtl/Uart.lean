import Mathlib.Data.Nat.Log
import MelonSoc.Rtl.SocPkg

set_option autoImplicit false

/-! # The UART

`uart_mmio.sv`: the transmitter `uart_tx`, the receiver `uart_rx_simple` with its two-stage
synchroniser, and the MMIO registers in front of them. The clock and the baud rate are the
parameters of all three; they are integers of 32 bits. Counters are natural numbers that wrap at
the width the source declares.
-/

namespace MelonSoc

namespace Uart

/-! ## Bit timing -/

section Ticks

variable (clkFreq uartBaud : BitVec 32)

/-- `BIT_TICKS_RAW`, in the signed arithmetic of `integer`. -/
def bitTicksRaw : BitVec 32 := (clkFreq + uartBaud.sdiv 2#32).sdiv uartBaud

/-- `BIT_TICKS` of the transmitter and `BAUD_TICKS` of the receiver. -/
def bitTicks : Nat :=
  if (0#32).slt (bitTicksRaw clkFreq uartBaud) then (bitTicksRaw clkFreq uartBaud).toNat else 1

end Ticks

/-- `BAUD_W`. -/
def baudW (ticks : Nat) : Nat := if 1 < ticks then Nat.clog 2 ticks else 1

/-- `$bits(baud_cnt)` of the receiver. -/
def rxBaudW (ticks : Nat) : Nat := Nat.clog 2 (ticks + 1)

/-- `HALF_BAUD_TICKS`. -/
def halfBaudTicks (ticks : Nat) : Nat := if 1 < ticks then ticks / 2 else 1

/-! ## `uart_tx` -/

structure Tx where
  baudCnt : Nat
  bitIndex : Nat
  txDataReg : BitVec 8
  txReady : Bool
  txd : Bool
  deriving DecidableEq

namespace Tx

def reset : Tx :=
  { baudCnt := 0, bitIndex := 0, txDataReg := 0#8, txReady := true, txd := true }

/-- The registers after the clock edge. -/
def next (ticks : Nat) (txValid : Bool) (txData : BitVec 8) (s : Tx) : Tx :=
  if s.txReady then
    if txValid then
      { baudCnt := 0, bitIndex := 0, txDataReg := txData, txReady := false, txd := false }
    else { s with baudCnt := 0, bitIndex := 0, txd := true }
  else if s.baudCnt = (ticks - 1) % 2 ^ baudW ticks then
    if s.bitIndex < 8 then
      { s with
        baudCnt := 0
        txd := s.txDataReg.getLsbD (s.bitIndex % 8)
        bitIndex := (s.bitIndex + 1) % 16 }
    else if s.bitIndex = 8 then { s with baudCnt := 0, txd := true, bitIndex := 9 }
    else { s with baudCnt := 0, txd := true, txReady := true, bitIndex := 0 }
  else { s with baudCnt := (s.baudCnt + 1) % 2 ^ baudW ticks }

end Tx

/-! ## `uart_rx_simple` -/

inductive RxState
  | idle
  | start
  | data
  | stop
  deriving DecidableEq

structure Rx where
  state : RxState
  baudCnt : Nat
  bitIndex : Nat
  rxShift : BitVec 8
  rxData : BitVec 8
  rxValid : Bool
  rxOverrun : Bool
  rxFrameErr : Bool
  rxdMeta : Bool
  rxdSync : Bool
  deriving DecidableEq

/-- What the receiver sees in a cycle. -/
structure RxIn where
  rxd : Bool
  rxReady : Bool
  clearOverrun : Bool
  clearFrameErr : Bool

/-- `rx_shift[bit_index] <= rxd_sync`. -/
def setBit (v : BitVec 8) (k : Nat) (b : Bool) : BitVec 8 :=
  if b then v ||| 1#8 <<< k else v &&& ~~~(1#8 <<< k)

namespace Rx

def reset : Rx :=
  { state := .idle, baudCnt := 0, bitIndex := 0, rxShift := 0#8, rxData := 0#8, rxValid := false
    rxOverrun := false, rxFrameErr := false, rxdMeta := true, rxdSync := true }

/-- The clears and the read, before the state machine. -/
def handshake (i : RxIn) (s : Rx) : Rx :=
  { s with
    rxOverrun := s.rxOverrun && !i.clearOverrun
    rxFrameErr := s.rxFrameErr && !i.clearFrameErr
    rxValid := s.rxValid && !i.rxReady }

/-- `baud_cnt + 1'b1`. -/
def count (ticks : Nat) (s : Rx) : Nat := (s.baudCnt + 1) % 2 ^ rxBaudW ticks

/-- `baud_cnt >= HALF_BAUD_TICKS`. -/
def halfDone (ticks : Nat) (s : Rx) : Bool := halfBaudTicks ticks % 2 ^ rxBaudW ticks ≤ s.baudCnt

/-- `baud_cnt >= BAUD_TICKS_M1`. -/
def bitDone (ticks : Nat) (s : Rx) : Bool := (ticks - 1) % 2 ^ rxBaudW ticks ≤ s.baudCnt

/-- The state machine: `s` are the registers before the edge, `t` is what the handshake has made of
them. -/
def fsm (ticks : Nat) (s t : Rx) : Rx :=
  match s.state with
  | .idle =>
      { t with
        baudCnt := 0
        bitIndex := 0
        state := if s.rxdSync then .idle else .start }
  | .start =>
      if s.halfDone ticks then
        { t with baudCnt := 0, state := if s.rxdSync then .idle else .data }
      else { t with baudCnt := s.count ticks }
  | .data =>
      if s.bitDone ticks then
        let t := { t with baudCnt := 0, rxShift := setBit s.rxShift s.bitIndex s.rxdSync }
        if s.bitIndex = 7 then { t with bitIndex := 0, state := .stop }
        else { t with bitIndex := (s.bitIndex + 1) % 8 }
      else { t with baudCnt := s.count ticks }
  | .stop =>
      if s.bitDone ticks then
        let t := { t with baudCnt := 0, state := .idle }
        if s.rxdSync then
          { t with
            rxOverrun := if s.rxValid then true else t.rxOverrun
            rxData := s.rxShift
            rxValid := true }
        else { t with rxFrameErr := true }
      else { t with baudCnt := s.count ticks }

/-- The registers after the clock edge. -/
def next (ticks : Nat) (i : RxIn) (s : Rx) : Rx :=
  { fsm ticks s (s.handshake i) with rxdMeta := i.rxd, rxdSync := s.rxdMeta }

end Rx

/-! ## `uart` -/

structure Pair where
  tx : Tx
  rx : Rx
  deriving DecidableEq

/-- The inputs of `uart` besides the line. -/
structure Ctl where
  txValid : Bool
  txData : BitVec 8
  rxReady : Bool
  clearOverrun : Bool
  clearFrameErr : Bool

namespace Pair

def reset : Pair := { tx := .reset, rx := .reset }

def next (ticks : Nat) (rxd : Bool) (c : Ctl) (s : Pair) : Pair :=
  { tx := s.tx.next ticks c.txValid c.txData
    rx := s.rx.next ticks
      { rxd := rxd, rxReady := c.rxReady, clearOverrun := c.clearOverrun
        clearFrameErr := c.clearFrameErr } }

end Pair

/-! ## `uart_mmio` -/

def selDat (b : WbReq) : Bool := alignWord b.adr == ioUartDatAddr

def selCtrl (b : WbReq) : Bool := alignWord b.adr == ioUartCtrlAddr

/-- What an access to the registers drives into `uart`. -/
def ctl (b : WbReq) : Ctl :=
  { txValid := b.cyc && b.stb && b.we && selDat b && b.sel != 0#4
    txData := b.datW.setWidth 8
    rxReady := b.cyc && b.stb && !b.we && selDat b
    clearOverrun := b.cyc && b.stb && b.we && selCtrl b && b.datW.getLsbD 1
    clearFrameErr := b.cyc && b.stb && b.we && selCtrl b && b.datW.getLsbD 2 }

namespace Pair

def dataRdata (s : Pair) : Word := s.rx.rxData.setWidth 32

/-- A bit of `ctrl_rdata`. -/
def statusBit (k : Nat) (b : Bool) : Word := if b then 1#32 <<< k else 0#32

def ctrlRdata (s : Pair) : Word :=
  statusBit 0 s.rx.rxValid ||| statusBit 1 s.rx.rxOverrun ||| statusBit 2 s.rx.rxFrameErr |||
    statusBit 8 s.tx.txReady ||| statusBit 9 (!s.tx.txReady)

/-- `bus.dat_r`. -/
def datR (b : WbReq) (s : Pair) : Word :=
  if selDat b then s.dataRdata else if selCtrl b then s.ctrlRdata else 0#32

end Pair

end Uart

end MelonSoc
