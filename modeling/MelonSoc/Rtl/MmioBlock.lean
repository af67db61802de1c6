import MelonSoc.Rtl.Clint
import MelonSoc.Rtl.I2c
import MelonSoc.Rtl.SdHost
import MelonSoc.Rtl.Soc
import MelonSoc.Rtl.Spi
import MelonSoc.Rtl.TimerMmio
import MelonSoc.Rtl.Uart

set_option autoImplicit false

/-! # The peripherals on the bus

`soc.sv` fans `mmio_bus` out to the seven peripherals: each sees the address and the data of the
request, and `cyc` and `stb` where its `sel_*` is set. The read data come back through a
multiplexer of the same signals. `gpio_mmio.sv` has one register and no decoder.
-/

namespace MelonSoc

/-- The register of `gpio_mmio.sv`, with six LEDs. -/
structure GpioMmio where
  leds : BitVec 6
  deriving DecidableEq

namespace GpioMmio

def reset : GpioMmio := { leds := 0#6 }

/-- The register after the clock edge. -/
def next (b : WbReq) (s : GpioMmio) : GpioMmio :=
  if b.cyc && b.stb && b.we && b.sel != 0#4 then { leds := b.datW.extractLsb' 0 6 } else s

/-- `bus.dat_r`. -/
def datR (s : GpioMmio) : Word := s.leds.setWidth 32

end GpioMmio

/-- The peripherals of `soc.sv`. -/
structure MmioBlock where
  gpio : GpioMmio
  uart : Uart.Pair
  i2c : I2cMmio
  timer : TimerMmio
  spi : SpiMmio
  sd : SdHost
  clint : Clint

namespace MmioBlock

/-- The parameters of the peripherals: the clock cycles of a UART bit and the dividers of the SD
clock. -/
structure Params where
  ticks : Nat
  dividers : SdHost.Dividers

/-- The pins in a cycle; `sdcmd` and `i2cSda` are the levels where the SoC does not drive them. -/
structure Pins where
  rxd : Bool
  i2cSda : Bool
  spiMiso : Bool
  sdcmd : Bool
  sddat : BitVec 4

/-- The bus of a peripheral: `mmio_bus` with `cyc` and `stb` gated by `sel_*` and
`mmio_ack_q`. -/
def busOf (p : Periph) (mmioAckQ : Bool) (b : WbReq) : WbReq :=
  { b with
    cyc := b.cyc && periphSel p b.adr && !mmioAckQ
    stb := b.stb && periphSel p b.adr && !mmioAckQ }

/-- The registers after the clock edge. -/
def next (c : Params) (mmioAckQ : Bool) (i : Pins) (b : WbReq) (s : MmioBlock) : MmioBlock :=
  { gpio := s.gpio.next (busOf .leds mmioAckQ b)
    uart := s.uart.next c.ticks i.rxd (Uart.ctl (busOf .uart mmioAckQ b))
    i2c := s.i2c.next { bus := busOf .i2c mmioAckQ b, sda := i.i2cSda }
    timer := s.timer.next (busOf .timer mmioAckQ b)
    spi := s.spi.next { bus := busOf .spi mmioAckQ b, spiMiso := i.spiMiso }
    sd := s.sd.next c.dividers { bus := busOf .sd mmioAckQ b, cmd := i.sdcmd, dat := i.sddat }
    clint := s.clint.next (busOf .clint mmioAckQ b) }

/-- `mmio_bus.dat_r`. -/
def datR (mmioAckQ : Bool) (i : Pins) (b : WbReq) (s : MmioBlock) : Word :=
  if periphSel .leds b.adr then s.gpio.datR
  else if periphSel .uart b.adr then s.uart.datR (busOf .uart mmioAckQ b)
  else if periphSel .i2c b.adr then s.i2c.datR (busOf .i2c mmioAckQ b)
  else if periphSel .timer b.adr then s.timer.datR (busOf .timer mmioAckQ b)
  else if periphSel .spi b.adr then s.spi.datR (busOf .spi mmioAckQ b)
  else if periphSel .sd b.adr then
    s.sd.datR { bus := busOf .sd mmioAckQ b, cmd := i.sdcmd, dat := i.sddat }
  else if periphSel .clint b.adr then s.clint.datR (busOf .clint mmioAckQ b)
  else 0#32

end MmioBlock

end MelonSoc
