import MelonSoc.Rtl.LcdDma

set_option autoImplicit false

/-! # The port of the DDR controller

`top.v` on `app_clk`: the app side of the DDR bridge and the LCD DMA share the command port of the
controller. The DMA is held in reset, and the arbiter with it, until a counter that starts with
the board has run out.
-/

namespace MelonSoc

/-- The app sides of the two masters, the registers of the arbiter and `lcd_rst_n`. -/
structure Top where
  cpu : BridgeApp
  lcd : LcdDma
  lcdGrant : Bool
  inflightLcd : BitVec 2
  cpuAppLockMeta : Bool
  cpuAppLockSync : Bool
  lcdRstN : Bool

/-- What reaches `app_clk` in a cycle: the registers of the bridge on the other clock, the lock,
the toggle of the panel, the end of the start counter and the answer of the controller. -/
structure TopIn where
  bus : BridgeBus
  cpuAppLock : Bool
  lineReqToggle : Bool
  lcdStarted : Bool
  ddr : AppIn

/-- The command port of the controller. -/
structure AppCmd where
  cmdEn : Bool
  cmd : BitVec 3
  addr : BitVec 28
  wren : Bool
  dataEnd : Bool
  data : Line

namespace Top

/-- At power up the line buffers hold anything. -/
def reset (lcd : LcdDma) : Top :=
  { cpu := BridgeApp.reset, lcd := lcd.reset, lcdGrant := false, inflightLcd := 0#2
    cpuAppLockMeta := false, cpuAppLockSync := false, lcdRstN := false }

/-! ## Routing -/

/-- The command and the write data toward the controller. -/
def ddrApp (s : Top) : AppCmd :=
  { cmdEn := if s.lcdGrant then s.lcd.cmdEn else s.cpu.cmdEn
    cmd := if s.lcdGrant then 1#3 else s.cpu.cmd
    addr := if s.lcdGrant then s.lcd.appAddr else s.cpu.addr
    wren := s.cpu.wren
    dataEnd := s.cpu.dataEnd
    data := s.cpu.data }

/-- `beat_is_lcd`. -/
def beatIsLcd (i : AppIn) (s : Top) : Bool := s.inflightLcd != 0#2 && i.rdataValid

/-- What the CPU bridge sees of the controller. -/
def cpuApp (i : AppIn) (s : Top) : AppIn :=
  { i with
    cmdRdy := if s.lcdGrant then false else i.cmdRdy
    rdataValid := i.rdataValid && !s.beatIsLcd i }

/-- What the DMA sees of the controller. -/
def lcdApp (i : AppIn) (s : Top) : AppIn :=
  { i with
    cmdRdy := if s.lcdGrant then i.cmdRdy else false
    rdataValid := i.rdataValid && s.beatIsLcd i }

/-! ## The arbiter -/

/-- `lcd_issue`. -/
def lcdIssue (i : AppIn) (s : Top) : Bool := s.lcdGrant && s.lcd.cmdEn && (s.lcdApp i).cmdRdy

/-- `lcd_retire`. -/
def lcdRetire (i : AppIn) (s : Top) : Bool := i.rdataValid && s.inflightLcd != 0#2

def lcdGrantNext (s : Top) : Bool :=
  if !s.lcdGrant then
    !s.cpuAppLockSync && s.cpu.idle && s.inflightLcd == 0#2 && s.lcd.cmdEn
  else if s.inflightLcd == 0#2 && (!s.lcd.cmdEn || s.cpuAppLockSync) then false
  else s.lcdGrant

def inflightLcdNext (i : AppIn) (s : Top) : BitVec 2 :=
  if s.lcdIssue i && !s.lcdRetire i then s.inflightLcd + 1#2
  else if !s.lcdIssue i && s.lcdRetire i then s.inflightLcd - 1#2
  else s.inflightLcd

/-- The registers after an edge of `app_clk`. -/
def next (x : TopIn) (s : Top) : Top :=
  let s1 := { s with
    cpu := s.cpu.next (s.cpuApp x.ddr) x.bus
    lcdRstN := s.lcdRstN || x.lcdStarted }
  if s.lcdRstN then
    { s1 with
      lcd := s.lcd.next (s.lcdApp x.ddr) x.lineReqToggle
      lcdGrant := s.lcdGrantNext
      inflightLcd := s.inflightLcdNext x.ddr
      cpuAppLockMeta := x.cpuAppLock
      cpuAppLockSync := s.cpuAppLockMeta }
  else
    { s1 with
      lcd := s.lcd.pushed.reset
      lcdGrant := false
      inflightLcd := 0#2
      cpuAppLockMeta := false
      cpuAppLockSync := false }

end Top

end MelonSoc
