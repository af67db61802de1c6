import MelonSoc.Rtl.DdrBridge

set_option autoImplicit false

/-! # The LCD framebuffer DMA

`lcd_dma.sv` on `app_clk`: it reads the framebuffer line by line, a beat of eight pixels at a
time, and fills the line buffer that the panel does not show. The panel side runs on the pixel
clock; it shows in the toggle that asks for a line and in nothing else. `app_cmd` is constantly
a read and `app_burst_number` constantly 0.
-/

namespace MelonSoc

/-- `FB_BASE`. -/
def fbBase : Word := 0x87000000#32

/-- `LCD_W`. -/
def lcdW : Nat := 480

/-- `LCD_H`. -/
def lcdH : Nat := 272

/-- `BEAT_PIX`. -/
def beatPix : Nat := 8

/-- `LINE_BEATS`. -/
def lineBeats : Nat := lcdW / beatPix

/-- `FB_BYTES`. -/
def fbBytes : Nat := lcdW * lcdH * 2

/-- `d_state_t`. -/
inductive DmaState
  | idle
  | req
  | wait
  | push
  deriving DecidableEq

/-- The registers on `app_clk`, with the two line buffers. -/
structure LcdDma where
  dSt : DmaState
  fByte : Word
  cmdEn : Bool
  cap : Line
  pixIdx : BitVec 3
  beatCnt : BitVec 10
  fillSel : Bool
  wrEn : Bool
  wrData : BitVec 16
  wrAddr : BitVec 10
  lineReqA1 : Bool
  lineReqA2 : Bool
  lineReqSeen : Bool
  lineAckToggle : Bool
  primed : Bool
  lineA : BitVec 10 → BitVec 16
  lineB : BitVec 10 → BitVec 16

namespace LcdDma

/-- The registers of `s` at reset; the line buffers are not cleared. -/
def reset (s : LcdDma) : LcdDma :=
  { s with
    dSt := .idle, fByte := fbBase, cmdEn := false, cap := 0#128, pixIdx := 0#3, beatCnt := 0#10
    fillSel := false, wrEn := false, wrData := 0#16, wrAddr := 0#10, lineReqA1 := false
    lineReqA2 := false, lineReqSeen := false, lineAckToggle := false, primed := false }

/-- `app_addr`. -/
def appAddr (s : LcdDma) : BitVec 28 := s.fByte.extractLsb' 4 25 ++ 0#3

/-- `line_req_edge`. -/
def lineReqEdge (s : LcdDma) : Bool := s.lineReqA2 != s.lineReqSeen

/-- The byte address of the beat after `f_byte`; behind the last one the framebuffer starts
again. -/
def fByteNext (s : LcdDma) : Word :=
  if fbBase + BitVec.ofNat 32 fbBytes - 16#32 ≤ s.fByte then fbBase else s.fByte + 16#32

/-- The line buffers after an edge of `app_clk`. -/
def pushed (s : LcdDma) : LcdDma :=
  if s.wrEn then
    if s.fillSel then { s with lineB := Function.update s.lineB s.wrAddr s.wrData }
    else { s with lineA := Function.update s.lineA s.wrAddr s.wrData }
  else s

/-- The registers after an edge of `app_clk` outside reset. -/
def next (i : AppIn) (lineReqToggle : Bool) (s : LcdDma) : LcdDma :=
  let s1 := { s.pushed with
    lineReqA1 := lineReqToggle
    lineReqA2 := s.lineReqA1
    wrEn := false }
  match s.dSt with
  | .idle =>
      if i.initCalibComplete && (!s.primed || s.lineReqEdge) then
        { s1 with
          cmdEn := false, primed := true, lineReqSeen := s.lineReqA2, fillSel := !s.fillSel
          beatCnt := 0#10, pixIdx := 0#3, dSt := .req }
      else { s1 with cmdEn := false }
  | .req =>
      if s.cmdEn && i.cmdRdy then { s1 with cmdEn := false, dSt := .wait }
      else { s1 with cmdEn := i.initCalibComplete }
  | .wait =>
      if i.rdataValid then
        { s1 with cmdEn := false, cap := i.rdata, pixIdx := 0#3, dSt := .push }
      else { s1 with cmdEn := false }
  | .push =>
      let s2 := { s1 with
        cmdEn := false
        wrEn := true
        wrData := s.cap.extractLsb' (16 * s.pixIdx.toNat) 16
        wrAddr := BitVec.ofNat 10 (s.beatCnt.toNat * beatPix + s.pixIdx.toNat) }
      if s.pixIdx = 7#3 then
        if s.beatCnt.toNat = lineBeats - 1 then
          { s2 with fByte := s.fByteNext, lineAckToggle := !s.lineAckToggle, dSt := .idle }
        else { s2 with fByte := s.fByteNext, beatCnt := s.beatCnt + 1#10, dSt := .req }
      else { s2 with pixIdx := s.pixIdx + 1#3 }

end LcdDma

end MelonSoc
