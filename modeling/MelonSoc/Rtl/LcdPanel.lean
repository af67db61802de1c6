import MelonSoc.Rtl.LcdDma

set_option autoImplicit false

/-! # The panel side of the LCD

`vga_timing.sv`, the timing generator of the panel, and the registers of `lcd_dma.sv` on `pix_clk`:
at the first pixel of a display line the panel adopts the buffer the DMA has announced and asks for
the next line. `LcdTop` is `lcd_dma.sv` with both clocks.
-/

namespace MelonSoc

/-! ## `vga_timing` -/

/-- The registers of `vga_timing.sv`. -/
structure VgaTiming where
  hsReg : Bool
  vsReg : Bool
  hCnt : BitVec 12
  vCnt : BitVec 12
  hActive : Bool
  vActive : Bool
  activeX : BitVec 10
  activeY : BitVec 10
  deriving DecidableEq

namespace VgaTiming

def hActivePix : Nat := 480
def hFp : Nat := 2
def hSync : Nat := 41
def hBp : Nat := 2
def vActivePix : Nat := 272
def vFp : Nat := 2
def vSync : Nat := 10
def vBp : Nat := 2
def hTotal : Nat := hActivePix + hFp + hSync + hBp
def vTotal : Nat := vActivePix + vFp + vSync + vBp

/-- The registers of `t` at reset; `active_x` and `active_y` are not cleared. -/
def reset (t : VgaTiming) : VgaTiming :=
  { t with
    hsReg := false, vsReg := false, hCnt := 0#12, vCnt := 0#12, hActive := false
    vActive := false }

/-- `de`. -/
def de (t : VgaTiming) : Bool := t.hActive && t.vActive

/-- The count `c` is `n`. -/
def reaches (c : BitVec 12) (n : Nat) : Bool := c == BitVec.ofNat 12 n

/-- The registers after an edge of `pix_clk`; both polarities are 0. -/
def next (t : VgaTiming) : VgaTiming :=
  { hsReg :=
      if reaches t.hCnt (hFp - 1) then false
      else if reaches t.hCnt (hFp + hSync - 1) then true
      else t.hsReg
    vsReg :=
      if reaches t.vCnt (vFp - 1) && reaches t.hCnt (hFp - 1) then false
      else if reaches t.vCnt (vFp + vSync - 1) && reaches t.hCnt (hFp - 1) then !t.vsReg
      else t.vsReg
    hCnt := if reaches t.hCnt (hTotal - 1) then 0#12 else t.hCnt + 1#12
    vCnt :=
      if reaches t.hCnt (hFp - 1) then
        if reaches t.vCnt (vTotal - 1) then 0#12 else t.vCnt + 1#12
      else t.vCnt
    hActive :=
      if reaches t.hCnt (hFp + hSync + hBp - 1) then true
      else if reaches t.hCnt (hTotal - 1) then false
      else t.hActive
    vActive :=
      if reaches t.vCnt (vFp + vSync + vBp - 1) && reaches t.hCnt (hFp - 1) then true
      else if reaches t.vCnt (vTotal - 1) && reaches t.hCnt (hFp - 1) then false
      else t.vActive
    activeX :=
      if BitVec.ofNat 12 (hFp + hSync + hBp) ≤ t.hCnt then
        (t.hCnt - BitVec.ofNat 12 (hFp + hSync + hBp)).setWidth 10
      else t.activeX
    activeY :=
      if BitVec.ofNat 12 (vFp + vSync + vBp) ≤ t.vCnt then
        (t.vCnt - BitVec.ofNat 12 (vFp + vSync + vBp)).setWidth 10
      else t.activeY }

end VgaTiming

/-! ## The registers on `pix_clk` -/

/-- The registers of `lcd_dma.sv` on `pix_clk`. -/
structure LcdPanel where
  vga : VgaTiming
  deD : Bool
  showSel : Bool
  lineReqToggle : Bool
  lineAckSeen : Bool
  lineAckP1 : Bool
  lineAckP2 : Bool
  deriving DecidableEq

namespace LcdPanel

/-- The registers of `p` at reset. -/
def reset (p : LcdPanel) : LcdPanel :=
  { vga := p.vga.reset, deD := false, showSel := false, lineReqToggle := false
    lineAckSeen := false, lineAckP1 := false, lineAckP2 := false }

/-- `line_pulse`. -/
def linePulse (p : LcdPanel) : Bool := p.vga.de && !p.deD

/-- `new_line_ready`. -/
def newLineReady (p : LcdPanel) : Bool := p.lineAckP2 != p.lineAckSeen

/-- The panel adopts the new line at this edge. -/
def swaps (p : LcdPanel) : Bool := p.linePulse && p.newLineReady

/-- The registers after an edge of `pix_clk`. -/
def next (lineAckToggle : Bool) (p : LcdPanel) : LcdPanel :=
  { vga := p.vga.next
    deD := p.vga.de
    showSel := if p.swaps then !p.showSel else p.showSel
    lineReqToggle := if p.swaps then !p.lineReqToggle else p.lineReqToggle
    lineAckSeen := if p.swaps then p.lineAckP2 else p.lineAckSeen
    lineAckP1 := lineAckToggle
    lineAckP2 := p.lineAckP1 }

end LcdPanel

/-! ## Both clocks -/

/-- `lcd_dma.sv`. -/
structure LcdTop where
  dma : LcdDma
  panel : LcdPanel

/-- The clock edges of an instant: an edge of `app_clk` with the answers of the controller, an edge
of `pix_clk`, both or none. -/
structure LcdEdges where
  app : Option AppIn
  pix : Bool

namespace LcdTop

/-- Both domains at reset. -/
def reset (s : LcdTop) : LcdTop := { dma := s.dma.reset, panel := s.panel.reset }

/-- The registers after the edges of an instant. -/
def next (e : LcdEdges) (s : LcdTop) : LcdTop :=
  { dma :=
      match e.app with
      | some i => s.dma.next i s.panel.lineReqToggle
      | none => s.dma
    panel := if e.pix then s.panel.next s.dma.lineAckToggle else s.panel }

/-- A line buffer: `lineB` for a selection of 1 and `lineA` for 0. -/
def buffer (s : LcdTop) (sel : Bool) : BitVec 10 → BitVec 16 :=
  if sel then s.dma.lineB else s.dma.lineA

/-- `rd_pix`. -/
def rdPix (s : LcdTop) : BitVec 16 := s.buffer s.panel.showSel s.panel.vga.activeX

/-- `lcd_r`, `lcd_g` and `lcd_b`. -/
def rgb (s : LcdTop) : BitVec 16 := if s.panel.vga.de then s.rdPix else 0#16

end LcdTop

end MelonSoc
