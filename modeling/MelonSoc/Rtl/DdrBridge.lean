import MelonSoc.Rtl.SocPkg

set_option autoImplicit false

/-! # The DDR bridge

`ddr3_wb_bridge.sv` with its two clocks. The bus side runs on `clk` and speaks Wishbone, the
app side runs on `app_clk` and speaks the command protocol of the DDR controller. A request
and its answer cross as a toggle with the payload beside it, both through two registers of the
receiving clock. `rdata_end` is read by nobody and `app_burst_number` is constantly 0; both are
left out.
-/

namespace MelonSoc

/-- A line of DDR: 16 bytes. -/
abbrev Line := BitVec 128

/-- `state_t`. -/
inductive BridgeState
  | idle
  | capture
  | readCmd
  | readWait
  | writeCmd
  | ack
  deriving DecidableEq

/-- The payload of a request: `req_we`, `req_addr`, `req_dat_w`, `req_sel`. -/
structure BridgeReq where
  we : Bool
  addr : Word
  datW : Word
  sel : BitVec 4
  deriving DecidableEq

/-- The registers on `clk`. -/
structure BridgeBus where
  busy : Bool
  reqToggle : Bool
  rspToggleMeta : Bool
  rspToggleSync : Bool
  rspToggleSeen : Bool
  rspAckPending : Bool
  rspDatRMeta : Word
  rspDatRSync : Word
  req : BridgeReq
  datR : Word
  ack : Bool

/-- The registers on `app_clk`. The last six drive the command port of the controller. -/
structure BridgeApp where
  state : BridgeState
  reqToggleMeta : Bool
  reqToggleSync : Bool
  reqToggleSeen : Bool
  reqMeta : BridgeReq
  reqSync : BridgeReq
  rspToggle : Bool
  appReq : BridgeReq
  rspDatR : Word
  line : Line
  addr : BitVec 28
  cmdEn : Bool
  cmd : BitVec 3
  wren : Bool
  dataEnd : Bool
  data : Line

/-- What the controller answers in a cycle of `app_clk`. -/
structure AppIn where
  cmdRdy : Bool
  dataRdy : Bool
  rdataValid : Bool
  rdata : Line
  initCalibComplete : Bool

/-! ## Reset -/

def BridgeReq.reset : BridgeReq := { we := false, addr := 0#32, datW := 0#32, sel := 0#4 }

def BridgeBus.reset : BridgeBus :=
  { busy := false, reqToggle := false, rspToggleMeta := false, rspToggleSync := false
    rspToggleSeen := false, rspAckPending := false, rspDatRMeta := 0#32, rspDatRSync := 0#32
    req := BridgeReq.reset, datR := 0#32, ack := false }

def BridgeApp.reset : BridgeApp :=
  { state := .idle, reqToggleMeta := false, reqToggleSync := false, reqToggleSeen := false
    reqMeta := BridgeReq.reset, reqSync := BridgeReq.reset, rspToggle := false
    appReq := BridgeReq.reset, rspDatR := 0#32, line := 0#128, addr := 0#28, cmdEn := false
    cmd := 0#3, wren := false, dataEnd := false, data := 0#128 }

/-! ## Lines and words -/

/-- `app_word_sel`: the word of its line that a byte address falls into. -/
def wordSel (addr : Word) : BitVec 2 := addr.extractLsb' 2 2

/-- `app_line_addr`, with `APP_ADDR_W` = 28. -/
def appLineAddr (addr : Word) : BitVec 28 := addr.extractLsb' 4 25 ++ 0#3

/-- `line[8*k +: 8] = b`. -/
def putByte (line : Line) (k : Nat) (b : BitVec 8) : Line :=
  (line &&& ~~~(0xFF#128 <<< (8 * k))) ||| (b.setWidth 128 <<< (8 * k))

/-- `merge_word`: the bytes of `wordData` selected by `byteSel` replace those of the word. -/
def mergeWord (oldLine : Line) (wordIndex : BitVec 2) (wordData : Word) (byteSel : BitVec 4) :
    Line :=
  let step (merged : Line) (i : Nat) : Line :=
    if byteSel.getLsbD i then
      putByte merged (4 * wordIndex.toNat + i) (wordData.extractLsb' (8 * i) 8)
    else merged
  step (step (step (step oldLine 0) 1) 2) 3

/-- The word of the line that a read returns. -/
def lineWord (line : Line) (wordIndex : BitVec 2) : Word :=
  line.extractLsb' (32 * wordIndex.toNat) 32

/-! ## The bus side -/

namespace BridgeBus

/-- The answer of the app side has arrived. -/
def answered (b : BridgeBus) : Bool :=
  !b.rspAckPending && b.busy && b.rspToggleSync != b.rspToggleSeen

/-- The request on the bus is accepted. -/
def accepts (q : WbReq) (b : BridgeBus) : Bool :=
  !b.rspAckPending && !b.answered && !b.busy && q.cyc && q.stb && !b.ack

/-- The registers after an edge of `clk`. -/
def next (q : WbReq) (a : BridgeApp) (b : BridgeBus) : BridgeBus :=
  let b1 := { b with
    ack := false
    rspToggleMeta := a.rspToggle
    rspToggleSync := b.rspToggleMeta
    rspDatRMeta := a.rspDatR
    rspDatRSync := b.rspDatRMeta }
  if b.rspAckPending then { b1 with ack := true, busy := false, rspAckPending := false }
  else if b.answered then
    { b1 with rspToggleSeen := b.rspToggleSync, datR := b.rspDatRSync, rspAckPending := true }
  else if b.accepts q then
    { b1 with
      req := { we := q.we, addr := q.adr, datW := q.datW, sel := q.sel }
      reqToggle := !b.reqToggle
      busy := true }
  else b1

end BridgeBus

/-! ## The app side -/

namespace BridgeApp

/-- `app_idle`. -/
def idle (a : BridgeApp) : Bool := a.state == .idle && a.reqToggleSync == a.reqToggleSeen

/-- The registers after an edge of `app_clk`. -/
def next (i : AppIn) (b : BridgeBus) (a : BridgeApp) : BridgeApp :=
  let a1 := { a with
    reqToggleMeta := b.reqToggle
    reqToggleSync := a.reqToggleMeta
    reqMeta := b.req
    reqSync := a.reqMeta
    cmdEn := false
    wren := false
    dataEnd := false }
  match a.state with
  | .idle =>
      if a.reqToggleSync != a.reqToggleSeen && i.initCalibComplete then
        { a1 with reqToggleSeen := a.reqToggleSync, state := .capture }
      else a1
  | .capture => { a1 with appReq := a.reqSync, state := .readCmd }
  | .readCmd =>
      let a2 := { a1 with addr := appLineAddr a.appReq.addr, cmd := 1#3 }
      if i.cmdRdy then { a2 with cmdEn := true, state := .readWait } else a2
  | .readWait =>
      if i.rdataValid then
        let a2 := { a1 with line := i.rdata }
        if a.appReq.we then
          { a2 with
            data := mergeWord i.rdata (wordSel a.appReq.addr) a.appReq.datW a.appReq.sel
            state := .writeCmd }
        else { a2 with rspDatR := lineWord i.rdata (wordSel a.appReq.addr), state := .ack }
      else a1
  | .writeCmd =>
      let a2 := { a1 with
        addr := appLineAddr a.appReq.addr
        cmd := 0#3
        data := mergeWord a.line (wordSel a.appReq.addr) a.appReq.datW a.appReq.sel }
      if i.cmdRdy && i.dataRdy then
        { a2 with cmdEn := true, wren := true, dataEnd := true, state := .ack }
      else a2
  | .ack => { a1 with rspToggle := !a.rspToggle, state := .idle }

end BridgeApp

end MelonSoc
