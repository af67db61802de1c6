import MelonSoc.Boot.Image

set_option autoImplicit false

/-! # The XMODEM loader

`xmodem.c`. Waiting for room in the transmitter takes time and nothing else.
-/

namespace MelonSoc.Boot

/-- The results of `xmodem_result` other than `XMODEM_OK`. -/
inductive XmodemError
  | timeout
  | cancelled
  | protocol
  | image
  | uart
  | blockNumber
  | crc
  deriving DecidableEq

def xmodemSoh : Byte := 0x01#8

def xmodemEot : Byte := 0x04#8

def xmodemAck : Byte := 0x06#8

def xmodemNak : Byte := 0x15#8

def xmodemCan : Byte := 0x18#8

/-- `XMODEM_CRC_REQUEST`: `'C'`. -/
def xmodemCrcRequest : Byte := 0x43#8

def xmodemBlockSize : Word := 128#32

def xmodemTimeoutTicks : Word := 1000000#32

def xmodemMaxRetries : Word := 16#32

/-- `UART_STATUS_RX_VALID`. -/
def uartRxValid : Word := 1#32

/-- `UART_STATUS_RX_OVERRUN`. -/
def uartRxOverrun : Word := 2#32

/-- `UART_STATUS_RX_FRAMEERR`. -/
def uartRxFrameErr : Word := 4#32

/-! ## Bytes from the UART -/

/-- One step of the bitwise division in `crc16_ccitt`. -/
def crcBit (crc : Word) : Word :=
  (if crc &&& 0x8000#32 ≠ 0#32 then (crc <<< 1) ^^^ 0x1021#32 else crc <<< 1) &&& 0xFFFF#32

/-- `crc16_ccitt`. -/
def crc16Ccitt (data : Nat → Byte) (size : Nat) : BitVec 16 :=
  let byte (crc : Word) (i : Nat) : Word :=
    (List.range 8).foldl (fun crc _ => crcBit crc) (crc ^^^ ((data i).setWidth 32 <<< 8))
  ((List.range size).foldl byte 0#32).setWidth 16

/-- `uart_getc_nonblocking`. -/
def uartGetcNonblocking (p : Poll) : Option Byte :=
  if p.statusAgain &&& uartRxValid = 0#32 then none else some (p.data.setWidth 8)

/-- A round of the loop in `getc_timeout`: it returns or goes on. -/
def getcRound (start timeoutTicks : Word) (p : Poll) : Option (Except XmodemError Byte) :=
  if p.status &&& uartRxOverrun ≠ 0#32 then some (.error .uart)
  else if p.status &&& uartRxFrameErr ≠ 0#32 then some (.error .uart)
  else
    match if p.status &&& uartRxValid ≠ 0#32 then uartGetcNonblocking p else none with
    | some byte => some (.ok byte)
    | none => if timeoutTicks ≤ p.count - start then some (.error .timeout) else none

/-- The status bits that a round clears: the one it has found first. -/
def getcClears (p : Poll) : List Event :=
  if p.status &&& uartRxOverrun ≠ 0#32 then [.clearStatus uartRxOverrun]
  else if p.status &&& uartRxFrameErr ≠ 0#32 then [.clearStatus uartRxFrameErr]
  else []

/-- The rounds of `getc_timeout` until it returns, and what is left to read. -/
def getcRounds (start timeoutTicks : Word) :
    List Poll → Option (Except XmodemError Byte × List Event × List Poll)
  | [] => none
  | p :: ps =>
      match getcRound start timeoutTicks p with
      | some r => some (r, getcClears p, ps)
      | none => getcRounds start timeoutTicks ps

/-- `getc_timeout`. -/
def getcTimeout (timeoutTicks : Word) : Loader (Except XmodemError Byte) := do
  let w ← get
  match getcRounds ((w.uart.head?.map Poll.start).getD 0#32) timeoutTicks w.uart with
  | some (r, clears, rest) =>
      set { w with uart := rest, trace := w.trace ++ clears }
      pure r
  | none => throw .starved

/-- `cancel_transfer`. -/
def cancelTransfer : Loader Unit := do
  emit (.putc xmodemCan)
  emit (.putc xmodemCan)

/-! ## Blocks -/

/-- A round of the loop in `receive_block` that fills the buffer. -/
def receiveByte (v : Nat × (Nat → Byte)) :
    Loader ((Nat × (Nat → Byte)) ⊕ Except XmodemError (Nat → Byte)) := do
  if 128 ≤ v.1 then return .inr (.ok v.2)
  match ← getcTimeout xmodemTimeoutTicks with
  | .error e => return .inr (.error e)
  | .ok byte => return .inl (v.1 + 1, Function.update v.2 v.1 byte)

/-- `receive_block`: the data of a block and its number. -/
def receiveBlock (fuel : Nat) : Loader (Except XmodemError ((Nat → Byte) × Byte)) := do
  let block ← getcTimeout xmodemTimeoutTicks
  let inverse ← getcTimeout xmodemTimeoutTicks
  match block, inverse with
  | .error e, _ => return .error e
  | .ok _, .error e => return .error e
  | .ok block, .ok inverse =>
      match ← Prog.loop .fuel receiveByte fuel (0, fun _ => 0#8) with
      | .error e => return .error e
      | .ok data =>
          let crcHi ← getcTimeout xmodemTimeoutTicks
          let crcLo ← getcTimeout xmodemTimeoutTicks
          match crcHi, crcLo with
          | .error e, _ => return .error e
          | .ok _, .error e => return .error e
          | .ok crcHi, .ok crcLo =>
              if block ^^^ inverse ≠ 0xFF#8 then return .error .blockNumber
              let receivedCrc : BitVec 16 := (crcHi.setWidth 16 <<< 8) ||| crcLo.setWidth 16
              if receivedCrc ≠ crc16Ccitt data 128 then return .error .crc
              return .ok (data, block)

/-- What `store_block` is given by address. -/
structure Transfer where
  streamOffset : Word
  header : Nat → Byte
  headerReady : Bool
  imageSize : Word

/-- A byte of the block in `store_block`. -/
def storeByte (dst offset : Word) (data : Nat → Byte) (i : Nat) (t : Transfer) :
    Loader (Except XmodemError Transfer) := do
  let imageOffset ← add .imageOffset offset (BitVec.ofNat 32 i)
  if imageOffset < headerSize then
    let t := { t with header := Function.update t.header imageOffset.toNat (data i) }
    let headerEnd ← add .headerEnd imageOffset 1#32
    if headerEnd = headerSize then
      match ← bootImageParseHeader t.header dst with
      | .error _ => return .error .image
      | .ok sizes =>
          let imageSize ← add .imageSize headerSize sizes.payload
          emit (.accepted sizes.text sizes.data)
          return .ok { t with imageSize := imageSize, headerReady := true }
    else return .ok t
  else if t.headerReady && imageOffset < t.imageSize then
    let addr ← add .out dst imageOffset
    let out ← sub .out addr headerSize
    emit (.store out (data i))
    return .ok t
  else if t.headerReady && t.imageSize ≤ imageOffset then
    let paddingEnd ← add .paddingEnd t.imageSize xmodemBlockSize
    if imageOffset < paddingEnd ∧ data i ≠ 0x1A#8 then return .error .image
    return .ok t
  else return .ok t

/-- A round of the loop in `store_block`. -/
def storeRound (dst offset : Word) (data : Nat → Byte) (v : Nat × Transfer) :
    Loader ((Nat × Transfer) ⊕ Except XmodemError Transfer) := do
  if 128 ≤ v.1 then return .inr (.ok v.2)
  match ← storeByte dst offset data v.1 v.2 with
  | .error e => return .inr (.error e)
  | .ok t => return .inl (v.1 + 1, t)

/-- `store_block`. -/
def storeBlock (fuel : Nat) (data : Nat → Byte) (dst : Word) (t : Transfer) :
    Loader (Except XmodemError Transfer) := do
  let offset := t.streamOffset
  if t.headerReady && t.imageSize ≤ offset then return .error .image
  match ← Prog.loop .fuel (storeRound dst offset data) fuel (0, t) with
  | .error e => return .error e
  | .ok t =>
      let streamOffset ← add .streamOffset offset xmodemBlockSize
      return .ok { t with streamOffset := streamOffset }

/-! ## The session -/

/-- The other variables of `xmodem_load_boot_image`. -/
structure Session where
  transfer : Transfer
  expectedBlock : Byte
  syncStarted : Bool
  syncRetries : Word
  blockRetries : Word

def Session.start : Session :=
  { transfer :=
      { streamOffset := 0#32, header := fun _ => 0#8, headerReady := false, imageSize := 0#32 }
    expectedBlock := 1#8, syncStarted := false, syncRetries := 0#32, blockRetries := 0#32 }

/-- What a round of the loop does: it goes on, or the loader returns an error or the size. -/
abbrev Round := Session ⊕ Except XmodemError Word

/-- Another failed try; `giveUp` is the result when there have been enough. -/
def retry (giveUp : XmodemError) (nak : Bool) (s : Session) : Loader Round := do
  let blockRetries := s.blockRetries + 1#32
  if xmodemMaxRetries ≤ blockRetries then
    cancelTransfer
    return .inr (.error giveUp)
  if nak then emit (.putc xmodemNak)
  return .inl { s with blockRetries := blockRetries }

/-- A block is received behind `XMODEM_SOH`. -/
def xmodemBlock (fuel : Nat) (dst : Word) (s : Session) : Loader Round := do
  match ← receiveBlock fuel with
  | .error e => retry e true s
  | .ok (data, blockNo) =>
      if blockNo = s.expectedBlock - 1#8 then
        emit (.putc xmodemAck)
        return .inl { s with blockRetries := 0#32 }
      if blockNo ≠ s.expectedBlock then
        return ← retry .protocol true s
      match ← storeBlock fuel data dst s.transfer with
      | .error e =>
          cancelTransfer
          return .inr (.error e)
      | .ok t =>
          emit (.putc xmodemAck)
          return .inl { s with
            transfer := t, expectedBlock := s.expectedBlock + 1#8, blockRetries := 0#32 }

/-- `XMODEM_EOT`: the image has to be there. -/
def xmodemEnd (t : Transfer) : Loader Round := do
  if !t.headerReady || t.streamOffset < t.imageSize then
    cancelTransfer
    return .inr (.error .image)
  emit (.putc xmodemAck)
  let size ← sub .sizeOut t.imageSize headerSize
  return .inr (.ok size)

/-- The control byte of a round. -/
def xmodemControl (fuel : Nat) (dst : Word) (s : Session) : Loader Round := do
  match ← getcTimeout xmodemTimeoutTicks with
  | .error .timeout =>
      if xmodemMaxRetries ≤ s.syncRetries then
        cancelTransfer
        return .inr (.error .timeout)
      return .inl s
  | .error _ => retry .uart true s
  | .ok control =>
      if control = xmodemCan then
        match ← getcTimeout xmodemTimeoutTicks with
        | .ok second => return if second = xmodemCan then .inr (.error .cancelled) else .inl s
        | .error _ => return .inl s
      else if control = xmodemEot then xmodemEnd s.transfer
      else if control ≠ xmodemSoh then retry .protocol false s
      else xmodemBlock fuel dst { s with syncStarted := true }

/-- A round of the loop in `xmodem_load_boot_image`. -/
def xmodemRound (fuel : Nat) (dst : Word) (s : Session) : Loader Round := do
  if !s.syncStarted && s.syncRetries < xmodemMaxRetries then
    emit (.putc xmodemCrcRequest)
    xmodemControl fuel dst { s with syncRetries := s.syncRetries + 1#32 }
  else xmodemControl fuel dst s

/-- `xmodem_load_boot_image`; `sizeOut` says that the pointer for the size is not null. -/
def xmodemLoadBootImage (fuel : Nat) (dst : Word) (sizeOut : Bool) :
    Loader (Except XmodemError Word) := do
  if !sizeOut then return .error .image
  emit (.clearStatus (uartRxOverrun ||| uartRxFrameErr))
  Prog.loop .fuel (xmodemRound fuel dst) fuel Session.start

end MelonSoc.Boot
