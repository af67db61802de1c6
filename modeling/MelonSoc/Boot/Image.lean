import MelonSoc.Lib.Programs
import MelonSoc.Rtl.SocPkg

set_option autoImplicit false

/-! # Boot images

`boot_image.c`, and the world that both boot loaders run in: what they read of the UART and the
SD card, and a trace of what they do. The 32-bit additions and subtractions on sizes, offsets and
destination addresses go through `add` and `sub`, which leave a mark in the trace when one wraps.
-/

namespace MelonSoc.Boot

abbrev Byte := BitVec 8

/-- The additions and subtractions on sizes, offsets and addresses, each under the name of what
it computes. -/
inductive Arith
  /-- `BOOT_IMAGE_LOAD_LIMIT - dst`. -/
  | available
  /-- `available - text`. -/
  | availableForData
  /-- `text + data`, also where `fatboot_load` reports it. -/
  | payloadSize
  /-- `file_size - BOOT_IMAGE_HEADER_SIZE`. -/
  | filePayload
  /-- `payload_size - text_size`. -/
  | fileData
  /-- `offset + i`. -/
  | imageOffset
  /-- `image_offset + 1u`. -/
  | headerEnd
  /-- `BOOT_IMAGE_HEADER_SIZE + payload_size`. -/
  | imageSize
  /-- `dst + image_offset - BOOT_IMAGE_HEADER_SIZE`. -/
  | out
  /-- `*image_size + XMODEM_BLOCK_SIZE`. -/
  | paddingEnd
  /-- `offset + XMODEM_BLOCK_SIZE`. -/
  | streamOffset
  /-- `image_size - BOOT_IMAGE_HEADER_SIZE`. -/
  | sizeOut
  /-- `dst_words++`. -/
  | dstWords
  /-- `count -= 4u`. -/
  | countWords
  /-- `count--` as the test of its loop. -/
  | countTest
  /-- `dst_bytes++`. -/
  | dstBytes
  /-- `n - payload_off`. -/
  | chunk
  /-- `file_off += n`. -/
  | fileOff
  /-- `remaining -= n`. -/
  | remaining
  deriving DecidableEq

/-- What a loader does. -/
inductive Event
  /-- A header with these sizes has passed all checks of the loader. -/
  | accepted (text data : Word)
  /-- A byte is written through the destination pointer. -/
  | store (addr : Word) (byte : Byte)
  | wrapped (op : Arith)
  | putc (byte : Byte)
  | clearStatus (mask : Word)
  | readBlock (lba : Word)
  deriving DecidableEq

/-- What one round of the receive loop reads: the timer at the start of the loop, the status, the
status and the data register in `uart_getc_nonblocking`, and the timer. -/
structure Poll where
  start : Word
  status : Word
  statusAgain : Word
  data : Word
  count : Word

/-- The bytes of a sector. -/
abbrev Sector := Nat → Byte

/-- What the loaders will read, and what they have done. A failed read of a block is `none`. -/
structure World where
  uart : List Poll
  sd : List (Option Sector)
  trace : List Event

/-- Why a run of the model ends before the loader returns. -/
inductive Stop
  /-- The loader waits for something that is not part of the run. -/
  | starved
  /-- A loop has been through as many rounds as the run allows. -/
  | fuel
  deriving DecidableEq

abbrev Loader (α : Type) := Prog Stop World α

def emit (e : Event) : Loader Unit := modify fun w => { w with trace := w.trace ++ [e] }

/-- `a + b`. -/
def add (op : Arith) (a b : Word) : Loader Word := do
  if 2 ^ 32 ≤ a.toNat + b.toNat then emit (.wrapped op)
  pure (a + b)

/-- `a - b`. -/
def sub (op : Arith) (a b : Word) : Loader Word := do
  if a < b then emit (.wrapped op)
  pure (a - b)

/-! ## The header -/

/-- `BOOT_IMAGE_MAGIC`. -/
def imageMagic : Word := 0x5244444D#32

/-- `BOOT_IMAGE_HEADER_SIZE`. -/
def headerSize : Word := 12#32

/-- `BOOT_IMAGE_LOAD_ADDR`. -/
def loadAddr : Word := 0x80000000#32

/-- `BOOT_IMAGE_LOAD_LIMIT`. -/
def loadLimit : Word := 0x87000000#32

/-- `boot_image_error`. -/
inductive ImageError
  | magic
  | range
  | fileSize
  deriving DecidableEq

/-- `rd16`. -/
def rd16 (p : Nat → Byte) (i : Nat) : BitVec 16 :=
  (p i).setWidth 16 ||| ((p (i + 1)).setWidth 16 <<< 8)

/-- `rd32`. -/
def rd32 (p : Nat → Byte) (i : Nat) : Word :=
  (p i).setWidth 32 ||| ((p (i + 1)).setWidth 32 <<< 8) ||| ((p (i + 2)).setWidth 32 <<< 16) |||
    ((p (i + 3)).setWidth 32 <<< 24)

/-- The sizes in a header. -/
structure Sizes where
  text : Word
  data : Word
  payload : Word

/-- `boot_image_parse_header`; its callers pass the addresses of their variables, which are not
null. -/
def bootImageParseHeader (header : Nat → Byte) (dst : Word) : Loader (Except ImageError Sizes) := do
  if rd32 header 0 ≠ imageMagic then return .error .magic
  if dst < loadAddr ∨ loadLimit ≤ dst then return .error .range
  let text := rd32 header 4
  let data := rd32 header 8
  let available ← sub .available loadLimit dst
  if available < text then return .error .range
  let rest ← sub .availableForData available text
  if rest < data then return .error .range
  let payload ← add .payloadSize text data
  return .ok { text := text, data := data, payload := payload }

/-- `boot_image_validate_file_size`. -/
def bootImageValidateFileSize (fileSize textSize dataSize : Word) :
    Loader (Except ImageError Unit) := do
  if fileSize < headerSize then return .error .fileSize
  let payloadSize ← sub .filePayload fileSize headerSize
  if payloadSize < textSize then return .error .fileSize
  let rest ← sub .fileData payloadSize textSize
  return if dataSize = rest then .ok () else .error .fileSize

end MelonSoc.Boot
