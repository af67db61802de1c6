import MelonSoc.Boot.Stream

set_option autoImplicit false

/-! # The receiver as a machine

`xmodem_load_boot_image` cut at its reads: between two of them it is in one of the phases below,
and what it hears next decides what it sends and where it goes on. What has been stored is the
list of the accepted blocks. `Boot/Session.lean` shows that the loader runs like this.
-/

namespace MelonSoc.Boot

/-- What `getc_timeout` returns: a byte, a timeout or an error of the line. -/
abbrev Heard := Except XmodemError Byte

/-- What the next byte is for. -/
inductive Phase
  | control
  /-- Behind `XMODEM_CAN`. -/
  | second
  /-- Behind `XMODEM_SOH`. -/
  | number
  | inverse (number : Heard)
  | data (number inverse : Byte) (got : List Byte)
  | crcHi (number inverse : Byte) (data : List Byte)
  | crcLo (number inverse : Byte) (data : List Byte) (hi : Heard)
  | done (result : Except XmodemError Word)

/-- The phase behind the bytes `got` of a block. -/
def Phase.filling (number inverse : Byte) (got : List Byte) : Phase :=
  if got.length = 128 then .crcHi number inverse got else .data number inverse got

structure Receiver where
  phase : Phase
  blocks : List (List Byte)
  syncStarted : Bool
  syncRetries : Word
  blockRetries : Word

/-- The checks on a block that is next in order: there is something left of the image, and the
bytes of the block are sound behind the others. -/
def Admits (dst : Word) (blocks : List (List Byte)) (data : List Byte) : Prop :=
  (blocks = [] ∨ blocks.flatten.length < imageLength blocks.flatten) ∧
    Sound dst (blocks.flatten ++ data)

instance (dst : Word) (stream : List Byte) : Decidable (ValidHeader dst stream) :=
  decidable_of_iff (rd32 (bytesAt stream) 0 = imageMagic ∧ dst.toNat < loadLimit.toNat ∧
      loadAddr.toNat ≤ dst.toNat ∧
      dst.toNat + ((textOf stream).toNat + (dataOf stream).toNat) ≤ loadLimit.toNat)
    ⟨fun ⟨h1, h2, h3, h4⟩ => ⟨h1, h2, h3, h4⟩, fun ⟨h1, h2, h3, h4⟩ => ⟨h1, h2, h3, h4⟩⟩

instance (dst : Word) (stream : List Byte) : Decidable (Sound dst stream) :=
  decidable_of_iff ((12 ≤ stream.length → ValidHeader dst stream) ∧
      (12 ≤ stream.length → ∀ b ∈ stream.drop (imageLength stream), b = paddingByte))
    ⟨fun ⟨h1, h2⟩ => ⟨h1, h2⟩, fun ⟨h1, h2⟩ => ⟨h1, h2⟩⟩

instance (dst : Word) (blocks : List (List Byte)) (data : List Byte) :
    Decidable (Admits dst blocks data) :=
  inferInstanceAs (Decidable (_ ∧ _))

namespace Receiver

/-- `expected_block`. -/
def expected (r : Receiver) : Byte := BitVec.ofNat 8 (r.blocks.length + 1)

/-- The loop begins a round: as long as the sender has not started it is asked to. -/
def await (out : List Byte) (r : Receiver) : Receiver × List Byte :=
  if !r.syncStarted && r.syncRetries < xmodemMaxRetries then
    ({ r with phase := .control, syncRetries := r.syncRetries + 1#32 }, out ++ [xmodemCrcRequest])
  else ({ r with phase := .control }, out)

/-- The loader returns. -/
def stop (out : List Byte) (result : Except XmodemError Word) (r : Receiver) :
    Receiver × List Byte :=
  ({ r with phase := .done result }, out)

/-- Another failed try. -/
def retry (giveUp : XmodemError) (nak : Bool) (r : Receiver) : Receiver × List Byte :=
  if xmodemMaxRetries ≤ r.blockRetries + 1#32 then r.stop [xmodemCan, xmodemCan] (.error giveUp)
  else await (if nak then [xmodemNak] else []) { r with blockRetries := r.blockRetries + 1#32 }

/-- A block whose check bytes are right. -/
def block (dst : Word) (number : Byte) (data : List Byte) (r : Receiver) : Receiver × List Byte :=
  if number = r.expected - 1#8 then await [xmodemAck] { r with blockRetries := 0#32 }
  else if number ≠ r.expected then r.retry .protocol true
  else if Admits dst r.blocks data then
    await [xmodemAck] { r with blocks := r.blocks ++ [data], blockRetries := 0#32 }
  else r.stop [xmodemCan, xmodemCan] (.error .image)

/-- `XMODEM_EOT`. -/
def finish (r : Receiver) : Receiver × List Byte :=
  if r.blocks = [] ∨ r.blocks.flatten.length < imageLength r.blocks.flatten then
    r.stop [xmodemCan, xmodemCan] (.error .image)
  else r.stop [xmodemAck] (.ok (BitVec.ofNat 32 (payloadLength r.blocks.flatten)))

/-- What the receiver does when it hears `h`, and what it sends. -/
def hear (dst : Word) (r : Receiver) (h : Heard) : Receiver × List Byte :=
  match r.phase with
  | .control =>
      match h with
      | .error .timeout =>
          if xmodemMaxRetries ≤ r.syncRetries then
            r.stop [xmodemCan, xmodemCan] (.error .timeout)
          else r.await []
      | .error _ => r.retry .uart true
      | .ok control =>
          if control = xmodemCan then ({ r with phase := .second }, [])
          else if control = xmodemEot then r.finish
          else if control ≠ xmodemSoh then r.retry .protocol false
          else ({ r with phase := .number, syncStarted := true }, [])
  | .second =>
      match h with
      | .ok second =>
          if second = xmodemCan then r.stop [] (.error .cancelled) else r.await []
      | .error _ => r.await []
  | .number => ({ r with phase := .inverse h }, [])
  | .inverse number =>
      match number, h with
      | .error e, _ => r.retry e true
      | .ok _, .error e => r.retry e true
      | .ok number, .ok inverse => ({ r with phase := .data number inverse [] }, [])
  | .data number inverse got =>
      match h with
      | .error e => r.retry e true
      | .ok byte =>
          ({ r with phase := .filling number inverse (got ++ [byte]) }, [])
  | .crcHi number inverse data => ({ r with phase := .crcLo number inverse data h }, [])
  | .crcLo number inverse data hi =>
      match hi, h with
      | .error e, _ => r.retry e true
      | .ok _, .error e => r.retry e true
      | .ok hi, .ok lo =>
          if number ^^^ inverse ≠ 0xFF#8 then r.retry .blockNumber true
          else if (hi.setWidth 16 <<< 8 ||| lo.setWidth 16 : BitVec 16)
              ≠ crc16Ccitt (bytesAt data) 128 then r.retry .crc true
          else r.block dst number data
  | .done _ => (r, [])

/-- The receiver when the loader is called, and its first request. -/
def start : Receiver × List Byte :=
  await [] { phase := .control, blocks := [], syncStarted := false, syncRetries := 0#32,
             blockRetries := 0#32 }

/-- What has been sent before comes first. -/
def behind (out : List Byte) (p : Receiver × List Byte) : Receiver × List Byte :=
  (p.1, out ++ p.2)

/-- What it has become and what it has sent when it has heard all of the list. -/
def hears (dst : Word) (p : Receiver × List Byte) (heard : List Heard) : Receiver × List Byte :=
  heard.foldl (fun p h => behind p.2 (p.1.hear dst h)) p

variable {dst : Word}

@[simp] theorem behind_await (out out' : List Byte) (r : Receiver) :
    behind out (r.await out') = r.await (out ++ out') := by
  unfold behind await
  split <;> simp

@[simp] theorem behind_stop (out out' : List Byte) (result : Except XmodemError Word)
    (r : Receiver) : behind out (r.stop out' result) = r.stop (out ++ out') result := rfl

@[simp] theorem hears_nil (p : Receiver × List Byte) : hears dst p [] = p := rfl

@[simp] theorem hears_cons (p : Receiver × List Byte) (h : Heard) (heard : List Heard) :
    hears dst p (h :: heard) = hears dst (behind p.2 (p.1.hear dst h)) heard := rfl

theorem hears_append (p : Receiver × List Byte) (heard more : List Heard) :
    hears dst p (heard ++ more) = hears dst (hears dst p heard) more := by
  rw [hears, List.foldl_append]
  rfl

/-- The receiver is still in the transfer. -/
def running (r : Receiver) : Bool :=
  match r.phase with
  | .done _ => false
  | _ => true

/-- A receiver that has returned hears nothing. -/
theorem hear_done {r : Receiver} {result : Except XmodemError Word}
    (hr : r.phase = .done result) (h : Heard) : r.hear dst h = (r, []) := by
  simp only [hear, hr]

theorem hears_done {p : Receiver × List Byte} {result : Except XmodemError Word}
    (hr : p.1.phase = .done result) (heard : List Heard) : hears dst p heard = p := by
  induction heard with
  | nil => rfl
  | cons h heard ih => rw [hears_cons, hear_done hr, behind, List.append_nil, ih]

end Receiver

end MelonSoc.Boot
