import MelonSoc.Boot.Frames
import MelonSoc.Lib.Clocked

set_option autoImplicit false

/-! # The serial link

`send_image` of `xmodem_send.py` and the receiver, with a line in each direction. A byte that is
next on a line may be delivered, as it is or as something else, may be lost, or may wait; each side
may run into a timeout at any time. Every byte the sender writes carries along what it is part of,
and every answer what it answers; neither side looks at that.
-/

namespace MelonSoc.Boot

open Receiver (hears behind)

/-! ## The sender -/

/-- What a byte of the sender is part of. -/
inductive Written
  | block (index : Nat)
  | eot
  deriving DecidableEq

/-- Where `xmodem_send.py` reads. -/
inductive SendState
  /-- `wait_for_crc_request`. -/
  | waitCrcRequest
  /-- `send_block`, after the frame has been written. -/
  | block (index attempt : Nat)
  /-- The end of `send_image`, after `EOT` has been written. -/
  | eot (attempt : Nat)
  | returned
  | raised
  deriving DecidableEq

/-- What the sender waits an answer for. -/
def SendState.sending : SendState → Option Written
  | .block index _ => some (.block index)
  | .eot _ => some .eot
  | _ => none

/-- The line to the receiver. -/
abbrev Line := List (Written × Byte)

section Sender

variable (image : List Byte) (retries : Nat)

/-- `send_block`: one round of its loop up to the read. -/
def sendBlock (index attempt : Nat) : SendState × Line :=
  if attempt ≤ retries then
    (.block index attempt, (frame (BitVec.ofNat 8 (index + 1)) (blockAt image index)).map
      fun b => (.block index, b))
  else (.raised, [])

/-- The second loop of `send_image`, one round up to the read. -/
def sendEot (attempt : Nat) : SendState × Line :=
  if attempt ≤ retries then (.eot attempt, [(.eot, xmodemEot)]) else (.raised, [])

/-- `send_image` up to its first read. -/
def sendImage : SendState × Line :=
  if blockCount image = 0 then (.raised, [])
  else if 255 < blockCount image then (.raised, [])
  else sendBlock image retries 0 1

/-- What the sender does when it has read a byte, or nothing in time. -/
def onResponse (s : SendState) (response : Option Byte) : SendState × Line :=
  match s with
  | .waitCrcRequest =>
      match response with
      | some b => if b = xmodemCrcRequest then sendImage image retries else (s, [])
      | none => (.raised, [])
  | .block index attempt =>
      if response = some xmodemAck then
        if index + 1 < blockCount image then sendBlock image retries (index + 1) 1
        else sendEot retries 1
      else if response = some xmodemCan then (.raised, [])
      else if response ≠ some xmodemNak ∧ response ≠ none then (.raised, [])
      else sendBlock image retries index (attempt + 1)
  | .eot attempt =>
      if response = some xmodemAck then (.returned, [])
      else if response = some xmodemCan then (.raised, [])
      else if response ≠ some xmodemNak ∧ response ≠ none then (.raised, [])
      else sendEot retries (attempt + 1)
  | .returned => (s, [])
  | .raised => (s, [])

end Sender

/-! ## The two sides and the lines -/

/-- `heard` is what the receiver has heard. -/
structure Link where
  sender : SendState
  forward : Line
  receiver : Receiver
  replies : List (Option Written × Byte)
  heard : List Heard

inductive Action
  /-- The receiver hears the next byte: as this one, or as an error of the line. -/
  | hear (byte : Option Byte)
  /-- The next byte to the receiver is lost. -/
  | lose
  | receiverTimeout
  /-- The sender reads the next answer as this byte. -/
  | read (byte : Byte)
  /-- The next answer is lost. -/
  | loseReply
  | senderTimeout

namespace Link

variable (dst : Word) (image : List Byte) (retries : Nat)

/-- The receiver hears something that belongs to `part`. -/
def receive (part : Option Written) (h : Heard) (l : Link) : Link :=
  let p := l.receiver.hear dst h
  { l with
    receiver := p.1
    replies := l.replies ++ p.2.map fun b => (part, b)
    heard := l.heard ++ [h] }

/-- The sender has its response. -/
def respond (response : Option Byte) (l : Link) : Link :=
  let p := onResponse image retries l.sender response
  { l with sender := p.1, forward := l.forward ++ p.2 }

def step (a : Action) (l : Link) : Link :=
  match a with
  | .hear byte =>
      match l.forward with
      | [] => l
      | next :: rest =>
          receive dst (some next.1) (match byte with
            | some b => .ok b
            | none => .error .uart) { l with forward := rest }
  | .lose => { l with forward := l.forward.tail }
  | .receiverTimeout => receive dst none (.error .timeout) l
  | .read byte =>
      match l.replies with
      | [] => l
      | _ :: rest => respond image retries (some byte) { l with replies := rest }
  | .loseReply => { l with replies := l.replies.tail }
  | .senderTimeout => respond image retries none l

/-- Both sides have been started, the receiver has sent its first request. -/
def start : Link where
  sender := .waitCrcRequest
  forward := []
  receiver := Receiver.start.1
  replies := Receiver.start.2.map fun b => (none, b)
  heard := []

/-- The link after the first `n` actions. -/
def after (acts : Nat → Action) (n : Nat) : Link :=
  Clocked.run (step dst image retries) acts start n

end Link

end MelonSoc.Boot
