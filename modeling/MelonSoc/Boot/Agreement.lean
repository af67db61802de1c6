import MelonSoc.Boot.Link

set_option autoImplicit false

/-! # Agreement of the two sides

When `send_image` returns, has the image arrived? An `XMODEM_ACK` carries no number, and the sender
takes any for the answer to what it has written last. The two sides agree as long as no answer and
no frame is late.
-/

namespace MelonSoc.Boot

open Receiver (hears behind)

/-! ## What the receiver answers -/

namespace Receiver

/-- The frame that passes the checks with the byte `lo`. -/
def passes (r : Receiver) (lo : Byte) : Option (Byte × List Byte) :=
  match r.phase with
  | .crcLo number inverse data (.ok hi) =>
      if number ^^^ inverse ≠ 0xFF#8 then none
      else if (hi.setWidth 16 <<< 8 ||| lo.setWidth 16 : BitVec 16)
          ≠ crc16Ccitt (bytesAt data) 128 then none
      else some (number, data)
  | _ => none

/-- **What can come of one byte.** -/
inductive Answers (dst : Word) (r : Receiver) (h : Heard) : Receiver × List Byte → Prop
  /-- Nothing is acknowledged. -/
  | quiet {p : Receiver × List Byte} (blocks : p.1.blocks = r.blocks) (noAck : xmodemAck ∉ p.2) :
      Answers dst r h p
  /-- The frame before is acknowledged once more. -/
  | again {p : Receiver × List Byte} (lo number : Byte) (data : List Byte) (heard : h = .ok lo)
      (passes : r.passes lo = some (number, data)) (before : number = r.expected - 1#8)
      (blocks : p.1.blocks = r.blocks) : Answers dst r h p
  | accept {p : Receiver × List Byte} (lo : Byte) (data : List Byte) (heard : h = .ok lo)
      (passes : r.passes lo = some (r.expected, data)) (blocks : p.1.blocks = r.blocks ++ [data]) :
      Answers dst r h p
  /-- The transfer is over. -/
  | finish {p : Receiver × List Byte} (heard : h = .ok xmodemEot) (blocks : p.1.blocks = r.blocks)
      (done : p.1.phase = .done (.ok (BitVec.ofNat 32 (payloadLength r.blocks.flatten)))) :
      Answers dst r h p

theorem await_quiet (out : List Byte) (hout : xmodemAck ∉ out) (r : Receiver) :
    (r.await out).1.blocks = r.blocks ∧ xmodemAck ∉ (r.await out).2 := by
  have hrequest : xmodemAck ≠ xmodemCrcRequest := by decide
  unfold await
  split
  · exact ⟨rfl, by simp [hout, hrequest]⟩
  · exact ⟨rfl, hout⟩

theorem stop_quiet (out : List Byte) (hout : xmodemAck ∉ out) (e : Except XmodemError Word)
    (r : Receiver) : (r.stop out e).1.blocks = r.blocks ∧ xmodemAck ∉ (r.stop out e).2 :=
  ⟨rfl, hout⟩

theorem not_ack_cancels : xmodemAck ∉ [xmodemCan, xmodemCan] := by decide

theorem retry_quiet (giveUp : XmodemError) (nak : Bool) (r : Receiver) :
    (r.retry giveUp nak).1.blocks = r.blocks ∧ xmodemAck ∉ (r.retry giveUp nak).2 := by
  have hnak : xmodemAck ∉ if nak then [xmodemNak] else [] := by
    cases nak <;> decide
  unfold retry
  split
  · exact stop_quiet _ not_ack_cancels _ r
  · exact await_quiet _ hnak _

theorem Answers.of_quiet {dst : Word} {r : Receiver} {h : Heard} {p : Receiver × List Byte}
    (hp : p.1.blocks = r.blocks ∧ xmodemAck ∉ p.2) : Answers dst r h p :=
  .quiet hp.1 hp.2

theorem finish_answers (dst : Word) (r : Receiver) : Answers dst r (.ok xmodemEot) r.finish := by
  unfold finish
  split
  · exact .of_quiet (stop_quiet _ not_ack_cancels _ r)
  · exact .finish rfl rfl rfl

/-- One byte, whatever the receiver waits for. -/
theorem hear_answers (dst : Word) (r : Receiver) (h : Heard) :
    Answers dst r h (r.hear dst h) := by
  have hsilent : ∀ r' : Receiver, r'.blocks = r.blocks → Answers dst r h (r', []) :=
    fun r' hr' => .quiet hr' List.not_mem_nil
  unfold hear
  split
  · -- a control byte
    split
    · split
      · exact .of_quiet (stop_quiet _ not_ack_cancels _ r)
      · exact .of_quiet (await_quiet _ List.not_mem_nil r)
    · exact .of_quiet (retry_quiet _ _ r)
    · split
      · exact hsilent _ rfl
      split
      · rename_i heot
        rw [heot]
        exact finish_answers dst r
      split
      · exact .of_quiet (retry_quiet _ _ r)
      · exact hsilent _ rfl
  · split
    · split
      · exact .of_quiet (stop_quiet _ List.not_mem_nil _ r)
      · exact .of_quiet (await_quiet _ List.not_mem_nil r)
    · exact .of_quiet (await_quiet _ List.not_mem_nil r)
  · exact hsilent _ rfl
  · split
    · exact .of_quiet (retry_quiet _ _ r)
    · exact .of_quiet (retry_quiet _ _ r)
    · exact hsilent _ rfl
  · split
    · exact .of_quiet (retry_quiet _ _ r)
    · exact hsilent _ rfl
  · exact hsilent _ rfl
  · rename_i number inverse data hi hphase
    split
    · exact .of_quiet (retry_quiet _ _ r)
    · exact .of_quiet (retry_quiet _ _ r)
    · rename_i hi lo
      split
      · exact .of_quiet (retry_quiet _ _ r)
      rename_i hinverse
      split
      · exact .of_quiet (retry_quiet _ _ r)
      rename_i hcrc
      have hpasses : r.passes lo = some (number, data) := by
        simp only [passes, hphase]
        rw [if_neg hinverse, if_neg hcrc]
      unfold block
      split
      · rename_i hbefore
        refine .again lo number data rfl hpasses hbefore ?_
        unfold await
        split <;> rfl
      split
      · exact .of_quiet (retry_quiet _ _ r)
      rename_i hexpected
      rw [ne_eq, not_not] at hexpected
      split
      · refine .accept lo data rfl (hexpected ▸ hpasses) ?_
        unfold await
        split <;> rfl
      · exact .of_quiet (stop_quiet _ not_ack_cancels _ r)
  · exact hsilent _ rfl

end Receiver

namespace Link

/-! ## What the channel is held to -/

/-- A damaged frame is caught by its CRC: what passes the checks with the byte that is heard now is
the frame this byte is part of. -/
def caught (image : List Byte) (a : Action) (l : Link) : Bool :=
  match a, l.forward with
  | .hear (some lo), next :: _ =>
      match l.receiver.passes lo with
      | none => true
      | some passed =>
          match next.1 with
          | .block index => passed = (BitVec.ofNat 8 (index + 1), blockAt image index)
          | .eot => false
  | _, _ => true

/-- Nothing is late. What the receiver hears is part of what the sender waits an answer for, and an
`XMODEM_ACK` that the sender reads was sent as one and is the only one on its way. -/
def timely (a : Action) (l : Link) : Bool :=
  match a with
  | .hear _ =>
      match l.sender.sending, l.forward with
      | some part, next :: _ => next.1 = part
      | _, _ => true
  | .read byte =>
      match l.replies with
      | [] => true
      | next :: rest =>
          byte ≠ xmodemAck || (next.2 = xmodemAck && rest.all fun reply => reply.2 ≠ xmodemAck)
  | _ => true

/-- An `XMODEM_ACK` that the sender takes is the answer to what it has written last. -/
def AckAnswers (a : Action) (l : Link) : Prop :=
  ∀ next rest part, a = .read xmodemAck → l.replies = next :: rest →
    l.sender.sending = some part → next = (some part, xmodemAck)

/-! ## The invariant -/

/-- An `XMODEM_ACK` is on its way to the sender. -/
def Acked (l : Link) : Prop := ∃ reply ∈ l.replies, reply.2 = xmodemAck

/-- The receiver has returned. -/
def Returned (l : Link) : Prop := ∃ result, l.receiver.phase = .done result

/-- The receiver has returned the size of the payload and has all blocks. -/
structure Complete (image : List Byte) (l : Link) : Prop where
  blocks : l.receiver.blocks = firstBlocks image (blockCount image)
  phase : l.receiver.phase = .done (.ok
    (BitVec.ofNat 32 (payloadLength (firstBlocks image (blockCount image)).flatten)))

/-- The two sides while the sender waits for the answer to a block. -/
structure InBlock (image : List Byte) (l : Link) (index : Nat) : Prop where
  here : index < blockCount image
  count : blockCount image ≤ 255
  acks : ∀ reply ∈ l.replies, reply.2 = xmodemAck → reply.1 = some (.block index)
  blocks : l.Returned ∨ l.receiver.blocks = firstBlocks image (index + 1) ∨
    (l.receiver.blocks = firstBlocks image index ∧ ¬ l.Acked)

/-- The two sides while the sender waits for the answer to the end. -/
structure InEot (image : List Byte) (l : Link) : Prop where
  acks : ∀ reply ∈ l.replies, reply.2 = xmodemAck → reply.1 = some .eot
  blocks : (l.Returned ∧ ¬ l.Acked) ∨
    (l.receiver.blocks = firstBlocks image (blockCount image) ∧ (l.Acked → l.Complete image))

/-- What holds of the two sides and the lines. -/
def Agree (image : List Byte) (l : Link) : Prop :=
  match l.sender with
  | .waitCrcRequest => l.forward = [] ∧ l.receiver.blocks = [] ∧ ¬ l.Acked
  | .block index _ => l.InBlock image index
  | .eot _ => l.InEot image
  | .returned => l.Complete image
  | .raised => True

section Agree

variable {dst : Word} {image : List Byte} {retries : Nat} {l : Link}

/-! ### The receiver hears -/

/-- A receiver that has returned does nothing. -/
theorem receive_returned {result : Except XmodemError Word} (h : l.receiver.phase = .done result)
    (part : Option Written) (heard : Heard) :
    l.receive dst part heard = { l with heard := l.heard ++ [heard] } := by
  simp [receive, Receiver.hear_done h]

/-- `Complete` is about the receiver alone. -/
theorem Complete.of_receiver {l' : Link} (h : l.Complete image) (hsame : l'.receiver = l.receiver) :
    l'.Complete image :=
  ⟨hsame ▸ h.blocks, hsame ▸ h.phase⟩

theorem Complete.receive (h : l.Complete image) (part : Option Written) (heard : Heard) :
    (l.receive dst part heard).Complete image := by
  rw [receive_returned h.phase]
  exact h.of_receiver rfl

theorem number_expected {i e : Nat} (he : l.receiver.blocks = firstBlocks image e) (hi : i < 255)
    (hle : e ≤ 255) : (BitVec.ofNat 8 (i + 1) = l.receiver.expected ↔ i = e) := by
  rw [Receiver.expected, he, firstBlocks_length, ← BitVec.toNat_inj, BitVec.toNat_ofNat,
    BitVec.toNat_ofNat]
  omega

theorem number_before {i e : Nat} (he : l.receiver.blocks = firstBlocks image e) (hi : i < 255)
    (hle : e ≤ 255) : (BitVec.ofNat 8 (i + 1) = l.receiver.expected - 1#8 ↔ i + 1 = e) := by
  rw [Receiver.expected, he, firstBlocks_length, ← BitVec.toNat_inj, BitVec.toNat_sub,
    BitVec.toNat_ofNat, BitVec.toNat_ofNat, BitVec.toNat_ofNat]
  omega

/-- An answer that is no `XMODEM_ACK`, or one to what is being sent. -/
theorem acks_receive {w : Written} {part : Option Written} {heard : Heard}
    (hacks : ∀ reply ∈ l.replies, reply.2 = xmodemAck → reply.1 = some w)
    (hnew : part = some w ∨ xmodemAck ∉ (l.receiver.hear dst heard).2) :
    ∀ reply ∈ (l.receive dst part heard).replies, reply.2 = xmodemAck → reply.1 = some w := by
  intro reply hreply hack
  rcases List.mem_append.mp hreply with hold | hfresh
  · exact hacks reply hold hack
  · obtain ⟨b, hb, rfl⟩ := List.mem_map.mp hfresh
    obtain rfl : b = xmodemAck := hack
    rcases hnew with hpart | hno
    · exact hpart
    · exact absurd hb hno

theorem acked_receive {part : Option Written} {heard : Heard}
    (hno : xmodemAck ∉ (l.receiver.hear dst heard).2) (h : (l.receive dst part heard).Acked) :
    l.Acked := by
  obtain ⟨reply, hreply, hack⟩ := h
  rcases List.mem_append.mp hreply with hold | hfresh
  · exact ⟨reply, hold, hack⟩
  · obtain ⟨b, hb, rfl⟩ := List.mem_map.mp hfresh
    obtain rfl : b = xmodemAck := hack
    exact absurd hb hno

/-- While the sender waits for the answer to a block, the receiver hears a byte of its frame or
nothing. -/
theorem InBlock.receive {index : Nat} (h : l.InBlock image index) {part : Option Written}
    {heard : Heard} (hpart : (∃ b, heard = .ok b) → part = some (.block index))
    (hcaught : ∀ lo number data, heard = .ok lo → l.receiver.passes lo = some (number, data) →
      number = BitVec.ofNat 8 (index + 1) ∧ data = blockAt image index) :
    (l.receive dst part heard).InBlock image index := by
  have hcount := h.count
  have hhere := h.here
  rcases h.blocks with ⟨result, hret⟩ | hblocks
  · rw [receive_returned hret]
    exact ⟨h.here, h.count, h.acks, .inl ⟨result, hret⟩⟩
  refine ⟨h.here, h.count, ?_, ?_⟩
  · apply acks_receive h.acks
    cases Receiver.hear_answers dst l.receiver heard with
    | quiet _ hno => exact .inr hno
    | again lo _ _ hheard => exact .inl (hpart ⟨lo, hheard⟩)
    | accept lo _ hheard => exact .inl (hpart ⟨lo, hheard⟩)
    | finish hheard => exact .inl (hpart ⟨_, hheard⟩)
  · cases Receiver.hear_answers dst l.receiver heard with
    | quiet hsame hno =>
        rcases hblocks with hnext | ⟨hthis, hacked⟩
        · exact .inr (.inl (hsame.trans hnext))
        · exact .inr (.inr ⟨hsame.trans hthis, fun hn => hacked (acked_receive hno hn)⟩)
    | again lo number data hheard hpasses hbefore hsame =>
        have hnumber := (hcaught lo number data hheard hpasses).1.symm.trans hbefore
        rcases hblocks with hnext | ⟨hthis, -⟩
        · exact .inr (.inl (hsame.trans hnext))
        · have := (number_before hthis (by omega) (by omega)).mp hnumber
          omega
    | accept lo data hheard hpasses happend =>
        obtain ⟨hnumber, hdata⟩ := hcaught lo _ data hheard hpasses
        rcases hblocks with hnext | ⟨hthis, -⟩
        · have := (number_expected hnext (by omega) (by omega)).mp hnumber.symm
          omega
        · refine .inr (.inl ?_)
          rw [firstBlocks_succ, ← hthis, ← hdata]
          exact happend
    | finish _ _ hdone => exact .inl ⟨_, hdone⟩

/-- While the sender waits for the answer to the end, no frame is heard. -/
theorem InEot.receive (h : l.InEot image) {part : Option Written} {heard : Heard}
    (hpart : (∃ b, heard = .ok b) → part = some .eot)
    (hcaught : ∀ lo, heard = .ok lo → l.receiver.passes lo = none) :
    (l.receive dst part heard).InEot image := by
  have hrefuse : ∀ lo passed, heard = .ok lo → l.receiver.passes lo = some passed → False := by
    intro lo passed hheard hpasses
    rw [hcaught lo hheard] at hpasses
    cases hpasses
  rcases h.blocks with ⟨⟨result, hret⟩, hacked⟩ | ⟨hblocks, hcomplete⟩
  · rw [receive_returned hret]
    exact ⟨h.acks, .inl ⟨⟨result, hret⟩, hacked⟩⟩
  refine ⟨?_, .inr ⟨?_, ?_⟩⟩
  · apply acks_receive h.acks
    cases Receiver.hear_answers dst l.receiver heard with
    | quiet _ hno => exact .inr hno
    | again lo _ _ hheard hpasses => exact (hrefuse lo _ hheard hpasses).elim
    | accept lo _ hheard hpasses => exact (hrefuse lo _ hheard hpasses).elim
    | finish hheard => exact .inl (hpart ⟨_, hheard⟩)
  · cases Receiver.hear_answers dst l.receiver heard with
    | quiet hsame => exact hsame.trans hblocks
    | again lo _ _ hheard hpasses => exact (hrefuse lo _ hheard hpasses).elim
    | accept lo _ hheard hpasses => exact (hrefuse lo _ hheard hpasses).elim
    | finish _ hsame => exact hsame.trans hblocks
  · intro hn
    cases Receiver.hear_answers dst l.receiver heard with
    | quiet _ hno => exact (hcomplete (acked_receive hno hn)).receive part heard
    | again lo _ _ hheard hpasses => exact (hrefuse lo _ hheard hpasses).elim
    | accept lo _ hheard hpasses => exact (hrefuse lo _ hheard hpasses).elim
    | finish _ hsame hdone => exact ⟨hsame.trans hblocks, hblocks ▸ hdone⟩

/-! ### The sender reads -/

/-- Some of the answers. -/
theorem InBlock.fewer {index : Nat} {replies : List (Option Written × Byte)}
    (h : l.InBlock image index) (hmem : ∀ r ∈ replies, r ∈ l.replies) :
    InBlock image { l with replies := replies } index := by
  refine ⟨h.here, h.count, fun r hr => h.acks r (hmem r hr), ?_⟩
  rcases h.blocks with hret | hnext | ⟨hthis, hacked⟩
  · exact .inl hret
  · exact .inr (.inl hnext)
  · exact .inr (.inr ⟨hthis, fun ⟨r, hr, hack⟩ => hacked ⟨r, hmem r hr, hack⟩⟩)

theorem InEot.fewer {replies : List (Option Written × Byte)} (h : l.InEot image)
    (hmem : ∀ r ∈ replies, r ∈ l.replies) : InEot image { l with replies := replies } := by
  refine ⟨fun r hr => h.acks r (hmem r hr), ?_⟩
  rcases h.blocks with ⟨hret, hacked⟩ | ⟨hblocks, hcomplete⟩
  · exact .inl ⟨hret, fun ⟨r, hr, hack⟩ => hacked ⟨r, hmem r hr, hack⟩⟩
  · refine .inr ⟨hblocks, fun ⟨r, hr, hack⟩ => ?_⟩
    exact (hcomplete ⟨r, hmem r hr, hack⟩).of_receiver rfl

theorem agree_sendBlock {index : Nat} (h : l.InBlock image index) (attempt : Nat) (forward : Line) :
    Agree image { l with sender := (sendBlock image retries index attempt).1,
                         forward := forward } := by
  unfold sendBlock
  split
  · exact ⟨h.here, h.count, h.acks, h.blocks⟩
  · exact trivial

theorem agree_sendEot (h : l.InEot image) (attempt : Nat) (forward : Line) :
    Agree image { l with sender := (sendEot retries attempt).1, forward := forward } := by
  unfold sendEot
  split
  · refine ⟨h.acks, ?_⟩
    rcases h.blocks with hret | ⟨hblocks, hcomplete⟩
    · exact .inl hret
    · exact .inr ⟨hblocks, fun hn => (hcomplete hn).of_receiver rfl⟩
  · exact trivial

/-- The sender goes on with the next block, or with the end. -/
theorem InBlock.respond_ack {index attempt : Nat} (hs : l.sender = .block index attempt)
    (h : l.InBlock image index) (hno : ¬ l.Acked)
    (hblocks : l.Returned ∨ l.receiver.blocks = firstBlocks image (index + 1)) :
    Agree image (l.respond image retries (some xmodemAck)) := by
  have hvacuous : ∀ (w : Option Written), ∀ reply ∈ l.replies, reply.2 = xmodemAck →
      reply.1 = w := fun _ reply hreply hack => absurd ⟨reply, hreply, hack⟩ hno
  unfold respond
  simp only [onResponse, hs, if_true]
  split
  · rename_i hnext
    refine agree_sendBlock ⟨hnext, h.count, hvacuous _, ?_⟩ 1 _
    rcases hblocks with hret | hnext
    · exact .inl hret
    · exact .inr (.inr ⟨hnext, hno⟩)
  · rename_i hlast
    have hall : index + 1 = blockCount image := by
      have := h.here
      omega
    refine agree_sendEot ⟨hvacuous _, ?_⟩ 1 _
    rcases hblocks with hret | hnext
    · exact .inl ⟨hret, hno⟩
    · exact .inr ⟨hall ▸ hnext, fun hn => absurd hn hno⟩

/-- Without an `XMODEM_ACK` the sender sends the block once more, or gives up. -/
theorem InBlock.respond_other {index attempt : Nat} {response : Option Byte}
    (hs : l.sender = .block index attempt) (h : l.InBlock image index)
    (hresponse : response ≠ some xmodemAck) :
    Agree image (l.respond image retries response) := by
  unfold respond
  simp only [onResponse, hs, if_neg hresponse]
  split
  · exact trivial
  split
  · exact trivial
  · exact agree_sendBlock h _ _

theorem InEot.respond_other {attempt : Nat} {response : Option Byte} (hs : l.sender = .eot attempt)
    (h : l.InEot image) (hresponse : response ≠ some xmodemAck) :
    Agree image (l.respond image retries response) := by
  unfold respond
  simp only [onResponse, hs, if_neg hresponse]
  split
  · exact trivial
  split
  · exact trivial
  · exact agree_sendEot h _ _

/-- The sender has the answer to the end. -/
theorem InEot.respond_ack {attempt : Nat} (hs : l.sender = .eot attempt) (h : l.Complete image) :
    Agree image (l.respond image retries (some xmodemAck)) := by
  unfold respond
  simp only [onResponse, hs, if_true]
  exact h.of_receiver rfl

/-- The sender waits for the first request. -/
theorem respond_first {response : Option Byte} (hs : l.sender = .waitCrcRequest)
    (hforward : l.forward = []) (hblocks : l.receiver.blocks = []) (hno : ¬ l.Acked) :
    Agree image (l.respond image retries response) := by
  unfold respond
  simp only [onResponse, hs]
  cases response with
  | none => exact trivial
  | some b =>
      dsimp only
      split
      · unfold sendImage
        split
        · exact trivial
        split
        · exact trivial
        · rename_i hempty hlong
          refine agree_sendBlock ⟨by omega, by omega, fun reply hreply hack => ?_, ?_⟩ 1 _
          · exact absurd ⟨reply, hreply, hack⟩ hno
          · exact .inr (.inr ⟨by rw [hblocks]; rfl, hno⟩)
      · exact ⟨by rw [hforward]; rfl, hblocks, hno⟩

/-! ### One action -/

/-- A byte is heard. -/
theorem Agree.hear {byte : Option Byte} {next : Written × Byte} {rest : Line}
    (hforward : l.forward = next :: rest) (h : Agree image l)
    (hcaught : l.caught image (.hear byte) = true) (htimely : l.timely (.hear byte) = true) :
    Agree image (l.step dst image retries (.hear byte)) := by
  obtain ⟨sender, forward, receiver, replies, heard⟩ := l
  obtain rfl : forward = next :: rest := hforward
  have hpasses : ∀ lo passed, byte = some lo → receiver.passes lo = some passed →
      ∃ index, next.1 = .block index ∧
        passed = (BitVec.ofNat 8 (index + 1), blockAt image index) := by
    rintro lo passed rfl hpass
    simp only [caught, hpass] at hcaught
    cases hpart : next.1 with
    | block index =>
        simp only [hpart, decide_eq_true_eq] at hcaught
        exact ⟨index, rfl, hcaught⟩
    | eot => simp [hpart] at hcaught
  have hok : ∀ (heard : Heard) (lo : Byte), (byte = none → heard = .error .uart) →
      (∀ b, byte = some b → heard = .ok b) → heard = .ok lo → byte = some lo := by
    intro heard lo hnone hsome hlo
    cases byte with
    | none => cases (hnone rfl).symm.trans hlo
    | some b =>
        obtain rfl : b = lo := Except.ok.inj ((hsome b rfl).symm.trans hlo)
        rfl
  simp only [step]
  cases sender with
  | waitCrcRequest => cases h.1
  | raised => exact trivial
  | returned =>
      have hcomplete : Complete image
        { sender := .returned, forward := rest, receiver := receiver, replies := replies,
          heard := heard } := ⟨h.blocks, h.phase⟩
      exact hcomplete.receive _ _
  | block index attempt =>
      have hpart : next.1 = .block index := by simpa [timely, SendState.sending] using htimely
      have hblock : InBlock image
        { sender := .block index attempt, forward := rest, receiver := receiver,
          replies := replies, heard := heard } index := ⟨h.here, h.count, h.acks, h.blocks⟩
      refine hblock.receive (fun _ => by rw [hpart]) fun lo number data hlo hpass => ?_
      obtain ⟨index', hpart', hsame⟩ :=
        hpasses lo _ (hok _ lo (fun h => by rw [h]) (fun b h => by rw [h]) hlo) hpass
      rw [hpart] at hpart'
      obtain rfl : index = index' := by simpa using hpart'
      exact ⟨congrArg Prod.fst hsame, congrArg Prod.snd hsame⟩
  | eot attempt =>
      have hpart : next.1 = .eot := by simpa [timely, SendState.sending] using htimely
      have heot : InEot image
        { sender := .eot attempt, forward := rest, receiver := receiver, replies := replies,
          heard := heard } := by
        refine ⟨h.acks, ?_⟩
        rcases h.blocks with hret | ⟨hblocks, hcomplete⟩
        · exact .inl hret
        · exact .inr ⟨hblocks, fun hn => (hcomplete hn).of_receiver rfl⟩
      refine heot.receive (fun _ => by rw [hpart]) fun lo hlo => ?_
      cases hpass : receiver.passes lo with
      | none => rfl
      | some passed =>
          obtain ⟨index', hpart', -⟩ :=
            hpasses lo passed (hok _ lo (fun h => by rw [h]) (fun b h => by rw [h]) hlo) hpass
          rw [hpart] at hpart'
          cases hpart'

/-- The receiver waits in vain. -/
theorem Agree.receiverTimeout (h : Agree image l) :
    Agree image (l.step dst image retries .receiverTimeout) := by
  simp only [Link.step]
  have hno : ∀ lo, (.error .timeout : Heard) ≠ .ok lo := fun lo h => by cases h
  unfold Agree at h ⊢
  have hsender : (l.receive dst none (.error .timeout)).sender = l.sender := rfl
  rw [hsender]
  cases hs : l.sender with
  | waitCrcRequest =>
      rw [hs] at h
      obtain ⟨hforward, hblocks, hacked⟩ := h
      cases Receiver.hear_answers dst l.receiver (.error .timeout) with
      | quiet hsame hquiet =>
          exact ⟨hforward, hsame.trans hblocks, fun hn => hacked (acked_receive hquiet hn)⟩
      | again lo _ _ hheard => exact absurd hheard (hno lo)
      | accept lo _ hheard => exact absurd hheard (hno lo)
      | finish hheard => exact absurd hheard (hno _)
  | block index attempt =>
      rw [hs] at h
      exact h.receive (fun ⟨lo, hlo⟩ => absurd hlo (hno lo)) fun lo _ _ hlo => absurd hlo (hno lo)
  | eot attempt =>
      rw [hs] at h
      exact h.receive (fun ⟨lo, hlo⟩ => absurd hlo (hno lo)) fun lo hlo => absurd hlo (hno lo)
  | returned =>
      rw [hs] at h
      exact h.receive _ _
  | raised => exact trivial

/-- The sender reads an answer. -/
theorem Agree.read {byte : Byte} {next : Option Written × Byte}
    {rest : List (Option Written × Byte)} (hreplies : l.replies = next :: rest)
    (h : Agree image l) (htimely : l.timely (.read byte) = true) :
    Agree image (l.step dst image retries (.read byte)) ∧ l.AckAnswers (.read byte) := by
  obtain ⟨sender, forward, receiver, replies, heard⟩ := l
  obtain rfl : replies = next :: rest := hreplies
  have hmem : ∀ r ∈ rest, r ∈ next :: rest := fun r hr => List.mem_cons_of_mem _ hr
  have hfirst : next ∈ next :: rest := List.mem_cons_self
  -- an `XMODEM_ACK` that is read is the only one on its way
  have hlone : byte = xmodemAck → next.2 = xmodemAck ∧ ¬ ∃ reply ∈ rest, reply.2 = xmodemAck := by
    intro hack
    simp only [timely, hack, ne_eq, not_true_eq_false, decide_false, Bool.false_or,
      Bool.and_eq_true, decide_eq_true_eq, List.all_eq_true] at htimely
    exact ⟨htimely.1, fun ⟨reply, hreply, h⟩ => by simpa using htimely.2 reply hreply h⟩
  -- whose answer it is
  have hanswer : ∀ w, sender.sending = some w →
      (∀ reply ∈ next :: rest, reply.2 = xmodemAck → reply.1 = some w) → byte = xmodemAck →
      AckAnswers (.read byte) ⟨sender, forward, receiver, next :: rest, heard⟩ := by
    intro w hw hacks hack next' rest' part _ hreplies hpart
    obtain ⟨rfl, rfl⟩ := List.cons.inj hreplies
    obtain rfl : w = part := Option.some.inj (hw.symm.trans hpart)
    rw [← hacks next hfirst (hlone hack).1, ← (hlone hack).1]
  have hother : byte ≠ xmodemAck →
      AckAnswers (.read byte) ⟨sender, forward, receiver, next :: rest, heard⟩ := by
    intro hack _ _ _ hread
    injection hread with hread
    exact absurd hread hack
  have hidle : sender.sending = none →
      AckAnswers (.read byte) ⟨sender, forward, receiver, next :: rest, heard⟩ := by
    intro hnone _ _ _ _ _ hpart
    rw [hnone] at hpart
    cases hpart
  simp only [Link.step]
  cases sender with
  | waitCrcRequest =>
      obtain ⟨hforward, hblocks, hno⟩ := h
      exact ⟨respond_first rfl hforward hblocks fun ⟨r, hr, hack⟩ => hno ⟨r, hmem r hr, hack⟩,
        hidle rfl⟩
  | block index attempt =>
      have hblock : InBlock image ⟨.block index attempt, forward, receiver, next :: rest, heard⟩
        index := h
      by_cases hack : byte = xmodemAck
      · refine ⟨?_, hanswer _ rfl hblock.acks hack⟩
        rw [hack]
        refine InBlock.respond_ack rfl (hblock.fewer hmem) (hlone hack).2 ?_
        rcases hblock.blocks with hret | hnext | ⟨-, hnone⟩
        · exact .inl hret
        · exact .inr hnext
        · exact absurd ⟨next, hfirst, (hlone hack).1⟩ hnone
      · exact ⟨InBlock.respond_other rfl (hblock.fewer hmem) (by simpa using hack), hother hack⟩
  | eot attempt =>
      have heot : InEot image ⟨.eot attempt, forward, receiver, next :: rest, heard⟩ := h
      by_cases hack : byte = xmodemAck
      · refine ⟨?_, hanswer _ rfl heot.acks hack⟩
        rw [hack]
        refine InEot.respond_ack rfl ?_
        rcases heot.blocks with ⟨-, hnone⟩ | ⟨-, hcomplete⟩
        · exact absurd ⟨next, hfirst, (hlone hack).1⟩ hnone
        · exact (hcomplete ⟨next, hfirst, (hlone hack).1⟩).of_receiver rfl
      · exact ⟨InEot.respond_other rfl (heot.fewer hmem) (by simpa using hack), hother hack⟩
  | returned =>
      have hcomplete : Complete image ⟨.returned, forward, receiver, next :: rest, heard⟩ := h
      exact ⟨hcomplete.of_receiver rfl, hidle rfl⟩
  | raised => exact ⟨trivial, hidle rfl⟩

/-- The sender waits in vain. -/
theorem Agree.senderTimeout (h : Agree image l) :
    Agree image (l.step dst image retries .senderTimeout) := by
  obtain ⟨sender, forward, receiver, replies, heard⟩ := l
  simp only [Link.step]
  have hnone : (none : Option Byte) ≠ some xmodemAck := by simp
  cases sender with
  | waitCrcRequest => exact trivial
  | block index attempt => exact InBlock.respond_other rfl h hnone
  | eot attempt => exact InEot.respond_other rfl h hnone
  | returned =>
      have hcomplete : Complete image ⟨.returned, forward, receiver, replies, heard⟩ := h
      exact hcomplete.of_receiver rfl
  | raised => exact trivial

/-- Bytes are lost. -/
theorem Agree.fewer {forward' : Line} {replies' : List (Option Written × Byte)}
    (h : Agree image l) (hforward : l.forward = [] → forward' = [])
    (hmem : ∀ r ∈ replies', r ∈ l.replies) :
    Agree image { l with forward := forward', replies := replies' } := by
  obtain ⟨sender, forward, receiver, replies, heard⟩ := l
  cases sender with
  | waitCrcRequest =>
      obtain ⟨hnil, hblocks, hno⟩ := h
      exact ⟨hforward hnil, hblocks, fun ⟨r, hr, hack⟩ => hno ⟨r, hmem r hr, hack⟩⟩
  | block index attempt =>
      have hblock := InBlock.fewer (show InBlock image _ index from h) hmem
      exact ⟨hblock.here, hblock.count, hblock.acks, hblock.blocks⟩
  | eot attempt =>
      have heot := InEot.fewer (show InEot image _ from h) hmem
      refine ⟨heot.acks, ?_⟩
      rcases heot.blocks with hret | ⟨hblocks, hcomplete⟩
      · exact .inl hret
      · exact .inr ⟨hblocks, fun hn => (hcomplete hn).of_receiver rfl⟩
  | returned => exact Complete.of_receiver (show Complete image _ from h) rfl
  | raised => exact trivial

/-- **One action** of the two sides or the channel. -/
theorem Agree.step (a : Action) (h : Agree image l) (hcaught : l.caught image a = true)
    (htimely : l.timely a = true) :
    Agree image (l.step dst image retries a) ∧ l.AckAnswers a := by
  have hnoRead : (∀ byte, a ≠ .read byte) → l.AckAnswers a :=
    fun hne _ _ _ hread => absurd hread (hne _)
  cases a with
  | hear byte =>
      refine ⟨?_, hnoRead (by simp)⟩
      cases hforward : l.forward with
      | nil =>
          simp only [Link.step, hforward]
          exact h
      | cons next rest => exact h.hear hforward hcaught htimely
  | lose =>
      refine ⟨h.fewer (fun hnil => ?_) (fun _ hr => hr), hnoRead (by simp)⟩
      rw [hnil]
      rfl
  | receiverTimeout => exact ⟨h.receiverTimeout, hnoRead (by simp)⟩
  | read byte =>
      cases hreplies : l.replies with
      | nil =>
          refine ⟨?_, fun _ _ _ _ hcons => absurd (hreplies.symm.trans hcons) (by simp)⟩
          simp only [Link.step, hreplies]
          exact h
      | cons next rest => exact h.read hreplies htimely
  | loseReply =>
      refine ⟨h.fewer (fun hnil => hnil) (fun r hr => List.mem_of_mem_tail hr), hnoRead (by simp)⟩
  | senderTimeout => exact ⟨h.senderTimeout, hnoRead (by simp)⟩

/-! ### Runs -/

theorem agree_start : Agree image start := by
  refine ⟨rfl, rfl, ?_⟩
  rintro ⟨reply, hreply, hack⟩
  have hone : start.replies = [(none, xmodemCrcRequest)] := rfl
  rw [hone, List.mem_singleton] at hreply
  rw [hreply] at hack
  exact absurd hack (by decide)

/-- The receiver is what becomes of it when it hears what it has heard. -/
theorem after_hears (acts : Nat → Action) (n : Nat) :
    (hears dst Receiver.start (after dst image retries acts n).heard).1
      = (after dst image retries acts n).receiver := by
  have hreceive : ∀ (part : Option Written) (h : Heard) (l : Link),
      (hears dst Receiver.start l.heard).1 = l.receiver →
      (hears dst Receiver.start (receive dst part h l).heard).1 = (receive dst part h l).receiver := by
    intro part h l hl
    simp only [receive, Receiver.hears_append, Receiver.hears_cons, Receiver.hears_nil, behind, hl]
  refine Clocked.run_always (P := fun l : Link =>
    (hears dst Receiver.start l.heard).1 = l.receiver) rfl
    (fun a l hl => ?_) n
  cases a with
  | hear byte =>
      cases hforward : l.forward with
      | nil =>
          simp only [Link.step, hforward]
          exact hl
      | cons next rest =>
          simp only [Link.step, hforward]
          exact hreceive _ _ _ hl
  | receiverTimeout => exact hreceive _ _ _ hl
  | read byte =>
      cases hreplies : l.replies with
      | nil =>
          simp only [Link.step, hreplies]
          exact hl
      | cons next rest =>
          simp only [Link.step, hreplies]
          exact hl
  | lose => exact hl
  | loseReply => exact hl
  | senderTimeout => exact hl

end Agree

/-- The image as the receiver sees it, with the padding of the last block. -/
def padded (image : List Byte) : List Byte :=
  image ++ List.replicate (128 * blockCount image - image.length) paddingByte

/-- All blocks have been accepted in order, the end has been received, and the loader has returned
with the payload of the image. -/
structure Agreed (dst : Word) (image : List Byte) (l : Link) : Prop where
  blocks : l.receiver.blocks = firstBlocks image (blockCount image)
  phase : l.receiver.phase = .done (.ok (BitVec.ofNat 32 (payloadLength (padded image))))
  loads : Loads dst (padded image) l.heard

theorem flatten_padded (image : List Byte) :
    (firstBlocks image (blockCount image)).flatten = padded image := by
  by_cases hne : image = []
  · subst hne
    rfl
  · exact firstBlocks_flatten_end hne

theorem Complete.agreed {dst : Word} {image : List Byte} {retries : Nat} {acts : Nat → Action}
    {n : Nat} (h : (after dst image retries acts n).Complete image) :
    Agreed dst image (after dst image retries acts n) := by
  have hphase := h.phase
  rw [flatten_padded] at hphase
  refine ⟨h.blocks, hphase, ?_⟩
  apply loads_of_done
  · rw [after_hears]
    exact hphase
  · rw [after_hears, h.blocks, flatten_padded]

/-- **Agreement.** When `send_image` returns after a run in which nothing was late, the receiver has
the image; and every `XMODEM_ACK` the sender has taken was the answer to what it had written. -/
theorem xmodem_agreement (dst : Word) (image : List Byte) (retries : Nat) (acts : Nat → Action)
    (n : Nat)
    (hcaught : ∀ k, k < n → caught image (acts k) (after dst image retries acts k) = true)
    (htimely : ∀ k, k < n → timely (acts k) (after dst image retries acts k) = true) :
    ((after dst image retries acts n).sender = .returned →
        Agreed dst image (after dst image retries acts n)) ∧
      ∀ k, k < n → AckAnswers (acts k) (after dst image retries acts k) := by
  have hinv : ∀ m, m ≤ n → Agree image (after dst image retries acts m) := by
    intro m hm
    refine Clocked.run_invariant (C := fun a l => l.caught image a = true ∧ l.timely a = true)
      agree_start (fun a l hc h => (h.step a hc.1 hc.2).1) fun k hk => ?_
    have hlt := Nat.lt_of_lt_of_le hk hm
    exact ⟨hcaught k hlt, htimely k hlt⟩
  constructor
  · intro hreturned
    have h := hinv n (Nat.le_refl n)
    unfold Agree at h
    rw [hreturned] at h
    exact h.agreed
  · intro k hk
    have hstep : Agree image (step dst image retries (acts k) (after dst image retries acts k)) ∧ _ :=
      (hinv k (Nat.le_of_lt hk)).step (acts k) (hcaught k hk) (htimely k hk)
    exact hstep.2

/-- The first block, then the end; everything is delivered at once. -/
def smoothActions : List Action :=
  [.read xmodemCrcRequest] ++ (frame 1#8 (blockAt smallImage 0)).map (fun b => .hear (some b))
    ++ [.read xmodemAck, .hear (some xmodemEot), .read xmodemAck]

/-- The sender is impatient and writes the block twice. The receiver acknowledges it twice, the end
is lost, and the second answer is taken for the answer to the end. -/
def lateActions : List Action :=
  [.read xmodemCrcRequest, .senderTimeout]
    ++ (frame 1#8 (blockAt smallImage 0) ++ frame 1#8 (blockAt smallImage 0)).map
      (fun b => .hear (some b))
    ++ [.read xmodemAck, .lose, .read xmodemAck]

/-- The actions of a list. -/
def inTurn (list : List Action) (k : Nat) : Action := list.getD k .lose

set_option maxRecDepth 10000 in
theorem smooth_is_timely : ∀ k, k < 137 →
    (caught smallImage (inTurn smoothActions k)
        (after loadAddr smallImage 16 (inTurn smoothActions) k) &&
      timely (inTurn smoothActions k) (after loadAddr smallImage 16 (inTurn smoothActions) k))
      = true := by
  have hall : Clocked.always (step loadAddr smallImage 16)
      (fun a l => caught smallImage a l && timely a l) (inTurn smoothActions) start 137 = true := by
    decide +kernel
  exact Clocked.always_iff.mp hall

theorem xmodem_agreement_smooth :
    ((after loadAddr smallImage 16 (inTurn smoothActions) 137).sender = .returned →
        Agreed loadAddr smallImage (after loadAddr smallImage 16 (inTurn smoothActions) 137)) ∧
      ∀ k, k < 137 → AckAnswers (inTurn smoothActions k)
        (after loadAddr smallImage 16 (inTurn smoothActions) k) :=
  xmodem_agreement loadAddr smallImage 16 (inTurn smoothActions) 137
    (fun k hk => (Bool.and_eq_true_iff.mp (smooth_is_timely k hk)).1)
    (fun k hk => (Bool.and_eq_true_iff.mp (smooth_is_timely k hk)).2)

set_option maxRecDepth 10000 in
/-- The sender has returned, and the receiver still waits for the end. -/
theorem stale_ack_returns :
    ¬ (∀ (dst : Word) (image : List Byte) (retries : Nat) (acts : Nat → Action) (n : Nat),
      ValidHeader dst image → 1 ≤ blockCount image → blockCount image ≤ 255 →
      (∀ k, k < n → caught image (acts k) (after dst image retries acts k) = true) →
      ((after dst image retries acts n).sender = .returned →
        Agreed dst image (after dst image retries acts n)) ∧
      ∀ k, k < n → AckAnswers (acts k) (after dst image retries acts k)) := by
  intro h
  have hcaught : ∀ k, k < 271 → caught smallImage (inTurn lateActions k)
      (after loadAddr smallImage 16 (inTurn lateActions) k) = true :=
    Clocked.always_iff.mp (by decide +kernel)
  have hend : ((after loadAddr smallImage 16 (inTurn lateActions) 271).sender = .returned ∧
      (after loadAddr smallImage 16 (inTurn lateActions) 271).receiver.running = true) := by
    decide +kernel
  have hagreed := (h loadAddr smallImage 16 (inTurn lateActions) 271 validImage_small.header
    (by decide) (by decide) hcaught).1 hend.1
  have hrunning := hend.2
  rw [Receiver.running, hagreed.phase] at hrunning
  cases hrunning

end Link

end MelonSoc.Boot
