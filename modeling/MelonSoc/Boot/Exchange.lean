import MelonSoc.Boot.Frames

set_option autoImplicit false

/-! # The exchange with the bench

The sender of the test bench, `XmodemSender` in `bench.cpp`, and the receiver, with a line on which
one byte of one frame is lost to a framing error or an overrun. Frames that are whole arrive one
after the other.
-/

namespace MelonSoc.Boot

open Receiver (hears behind)

/-! ## The sender of the bench -/

inductive SenderState
  | waitC
  | waitAck
  | waitEotAck
  | done
  | failed
  deriving DecidableEq

/-- `XmodemSender`; the damage is in the first transmission of the damaged frame. -/
structure XmodemSender where
  state : SenderState
  offset : Nat
  blockNo : Byte
  retries : Nat
  damaged : Bool

/-- The byte at position `position` of the frame of block `block` is lost. -/
structure Damage where
  block : Nat
  position : Nat

/-- `enqueue_frame`: the frame at the offset, as it will be heard. -/
def XmodemSender.enqueueFrame (image : List Byte) (damage : Option Damage) (s : XmodemSender) :
    XmodemSender × List Heard :=
  let part := (image.drop s.offset).take 128
  let data := part ++ List.replicate (128 - part.length) paddingByte
  let heard := heardBytes (frame s.blockNo data)
  match damage with
  | some d =>
      if s.offset = 128 * d.block ∧ !s.damaged then
        ({ s with state := .waitAck, damaged := true }, heard.set d.position (.error .uart))
      else ({ s with state := .waitAck }, heard)
  | none => ({ s with state := .waitAck }, heard)

/-- `on_tx_byte`: the receiver has sent a byte. -/
def XmodemSender.onTxByte (image : List Byte) (damage : Option Damage) (s : XmodemSender)
    (byte : Byte) : XmodemSender × List Heard :=
  match s.state with
  | .done => (s, [])
  | .failed => (s, [])
  | .waitC =>
      if byte = xmodemCrcRequest then
        if image = [] then ({ s with state := .failed }, [])
        else s.enqueueFrame image damage
      else (s, [])
  | .waitAck =>
      if byte = xmodemAck then
        let offset := s.offset + min (image.length - s.offset) 128
        if image.length ≤ offset then
          ({ s with offset := offset, retries := 0, state := .waitEotAck }, [.ok xmodemEot])
        else { s with offset := offset, retries := 0, blockNo := s.blockNo + 1#8 }.enqueueFrame
          image damage
      else if byte = xmodemNak then
        if 16 ≤ s.retries + 1 then ({ s with state := .failed, retries := s.retries + 1 }, [])
        else { s with retries := s.retries + 1 }.enqueueFrame image damage
      else if byte = xmodemCan then ({ s with state := .failed }, [])
      else (s, [])
  | .waitEotAck =>
      if byte = xmodemAck then ({ s with state := .done }, [])
      else if byte = xmodemCan then ({ s with state := .failed }, [])
      else (s, [])

/-- The bytes the receiver has sent, one after the other. -/
def XmodemSender.onTxBytes (image : List Byte) (damage : Option Damage) (s : XmodemSender) :
    List Byte → XmodemSender × List Heard
  | [] => (s, [])
  | b :: bytes =>
      let p := s.onTxByte image damage b
      let q := p.1.onTxBytes image damage bytes
      (q.1, p.2 ++ q.2)

/-! ## The two sides -/

/-- The sender, the receiver and what is on the line between them; `heard` is what the receiver
has heard. -/
structure Exchange where
  sender : XmodemSender
  line : List Heard
  receiver : Receiver
  sent : List Byte
  heard : List Heard

namespace Exchange

variable (dst : Word) (image : List Byte) (damage : Option Damage)

/-- The receiver hears what is next on the line, or a timeout when the line is silent, and the
sender reacts. -/
def step (x : Exchange) : Exchange :=
  let h := x.line.headD (.error .timeout)
  let p := x.receiver.hear dst h
  let q := x.sender.onTxBytes image damage p.2
  { sender := q.1
    line := x.line.tail ++ q.2
    receiver := p.1
    sent := x.sent ++ p.2
    heard := x.heard ++ [h] }

/-- The receiver has sent its first request. -/
def start : Exchange :=
  let s : XmodemSender :=
    { state := .waitC, offset := 0, blockNo := 1#8, retries := 0, damaged := false }
  let q := s.onTxBytes image damage Receiver.start.2
  { sender := q.1, line := q.2, receiver := Receiver.start.1, sent := Receiver.start.2, heard := [] }

/-- The exchange after `n` reads of the receiver. -/
def after (n : Nat) : Exchange := (step dst image damage)^[n] (start image damage)

/-- The image has arrived: the loader returns its size, and the sender knows. -/
structure Finished (x : Exchange) : Prop where
  receiver : x.receiver.phase = .done (.ok (BitVec.ofNat 32 (payloadLength image)))
  blocks : x.receiver.blocks = firstBlocks image (blockCount image)
  sender : x.sender.state = .done

end Exchange

/-! ## Runs of the exchange -/

theorem hears_behind {dst : Word} (out : List Byte) (p : Receiver × List Byte)
    (heard : List Heard) : hears dst (behind out p) heard = behind out (hears dst p heard) := by
  induction heard generalizing p with
  | nil => rfl
  | cons h heard ih =>
      have hstep : behind (behind out p).2 (p.1.hear dst h) = behind out (behind p.2 (p.1.hear dst h)) := by
        simp [behind]
      rw [Receiver.hears_cons, Receiver.hears_cons]
      show hears dst (behind (behind out p).2 (p.1.hear dst h)) heard = _
      rw [hstep, ih]

/-- What the receiver sends while it hears a list. -/
theorem hears_out {dst : Word} (r : Receiver) (out : List Byte) (heard : List Heard) :
    hears dst (r, out) heard = behind out (hears dst (r, []) heard) := by
  rw [← hears_behind, behind, List.append_nil]

/-- All these are requests for the first block. -/
def OnlyRequests (bytes : List Byte) : Prop := ∀ b ∈ bytes, b = xmodemCrcRequest

namespace XmodemSender

variable {image : List Byte} {damage : Option Damage}

@[simp] theorem onTxBytes_nil (s : XmodemSender) : s.onTxBytes image damage [] = (s, []) := rfl

theorem onTxBytes_cons (s : XmodemSender) (b : Byte) (bytes : List Byte) :
    s.onTxBytes image damage (b :: bytes)
      = (((s.onTxByte image damage b).1.onTxBytes image damage bytes).1,
          (s.onTxByte image damage b).2
            ++ ((s.onTxByte image damage b).1.onTxBytes image damage bytes).2) := rfl

theorem onTxBytes_append (s : XmodemSender) (a b : List Byte) :
    s.onTxBytes image damage (a ++ b)
      = (((s.onTxBytes image damage a).1.onTxBytes image damage b).1,
          (s.onTxBytes image damage a).2
            ++ ((s.onTxBytes image damage a).1.onTxBytes image damage b).2) := by
  induction a generalizing s with
  | nil => simp
  | cons x a ih => rw [List.cons_append, onTxBytes_cons, ih, onTxBytes_cons, List.append_assoc]

/-- A sender that waits for an answer does not mind requests. -/
theorem onTxBytes_requests {s : XmodemSender} (hs : s.state = .waitAck) {more : List Byte}
    (hmore : OnlyRequests more) : s.onTxBytes image damage more = (s, []) := by
  induction more with
  | nil => rfl
  | cons b more ih =>
      have hb : b = xmodemCrcRequest := hmore b (List.mem_cons_self)
      have hack : xmodemCrcRequest ≠ xmodemAck := by decide
      have hnak : xmodemCrcRequest ≠ xmodemNak := by decide
      have hcan : xmodemCrcRequest ≠ xmodemCan := by decide
      have hone : s.onTxByte image damage b = (s, []) := by
        rw [hb]
        simp [onTxByte, hs, hack, hnak, hcan]
      rw [onTxBytes_cons, hone, ih fun c hc => hmore c (List.mem_cons_of_mem _ hc)]
      rfl

end XmodemSender

namespace Exchange

variable {dst : Word} {image : List Byte} {damage : Option Damage}

/-- The receiver reads all of `heard`, which is on the line, and the sender reacts. -/
def reads (dst : Word) (image : List Byte) (damage : Option Damage) (x : Exchange)
    (heard rest : List Heard) : Exchange :=
  let p := hears dst (x.receiver, []) heard
  let q := x.sender.onTxBytes image damage p.2
  { sender := q.1
    line := rest ++ q.2
    receiver := p.1
    sent := x.sent ++ p.2
    heard := x.heard ++ heard }

theorem step_reads (heard rest : List Heard) (x : Exchange) (hx : x.line = heard ++ rest) :
    (step dst image damage)^[heard.length] x = x.reads dst image damage heard rest := by
  induction heard generalizing x rest with
  | nil =>
      obtain ⟨sender, line, receiver, sent, heard⟩ := x
      obtain rfl : line = rest := hx
      simp [reads]
  | cons h heard ih =>
      have hline : (step dst image damage x).line
          = heard ++ (rest ++ (x.sender.onTxBytes image damage (x.receiver.hear dst h).2).2) := by
        simp [step, hx]
      rw [List.length_cons, Function.iterate_succ_apply, ih _ _ hline]
      have hhear : hears dst (x.receiver, []) (h :: heard)
          = behind (x.receiver.hear dst h).2
              (hears dst ((x.receiver.hear dst h).1, []) heard) := by
        rw [Receiver.hears_cons, ← hears_out]
        simp [behind]
      simp only [reads, step, hx, List.cons_append, List.headD_cons, hhear, behind,
        XmodemSender.onTxBytes_append, List.append_assoc, List.nil_append]

theorem after_succ (n : Nat) :
    after dst image damage (n + 1) = step dst image damage (after dst image damage n) := by
  rw [after, Function.iterate_succ_apply']
  rfl

/-- What is on the line is read. -/
theorem after_reads {n : Nat} (heard rest : List Heard)
    (hline : (after dst image damage n).line = heard ++ rest) :
    after dst image damage (heard.length + n)
      = (after dst image damage n).reads dst image damage heard rest := by
  rw [after, Function.iterate_add_apply]
  exact step_reads heard rest _ hline

/-- The frame of block `i` as it is sent. -/
def cleanFrame (image : List Byte) (i : Nat) : List Heard :=
  heardBytes (frame (BitVec.ofNat 8 (i + 1)) (blockAt image i))

/-- Its first transmission on the line. -/
def firstFrame (image : List Byte) (damage : Option Damage) (i : Nat) : List Heard :=
  match damage with
  | some d =>
      if i = d.block then (cleanFrame image i).set d.position (.error .uart)
      else cleanFrame image i
  | none => cleanFrame image i

/-- The frame of block `i` is on its way to a receiver that has the blocks before it. -/
structure At (image : List Byte) (damage : Option Damage) (x : Exchange) (i : Nat) : Prop where
  state : x.sender.state = .waitAck
  offset : x.sender.offset = 128 * i
  number : x.sender.blockNo = BitVec.ofNat 8 (i + 1)
  damaged : ∀ d, damage = some d → x.sender.damaged = decide (d.block ≤ i)
  phase : x.receiver.phase = .control
  blocks : x.receiver.blocks = firstBlocks image i

theorem enqueue_first (image : List Byte) (damage : Option Damage) (s : XmodemSender) (i : Nat)
    (ho : s.offset = 128 * i)
    (hn : s.blockNo = BitVec.ofNat 8 (i + 1))
    (hd : ∀ d, damage = some d → s.damaged = decide (d.block < i)) :
    (s.enqueueFrame image damage).2 = firstFrame image damage i ∧
      (s.enqueueFrame image damage).1.state = .waitAck ∧
      (s.enqueueFrame image damage).1.retries = s.retries ∧
      (s.enqueueFrame image damage).1.offset = 128 * i ∧
      (s.enqueueFrame image damage).1.blockNo = BitVec.ofNat 8 (i + 1) ∧
      ∀ d, damage = some d →
        (s.enqueueFrame image damage).1.damaged = decide (d.block ≤ i) := by
  cases damage with
  | none =>
      refine ⟨?_, rfl, rfl, ho, hn, fun d h => by cases h⟩
      simp [XmodemSender.enqueueFrame, firstFrame, cleanFrame, ho, hn, blockAt]
  | some d =>
      have hs := hd d rfl
      by_cases hi : i = d.block
      · have hfresh : s.damaged = false := by rw [hs, hi]; simp
        have hcond : (s.offset = 128 * d.block ∧ (!s.damaged) = true) := by
          rw [ho, hi, hfresh]
          exact ⟨rfl, rfl⟩
        simp only [XmodemSender.enqueueFrame]
        rw [if_pos hcond]
        refine ⟨?_, rfl, rfl, ho, hn, fun d' h => ?_⟩
        · simp [firstFrame, cleanFrame, ho, hn, blockAt, hi]
        · cases h
          simp [hi]
      · have hcond : ¬ (s.offset = 128 * d.block ∧ (!s.damaged) = true) := by
          rw [ho]
          rintro ⟨h1, -⟩
          omega
        simp only [XmodemSender.enqueueFrame]
        rw [if_neg hcond]
        refine ⟨?_, rfl, rfl, ho, hn, fun d' h => ?_⟩
        · simp [firstFrame, cleanFrame, ho, hn, blockAt, hi]
        · cases h
          show s.damaged = decide (d.block ≤ i)
          rw [hs]
          exact decide_eq_decide.mpr (by omega)

/-- The damage is behind the sender: the frame is sent again as it is. -/
theorem enqueue_again {s : XmodemSender} {i : Nat} (ho : s.offset = 128 * i)
    (hn : s.blockNo = BitVec.ofNat 8 (i + 1))
    (hd : ∀ d, damage = some d → s.damaged = true) :
    s.enqueueFrame image damage = ({ s with state := .waitAck }, cleanFrame image i) := by
  have hframe : heardBytes (frame s.blockNo (blockAt image i)) = cleanFrame image i := by
    rw [cleanFrame, hn]
  rw [← hframe, blockAt, ← ho]
  cases damage with
  | none => rfl
  | some d =>
      simp only [XmodemSender.enqueueFrame]
      rw [if_neg (by rw [hd d rfl]; simp)]

theorem at_start (hne : image ≠ []) :
    At image damage (start image damage) 0 ∧
      (start image damage).line = firstFrame image damage 0 ∧
      (start image damage).sender.retries = 0 ∧
      (start image damage).receiver.blockRetries = 0#32 := by
  have hrequest : Receiver.start.2 = [xmodemCrcRequest] := rfl
  have henq := enqueue_first image damage
    { state := .waitC, offset := 0, blockNo := 1#8, retries := 0, damaged := false } 0 rfl rfl
    (fun d _ => by simp)
  simp only [start, hrequest, XmodemSender.onTxBytes_cons, XmodemSender.onTxBytes_nil,
    List.append_nil, XmodemSender.onTxByte, if_true, if_neg hne]
  obtain ⟨hline, hstate, hretries, hoffset, hnumber, hdamaged⟩ := henq
  exact ⟨⟨hstate, hoffset, hnumber, hdamaged, rfl, rfl⟩, hline, hretries, rfl⟩

/-- The end of the transfer is on its way. -/
structure AtEnd (image : List Byte) (x : Exchange) : Prop where
  state : x.sender.state = .waitEotAck
  line : x.line = [.ok xmodemEot]
  phase : x.receiver.phase = .control
  blocks : x.receiver.blocks = firstBlocks image (blockCount image)

/-- A frame arrives as it was sent. -/
theorem At.arrives {x : Exchange} {i : Nat} (hv : ValidImage dst image)
    (hi : i < blockCount image) (hx : At image damage x i) :
    let x' := x.reads dst image damage (cleanFrame image i) []
    (i + 1 < blockCount image → At image damage x' (i + 1) ∧
      x'.line = firstFrame image damage (i + 1) ∧ x'.sender.retries = 0 ∧
      x'.receiver.blockRetries = 0#32) ∧
    (i + 1 = blockCount image → AtEnd image x') := by
  have hnumber : BitVec.ofNat 8 (i + 1) = numberBehind x.receiver.blocks := by
    rw [numberBehind, hx.blocks, firstBlocks_length]
  have hadmits : Admits dst x.receiver.blocks (blockAt image i) := by
    rw [hx.blocks]
    exact hv.admits hi
  have hhears : hears dst (x.receiver, []) (cleanFrame image i)
      = ({ x.receiver with
            phase := .control, syncStarted := true, blockRetries := 0#32
            blocks := firstBlocks image (i + 1) }, [xmodemAck]) := by
    rw [cleanFrame, hnumber, hears_next _ (blockAt_length i) hx.phase hadmits, Receiver.await,
      if_neg (by simp), hx.blocks, firstBlocks_succ]
    rfl
  have hlen := lt_blockCount.mp hi
  simp only [reads, hhears, XmodemSender.onTxBytes_cons, XmodemSender.onTxBytes_nil,
    List.append_nil, List.nil_append]
  constructor
  · intro hnext
    have hlt := lt_blockCount.mp hnext
    have hoff : x.sender.offset + min (image.length - x.sender.offset) 128 = 128 * (i + 1) := by
      rw [hx.offset]
      omega
    have henq := enqueue_first image damage
      { x.sender with offset := 128 * (i + 1), retries := 0, blockNo := x.sender.blockNo + 1#8 }
      (i + 1) rfl (by rw [hx.number, BitVec.ofNat_add (i + 1) 1])
      (fun d hd => by
        rw [hx.damaged d hd]
        exact decide_eq_decide.mpr (by omega))
    have htx : x.sender.onTxByte image damage xmodemAck
        = { x.sender with offset := 128 * (i + 1), retries := 0,
                          blockNo := x.sender.blockNo + 1#8 }.enqueueFrame image damage := by
      simp only [XmodemSender.onTxByte, hx.state, if_true, hoff]
      rw [if_neg (by omega)]
    rw [htx]
    obtain ⟨hline, hstate, hretries, hoffset, hnumber, hdamaged⟩ := henq
    exact ⟨⟨hstate, hoffset, hnumber, hdamaged, rfl, rfl⟩, hline, hretries, trivial⟩
  · intro hlast
    have hge : image.length ≤ 128 * (i + 1) := le_blockCount.mp (by omega)
    have hoff : x.sender.offset + min (image.length - x.sender.offset) 128 = image.length := by
      rw [hx.offset]
      omega
    have htx : x.sender.onTxByte image damage xmodemAck
        = ({ x.sender with offset := image.length, retries := 0, state := .waitEotAck },
            [.ok xmodemEot]) := by
      simp only [XmodemSender.onTxByte, hx.state, if_true, hoff, Nat.le_refl]
    rw [htx]
    exact ⟨rfl, rfl, rfl, by rw [hlast]⟩

/-- The end arrives. -/
theorem AtEnd.finishes {x : Exchange} (hv : ValidImage dst image) (hx : AtEnd image x) :
    Finished image (x.reads dst image damage [.ok xmodemEot] []) := by
  have hstream := hv.stream
  dsimp only at hstream
  have hfinish : x.receiver.finish
      = x.receiver.stop [xmodemAck] (.ok (BitVec.ofNat 32 (payloadLength image))) := by
    rw [Receiver.finish, hx.blocks, if_neg, hstream.1]
    rintro (hnil | hlt)
    · exact absurd (firstBlocks_eq_nil.mp hnil) (Nat.ne_of_gt hv.blockCount_pos)
    · omega
  have hhears : hears dst (x.receiver, []) [.ok xmodemEot]
      = x.receiver.stop [xmodemAck] (.ok (BitVec.ofNat 32 (payloadLength image))) := by
    rw [hears_eot hx.phase, hfinish, Receiver.behind_stop, List.nil_append]
  simp only [reads, hhears, Receiver.stop, XmodemSender.onTxBytes_cons,
    XmodemSender.onTxBytes_nil]
  refine ⟨rfl, hx.blocks, ?_⟩
  simp [XmodemSender.onTxByte, hx.state]

/-- **The frames behind the damage** arrive one after the other. -/
theorem finishes_behind (hv : ValidImage dst image) (i n : Nat) (hi : i < blockCount image)
    (hd : ∀ d, damage = some d → d.block ≤ i) (hx : At image damage (after dst image damage n) i)
    (hline : (after dst image damage n).line = cleanFrame image i) :
    ∃ n', Finished image (after dst image damage n') := by
  obtain ⟨m, hm⟩ : ∃ m, blockCount image - i = m := ⟨_, rfl⟩
  induction m generalizing i n with
  | zero => omega
  | succ m ih =>
      have hreads := after_reads (cleanFrame image i) []
        (by rw [hline, List.append_nil])
      obtain ⟨hnext, hend⟩ := hx.arrives hv hi
      rw [← hreads] at hnext hend
      by_cases hlast : i + 1 = blockCount image
      · have hx' := hend hlast
        have heot := after_reads [.ok xmodemEot] [] hx'.line
        exact ⟨_, heot ▸ hx'.finishes hv⟩
      · obtain ⟨hx', hline', -⟩ := hnext (by omega)
        refine ih (i + 1) _ (by omega) (fun d h => by have := hd d h; omega) hx' ?_ (by omega)
        rw [hline']
        cases hdam : damage with
        | none => rfl
        | some d =>
            have := hd d hdam
            simp only [firstFrame]
            rw [if_neg (by omega)]

/-- The frames before the damage arrive one after the other. -/
theorem reaches_first (hv : ValidImage dst image) (i : Nat) (hi : i < blockCount image)
    (hd : ∀ d, damage = some d → i ≤ d.block) :
    ∃ n, At image damage (after dst image damage n) i ∧
      (after dst image damage n).line = firstFrame image damage i ∧
      (after dst image damage n).sender.retries = 0 ∧
      (after dst image damage n).receiver.blockRetries = 0#32 := by
  induction i with
  | zero => exact ⟨0, at_start hv.ne_nil⟩
  | succ i ih =>
      obtain ⟨n, hx, hline, -⟩ := ih (by omega) (fun d h => by have := hd d h; omega)
      have hclean : firstFrame image damage i = cleanFrame image i := by
        cases hdam : damage with
        | none => rfl
        | some d =>
            have := hd d hdam
            simp only [firstFrame]
            rw [if_neg (by omega)]
      have hreads := after_reads (cleanFrame image i) []
        (by rw [hline, hclean, List.append_nil])
      obtain ⟨hnext, -⟩ := hx.arrives hv (by omega)
      rw [← hreads] at hnext
      exact ⟨_, hnext hi⟩

/-- The sender answers an `XMODEM_NAK` with the frame. -/
theorem onTxBytes_nak {s : XmodemSender} {i : Nat} {more : List Byte} (hstate : s.state = .waitAck)
    (hretries : s.retries + 1 < 16) (ho : s.offset = 128 * i)
    (hn : s.blockNo = BitVec.ofNat 8 (i + 1)) (hd : ∀ d, damage = some d → s.damaged = true)
    (hmore : OnlyRequests more) :
    s.onTxBytes image damage (xmodemNak :: more)
      = ({ s with retries := s.retries + 1 }, cleanFrame image i) := by
  have hack : xmodemNak ≠ xmodemAck := by decide
  have hone : s.onTxByte image damage xmodemNak
      = ({ s with retries := s.retries + 1 }, cleanFrame image i) := by
    obtain ⟨state, offset, blockNo, retries, damaged⟩ := s
    obtain rfl : state = .waitAck := hstate
    have hagain := @enqueue_again image damage
      { state := .waitAck, offset := offset, blockNo := blockNo, retries := retries + 1,
        damaged := damaged } i ho hn hd
    simp only [XmodemSender.onTxByte, if_neg hack, if_true]
    rw [if_neg (by show ¬ 16 ≤ retries + 1; exact Nat.not_le.mpr hretries), hagain]
  have hrest := @XmodemSender.onTxBytes_requests image damage
    { s with retries := s.retries + 1 } hstate _ hmore
  rw [XmodemSender.onTxBytes_cons, hone, hrest, List.append_nil]

end Exchange

end MelonSoc.Boot
