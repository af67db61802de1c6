import MelonSoc.Boot.Stray

set_option autoImplicit false

/-! # A lost byte

One byte of one frame is lost, and the sender sends the frame once more when it is asked to. What
becomes of the transfer depends on the rest of the damaged frame.
-/

namespace MelonSoc.Boot

open Receiver (hears behind)

namespace Exchange

variable {dst : Word} {image : List Byte} {damage : Option Damage}

variable {d : Damage}

/-- In front of the damaged frame. -/
structure Damaged (image : List Byte) (x : Exchange) (d : Damage) : Prop where
  here : At image (some d) x d.block
  line : x.line = firstFrame image (some d) d.block
  retries : x.sender.retries = 0
  tries : x.receiver.blockRetries = 0#32

/-- The damaged frame is heard: the receiver answers, and then it hears the rest. -/
theorem Damaged.answered {x : Exchange} (hv : ValidImage dst image)
    (hk : d.block < blockCount image) (hp : d.position < 133) (hx : Damaged image x d) :
    ∃ r more, OnlyRequests more ∧
      (∀ bytes, x.line = x.line.take (heardUntilNak d.position) ++ heardBytes (restOf image d) ∧
        hears dst (x.receiver, []) (x.line.take (heardUntilNak d.position) ++ heardBytes bytes)
          = hears dst (r, xmodemNak :: more) (heardBytes bytes)) ∧
      FateMet dst (firstBlocks image d.block) (r, xmodemNak :: more) (restOf image d)
        (fateOf image d) := by
  have hline : x.line = (heardBytes (frame (BitVec.ofNat 8 (d.block + 1))
      (blockAt image d.block))).set d.position (.error .uart) := by
    rw [hx.line, firstFrame, if_pos rfl, cleanFrame]
  obtain ⟨r, more, hmore, hw, heq⟩ := hears_damaged
    (firstBlocks image d.block) (BitVec.ofNat 8 (d.block + 1)) (blockAt image d.block)
    (blockAt_length _) d.position hp ⟨hx.here.phase, hx.here.blocks, hx.tries⟩
  rw [← hline] at heq
  refine ⟨r, more, hmore, fun bytes => ⟨?_, ?_⟩, ?_⟩
  · rw [restOf, ← damaged_drop _ (.error .uart) hp, ← hline, List.take_append_drop]
  · rw [Receiver.hears_append, heq]
    rfl
  · exact hears_rest _ (hv.open_of_lt hk) 1 (restOf image d) (by omega) hw

/-- What the sender does with the answer to the damaged frame. -/
theorem Damaged.onTxBytes {x : Exchange} (hx : Damaged image x d) {more : List Byte}
    (hmore : OnlyRequests more) :
    x.sender.onTxBytes image (some d) (xmodemNak :: more)
      = ({ x.sender with retries := 1 }, cleanFrame image d.block) := by
  rw [onTxBytes_nak hx.here.state (by rw [hx.retries]; omega) hx.here.offset hx.here.number
    (fun d' h => by rw [hx.here.damaged d' h]; cases h; simp) hmore, hx.retries]

/-- The rest of the damaged frame is ignored: the frame comes once more and is whole. -/
theorem Damaged.passes {x : Exchange} (hv : ValidImage dst image) (hk : d.block < blockCount image)
    (hp : d.position < 133) (hx : Damaged image x d) {tries : Nat}
    (hfate : fateOf image d = .passed tries) :
    let x' := x.reads dst image (some d) x.line []
    At image (some d) x' d.block ∧ x'.line = cleanFrame image d.block := by
  obtain ⟨r, more, hmore, hheard, hmet⟩ := hx.answered hv hk hp
  obtain ⟨hline, hall⟩ := hheard (restOf image d)
  rw [← hline] at hall
  rw [hfate] at hmet
  obtain ⟨-, more', hmore', hout, hw'⟩ := hmet
  rw [← hall] at hout hw'
  have htx := hx.onTxBytes fun b hb => by
    rcases List.mem_append.mp hb with hb | hb
    · exact hmore b hb
    · exact hmore' b hb
  simp only [reads]
  rw [hout, List.cons_append, htx]
  exact ⟨⟨hx.here.state, hx.here.offset, hx.here.number, hx.here.damaged, hw'.phase,
    hw'.blocks⟩, rfl⟩

/-- The rest of the damaged frame ends the transfer. -/
theorem Damaged.fails {x : Exchange} (hv : ValidImage dst image) (hk : d.block < blockCount image)
    (hp : d.position < 133) (hx : Damaged image x d) (hfate : fateOf image d = .fatal) :
    ∃ e, (x.reads dst image (some d) x.line []).receiver.phase = .done (.error e) := by
  obtain ⟨r, more, -, hheard, hmet⟩ := hx.answered hv hk hp
  obtain ⟨hline, hall⟩ := hheard (restOf image d)
  rw [← hline] at hall
  rw [hfate] at hmet
  obtain ⟨e, he⟩ := hmet
  rw [← hall] at he
  exact ⟨e, he⟩

/-- The receiver has read the damaged frame up to `left`, and behind it the frame comes once
more. -/
structure CutShort (image : List Byte) (x : Exchange) (d : Damage) (tries : Nat)
    (left : List Byte) : Prop where
  line : x.line = heardBytes left ++ cleanFrame image d.block
  receiver : x.receiver.Waits (firstBlocks image d.block) tries
  state : x.sender.state = .waitAck
  retries : x.sender.retries ≤ tries
  offset : x.sender.offset = 128 * d.block
  number : x.sender.blockNo = BitVec.ofNat 8 (d.block + 1)
  damaged : x.sender.damaged = true

/-- The rest of the damaged frame is read up to `left`. -/
theorem Damaged.stops {n : Nat} (hx : Damaged image (after dst image (some d) n) d)
    {r : Receiver} {more : List Byte} (hmore : OnlyRequests more)
    (hheard : ∀ bytes, (after dst image (some d) n).line
        = (after dst image (some d) n).line.take (heardUntilNak d.position)
          ++ heardBytes (restOf image d) ∧
      hears dst ((after dst image (some d) n).receiver, [])
          ((after dst image (some d) n).line.take (heardUntilNak d.position) ++ heardBytes bytes)
        = hears dst (r, xmodemNak :: more) (heardBytes bytes))
    {tries : Nat} {left : List Byte} (hone : 1 ≤ tries)
    (hupTo : ReadUpTo dst (firstBlocks image d.block) (r, xmodemNak :: more) (restOf image d)
      tries left) :
    tries < 16 ∧ (∃ pre, frame (BitVec.ofNat 8 (d.block + 1)) (blockAt image d.block)
      = pre ++ left) ∧ ∃ n', CutShort image (after dst image (some d) n') d tries left := by
  obtain ⟨htries, before, more', hrest, hmore', hout, hw⟩ := hupTo
  refine ⟨htries, ?_, ?_⟩
  · refine ⟨(frame (BitVec.ofNat 8 (d.block + 1)) (blockAt image d.block)).take
      (heardUntilNak d.position) ++ before, ?_⟩
    rw [List.append_assoc, ← hrest, restOf, List.take_append_drop]
  · obtain ⟨hline, hall⟩ := hheard before
    rw [hrest, heardBytes, List.map_append, ← heardBytes, ← heardBytes, ← List.append_assoc] at hline
    have hreads := after_reads _ _ hline
    rw [← hall] at hout hw
    have htx := hx.onTxBytes fun b hb => by
      rcases List.mem_append.mp hb with hb | hb
      · exact hmore b hb
      · exact hmore' b hb
    have hdam := hx.here.damaged d rfl
    refine ⟨_, Eq.subst (motive := fun x => CutShort image x d tries left) hreads.symm ?_⟩
    simp only [reads]
    rw [hout, List.cons_append, htx]
    refine ⟨rfl, hw, hx.here.state, hone, hx.here.offset, hx.here.number, ?_⟩
    rw [hdam]
    simp

/-! ## A frame in the wrong place -/

/-- The frame that the receiver sees behind an `XMODEM_SOH` in the rest of the damaged frame. -/
def windowBehind (image : List Byte) (k : Nat) (rest : List Byte) : List Byte :=
  rest ++ (frame (BitVec.ofNat 8 (k + 1)) (blockAt image k)).take (132 - rest.length)

/-- The frame ends with `XMODEM_SOH` and `rest`. -/
theorem window_line {rest pre : List Byte} {k : Nat}
    (hsuffix : frame (BitVec.ofNat 8 (k + 1)) (blockAt image k) = pre ++ xmodemSoh :: rest) :
    (windowBehind image k rest).length = 132 ∧
      heardBytes (xmodemSoh :: rest) ++ cleanFrame image k
        = heardBytes (xmodemSoh :: windowBehind image k rest)
          ++ heardBytes (xmodemSoh :: rest) := by
  have hlen := frame_length (BitVec.ofNat 8 (k + 1)) (blockAt image k) (blockAt_length k)
  have hpre : pre.length = 132 - rest.length := by
    rw [hsuffix, List.length_append, List.length_cons] at hlen
    omega
  have hrest : rest.length ≤ 132 := by
    rw [hsuffix, List.length_append, List.length_cons] at hlen
    omega
  have htake : (frame (BitVec.ofNat 8 (k + 1)) (blockAt image k)).take (132 - rest.length) = pre := by
    rw [hsuffix, ← hpre, List.take_left]
  rw [windowBehind, htake]
  constructor
  · rw [List.length_append]
    omega
  · rw [cleanFrame, hsuffix]
    simp [heardBytes]

/-- The wrong frame is refused, and the next one is as wrong. -/
theorem CutShort.next {x : Exchange} {tries : Nat} {rest pre : List Byte}
    (hx : CutShort image x d tries (xmodemSoh :: rest)) (htries : tries < 16)
    (hsuffix : frame (BitVec.ofNat 8 (d.block + 1)) (blockAt image d.block)
      = pre ++ xmodemSoh :: rest)
    (hno : NoFrame (windowBehind image d.block rest)) :
    let x' := x.reads dst image (some d)
      (heardBytes (xmodemSoh :: windowBehind image d.block rest)) (heardBytes (xmodemSoh :: rest))
    (tries + 1 < 16 → CutShort image x' d (tries + 1) (xmodemSoh :: rest)) ∧
    (¬ tries + 1 < 16 → ∃ e, x'.receiver.phase = .done (.error e)) := by
  obtain ⟨hlen, -⟩ := window_line hsuffix
  obtain ⟨e, heq⟩ := hears_noFrame hx.receiver.phase hlen hno
  simp only [reads]
  rw [heq]
  constructor
  · intro hlt
    obtain ⟨more, hout, hmore, hw⟩ := waits_retry
      (r := { x.receiver with syncStarted := true }) e true _ hx.receiver.blocks
      hx.receiver.tries hlt
    have hsent : (behind []
        (({ x.receiver with syncStarted := true } : Receiver).retry e true)).2
        = xmodemNak :: more := hout
    have hretries := hx.retries
    rw [hsent, onTxBytes_nak hx.state (by omega) hx.offset hx.number (fun _ _ => hx.damaged) hmore]
    refine ⟨rfl, hw, hx.state, ?_, hx.offset, hx.number, hx.damaged⟩
    show x.sender.retries + 1 ≤ tries + 1
    omega
  · intro hge
    refine ⟨e, ?_⟩
    show (({ x.receiver with syncStarted := true } : Receiver).retry e true).1.phase = _
    rw [Receiver.retry, if_pos]
    · rfl
    · show xmodemMaxRetries ≤ x.receiver.blockRetries + 1#32
      rw [hx.receiver.tries, retry_word htries]
      omega

/-- A receiver that is locked gives up. -/
theorem CutShort.fails {n tries : Nat} {rest pre : List Byte}
    (hx : CutShort image (after dst image (some d) n) d tries (xmodemSoh :: rest)) (htries : tries < 16)
    (hsuffix : frame (BitVec.ofNat 8 (d.block + 1)) (blockAt image d.block)
      = pre ++ xmodemSoh :: rest)
    (hno : NoFrame (windowBehind image d.block rest)) :
    ∃ n' e, (after dst image (some d) n').receiver.phase = .done (.error e) := by
  obtain ⟨m, hm⟩ : ∃ m, 16 - tries = m := ⟨_, rfl⟩
  induction m generalizing n tries with
  | zero => omega
  | succ m ih =>
      obtain ⟨hgoes, hends⟩ := hx.next htries hsuffix hno
      have hreads := after_reads
        (heardBytes (xmodemSoh :: windowBehind image d.block rest)) (heardBytes (xmodemSoh :: rest))
        (hx.line.trans (window_line hsuffix).2)
      rw [← hreads] at hgoes hends
      by_cases hlt : tries + 1 < 16
      · exact ih (hgoes hlt) hlt (by omega)
      · obtain ⟨e, he⟩ := hends hlt
        exact ⟨_, e, he⟩

/-! ## A silent line -/

/-- The line stays silent until the try has failed. -/
theorem stops_silent {n : Nat} {r : Receiver} (hline : (after dst image damage n).line = [])
    (hstop : Stopped dst r (after dst image damage n).receiver) :
    ∃ n', (after dst image damage n').receiver = (r.retry .timeout true).1 ∧
      (after dst image damage n').sender = ((after dst image damage n).sender.onTxBytes image damage
        (r.retry .timeout true).2).1 ∧
      (after dst image damage n').line = ((after dst image damage n).sender.onTxBytes image damage
        (r.retry .timeout true).2).2 := by
  rcases hstop with hear | ⟨r'', hear, hagain⟩
  · refine ⟨n + 1, ?_⟩
    simp only [after_succ, step, hline, List.headD_nil, List.tail_nil, List.nil_append, hear]
    exact ⟨trivial, trivial, trivial⟩
  · refine ⟨n + 2, ?_⟩
    simp only [after_succ, step, hline, List.headD_nil, List.tail_nil, List.nil_append, hear,
      XmodemSender.onTxBytes_nil, hagain]
    exact ⟨trivial, trivial, trivial⟩

/-- The sender waits for an answer to a frame that the receiver has not seen. -/
structure Silent (x : Exchange) : Prop where
  line : x.line = []
  sender : x.sender.state = .waitAck ∨ x.sender.state = .failed
  receiver : x.receiver.phase = .control ∨ x.receiver.phase = .second ∨
    ∃ e, x.receiver.phase = .done (.error e)

theorem await_phase (out : List Byte) (r : Receiver) :
    (r.await out).1.phase = .control ∧ ∃ more, (r.await out).2 = out ++ more ∧ OnlyRequests more := by
  unfold Receiver.await
  split
  · exact ⟨rfl, [xmodemCrcRequest], rfl, by simp [OnlyRequests]⟩
  · exact ⟨rfl, [], by simp, by simp [OnlyRequests]⟩

/-- Requests and cancellations do not bring the frame back. -/
theorem onTxBytes_silent {s : XmodemSender} {bytes : List Byte}
    (hs : s.state = .waitAck ∨ s.state = .failed)
    (hbytes : ∀ b ∈ bytes, b = xmodemCrcRequest ∨ b = xmodemCan) :
    (s.onTxBytes image damage bytes).2 = [] ∧
      ((s.onTxBytes image damage bytes).1.state = .waitAck ∨
        (s.onTxBytes image damage bytes).1.state = .failed) := by
  induction bytes generalizing s with
  | nil => exact ⟨rfl, hs⟩
  | cons b bytes ih =>
      have hone : (s.onTxByte image damage b).2 = [] ∧
          ((s.onTxByte image damage b).1.state = .waitAck ∨
            (s.onTxByte image damage b).1.state = .failed) := by
        have hrequest : xmodemCrcRequest ≠ xmodemAck ∧ xmodemCrcRequest ≠ xmodemNak ∧
            xmodemCrcRequest ≠ xmodemCan := by decide
        have hcan : xmodemCan ≠ xmodemAck ∧ xmodemCan ≠ xmodemNak := by decide
        rcases hs with hs | hs
        · rcases hbytes b List.mem_cons_self with rfl | rfl
          · simp [XmodemSender.onTxByte, hs, hrequest]
          · simp [XmodemSender.onTxByte, hs, hcan]
        · simp [XmodemSender.onTxByte, hs]
      obtain ⟨hnil, hstate⟩ := ih hone.2 fun c hc => hbytes c (List.mem_cons_of_mem _ hc)
      rw [XmodemSender.onTxBytes_cons, hone.1, hnil]
      exact ⟨rfl, hstate⟩

/-- A silent line stays silent. -/
theorem Silent.step {x : Exchange} (hx : Silent x) : Silent (step dst image damage x) := by
  have hhear : (∀ b ∈ (x.receiver.hear dst (.error .timeout)).2,
        b = xmodemCrcRequest ∨ b = xmodemCan) ∧
      ((x.receiver.hear dst (.error .timeout)).1.phase = .control ∨
        ∃ e, (x.receiver.hear dst (.error .timeout)).1.phase = .done (.error e)) := by
    obtain ⟨hphase, more, hout, hmore⟩ := await_phase [] x.receiver
    rw [List.nil_append] at hout
    have hawait : (∀ b ∈ (x.receiver.await []).2, b = xmodemCrcRequest ∨ b = xmodemCan) ∧
        ((x.receiver.await []).1.phase = .control ∨
          ∃ e, (x.receiver.await []).1.phase = .done (.error e)) := by
      rw [hout]
      exact ⟨fun b hb => .inl (hmore b hb), .inl hphase⟩
    rcases hx.receiver with hr | hr | ⟨e, hr⟩
    · by_cases hlast : xmodemMaxRetries ≤ x.receiver.syncRetries
      · simp only [Receiver.hear, hr, if_pos hlast]
        exact ⟨by simp [Receiver.stop], .inr ⟨.timeout, rfl⟩⟩
      · simp only [Receiver.hear, hr, if_neg hlast]
        exact hawait
    · simp only [Receiver.hear, hr]
      exact hawait
    · simp only [Receiver.hear, hr]
      exact ⟨by simp, .inr ⟨e, rfl⟩⟩
  obtain ⟨hnil, hstate⟩ := onTxBytes_silent hx.sender hhear.1
  have hphase := hhear.2
  simp only [Exchange.step, hx.line, List.headD_nil, List.tail_nil, List.nil_append]
  refine ⟨hnil, hstate, ?_⟩
  rcases hphase with h | h
  · exact .inl h
  · exact .inr (.inr h)

/-- The receiver has returned and hears nothing more. -/
theorem after_done {n m : Nat} {result : Except XmodemError Word} (hle : n ≤ m)
    (hn : (after dst image damage n).receiver.phase = .done result) :
    (after dst image damage m).receiver.phase = .done result := by
  induction m, hle using Nat.le_induction with
  | base => exact hn
  | succ m _ ih =>
      rw [after_succ]
      simp only [step, Receiver.hear_done ih]
      exact ih

/-- A transfer that has failed does not end well. -/
theorem not_finished_of_error {n : Nat} {e : XmodemError}
    (hn : (after dst image damage n).receiver.phase = .done (.error e)) (m : Nat) :
    ¬ Finished image (after dst image damage m) := by
  intro hm
  have h1 := after_done (Nat.le_max_left n m) hn
  have h2 := after_done (Nat.le_max_right n m) hm.receiver
  rw [h1] at h2
  cases h2

/-- Nor does one where both sides wait. -/
theorem not_finished_of_silent {n : Nat} (hn : Silent (after dst image damage n)) (m : Nat) :
    ¬ Finished image (after dst image damage m) := by
  intro hm
  have hsilent : ∀ m, n ≤ m → Silent (after dst image damage m) := by
    intro m hle
    induction m, hle using Nat.le_induction with
    | base => exact hn
    | succ m _ ih => exact after_succ m ▸ ih.step
  have h1 := (hsilent _ (Nat.le_max_left n m)).receiver
  rw [after_done (Nat.le_max_right n m) hm.receiver] at h1
  rcases h1 with h1 | h1 | ⟨e, h1⟩ <;> cases h1

/-! ## `XMODEM_CAN` at the end of the damaged frame -/

/-- The receiver takes the `XMODEM_SOH` of the frame that comes once more for the byte behind
`XMODEM_CAN`, and hears what follows it one by one. -/
theorem CutShort.reads_body {n tries : Nat}
    (hx : CutShort image (after dst image (some d) n) d tries [xmodemCan]) :
    ∃ r more, OnlyRequests more ∧ r.Waits (firstBlocks image d.block) tries ∧
      ∀ bytes left, frameBody (BitVec.ofNat 8 (d.block + 1)) (blockAt image d.block) = bytes ++ left →
        ∃ n', (after dst image (some d) n').receiver
              = (hears dst (r, more) (heardBytes bytes)).1 ∧
          (OnlyRequests (hears dst (r, more) (heardBytes bytes)).2 →
            (after dst image (some d) n').sender = (after dst image (some d) n).sender ∧
            (after dst image (some d) n').line = heardBytes left) := by
  obtain ⟨more, hout, hmore, hw⟩ := waits_await _ tries hx.receiver.blocks
    hx.receiver.tries
  rw [List.nil_append] at hout
  refine ⟨_, more, hmore, hw, fun bytes left hbytes => ?_⟩
  have hsoh : xmodemSoh ≠ xmodemCan := by decide
  have hhears : hears dst ((after dst image (some d) n).receiver, [])
        (heardBytes (xmodemCan :: xmodemSoh :: bytes))
      = hears dst (((after dst image (some d) n).receiver.await []).1, more)
          (heardBytes bytes) := by
    have hsplit : heardBytes (xmodemCan :: xmodemSoh :: bytes)
        = heardBytes [xmodemCan, xmodemSoh] ++ heardBytes bytes := rfl
    rw [hsplit, Receiver.hears_append, hears_can xmodemSoh hx.receiver.phase, if_neg hsoh, ← hout]
  have hline : (after dst image (some d) n).line
      = heardBytes (xmodemCan :: xmodemSoh :: bytes) ++ heardBytes left := by
    rw [hx.line, cleanFrame, frame, hbytes]
    simp [heardBytes]
  obtain ⟨n', hn'⟩ : ∃ n', after dst image (some d) n' = _ := ⟨_, after_reads _ _ hline⟩
  refine ⟨n', ?_⟩
  rw [hn']
  simp only [reads]
  rw [hhears]
  refine ⟨rfl, fun honly => ?_⟩
  rw [XmodemSender.onTxBytes_requests hx.state honly]
  exact ⟨rfl, List.append_nil _⟩

/-- What becomes of the frame that comes once more without its `XMODEM_SOH`. -/
theorem CutShort.cut {n tries : Nat} (hv : ValidImage dst image) (hk : d.block < blockCount image)
    (htries : tries < 16)
    (hx : CutShort image (after dst image (some d) n) d tries [xmodemCan]) :
    match fate tries (frameBody (BitVec.ofNat 8 (d.block + 1)) (blockAt image d.block)) with
    | .locked tries' _ =>
        if tries' + 1 < 16 then ∃ n', Finished image (after dst image (some d) n')
        else ∃ n' e, (after dst image (some d) n').receiver.phase = .done (.error e)
    | .fatal => ∃ n' e, (after dst image (some d) n').receiver.phase = .done (.error e)
    | _ => ∃ n', Silent (after dst image (some d) n') := by
  obtain ⟨r, more, hmore, hw, hall⟩ := hx.reads_body
  have hmet : FateMet dst (firstBlocks image d.block) (r, more)
      (frameBody (BitVec.ofNat 8 (d.block + 1)) (blockAt image d.block)) _ :=
    hears_rest _ (hv.open_of_lt hk) tries _ htries hw
  have hfate := fate_tries tries (frameBody (BitVec.ofNat 8 (d.block + 1)) (blockAt image d.block))
  have honly : ∀ more', OnlyRequests more' → OnlyRequests (more ++ more') := by
    intro more' h b hb
    rcases List.mem_append.mp hb with hb | hb
    · exact hmore b hb
    · exact h b hb
  generalize fate tries (frameBody (BitVec.ofNat 8 (d.block + 1)) (blockAt image d.block)) = f
    at hmet hfate ⊢
  cases f with
  | passed tries' =>
      obtain ⟨-, more', hmore', hout, hw'⟩ := hmet
      obtain ⟨n', hrecv, hrest⟩ := hall _ [] (List.append_nil _).symm
      rw [hout] at hrest
      obtain ⟨hsender, hline⟩ := hrest (honly more' hmore')
      exact ⟨n', hline, .inl (hsender ▸ hx.state), .inl (hrecv ▸ hw'.phase)⟩
  | fatal =>
      obtain ⟨e, he⟩ := hmet
      obtain ⟨n', hrecv, -⟩ := hall _ [] (List.append_nil _).symm
      exact ⟨n', e, hrecv ▸ he⟩
  | cut tries' =>
      obtain ⟨-, before, more', hbody, hmore', hout, hw'⟩ := hmet
      obtain ⟨n', hrecv, hrest⟩ := hall _ [] (List.append_nil _).symm
      have hcan : hears dst (r, more) (heardBytes (before ++ [xmodemCan]))
          = ({ (hears dst (r, more) (heardBytes before)).1 with phase := .second },
              more ++ more') := by
        rw [heardBytes, List.map_append, ← heardBytes, Receiver.hears_append]
        simp [Receiver.hear, hw'.phase, behind, hout]
      rw [hbody, hcan] at hrecv hrest
      obtain ⟨hsender, hline⟩ := hrest (honly more' hmore')
      exact ⟨n', hline, .inl (hsender ▸ hx.state), .inr (.inl (by rw [hrecv]))⟩
  | locked tries' rest =>
      obtain ⟨hlt, before, more', hbody, hmore', hout, hw'⟩ := hmet
      have hlen : rest.length < 132 := by
        have h := frame_length (BitVec.ofNat 8 (d.block + 1)) (blockAt image d.block)
          (blockAt_length d.block)
        rw [frame, hbody, List.length_cons, List.length_append, List.length_cons] at h
        omega
      obtain ⟨n', hrecv, hrest⟩ := hall _ [] (List.append_nil _).symm
      obtain ⟨r', hpart, hstop⟩ := hears_stopped
        hw'.phase hlen
      have hread : hears dst (r, more) (heardBytes (before ++ xmodemSoh :: rest))
          = (r', more ++ more') := by
        rw [heardBytes, List.map_append, ← heardBytes, ← heardBytes, Receiver.hears_append, hpart,
          hout]
      rw [hbody, hread] at hrecv hrest
      obtain ⟨hsender, hline⟩ := hrest (honly more' hmore')
      obtain ⟨n'', hrecv', hsender', hline'⟩ := stops_silent (by rw [hline]; rfl)
        (by rw [hrecv]; exact hstop)
      have hsync : ({ (hears dst (r, more) (heardBytes before)).1 with
          syncStarted := true } : Receiver).Waits (firstBlocks image d.block) tries' :=
        ⟨hw'.phase, hw'.blocks, hw'.tries⟩
      have hretries := hx.retries
      dsimp only at hfate ⊢
      by_cases hlast : tries' + 1 < 16
      · rw [if_pos hlast]
        obtain ⟨asked, hsent, hasked, hw''⟩ := waits_retry .timeout true _ hsync.blocks hsync.tries
          hlast
        rw [hsent, if_pos rfl, List.singleton_append, hsender,
          onTxBytes_nak hx.state (by omega) hx.offset hx.number (fun _ _ => hx.damaged) hasked]
          at hsender' hline'
        refine finishes_behind hv d.block n'' hk (fun d' h => by cases h; exact Nat.le_refl _)
          ⟨?_, ?_, ?_, fun d' h => ?_, ?_, ?_⟩ hline'
        · rw [hsender']
          exact hx.state
        · rw [hsender']
          exact hx.offset
        · rw [hsender']
          exact hx.number
        · cases h
          rw [hsender']
          simpa using hx.damaged
        · rw [hrecv']
          exact hw''.phase
        · rw [hrecv']
          exact hw''.blocks
      · rw [if_neg hlast]
        refine ⟨n'', .timeout, ?_⟩
        rw [hrecv', Receiver.retry, if_pos]
        · rfl
        · rw [hsync.tries, retry_word hlt]
          omega

/-! ## The loader -/

/-- What the receiver is and what it has sent follow from what it has heard. -/
theorem after_hears (n : Nat) :
    hears dst Receiver.start (after dst image damage n).heard
      = ((after dst image damage n).receiver, (after dst image damage n).sent) := by
  induction n with
  | zero => rfl
  | succ n ih =>
      rw [after_succ]
      simp only [step, Receiver.hears_append, ih, Receiver.hears_cons, Receiver.hears_nil, behind]

variable (dst image)

/-- The transfer comes to its end, and the image is in memory. -/
def Recovers (damage : Option Damage) : Prop :=
  ∃ n, Finished image (after dst image damage n) ∧ Loads dst image (after dst image damage n).heard

variable {dst image}

theorem Finished.loads {n : Nat} (hv : ValidImage dst image)
    (hn : Finished image (after dst image damage n)) :
    Loads dst image (after dst image damage n).heard := by
  have hhears : hears dst Receiver.start (after dst image damage n).heard = _ := after_hears n
  have hstream := hv.stream
  dsimp only at hstream
  apply loads_of_done
  · rw [hhears]
    exact hn.receiver
  · rw [hhears]
    show payloadStores dst (after dst image damage n).receiver.blocks.flatten = _
    rw [hn.blocks, hstream.2.2]

theorem recovers_iff (hv : ValidImage dst image) :
    Recovers dst image damage ↔ ∃ n, Finished image (after dst image damage n) := by
  constructor
  · rintro ⟨n, hn, -⟩
    exact ⟨n, hn⟩
  · rintro ⟨n, hn⟩
    exact ⟨n, hn, hn.loads hv⟩

/-- The bytes of the damaged frame behind the answer are all ignored; or the last one is an
`XMODEM_CAN` and swallows the `XMODEM_SOH` of the frame that comes once more, and the receiver takes
a byte of that one for the beginning of a frame and asks for it again. -/
def Harmless (image : List Byte) (d : Damage) : Prop :=
  match fateOf image d with
  | .passed _ => True
  | .fatal => False
  | .cut tries =>
      match fate tries (frameBody (BitVec.ofNat 8 (d.block + 1)) (blockAt image d.block)) with
      | .locked tries' _ => tries' + 1 < 16
      | _ => False
  | .locked _ _ => False

/-- Where the receiver takes a byte of the damaged frame for the beginning of one, what it reads then
is no frame. -/
def NoAccident (image : List Byte) (d : Damage) : Prop :=
  ∀ tries rest, fateOf image d = .locked tries rest → NoFrame (windowBehind image d.block rest)

/-- **Recovery.** Without damage the image arrives. With one byte lost it does when the rest of
the damaged frame is harmless, and only then, where no accidental frame is in the way. -/
theorem xmodem_recovery (hv : ValidImage dst image) (d : Damage) (hk : d.block < blockCount image)
    (hp : d.position < 133) :
    Recovers dst image none ∧ (Harmless image d → Recovers dst image (some d)) ∧
      (NoAccident image d → Recovers dst image (some d) → Harmless image d) := by
  simp only [recovers_iff hv]
  obtain ⟨n, hhere, hline, hretries, htries⟩ :=
    @reaches_first dst image (some d) hv d.block hk
      (fun d' h => by cases h; exact Nat.le_refl _)
  have hx : Damaged image (after dst image (some d) n) d := ⟨hhere, hline, hretries, htries⟩
  have hall := after_reads (n := n) _ []
    (List.append_nil (after dst image (some d) n).line).symm
  have hfate := fate_tries 1 (restOf image d)
  rw [← fateOf] at hfate
  refine ⟨?_, ?_⟩
  · obtain ⟨n₀, hhere₀, hline₀, -, -⟩ := @reaches_first dst image none hv 0
      hv.blockCount_pos (fun _ h => by cases h)
    exact finishes_behind hv 0 n₀ hv.blockCount_pos (fun _ h => by cases h) hhere₀ hline₀
  cases hf : fateOf image d with
  | passed tries =>
      obtain ⟨hhere', hline'⟩ := hx.passes hv hk hp hf
      rw [← hall] at hhere' hline'
      refine ⟨fun _ => ?_, fun _ _ => by simp [Harmless, hf]⟩
      exact finishes_behind hv d.block _ hk (fun d' h => by cases h; exact Nat.le_refl _) hhere'
        hline'
  | fatal =>
      obtain ⟨e, he⟩ := hx.fails hv hk hp hf
      rw [← hall] at he
      refine ⟨fun h => by simp [Harmless, hf] at h, ?_⟩
      rintro - ⟨m, hm⟩
      exact absurd hm (not_finished_of_error he m)
  | cut tries =>
      obtain ⟨r, more, hmore, hheard, hmet⟩ := hx.answered hv hk hp
      rw [hf] at hmet hfate
      obtain ⟨hlt, -, n', hx'⟩ := hx.stops hmore hheard hfate hmet
      have hcut := hx'.cut hv hk hlt
      simp only [Harmless, hf]
      generalize fate tries (frameBody (BitVec.ofNat 8 (d.block + 1)) (blockAt image d.block)) = f
        at hcut ⊢
      cases f with
      | passed =>
          obtain ⟨m, hm⟩ := hcut
          exact ⟨False.elim, fun _ ⟨m', hm'⟩ => not_finished_of_silent hm m' hm'⟩
      | fatal =>
          obtain ⟨m, e, he⟩ := hcut
          exact ⟨False.elim, fun _ ⟨m', hm'⟩ => not_finished_of_error he m' hm'⟩
      | cut =>
          obtain ⟨m, hm⟩ := hcut
          exact ⟨False.elim, fun _ ⟨m', hm'⟩ => not_finished_of_silent hm m' hm'⟩
      | locked tries' rest =>
          dsimp only at hcut ⊢
          by_cases hlast : tries' + 1 < 16
          · rw [if_pos hlast] at hcut
            exact ⟨fun _ => hcut, fun _ _ => hlast⟩
          · rw [if_neg hlast] at hcut
            obtain ⟨m, e, he⟩ := hcut
            exact ⟨fun h => absurd h hlast,
              fun _ ⟨m', hm'⟩ => absurd hm' (not_finished_of_error he m')⟩
  | locked tries rest =>
      obtain ⟨r, more, hmore, hheard, hmet⟩ := hx.answered hv hk hp
      rw [hf] at hmet hfate
      obtain ⟨hlt, ⟨pre, hpre⟩, n', hx'⟩ := hx.stops hmore hheard hfate hmet
      refine ⟨fun h => by simp [Harmless, hf] at h, ?_⟩
      rintro hno ⟨m, hm⟩
      obtain ⟨n'', e, he⟩ := hx'.fails hlt hpre (hno tries rest hf)
      exact absurd hm (not_finished_of_error he m)

set_option maxRecDepth 10000 in
theorem xmodem_recovery_small :
    Recovers loadAddr smallImage none ∧
      (Harmless smallImage ⟨0, 132⟩ → Recovers loadAddr smallImage (some ⟨0, 132⟩)) ∧
      (NoAccident smallImage ⟨0, 132⟩ → Recovers loadAddr smallImage (some ⟨0, 132⟩) →
        Harmless smallImage ⟨0, 132⟩) :=
  xmodem_recovery validImage_small ⟨0, 132⟩ (by decide) (by decide)

set_option maxRecDepth 100000 in
/-- The first byte of the data is lost; too many of the others are no control bytes. -/
theorem lost_byte_aborts :
    ¬ (∀ (dst : Word) (image : List Byte) (d : Damage), ValidImage dst image →
      d.block < blockCount image → d.position < 133 → Recovers dst image (some d)) := by
  intro h
  obtain ⟨m, hm, -⟩ := h loadAddr smallImage ⟨0, 3⟩ validImage_small (by decide) (by decide)
  have hdone : (after loadAddr smallImage (some ⟨0, 3⟩) 22).receiver.phase
      = .done (.error .protocol) := by
    rfl
  exact not_finished_of_error hdone m hm

end Exchange

end MelonSoc.Boot
