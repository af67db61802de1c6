import MelonSoc.Boot.Session

set_option autoImplicit false

/-! # What an XMODEM transfer leaves in memory

The rounds of a transfer by what is heard in them: a frame that is next in order, a frame of the
number before it, or something that is refused. When the loader returns a size, the payload of the
accepted frames is in memory, and nothing else has been stored.
-/

namespace MelonSoc.Boot

open Receiver (hears behind)

/-! ## Frames -/

/-- The check bytes of a block. -/
def checkBytes (data : List Byte) : List Byte :=
  let crc := crc16Ccitt (bytesAt data) 128
  [crc.extractLsb' 8 8, crc.extractLsb' 0 8]

/-- The bytes behind `XMODEM_SOH` with this number and this data. -/
def frameBody (number : Byte) (data : List Byte) : List Byte :=
  number :: (0xFF#8 - number) :: (data ++ checkBytes data)

/-- A frame: `XMODEM_SOH`, the number and its complement, the data and their CRC. -/
def frame (number : Byte) (data : List Byte) : List Byte := xmodemSoh :: frameBody number data

/-- The bytes of a list are heard one after the other. -/
def heardBytes (bytes : List Byte) : List Heard := bytes.map .ok

/-- The number of the block behind `blocks`: the first one has number 1, and the numbers go on
modulo 256. -/
def numberBehind (blocks : List (List Byte)) : Byte := BitVec.ofNat 8 (blocks.length + 1)

/-- What a round hears that accepts and acknowledges nothing. -/
inductive Refused (expected : Byte) : List Heard → Prop
  /-- A timeout or an error instead of a control byte. -/
  | failed (e : XmodemError) : Refused expected [.error e]
  | cancel (h : Heard) (hne : h ≠ .ok xmodemCan) : Refused expected [.ok xmodemCan, h]
  | stray (b : Byte) (hcan : b ≠ xmodemCan) (heot : b ≠ xmodemEot) (hsoh : b ≠ xmodemSoh) :
      Refused expected [.ok b]
  /-- A frame that breaks off in the number. -/
  | number (a b : Heard) (h : (∃ e, a = .error e) ∨ ∃ e, b = .error e) :
      Refused expected [.ok xmodemSoh, a, b]
  /-- A frame that breaks off in the data. -/
  | data (number inverse : Byte) (got : List Byte) (hgot : got.length < 128) (e : XmodemError) :
      Refused expected (heardBytes (xmodemSoh :: number :: inverse :: got) ++ [.error e])
  /-- A frame that breaks off in the CRC. -/
  | check (number inverse : Byte) (data : List Byte) (hdata : data.length = 128) (a b : Heard)
      (h : (∃ e, a = .error e) ∨ ∃ e, b = .error e) :
      Refused expected (heardBytes (xmodemSoh :: number :: inverse :: data) ++ [a, b])
  /-- The complement or the CRC is not that of the number and the data. -/
  | damaged (number inverse : Byte) (data check : List Byte) (hdata : data.length = 128)
      (hcheck : check.length = 2)
      (h : xmodemSoh :: number :: inverse :: (data ++ check) ≠ frame number data) :
      Refused expected (heardBytes (xmodemSoh :: number :: inverse :: (data ++ check)))
  /-- A frame with a number that is neither expected nor the one before. -/
  | unexpected (number : Byte) (data : List Byte) (hdata : data.length = 128)
      (hne : number ≠ expected) (hagain : number ≠ expected - 1#8) :
      Refused expected (heardBytes (frame number data))

/-- The rounds of a transfer: what has been heard in them, the data of the accepted frames in
their order, and how many frames were acknowledged. -/
inductive Received : List Heard → List (List Byte) → Nat → Prop
  | start : Received [] [] 0
  | refused {heard more : List Heard} {blocks : List (List Byte)} {acks : Nat}
      (before : Received heard blocks acks) (h : Refused (numberBehind blocks) more) :
      Received (heard ++ more) blocks acks
  /-- The frame before is sent again: it is acknowledged and not stored. -/
  | again {heard : List Heard} {blocks : List (List Byte)} {acks : Nat}
      (before : Received heard blocks acks) (data : List Byte) (hdata : data.length = 128) :
      Received (heard ++ heardBytes (frame (numberBehind blocks - 1#8) data)) blocks (acks + 1)
  | accepted {heard : List Heard} {blocks : List (List Byte)} {acks : Nat}
      (before : Received heard blocks acks) (data : List Byte) (hdata : data.length = 128) :
      Received (heard ++ heardBytes (frame (numberBehind blocks) data)) (blocks ++ [data])
        (acks + 1)

/-! ## The phase and what has been heard of the round -/

/-- What has been heard of the round that is not at its end. -/
def Phase.pending : Phase → List Heard
  | .control => []
  | .second => [.ok xmodemCan]
  | .number => [.ok xmodemSoh]
  | .inverse n => [.ok xmodemSoh, n]
  | .data n c got => heardBytes (xmodemSoh :: n :: c :: got)
  | .crcHi n c all => heardBytes (xmodemSoh :: n :: c :: all)
  | .crcLo n c all hi => heardBytes (xmodemSoh :: n :: c :: all) ++ [hi]
  | .done _ => []

/-- A block has 128 bytes. -/
def Phase.Sized : Phase → Prop
  | .data _ _ got => got.length < 128
  | .crcHi _ _ all => all.length = 128
  | .crcLo _ _ all _ => all.length = 128
  | _ => True

/-- The accepted blocks: their stream is sound and goes beyond the image by less than a block. -/
structure Taken (dst : Word) (blocks : List (List Byte)) : Prop where
  full : ∀ b ∈ blocks, b.length = 128
  sound : Sound dst blocks.flatten
  near : blocks ≠ [] → blocks.flatten.length < imageLength blocks.flatten + 128

/-- How many of the bytes are acknowledges. -/
def acksIn (sent : List Byte) : Nat := sent.count xmodemAck

/-- The rounds of the transfer that the receiver `p` has been through. -/
inductive Explained (dst : Word) (p : Receiver × List Byte) (heard : List Heard) : Prop
  | running (before : List Heard) (hsplit : heard = before ++ p.1.phase.pending)
      (received : Received before p.1.blocks (acksIn p.2)) (sized : p.1.phase.Sized)
      (taken : Taken dst p.1.blocks) (hrun : p.1.running = true)
  | failed (e : XmodemError) (hphase : p.1.phase = .done (.error e))
  | ended (before rest : List Heard) (acks : Nat)
      (hphase : p.1.phase = .done (.ok (BitVec.ofNat 32 (payloadLength p.1.blocks.flatten))))
      (hsplit : heard = before ++ .ok xmodemEot :: rest)
      (received : Received before p.1.blocks acks) (hacks : acksIn p.2 = acks + 1)
      (taken : Taken dst p.1.blocks) (hne : p.1.blocks ≠ [])
      (complete : imageLength p.1.blocks.flatten ≤ p.1.blocks.flatten.length)

section Explained

variable {dst : Word} {r : Receiver} {out : List Byte} {heard : List Heard}

theorem acksIn_append (a b : List Byte) : acksIn (a ++ b) = acksIn a + acksIn b :=
  List.count_append

/-- The check bytes are the two bytes of the CRC. -/
theorem check_iff (hi lo : Byte) (crc : BitVec 16) :
    (hi.setWidth 16 <<< 8 ||| lo.setWidth 16 : BitVec 16) = crc ↔
      hi = crc.extractLsb' 8 8 ∧ lo = crc.extractLsb' 0 8 := by
  have hcat : (hi.setWidth 16 <<< 8 ||| lo.setWidth 16 : BitVec 16) = (hi ++ lo : BitVec 16) := by
    ext i h
    simp
    grind
  rw [hcat]
  constructor
  · rintro rfl
    exact ⟨BitVec.extractLsb'_append_eq_left.symm, BitVec.extractLsb'_append_eq_right.symm⟩
  · rintro ⟨rfl, rfl⟩
    rw [BitVec.extractLsb'_append_extractLsb'_eq_extractLsb' (by decide), BitVec.extractLsb'_eq_self]

theorem complement_iff (number inverse : Byte) :
    number ^^^ inverse = 0xFF#8 ↔ inverse = 0xFF#8 - number := by
  have h : ∀ n : Byte, 0xFF#8 - n = n ^^^ 0xFF#8 := by decide
  rw [h]
  constructor
  · intro hx
    rw [← hx, ← BitVec.xor_assoc, BitVec.xor_self, BitVec.zero_xor]
  · rintro rfl
    rw [← BitVec.xor_assoc, BitVec.xor_self, BitVec.zero_xor]

/-- The round begins. -/
theorem explained_await {acks : Nat} (h : Received heard r.blocks acks) (hacks : acksIn out = acks)
    (ht : Taken dst r.blocks) : Explained dst (r.await out) heard := by
  subst hacks
  unfold Receiver.await
  split
  · refine .running heard (by simp [Phase.pending]) ?_ trivial ht rfl
    rw [acksIn_append]
    exact h
  · exact .running heard (by simp [Phase.pending]) h trivial ht rfl

theorem explained_retry (giveUp : XmodemError) (nak : Bool) {acks : Nat}
    (h : Received heard r.blocks acks) (hacks : acksIn out = acks) (ht : Taken dst r.blocks) :
    Explained dst (behind out (r.retry giveUp nak)) heard := by
  unfold Receiver.retry
  split
  · exact .failed giveUp rfl
  · rw [Receiver.behind_await]
    refine explained_await h ?_ ht
    rw [acksIn_append, hacks]
    cases nak <;> rfl

theorem Taken.snoc {blocks : List (List Byte)} {data : List Byte} (h : Taken dst blocks)
    (hdata : data.length = 128) (ha : Admits dst blocks data) : Taken dst (blocks ++ [data]) := by
  have hflat : (blocks ++ [data]).flatten = blocks.flatten ++ data := by simp
  refine ⟨?_, ?_, ?_⟩
  · intro b hb
    rcases List.mem_append.mp hb with hb | hb
    · exact h.full b hb
    · rw [List.mem_singleton.mp hb]
      exact hdata
  · rw [hflat]
    exact ha.2
  · intro _
    rw [hflat, List.length_append, hdata]
    cases hb : blocks with
    | nil =>
        rw [List.flatten_nil, List.length_nil]
        have hpos : 12 ≤ imageLength ([] ++ data) := Nat.le_add_right 12 _
        omega
    | cons b rest =>
        have hlong : 12 ≤ blocks.flatten.length := by
          have hb' := h.full b (by rw [hb]; exact List.mem_cons_self)
          rw [hb, List.flatten_cons, List.length_append]
          omega
        have hlt := ha.1.resolve_left (by rw [hb]; exact List.cons_ne_nil _ _)
        rw [← hb, imageLength_append _ hlong]
        omega

/-- A frame has been heard to its end. -/
theorem explained_block {acks : Nat} (number : Byte) (data : List Byte) (hdata : data.length = 128)
    (h : Received heard r.blocks acks) (hacks : acksIn out = acks) (ht : Taken dst r.blocks) :
    Explained dst (behind out (r.block dst number data))
      (heard ++ heardBytes (frame number data)) := by
  have hout : acksIn (out ++ [xmodemAck]) = acks + 1 := by
    rw [acksIn_append, hacks]
    rfl
  unfold Receiver.block
  by_cases hagain : number = r.expected - 1#8
  · rw [if_pos hagain, Receiver.behind_await, hagain]
    exact explained_await (r := { r with blockRetries := 0#32 }) (h.again data hdata) hout ht
  rw [if_neg hagain]
  by_cases hne : number ≠ r.expected
  · rw [if_pos hne]
    exact explained_retry _ _ (h.refused (.unexpected number data hdata hne hagain)) hacks ht
  rw [if_neg hne]
  obtain rfl := not_not.mp hne
  by_cases ha : Admits dst r.blocks data
  · rw [if_pos ha, Receiver.behind_await]
    exact explained_await
      (r := { r with blocks := r.blocks ++ [data], blockRetries := 0#32 })
      (h.accepted data hdata) hout (ht.snoc hdata ha)
  · rw [if_neg ha]
    exact .failed .image rfl

/-- The end of the transfer. -/
theorem explained_finish {acks : Nat} (h : Received heard r.blocks acks) (hacks : acksIn out = acks)
    (ht : Taken dst r.blocks) :
    Explained dst (behind out r.finish) (heard ++ [.ok xmodemEot]) := by
  unfold Receiver.finish
  by_cases hopen : r.blocks = [] ∨ r.blocks.flatten.length < imageLength r.blocks.flatten
  · rw [if_pos hopen]
    exact .failed .image rfl
  · rw [if_neg hopen]
    refine .ended heard [] acks rfl rfl h ?_ ht (fun hnil => hopen (.inl hnil)) ?_
    · show acksIn (out ++ [xmodemAck]) = acks + 1
      rw [acksIn_append, hacks]
      rfl
    · exact Nat.le_of_not_lt fun hlt => hopen (.inr hlt)

/-- The check bytes of a block have been heard. -/
theorem explained_check {acks : Nat} (number inverse : Byte) (data : List Byte)
    (hdata : data.length = 128) (hi lo : Heard) (h : Received heard r.blocks acks)
    (hacks : acksIn out = acks) (ht : Taken dst r.blocks)
    (hr : r.phase = .crcLo number inverse data hi) :
    Explained dst (behind out (r.hear dst lo))
      (heard ++ (heardBytes (xmodemSoh :: number :: inverse :: data) ++ [hi, lo])) := by
  have hrefused : ((∃ e, hi = .error e) ∨ ∃ e, lo = .error e) → Received
      (heard ++ (heardBytes (xmodemSoh :: number :: inverse :: data) ++ [hi, lo])) r.blocks acks :=
    fun he => h.refused (.check number inverse data hdata hi lo he)
  simp only [Receiver.hear, hr]
  cases hi with
  | error e => exact explained_retry e true (hrefused (.inl ⟨e, rfl⟩)) hacks ht
  | ok hi =>
  cases lo with
  | error e => exact explained_retry e true (hrefused (.inr ⟨e, rfl⟩)) hacks ht
  | ok lo =>
  have hbytes : heardBytes (xmodemSoh :: number :: inverse :: data) ++ [.ok hi, .ok lo]
      = heardBytes (xmodemSoh :: number :: inverse :: (data ++ [hi, lo])) := by
    simp [heardBytes]
  have hdamaged : xmodemSoh :: number :: inverse :: (data ++ [hi, lo]) ≠ frame number data →
      Received (heard ++ heardBytes (xmodemSoh :: number :: inverse :: (data ++ [hi, lo])))
        r.blocks acks :=
    fun hne => h.refused (.damaged number inverse data [hi, lo] hdata rfl hne)
  rw [hbytes]
  dsimp only
  split
  · rename_i hne
    refine explained_retry _ _ (hdamaged fun heq => hne ?_) hacks ht
    rw [complement_iff]
    simp only [frame, frameBody, List.cons.injEq] at heq
    exact heq.2.2.1
  rename_i hinv
  split
  · rename_i hne
    refine explained_retry _ _ (hdamaged fun heq => hne ?_) hacks ht
    simp only [frame, frameBody, checkBytes, List.cons.injEq, List.append_cancel_left_eq,
      and_true, true_and] at heq
    rw [check_iff]
    exact heq.2
  rename_i hcrc
  rw [not_not, complement_iff] at hinv
  rw [not_not, check_iff] at hcrc
  have hframe : xmodemSoh :: number :: inverse :: (data ++ [hi, lo]) = frame number data := by
    rw [frame, frameBody, checkBytes, hinv, hcrc.1, hcrc.2]
  rw [hframe]
  exact explained_block number data hdata h hacks ht

/-- A control byte has been heard. -/
theorem explained_control {acks : Nat} (h : Heard) (hrec : Received heard r.blocks acks)
    (hacks : acksIn out = acks) (ht : Taken dst r.blocks) (hr : r.phase = .control) :
    Explained dst (behind out (r.hear dst h)) (heard ++ [h]) := by
  have hsame : ∀ phase : Phase, phase.pending = [h] → phase.Sized →
      ({ r with phase := phase } : Receiver).running = true → ∀ sync,
      Explained dst (behind out ({ r with phase := phase, syncStarted := sync }, []))
        (heard ++ [h]) := by
    intro phase hp hs hrun sync
    refine .running heard (by rw [← hp]; rfl) ?_ hs ht hrun
    rw [behind, List.append_nil, hacks]
    exact hrec
  simp only [Receiver.hear, hr]
  cases h with
  | error e =>
      have hfailed := hrec.refused (.failed e)
      cases e with
      | timeout =>
          dsimp only
          split
          · exact .failed .timeout rfl
          · rw [Receiver.behind_await, List.append_nil]
            exact explained_await hfailed hacks ht
      | cancelled | protocol | image | uart | blockNumber | crc =>
          exact explained_retry _ _ hfailed hacks ht
  | ok b =>
      dsimp only
      split
      · rename_i hcan
        subst hcan
        exact hsame .second rfl trivial rfl r.syncStarted
      rename_i hcan
      split
      · rename_i heot
        subst heot
        exact explained_finish hrec hacks ht
      rename_i heot
      split
      · rename_i hsoh
        exact explained_retry _ _ (hrec.refused (.stray b hcan heot hsoh)) hacks ht
      · rename_i hsoh
        obtain rfl := not_not.mp hsoh
        exact hsame .number rfl trivial rfl true

/-- Inside a round. -/
theorem explained_inside {acks : Nat} (h : Heard) (hrec : Received heard r.blocks acks)
    (hacks : acksIn out = acks) (ht : Taken dst r.blocks) (hs : r.phase.Sized)
    (hrun : r.running = true) (hr : r.phase ≠ .control) :
    Explained dst (behind out (r.hear dst h)) (heard ++ r.phase.pending ++ [h]) := by
  have hsame : ∀ phase : Phase, phase.pending = r.phase.pending ++ [h] → phase.Sized →
      ({ r with phase := phase } : Receiver).running = true →
      Explained dst (behind out ({ r with phase := phase }, []))
        (heard ++ (r.phase.pending ++ [h])) := by
    intro phase hp hs hrun
    refine .running heard (by rw [← hp]; rfl) ?_ hs ht hrun
    rw [behind, List.append_nil, hacks]
    exact hrec
  rw [List.append_assoc]
  cases hp : r.phase with
  | control => exact absurd hp hr
  | done result =>
      rw [Receiver.running, hp] at hrun
      cases hrun
  | second =>
      have hcancel : h ≠ .ok xmodemCan → Received (heard ++ [.ok xmodemCan, h]) r.blocks acks :=
        fun hne => hrec.refused (.cancel h hne)
      simp only [Receiver.hear, hp]
      cases h with
      | error e =>
          dsimp only
          rw [Receiver.behind_await, List.append_nil]
          exact explained_await (hcancel (by simp)) hacks ht
      | ok b =>
          dsimp only
          split
          · exact .failed .cancelled rfl
          · rename_i hne
            rw [Receiver.behind_await, List.append_nil]
            exact explained_await (hcancel (by simpa using hne)) hacks ht
  | number =>
      rw [hp] at hsame
      simp only [Receiver.hear, hp]
      exact hsame (.inverse h) rfl trivial rfl
  | inverse n =>
      rw [hp] at hsame
      have hnumber : ((∃ e, n = .error e) ∨ ∃ e, h = .error e) →
          Received (heard ++ [.ok xmodemSoh, n, h]) r.blocks acks :=
        fun he => hrec.refused (.number n h he)
      simp only [Receiver.hear, hp]
      cases n with
      | error e => exact explained_retry e true (hnumber (.inl ⟨e, rfl⟩)) hacks ht
      | ok n =>
      cases h with
      | error e => exact explained_retry e true (hnumber (.inr ⟨e, rfl⟩)) hacks ht
      | ok c => exact hsame (.data n c []) rfl (show 0 < 128 by omega) rfl
  | data n c got =>
      rw [hp] at hsame hs
      have hlt : got.length < 128 := hs
      simp only [Receiver.hear, hp]
      cases h with
      | error e => exact explained_retry e true (hrec.refused (.data n c got hlt e)) hacks ht
      | ok b =>
          have hpending : heardBytes (xmodemSoh :: n :: c :: (got ++ [b]))
              = (Phase.data n c got).pending ++ [.ok b] := by
            simp [Phase.pending, heardBytes]
          dsimp only
          rw [Phase.filling]
          split
          · rename_i hfull
            exact hsame (.crcHi n c (got ++ [b])) hpending hfull rfl
          · rename_i hopen
            refine hsame (.data n c (got ++ [b])) hpending ?_ rfl
            rw [List.length_append, List.length_singleton] at hopen
            show (got ++ [b]).length < 128
            rw [List.length_append, List.length_singleton]
            omega
  | crcHi n c all =>
      rw [hp] at hsame hs
      simp only [Receiver.hear, hp]
      exact hsame (.crcLo n c all h) rfl hs rfl
  | crcLo n c all hi =>
      rw [hp] at hs
      have hcheck := explained_check n c all hs hi h hrec hacks ht hp
      simpa [Phase.pending, List.append_assoc] using hcheck

/-- **One read.** The rounds are those of everything that has been heard. -/
theorem Explained.hear {p : Receiver × List Byte} (he : Explained dst p heard) (h : Heard) :
    Explained dst (behind p.2 (p.1.hear dst h)) (heard ++ [h]) := by
  cases he with
  | failed e hphase =>
      rw [Receiver.hear_done hphase]
      exact .failed e hphase
  | ended before rest acks hphase hsplit received hacks taken hne complete =>
      rw [Receiver.hear_done hphase, behind, List.append_nil]
      refine .ended before (rest ++ [h]) acks hphase ?_ received hacks taken hne complete
      rw [hsplit, List.append_assoc, List.cons_append]
  | running before hsplit received sized taken hrun =>
      rw [hsplit]
      by_cases hc : p.1.phase = .control
      · rw [hc, Phase.pending, List.append_nil]
        exact explained_control h received rfl taken hc
      · exact explained_inside h received rfl taken sized hrun hc

theorem explained_start (dst : Word) : Explained dst Receiver.start [] := by
  refine explained_await .start rfl ⟨?_, sound_short (by decide), fun hne => absurd rfl hne⟩
  intro b hb
  exact absurd hb (List.not_mem_nil)

/-- **Runs.** -/
theorem Explained.hears {p : Receiver × List Byte} (he : Explained dst p heard)
    (more : List Heard) : Explained dst (Receiver.hears dst p more) (heard ++ more) := by
  induction more generalizing p heard with
  | nil =>
      rw [List.append_nil]
      exact he
  | cons h more ih =>
      have hstep := ih (he.hear h)
      rw [List.append_assoc] at hstep
      exact hstep

end Explained

/-! ## Memory -/

/-- Memory behind the stores of a trace. -/
def memoryAfter (m : Word → Byte) (t : List Event) : Word → Byte :=
  (storedBytes t).foldl (fun m p => Function.update m p.1 p.2) m

theorem address_inj {dst : Word} {i j : Nat} (hi : i < 2 ^ 32) (hj : j < 2 ^ 32)
    (h : dst + BitVec.ofNat 32 i = dst + BitVec.ofNat 32 j) : i = j := by
  have heq := congrArg BitVec.toNat ((BitVec.add_right_inj dst).mp h)
  rwa [BitVec.toNat_ofNat, BitVec.toNat_ofNat, Nat.mod_eq_of_lt hi, Nat.mod_eq_of_lt hj] at heq

/-- Bytes that are stored one behind the other are there, and nothing else has changed. -/
theorem stores_read (dst : Word) (m : Word → Byte) (bytes : List Byte)
    (hlen : bytes.length ≤ 2 ^ 32) :
    let m' := (bytes.zipIdx.map fun p => (dst + BitVec.ofNat 32 p.2, p.1)).foldl
      (fun m p => Function.update m p.1 p.2) m
    (∀ i, i < bytes.length → m' (dst + BitVec.ofNat 32 i) = bytesAt bytes i) ∧
    ∀ a, (∀ i, i < bytes.length → a ≠ dst + BitVec.ofNat 32 i) → m' a = m a := by
  induction bytes using List.reverseRecOn with
  | nil => exact ⟨fun i hi => absurd hi (Nat.not_lt_zero i), fun _ _ => rfl⟩
  | append_singleton bytes b ih =>
      rw [List.length_append, List.length_singleton] at hlen
      obtain ⟨hin, hout⟩ := ih (by omega)
      rw [List.zipIdx_append, List.map_append, List.foldl_append]
      simp only [List.zipIdx_cons, List.zipIdx_nil, List.map_cons, List.map_nil, List.foldl_cons,
        List.foldl_nil, Nat.zero_add]
      constructor
      · intro i hi
        rw [List.length_append, List.length_singleton] at hi
        rcases Nat.lt_succ_iff_lt_or_eq.mp hi with hlt | rfl
        · rw [Function.update_of_ne, hin i hlt, bytesAt_append _ hlt]
          intro heq
          have := address_inj (by omega) (by omega) heq
          omega
        · rw [Function.update_self, bytesAt_length]
      · intro a ha
        rw [Function.update_of_ne, hout a]
        · intro i hi
          exact ha i (by rw [List.length_append]; omega)
        · exact ha bytes.length (by rw [List.length_append, List.length_singleton]; omega)

theorem payloadStores_read {dst : Word} {stream : List Byte} (hv : ValidHeader dst stream)
    (hlen : imageLength stream ≤ stream.length) (m : Word → Byte) {t : List Event}
    (ht : storedBytes t = payloadStores dst stream) :
    (∀ i, i < payloadLength stream →
      memoryAfter m t (dst + BitVec.ofNat 32 i) = bytesAt stream (12 + i)) ∧
    ∀ a, (∀ i, i < payloadLength stream → a ≠ dst + BitVec.ofNat 32 i) → memoryAfter m t a = m a := by
  have hle := hv.imageLength_le
  rw [imageLength] at hle hlen
  have hpay : (payloadOf stream).length = payloadLength stream := by
    rw [payloadOf_length]
    omega
  obtain ⟨hin, hout⟩ := stores_read dst m (payloadOf stream) (by omega)
  rw [memoryAfter, ht]
  constructor
  · intro i hi
    refine (hin i (by omega)).trans ?_
    simp only [bytesAt, payloadOf, List.getD_eq_getElem?_getD]
    rw [List.getElem?_take_of_lt hi, List.getElem?_drop]
  · intro a ha
    exact hout a fun i hi => ha i (by omega)

/-! ## The result -/

/-- The stream of the blocks is an image with its padding, its payload is in memory from `dst` on,
and nothing else has been stored. -/
structure Delivered (dst : Word) (blocks : List (List Byte)) (size : Word) (t : List Event) :
    Prop where
  header : ValidHeader dst blocks.flatten
  size : size.toNat = payloadLength blocks.flatten
  complete : imageLength blocks.flatten ≤ blocks.flatten.length
  near : blocks.flatten.length < imageLength blocks.flatten + 128
  padding : ∀ b ∈ blocks.flatten.drop (imageLength blocks.flatten), b = paddingByte
  stored : storedBytes t = payloadStores dst blocks.flatten
  memory : ∀ m i, i < payloadLength blocks.flatten →
    memoryAfter m t (dst + BitVec.ofNat 32 i) = bytesAt blocks.flatten (12 + i)
  elsewhere : ∀ m a, (∀ i, i < payloadLength blocks.flatten → a ≠ dst + BitVec.ofNat 32 i) →
    memoryAfter m t a = m a

/-- The complete blocks of a transfer whose payload has been stored. -/
theorem Taken.delivered {dst : Word} {blocks : List (List Byte)} {t : List Event}
    (ht : Taken dst blocks) (hne : blocks ≠ [])
    (hcomplete : imageLength blocks.flatten ≤ blocks.flatten.length)
    (hstored : storedBytes t = payloadStores dst blocks.flatten) :
    Delivered dst blocks (BitVec.ofNat 32 (payloadLength blocks.flatten)) t := by
  have hlong : 12 ≤ blocks.flatten.length := by
    rw [imageLength] at hcomplete
    omega
  have hv := ht.sound.header hlong
  have hle := hv.imageLength_le
  rw [imageLength] at hle
  refine ⟨hv, ?_, hcomplete, ht.near hne, ht.sound.padding hlong, hstored, ?_, ?_⟩
  · rw [BitVec.toNat_ofNat, Nat.mod_eq_of_lt (by omega)]
  · exact fun m i hi => (payloadStores_read hv hcomplete m hstored).1 i hi
  · exact fun m a ha => (payloadStores_read hv hcomplete m hstored).2 a ha

/-- **XMODEM integrity.** When the loader returns a size, then what it has heard up to an
`XMODEM_EOT` are the rounds of a transfer, whose accepted frames are in memory; it has acknowledged
these, the frames that were sent again, and the end. -/
theorem xmodem_integrity (fuel : Nat) (dst : Word) (sizeOut : Bool) (uart : List Poll)
    (sd : List (Option Sector)) (size : Word)
    (h : ((xmodemLoadBootImage fuel dst sizeOut).run.run
      { uart := uart, sd := sd, trace := [] }).1 = .ok (.ok size)) :
    let t := ((xmodemLoadBootImage fuel dst sizeOut).run.run
      { uart := uart, sd := sd, trace := [] }).2.trace
    ∃ heard rest blocks acks, hearing uart = heard ++ .ok xmodemEot :: rest ∧
      Received heard blocks acks ∧ Delivered dst blocks size t ∧
      acksIn (sentBytes t) = acks + 1 := by
  have hsize : sizeOut = true := by
    by_contra hno
    rw [Bool.not_eq_true] at hno
    rw [hno] at h
    cases h
  subst hsize
  have hfollows := loader_follows fuel dst uart sd
  generalize (xmodemLoadBootImage fuel dst true).run.run { uart := uart, sd := sd, trace := [] }
    = run at h hfollows
  obtain ⟨res, w⟩ := run
  obtain rfl : res = .ok (.ok size) := h
  obtain ⟨used, rest, hsplit, hphase, -, hsent, hsizes⟩ := hfollows
  have hstored := hsizes size rfl
  clear hsizes
  have hexp := (explained_start dst).hears used
  rw [List.nil_append] at hexp
  generalize hears dst Receiver.start used = p at hphase hsent hstored hexp
  cases hexp with
  | running _ _ _ _ _ hrun =>
      rw [Receiver.running, hphase] at hrun
      cases hrun
  | failed e hfailed =>
      rw [hphase] at hfailed
      cases hfailed
  | ended heard rest' acks hended hheard received hacks taken hne complete =>
      rw [hphase] at hended
      obtain rfl : size = _ := Except.ok.inj (Phase.done.inj hended)
      refine ⟨heard, rest' ++ rest, p.1.blocks, acks, ?_, received,
        taken.delivered hne complete hstored, ?_⟩
      · rw [hsplit, hheard, List.append_assoc, List.cons_append]
      · show acksIn (sentBytes w.trace) = acks + 1
        rw [hsent, hacks]

/-- A round of the receive loop that finds a byte. -/
def arriving (b : Byte) : Poll :=
  { start := 0#32, status := uartRxValid, statusAgain := uartRxValid, data := b.setWidth 32
    count := 0#32 }

/-- A header with a text of one byte, the byte and the padding. -/
def oneBlock : List Byte :=
  [0x4D#8, 0x44#8, 0x44#8, 0x52#8, 1#8, 0#8, 0#8, 0#8, 0#8, 0#8, 0#8, 0#8, 0xAB#8] ++
    List.replicate 115 paddingByte

/-- The transfer of one block. -/
def oneTransfer : List Poll := (frame 1#8 oneBlock ++ [xmodemEot]).map arriving

set_option maxRecDepth 10000 in
theorem xmodem_integrity_one :
    ∃ heard rest blocks acks, hearing oneTransfer = heard ++ .ok xmodemEot :: rest ∧
      Received heard blocks acks ∧
      Delivered loadAddr blocks 1#32 ((xmodemLoadBootImage 200 loadAddr true).run.run
        { uart := oneTransfer, sd := [], trace := [] }).2.trace ∧
      acksIn (sentBytes ((xmodemLoadBootImage 200 loadAddr true).run.run
        { uart := oneTransfer, sd := [], trace := [] }).2.trace) = acks + 1 :=
  xmodem_integrity 200 loadAddr true oneTransfer [] 1#32 (by decide +kernel)

end MelonSoc.Boot
