import MelonSoc.Boot.Exchange

set_option autoImplicit false

/-! # The rest of a damaged frame

The receiver answers a lost byte at once, and the rest of the damaged frame reaches it where it
waits for a control byte. What it makes of bytes that are no frame.
-/

namespace MelonSoc.Boot

open Receiver (hears behind)

/-! ## The rest of a damaged frame -/

/-- How much of the damaged transmission the receiver has read when it answers. -/
def heardUntilNak (position : Nat) : Nat :=
  if position = 0 then 1
  else if position ≤ 2 then 3
  else if position ≤ 130 then position + 1
  else 133

/-- What becomes of bytes that are heard one by one as control bytes. -/
inductive Fate
  /-- They are ignored, and so many tries have failed then. -/
  | passed (tries : Nat)
  /-- The transfer ends. -/
  | fatal
  /-- `XMODEM_CAN` is the last one and waits for the next byte. -/
  | cut (tries : Nat)
  /-- The bytes behind an `XMODEM_SOH` are taken for a frame. -/
  | locked (tries : Nat) (rest : List Byte)

/-- The bytes are heard after so many failed tries. -/
def fate (tries : Nat) : List Byte → Fate
  | [] => .passed tries
  | b :: rest =>
      if b = xmodemCan then
        match rest with
        | [] => .cut tries
        | c :: rest => if c = xmodemCan then .fatal else fate tries rest
      else if b = xmodemEot then .fatal
      else if b = xmodemSoh then .locked tries rest
      else if 16 ≤ tries + 1 then .fatal
      else fate (tries + 1) rest

/-- The rest of the damaged frame behind the answer. -/
def restOf (image : List Byte) (d : Damage) : List Byte :=
  (frame (BitVec.ofNat 8 (d.block + 1)) (blockAt image d.block)).drop (heardUntilNak d.position)

/-- What becomes of the rest of the frame of block `d.block` when the byte at `d.position` is
lost. -/
def fateOf (image : List Byte) (d : Damage) : Fate :=
  fate 1 (restOf image d)

/-- The number of failed tries grows. -/
theorem fate_tries (tries : Nat) (bytes : List Byte) :
    match fate tries bytes with
    | .passed tries' => tries ≤ tries'
    | .fatal => True
    | .cut tries' => tries ≤ tries'
    | .locked tries' _ => tries ≤ tries' := by
  induction tries, bytes using fate.induct with
  | case1 tries => simp [fate]
  | case2 tries => simp [fate]
  | case3 tries rest => simp [fate]
  | case4 tries c rest hc ih =>
      rw [fate, if_pos rfl, if_neg hc]
      exact ih
  | case5 tries rest hcan =>
      rw [fate.eq_def]
      simp [hcan]
  | case6 tries rest hcan heot =>
      rw [fate.eq_def]
      simp [hcan, heot]
  | case7 tries b rest hcan heot hsoh hlast =>
      rw [fate.eq_def]
      simp [hcan, heot, hsoh, hlast]
  | case8 tries b rest hcan heot hsoh hlast ih =>
      rw [fate.eq_def]
      simp only [if_neg hcan, if_neg heot, if_neg hsoh, if_neg hlast]
      revert ih
      cases fate (tries + 1) rest with
      | passed => exact fun h => Nat.le_of_succ_le h
      | fatal => exact fun h => h
      | cut => exact fun h => Nat.le_of_succ_le h
      | locked => exact fun h => Nat.le_of_succ_le h

section Rest

variable {dst : Word} {r : Receiver} {out : List Byte}

/-- The receiver waits for a control byte after so many failed tries. -/
structure Receiver.Waits (r : Receiver) (blocks : List (List Byte)) (tries : Nat) : Prop where
  phase : r.phase = .control
  blocks : r.blocks = blocks
  tries : r.blockRetries = BitVec.ofNat 32 tries

theorem waits_await (blocks : List (List Byte)) (tries : Nat) (hb : r.blocks = blocks)
    (ht : r.blockRetries = BitVec.ofNat 32 tries) :
    ∃ more, (r.await out).2 = out ++ more ∧ OnlyRequests more ∧ (r.await out).1.Waits blocks tries := by
  unfold Receiver.await
  split
  · exact ⟨[xmodemCrcRequest], rfl, by simp [OnlyRequests], rfl, hb, ht⟩
  · exact ⟨[], by simp, by simp [OnlyRequests], rfl, hb, ht⟩

theorem retry_word {tries : Nat} (h : tries < 16) :
    (xmodemMaxRetries ≤ BitVec.ofNat 32 tries + 1#32) ↔ 16 ≤ tries + 1 := by
  have hword : (BitVec.ofNat 32 tries + 1#32).toNat = tries + 1 := by
    rw [BitVec.toNat_add, BitVec.toNat_ofNat, BitVec.toNat_ofNat, Nat.mod_eq_of_lt (by omega),
      Nat.mod_eq_of_lt (by omega)]
  rw [BitVec.le_def, hword]
  rfl

/-- Another failed try that is not the last one. -/
theorem waits_retry {tries : Nat} (giveUp : XmodemError) (nak : Bool) (blocks : List (List Byte))
    (hb : r.blocks = blocks) (ht : r.blockRetries = BitVec.ofNat 32 tries) (hlt : tries + 1 < 16) :
    ∃ more, (r.retry giveUp nak).2 = (if nak then [xmodemNak] else []) ++ more ∧
      OnlyRequests more ∧ (r.retry giveUp nak).1.Waits blocks (tries + 1) := by
  unfold Receiver.retry
  rw [ht, if_neg (by rw [retry_word (by omega)]; omega)]
  exact waits_await blocks (tries + 1) hb (BitVec.ofNat_add tries 1).symm

/-- The receiver `p` has heard `rest` up to `behind`, and so many tries have failed. -/
def ReadUpTo (dst : Word) (blocks : List (List Byte)) (p : Receiver × List Byte)
    (rest : List Byte) (tries : Nat) (behind : List Byte) : Prop :=
  tries < 16 ∧ ∃ before more, rest = before ++ behind ∧ OnlyRequests more ∧
    (hears dst p (heardBytes before)).2 = p.2 ++ more ∧
    (hears dst p (heardBytes before)).1.Waits blocks tries

/-- The receiver `p` hears `rest` and this becomes of it. -/
def FateMet (dst : Word) (blocks : List (List Byte)) (p : Receiver × List Byte)
    (rest : List Byte) : Fate → Prop
  | .passed tries => tries < 16 ∧ ∃ more, OnlyRequests more ∧
      (hears dst p (heardBytes rest)).2 = p.2 ++ more ∧
      (hears dst p (heardBytes rest)).1.Waits blocks tries
  | .fatal => ∃ e, (hears dst p (heardBytes rest)).1.phase = .done (.error e)
  | .cut tries => ReadUpTo dst blocks p rest tries [xmodemCan]
  | .locked tries rest' => ReadUpTo dst blocks p rest tries (xmodemSoh :: rest')

/-- Some bytes that are ignored come first. -/
theorem FateMet.behind {blocks : List (List Byte)} {p : Receiver × List Byte}
    (first more : List Byte) {rest : List Byte} {f : Fate} (hmore : OnlyRequests more)
    (hout : (hears dst p (heardBytes first)).2 = p.2 ++ more)
    (h : FateMet dst blocks (hears dst p (heardBytes first)) rest f) :
    FateMet dst blocks p (first ++ rest) f := by
  have hsplit : ∀ bytes, hears dst p (heardBytes (first ++ bytes))
      = hears dst (hears dst p (heardBytes first)) (heardBytes bytes) := by
    intro bytes
    rw [heardBytes, List.map_append, Receiver.hears_append]
    rfl
  have honly : ∀ more', OnlyRequests more' → OnlyRequests (more ++ more') := by
    intro more' h' b hb
    rcases List.mem_append.mp hb with hb | hb
    · exact hmore b hb
    · exact h' b hb
  have hupTo : ∀ tries left, ReadUpTo dst blocks (hears dst p (heardBytes first)) rest tries left →
      ReadUpTo dst blocks p (first ++ rest) tries left := by
    rintro tries left ⟨hlt, before, more', hrest, hmore', hout', hw⟩
    refine ⟨hlt, first ++ before, more ++ more', ?_, honly more' hmore', ?_, ?_⟩
    · rw [hrest, List.append_assoc]
    · rw [hsplit, hout', hout, List.append_assoc]
    · rw [hsplit]
      exact hw
  cases f with
  | passed tries =>
      obtain ⟨hlt, more', hmore', hout', hw⟩ := h
      refine ⟨hlt, more ++ more', honly more' hmore', ?_, ?_⟩
      · rw [hsplit, hout', hout, List.append_assoc]
      · rw [hsplit]
        exact hw
  | fatal =>
      obtain ⟨e, he⟩ := h
      exact ⟨e, by rw [hsplit]; exact he⟩
  | cut tries => exact hupTo tries _ h
  | locked tries rest' => exact hupTo tries _ h

/-- One byte that is none of the control bytes. -/
theorem hears_stray {b : Byte} (hcan : b ≠ xmodemCan) (heot : b ≠ xmodemEot) (hsoh : b ≠ xmodemSoh)
    (hr : r.phase = .control) :
    hears dst (r, out) (heardBytes [b]) = behind out (r.retry .protocol false) := by
  show behind out (r.hear dst (.ok b)) = _
  simp [Receiver.hear, hr, hcan, heot, hsoh]

/-- `XMODEM_CAN` and the byte behind it. -/
theorem hears_can (c : Byte) (hr : r.phase = .control) :
    hears dst (r, out) (heardBytes [xmodemCan, c])
      = if c = xmodemCan then r.stop out (.error .cancelled) else r.await out := by
  have hfirst : hears dst (r, out) (heardBytes [xmodemCan, c])
      = behind out (({ r with phase := .second } : Receiver).hear dst (.ok c)) := by
    show behind (behind out (r.hear dst (.ok xmodemCan))).2 _ = _
    simp [Receiver.hear, hr, behind]
  rw [hfirst]
  show behind out (if c = xmodemCan then _ else Receiver.await [] _) = _
  split
  · rw [Receiver.behind_stop, List.append_nil]
    rfl
  · rw [Receiver.behind_await, List.append_nil]
    rfl

/-- **The rest of a damaged frame**, while the image is not complete. -/
theorem hears_rest (blocks : List (List Byte)) (hopen : blocks = [] ∨
      blocks.flatten.length < imageLength blocks.flatten) (tries : Nat) (rest : List Byte)
    (htries : tries < 16) (hr : r.Waits blocks tries) :
    FateMet dst blocks (r, out) rest (fate tries rest) := by
  induction tries, rest using fate.induct generalizing r out with
  | case1 tries =>
      rw [fate]
      exact ⟨htries, [], by simp [OnlyRequests], by simp [heardBytes], hr⟩
  | case2 tries =>
      rw [fate, if_pos rfl]
      exact ⟨htries, [], [], rfl, by simp [OnlyRequests], by simp [heardBytes], hr⟩
  | case3 tries rest =>
      rw [fate, if_pos rfl, if_pos rfl]
      refine ⟨.cancelled, ?_⟩
      have hsplit : heardBytes (xmodemCan :: xmodemCan :: rest)
          = heardBytes [xmodemCan, xmodemCan] ++ heardBytes rest := rfl
      rw [hsplit, Receiver.hears_append, hears_can xmodemCan hr.phase, if_pos rfl,
        Receiver.hears_done rfl]
      rfl
  | case4 tries c rest hc ih =>
      rw [fate, if_pos rfl, if_neg hc]
      obtain ⟨more, hout, hmore, hw⟩ := waits_await blocks tries hr.blocks hr.tries
      have hpair : hears dst (r, out) (heardBytes [xmodemCan, c]) = r.await out := by
        rw [hears_can c hr.phase, if_neg hc]
      refine FateMet.behind [xmodemCan, c] more hmore ?_ ?_
      · rw [hpair]
        exact hout
      · rw [hpair]
        exact ih htries hw
  | case5 tries rest hcan =>
      rw [fate.eq_def]
      dsimp only
      rw [if_neg hcan, if_pos rfl]
      refine ⟨.image, ?_⟩
      have hsplit : heardBytes (xmodemEot :: rest) = [.ok xmodemEot] ++ heardBytes rest := rfl
      have hfinish : r.finish = r.stop [xmodemCan, xmodemCan] (.error .image) := by
        rw [Receiver.finish, hr.blocks, if_pos hopen]
      rw [hsplit, Receiver.hears_append, hears_eot hr.phase, hfinish, Receiver.behind_stop,
        Receiver.hears_done rfl]
      rfl
  | case6 tries rest hcan heot =>
      rw [fate.eq_def]
      dsimp only
      rw [if_neg hcan, if_neg heot, if_pos rfl]
      exact ⟨htries, [], [], rfl, by simp [OnlyRequests], by simp [heardBytes], hr⟩
  | case7 tries b rest hcan heot hsoh hlast =>
      rw [fate.eq_def]
      dsimp only
      rw [if_neg hcan, if_neg heot, if_neg hsoh, if_pos hlast]
      refine ⟨.protocol, ?_⟩
      have hsplit : heardBytes (b :: rest) = heardBytes [b] ++ heardBytes rest := rfl
      have hstop : r.retry .protocol false = r.stop [xmodemCan, xmodemCan] (.error .protocol) := by
        rw [Receiver.retry, hr.tries, if_pos ((retry_word htries).mpr hlast)]
      rw [hsplit, Receiver.hears_append, hears_stray hcan heot hsoh hr.phase, hstop,
        Receiver.behind_stop, Receiver.hears_done rfl]
      rfl
  | case8 tries b rest hcan heot hsoh hlast ih =>
      rw [fate.eq_def]
      dsimp only
      rw [if_neg hcan, if_neg heot, if_neg hsoh, if_neg hlast]
      obtain ⟨more, hout, hmore, hw⟩ := waits_retry .protocol false blocks hr.blocks hr.tries
        (Nat.lt_of_not_le hlast)
      have hone : hears dst (r, out) (heardBytes [b]) = behind out (r.retry .protocol false) :=
        hears_stray hcan heot hsoh hr.phase
      refine FateMet.behind [b] more hmore ?_ ?_
      · rw [hone]
        show out ++ _ = out ++ more
        rw [hout]
        rfl
      · rw [hone]
        exact ih (Nat.lt_of_not_le hlast) hw

/-! ## The damaged frame -/

theorem frame_length (number : Byte) (data : List Byte) (hdata : data.length = 128) :
    (frame number data).length = 133 := by
  simp [frame, frameBody, checkBytes, hdata]

/-- The bytes of a frame in front of one of its data. -/
theorem frame_take (number : Byte) (data : List Byte) (i : Nat) (hi : i ≤ data.length) :
    (frame number data).take (i + 3)
      = xmodemSoh :: number :: (0xFF#8 - number) :: data.take i := by
  simp [frame, frameBody, List.take_append_of_le_length hi]

/-- A frame whose number, inverse number and first bytes have been heard. -/
theorem hears_broken (number : Byte) (data : List Byte) (i : Nat) (hdata : data.length = 128)
    (hi : i ≤ 128) (hr : r.phase = .control) :
    hears dst (r, out) (heardBytes ((frame number data).take (i + 3)))
      = ({ r with phase := .filling number (0xFF#8 - number) (data.take i),
                  syncStarted := true }, out) := by
  rw [frame_take number data i (by omega)]
  show hears dst (r, out) (.ok xmodemSoh :: heardBytes _) = _
  rw [hears_soh hr, hears_opening (r := { r with syncStarted := true }) _ _ _
    (by rw [List.length_take]; omega)]

/-- One byte is lost. -/
theorem heardBytes_set (bytes : List Byte) (i : Nat) (hi : i < bytes.length) (e : Heard) :
    (heardBytes bytes).set i e = heardBytes (bytes.take i) ++ e :: heardBytes (bytes.drop (i + 1)) := by
  rw [List.set_eq_take_append_cons_drop, if_pos (by simpa [heardBytes] using hi)]
  simp [heardBytes]

theorem lt_heardUntilNak {position : Nat} (hp : position < 133) :
    position < heardUntilNak position := by
  unfold heardUntilNak
  split
  · omega
  split
  · omega
  split <;> omega

/-- Behind the answer the frame is as it was sent. -/
theorem damaged_drop (bytes : List Byte) (e : Heard) {position : Nat} (hp : position < 133) :
    ((heardBytes bytes).set position e).drop (heardUntilNak position)
      = heardBytes (bytes.drop (heardUntilNak position)) := by
  rw [List.drop_set_of_lt (lt_heardUntilNak hp), heardBytes, ← List.map_drop]
  rfl

/-- **A damaged frame.** The receiver gives one answer, before the frame is at its end. -/
theorem hears_damaged (blocks : List (List Byte)) (number : Byte) (data : List Byte)
    (hdata : data.length = 128) (position : Nat) (hp : position < 133) (hr : r.Waits blocks 0) :
    ∃ r' more, OnlyRequests more ∧ r'.Waits blocks 1 ∧
      hears dst (r, out) (((heardBytes (frame number data)).set position (.error .uart)).take
        (heardUntilNak position)) = (r', out ++ xmodemNak :: more) := by
  have hlen := frame_length number data hdata
  have hset := heardBytes_set (frame number data) position (by omega) (.error .uart)
  -- the try that fails, from wherever the receiver is in the frame
  have htry : ∀ r₁ : Receiver, r₁.blocks = blocks → r₁.blockRetries = BitVec.ofNat 32 0 →
      ∃ r' more, OnlyRequests more ∧ r'.Waits blocks 1 ∧
        behind out (r₁.retry .uart true) = (r', out ++ xmodemNak :: more) := by
    intro r₁ hb ht
    obtain ⟨more, hout, hmore, hw⟩ := waits_retry .uart true blocks hb ht (by omega)
    refine ⟨(r₁.retry .uart true).1, more, hmore, hw, ?_⟩
    rw [behind, hout]
    rfl
  obtain ⟨r', more, hmore, hw, heq⟩ := htry { r with syncStarted := true } hr.blocks hr.tries
  by_cases h0 : position = 0
  · -- the control byte
    subst h0
    obtain ⟨r', more, hmore, hw, heq⟩ := htry r hr.blocks hr.tries
    refine ⟨r', more, hmore, hw, ?_⟩
    rw [← heq]
    show behind out (r.hear dst (.error .uart)) = _
    simp only [Receiver.hear, hr.phase]
  refine ⟨r', more, hmore, hw, ?_⟩
  rw [← heq]
  by_cases h2 : position ≤ 2
  · -- the number or its complement; both are read before the receiver looks at them
    have huntil : heardUntilNak position = 3 := by
      rw [heardUntilNak, if_neg h0, if_pos h2]
    rw [huntil]
    have hcase : position = 1 ∨ position = 2 := by omega
    rcases hcase with rfl | rfl
    · show hears dst (r, out) [.ok xmodemSoh, .error .uart, .ok (0xFF#8 - number)] = _
      rw [hears_soh hr.phase]
      simp only [Receiver.hears_cons, Receiver.hear, behind, List.append_nil]
      rfl
    · show hears dst (r, out) [.ok xmodemSoh, .ok number, .error .uart] = _
      rw [hears_soh hr.phase]
      simp only [Receiver.hears_cons, Receiver.hear, behind, List.append_nil]
      rfl
  obtain ⟨i, rfl⟩ : ∃ i, position = i + 3 := ⟨position - 3, by omega⟩
  have htake : (heardBytes ((frame number data).take (i + 3))).length = i + 3 := by
    rw [heardBytes, List.length_map, List.length_take]
    omega
  by_cases h130 : i < 128
  · -- a byte of the data
    have huntil : heardUntilNak (i + 3) = i + 3 + 1 := by
      rw [heardUntilNak, if_neg (by omega), if_neg h2, if_pos (by omega)]
    have hfill : Phase.filling number (0xFF#8 - number) (data.take i)
        = .data number (0xFF#8 - number) (data.take i) := by
      rw [Phase.filling, if_neg (by rw [List.length_take]; omega)]
    have hcut : ((heardBytes (frame number data)).set (i + 3) (.error .uart)).take (i + 3 + 1)
        = heardBytes ((frame number data).take (i + 3)) ++ [.error .uart] := by
      rw [hset, List.take_append, htake, List.take_of_length_le (by omega)]
      simp
    rw [huntil, hcut, Receiver.hears_append, hears_broken number data i hdata (by omega) hr.phase,
      hfill, Receiver.hears_cons]
    rfl
  · -- the CRC; both of its bytes are read before the receiver looks at them
    have huntil : heardUntilNak (i + 3) = 133 := by
      rw [heardUntilNak, if_neg (by omega), if_neg h2, if_neg (by omega)]
    have hall : data.take 128 = data := List.take_of_length_le (by omega)
    have hfull : ∀ more, hears dst (r, out)
        (heardBytes ((frame number data).take 131) ++ more)
        = hears dst ({ r with phase := .crcHi number (0xFF#8 - number) data,
                              syncStarted := true }, out) more := by
      intro more
      rw [Receiver.hears_append, hears_broken number data 128 hdata (by omega) hr.phase, hall,
        Phase.filling, if_pos hdata]
    have hcheck : ∀ a b : Heard, (a = .error .uart ∨ ∃ x, a = .ok x ∧ b = .error .uart) →
        hears dst ({ r with phase := .crcHi number (0xFF#8 - number) data,
                            syncStarted := true }, out) [a, b]
          = behind out (({ r with syncStarted := true } : Receiver).retry .uart true) := by
      rintro a b (rfl | ⟨x, rfl, rfl⟩)
      · simp only [Receiver.hears_cons, Receiver.hear, behind, List.append_nil]
        rfl
      · simp only [Receiver.hears_cons, Receiver.hear, behind, List.append_nil]
        rfl
    rw [huntil, List.take_of_length_le (by rw [List.length_set, heardBytes, List.length_map]; omega),
      hset]
    have hcase : i = 128 ∨ i = 129 := by omega
    rcases hcase with rfl | rfl
    · obtain ⟨lo, hlo⟩ : ∃ lo, (frame number data).drop 132 = [lo] :=
        List.length_eq_one_iff.mp (by rw [List.length_drop, hlen])
      rw [hlo, hfull]
      exact hcheck _ _ (.inl rfl)
    · have hhi : (frame number data).take 132
          = (frame number data).take 131 ++ [(frame number data)[131]] :=
        List.take_succ_eq_append_getElem (by omega)
      have hnone : (frame number data).drop 133 = [] := List.drop_of_length_le (by omega)
      rw [hhi, hnone, heardBytes, List.map_append, ← heardBytes, List.append_assoc, hfull]
      exact hcheck _ _ (.inr ⟨_, rfl, rfl⟩)

/-! ## What is taken for a frame -/

/-- No number and data have this frame. -/
def NoFrame (bytes : List Byte) : Prop :=
  ∀ number data, data.length = 128 → bytes ≠ frameBody number data

/-- Bytes that are no frame. -/
theorem hears_noFrame {bytes : List Byte} (hr : r.phase = .control)
    (hlen : bytes.length = 132) (hno : NoFrame bytes) :
    ∃ e, hears dst (r, out) (heardBytes (xmodemSoh :: bytes))
      = behind out (({ r with syncStarted := true } : Receiver).retry e true) := by
  obtain ⟨n, c, data, check, hdata, hcheck, rfl⟩ : ∃ n c data check, data.length = 128 ∧
      check.length = 2 ∧ bytes = n :: c :: (data ++ check) := by
    match bytes, hlen with
    | n :: c :: more, hlen =>
        refine ⟨n, c, more.take 128, more.drop 128, ?_, ?_, ?_⟩
        · rw [List.length_take]
          simp at hlen
          omega
        · rw [List.length_drop]
          simp at hlen
          omega
        · rw [List.take_append_drop]
  obtain ⟨hi, lo, rfl⟩ : ∃ hi lo, check = [hi, lo] := List.length_eq_two.mp hcheck
  have hsplit : heardBytes (xmodemSoh :: n :: c :: (data ++ [hi, lo]))
      = .ok xmodemSoh :: (heardBytes (n :: c :: data) ++ [.ok hi, .ok lo]) := by
    simp [heardBytes]
  have hfull : Phase.filling n c data = .crcHi n c data := by
    rw [Phase.filling, if_pos hdata]
  rw [hsplit, hears_soh hr, Receiver.hears_append,
    hears_opening (r := { r with syncStarted := true }) n c data (by omega), hfull]
  simp only [Receiver.hears_cons, Receiver.hears_nil, Receiver.hear, behind, List.append_nil]
  by_cases hinv : n ^^^ c ≠ 0xFF#8
  · exact ⟨.blockNumber, by rw [if_pos hinv]; rfl⟩
  rw [if_neg hinv]
  refine ⟨.crc, ?_⟩
  rw [if_pos]
  · rfl
  · intro hcrc
    rw [not_not, complement_iff] at hinv
    rw [check_iff] at hcrc
    apply hno n data hdata
    rw [frameBody, checkBytes, hinv, hcrc.1, hcrc.2]

theorem retry_phase (r : Receiver) (phase : Phase) (giveUp : XmodemError) (nak : Bool) :
    ({ r with phase := phase } : Receiver).retry giveUp nak = r.retry giveUp nak := by
  unfold Receiver.retry
  split <;> rfl

/-- Nothing more comes, and after one or two timeouts the try has failed. -/
def Stopped (dst : Word) (r r' : Receiver) : Prop :=
  r'.hear dst (.error .timeout) = r.retry .timeout true ∨
    ∃ r'', r'.hear dst (.error .timeout) = (r'', []) ∧
      r''.hear dst (.error .timeout) = r.retry .timeout true

/-- A frame of which the end is missing. -/
theorem hears_stopped {rest : List Byte} (hr : r.phase = .control)
    (hlen : rest.length < 132) :
    ∃ r', hears dst (r, out) (heardBytes (xmodemSoh :: rest)) = (r', out) ∧
      Stopped dst { r with syncStarted := true } r' := by
  have hsplit : heardBytes (xmodemSoh :: rest) = .ok xmodemSoh :: heardBytes rest := rfl
  rw [hsplit, hears_soh hr]
  match rest, hlen with
  | [], _ =>
      refine ⟨_, rfl, .inr ⟨{ r with phase := .inverse (.error .timeout), syncStarted := true }, rfl, ?_⟩⟩
      rw [← retry_phase _ (.inverse (.error .timeout))]
      rfl
  | [n], _ =>
      refine ⟨{ r with phase := .inverse (.ok n), syncStarted := true }, ?_, .inl ?_⟩
      · simp [heardBytes, Receiver.hear, behind]
      · rw [← retry_phase _ (.inverse (.ok n))]
        rfl
  | n :: c :: data, hlen =>
      simp only [List.length_cons] at hlen
      by_cases hle : data.length ≤ 128
      · refine ⟨_, hears_opening (r := { r with syncStarted := true }) n c data hle, ?_⟩
        by_cases hfull : data.length = 128
        · rw [Phase.filling, if_pos hfull]
          refine .inr ⟨{ r with phase := .crcLo n c data (.error .timeout), syncStarted := true },
            rfl, ?_⟩
          rw [← retry_phase _ (.crcLo n c data (.error .timeout))]
          rfl
        · rw [Phase.filling, if_neg hfull]
          refine .inl ?_
          rw [← retry_phase _ (.data n c data)]
          rfl
      · -- the first byte of the CRC has come as well
        obtain ⟨bytes, hi, rfl⟩ : ∃ bytes hi, data = bytes ++ [hi] :=
          ⟨data.dropLast, data.getLast (by rintro rfl; simp at hle),
            (List.dropLast_append_getLast _).symm⟩
        simp only [List.length_append, List.length_singleton] at hlen hle
        have hbytes : bytes.length = 128 := by omega
        have hbehind : heardBytes (n :: c :: (bytes ++ [hi]))
            = heardBytes (n :: c :: bytes) ++ [.ok hi] := by
          simp [heardBytes]
        have hfull : Phase.filling n c bytes = .crcHi n c bytes := by
          rw [Phase.filling, if_pos hbytes]
        rw [hbehind, Receiver.hears_append,
          hears_opening (r := { r with syncStarted := true }) n c bytes (by omega), hfull]
        refine ⟨{ r with phase := .crcLo n c bytes (.ok hi), syncStarted := true }, ?_, .inl ?_⟩
        · simp [Receiver.hear, behind]
        · rw [← retry_phase _ (.crcLo n c bytes (.ok hi))]
          rfl

end Rest

end MelonSoc.Boot
