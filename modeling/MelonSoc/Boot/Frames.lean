import MelonSoc.Boot.Integrity

set_option autoImplicit false

/-! # Images in frames

An image is sent in blocks of 128 bytes, the last one padded. What the receiver makes of whole
frames, of the frames of an image in their order, and of the end of the transfer.
-/

namespace MelonSoc.Boot

open Receiver (hears behind)

/-! ## The blocks of an image -/

/-- The number of blocks of an image. -/
def blockCount (image : List Byte) : Nat := (image.length + 127) / 128

/-- A block with its padding. -/
def blockAt (image : List Byte) (i : Nat) : List Byte :=
  let part := (image.drop (128 * i)).take 128
  part ++ List.replicate (128 - part.length) paddingByte

/-- The first `n` blocks. -/
def firstBlocks (image : List Byte) (n : Nat) : List (List Byte) :=
  (List.range n).map (blockAt image)

/-- An image for `dst` that ends where its header says. -/
structure ValidImage (dst : Word) (image : List Byte) : Prop where
  header : ValidHeader dst image
  length : image.length = imageLength image

section Blocks

variable {dst : Word} {image : List Byte} {n : Nat}

@[simp] theorem blockAt_length (i : Nat) : (blockAt image i).length = 128 := by
  simp only [blockAt, List.length_append, List.length_replicate, List.length_take,
    List.length_drop]
  omega

@[simp] theorem firstBlocks_length : (firstBlocks image n).length = n := by
  simp [firstBlocks]

theorem firstBlocks_succ : firstBlocks image (n + 1) = firstBlocks image n ++ [blockAt image n] := by
  simp [firstBlocks, List.range_succ]

theorem firstBlocks_eq_nil : firstBlocks image n = [] ↔ n = 0 := by
  simp [firstBlocks]

theorem lt_blockCount : n < blockCount image ↔ 128 * n < image.length := by
  rw [blockCount]
  omega

theorem le_blockCount : blockCount image ≤ n ↔ image.length ≤ 128 * n := by
  rw [blockCount]
  omega

/-- Before its end the blocks are the image itself. -/
theorem firstBlocks_flatten (h : 128 * n ≤ image.length) :
    (firstBlocks image n).flatten = image.take (128 * n) := by
  induction n with
  | zero => simp [firstBlocks]
  | succ n ih =>
      have hfull : ((image.drop (128 * n)).take 128).length = 128 := by
        rw [List.length_take, List.length_drop]
        omega
      rw [firstBlocks_succ, List.flatten_append, ih (by omega)]
      simp only [List.flatten_cons, List.flatten_nil, List.append_nil, blockAt]
      rw [hfull, Nat.sub_self, List.replicate_zero, List.append_nil, ← List.take_add]
      rfl

/-- In the end they are the image with its padding. -/
theorem firstBlocks_flatten_end (hne : image ≠ []) :
    (firstBlocks image (blockCount image)).flatten =
      image ++ List.replicate (128 * blockCount image - image.length) paddingByte := by
  have hpos : 0 < image.length := List.length_pos_iff.mpr hne
  obtain ⟨k, hk⟩ : ∃ k, blockCount image = k + 1 := ⟨blockCount image - 1, by
    rw [blockCount]
    omega⟩
  have hlt : 128 * k < image.length := lt_blockCount.mp (by omega)
  have hle : image.length ≤ 128 * (k + 1) := le_blockCount.mp (by omega)
  have htake : (image.drop (128 * k)).take 128 = image.drop (128 * k) := by
    apply List.take_of_length_le
    rw [List.length_drop]
    omega
  have hpad : 128 - (image.length - 128 * k) = 128 * (k + 1) - image.length := by omega
  rw [hk, firstBlocks_succ, List.flatten_append, firstBlocks_flatten (by omega)]
  simp only [List.flatten_cons, List.flatten_nil, List.append_nil, blockAt]
  rw [htake, List.length_drop, hpad, ← List.append_assoc, List.take_append_drop]

theorem ValidImage.long (h : ValidImage dst image) : 12 ≤ image.length := by
  rw [h.length, imageLength]
  omega

theorem ValidImage.ne_nil (h : ValidImage dst image) : image ≠ [] := by
  rintro rfl
  exact absurd h.long (by decide)

theorem ValidImage.blockCount_pos (h : ValidImage dst image) : 0 < blockCount image := by
  have hlong := h.long
  exact lt_blockCount.mpr (by omega)

/-- The image with anything behind it that is padding. -/
theorem ValidImage.sound (h : ValidImage dst image) (m : Nat) :
    Sound dst (image ++ List.replicate m paddingByte) := by
  refine ⟨fun _ => (validHeader_append _ h.long).mpr h.header, fun _ b hb => ?_⟩
  rw [imageLength_append _ h.long, ← h.length, List.drop_left] at hb
  exact List.eq_of_mem_replicate hb

theorem ValidImage.sound_blocks (h : ValidImage dst image) (hn : n ≤ blockCount image) :
    Sound dst (firstBlocks image n).flatten := by
  have hsound := h.sound (128 * blockCount image - image.length)
  rw [← firstBlocks_flatten_end h.ne_nil] at hsound
  have hsplit : firstBlocks image (blockCount image)
      = firstBlocks image n ++ (List.range (blockCount image - n)).map
        (fun i => blockAt image (n + i)) := by
    have hsum : blockCount image = n + (blockCount image - n) := by omega
    rw [firstBlocks]
    conv => lhs; rw [hsum, List.range_add]
    rw [List.map_append, List.map_map]
    rfl
  rw [hsplit, List.flatten_append] at hsound
  exact hsound.of_append

/-- Every block of the image is admitted behind the ones before it. -/
theorem ValidImage.admits (h : ValidImage dst image) (hn : n < blockCount image) :
    Admits dst (firstBlocks image n) (blockAt image n) := by
  have hlt := lt_blockCount.mp hn
  constructor
  · by_cases hz : n = 0
    · exact .inl (firstBlocks_eq_nil.mpr hz)
    · right
      have hlong : 12 ≤ (image.take (128 * n)).length := by
        rw [List.length_take]
        omega
      have hsame : imageLength (image.take (128 * n)) = imageLength image := by
        conv => rhs; rw [← List.take_append_drop (128 * n) image]
        rw [imageLength_append _ hlong]
      rw [firstBlocks_flatten (by omega), hsame, ← h.length, List.length_take]
      omega
  · have hsound := h.sound_blocks (n := n + 1) hn
    rwa [firstBlocks_succ, List.flatten_append, List.flatten_singleton] at hsound

/-- The stream of all blocks stands for the image. -/
theorem ValidImage.stream (h : ValidImage dst image) :
    let stream := (firstBlocks image (blockCount image)).flatten
    payloadLength stream = payloadLength image ∧ imageLength stream ≤ stream.length ∧
      payloadStores dst stream = payloadStores dst image := by
  dsimp only
  rw [firstBlocks_flatten_end h.ne_nil]
  refine ⟨payloadLength_append _ h.long, ?_, ?_⟩
  · rw [imageLength_append _ h.long, ← h.length, List.length_append]
    omega
  · have hpay : payloadOf (image ++ List.replicate
        (128 * blockCount image - image.length) paddingByte) = payloadOf image := by
      have hlen := h.length
      rw [imageLength] at hlen
      rw [payloadOf, payloadLength_append _ h.long, List.drop_append_of_le_length h.long,
        List.take_append_of_le_length, payloadOf]
      rw [List.length_drop]
      omega
    rw [payloadStores, hpay, payloadStores]

/-- The stream is not at the end of the image before the last block. -/
theorem ValidImage.open_of_lt (h : ValidImage dst image) (hn : n < blockCount image) :
    firstBlocks image n = [] ∨
      (firstBlocks image n).flatten.length < imageLength (firstBlocks image n).flatten :=
  (h.admits hn).1

/-- An image with two bytes of text. -/
def smallImage : List Byte :=
  [0x4D#8, 0x44#8, 0x44#8, 0x52#8, 2#8, 0#8, 0#8, 0#8, 0#8, 0#8, 0#8, 0#8, 0x13#8, 0#8]

theorem validImage_small : ValidImage loadAddr smallImage :=
  ⟨by decide, by decide⟩

end Blocks

/-! ## Frames that are heard whole -/

section Frames

variable {dst : Word} {r : Receiver} {out : List Byte}

theorem hears_filling (n c : Byte) (got bytes : List Byte) (hlt : got.length < 128)
    (hle : got.length + bytes.length ≤ 128) :
    hears dst ({ r with phase := .filling n c got }, out) (heardBytes bytes)
      = ({ r with phase := .filling n c (got ++ bytes) }, out) := by
  induction bytes generalizing got with
  | nil =>
      rw [List.append_nil]
      rfl
  | cons b bytes ih =>
      rw [List.length_cons] at hle
      have hstep : hears dst ({ r with phase := .filling n c got }, out)
            (heardBytes (b :: bytes))
          = hears dst ({ r with phase := .filling n c (got ++ [b]) }, out) (heardBytes bytes) := by
        have hopen : Phase.filling n c got = .data n c got := by
          rw [Phase.filling, if_neg (by omega)]
        rw [hopen]
        show hears dst (behind out _) (heardBytes bytes) = _
        simp [Receiver.hear, behind]
      have hassoc : got ++ b :: bytes = got ++ [b] ++ bytes := by simp
      rw [hstep, hassoc]
      by_cases hfull : bytes = []
      · rw [hfull, List.append_nil]
        rfl
      · have hpos : 0 < bytes.length := List.length_pos_iff.mpr hfull
        exact ih (got ++ [b]) (by rw [List.length_append, List.length_singleton]; omega)
          (by rw [List.length_append, List.length_singleton]; omega)

/-- The number, its complement and some of the data. -/
theorem hears_opening (n c : Byte) (bytes : List Byte) (hle : bytes.length ≤ 128) :
    hears dst ({ r with phase := .number }, out) (heardBytes (n :: c :: bytes))
      = ({ r with phase := .filling n c bytes }, out) := by
  have hstep : hears dst ({ r with phase := .number }, out) (heardBytes (n :: c :: bytes))
      = hears dst ({ r with phase := .filling n c [] }, out) (heardBytes bytes) := by
    show hears dst (behind _ _) (heardBytes bytes) = _
    simp [Receiver.hear, behind, Phase.filling]
  rw [hstep, hears_filling n c [] bytes (by simp) (by simpa using hle), List.nil_append]

/-- `XMODEM_SOH` for a receiver that waits for a control byte. -/
theorem hears_soh (hr : r.phase = .control) (heard : List Heard) :
    hears dst (r, out) (.ok xmodemSoh :: heard)
      = hears dst ({ r with phase := .number, syncStarted := true }, out) heard := by
  have hcan : xmodemSoh ≠ xmodemCan := by decide
  have heot : xmodemSoh ≠ xmodemEot := by decide
  rw [Receiver.hears_cons]
  simp [Receiver.hear, hr, hcan, heot, behind]

/-- A whole frame. -/
theorem hears_frame (number : Byte) (data : List Byte) (hdata : data.length = 128)
    (hr : r.phase = .control) :
    hears dst (r, out) (heardBytes (frame number data))
      = behind out ({ r with syncStarted := true }.block dst number data) := by
  have hsplit : heardBytes (frame number data) = .ok xmodemSoh ::
      (heardBytes (number :: (0xFF#8 - number) :: data) ++ heardBytes (checkBytes data)) := by
    simp [frame, frameBody, heardBytes]
  have hfull : Phase.filling number (0xFF#8 - number) data
      = .crcHi number (0xFF#8 - number) data := by
    rw [Phase.filling, if_pos hdata]
  have hinv : number ^^^ (0xFF#8 - number) = 0xFF#8 := (complement_iff _ _).mpr rfl
  have hcrc := (check_iff ((crc16Ccitt (bytesAt data) 128).extractLsb' 8 8)
    ((crc16Ccitt (bytesAt data) 128).extractLsb' 0 8) (crc16Ccitt (bytesAt data) 128)).mpr
    ⟨rfl, rfl⟩
  rw [hsplit, hears_soh hr, Receiver.hears_append,
    hears_opening (r := { r with syncStarted := true }) number _ data (by omega), hfull]
  show behind (behind out _).2 _ = _
  simp only [Receiver.hear, behind, List.append_nil, hinv, hcrc, ne_eq, not_true_eq_false,
    if_false]
  rfl

/-- The frame that is next in order. -/
theorem hears_next (data : List Byte) (hdata : data.length = 128) (hr : r.phase = .control)
    (ha : Admits dst r.blocks data) :
    hears dst (r, out) (heardBytes (frame (numberBehind r.blocks) data))
      = Receiver.await (out ++ [xmodemAck]) { r with
          syncStarted := true, blocks := r.blocks ++ [data], blockRetries := 0#32 } := by
  have hexpected : numberBehind r.blocks = ({ r with syncStarted := true } : Receiver).expected :=
    rfl
  have hagain : ({ r with syncStarted := true } : Receiver).expected
      ≠ ({ r with syncStarted := true } : Receiver).expected - 1#8 := by
    have hne : ∀ b : Byte, b ≠ b - 1#8 := by decide
    exact hne _
  rw [hears_frame _ data hdata hr, hexpected, Receiver.block, if_neg hagain, if_neg (by simp),
    if_pos ha, Receiver.behind_await]

/-- `XMODEM_EOT` for a receiver that waits for a control byte. -/
theorem hears_eot (hr : r.phase = .control) :
    hears dst (r, out) [.ok xmodemEot] = behind out r.finish := by
  have hcan : xmodemEot ≠ xmodemCan := by decide
  show behind out _ = _
  simp [Receiver.hear, hr, hcan]

end Frames

/-! ## The loader -/

/-- The loader that hears this first returns the size of the payload, and the payload is in
memory. -/
def Loads (dst : Word) (image : List Byte) (heard : List Heard) : Prop :=
  ∀ (fuel : Nat) (uart : List Poll) (sd : List (Option Sector)) (rest : List Heard),
    hearing uart = heard ++ rest → 128 < fuel → (hearing uart).length < fuel →
    let run := (xmodemLoadBootImage fuel dst true).run.run { uart := uart, sd := sd, trace := [] }
    run.1 = .ok (.ok (BitVec.ofNat 32 (payloadLength image))) ∧
      storedBytes run.2.trace = payloadStores dst image

theorem loads_of_done {dst : Word} {image : List Byte} {heard : List Heard}
    (hdone : (hears dst Receiver.start heard).1.phase
      = .done (.ok (BitVec.ofNat 32 (payloadLength image))))
    (hstream : payloadStores dst (hears dst Receiver.start heard).1.blocks.flatten
      = payloadStores dst image) : Loads dst image heard := by
  intro fuel uart sd rest hsplit hfuel hlen
  obtain ⟨hresult, hstored⟩ := @loader_returns fuel dst uart sd heard rest _ hsplit hfuel hlen hdone
  exact ⟨hresult, (hstored _ rfl).trans hstream⟩

end MelonSoc.Boot
