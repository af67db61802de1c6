import MelonSoc.Boot.Confinement

set_option autoImplicit false

/-! # Streams of blocks

What the XMODEM receiver makes of the bytes it has accepted, in terms of the bytes alone: the
image starts with its header, the payload is stored from `dst` on, and what follows is padding.
-/

namespace MelonSoc.Boot

/-- The bytes of a list as a buffer. -/
def bytesAt (bytes : List Byte) : Nat → Byte := fun i => bytes.getD i 0#8

/-- The text size in the header. -/
def textOf (stream : List Byte) : Word := rd32 (bytesAt stream) 4

/-- The data size in the header. -/
def dataOf (stream : List Byte) : Word := rd32 (bytesAt stream) 8

/-- The number of bytes of the payload. -/
def payloadLength (stream : List Byte) : Nat := (textOf stream).toNat + (dataOf stream).toNat

/-- The number of bytes of the image, the header included. -/
def imageLength (stream : List Byte) : Nat := 12 + payloadLength stream

/-- The padding of the last block. -/
def paddingByte : Byte := 0x1A#8

/-- The stream begins with a header that is valid for an image at `dst`. -/
structure ValidHeader (dst : Word) (stream : List Byte) : Prop where
  magic : rd32 (bytesAt stream) 0 = imageMagic
  below : dst.toNat < loadLimit.toNat
  fits : Fits dst (textOf stream) (dataOf stream)

/-- The header is valid as soon as it is complete, and what follows the image is padding. -/
structure Sound (dst : Word) (stream : List Byte) : Prop where
  header : 12 ≤ stream.length → ValidHeader dst stream
  padding : 12 ≤ stream.length → ∀ b ∈ stream.drop (imageLength stream), b = paddingByte

/-- The bytes of the payload in the stream. -/
def payloadOf (stream : List Byte) : List Byte := (stream.drop 12).take (payloadLength stream)

/-- What is stored of the stream. -/
def payloadStores (dst : Word) (stream : List Byte) : List (Word × Byte) :=
  (payloadOf stream).zipIdx.map fun p => (dst + BitVec.ofNat 32 p.2, p.1)

section Stream

variable {dst : Word} {stream : List Byte} {b : Byte}

/-! ## The header and what follows -/

theorem bytesAt_append {stream : List Byte} (more : List Byte) {i : Nat} (h : i < stream.length) :
    bytesAt (stream ++ more) i = bytesAt stream i := by
  simp [bytesAt, List.getElem?_append_left h]

theorem bytesAt_length (stream : List Byte) (b : Byte) :
    bytesAt (stream ++ [b]) stream.length = b := by
  simp [bytesAt]

theorem rd32_congr {p q : Nat → Byte} {i : Nat} (h : ∀ j, i ≤ j → j < i + 4 → p j = q j) :
    rd32 p i = rd32 q i := by
  simp only [rd32]
  rw [h i (by omega) (by omega), h (i + 1) (by omega) (by omega), h (i + 2) (by omega) (by omega),
    h (i + 3) (by omega) (by omega)]

theorem rd32_append (more : List Byte) {i : Nat} (h : i + 4 ≤ stream.length) :
    rd32 (bytesAt (stream ++ more)) i = rd32 (bytesAt stream) i :=
  rd32_congr fun j _ hj => bytesAt_append more (by omega)

theorem textOf_append (more : List Byte) (h : 12 ≤ stream.length) :
    textOf (stream ++ more) = textOf stream := rd32_append more (by omega)

theorem dataOf_append (more : List Byte) (h : 12 ≤ stream.length) :
    dataOf (stream ++ more) = dataOf stream := rd32_append more (by omega)

theorem payloadLength_append (more : List Byte) (h : 12 ≤ stream.length) :
    payloadLength (stream ++ more) = payloadLength stream := by
  rw [payloadLength, textOf_append more h, dataOf_append more h, payloadLength]

theorem imageLength_append (more : List Byte) (h : 12 ≤ stream.length) :
    imageLength (stream ++ more) = imageLength stream := by
  rw [imageLength, payloadLength_append more h, imageLength]

theorem validHeader_append (more : List Byte) (h : 12 ≤ stream.length) :
    ValidHeader dst (stream ++ more) ↔ ValidHeader dst stream := by
  constructor
  · rintro ⟨h1, h2, h3⟩
    rw [rd32_append more (by omega)] at h1
    rw [textOf_append more h, dataOf_append more h] at h3
    exact ⟨h1, h2, h3⟩
  · rintro ⟨h1, h2, h3⟩
    refine ⟨?_, h2, ?_⟩
    · rw [rd32_append more (by omega), h1]
    · rw [textOf_append more h, dataOf_append more h]
      exact h3

theorem ValidHeader.imageLength_le (h : ValidHeader dst stream) :
    imageLength stream ≤ 0x0700000C := by
  have hfits := fits_bound h.fits
  rw [imageLength, payloadLength]
  omega

/-- A stream goes on being sound when its prefixes are. -/
theorem Sound.of_append {more : List Byte} (h : Sound dst (stream ++ more)) :
    Sound dst stream := by
  constructor
  · intro hlen
    exact (validHeader_append more hlen).mp (h.header (by simp; omega))
  · intro hlen b hb
    apply h.padding (by simp; omega)
    rw [imageLength_append more hlen, List.drop_append]
    exact List.mem_append_left _ hb

theorem sound_short (h : stream.length < 12) : Sound dst stream :=
  ⟨fun hlen => absurd hlen (by omega), fun hlen => absurd hlen (by omega)⟩

/-- The byte that completes the header. -/
theorem sound_header (h : stream.length = 12) :
    Sound dst stream ↔ ValidHeader dst stream := by
  constructor
  · intro hs
    exact hs.header (by omega)
  · intro hv
    refine ⟨fun _ => hv, fun _ b hb => ?_⟩
    rw [List.drop_eq_nil_of_le (by rw [imageLength]; omega)] at hb
    cases hb

/-- A byte behind the header. -/
theorem sound_snoc (h : 12 ≤ stream.length) :
    Sound dst (stream ++ [b]) ↔
      Sound dst stream ∧ (imageLength stream ≤ stream.length → b = paddingByte) := by
  constructor
  · intro hs
    refine ⟨hs.of_append, fun hle => ?_⟩
    apply hs.padding (by simp; omega)
    rw [imageLength_append _ h, List.drop_append, Nat.sub_eq_zero_of_le hle]
    simp
  · rintro ⟨hs, hb⟩
    refine ⟨fun _ => (validHeader_append _ h).mpr (hs.header h), fun _ c hc => ?_⟩
    rw [imageLength_append _ h, List.drop_append] at hc
    rcases List.mem_append.mp hc with hc | hc
    · exact hs.padding h c hc
    · have hle : imageLength stream ≤ stream.length := by
        by_contra hlt
        rw [List.drop_eq_nil_of_le (by simp; omega)] at hc
        cases hc
      rw [Nat.sub_eq_zero_of_le hle] at hc
      rw [List.mem_singleton.mp hc]
      exact hb hle

/-! ## What is stored -/

theorem payloadStores_short (h : stream.length ≤ 12) : payloadStores dst stream = [] := by
  rw [payloadStores, payloadOf, List.drop_eq_nil_of_le h, List.take_nil]
  rfl

theorem payloadOf_snoc (h : 12 ≤ stream.length) :
    payloadOf (stream ++ [b]) =
      payloadOf stream ++ if stream.length < imageLength stream then [b] else [] := by
  rw [payloadOf, payloadLength_append _ h, List.drop_append_of_le_length h, List.take_append,
    payloadOf]
  congr 1
  split
  · rename_i hlt
    rw [imageLength] at hlt
    rw [List.take_of_length_le]
    simp
    omega
  · rename_i hge
    rw [imageLength] at hge
    have hzero : payloadLength stream - (stream.drop 12).length = 0 := by simp; omega
    rw [hzero]
    rfl

theorem payloadOf_length : (payloadOf stream).length =
    min (payloadLength stream) (stream.length - 12) := by
  rw [payloadOf, List.length_take, List.length_drop]

theorem payloadStores_snoc (h : 12 ≤ stream.length) :
    payloadStores dst (stream ++ [b]) = payloadStores dst stream ++
      if stream.length < imageLength stream then [(dst + BitVec.ofNat 32 (stream.length - 12), b)]
      else [] := by
  rw [payloadStores, payloadOf_snoc h, List.zipIdx_append, List.map_append, payloadStores]
  congr 1
  split
  · rename_i hlt
    rw [imageLength] at hlt
    have hlen : (payloadOf stream).length = stream.length - 12 := by
      rw [payloadOf_length]
      omega
    simp [hlen]
  · rfl

end Stream

end MelonSoc.Boot
