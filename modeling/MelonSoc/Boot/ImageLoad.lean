import MelonSoc.Boot.SdImage
import MelonSoc.Boot.FatVolume
import MelonSoc.Boot.Frames

set_option autoImplicit false

/-! # The loader reads what the image builder writes

The image of `make_sd_image.py` read by `fatboot_load`. The builder writes the image piece by piece;
`Imaged` says what the loader looks at in the end: the fields of the boot sector, the chain of the
file in the FAT, its directory entry and its bytes.
-/

namespace MelonSoc.Boot

/-! ## Pieces of an image -/

section Put

variable {off i : Nat} {bytes : List Byte} {img : Nat → Byte}

theorem put_inside (h : i < bytes.length) : put off bytes img (off + i) = bytesAt bytes i := by
  rw [put, if_pos ⟨Nat.le_add_right off i, Nat.add_lt_add_left h off⟩, Nat.add_sub_cancel_left]
  rfl

theorem put_outside (h : i < off ∨ off + bytes.length ≤ i) : put off bytes img i = img i := by
  rw [put, if_neg (by omega)]

@[simp] theorem littleBytes_length (n x : Nat) : (littleBytes n x).length = n := by
  rw [littleBytes, List.length_map, List.length_range]

theorem bytesAt_littleBytes {n : Nat} (x : Nat) (h : i < n) :
    bytesAt (littleBytes n x) i = BitVec.ofNat 8 (x / 256 ^ i) := by
  simp [bytesAt, littleBytes, h]

theorem rd16_littleBytes {p : Nat → Byte} {x : Nat}
    (h : ∀ j, j < 2 → p (off + j) = bytesAt (littleBytes 2 x) j) :
    rd16 p off = BitVec.ofNat 16 x := by
  have hbyte : ∀ j, j < 2 → p (off + j) = BitVec.ofNat 8 (x / 2 ^ (8 * j)) := by
    intro j hj
    rw [h j hj, bytesAt_littleBytes x hj, Nat.pow_mul]
  have h0 : p off = _ := hbyte 0 (by decide)
  rw [rd16, h0, hbyte 1 (by decide)]
  apply BitVec.eq_of_getLsbD_eq
  intro k hk
  simp only [BitVec.getLsbD_or, BitVec.getLsbD_shiftLeft, BitVec.getLsbD_setWidth,
    BitVec.getLsbD_ofNat, Nat.testBit_div_two_pow]
  by_cases h1 : k < 8
  · simp [h1, hk]
  · have hk1 : k - 8 + 8 * 1 = k := by omega
    have hlt : k - 8 < 16 ∧ k - 8 < 8 := by omega
    simp [h1, hk, hk1, hlt]

theorem rd32_littleBytes {p : Nat → Byte} {x : Nat}
    (h : ∀ j, j < 4 → p (off + j) = bytesAt (littleBytes 4 x) j) :
    rd32 p off = BitVec.ofNat 32 x := by
  have hbyte : ∀ j, j < 4 → p (off + j) = BitVec.ofNat 8 (x / 2 ^ (8 * j)) := by
    intro j hj
    rw [h j hj, bytesAt_littleBytes x hj, Nat.pow_mul]
  have h0 : p off = _ := hbyte 0 (by decide)
  rw [rd32, h0, hbyte 1 (by decide), hbyte 2 (by decide), hbyte 3 (by decide)]
  apply BitVec.eq_of_getLsbD_eq
  intro k hk
  simp only [BitVec.getLsbD_or, BitVec.getLsbD_shiftLeft, BitVec.getLsbD_setWidth,
    BitVec.getLsbD_ofNat, Nat.testBit_div_two_pow]
  by_cases h1 : k < 8
  · have h2 : k < 16 := by omega
    have h3 : k < 24 := by omega
    simp [h1, h2, h3, hk]
  by_cases h2 : k < 16
  · have h3 : k < 24 := by omega
    have hk1 : k - 8 + 8 * 1 = k := by omega
    have hlt : k - 8 < 32 ∧ k - 8 < 8 := by omega
    simp [h1, h2, h3, hk, hk1, hlt]
  by_cases h3 : k < 24
  · have hk2 : k - 16 + 8 * 2 = k := by omega
    have hlt : ¬k - 8 < 8 ∧ k - 16 < 32 ∧ k - 16 < 8 := by omega
    simp [h1, h2, h3, hk, hk2, hlt]
  · have hk3 : k - 24 + 8 * 3 = k := by omega
    have hlt : ¬k - 8 < 8 ∧ ¬k - 16 < 8 ∧ k - 24 < 32 ∧ k - 24 < 8 := by omega
    simp [h1, h2, h3, hk, hk3, hlt]

/-- A number that has been written is read back. -/
theorem rd16_put (x : Nat) : rd16 (put off (littleBytes 2 x) img) off = BitVec.ofNat 16 x :=
  rd16_littleBytes fun j hj => put_inside (by rwa [littleBytes_length])

theorem rd32_put (x : Nat) : rd32 (put off (littleBytes 4 x) img) off = BitVec.ofNat 32 x :=
  rd32_littleBytes fun j hj => put_inside (by rwa [littleBytes_length])

theorem rd16_put_outside (h : i + 2 ≤ off ∨ off + bytes.length ≤ i) :
    rd16 (put off bytes img) i = rd16 img i := by
  rw [rd16, put_outside (by omega), put_outside (by omega), rd16]

theorem rd32_put_outside (h : i + 4 ≤ off ∨ off + bytes.length ≤ i) :
    rd32 (put off bytes img) i = rd32 img i :=
  rd32_congr fun j h1 h2 => put_outside (by omega)

end Put

/-- Only bytes have changed from `lo` to `hi`. -/
def ChangedIn (lo hi : Nat) (img img' : Nat → Byte) : Prop :=
  ∀ i, i < lo ∨ hi ≤ i → img' i = img i

theorem toBytes_ok {n x : Nat} {bytes : List Byte} (h : toBytes n x = .ok bytes) :
    x < 256 ^ n ∧ bytes = littleBytes n x := by
  rw [toBytes] at h
  split at h
  · rename_i hx
    exact ⟨hx, (Except.ok.inj h).symm⟩
  · cases h

/-! ## What the loader looks at -/

/-- The image as the loader sees it. -/
structure Imaged (boot : List Byte) (fatSectors : Nat) (img : SdImage) : Prop where
  sectors : img.sectors < 2 ^ 32
  size : boot.length < 2 ^ 32
  covered : fileCluster + clustersOf boot.length ≤ fatSectors * 128
  room : fatLba + fatSectors + 1 + clustersOf boot.length ≤ img.sectors
  sectorSize : rd16 img.bytes 11 = 512#16
  secPerClus : img.bytes 13 = 1#8
  reserved : rd16 img.bytes 14 = 32#16
  fats : img.bytes 16 = 1#8
  fatSize : rd32 img.bytes 36 = BitVec.ofNat 32 fatSectors
  root : rd32 img.bytes 44 = 2#32
  chain : ∀ i, i < clustersOf boot.length → rd32 img.bytes (entryOffset (fileCluster + i)) =
    if i = clustersOf boot.length - 1 then 0x0FFFFFFF#32 else BitVec.ofNat 32 (fileCluster + i + 1)
  entry : entryAt img.bytes (512 * (fatLba + fatSectors)) =
    { first := 0x42#8, boot := true, attr := 0x20#8, cluster := 3#32
      size := BitVec.ofNat 32 boot.length }
  contents : ∀ i, i < boot.length →
    img.bytes (512 * (fatLba + fatSectors + 1) + i) = bytesAt boot i

section Build

variable {img img' : Nat → Byte} {sectors fatSectors clusters : Nat}

theorem writeBootSector_ok (h : writeBootSector sectors fatSectors img = .ok img') :
    sectors < 2 ^ 32 ∧ fatSectors < 2 ^ 32 ∧ rd16 img' 11 = 512#16 ∧ img' 13 = 1#8 ∧
      rd16 img' 14 = 32#16 ∧ img' 16 = 1#8 ∧ rd32 img' 36 = BitVec.ofNat 32 fatSectors ∧
      rd32 img' 44 = 2#32 := by
  have h512 : toBytes 2 512 = .ok (littleBytes 2 512) := rfl
  have h32 : toBytes 2 fatLba = .ok (littleBytes 2 32) := rfl
  have h2 : toBytes 4 rootCluster = .ok (littleBytes 4 2) := rfl
  simp only [writeBootSector, h512, h32, h2, bind, Except.bind, pure, Except.pure] at h
  split at h
  · cases h
  rename_i b1 h1
  split at h
  · cases h
  rename_i b2 h2
  obtain ⟨hs, rfl⟩ := toBytes_ok h1
  obtain ⟨hf, rfl⟩ := toBytes_ok h2
  obtain rfl := Except.ok.inj h
  refine ⟨hs, hf, ?_, rfl, ?_, rfl, ?_, ?_⟩
  · simp (disch := simp) only [rd16_put_outside, rd16_put]
  · simp (disch := simp) only [rd16_put_outside, rd16_put]
  · simp (disch := simp) only [rd32_put_outside, rd32_put]
  · simp (disch := simp) only [rd32_put_outside, rd32_put]

theorem changedIn_put {off : Nat} {bytes : List Byte} {lo hi : Nat} (h : ChangedIn lo hi img img')
    (hlo : lo ≤ off) (hhi : off + bytes.length ≤ hi) : ChangedIn lo hi img (put off bytes img') := by
  intro i hi
  rw [put_outside (by omega), h i hi]

/-- The number that links cluster `i` of the file. -/
def linkOf (clusters i : Nat) : Nat := if i = clusters - 1 then 0x0FFFFFFF else fileCluster + i + 1

theorem linkCluster_ok {i : Nat} (h : linkCluster clusters img i = .ok img') :
    img' = put (entryOffset (fileCluster + i)) (littleBytes 4 (linkOf clusters i)) img := by
  simp only [linkCluster, bind, Except.bind, pure, Except.pure] at h
  split at h
  · cases h
  rename_i bytes hbytes
  obtain ⟨-, rfl⟩ := toBytes_ok hbytes
  exact (Except.ok.inj h).symm

/-- The loop over the clusters of the file writes their chain. -/
theorem links_ok {m : Nat} (h : (List.range m).foldlM (linkCluster clusters) img = .ok img') :
    ChangedIn (entryOffset fileCluster) (entryOffset (fileCluster + m)) img img' ∧
      ∀ i, i < m → rd32 img' (entryOffset (fileCluster + i)) =
        BitVec.ofNat 32 (linkOf clusters i) := by
  induction m generalizing img' with
  | zero =>
      obtain rfl := Except.ok.inj h
      exact ⟨fun _ _ => rfl, fun i hi => absurd hi (Nat.not_lt_zero i)⟩
  | succ m ih =>
      rw [List.range_succ, List.foldlM_append] at h
      cases hm : (List.range m).foldlM (linkCluster clusters) img with
      | error e =>
          rw [hm] at h
          cases h
      | ok img1 =>
          rw [hm] at h
          have hlast : linkCluster clusters img1 m = .ok img' := by
            change (linkCluster clusters img1 m >>= fun img => pure img) = .ok img' at h
            rwa [bind_pure] at h
          obtain rfl := linkCluster_ok hlast
          obtain ⟨hchanged, hlinks⟩ := ih hm
          constructor
          · apply changedIn_put _ (by unfold entryOffset; omega)
              (by rw [littleBytes_length]; unfold entryOffset; omega)
            intro i hi
            apply hchanged
            unfold entryOffset at *
            omega
          · intro i hi
            rcases Nat.lt_succ_iff_lt_or_eq.mp hi with hlt | rfl
            · rw [rd32_put_outside (by unfold entryOffset; omega), hlinks i hlt]
            · exact rd32_put _

theorem rd16_congr {p q : Nat → Byte} {i : Nat} (h : ∀ j, i ≤ j → j < i + 2 → p j = q j) :
    rd16 p i = rd16 q i := by
  rw [rd16, h i (by omega) (by omega), h (i + 1) (by omega) (by omega), rd16]

theorem entryAt_congr {p q : Sector} {off : Nat} (h : ∀ j, off ≤ j → j < off + 32 → p j = q j) :
    entryAt p off = entryAt q off := by
  have hfirst : p off = q off := h off (by omega) (by omega)
  have hbyte : ∀ k, k < 32 → p (off + k) = q (off + k) := fun k hk =>
    h (off + k) (by omega) (by omega)
  simp (disch := decide) only [entryAt, nameMatch, rd16, rd32, Nat.add_assoc, hfirst, hbyte]

/-- The name of the file in its directory entry. -/
def bootName : List Byte :=
  [0x42#8, 0x4F#8, 0x4F#8, 0x54#8, 0x20#8, 0x20#8, 0x20#8, 0x20#8, 0x42#8, 0x49#8, 0x4E#8]

theorem entryAt_bytes {p : Sector} {off : Nat} {size : Word}
    (hname : ∀ j, j < 11 → p (off + j) = bytesAt bootName j) (hattr : p (off + 11) = 0x20#8)
    (hhigh : rd16 p (off + 20) = 0#16) (hlow : rd16 p (off + 26) = 3#16)
    (hsize : rd32 p (off + 28) = size) :
    entryAt p off =
      { first := 0x42#8, boot := true, attr := 0x20#8, cluster := 3#32, size := size } := by
  have hfirst : p off = 0x42#8 := hname 0 (by decide)
  have hmatch : nameMatch p off = true := by
    rw [nameMatch, hfirst, hname 1 (by decide), hname 2 (by decide), hname 3 (by decide),
      hname 4 (by decide), hname 5 (by decide), hname 6 (by decide), hname 7 (by decide),
      hname 8 (by decide), hname 9 (by decide), hname 10 (by decide)]
    rfl
  rw [entryAt, hfirst, hmatch, hattr, hhigh, hlow, hsize]
  rfl

theorem writeRoot_ok {dataLba size : Nat} (h : writeRoot dataLba size img = .ok img') :
    size < 2 ^ 32 ∧ ChangedIn (dataLba * 512) (dataLba * 512 + 32) img img' ∧
      entryAt img' (dataLba * 512) =
        { first := 0x42#8, boot := true, attr := 0x20#8, cluster := 3#32
          size := BitVec.ofNat 32 size } := by
  have h0 : toBytes 2 (fileCluster >>> 16) = .ok (littleBytes 2 0) := rfl
  have h3 : toBytes 2 (fileCluster &&& 0xFFFF) = .ok (littleBytes 2 3) := rfl
  simp only [writeRoot, h0, h3, bind, Except.bind, pure, Except.pure] at h
  split at h
  · cases h
  rename_i bytes hbytes
  obtain ⟨hs, rfl⟩ := toBytes_ok hbytes
  obtain rfl := Except.ok.inj h
  refine ⟨hs, ?_, ?_⟩
  · have hstart : ChangedIn (dataLba * 512) (dataLba * 512 + 32) img img := fun _ _ => rfl
    repeat' apply changedIn_put
    all_goals first | exact hstart | simp
  · apply entryAt_bytes
    · intro j hj
      rw [put_outside (by simp; omega), put_outside (by simp; omega), put_outside (by simp; omega),
        put_outside (by simp; omega), put_inside (by simpa using hj)]
      rfl
    · rw [put_outside (by simp), put_outside (by simp), put_outside (by simp)]
      exact put_inside (i := 0) (by simp)
    · simp (disch := simp) only [rd16_put_outside, rd16_put]
    · simp (disch := simp) only [rd16_put_outside, rd16_put]
    · exact rd32_put size

theorem writeFatHead_changed :
    ChangedIn (entryOffset 0) (entryOffset fileCluster) img (writeFatHead img) := by
  have hstart : ChangedIn (entryOffset 0) (entryOffset fileCluster) img img := fun _ _ => rfl
  unfold writeFatHead
  repeat' apply changedIn_put
  all_goals first | exact hstart | decide

/-- **What the builder writes.** -/
theorem buildImage_ok {boot : List Byte} {image : SdImage}
    (h : buildImage boot sectors = .ok image) : Imaged boot (fatSectorsOf sectors) image := by
  unfold buildImage at h
  generalize fatSectorsOf sectors = fatSectors at *
  simp only [bind, Except.bind, pure, Except.pure, throw, throwThe, MonadExceptOf.throw] at h
  split at h
  · cases h
  rename_i img1 h1
  split at h
  · cases h
  rename_i hcovered
  split at h
  · cases h
  rename_i hroom
  split at h
  · cases h
  rename_i img2 h2
  split at h
  · cases h
  rename_i img3 h3
  obtain rfl := Except.ok.inj h
  obtain ⟨hsectors, hfat, hbps, hspc, hreserved, hfats, hfatSize, hroot⟩ := writeBootSector_ok h1
  obtain ⟨hlinked, hlinks⟩ := links_ok h2
  obtain ⟨hsize, hdir, hentry⟩ := writeRoot_ok h3
  have hhead : ChangedIn (entryOffset 0) (entryOffset fileCluster) img1 (writeFatHead img1) :=
    writeFatHead_changed
  have hcov : fileCluster + clustersOf boot.length ≤ fatSectors * 128 := by omega
  have hentryAt : ∀ c, entryOffset c = 32 * 512 + c * 4 := fun _ => rfl
  have hone : fileCluster - 2 = 1 := rfl
  have hthree : fileCluster = 3 := rfl
  have hlba : fatLba = 32 := rfl
  rw [hlba, hone] at hroom
  rw [hthree] at hlinked
  rw [hlba, Nat.mul_comm] at hdir hentry
  rw [hlba, hone, Nat.mul_comm]
  -- each piece lies behind the one before
  have hroot3 : ∀ i, i < 512 * (32 + fatSectors + 1) →
      put (512 * (32 + fatSectors + 1)) boot img3 i = img3 i :=
    fun i hi => put_outside (.inl hi)
  have hfat2 : ∀ i, i < 512 * (32 + fatSectors) →
      put (512 * (32 + fatSectors + 1)) boot img3 i = img2 i := by
    intro i hi
    rw [hroot3 i (by omega), hdir i (.inl hi)]
  have hboot1 : ∀ i, i < 512 * 32 → put (512 * (32 + fatSectors + 1)) boot img3 i = img1 i := by
    intro i hi
    rw [hfat2 i (by omega), hlinked i (.inl (by rw [hentryAt]; omega)),
      hhead i (.inl (by rw [hentryAt]; omega))]
  constructor
  · exact hsectors
  · exact hsize
  · exact hcov
  · show 32 + fatSectors + 1 + clustersOf boot.length ≤ sectors
    omega
  · exact (rd16_congr fun j _ hj => hboot1 j (by omega)).trans hbps
  · exact (hboot1 13 (by omega)).trans hspc
  · exact (rd16_congr fun j _ hj => hboot1 j (by omega)).trans hreserved
  · exact (hboot1 16 (by omega)).trans hfats
  · exact (rd32_congr fun j _ hj => hboot1 j (by omega)).trans hfatSize
  · exact (rd32_congr fun j _ hj => hboot1 j (by omega)).trans hroot
  · intro i hi
    refine (rd32_congr fun j _ hj => hfat2 j ?_).trans ((hlinks i hi).trans ?_)
    · rw [hentryAt] at hj
      omega
    · unfold linkOf
      split <;> rfl
  · exact (entryAt_congr fun j _ hj => hroot3 j (by omega)).trans hentry
  · intro i hi
    exact put_inside hi

end Build

/-! ## The image on a card -/

/-- The card holds the image; behind it anything may be. -/
def Holds (card : Card) (img : SdImage) : Prop :=
  ∀ lba, lba.toNat < img.sectors → card lba = some (img.sector lba.toNat)

/-- The volume of the image. -/
def imageVolume (fatSectors : Nat) : Volume :=
  { secPerClus := 1#8, fatLba := 32#32, dataLba := BitVec.ofNat 32 (fatLba + fatSectors) }

/-- The directory entry of the file. -/
def imageEntry (boot : List Byte) : DirEntry :=
  { first := 0x42#8, boot := true, attr := 0x20#8, cluster := 3#32
    size := BitVec.ofNat 32 boot.length }

/-- The sectors of the file. -/
def fileSectors (boot : List Byte) (fatSectors : Nat) (img : SdImage) : List Sector :=
  (List.range (clustersOf boot.length)).map fun n => img.sector (fatLba + fatSectors + 1 + n)

theorem SdImage.word_low (img : SdImage) (k : Nat) :
    (img.word k).extractLsb' 0 8 = img.bytes (2 * k) := by
  apply BitVec.eq_of_getLsbD_eq
  intro j hj
  have hlt : j < 16 := by omega
  simp [word, hj, hlt]

theorem SdImage.word_high (img : SdImage) (k : Nat) :
    (img.word k).extractLsb' 8 8 = img.bytes (2 * k + 1) := by
  apply BitVec.eq_of_getLsbD_eq
  intro j hj
  have hlt : 8 + j < 16 := by omega
  simp [word, hj, hlt]

theorem SdImage.sector_byte (img : SdImage) (lba i : Nat) :
    img.sector lba i = img.bytes (512 * lba + i) := by
  rw [sector]
  rcases Nat.mod_two_eq_zero_or_one i with h | h
  · have hbyte : 2 * (256 * lba + i / 2) = 512 * lba + i := by omega
    rw [h, Nat.mul_zero, img.word_low, hbyte]
  · have hbyte : 2 * (256 * lba + i / 2) + 1 = 512 * lba + i := by omega
    rw [h, Nat.mul_one, img.word_high, hbyte]

/-- The bytes of sectors that lie one behind the other. -/
theorem SdImage.flatMap_sectors (img : SdImage) (first m : Nat) :
    ((List.range m).map fun n => img.sector (first + n)).flatMap sectorBytes =
      (List.range (512 * m)).map fun j => img.bytes (512 * first + j) := by
  induction m with
  | zero => rfl
  | succ m ih =>
      have hlast : sectorBytes (img.sector (first + m)) =
          (List.range 512).map fun j => img.bytes (512 * first + (512 * m + j)) := by
        apply List.map_congr_left
        intro j _
        rw [img.sector_byte, Nat.mul_add, Nat.add_assoc]
      rw [List.range_succ, List.map_append, List.flatMap_append, ih, Nat.mul_succ, List.range_add,
        List.map_append, List.map_map]
      rw [List.map_singleton, List.flatMap_singleton, hlast]
      rfl

section Loader

variable {boot : List Byte} {fatSectors : Nat} {img : SdImage} {card : Card}

theorem Imaged.fatSectors_pos (h : Imaged boot fatSectors img) : 0 < fatSectors := by
  have hcov := h.covered
  unfold fileCluster at hcov
  omega

theorem Imaged.fatSectors_lt (h : Imaged boot fatSectors img) : fatSectors < 2 ^ 32 := by
  have hroom := h.room
  have hsectors := h.sectors
  omega

theorem Imaged.mounted (h : Imaged boot fatSectors img) (hcard : Holds card img) :
    Mounted card (imageVolume fatSectors) 2#32 := by
  have hpos := h.fatSectors_pos
  have hlt := h.fatSectors_lt
  have hroom := h.room
  have hzero : card 0#32 = some img.bytes := by
    have hsector : img.sector 0 = img.bytes := by
      funext i
      rw [img.sector_byte, Nat.mul_zero, Nat.zero_add]
    rw [hcard 0#32 (by simp; omega), ← hsector]
    rfl
  have hsize : BitVec.ofNat 32 fatSectors ≠ 0#32 := by
    intro h0
    have := congrArg BitVec.toNat h0
    rw [BitVec.toNat_ofNat, Nat.mod_eq_of_lt hlt] at this
    simp at this
    omega
  apply Mounted.superfloppy hzero
  · simp [looksLikeFat32Bpb, h.sectorSize, h.secPerClus, h.reserved, h.fats, h.fatSize, h.root,
      hsize]
  · simp [volumeOf, h.sectorSize, h.secPerClus, h.reserved, h.fats, h.fatSize, h.root,
      imageVolume, fatLba, BitVec.ofNat_add]

/-- The search finds the entry in the first place it looks at. -/
theorem Imaged.dirStep (h : Imaged boot fatSectors img) (hcard : Holds card img) :
    dirStep card (imageVolume fatSectors) 2#32 = .found (imageEntry boot) := by
  have hroom := h.room
  have hsectors := h.sectors
  have hdata : (BitVec.ofNat 32 (fatLba + fatSectors)).toNat = fatLba + fatSectors := by
    rw [BitVec.toNat_ofNat, Nat.mod_eq_of_lt (by omega)]
  have hfirst : (imageVolume fatSectors).first 2#32 + 0#32 =
      BitVec.ofNat 32 (fatLba + fatSectors) := by
    simp [Volume.first, imageVolume]
  have hread : card ((imageVolume fatSectors).first 2#32 + 0#32) =
      some (img.sector (fatLba + fatSectors)) := by
    rw [hfirst, hcard _ (by rw [hdata]; omega), hdata]
  have hentry : entryAt (img.sector (fatLba + fatSectors)) 0 = imageEntry boot := by
    rw [imageEntry, ← h.entry]
    simp only [entryAt, nameMatch, rd16, rd32, img.sector_byte, Nat.add_zero, Nat.zero_add,
      Nat.add_assoc]
  have htaken : (imageEntry boot).taken = true := rfl
  have hfind : (entriesOf (img.sector (fatLba + fatSectors))).find? DirEntry.taken =
      some (imageEntry boot) := by
    show List.find? DirEntry.taken (entryAt (img.sector (fatLba + fatSectors)) 0 :: _) = _
    rw [List.find?_cons, hentry, htaken]
  have hscan : scan card ((imageVolume fatSectors).first 2#32) 1 0 none =
      some (some (imageEntry boot)) := by
    rw [scan]
    show (card ((imageVolume fatSectors).first 2#32 + 0#32)).bind _ = _
    rw [hread, Option.bind_some, hfind]
    rfl
  have hone : (imageVolume fatSectors).secPerClus.toNat = 1 := rfl
  rw [Boot.dirStep, if_neg (by decide), hone, hscan]
  rfl

theorem clustersOf_lt (hlen : boot.length ≤ 0x0700000C) : clustersOf boot.length < 2 ^ 20 := by
  unfold clustersOf
  omega

/-- The FAT entry of a cluster of the file links it to the next one. -/
theorem Imaged.fatEntry (h : Imaged boot fatSectors img) (hcard : Holds card img)
    (hlen : boot.length ≤ 0x0700000C) {i : Nat} (hi : i + 1 < clustersOf boot.length) :
    fatEntry card (imageVolume fatSectors) (BitVec.ofNat 32 (3 + i)) =
      some (BitVec.ofNat 32 (3 + (i + 1))) := by
  have hroom := h.room
  have hcov := h.covered
  have hsectors := h.sectors
  have hlink := h.chain i (by omega)
  have hfew := clustersOf_lt hlen
  rw [if_neg (by omega)] at hlink
  unfold fileCluster at hcov hlink
  unfold fatLba at hroom
  have hcluster : (BitVec.ofNat 32 (3 + i) * 4#32).toNat = (3 + i) * 4 := by
    rw [BitVec.toNat_mul, BitVec.toNat_ofNat, BitVec.toNat_ofNat]
    omega
  have hlba : (32#32 + BitVec.ofNat 32 (3 + i) * 4#32 / 512#32).toNat = 32 + (3 + i) * 4 / 512 := by
    have h512 : (512#32).toNat = 512 := rfl
    have h32 : (32#32).toNat = 32 := rfl
    rw [BitVec.toNat_add, BitVec.toNat_udiv, hcluster, h512, h32]
    omega
  have hoff : (BitVec.ofNat 32 (3 + i) * 4#32 &&& 511#32).toNat = (3 + i) * 4 % 512 := by
    rw [BitVec.toNat_and, hcluster]
    exact Nat.and_two_pow_sub_one_eq_mod _ 9
  have hplace : 512 * (32 + (3 + i) * 4 / 512) + (3 + i) * 4 % 512 = entryOffset (3 + i) := by
    show _ = 32 * 512 + (3 + i) * 4
    omega
  have hmask : BitVec.ofNat 32 (3 + i + 1) &&& 0x0FFFFFFF#32 = BitVec.ofNat 32 (3 + (i + 1)) := by
    have hlow : (0x0FFFFFFF#32).toNat = 2 ^ 28 - 1 := rfl
    apply BitVec.eq_of_toNat_eq
    rw [BitVec.toNat_and, hlow, Nat.and_two_pow_sub_one_eq_mod, BitVec.toNat_ofNat,
      BitVec.toNat_ofNat]
    omega
  rw [Boot.fatEntry]
  show (card (32#32 + BitVec.ofNat 32 (3 + i) * 4#32 / 512#32)).map _ = _
  rw [hcard _ (by rw [hlba]; omega), hlba, Option.map_some, hoff]
  have hword : rd32 (img.sector (32 + (3 + i) * 4 / 512)) ((3 + i) * 4 % 512) =
      rd32 img.bytes (entryOffset (3 + i)) := by
    simp only [rd32, img.sector_byte, ← Nat.add_assoc, hplace]
  rw [hword, hlink, hmask]

/-- The chain of the file. -/
theorem Imaged.reached (h : Imaged boot fatSectors img) (hcard : Holds card img)
    (hlen : boot.length ≤ 0x0700000C) {n : Nat} (hn : n < clustersOf boot.length) :
    Orbit.reached (Boot.fatEntry card (imageVolume fatSectors)) 3#32 n =
      some (BitVec.ofNat 32 (3 + n)) := by
  induction n with
  | zero => rfl
  | succ n ih =>
      rw [Orbit.reached_succ, ih (by omega)]
      exact h.fatEntry hcard hlen hn

theorem Imaged.contents_sectors (h : Imaged boot fatSectors img) (hcard : Holds card img)
    (hlen : boot.length ≤ 0x0700000C) :
    Contents card (imageVolume fatSectors) 3#32 (BitVec.ofNat 32 boot.length)
      (fileSectors boot fatSectors img) where
  enough := by
    have hsize := h.size
    rw [BitVec.toNat_ofNat, Nat.mod_eq_of_lt hsize, fileSectors, List.length_map,
      List.length_range, clustersOf]
    omega
  chain := by
    intro n hn
    rw [fileSectors, List.length_map, List.length_range] at hn
    have hroom := h.room
    have hsectors := h.sectors
    have hfew := clustersOf_lt hlen
    have hspc : (imageVolume fatSectors).secPerClus.toNat = 1 := rfl
    refine ⟨BitVec.ofNat 32 (3 + n), ?_, ?_, ?_⟩
    · rw [hspc, Nat.div_one]
      exact h.reached hcard hlen hn
    · rw [BitVec.lt_def, BitVec.toNat_ofNat]
      show (3 + n) % 2 ^ 32 < 0x0FFFFFF8
      omega
    · have hlba : (imageVolume fatSectors).first (BitVec.ofNat 32 (3 + n)) + 0#32 =
          BitVec.ofNat 32 (fatLba + fatSectors + 1 + n) := by
        have hsub : BitVec.ofNat 32 (3 + n) - 2#32 = BitVec.ofNat 32 (1 + n) := by
          apply BitVec.eq_of_toNat_eq
          simp only [BitVec.toNat_sub, BitVec.toNat_ofNat]
          omega
        have hone : (1#8).setWidth 32 = 1#32 := rfl
        show BitVec.ofNat 32 (fatLba + fatSectors) + (BitVec.ofNat 32 (3 + n) - 2#32) *
          (1#8).setWidth 32 + 0#32 = _
        rw [hsub, hone, BitVec.mul_one, BitVec.add_zero, ← BitVec.ofNat_add, ← Nat.add_assoc]
      have htoNat : (BitVec.ofNat 32 (fatLba + fatSectors + 1 + n)).toNat =
          fatLba + fatSectors + 1 + n := by
        rw [BitVec.toNat_ofNat, Nat.mod_eq_of_lt (by omega)]
      rw [hspc, Nat.mod_one, hlba, hcard _ (by rw [htoNat]; omega), htoNat, fileSectors,
        List.getElem?_map, List.getElem?_range hn]
      rfl

/-- The bytes of the file. -/
theorem Imaged.fileBytes (h : Imaged boot fatSectors img) :
    fileBytes (BitVec.ofNat 32 boot.length) (fileSectors boot fatSectors img) = boot := by
  have hsize := h.size
  have hcontents := h.contents
  have hle : boot.length ≤ 512 * clustersOf boot.length := by
    unfold clustersOf
    omega
  rw [Boot.fileBytes, BitVec.toNat_ofNat, Nat.mod_eq_of_lt hsize, fileSectors, img.flatMap_sectors]
  apply List.ext_getElem
  · rw [List.length_take, List.length_map, List.length_range, Nat.min_eq_left hle]
  · intro i h1 h2
    rw [List.getElem_take, List.getElem_map, List.getElem_range, hcontents i h2]
    simp [bytesAt, h2]

/-- The loader takes the image as a card with one boot file. -/
theorem Imaged.runs (h : Imaged boot fatSectors img) (hcard : Holds card img) {dst : Word}
    (hacc : Accepts dst (BitVec.ofNat 32 boot.length) boot) :
    Runs card (fun fuel => fatbootLoad fuel dst) fun r t =>
      r = .ok (textOf boot + dataOf boot) ∧ storedBytes t = payloadStores dst boot := by
  have hlen : boot.length ≤ 0x0700000C := by
    have hle := hacc.header.imageLength_le
    rwa [← hacc.size, BitVec.toNat_ofNat, Nat.mod_eq_of_lt h.size] at hle
  have hopen := (h.mounted hcard).opens
  have hstep := h.dirStep hcard
  have hend : DirectoryEnds card := by
    intro vol root hopen'
    rw [hopen] at hopen'
    obtain ⟨rfl, rfl⟩ := Prod.mk.inj (Except.ok.inj hopen')
    refine ⟨1, ?_⟩
    rw [Orbit.reached_succ, Orbit.reached_zero]
    show dirNext card _ _ = none
    rw [dirNext, hstep]
  apply (runs_fatbootLoad dst hend).mono
  intro r t hout
  cases hout with
  | closed hno =>
      rw [hopen] at hno
      cases hno
  | unreadable hopen' hfinds =>
      rw [hopen] at hopen'
      obtain ⟨rfl, rfl⟩ := Prod.mk.inj (Except.ok.inj hopen')
      cases hfinds.unique (.found hstep)
  | absent hopen' hfinds =>
      rw [hopen] at hopen'
      obtain ⟨rfl, rfl⟩ := Prod.mk.inj (Except.ok.inj hopen')
      cases hfinds.unique (.found hstep)
  | file hopen' hfinds hfile =>
      rw [hopen] at hopen'
      obtain ⟨rfl, rfl⟩ := Prod.mk.inj (Except.ok.inj hopen')
      obtain rfl := Option.some.inj (Except.ok.inj (hfinds.unique (.found hstep)))
      have hfile' : FileOutcome card (imageVolume fatSectors) dst (BitVec.ofNat 32 boot.length)
          3#32 r t := hfile
      have hloads := hfile'.loads (h.mounted hcard).sectors (h.contents_sectors hcard hlen)
      rw [h.fileBytes] at hloads
      exact hloads.image hacc

/-- **Image builder and loader agree.** For every BOOT.BIN with a valid header and as many bytes as
the header says, and every size for which `make_sd_image.py` makes an image: from any card that
holds the image `fatboot_load` returns 0 and the size of the payload, the payload is in memory from
`dst` on, and nothing else has changed. -/
theorem sd_image_loads {dst : Word} {sizeMib : Int} (hv : ValidImage dst boot)
    (himage : makeSdImage boot sizeMib = .ok img) (hcard : Holds card img) :
    Runs card (fun fuel => fatbootLoad fuel dst) fun r t =>
      r = .ok (textOf boot + dataOf boot) ∧
        (textOf boot + dataOf boot).toNat = payloadLength boot ∧
        (∀ m i, i < payloadLength boot →
          memoryAfter m t (dst + BitVec.ofNat 32 i) = bytesAt boot (12 + i)) ∧
        ∀ m a, (∀ i, i < payloadLength boot → a ≠ dst + BitVec.ofNat 32 i) →
          memoryAfter m t a = m a := by
  obtain ⟨fatSectors, himaged⟩ : ∃ fatSectors, Imaged boot fatSectors img := by
    rw [makeSdImage] at himage
    split at himage
    · cases himage
    · exact ⟨_, buildImage_ok himage⟩
  have hle := hv.header.imageLength_le
  have hlength := hv.length
  have hacc : Accepts dst (BitVec.ofNat 32 boot.length) boot := by
    refine ⟨hv.header, ?_⟩
    rw [BitVec.toNat_ofNat, Nat.mod_eq_of_lt himaged.size, hlength]
  have hsum : (textOf boot + dataOf boot).toNat = payloadLength boot := by
    rw [imageLength, payloadLength] at hle
    rw [BitVec.toNat_add, payloadLength]
    omega
  apply (himaged.runs hcard hacc).mono
  rintro r t ⟨rfl, hstored⟩
  refine ⟨rfl, hsum, ?_, ?_⟩
  · intro m
    exact (payloadStores_read hv.header (by omega) m hstored).1
  · intro m
    exact (payloadStores_read hv.header (by omega) m hstored).2

end Loader

theorem fatSectorsOf_one : fatSectorsOf 2048 = 16 := by
  show growFat 2048 16 = 16
  rw [growFat, if_neg (by decide)]

theorem sd_image_loads_small : ∃ img, makeSdImage smallImage 1 = .ok img ∧
    Runs (fun lba => some (img.sector lba.toNat)) (fun fuel => fatbootLoad fuel loadAddr)
      fun r t => r = .ok 2#32 ∧ memoryAfter (fun _ => 0#8) t loadAddr = 0x13#8 := by
  have hmade : ∃ img, makeSdImage smallImage 1 = .ok img := by
    have hsectors : (1 : Int).toNat * 1024 * 1024 / 512 = 2048 := by decide
    rw [makeSdImage, if_neg (by decide), hsectors, buildImage, fatSectorsOf_one]
    exact ⟨_, rfl⟩
  obtain ⟨img, himg⟩ := hmade
  refine ⟨img, himg, ?_⟩
  have hcard : Holds (fun lba => some (img.sector lba.toNat)) img := fun _ _ => rfl
  apply (sd_image_loads validImage_small himg hcard).mono
  rintro r t ⟨hr, _, hin, _⟩
  exact ⟨hr, hin (fun _ => 0#8) 0 (by decide)⟩

end MelonSoc.Boot
