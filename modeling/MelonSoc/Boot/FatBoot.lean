import MelonSoc.Boot.Image

set_option autoImplicit false

/-! # The SD card loader

`fatboot.c`: it finds BOOT.BIN in the root directory of a FAT32 volume and copies its payload.
The diagnostic message of a volume with another sector size is left out.
-/

namespace MelonSoc.Boot

/-- What `fatboot_load` returns instead of 0. -/
inductive FatError
  /-- -1: a block cannot be read. -/
  | read
  /-- -2: the sectors do not have 512 bytes. -/
  | bpb
  /-- -3: there is no BOOT.BIN. -/
  | notFound
  /-- -4: the cluster chain ends before the file; the size is reported all the same. -/
  | short (size : Word)
  /-- -5: the file is not a boot image for this address. -/
  | image
  /-- -6: the header does not fit the size of the file. -/
  | fileSize
  deriving DecidableEq

/-- `sdcard_read_block`, with the card and its driver outside. -/
def sdcardReadBlock (lba : Word) : Loader (Option Sector) := do
  emit (.readBlock lba)
  let w ← get
  match w.sd with
  | [] => throw .starved
  | block :: rest =>
      set { w with sd := rest }
      pure block

/-- `looks_like_fat32_bpb`. -/
def looksLikeFat32Bpb (p : Sector) : Bool :=
  rd16 p 11 == 512#16 && p 13 != 0#8 && rd16 p 14 != 0#16 && p 16 != 0#8 &&
    rd32 p 36 != 0#32 && decide (2#32 ≤ rd32 p 44)

/-- `name_match`: the entry at `off` is BOOT.BIN. -/
def nameMatch (p : Sector) (off : Nat) : Bool :=
  p off == 0x42#8 && p (off + 1) == 0x4F#8 && p (off + 2) == 0x4F#8 && p (off + 3) == 0x54#8 &&
    p (off + 4) == 0x20#8 && p (off + 5) == 0x20#8 && p (off + 6) == 0x20#8 &&
    p (off + 7) == 0x20#8 && p (off + 8) == 0x42#8 && p (off + 9) == 0x49#8 &&
    p (off + 10) == 0x4E#8

/-! ## The volume -/

/-- Where the clusters and the FAT are. -/
structure Volume where
  secPerClus : Byte
  fatLba : Word
  dataLba : Word

/-- The first sector of a cluster. -/
def Volume.first (v : Volume) (cluster : Word) : Word :=
  v.dataLba + (cluster - 2#32) * v.secPerClus.setWidth 32

/-- The end of a cluster chain. -/
def chainEnd : Word := 0x0FFFFFF8#32

/-- The next cluster of a chain, read from the FAT. -/
def nextCluster (v : Volume) (cluster : Word) : Loader (Except FatError Word) := do
  let fatSector := v.fatLba + (cluster * 4#32) / 512#32
  let fatOff := (cluster * 4#32) &&& 511#32
  match ← sdcardReadBlock fatSector with
  | none => return .error .read
  | some sector => return .ok (rd32 sector fatOff.toNat &&& 0x0FFFFFFF#32)

/-- The volume and its root directory, from the boot sector of the first partition or of the
card. -/
def openVolume : Loader (Except FatError (Volume × Word)) := do
  match ← sdcardReadBlock 0#32 with
  | none => return .error .read
  | some mbr =>
      let partLba :=
        if !looksLikeFat32Bpb mbr && mbr 510 == 0x55#8 && mbr 511 == 0xAA#8 &&
            mbr (0x1BE + 4) != 0#8 then
          rd32 mbr (0x1BE + 8)
        else 0#32
      match ← sdcardReadBlock partLba with
      | none => return .error .read
      | some bpb =>
          if rd16 bpb 11 ≠ 512#16 then return .error .bpb
          let fatLba := partLba + (rd16 bpb 14).setWidth 32
          let dataLba := fatLba + (bpb 16).setWidth 32 * rd32 bpb 36
          return .ok ({ secPerClus := bpb 13, fatLba := fatLba, dataLba := dataLba }, rd32 bpb 44)

/-! ## The directory -/

/-- The variables of the search. -/
structure Search where
  cluster : Word
  fileCluster : Word
  fileSize : Word

/-- The loop over the 16 entries of a sector, from entry `16 - n` on. -/
def searchEntries (sector : Sector) : Nat → Search → Search
  | 0, v => v
  | n + 1, v =>
      let off := 32 * (16 - (n + 1))
      if sector off = 0#8 then searchEntries sector n v
      else if sector off = 0xE5#8 ∨ sector (off + 11) = 0x0F#8 then searchEntries sector n v
      else if nameMatch sector off then
        { cluster := 0x0FFFFFFF#32
          fileCluster := ((rd16 sector (off + 20)).setWidth 32 <<< 16) |||
            (rd16 sector (off + 26)).setWidth 32
          fileSize := rd32 sector (off + 28) }
      else searchEntries sector n v

/-- A sector of a directory cluster. -/
def searchSector (vol : Volume) (first : Word) (v : Nat × Search) :
    Loader ((Nat × Search) ⊕ Except FatError Search) := do
  if vol.secPerClus.toNat ≤ v.1 then return .inr (.ok v.2)
  match ← sdcardReadBlock (first + BitVec.ofNat 32 v.1) with
  | none => return .inr (.error .read)
  | some sector =>
      let found := searchEntries sector 16 v.2
      return if found.fileCluster ≠ 0#32 then .inr (.ok found) else .inl (v.1 + 1, found)

/-- A cluster of the directory. -/
def searchCluster (fuel : Nat) (vol : Volume) (v : Search) :
    Loader (Search ⊕ Except FatError Search) := do
  if chainEnd ≤ v.cluster then return .inr (.ok v)
  match ← Prog.loop .fuel (searchSector vol (vol.first v.cluster)) fuel (0, v) with
  | .error e => return .inr (.error e)
  | .ok found =>
      if found.fileCluster ≠ 0#32 then return .inr (.ok found)
      match ← nextCluster vol found.cluster with
      | .error e => return .inr (.error e)
      | .ok cluster => return .inl { found with cluster := cluster }

/-! ## The payload -/

/-- A word in the first loop of `copy_payload`: the destination, the index into the source and the
count. -/
def copyWord (src : Nat → Byte) (v : Word × Nat × Word) :
    Loader ((Word × Nat × Word) ⊕ (Word × Nat × Word)) := do
  let (dst, i, count) := v
  if count < 4#32 then return .inr v
  emit (.store dst (src i))
  emit (.store (dst + 1#32) (src (i + 1)))
  emit (.store (dst + 2#32) (src (i + 2)))
  emit (.store (dst + 3#32) (src (i + 3)))
  let dst ← add .dstWords dst 4#32
  let count ← sub .countWords count 4#32
  return .inl (dst, i + 4, count)

/-- A byte in the second loop, whose test is `count--`. -/
def copyByte (src : Nat → Byte) (v : Word × Nat × Word) :
    Loader ((Word × Nat × Word) ⊕ Word) := do
  let (dst, i, count) := v
  let left ← sub .countTest count 1#32
  if count = 0#32 then return .inr dst
  emit (.store dst (src i))
  let dst ← add .dstBytes dst 1#32
  return .inl (dst, i + 1, left)

/-- `copy_payload`: the destination behind what it has written. -/
def copyPayload (fuel : Nat) (dst : Word) (src : Nat → Byte) (count : Word) : Loader Word := do
  let v ← Prog.loop .fuel (copyWord src) fuel (dst, 0, count)
  Prog.loop .fuel (copyByte src) fuel v

/-- The variables of the payload loop. -/
structure Copying where
  payloadOut : Word
  fileOff : Word
  textSize : Word
  dataSize : Word
  remaining : Word
  cluster : Word

/-- The header in the first sector of the file. -/
def checkHeader (dst fileSize : Word) (sector : Sector) : Loader (Except FatError Sizes) := do
  let header : Nat → Byte := fun i => if i < headerSize.toNat then sector i else 0#8
  match ← bootImageParseHeader header dst with
  | .error _ => return .error .image
  | .ok sizes =>
      match ← bootImageValidateFileSize fileSize sizes.text sizes.data with
      | .error _ => return .error .fileSize
      | .ok _ =>
          emit (.accepted sizes.text sizes.data)
          return .ok sizes

/-- What a sector holds of the file is copied from `payloadOff` on. -/
def copySector (fuel : Nat) (sector : Sector) (payloadOff : Word) (c : Copying) :
    Loader Copying := do
  let n := if c.remaining < 512#32 then c.remaining else 512#32
  let count ← sub .chunk n payloadOff
  let payloadOut ← copyPayload fuel c.payloadOut (fun i => sector (payloadOff.toNat + i)) count
  let fileOff ← add .fileOff c.fileOff n
  let remaining ← sub .remaining c.remaining n
  return { c with payloadOut := payloadOut, fileOff := fileOff, remaining := remaining }

/-- A sector of the file. -/
def loadSector (fuel : Nat) (vol : Volume) (dst fileSize first : Word) (v : Nat × Copying) :
    Loader ((Nat × Copying) ⊕ Except FatError Copying) := do
  let (s, c) := v
  if vol.secPerClus.toNat ≤ s ∨ c.remaining = 0#32 then return .inr (.ok c)
  match ← sdcardReadBlock (first + BitVec.ofNat 32 s) with
  | none => return .inr (.error .read)
  | some sector =>
      if c.fileOff = 0#32 then
        match ← checkHeader dst fileSize sector with
        | .error e => return .inr (.error e)
        | .ok sizes =>
            let c ← copySector fuel sector headerSize
              { c with textSize := sizes.text, dataSize := sizes.data }
            return .inl (s + 1, c)
      else
        let c ← copySector fuel sector 0#32 c
        return .inl (s + 1, c)

/-- A cluster of the file. -/
def loadCluster (fuel : Nat) (vol : Volume) (dst fileSize : Word) (c : Copying) :
    Loader (Copying ⊕ Except FatError Copying) := do
  if c.remaining = 0#32 ∨ chainEnd ≤ c.cluster then return .inr (.ok c)
  match ← Prog.loop .fuel (loadSector fuel vol dst fileSize (vol.first c.cluster)) fuel (0, c) with
  | .error e => return .inr (.error e)
  | .ok c =>
      if c.remaining = 0#32 then return .inl c
      match ← nextCluster vol c.cluster with
      | .error e => return .inr (.error e)
      | .ok cluster => return .inl { c with cluster := cluster }

/-- The file is copied to `dst`. -/
def loadFile (fuel : Nat) (vol : Volume) (dst fileCluster fileSize : Word) :
    Loader (Except FatError Word) := do
  if fileSize < headerSize then return .error .image
  let start : Copying :=
    { payloadOut := dst, fileOff := 0#32, textSize := 0#32, dataSize := 0#32
      remaining := fileSize, cluster := fileCluster }
  match ← Prog.loop .fuel (loadCluster fuel vol dst fileSize) fuel start with
  | .error e => return .error e
  | .ok c =>
      let size ← add .payloadSize c.textSize c.dataSize
      return if c.remaining = 0#32 then .ok size else .error (.short size)

/-- `fatboot_load`. -/
def fatbootLoad (fuel : Nat) (dst : Word) : Loader (Except FatError Word) := do
  match ← openVolume with
  | .error e => return .error e
  | .ok (vol, rootCluster) =>
      let start : Search := { cluster := rootCluster, fileCluster := 0#32, fileSize := 0#32 }
      match ← Prog.loop .fuel (searchCluster fuel vol) fuel start with
      | .error e => return .error e
      | .ok found =>
          if found.fileCluster = 0#32 then return .error .notFound
          loadFile fuel vol dst found.fileCluster found.fileSize

end MelonSoc.Boot
