import MelonSoc.Boot.Image

set_option autoImplicit false

/-! # The SD image of the simulation

`make_sd_image.py`: a FAT32 volume of one sector a cluster with BOOT.BIN as its only file. The image
is written as 16-bit words, the first byte in the low half.
-/

namespace MelonSoc.Boot

/-- Why `make_sd_image.py` does not make an image. -/
inductive ImageFailure
  /-- `--size-mib` is not positive. -/
  | size
  /-- A number does not fit into its field. -/
  | overflow
  /-- BOOT.BIN does not fit into the image. -/
  | full
  deriving DecidableEq

/-- An image of so many sectors. -/
structure SdImage where
  sectors : Nat
  bytes : Nat → Byte

/-- `img[off:off + len(bytes)] = bytes`. -/
def put (off : Nat) (bytes : List Byte) (img : Nat → Byte) : Nat → Byte := fun i =>
  if off ≤ i ∧ i < off + bytes.length then bytes.getD (i - off) 0#8 else img i

/-- The `n` low bytes of a number, the lowest first. -/
def littleBytes (n x : Nat) : List Byte := (List.range n).map fun i => BitVec.ofNat 8 (x / 256 ^ i)

/-- `x.to_bytes(n, "little")`. -/
def toBytes (n x : Nat) : Except ImageFailure (List Byte) :=
  if x < 256 ^ n then .ok (littleBytes n x) else .error .overflow

/-- `fat_lba`. -/
def fatLba : Nat := 32

/-- `root_cluster`. -/
def rootCluster : Nat := 2

/-- `file_cluster`. -/
def fileCluster : Nat := 3

/-- The loop that makes the FAT larger until it covers all clusters. -/
def growFat (sectors fatSectors : Nat) : Nat :=
  if fatLba + fatSectors + fatSectors * 128 < sectors + 2 then growFat sectors (fatSectors + 1)
  else fatSectors
termination_by sectors + 2 - fatSectors

/-- `fat_sectors`. -/
def fatSectorsOf (sectors : Nat) : Nat := growFat sectors ((sectors - fatLba + 127) / 128)

/-- The boot sector. -/
def writeBootSector (sectors fatSectors : Nat) (img : Nat → Byte) :
    Except ImageFailure (Nat → Byte) := do
  let img := put 0 [0xEB#8, 0x58#8, 0x90#8] img
  let img := put 3 [0x4D#8, 0x53#8, 0x44#8, 0x4F#8, 0x53#8, 0x35#8, 0x2E#8, 0x30#8] img
  let img := put 11 (← toBytes 2 512) img
  let img := put 13 [1#8] img
  let img := put 14 (← toBytes 2 fatLba) img
  let img := put 16 [1#8] img
  let img := put 21 [0xF8#8] img
  let img := put 32 (← toBytes 4 sectors) img
  let img := put 36 (← toBytes 4 fatSectors) img
  let img := put 44 (← toBytes 4 rootCluster) img
  return put 510 [0x55#8, 0xAA#8] img

/-- Where the entry of a cluster is in the FAT. -/
def entryOffset (cluster : Nat) : Nat := fatLba * 512 + cluster * 4

/-- The first entries of the FAT; the root directory has one cluster. -/
def writeFatHead (img : Nat → Byte) : Nat → Byte :=
  put (entryOffset rootCluster) [0xFF#8, 0xFF#8, 0xFF#8, 0x0F#8]
    (put (entryOffset 1) [0xFF#8, 0xFF#8, 0xFF#8, 0x0F#8]
      (put (entryOffset 0) [0xF8#8, 0xFF#8, 0xFF#8, 0x0F#8] img))

/-- The entry of cluster `i` of the file. -/
def linkCluster (clusters : Nat) (img : Nat → Byte) (i : Nat) :
    Except ImageFailure (Nat → Byte) := do
  let cl := fileCluster + i
  let nxt := if i = clusters - 1 then 0x0FFFFFFF else cl + 1
  return put (entryOffset cl) (← toBytes 4 nxt) img

/-- The root directory. -/
def writeRoot (dataLba fileSize : Nat) (img : Nat → Byte) : Except ImageFailure (Nat → Byte) := do
  let root := dataLba * 512
  let img := put root
    [0x42#8, 0x4F#8, 0x4F#8, 0x54#8, 0x20#8, 0x20#8, 0x20#8, 0x20#8, 0x42#8, 0x49#8, 0x4E#8] img
  let img := put (root + 11) [0x20#8] img
  let img := put (root + 20) (← toBytes 2 (fileCluster >>> 16)) img
  let img := put (root + 26) (← toBytes 2 (fileCluster &&& 0xFFFF)) img
  return put (root + 28) (← toBytes 4 fileSize) img

/-- The clusters of a file of this size. -/
def clustersOf (fileSize : Nat) : Nat := (fileSize + 511) / 512

/-- The image of so many sectors. -/
def buildImage (boot : List Byte) (sectors : Nat) : Except ImageFailure SdImage := do
  let fatSectors := fatSectorsOf sectors
  let dataLba := fatLba + fatSectors
  let img ← writeBootSector sectors fatSectors fun _ => 0#8
  let img := writeFatHead img
  let clusters := clustersOf boot.length
  if fatSectors * 512 / 4 < fileCluster + clusters then throw .full
  if sectors < dataLba + (fileCluster - 2) + clusters then throw .full
  let img ← (List.range clusters).foldlM (linkCluster clusters) img
  let img ← writeRoot dataLba boot.length img
  let start := (dataLba + (fileCluster - 2)) * 512
  return { sectors := sectors, bytes := put start boot img }

/-- `make_sd_image.py`. -/
def makeSdImage (boot : List Byte) (sizeMib : Int) : Except ImageFailure SdImage :=
  if sizeMib ≤ 0 then .error .size else buildImage boot (sizeMib.toNat * 1024 * 1024 / 512)

namespace SdImage

/-- A word of the file that is written. -/
def word (img : SdImage) (k : Nat) : BitVec 16 :=
  (img.bytes (2 * k)).setWidth 16 ||| ((img.bytes (2 * k + 1)).setWidth 16 <<< 8)

/-- A sector in the words. -/
def sector (img : SdImage) (lba : Nat) : Sector := fun i =>
  (img.word (256 * lba + i / 2)).extractLsb' (8 * (i % 2)) 8

end SdImage

end MelonSoc.Boot
