import Mathlib.Algebra.Ring.Nat
import Mathlib.Logic.Function.Basic

set_option autoImplicit false

/-! # The heap of the RTOS

`heap_4.c` with the configuration of `FreeRTOSConfig.h`. Addresses and sizes are numbers below
`2^32`, and sums and differences that the source does not guard wrap. The memory is what a `BlockLink_t *` to an
address finds there. `none` is a failed `configASSERT`, which loops forever, or a walk along the
free list that does not end. The hook for a failed allocation is not part of the model.
-/

namespace MelonSoc

namespace Heap4

/-- `configTOTAL_HEAP_SIZE`. -/
def configTotalHeapSize : Nat := 1024 * 1024

/-- `portBYTE_ALIGNMENT`. -/
def portByteAlignment : Nat := 16

/-- `portBYTE_ALIGNMENT_MASK`. -/
def portByteAlignmentMask : Nat := 0x000F

/-- `~portBYTE_ALIGNMENT_MASK` in 32 bits. -/
def alignedBits : Nat := 0xFFFFFFF0

/-- `xHeapStructSize`; `sizeof(BlockLink_t)` is 8. -/
def xHeapStructSize : Nat := (8 + (portByteAlignment - 1)) &&& alignedBits

/-- `heapMINIMUM_BLOCK_SIZE`. -/
def heapMinimumBlockSize : Nat := xHeapStructSize <<< 1

/-- `heapSIZE_MAX`. -/
def heapSizeMax : Nat := 0xFFFFFFFF

/-- `heapBLOCK_ALLOCATED_BITMASK`. -/
def heapBlockAllocatedBitmask : Nat := 0x80000000

/-- `heapADD_WILL_OVERFLOW`. -/
def heapAddWillOverflow (a b : Nat) : Bool := a > heapSizeMax - b

/-- `BlockLink_t`. -/
structure BlockLink where
  pxNextFreeBlock : Nat
  xBlockSize : Nat
  deriving DecidableEq

/-- `heapBLOCK_SIZE_IS_VALID`. -/
def heapBlockSizeIsValid (xBlockSize : Nat) : Bool := xBlockSize &&& heapBlockAllocatedBitmask == 0

/-- `heapBLOCK_IS_ALLOCATED`. -/
def heapBlockIsAllocated (b : BlockLink) : Bool :=
  b.xBlockSize &&& heapBlockAllocatedBitmask != 0

/-- What the linker decides: the addresses of `ucHeap` and of `xStart`, which are different
objects. -/
structure Layout where
  ucHeap : Nat
  xStart : Nat
  xStart_fits : xStart < 2 ^ 32
  ucHeap_pos : 0 < ucHeap
  ucHeap_fits : ucHeap + configTotalHeapSize < 2 ^ 32
  apart : xStart + 8 ≤ ucHeap ∨ ucHeap + configTotalHeapSize ≤ xStart

/-- The memory, as `BlockLink_t` cells. -/
abbrev Cells := Nat → BlockLink

/-- The static variables of `heap_4.c` and the memory. -/
structure Heap where
  mem : Cells
  pxEnd : Nat
  xFreeBytesRemaining : Nat
  xMinimumEverFreeBytesRemaining : Nat
  xNumberOfSuccessfulAllocations : Nat
  xNumberOfSuccessfulFrees : Nat

/-- The heap before the first allocation. -/
def Heap.reset (mem : Cells) : Heap :=
  { mem := mem, pxEnd := 0, xFreeBytesRemaining := 0, xMinimumEverFreeBytesRemaining := 0
    xNumberOfSuccessfulAllocations := 0, xNumberOfSuccessfulFrees := 0 }

/-- `p->pxNextFreeBlock = v`. -/
def setNext (p v : Nat) (mem : Cells) : Cells :=
  Function.update mem p { mem p with pxNextFreeBlock := v }

/-- `p->xBlockSize = v`. -/
def setSize (p v : Nat) (mem : Cells) : Cells :=
  Function.update mem p { mem p with xBlockSize := v }

/-- `configASSERT`. -/
def configAssert (x : Bool) : Option Unit := if x then some () else none

/-- A sum of 32 bits. -/
def add32 (a b : Nat) : Nat := (a + b) % 2 ^ 32

/-- A difference of 32 bits. -/
def sub32 (a b : Nat) : Nat := (a + (2 ^ 32 - b)) % 2 ^ 32

/-- `heapVALIDATE_BLOCK_POINTER`. -/
def heapValidateBlockPointer (L : Layout) (p : Nat) : Option Unit :=
  configAssert (L.ucHeap ≤ p && p ≤ L.ucHeap + (configTotalHeapSize - 1))

/-- More steps than the free list has blocks, each of which has more than 16 bytes. -/
def walkFuel : Nat := configTotalHeapSize / 16

/-! ## `prvHeapInit` -/

/-- `uxStartAddress`. -/
def uxStartAddress (L : Layout) : Nat :=
  if L.ucHeap &&& portByteAlignmentMask ≠ 0 then
    (L.ucHeap + (portByteAlignment - 1)) &&& alignedBits
  else L.ucHeap

/-- `uxEndAddress`. -/
def uxEndAddress (L : Layout) : Nat :=
  let xTotalHeapSize := configTotalHeapSize - (uxStartAddress L - L.ucHeap)
  (uxStartAddress L + xTotalHeapSize - xHeapStructSize) &&& alignedBits

def prvHeapInit (L : Layout) (h : Heap) : Heap :=
  let start := uxStartAddress L
  let pxEnd := uxEndAddress L
  let mem := Function.update h.mem L.xStart { pxNextFreeBlock := start, xBlockSize := 0 }
  let mem := Function.update mem pxEnd { pxNextFreeBlock := 0, xBlockSize := 0 }
  let mem := Function.update mem start { pxNextFreeBlock := pxEnd, xBlockSize := pxEnd - start }
  { h with
    mem := mem, pxEnd := pxEnd, xFreeBytesRemaining := pxEnd - start
    xMinimumEverFreeBytesRemaining := pxEnd - start }

/-! ## `pvPortMalloc` -/

/-- `xWantedSize` with the header and rounded up, 0 if that overflows. -/
def requiredSize (xWantedSize : Nat) : Nat :=
  if 0 < xWantedSize then
    if heapAddWillOverflow xWantedSize xHeapStructSize then 0
    else
      let wanted := xWantedSize + xHeapStructSize
      if wanted &&& portByteAlignmentMask ≠ 0 then
        let xAdditionalRequiredSize := portByteAlignment - (wanted &&& portByteAlignmentMask)
        if heapAddWillOverflow wanted xAdditionalRequiredSize then 0
        else wanted + xAdditionalRequiredSize
      else wanted
  else xWantedSize

/-- The walk along the free list to a block of the wanted size: `pxPreviousBlock` and `pxBlock`. -/
def findBlock (L : Layout) (mem : Cells) (wanted : Nat) : Nat → Nat → Nat → Option (Nat × Nat)
  | 0, _, _ => none
  | fuel + 1, pxPreviousBlock, pxBlock =>
      if (mem pxBlock).xBlockSize < wanted ∧ (mem pxBlock).pxNextFreeBlock ≠ 0 then do
        heapValidateBlockPointer L (mem pxBlock).pxNextFreeBlock
        findBlock L mem wanted fuel pxBlock (mem pxBlock).pxNextFreeBlock
      else some (pxPreviousBlock, pxBlock)

/-- A block that is large enough is split in two. -/
def splitBlock (wanted pxPreviousBlock pxBlock : Nat) (mem : Cells) : Option Cells :=
  let rest := (mem pxBlock).xBlockSize - wanted
  if rest > heapMinimumBlockSize then do
    let pxNewBlockLink := add32 pxBlock wanted
    configAssert (pxNewBlockLink &&& portByteAlignmentMask == 0)
    let mem := setSize pxNewBlockLink rest mem
    let mem := setSize pxBlock wanted mem
    let mem := setNext pxNewBlockLink (mem pxPreviousBlock).pxNextFreeBlock mem
    some (setNext pxPreviousBlock pxNewBlockLink mem)
  else some mem

/-- The block is taken out of the free list and handed out. -/
def takeBlock (wanted pxPreviousBlock pxBlock : Nat) (h : Heap) : Option Heap := do
  let mem := setNext pxPreviousBlock (h.mem pxBlock).pxNextFreeBlock h.mem
  configAssert (wanted ≤ (mem pxBlock).xBlockSize)
  let mem ← splitBlock wanted pxPreviousBlock pxBlock mem
  let size := (mem pxBlock).xBlockSize
  let free := sub32 h.xFreeBytesRemaining size
  let mem := setSize pxBlock (size ||| heapBlockAllocatedBitmask) mem
  some { h with
    mem := setNext pxBlock 0 mem
    xFreeBytesRemaining := free
    xMinimumEverFreeBytesRemaining :=
      if free < h.xMinimumEverFreeBytesRemaining then free
      else h.xMinimumEverFreeBytesRemaining
    xNumberOfSuccessfulAllocations := add32 h.xNumberOfSuccessfulAllocations 1 }

/-- `pvReturn` and the heap after the call. -/
def pvPortMalloc (L : Layout) (xWantedSize : Nat) (h : Heap) : Option (Nat × Heap) :=
  let wanted := requiredSize xWantedSize
  let h := if h.pxEnd = 0 then prvHeapInit L h else h
  if heapBlockSizeIsValid wanted ∧ 0 < wanted ∧ wanted ≤ h.xFreeBytesRemaining then do
    let pxFirst := (h.mem L.xStart).pxNextFreeBlock
    heapValidateBlockPointer L pxFirst
    let (pxPreviousBlock, pxBlock) ← findBlock L h.mem wanted walkFuel L.xStart pxFirst
    if pxBlock ≠ h.pxEnd then do
      let pvReturn := add32 (h.mem pxPreviousBlock).pxNextFreeBlock xHeapStructSize
      heapValidateBlockPointer L pvReturn
      let h ← takeBlock wanted pxPreviousBlock pxBlock h
      configAssert (pvReturn &&& portByteAlignmentMask == 0)
      some (pvReturn, h)
    else some (0, h)
  else some (0, h)

/-! ## `vPortFree` -/

/-- The block of the free list behind which `pxBlockToInsert` belongs. -/
def insertionPoint (mem : Cells) (pxBlockToInsert : Nat) : Nat → Nat → Option Nat
  | 0, _ => none
  | fuel + 1, pxIterator =>
      if (mem pxIterator).pxNextFreeBlock < pxBlockToInsert then
        insertionPoint mem pxBlockToInsert fuel (mem pxIterator).pxNextFreeBlock
      else some pxIterator

/-- The block is merged with the one in front of it, if they touch: the memory and the block. -/
def mergeBefore (pxIterator pxBlockToInsert : Nat) (mem : Cells) : Cells × Nat :=
  if add32 pxIterator (mem pxIterator).xBlockSize = pxBlockToInsert then
    (setSize pxIterator (add32 (mem pxIterator).xBlockSize (mem pxBlockToInsert).xBlockSize) mem,
      pxIterator)
  else (mem, pxBlockToInsert)

/-- The block is merged with the one behind it, if they touch, and linked to what follows. -/
def mergeBehind (pxEnd pxIterator pxBlockToInsert : Nat) (mem : Cells) : Cells :=
  let next := (mem pxIterator).pxNextFreeBlock
  if add32 pxBlockToInsert (mem pxBlockToInsert).xBlockSize = next then
    if next ≠ pxEnd then
      let mem := setSize pxBlockToInsert
        (add32 (mem pxBlockToInsert).xBlockSize (mem next).xBlockSize) mem
      setNext pxBlockToInsert (mem (mem pxIterator).pxNextFreeBlock).pxNextFreeBlock mem
    else setNext pxBlockToInsert pxEnd mem
  else setNext pxBlockToInsert next mem

def prvInsertBlockIntoFreeList (L : Layout) (pxEnd pxBlockToInsert : Nat) (mem : Cells) :
    Option Cells := do
  let pxIterator ← insertionPoint mem pxBlockToInsert walkFuel L.xStart
  if pxIterator ≠ L.xStart then heapValidateBlockPointer L pxIterator
  let merged := mergeBefore pxIterator pxBlockToInsert mem
  let mem := mergeBehind pxEnd pxIterator merged.2 merged.1
  some (if pxIterator ≠ merged.2 then setNext pxIterator merged.2 mem else mem)

def vPortFree (L : Layout) (pv : Nat) (h : Heap) : Option Heap :=
  if pv ≠ 0 then do
    let pxLink := sub32 pv xHeapStructSize
    heapValidateBlockPointer L pxLink
    configAssert (heapBlockIsAllocated (h.mem pxLink))
    configAssert ((h.mem pxLink).pxNextFreeBlock == 0)
    let size := (h.mem pxLink).xBlockSize &&& (heapSizeMax - heapBlockAllocatedBitmask)
    let mem ← prvInsertBlockIntoFreeList L h.pxEnd pxLink (setSize pxLink size h.mem)
    some { h with
      mem := mem
      xFreeBytesRemaining := add32 h.xFreeBytesRemaining size
      xNumberOfSuccessfulFrees := add32 h.xNumberOfSuccessfulFrees 1 }
  else some h

end Heap4

end MelonSoc
