import Mathlib.Algebra.Ring.Nat
import MelonSoc.Lib.Rings
import MelonSoc.Lib.Wheel

set_option autoImplicit false

/-! # The lists of the RTOS

`list.c`, with the inline versions of `list.h`. Items and lists are the objects that the pointers
of the source lead to, and every field is a function of the pointer; the owner of an item is the
item itself. `none` is a walk that does not end or a null pointer.
-/

namespace MelonSoc

namespace FreeRtos

/-- A `ListItem_t *`: to an item or to the end marker of a list. -/
inductive ItemPtr (ι κ : Type)
  | item (i : ι)
  | xListEnd (l : κ)
  deriving DecidableEq

/-- The fields of all items and lists. -/
structure Lists (ι κ : Type) where
  xItemValue : ItemPtr ι κ → Nat
  pxNext : ItemPtr ι κ → ItemPtr ι κ
  pxPrevious : ItemPtr ι κ → ItemPtr ι κ
  pxContainer : ι → Option κ
  uxNumberOfItems : κ → Nat
  pxIndex : κ → ItemPtr ι κ

/-- `portMAX_DELAY`. -/
def portMaxDelay : Nat := 0xffffffff

/-- A sum of 32 bits. -/
def add32 (a b : Nat) : Nat := (a + b) % 2 ^ 32

/-- A difference of 32 bits. -/
def sub32 (a b : Nat) : Nat := (a + (2 ^ 32 - b)) % 2 ^ 32

variable {ι κ : Type}

namespace Lists

/-- `listGET_OWNER_OF_HEAD_ENTRY`. -/
def listGetOwnerOfHeadEntry (pxList : κ) (m : Lists ι κ) : Option ι :=
  match m.pxNext (.xListEnd pxList) with
  | .item i => some i
  | .xListEnd _ => none

/-- `listGET_ITEM_VALUE_OF_HEAD_ENTRY`. -/
def listGetItemValueOfHeadEntry (pxList : κ) (m : Lists ι κ) : Nat :=
  m.xItemValue (m.pxNext (.xListEnd pxList))

/-- `listLIST_IS_EMPTY`. -/
def listListIsEmpty (pxList : κ) (m : Lists ι κ) : Bool := m.uxNumberOfItems pxList == 0

/-- The loop of `vListInsert`. -/
def insertionPoint (m : Lists ι κ) (xValueOfInsertion : Nat) :
    Nat → ItemPtr ι κ → Option (ItemPtr ι κ)
  | 0, _ => none
  | fuel + 1, pxIterator =>
      if m.xItemValue (m.pxNext pxIterator) ≤ xValueOfInsertion then
        insertionPoint m xValueOfInsertion fuel (m.pxNext pxIterator)
      else some pxIterator

/-- `pxIterator` of `vListInsert`: the node behind which the item goes. -/
def insertionIterator (pxList : κ) (pxNewListItem : ι) (m : Lists ι κ) : Option (ItemPtr ι κ) :=
  let xValueOfInsertion := m.xItemValue (.item pxNewListItem)
  if xValueOfInsertion = portMaxDelay then some (m.pxPrevious (.xListEnd pxList))
  else insertionPoint m xValueOfInsertion (m.uxNumberOfItems pxList + 1) (.xListEnd pxList)

variable [DecidableEq ι] [DecidableEq κ]

/-- `p->pxNext = q`. -/
def setNext (p q : ItemPtr ι κ) (m : Lists ι κ) : Lists ι κ :=
  { m with pxNext := Function.update m.pxNext p q }

/-- `p->pxPrevious = q`. -/
def setPrevious (p q : ItemPtr ι κ) (m : Lists ι κ) : Lists ι κ :=
  { m with pxPrevious := Function.update m.pxPrevious p q }

/-- `listSET_LIST_ITEM_VALUE`. -/
def listSetListItemValue (i : ι) (xValue : Nat) (m : Lists ι κ) : Lists ι κ :=
  { m with xItemValue := Function.update m.xItemValue (.item i) xValue }

def vListInitialise (pxList : κ) (m : Lists ι κ) : Lists ι κ :=
  { m with
    pxIndex := Function.update m.pxIndex pxList (.xListEnd pxList)
    xItemValue := Function.update m.xItemValue (.xListEnd pxList) portMaxDelay
    pxNext := Function.update m.pxNext (.xListEnd pxList) (.xListEnd pxList)
    pxPrevious := Function.update m.pxPrevious (.xListEnd pxList) (.xListEnd pxList)
    uxNumberOfItems := Function.update m.uxNumberOfItems pxList 0 }

def vListInitialiseItem (pxItem : ι) (m : Lists ι κ) : Lists ι κ :=
  { m with pxContainer := Function.update m.pxContainer pxItem none }

/-- The item remembers its list, which counts it. -/
def enter (pxList : κ) (pxNewListItem : ι) (m : Lists ι κ) : Lists ι κ :=
  { m with
    pxContainer := Function.update m.pxContainer pxNewListItem (some pxList)
    uxNumberOfItems :=
      Function.update m.uxNumberOfItems pxList (add32 (m.uxNumberOfItems pxList) 1) }

/-- `vListInsertEnd` and `listINSERT_END`. -/
def vListInsertEnd (pxList : κ) (pxNewListItem : ι) (m : Lists ι κ) : Lists ι κ :=
  let pxIndex := m.pxIndex pxList
  let m := setNext (.item pxNewListItem) pxIndex m
  let m := setPrevious (.item pxNewListItem) (m.pxPrevious pxIndex) m
  let m := setNext (m.pxPrevious pxIndex) (.item pxNewListItem) m
  let m := setPrevious pxIndex (.item pxNewListItem) m
  enter pxList pxNewListItem m

def vListInsert (pxList : κ) (pxNewListItem : ι) (m : Lists ι κ) : Option (Lists ι κ) := do
  let pxIterator ← insertionIterator pxList pxNewListItem m
  let m := setNext (.item pxNewListItem) (m.pxNext pxIterator) m
  let m := setPrevious (m.pxNext (.item pxNewListItem)) (.item pxNewListItem) m
  let m := setPrevious (.item pxNewListItem) pxIterator m
  let m := setNext pxIterator (.item pxNewListItem) m
  some (enter pxList pxNewListItem m)

/-- `uxListRemove` and `listREMOVE_ITEM`. -/
def uxListRemove (pxItemToRemove : ι) (m : Lists ι κ) : Option (Nat × Lists ι κ) := do
  let pxList ← m.pxContainer pxItemToRemove
  let x := ItemPtr.item pxItemToRemove
  let m := setPrevious (m.pxNext x) (m.pxPrevious x) m
  let m := setNext (m.pxPrevious x) (m.pxNext x) m
  let pxIndex := if m.pxIndex pxList = x then m.pxPrevious x else m.pxIndex pxList
  let uxNumberOfItems := sub32 (m.uxNumberOfItems pxList) 1
  some (uxNumberOfItems, { m with
    pxIndex := Function.update m.pxIndex pxList pxIndex
    pxContainer := Function.update m.pxContainer pxItemToRemove none
    uxNumberOfItems := Function.update m.uxNumberOfItems pxList uxNumberOfItems })

/-- `listGET_OWNER_OF_NEXT_ENTRY`. -/
def listGetOwnerOfNextEntry (pxList : κ) (m : Lists ι κ) : Option (ι × Lists ι κ) :=
  let pxIndex := m.pxNext (m.pxIndex pxList)
  let pxIndex := if pxIndex = .xListEnd pxList then m.pxNext (.xListEnd pxList) else pxIndex
  match pxIndex with
  | .item i => some (i, { m with pxIndex := Function.update m.pxIndex pxList pxIndex })
  | .xListEnd _ => none

end Lists

end FreeRtos

end MelonSoc
