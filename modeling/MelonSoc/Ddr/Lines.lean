import MelonSoc.Lib.BitFields
import MelonSoc.Rtl.DdrBridge
import Mathlib.Logic.Function.Basic

set_option autoImplicit false

/-! # DDR as a memory of bytes

What the bridge is for: a memory with a byte at every address. The controller stores lines of 16
bytes; `bytesOf` reads them as bytes, and the two functions of the bridge that touch a line,
`mergeWord` and `lineWord`, are the write and the read of the byte memory. Of a bus address the
bridge uses the low 29 bits, which tell the addresses of the DDR region apart.
-/

namespace MelonSoc

/-- A byte for each of the addresses that the bridge distinguishes. -/
abbrev ByteMem := BitVec 29 → BitVec 8

namespace ByteMem

/-- The four bytes of the word at a bus address. -/
def word (m : ByteMem) (addr : Word) : Word :=
  let byte (k : BitVec 2) : BitVec 8 := m (addr.extractLsb' 2 27 ++ k)
  byte 3#2 ++ byte 2#2 ++ byte 1#2 ++ byte 0#2

/-- The selected bytes of the addressed word are replaced, and no others. -/
def write (r : BridgeReq) (m : ByteMem) : ByteMem := fun a =>
  if a.extractLsb' 2 27 = r.addr.extractLsb' 2 27 ∧
      r.sel.getLsbD (a.extractLsb' 0 2).toNat = true then
    r.datW.extractLsb' (8 * (a.extractLsb' 0 2).toNat) 8
  else m a

/-- The memory after a request. -/
def apply (r : BridgeReq) (m : ByteMem) : ByteMem := if r.we then m.write r else m

/-- The memory after the requests of a list, the newest of which comes first. -/
def after (m : ByteMem) (rs : List BridgeReq) : ByteMem := rs.foldr apply m

end ByteMem

/-- The lines of DDR, by the upper 25 bits of the 28-bit address of the controller. -/
abbrev Lines := BitVec 25 → Line

/-- The line that a bus address falls into. -/
def lineOf (addr : Word) : BitVec 25 := addr.extractLsb' 4 25

theorem appLineAddr_line (addr : Word) : (appLineAddr addr).extractLsb' 3 25 = lineOf addr := by
  apply BitVec.eq_of_getLsbD_eq
  intro k hk
  simp only [appLineAddr, lineOf, BitVec.getLsbD_extractLsb', BitVec.getLsbD_append]
  grind

/-- The lines read byte by byte. -/
def bytesOf (lines : Lines) : ByteMem := fun a =>
  (lines (a.extractLsb' 4 25)).extractLsb' (8 * (a.extractLsb' 0 4).toNat) 8

/-! ## Bytes of a line -/

theorem putByte_eq (line : Line) (k : Nat) (b : BitVec 8) :
    putByte line k b = BitFields.put line (8 * k) b := by
  have hmask : 0xFF#128 = (BitVec.allOnes 8).setWidth 128 := by decide
  rw [putByte, BitFields.put, hmask]

/-- `putByte` changes one byte. -/
theorem putByte_byte (line : Line) (k j : Nat) (b : BitVec 8) (hj : j < 16) :
    (putByte line k b).extractLsb' (8 * j) 8
      = if j = k then b else line.extractLsb' (8 * j) 8 := by
  rw [putByte_eq]
  exact BitFields.put_field line k j b (by omega)

/-- `mergeWord` changes the selected bytes of one word. -/
theorem mergeWord_byte (line : Line) (wi : BitVec 2) (w : Word) (sel : BitVec 4) (j : BitVec 4) :
    (mergeWord line wi w sel).extractLsb' (8 * j.toNat) 8 =
      if j.extractLsb' 2 2 = wi ∧ sel.getLsbD (j.extractLsb' 0 2).toNat = true then
        w.extractLsb' (8 * (j.extractLsb' 0 2).toNat) 8
      else line.extractLsb' (8 * j.toNat) 8 := by
  have hj : j.toNat < 16 := j.isLt
  have hsplit : j.toNat = 4 * (j.extractLsb' 2 2).toNat + (j.extractLsb' 0 2).toNat := by
    simp only [BitVec.extractLsb'_toNat, Nat.shiftRight_eq_div_pow]
    omega
  have hlow : (j.extractLsb' 0 2).toNat < 4 := (j.extractLsb' 0 2).isLt
  have hword : j.extractLsb' 2 2 = wi ↔ (j.extractLsb' 2 2).toNat = wi.toNat :=
    BitVec.toNat_inj.symm
  have hstep : ∀ (m : Line) (i : Nat),
      (if sel.getLsbD i then putByte m (4 * wi.toNat + i) (w.extractLsb' (8 * i) 8)
        else m).extractLsb' (8 * j.toNat) 8 =
      if sel.getLsbD i = true ∧ j.toNat = 4 * wi.toNat + i then w.extractLsb' (8 * i) 8
      else m.extractLsb' (8 * j.toNat) 8 := by
    intro m i
    by_cases hs : sel.getLsbD i = true
    · rw [if_pos hs, putByte_byte _ _ _ _ hj]
      simp only [hs, true_and]
    · rw [if_neg hs, if_neg (fun h => hs h.1)]
  simp only [mergeWord, hstep, hword]
  generalize (j.extractLsb' 0 2).toNat = q at hsplit hlow
  generalize (j.extractLsb' 2 2).toNat = p at hsplit
  -- only the step of the byte itself matters
  have hhit : ∀ i, i < 4 → (j.toNat = 4 * wi.toNat + i ↔ p = wi.toNat ∧ q = i) := by
    intro i hi
    omega
  simp only [hhit 3 (by decide), hhit 2 (by decide), hhit 1 (by decide), hhit 0 (by decide)]
  by_cases hp : p = wi.toNat
  · have hq : q = 0 ∨ q = 1 ∨ q = 2 ∨ q = 3 := by omega
    rcases hq with rfl | rfl | rfl | rfl <;> simp [hp]
  · simp [hp]

/-! ## The bridge's functions on bytes -/

/-- A write of the bridge: the line read, merged and put back. -/
theorem bytesOf_write (lines : Lines) (r : BridgeReq) :
    bytesOf (Function.update lines (lineOf r.addr)
        (mergeWord (lines (lineOf r.addr)) (wordSel r.addr) r.datW r.sel))
      = (bytesOf lines).write r := by
  funext a
  have hlow : (a.extractLsb' 0 4).extractLsb' 0 2 = a.extractLsb' 0 2 := by
    apply BitVec.eq_of_getLsbD_eq
    intro k hk
    simp only [BitVec.getLsbD_extractLsb']
    grind
  have hsame : a.extractLsb' 2 27 = r.addr.extractLsb' 2 27 ↔
      a.extractLsb' 4 25 = lineOf r.addr ∧
        (a.extractLsb' 0 4).extractLsb' 2 2 = wordSel r.addr := by
    simp only [lineOf, wordSel, ← BitVec.toNat_inj, BitVec.extractLsb'_toNat,
      Nat.shiftRight_eq_div_pow]
    omega
  simp only [bytesOf, ByteMem.write, hsame]
  by_cases hl : a.extractLsb' 4 25 = lineOf r.addr
  · rw [hl, Function.update_self, mergeWord_byte, hlow]
    simp only [true_and]
  · simp [hl]

/-- A read of the bridge. -/
theorem lineWord_word (lines : Lines) (addr : Word) :
    lineWord (lines (lineOf addr)) (wordSel addr) = (bytesOf lines).word addr := by
  have hbyte : ∀ k : BitVec 2, bytesOf lines (addr.extractLsb' 2 27 ++ k)
      = (lines (lineOf addr)).extractLsb' (8 * (4 * (wordSel addr).toNat + k.toNat)) 8 := by
    intro k
    have hline : (addr.extractLsb' 2 27 ++ k : BitVec 29).extractLsb' 4 25 = lineOf addr := by
      apply BitVec.eq_of_getLsbD_eq
      intro n hn
      simp only [lineOf, BitVec.getLsbD_extractLsb', BitVec.getLsbD_append]
      grind
    have hlow : ((addr.extractLsb' 2 27 ++ k : BitVec 29).extractLsb' 0 4).toNat
        = 4 * (wordSel addr).toNat + k.toNat := by
      have hk : k.toNat < 2 ^ 2 := k.isLt
      have happ : (addr.extractLsb' 2 27 ++ k : BitVec 29).toNat
          = (addr.extractLsb' 2 27).toNat * 4 + k.toNat := by
        show (addr.extractLsb' 2 27 ++ k : BitVec (27 + 2)).toNat = _
        rw [BitVec.toNat_append, ← Nat.shiftLeft_add_eq_or_of_lt hk, Nat.shiftLeft_eq]
      rw [BitVec.extractLsb'_toNat, happ]
      simp only [wordSel, BitVec.extractLsb'_toNat, Nat.shiftRight_eq_div_pow]
      omega
    rw [bytesOf, hline, hlow]
  simp only [ByteMem.word, hbyte, lineWord]
  generalize lines (lineOf addr) = line
  generalize (wordSel addr).toNat = wi
  apply BitVec.eq_of_getLsbD_eq
  intro n hn
  simp only [BitVec.getLsbD_extractLsb', BitVec.getLsbD_append, BitVec.toNat_ofNat]
  grind

end MelonSoc
