import MelonSoc.Ddr.Lines
import MelonSoc.Lib.Rv32Run
import MelonSoc.Rtl.Soc

set_option autoImplicit false

/-! # Byte lanes

Memory is made of words. A store replicates its value over the lanes and marks the lanes that are
meant, the memory replaces these, and a load picks its lanes out of the word it gets. Here words
are read as bytes, and the three together are the loads and stores of the instruction set on a
memory of bytes.
-/

namespace MelonSoc

/-- The lane of a byte address in its word. -/
def laneOf (x : Word) : Nat := (x.extractLsb' 0 2).toNat

/-- The byte in lane `k` of a word. -/
def laneByte (w : Word) (k : Nat) : BitVec 8 := w.extractLsb' (8 * k) 8

/-- A memory that gives the word around each address, read byte by byte. -/
def byteAt (words : Word → Word) (x : Word) : BitVec 8 := laneByte (words x) (laneOf x)

/-! ## Addresses -/

theorem laneOf_eq (x : Word) : laneOf x = x.toNat % 4 := by
  simp [laneOf]

theorem laneOf_lt (x : Word) : laneOf x < 4 := (x.extractLsb' 0 2).isLt

theorem wordOf_toNat (x : Word) : (wordOf x).toNat = x.toNat / 4 := by
  have hx : x.toNat < 2 ^ 32 := x.isLt
  rw [wordOf, BitVec.extractLsb'_toNat, Nat.shiftRight_eq_div_pow]
  omega

theorem wordOf_eq_iff {x y : Word} : wordOf x = wordOf y ↔ x.toNat / 4 = y.toNat / 4 := by
  rw [← BitVec.toNat_inj, wordOf_toNat, wordOf_toNat]

/-- An aligned access of up to four bytes stays in its word. -/
theorem sub_lt_iff {a x : Word} {n : Nat} (hn : n = 1 ∨ n = 2 ∨ n = 4) (ha : a.toNat % n = 0) :
    (x - a).toNat < n ↔ wordOf x = wordOf a ∧ laneOf a ≤ laneOf x ∧ laneOf x < laneOf a + n := by
  have hx : x.toNat < 2 ^ 32 := x.isLt
  have ha' : a.toNat < 2 ^ 32 := a.isLt
  rw [wordOf_eq_iff, laneOf_eq, laneOf_eq, BitVec.toNat_sub]
  rcases hn with rfl | rfl | rfl <;> omega

theorem sub_eq_lanes {a x : Word} (hw : wordOf x = wordOf a) (hl : laneOf a ≤ laneOf x) :
    (x - a).toNat = laneOf x - laneOf a := by
  have hx : x.toNat < 2 ^ 32 := x.isLt
  have ha : a.toNat < 2 ^ 32 := a.isLt
  rw [wordOf_eq_iff] at hw
  rw [laneOf_eq, laneOf_eq] at *
  rw [BitVec.toNat_sub]
  omega

/-! ## Lanes of a word -/

theorem laneByte_append (b3 b2 b1 b0 : BitVec 8) :
    laneByte (b3 ++ b2 ++ b1 ++ b0) 0 = b0 ∧ laneByte (b3 ++ b2 ++ b1 ++ b0) 1 = b1 ∧
      laneByte (b3 ++ b2 ++ b1 ++ b0) 2 = b2 ∧ laneByte (b3 ++ b2 ++ b1 ++ b0) 3 = b3 := by
  refine ⟨BitVec.extractLsb'_append_eq_right, ?_, ?_, ?_⟩
  · rw [laneByte, BitVec.extractLsb'_append_eq_of_le (by decide)]
    exact BitVec.extractLsb'_append_eq_right
  · rw [laneByte, BitVec.extractLsb'_append_eq_of_le (by decide),
      BitVec.extractLsb'_append_eq_of_le (by decide)]
    exact BitVec.extractLsb'_append_eq_right
  · rw [laneByte, BitVec.extractLsb'_append_eq_of_le (by decide),
      BitVec.extractLsb'_append_eq_of_le (by decide)]
    exact BitVec.extractLsb'_append_eq_left

/-- The four lanes make up the word. -/
theorem lanes_append (w : Word) :
    laneByte w 3 ++ laneByte w 2 ++ laneByte w 1 ++ laneByte w 0 = w := by
  simp only [laneByte]
  rw [BitVec.extractLsb'_append_extractLsb'_eq_extractLsb' (show 8 * 3 = 8 * 2 + 8 from rfl),
    BitVec.extractLsb'_append_extractLsb'_eq_extractLsb' (show 8 * 2 = 8 * 1 + (8) from rfl),
    BitVec.extractLsb'_append_extractLsb'_eq_extractLsb' (show 8 * 1 = 8 * 0 + 8 from rfl)]
  exact BitVec.extractLsb'_eq_self

/-- The byte-enabled write replaces the lanes it is told to. -/
theorem laneByte_mergeBytes (old w : Word) (sel : BitVec 4) {k : Nat} (hk : k < 4) :
    laneByte (mergeBytes old w sel) k
      = if sel.getLsbD k then laneByte w k else laneByte old k := by
  obtain ⟨h0, h1, h2, h3⟩ := laneByte_append
    (if sel.getLsbD 3 then laneByte w 3 else laneByte old 3)
    (if sel.getLsbD 2 then laneByte w 2 else laneByte old 2)
    (if sel.getLsbD 1 then laneByte w 1 else laneByte old 1)
    (if sel.getLsbD 0 then laneByte w 0 else laneByte old 0)
  have hcases : k = 0 ∨ k = 1 ∨ k = 2 ∨ k = 3 := by omega
  rcases hcases with rfl | rfl | rfl | rfl
  · exact h0
  · exact h1
  · exact h2
  · exact h3

/-! ## Stores -/

theorem getLsbD_lane (a : Word) :
    a.getLsbD 0 = decide (laneOf a % 2 = 1) ∧ a.getLsbD 1 = decide (2 ≤ laneOf a) := by
  have h : ∀ l : BitVec 2, l.getLsbD 0 = decide (l.toNat % 2 = 1) ∧
      l.getLsbD 1 = decide (2 ≤ l.toNat) := by decide
  have hbit : ∀ k, k < 2 → (a.extractLsb' 0 2).getLsbD k = a.getLsbD k := by
    intro k hk
    simp [hk]
  rw [← hbit 0 (by decide), ← hbit 1 (by decide)]
  exact h (a.extractLsb' 0 2)

section Store

variable {e : IdEx} {op : Rv32.StoreOp} {a v : Word} {k : Nat}

/-- The mask has the lanes of the access. -/
theorem exStoreMask_lane (hs : e.isStore = true) (hf : e.funct3 = op.funct3)
    (ha : laneOf a % op.bytes = 0) (hk : k < 4) :
    (e.exStoreMask a).getLsbD k = decide (laneOf a ≤ k ∧ k < laneOf a + op.bytes) := by
  obtain ⟨h0, h1⟩ := getLsbD_lane a
  have hlt := laneOf_lt a
  simp only [IdEx.exStoreMask, hs, hf, h0, h1]
  generalize laneOf a = l at *
  have hl : l = 0 ∨ l = 1 ∨ l = 2 ∨ l = 3 := by omega
  have hk' : k = 0 ∨ k = 1 ∨ k = 2 ∨ k = 3 := by omega
  cases op <;> simp only [Rv32.StoreOp.bytes] at ha ⊢ <;>
    rcases hl with rfl | rfl | rfl | rfl <;> first | omega | rcases hk' with rfl | rfl | rfl | rfl <;> rfl

/-- In these lanes stand the bytes of the value. -/
theorem exStoreWdata_lane (hs : e.isStore = true) (ha : laneOf a % op.bytes = 0)
    (hk : laneOf a ≤ k ∧ k < laneOf a + op.bytes) :
    laneByte (e.exStoreWdata a v) k = v.extractLsb' (8 * (k - laneOf a)) 8 := by
  obtain ⟨h0, h1⟩ := getLsbD_lane a
  have hlt := laneOf_lt a
  simp only [IdEx.exStoreWdata, hs, h0, h1, if_true]
  obtain ⟨b0, b1, b2, b3⟩ := laneByte_append
    (if decide (laneOf a % 2 = 1) = true then v.extractLsb' 0 8
      else if decide (2 ≤ laneOf a) = true then v.extractLsb' 8 8 else v.extractLsb' 24 8)
    (if decide (2 ≤ laneOf a) = true then v.extractLsb' 0 8 else v.extractLsb' 16 8)
    (if decide (laneOf a % 2 = 1) = true then v.extractLsb' 0 8 else v.extractLsb' 8 8)
    (v.extractLsb' 0 8)
  generalize laneOf a = l at *
  have hl : l = 0 ∨ l = 1 ∨ l = 2 ∨ l = 3 := by omega
  have hk' : k = 0 ∨ k = 1 ∨ k = 2 ∨ k = 3 := by
    cases op <;> simp only [Rv32.StoreOp.bytes] at ha hk <;> omega
  -- what is left are the lanes inside the access, each of them one of the four bytes
  cases op <;> simp only [Rv32.StoreOp.bytes] at ha hk <;>
    rcases hl with rfl | rfl | rfl | rfl <;> rcases hk' with rfl | rfl | rfl | rfl <;>
    first | omega | exact b0 | exact b1 | exact b2 | exact b3

/-- **Stores.** The word around `x` after the byte-enabled write is the word that the store leaves
there. -/
theorem byteAt_store (words words' : Word → Word) {x : Word} (hs : e.isStore = true)
    (hf : e.funct3 = op.funct3) (ha : op.aligned a = true)
    (hx : words' x = if wordOf x = wordOf a then
      mergeBytes (words a) (e.exStoreWdata a v) (e.exStoreMask a) else words x)
    (hsame : wordOf x = wordOf a → words x = words a) :
    byteAt words' x = op.write a v (byteAt words) x := by
  have hn : op.bytes = 1 ∨ op.bytes = 2 ∨ op.bytes = 4 := by cases op <;> decide
  have hmod : a.toNat % op.bytes = 0 := by simpa [Rv32.StoreOp.aligned] using ha
  have hlane : laneOf a % op.bytes = 0 := by
    rw [laneOf_eq]
    rcases hn with h | h | h <;> rw [h] at hmod ⊢ <;> omega
  have hlt := laneOf_lt x
  rw [Rv32.StoreOp.write, byteAt, hx]
  by_cases hw : wordOf x = wordOf a
  · rw [if_pos hw, laneByte_mergeBytes _ _ _ hlt, exStoreMask_lane hs hf hlane hlt]
    by_cases hk : laneOf a ≤ laneOf x ∧ laneOf x < laneOf a + op.bytes
    · rw [if_pos (decide_eq_true hk), exStoreWdata_lane hs hlane hk,
        if_pos ((sub_lt_iff hn hmod).mpr ⟨hw, hk⟩), sub_eq_lanes hw hk.1]
    · rw [if_neg (by simpa using hk), if_neg fun h => hk ((sub_lt_iff hn hmod).mp h).2, byteAt,
        hsame hw]
  · rw [if_neg hw, if_neg fun h => hw ((sub_lt_iff hn hmod).mp h).1]
    rfl

end Store

/-! ## Loads -/

/-- The addresses of a word. -/
theorem addr_of_lane {a b : Word} {k : Nat} (hb : b = a + BitVec.ofNat 32 k)
    (hk : laneOf a + k < 4) : wordOf b = wordOf a ∧ laneOf b = laneOf a + k := by
  have ha : a.toNat < 2 ^ 32 := a.isLt
  subst hb
  rw [wordOf_eq_iff, laneOf_eq, laneOf_eq, BitVec.toNat_add, BitVec.toNat_ofNat]
  rw [laneOf_eq] at hk
  omega

theorem sign_append {m n : Nat} (b : BitVec n) :
    (if b.msb then BitVec.allOnes m else 0#m) ++ b = b.signExtend (m + n) := by
  ext i hi
  rw [BitVec.getElem_append, BitVec.getElem_signExtend]
  by_cases hn : i < n
  · simp [hn]
  · cases b.msb <;> simp [hn]

theorem zero_append {m n : Nat} (b : BitVec n) : 0#m ++ b = b.setWidth (m + n) := by
  ext i hi
  rw [BitVec.getElem_append, BitVec.getElem_setWidth]
  by_cases hn : i < n
  · simp [hn]
  · simp [hn, BitVec.getLsbD_of_ge b i (by omega)]

/-- The halves of a word are made of lanes. -/
theorem half_lanes (w : Word) :
    w.extractLsb' 0 16 = laneByte w 1 ++ laneByte w 0 ∧
      w.extractLsb' 16 16 = laneByte w 3 ++ laneByte w 2 :=
  ⟨(BitVec.extractLsb'_append_extractLsb'_eq_extractLsb' (show 8 * 1 = 8 * 0 + 8 from rfl)).symm,
    (BitVec.extractLsb'_append_extractLsb'_eq_extractLsb' (show 8 * 3 = 8 * 2 + 8 from rfl)).symm⟩

/-- The half that a load selects. -/
def loadHalf (word : Word) (addrLow : BitVec 2) : BitVec 16 :=
  if addrLow.getLsbD 1 then word.extractLsb' 16 16 else word.extractLsb' 0 16

/-- The byte that a load selects. -/
def loadByte (word : Word) (addrLow : BitVec 2) : BitVec 8 :=
  if addrLow.getLsbD 0 then (loadHalf word addrLow).extractLsb' 8 8
  else (loadHalf word addrLow).extractLsb' 0 8

/-- `format_load_data`, load by load. -/
theorem formatLoadData_op (op : Rv32.LoadOp) (word : Word) (l : BitVec 2) :
    formatLoadData word op.funct3 l =
      match op with
      | .lb => (loadByte word l).signExtend 32
      | .lh => (loadHalf word l).signExtend 32
      | .lw => word
      | .lbu => (loadByte word l).setWidth 32
      | .lhu => (loadHalf word l).setWidth 32 := by
  have h8 : (loadByte word l).msb = (loadByte word l).getLsbD 7 := by
    simp [BitVec.msb_eq_getLsbD_last]
  have h16 : (loadHalf word l).msb = (loadHalf word l).getLsbD 15 := by
    simp [BitVec.msb_eq_getLsbD_last]
  cases op with
  | lb =>
      have h := sign_append (m := 24) (loadByte word l)
      rw [h8] at h
      exact h
  | lh =>
      have h := sign_append (m := 16) (loadHalf word l)
      rw [h16] at h
      exact h
  | lw => rfl
  | lbu => exact zero_append (m := 24) (loadByte word l)
  | lhu => exact zero_append (m := 16) (loadHalf word l)

theorem loadHalf_lanes {w a : Word} (ha : laneOf a % 2 = 0) :
    loadHalf w (a.extractLsb' 0 2) = laneByte w (laneOf a + 1) ++ laneByte w (laneOf a) := by
  obtain ⟨h0, h1⟩ := half_lanes w
  rw [loadHalf, h0, h1]
  have h : ∀ l : BitVec 2, l.toNat % 2 = 0 → l = 0#2 ∨ l = 2#2 := by decide
  rw [laneOf] at ha ⊢
  rcases h _ ha with hl | hl <;> rw [hl] <;> rfl

theorem loadByte_lane (w a : Word) : loadByte w (a.extractLsb' 0 2) = laneByte w (laneOf a) := by
  obtain ⟨h0, h1⟩ := half_lanes w
  rw [loadByte, loadHalf, h0, h1, laneOf]
  have h : ∀ l : BitVec 2, l = 0#2 ∨ l = 1#2 ∨ l = 2#2 ∨ l = 3#2 := by decide
  rcases h (a.extractLsb' 0 2) with hl | hl | hl | hl <;> rw [hl]
  · exact BitVec.extractLsb'_append_eq_right
  · exact BitVec.extractLsb'_append_eq_left
  · exact BitVec.extractLsb'_append_eq_right
  · exact BitVec.extractLsb'_append_eq_left

/-- **Loads.** `format_load_data` on the word around `a` is the load of the instruction set. -/
theorem formatLoadData_eq {op : Rv32.LoadOp} {words : Word → Word} {a : Word}
    (ha : op.aligned a = true) (hsame : ∀ x, wordOf x = wordOf a → words x = words a) :
    formatLoadData (words a) op.funct3 (a.extractLsb' 0 2) = op.value (byteAt words) a := by
  have hbyte : ∀ k, laneOf a + k < 4 →
      byteAt words (a + BitVec.ofNat 32 k) = laneByte (words a) (laneOf a + k) := by
    intro k hk
    obtain ⟨hw, hl⟩ := addr_of_lane (a := a) rfl hk
    rw [byteAt, hsame _ hw, hl]
  have hlt := laneOf_lt a
  have h0 : byteAt words a = laneByte (words a) (laneOf a) := rfl
  have hhalf : a.toNat % 2 = 0 →
      (byteAt words (a + 1#32) ++ byteAt words a : BitVec 16)
        = loadHalf (words a) (a.extractLsb' 0 2) := by
    intro heven
    have hl : laneOf a % 2 = 0 := by
      rw [laneOf_eq]
      omega
    have h1 : byteAt words (a + 1#32) = laneByte (words a) (laneOf a + 1) := hbyte 1 (by omega)
    rw [loadHalf_lanes hl, h0, h1]
  rw [formatLoadData_op]
  cases op with
  | lb => rw [Rv32.LoadOp.value, h0, loadByte_lane]
  | lbu => rw [Rv32.LoadOp.value, h0, loadByte_lane]
  | lh => rw [Rv32.LoadOp.value, hhalf (by simpa [Rv32.LoadOp.aligned] using ha)]
  | lhu => rw [Rv32.LoadOp.value, hhalf (by simpa [Rv32.LoadOp.aligned] using ha)]
  | lw =>
      have hzero : laneOf a = 0 := by
        rw [laneOf_eq]
        simpa [Rv32.LoadOp.aligned] using ha
      rw [hzero] at hbyte h0
      have h1 : byteAt words (a + 1#32) = laneByte (words a) 1 := hbyte 1 (by decide)
      have h2 : byteAt words (a + 2#32) = laneByte (words a) 2 := hbyte 2 (by decide)
      have h3 : byteAt words (a + 3#32) = laneByte (words a) 3 := hbyte 3 (by decide)
      rw [Rv32.LoadOp.value, h0, h1, h2, h3]
      exact (lanes_append (words a)).symm

/-! ## The two memories -/

/-- The words of the data RAM, as a read returns them. -/
def ramWords (ram : BitVec 12 → Word) (x : Word) : Word := ram (dataramIndex x)

/-- The data RAM after a store, `mem.sv`. -/
def ramStore (ram : BitVec 12 → Word) (a wdata : Word) (mask : BitVec 4) : BitVec 12 → Word :=
  Function.update ram (dataramIndex a) (mergeBytes (ram (dataramIndex a)) wdata mask)

theorem memNext_dataram (i : SocIn) (s : Soc) :
    (s.memNext i).dataram =
      if s.ramStrobe && s.dataReq.we then
        ramStore s.mem.dataram s.dataReq.adr s.dataReq.datW s.dataReq.sel
      else s.mem.dataram := rfl

/-- The words of DDR, as the bridge returns them. -/
def lineWords (lines : Lines) (x : Word) : Word := lineWord (lines (lineOf x)) (wordSel x)

/-- DDR after a store: the line is read, merged and put back. -/
def lineStore (lines : Lines) (a wdata : Word) (mask : BitVec 4) : Lines :=
  Function.update lines (lineOf a) (mergeWord (lines (lineOf a)) (wordSel a) wdata mask)

/-- In the region the words after the store are the old ones, but for the word around `a`, which
has been merged. -/
structure Stored (region : Word → Bool) (words words' : Word → Word) (a wdata : Word)
    (mask : BitVec 4) : Prop where
  step : ∀ x, region x = true →
    words' x = if wordOf x = wordOf a then mergeBytes (words a) wdata mask else words x
  same : ∀ x y, region x = true → wordOf x = wordOf y → words x = words y
  closed : ∀ x y, region x = true → wordOf x = wordOf y → region y = true

theorem dataramIndex_iff {x y : Word} (hx : isDataramRegion x = true)
    (hy : isDataramRegion y = true) : dataramIndex x = dataramIndex y ↔ wordOf x = wordOf y := by
  rw [isDataramRegion_iff] at hx hy
  rw [wordOf_eq_iff, ← BitVec.toNat_inj]
  simp only [dataramIndex, BitVec.extractLsb'_toNat, Nat.shiftRight_eq_div_pow]
  omega

theorem dataram_closed {x y : Word} (hx : isDataramRegion x = true) (h : wordOf x = wordOf y) :
    isDataramRegion y = true := by
  rw [isDataramRegion_iff] at *
  rw [wordOf_eq_iff] at h
  omega

theorem ddr_closed {x y : Word} (hx : isDdrRegion x = true) (h : wordOf x = wordOf y) :
    isDdrRegion y = true := by
  rw [isDdrRegion_iff] at *
  rw [wordOf_eq_iff] at h
  omega

theorem ram_stored (ram : BitVec 12 → Word) {a wdata : Word} {mask : BitVec 4}
    (ha : isDataramRegion a = true) :
    Stored isDataramRegion (ramWords ram) (ramWords (ramStore ram a wdata mask)) a wdata mask where
  step := by
    intro x hx
    rw [ramWords, ramStore, Function.update_apply, ramWords, ramWords]
    simp only [dataramIndex_iff hx ha]
  same := by
    intro x y hx h
    rw [ramWords, ramWords, (dataramIndex_iff hx (dataram_closed hx h)).mpr h]
  closed := fun _ _ => dataram_closed

/-- Where the bridge finds the word of an address. -/
theorem line_iff {x y : Word} (hx : isDdrRegion x = true) (hy : isDdrRegion y = true) :
    (lineOf x = lineOf y ∧ wordSel x = wordSel y) ↔ wordOf x = wordOf y := by
  rw [isDdrRegion_iff] at hx hy
  rw [wordOf_eq_iff, ← BitVec.toNat_inj, ← BitVec.toNat_inj]
  simp only [lineOf, wordSel, BitVec.extractLsb'_toNat, Nat.shiftRight_eq_div_pow]
  omega

/-- The byte in lane `k` of a word of a line. -/
theorem laneByte_lineWord (line : Line) (wi : BitVec 2) {k : Nat} (hk : k < 4) :
    laneByte (lineWord line wi) k = line.extractLsb' (8 * (4 * wi.toNat + k)) 8 := by
  rw [laneByte, lineWord, Rv32.extract_extract _ (by omega)]
  congr 1
  omega

/-- `merge_word` on the words of a line. -/
theorem lineWord_mergeWord (line : Line) (wi wi' : BitVec 2) (w : Word) (sel : BitVec 4) :
    lineWord (mergeWord line wi w sel) wi'
      = if wi' = wi then mergeBytes (lineWord line wi) w sel else lineWord line wi' := by
  have hlane : ∀ k, k < 4 → laneByte (lineWord (mergeWord line wi w sel) wi') k
      = laneByte (if wi' = wi then mergeBytes (lineWord line wi) w sel else lineWord line wi') k := by
    intro k hk
    have hj : (BitVec.ofNat 4 (4 * wi'.toNat + k)).toNat = 4 * wi'.toNat + k := by
      have := wi'.isLt
      rw [BitVec.toNat_ofNat]
      omega
    have hhigh : (BitVec.ofNat 4 (4 * wi'.toNat + k)).extractLsb' 2 2 = wi' := by
      apply BitVec.eq_of_toNat_eq
      have := wi'.isLt
      rw [BitVec.extractLsb'_toNat, hj, Nat.shiftRight_eq_div_pow]
      omega
    have hlow : ((BitVec.ofNat 4 (4 * wi'.toNat + k)).extractLsb' 0 2).toNat = k := by
      rw [BitVec.extractLsb'_toNat, hj, Nat.shiftRight_eq_div_pow]
      omega
    rw [laneByte_lineWord _ _ hk, ← hj, mergeWord_byte, hhigh, hlow, hj]
    by_cases hw : wi' = wi
    · subst hw
      simp only [true_and, if_true]
      rw [laneByte_mergeBytes _ _ _ hk, laneByte_lineWord _ _ hk]
      rfl
    · rw [if_neg hw, if_neg fun h => hw h.1, laneByte_lineWord _ _ hk]
  rw [← lanes_append (lineWord (mergeWord line wi w sel) wi'), hlane 0 (by decide),
    hlane 1 (by decide), hlane 2 (by decide), hlane 3 (by decide), lanes_append]

theorem line_stored (lines : Lines) {a wdata : Word} {mask : BitVec 4}
    (ha : isDdrRegion a = true) :
    Stored isDdrRegion (lineWords lines) (lineWords (lineStore lines a wdata mask)) a wdata
      mask where
  step := by
    intro x hx
    rw [lineWords, lineStore, Function.update_apply]
    simp only [← line_iff hx ha]
    by_cases hl : lineOf x = lineOf a
    · rw [if_pos hl, lineWord_mergeWord]
      simp only [lineWords, hl, true_and]
    · rw [if_neg hl, if_neg fun h => hl h.1]
      rfl
  same := by
    intro x y hx h
    obtain ⟨h1, h2⟩ := (line_iff hx (ddr_closed hx h)).mpr h
    rw [lineWords, lineWords, h1, h2]
  closed := fun _ _ => ddr_closed

/-! ## Round trips -/

/-- A memory behind a store of `v` at `a`: what each of its bytes is, what each load returns. -/
structure RoundTrip (region : Word → Bool) (words words' : Word → Word) (op : Rv32.StoreOp)
    (a v : Word) : Prop where
  /-- The load of the same width at the same address. -/
  same : ∀ lop : Rv32.LoadOp, lop.bytes = op.bytes →
    formatLoadData (words' a) lop.funct3 (a.extractLsb' 0 2) = lop.extend v
  /-- Every other load sees the bytes of the store over the old ones. -/
  load : ∀ (lop : Rv32.LoadOp) (b : Word), region b = true → lop.aligned b = true →
    formatLoadData (words' b) lop.funct3 (b.extractLsb' 0 2)
      = lop.value (op.write a v (byteAt words)) b
  /-- The bytes that are not stored to. -/
  others : ∀ x, region x = true → op.bytes ≤ (x - a).toNat → byteAt words' x = byteAt words x

/-- An aligned load stays in its word. -/
theorem lane_of_aligned {lop : Rv32.LoadOp} {b : Word} {k : Nat} (hb : lop.aligned b = true)
    (hk : k < lop.bytes) : laneOf b + k < 4 := by
  have hlt := laneOf_lt b
  rw [laneOf_eq] at *
  cases lop <;> simp [Rv32.LoadOp.aligned, Rv32.LoadOp.bytes] at hb hk <;> omega

theorem Stored.roundTrip {region : Word → Bool} {words words' : Word → Word} {e : IdEx}
    {op : Rv32.StoreOp} {a v : Word} (hs : e.isStore = true) (hf : e.funct3 = op.funct3)
    (hal : op.aligned a = true) (hra : region a = true)
    (h : Stored region words words' a (e.exStoreWdata a v) (e.exStoreMask a)) :
    RoundTrip region words words' op a v := by
  have hbytes : ∀ x, region x = true →
      byteAt words' x = op.write a v (byteAt words) x := by
    intro x hx
    exact byteAt_store _ _ hs hf hal (h.step x hx) (fun hw => h.same x a hx hw)
  have hload : ∀ (lop : Rv32.LoadOp) (b : Word), region b = true → lop.aligned b = true →
      formatLoadData (words' b) lop.funct3 (b.extractLsb' 0 2)
        = lop.value (op.write a v (byteAt words)) b := by
    intro lop b hb halb
    have hsame : ∀ x, wordOf x = wordOf b → words' x = words' b := by
      intro x hw
      have hx : region x = true := h.closed b x hb hw.symm
      rw [h.step x hx, h.step b hb, hw, h.same x b hx hw]
    rw [formatLoadData_eq halb hsame]
    refine lop.value_congr fun k hk => hbytes _ ?_
    exact h.closed b _ hb (addr_of_lane rfl (lane_of_aligned halb hk)).1.symm
  refine ⟨fun lop hw => ?_, hload, fun x hx hout => ?_⟩
  · have hala : lop.aligned a = true := by
      cases lop <;> cases op <;> simp_all [Rv32.LoadOp.aligned, Rv32.StoreOp.aligned,
        Rv32.LoadOp.bytes, Rv32.StoreOp.bytes]
    rw [hload lop a hra hala]
    exact lop.value_write_same op hw a v _
  · rw [hbytes x hx, Rv32.StoreOp.write, if_neg (Nat.not_lt.mpr hout)]

/-- **Lanes.** A store followed by any load, through the lanes of the core and either memory, is
the store and the load of the instruction set. -/
theorem lanes_round_trip (e : IdEx) (op : Rv32.StoreOp) (hs : e.isStore = true)
    (hf : e.funct3 = op.funct3) (a v : Word) (hal : op.aligned a = true) :
    (isDataramRegion a = true → ∀ ram, RoundTrip isDataramRegion (ramWords ram)
      (ramWords (ramStore ram a (e.exStoreWdata a v) (e.exStoreMask a))) op a v) ∧
    (isDdrRegion a = true → ∀ lines, RoundTrip isDdrRegion (lineWords lines)
      (lineWords (lineStore lines a (e.exStoreWdata a v) (e.exStoreMask a))) op a v) :=
  ⟨fun ha ram => (ram_stored ram ha).roundTrip hs hf hal ha,
    fun ha lines => (line_stored lines ha).roundTrip hs hf hal ha⟩

/-- `sh` at the upper half of the first word of the data RAM. -/
theorem lanes_round_trip_sh :
    RoundTrip isDataramRegion (ramWords fun _ => 0#32)
      (ramWords (ramStore (fun _ => 0#32) 0x10002#32
        (IdEx.exStoreWdata { IdEx.reset with isStore := true, funct3 := 1#3 } 0x10002#32 0x8081#32)
        (IdEx.exStoreMask { IdEx.reset with isStore := true, funct3 := 1#3 } 0x10002#32)))
      .sh 0x10002#32 0x8081#32 :=
  (lanes_round_trip { IdEx.reset with isStore := true, funct3 := 1#3 } .sh rfl rfl 0x10002#32
    0x8081#32 (by decide)).1 (by decide) _

end MelonSoc
