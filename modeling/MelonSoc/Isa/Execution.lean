import MelonSoc.Isa.Decoder
import MelonSoc.Isa.Lanes
import MelonSoc.Pipeline.Division

set_option autoImplicit false

/-! # Execution of single instructions

What the functions of EX, the byte lanes and `format_load_data` make of an instruction that has
been decoded is what the instruction set says it does.
-/

namespace MelonSoc

/-- The aligned word around an address. -/
def wordAround (m : Word → BitVec 8) (a : Word) : Word :=
  m (alignWord a + 3#32) ++ m (alignWord a + 2#32) ++ m (alignWord a + 1#32) ++ m (alignWord a)

namespace Core

/-- What the instruction in EX does to the registers, the program counter and the memory, by the
functions of EX and the lanes of memory, when no stall, no trap of another kind and no failed
translation comes in between. -/
def exOutcome (s : Core) (st : Rv32.State) : Rv32.Outcome :=
  let e := s.idEx
  let rs1 := st.get e.rs1
  let rs2 := st.get e.rs2
  let addr := e.exAddr rs1
  let word := wordAround st.mem addr
  if e.illegal then .trap 2#32 e.illegalValue
  else if e.exMisaligned addr then .trap (if e.isLoad || e.isLR then 4#32 else 6#32) addr
  else if e.isEBREAK then .trap 3#32 0#32
  else
    let value := if e.isLoad then formatLoadData word e.funct3 (addr.extractLsb' 0 2)
      else e.exWriteValue rs1 rs2 0#32 s.div
    let written := if e.exWriteEn s.div.resultValid then st.set e.rd value else st
    .next { written with
      pc := (s.exJump rs1 rs2).getD (e.pc + e.len)
      mem := if e.isStore then fun x =>
          if wordOf x = wordOf addr then
            laneByte (mergeBytes word (e.exStoreWdata addr rs2) (e.exStoreMask addr)) (laneOf x)
          else st.mem x
        else st.mem }

/-- The core with the instruction of ID in EX. -/
def issued (s : Core) : Core := { s with idEx := s.idExOfId }

end Core

/-! ## Fields of the formats -/

section Formats

variable (rs2 rs1 : BitVec 5) (f3 : BitVec 3) (rd : BitVec 5) (op : BitVec 7)

@[simp] theorem rs1Of_formI (imm : BitVec 12) : rs1Of (Rv32.formI imm rs1 f3 rd op) = rs1 :=
  rs1Of_form _ _ _ _ _ _

@[simp] theorem funct3Of_formI (imm : BitVec 12) : funct3Of (Rv32.formI imm rs1 f3 rd op) = f3 :=
  funct3Of_form _ _ _ _ _ _

@[simp] theorem rdOf_formI (imm : BitVec 12) : rdOf (Rv32.formI imm rs1 f3 rd op) = rd :=
  rdOf_form _ _ _ _ _ _

@[simp] theorem rs1Of_formS (imm : BitVec 12) : rs1Of (Rv32.formS imm rs2 rs1 f3 op) = rs1 :=
  rs1Of_form _ _ _ _ _ _

@[simp] theorem rs2Of_formS (imm : BitVec 12) : rs2Of (Rv32.formS imm rs2 rs1 f3 op) = rs2 :=
  rs2Of_form _ _ _ _ _ _

@[simp] theorem funct3Of_formS (imm : BitVec 12) : funct3Of (Rv32.formS imm rs2 rs1 f3 op) = f3 :=
  funct3Of_form _ _ _ _ _ _

@[simp] theorem rs1Of_formB (imm : BitVec 12) : rs1Of (Rv32.formB imm rs2 rs1 f3 op) = rs1 :=
  rs1Of_form _ _ _ _ _ _

@[simp] theorem rs2Of_formB (imm : BitVec 12) : rs2Of (Rv32.formB imm rs2 rs1 f3 op) = rs2 :=
  rs2Of_form _ _ _ _ _ _

@[simp] theorem funct3Of_formB (imm : BitVec 12) : funct3Of (Rv32.formB imm rs2 rs1 f3 op) = f3 :=
  funct3Of_form _ _ _ _ _ _

@[simp] theorem rdOf_formU (imm : BitVec 20) : rdOf (Rv32.formU imm rd op) = rd :=
  rdOf_form _ _ _ _ _ _

@[simp] theorem rdOf_formJ (imm : BitVec 20) : rdOf (Rv32.formJ imm rd op) = rd :=
  rdOf_form _ _ _ _ _ _

end Formats

/-! ## Immediates -/

section Immediates

variable (rs2 rs1 : BitVec 5) (f3 : BitVec 3) (rd : BitVec 5) (op : BitVec 7)

@[simp] theorem iimmOf_formI (imm : BitVec 12) :
    iimmOf (Rv32.formI imm rs1 f3 rd op) = imm.signExtend 32 := by
  rw [iimmOf, Rv32.formI, Rv32.form_imm, Rv32.split_imm]

@[simp] theorem simmOf_formS (imm : BitVec 12) :
    simmOf (Rv32.formS imm rs2 rs1 f3 op) = imm.signExtend 32 := by
  rw [simmOf, Rv32.formS, Rv32.form_f7, Rv32.form_rd, Rv32.split_imm]

theorem formU_high (imm : BitVec 20) : (Rv32.formU imm rd op).extractLsb' 12 20 = imm := by
  ext i hi
  simp [Rv32.formU, Rv32.form]
  grind

@[simp] theorem uimmOf_formU (imm : BitVec 20) : uimmOf (Rv32.formU imm rd op) = imm ++ 0#12 := by
  rw [uimmOf, formU_high]

@[simp] theorem bimmOf_formB (offset : BitVec 12) :
    bimmOf (Rv32.formB offset rs2 rs1 f3 op) = Rv32.branchOffset offset := by
  have h31 : (Rv32.formB offset rs2 rs1 f3 op).extractLsb' 31 1 = offset.extractLsb' 11 1 := by
    rw [Rv32.formB, Rv32.form_in_f7 _ _ _ _ _ _ (by decide)]
    exact BitVec.extractLsb'_append_eq_left
  have h7 : (Rv32.formB offset rs2 rs1 f3 op).extractLsb' 7 1 = offset.extractLsb' 10 1 := by
    rw [Rv32.formB, Rv32.form_in_rd _ _ _ _ _ _ (by decide) (by decide)]
    exact BitVec.extractLsb'_append_eq_right
  have h25 : (Rv32.formB offset rs2 rs1 f3 op).extractLsb' 25 6 = offset.extractLsb' 4 6 := by
    rw [Rv32.formB, Rv32.form_in_f7 _ _ _ _ _ _ (by decide)]
    exact BitVec.extractLsb'_append_eq_right
  have h8 : (Rv32.formB offset rs2 rs1 f3 op).extractLsb' 8 4 = offset.extractLsb' 0 4 := by
    rw [Rv32.formB, Rv32.form_in_rd _ _ _ _ _ _ (by decide) (by decide)]
    exact BitVec.extractLsb'_append_eq_left
  rw [bimmOf, h31, h7, h25, h8,
    BitVec.extractLsb'_append_extractLsb'_eq_extractLsb' (show 11 = 10 + 1 from rfl),
    BitVec.extractLsb'_append_extractLsb'_eq_extractLsb' (show 10 = 4 + 6 from rfl),
    BitVec.extractLsb'_append_extractLsb'_eq_extractLsb' (show 4 = 0 + 4 from rfl),
    BitVec.extractLsb'_eq_self, Rv32.signExtend_append_zero]
  rfl

@[simp] theorem jimmOf_formJ (offset : BitVec 20) :
    jimmOf (Rv32.formJ offset rd op) = Rv32.jumpOffset offset := by
  -- the fields of the offset are fields of the upper 20 bits
  have hfield : ∀ start len, start + len ≤ 20 →
      (Rv32.formJ offset rd op).extractLsb' (12 + start) len
      = (offset.extractLsb' 19 1 ++ offset.extractLsb' 0 10 ++ offset.extractLsb' 10 1 ++
        offset.extractLsb' 11 8 : BitVec 20).extractLsb' start len := by
    intro start len h
    rw [Rv32.formJ, ← Rv32.extract_extract _ h, formU_high]
  have h19 := hfield 19 1 (by decide)
  have h0 := hfield 0 8 (by decide)
  have h8 := hfield 8 1 (by decide)
  have h9 := hfield 9 10 (by decide)
  rw [BitVec.extractLsb'_append_eq_of_le (by decide),
    BitVec.extractLsb'_append_eq_of_le (by decide),
    BitVec.extractLsb'_append_eq_left] at h19
  rw [BitVec.extractLsb'_append_eq_right] at h0
  rw [BitVec.extractLsb'_append_eq_of_le (by decide), BitVec.extractLsb'_append_eq_right] at h8
  rw [BitVec.extractLsb'_append_eq_of_le (by decide),
    BitVec.extractLsb'_append_eq_of_le (by decide),
    BitVec.extractLsb'_append_eq_right] at h9
  rw [jimmOf, h19, h0, h8, h9,
    BitVec.extractLsb'_append_extractLsb'_eq_extractLsb' (show 19 = 11 + 8 from rfl),
    BitVec.extractLsb'_append_extractLsb'_eq_extractLsb' (show 11 = 10 + 1 from rfl),
    BitVec.extractLsb'_append_extractLsb'_eq_extractLsb' (show 10 = 0 + 10 from rfl),
    BitVec.extractLsb'_eq_self, Rv32.signExtend_append_zero]
  rfl

end Immediates

/-! ## The operations of EX -/

/-- `arithmetic_shift_right`. -/
theorem arithmeticShiftRight_eq (a : Word) (n : BitVec 5) :
    arithmeticShiftRight a n = a.sshiftRight n.toNat := by
  have hmsb : a.msb = a.getLsbD 31 := by simp [BitVec.msb_eq_getLsbD_last]
  have hones : (0xFFFFFFFF#32) = BitVec.allOnes 32 := by decide
  apply BitVec.eq_of_getLsbD_eq
  intro k hk
  rw [arithmeticShiftRight, BitVec.getLsbD_sshiftRight, hmsb, hones]
  simp only [BitVec.getLsbD_or, BitVec.getLsbD_and, BitVec.getLsbD_not, BitVec.getLsbD_ushiftRight,
    BitVec.getLsbD_allOnes]
  by_cases h : n.toNat + k < 32
  · cases a.getLsbD 31 <;> simp [h, Nat.not_le_of_lt hk]
  · have hout : a.getLsbD (n.toNat + k) = false := BitVec.getLsbD_of_ge _ _ (by omega)
    cases a.getLsbD 31
    · simp [h, hout]
    · simp only [if_true, BitVec.getLsbD_allOnes]
      simp [h, hout, hk]

/-- A shift takes its amount from the lowest five bits. -/
theorem shamt_toNat (b : Word) : (b.extractLsb' 0 5).toNat = b.toNat % 32 := by
  rw [BitVec.extractLsb'_toNat, Nat.shiftRight_zero]

theorem high_half (z : Int) :
    (BitVec.ofInt 64 z).extractLsb' 32 32 = BitVec.ofInt 32 (z / 2 ^ 32) := by
  apply BitVec.eq_of_toNat_eq
  rw [BitVec.extractLsb'_toNat, BitVec.toNat_ofInt, BitVec.toNat_ofInt, Nat.shiftRight_eq_div_pow]
  omega

theorem low_half (z : Int) : (BitVec.ofInt 64 z).extractLsb' 0 32 = BitVec.ofInt 32 z := by
  apply BitVec.eq_of_toNat_eq
  rw [BitVec.extractLsb'_toNat, BitVec.toNat_ofInt, BitVec.toNat_ofInt, Nat.shiftRight_eq_div_pow]
  omega

theorem setWidth_ofInt (a : Word) : a.setWidth 64 = BitVec.ofInt 64 a.toNat := by
  have ha := a.isLt
  apply BitVec.eq_of_toNat_eq
  rw [BitVec.toNat_setWidth, BitVec.toNat_ofInt]
  omega

/-- The operand of a multiplication as an integer, up to a multiple of `2 ^ 32`. -/
theorem ofInt_mul_toInt (a b : Word) :
    BitVec.ofInt 32 ((a.toNat : Int) * b.toNat) = BitVec.ofInt 32 (a.toInt * b.toInt) := by
  rw [BitVec.ofInt_mul, BitVec.ofInt_mul, BitVec.ofInt_toInt, BitVec.ofInt_toInt,
    BitVec.ofInt_natCast, BitVec.ofInt_natCast, BitVec.ofNat_toNat, BitVec.ofNat_toNat]
  simp

section Operations

variable {e : IdEx} (a b : Word)

theorem exMul_eq (op : Rv32.MulOp) (hf : e.funct3 = op.funct3) : e.exMul a b = op.value a b := by
  have hs : ∀ x : Word, x.signExtend 64 = BitVec.ofInt 64 x.toInt := fun _ => rfl
  have hexMul : e.exMul a b =
      if op.funct3 == 0b000#3 then (a.setWidth 64 * b.setWidth 64).extractLsb' 0 32
      else if op.funct3 == 0b001#3 then (a.signExtend 64 * b.signExtend 64).extractLsb' 32 32
      else if op.funct3 == 0b010#3 then (a.signExtend 64 * b.setWidth 64).extractLsb' 32 32
      else (a.setWidth 64 * b.setWidth 64).extractLsb' 32 32 := by
    rw [← hf]
    rfl
  rw [hexMul, hs, hs, setWidth_ofInt, setWidth_ofInt, ← BitVec.ofInt_mul, ← BitVec.ofInt_mul,
    ← BitVec.ofInt_mul, low_half, high_half, high_half, high_half]
  cases op with
  | mul => exact ofInt_mul_toInt a b
  | mulh => rfl
  | mulhsu => rfl
  | mulhu =>
      rw [Rv32.MulOp.value, ← BitVec.ofInt_natCast]
      rfl

theorem exTakeBranch_eq (op : Rv32.BranchOp) (hf : e.funct3 = op.funct3) :
    e.exTakeBranch a b = op.taken a b := by
  have hslt : ∀ x y : Word, x.slt y = decide (x.toInt < y.toInt) := fun _ _ => rfl
  rw [IdEx.exTakeBranch, hf]
  cases op with
  | beq => rfl
  | bne => rfl
  | blt => rfl
  | bge =>
      rw [Bool.eq_iff_iff]
      simp [Rv32.BranchOp.funct3, Rv32.BranchOp.taken, hslt]
  | bltu => rfl
  | bgeu =>
      rw [Bool.eq_iff_iff]
      simp [Rv32.BranchOp.funct3, Rv32.BranchOp.taken, BitVec.lt_def]

theorem exAluOut_imm (op : Rv32.ImmOp) (hr : e.isALUreg = false) (hf : e.funct3 = op.funct3) :
    e.exAluOut a b = op.value a e.iimm := by
  rw [IdEx.exAluOut, IdEx.exAluIn2, hr, hf]
  cases op with
  | addi => rfl
  | slti => simp [Rv32.ImmOp.funct3, Rv32.ImmOp.value, BitVec.slt]
  | sltiu => rfl
  | xori => rfl
  | ori => rfl
  | andi => rfl

theorem exAluOut_shift (op : Rv32.ShiftOp) (hr : e.isALUreg = false) (hf : e.funct3 = op.funct3)
    (h7 : e.funct7 = op.funct7) : e.exAluOut a b = op.value a (e.instr.extractLsb' 20 5) := by
  rw [IdEx.exAluOut, hr, hf, h7]
  cases op with
  | slli => rfl
  | srli => rfl
  | srai => exact arithmeticShiftRight_eq a _

theorem exAluOut_reg (op : Rv32.RegOp) (hr : e.isALUreg = true) (hf : e.funct3 = op.funct3)
    (h7 : e.funct7 = op.funct7) : e.exAluOut a b = op.value a b := by
  rw [IdEx.exAluOut, IdEx.exAluIn2, hr, hf, h7]
  cases op with
  | add => rfl
  | sub => rfl
  | sll => exact congrArg (a <<< ·) (shamt_toNat b)
  | slt => simp [Rv32.RegOp.funct3, Rv32.RegOp.value, BitVec.slt]
  | sltu => rfl
  | xor => rfl
  | srl => exact congrArg (a >>> ·) (shamt_toNat b)
  | sra =>
      rw [Rv32.RegOp.value, ← shamt_toNat b]
      exact arithmeticShiftRight_eq a _
  | or => rfl
  | and => rfl

end Operations
variable {e : IdEx} (a : Word)

/-! ## The instruction in EX -/

/-- ID holds the legal word `w` at the program counter of `st`. -/
structure InId (s : Core) (w : Word) (st : Rv32.State) : Prop where
  valid : s.id.valid = true
  legal : s.id.illegal = false
  instr : s.id.instr = w
  pc : s.id.pc = st.pc

/-- The instruction in EX is valid and has raised the flags `fs` and no others. -/
structure Flagged (e : IdEx) (fs : List DecodeFlag) : Prop where
  valid : e.valid = true
  legal : e.illegal = false
  flags : ∀ f, e.toDecoded.raises f = decide (f ∈ fs)

theorem InId.flagged {s : Core} {i : Rv32.Instr} {st : Rv32.State}
    (h : InId s (Rv32.encode i) st) (hi : ¬ FenceIFields (Rv32.encode i)) :
    Flagged s.issued.idEx (flagsOf i) := by
  obtain ⟨hill, hfl⟩ := decodes_encode i hi
  have hd : s.decoded = decode true false (Rv32.encode i) := by
    rw [Core.decoded, h.valid, h.legal, h.instr]
  refine ⟨h.valid, ?_, fun f => ?_⟩
  · show s.decoded.illegal = false
    rw [hd, hill]
  · rw [← hfl f, ← hd]
    have hill' : s.decoded.illegal = false := by rw [hd, hill]
    cases f <;> simp [Core.issued, Core.idExOfId, Decoded.raises, hill']


/-- The flags one by one. -/
theorem Flagged.fields {fs : List DecodeFlag} (h : Flagged e fs) :
    e.isALUreg = decide (.isALUreg ∈ fs) ∧ e.isALUimm = decide (.isALUimm ∈ fs) ∧
    e.isBranch = decide (.isBranch ∈ fs) ∧ e.isJALR = decide (.isJALR ∈ fs) ∧
    e.isJAL = decide (.isJAL ∈ fs) ∧ e.isAUIPC = decide (.isAUIPC ∈ fs) ∧
    e.isLUI = decide (.isLUI ∈ fs) ∧ e.isLoad = decide (.isLoad ∈ fs) ∧
    e.isStore = decide (.isStore ∈ fs) ∧ e.isCSRRW = decide (.isCSRRW ∈ fs) ∧
    e.isCSRRS = decide (.isCSRRS ∈ fs) ∧ e.isCSRRC = decide (.isCSRRC ∈ fs) ∧
    e.isSFENCE = decide (.isSFENCE ∈ fs) ∧ e.isEBREAK = decide (.isEBREAK ∈ fs) ∧
    e.isMUL = decide (.isMUL ∈ fs) ∧ e.isDIV = decide (.isDIV ∈ fs) ∧
    e.isAtomic = decide (.isAtomic ∈ fs) ∧ e.isLR = decide (.isLR ∈ fs) :=
  ⟨h.flags .isALUreg, h.flags .isALUimm, h.flags .isBranch, h.flags .isJALR, h.flags .isJAL,
    h.flags .isAUIPC, h.flags .isLUI, h.flags .isLoad, h.flags .isStore, h.flags .isCSRRW,
    h.flags .isCSRRS, h.flags .isCSRRC, h.flags .isSFENCE, h.flags .isEBREAK, h.flags .isMUL,
    h.flags .isDIV, h.flags .isAtomic, h.flags .isLR⟩


/-! ## Words of a memory of bytes -/

theorem alignWord_add_lane {a : Word} {k : Nat} (h : laneOf a = k) :
    alignWord a + BitVec.ofNat 32 k = a := by
  have ha : a.toNat < 2 ^ 32 := a.isLt
  have hal := alignWord_toNat a
  rw [laneOf_eq] at h
  apply BitVec.eq_of_toNat_eq
  rw [BitVec.toNat_add, BitVec.toNat_ofNat]
  omega

/-- The words of a memory of bytes are made of its bytes. -/
theorem byteAt_wordAround (m : Word → BitVec 8) : byteAt (wordAround m) = m := by
  funext x
  obtain ⟨h0, h1, h2, h3⟩ := laneByte_append (m (alignWord x + 3#32)) (m (alignWord x + 2#32))
    (m (alignWord x + 1#32)) (m (alignWord x))
  have hlt := laneOf_lt x
  have hk : laneOf x = 0 ∨ laneOf x = 1 ∨ laneOf x = 2 ∨ laneOf x = 3 := by omega
  rw [byteAt, wordAround]
  rcases hk with hk | hk | hk | hk
  · rw [hk, h0]
    exact congrArg m (by simpa using alignWord_add_lane hk)
  · rw [hk, h1]
    exact congrArg m (alignWord_add_lane hk)
  · rw [hk, h2]
    exact congrArg m (alignWord_add_lane hk)
  · rw [hk, h3]
    exact congrArg m (alignWord_add_lane hk)

theorem wordAround_congr (m : Word → BitVec 8) {a b : Word} (h : wordOf a = wordOf b) :
    wordAround m a = wordAround m b := by
  have hal : alignWord a = alignWord b := congrArg (· ++ 0#2) h
  rw [wordAround, wordAround, hal]

/-- The lanes of a store make it the store of the instruction set. -/
theorem laneByte_store {op : Rv32.StoreOp} {v : Word} (hs : e.isStore = true)
    (hf : e.funct3 = op.funct3) (ha : op.aligned a = true) (m : Word → BitVec 8) (x : Word) :
    (if wordOf x = wordOf a then
      laneByte (mergeBytes (wordAround m a) (e.exStoreWdata a v) (e.exStoreMask a)) (laneOf x)
      else m x) = op.write a v m x := by
  have hst := byteAt_store (wordAround m)
    (fun y => if wordOf y = wordOf a then
      mergeBytes (wordAround m a) (e.exStoreWdata a v) (e.exStoreMask a) else wordAround m y)
    (x := x) (v := v) hs hf ha rfl (wordAround_congr m)
  rw [byteAt_wordAround] at hst
  rw [← hst, byteAt, apply_ite (fun w => laneByte w (laneOf x))]
  exact congrArg _ (congrFun (byteAt_wordAround m) x).symm

/-- The two lowest bits of an address and its alignment. -/
theorem low_bits (a : Word) :
    (a.extractLsb' 0 2 != 0b00#2) = !(a.toNat % 4 == 0) ∧ a.getLsbD 0 = !(a.toNat % 2 == 0) := by
  have hl := laneOf_eq a
  have h : ∀ l : BitVec 2, (l != 0b00#2) = !(l.toNat == 0) := by decide
  constructor
  · rw [h, ← hl]
    rfl
  · rw [(getLsbD_lane a).1, hl, Bool.eq_iff_iff]
    simp

theorem exMisaligned_load {op : Rv32.LoadOp} (h : Flagged e [.isLoad])
    (hf : e.funct3 = op.funct3) : e.exMisaligned a = !op.aligned a := by
  obtain ⟨h4, h2⟩ := low_bits a
  rw [IdEx.exMisaligned, h4, h2, hf]
  cases op <;>
    simp [h.fields, h.valid, Rv32.LoadOp.funct3, Rv32.LoadOp.aligned, Bool.beq_eq_decide_eq]

theorem exMisaligned_store {op : Rv32.StoreOp} (h : Flagged e [.isStore])
    (hf : e.funct3 = op.funct3) : e.exMisaligned a = !op.aligned a := by
  obtain ⟨h4, h2⟩ := low_bits a
  rw [IdEx.exMisaligned, h4, h2, hf]
  cases op <;>
    simp [h.fields, h.valid, Rv32.StoreOp.funct3, Rv32.StoreOp.aligned, Rv32.StoreOp.bytes,
      Nat.mod_one]

/-- The value of an operation on registers or an immediate. -/
theorem Flagged.exWriteValue_alu {f : DecodeFlag} (h : Flagged e [f])
    (hf : f = .isALUimm ∨ f = .isALUreg) (rs1 rs2 csr : Word) (div : Divider) :
    e.exWriteValue rs1 rs2 csr div = e.exAluOut rs1 rs2 := by
  rcases hf with rfl | rfl <;> simp [IdEx.exWriteValue, h.fields, h.valid]

section Outcome

variable {s : Core} {st : Rv32.State}

/-- An instruction that computes a value from its operands. -/
theorem Flagged.outcome_value {f : DecodeFlag} (h : Flagged s.idEx [f])
    (hf : f = .isLUI ∨ f = .isAUIPC ∨ f = .isALUimm ∨ f = .isALUreg ∨ f = .isMUL) :
    s.exOutcome st = .next { st.set s.idEx.rd
      (s.idEx.exWriteValue (st.get s.idEx.rs1) (st.get s.idEx.rs2) 0#32 s.div) with
      pc := s.idEx.pc + s.idEx.len } := by
  rcases hf with rfl | rfl | rfl | rfl | rfl <;>
    simp [Core.exOutcome, IdEx.exMisaligned, IdEx.exWriteEn, Core.exJump, h.fields, h.valid,
      h.legal]

theorem Flagged.outcome_branch (h : Flagged s.idEx [.isBranch]) :
    s.exOutcome st = .next { st with
      pc := if s.idEx.exTakeBranch (st.get s.idEx.rs1) (st.get s.idEx.rs2) then
          s.idEx.pc + s.idEx.bimm
        else s.idEx.pc + s.idEx.len } := by
  by_cases ht : s.idEx.exTakeBranch (st.get s.idEx.rs1) (st.get s.idEx.rs2) = true <;>
    simp [Core.exOutcome, IdEx.exMisaligned, IdEx.exWriteEn, Core.exJump, h.fields, h.valid,
      h.legal, ht]

theorem Flagged.outcome_jal (h : Flagged s.idEx [.isJAL]) :
    s.exOutcome st = .next { st.set s.idEx.rd (s.idEx.pc + s.idEx.len) with
      pc := s.idEx.pc + s.idEx.jimm } := by
  simp [Core.exOutcome, IdEx.exMisaligned, IdEx.exWriteEn, IdEx.exWriteValue, Core.exJump, h.fields,
    h.valid, h.legal]

theorem Flagged.outcome_jalr (h : Flagged s.idEx [.isJALR]) :
    s.exOutcome st = .next { st.set s.idEx.rd (s.idEx.pc + s.idEx.len) with
      pc := clearBit0 (st.get s.idEx.rs1 + s.idEx.iimm) } := by
  simp [Core.exOutcome, IdEx.exMisaligned, IdEx.exWriteEn, IdEx.exWriteValue, Core.exJump, h.fields,
    h.valid, h.legal]

theorem Flagged.outcome_load (op : Rv32.LoadOp) (h : Flagged s.idEx [.isLoad])
    (hf : s.idEx.funct3 = op.funct3) :
    s.exOutcome st =
      let a := st.get s.idEx.rs1 + s.idEx.iimm
      if op.aligned a then .next { st.set s.idEx.rd (op.value st.mem a) with
        pc := s.idEx.pc + s.idEx.len }
      else .trap 4#32 a := by
  have hm := exMisaligned_load (st.get s.idEx.rs1 + s.idEx.iimm) h hf
  by_cases ha : op.aligned (st.get s.idEx.rs1 + s.idEx.iimm) = true
  · have hload := formatLoadData_eq ha fun x => wordAround_congr st.mem
    rw [byteAt_wordAround, ← hf] at hload
    simp [Core.exOutcome, IdEx.exAddr, IdEx.exWriteEn, Core.exJump, h.fields, h.valid, h.legal, hm,
      ha, hload]
  · simp [Core.exOutcome, IdEx.exAddr, h.fields, h.legal, hm, ha]

theorem Flagged.outcome_store (op : Rv32.StoreOp) (h : Flagged s.idEx [.isStore])
    (hf : s.idEx.funct3 = op.funct3) :
    s.exOutcome st =
      let a := st.get s.idEx.rs1 + s.idEx.simm
      if op.aligned a then .next { st with
        mem := op.write a (st.get s.idEx.rs2) st.mem, pc := s.idEx.pc + s.idEx.len }
      else .trap 6#32 a := by
  have hm := exMisaligned_store (st.get s.idEx.rs1 + s.idEx.simm) h hf
  by_cases ha : op.aligned (st.get s.idEx.rs1 + s.idEx.simm) = true
  · have hmem := laneByte_store (e := s.idEx) (v := st.get s.idEx.rs2) _
      (by simp [h.fields]) hf ha st.mem
    simp [Core.exOutcome, IdEx.exAddr, IdEx.exWriteEn, Core.exJump, h.fields, h.valid, h.legal, hm,
      ha, hmem]
  · simp [Core.exOutcome, IdEx.exAddr, h.fields, h.legal, hm, ha]

theorem Flagged.outcome_fence (h : Flagged s.idEx []) :
    s.exOutcome st = .next { st with pc := s.idEx.pc + s.idEx.len } := by
  simp [Core.exOutcome, IdEx.exMisaligned, IdEx.exWriteEn, Core.exJump, h.fields, h.valid, h.legal]

theorem Flagged.outcome_ebreak (h : Flagged s.idEx [.isEBREAK]) :
    s.exOutcome st = .trap 3#32 0#32 := by
  simp [Core.exOutcome, IdEx.exMisaligned, h.fields, h.legal]

end Outcome

/-- **The stages.** When EX lets its instruction go without a trap, what leaves for EX/MEM and the
redirect are what `exOutcome` says, for operands that are those of `st`. -/
theorem exOutcome_exMem {s : Core} {st : Rv32.State} (i : CoreIn)
    (h1 : s.exRs1 = st.get s.idEx.rs1) (h2 : s.exRs2 = st.get s.idEx.rs2)
    (hheld : s.exHeld i = false) (hpriv : s.privRedirectValid i = false)
    (hlegal : s.idEx.illegal = false) (hmis : s.idEx.exMisaligned s.exAddr = false)
    (hebreak : s.idEx.isEBREAK = false) (hcsr : s.idEx.csrValid = false) :
    s.exOutcome st = .next {
      reg := if (s.exMemOfEx i).wbEn then
          (st.set (s.exMemOfEx i).rd
            (if (s.exMemOfEx i).isLoad then
              formatLoadData (wordAround st.mem s.exAddr) (s.exMemOfEx i).funct3
                (s.exAddr.extractLsb' 0 2)
            else (s.exMemOfEx i).wbValue)).reg
        else st.reg
      pc := (s.exRedirect i).getD (s.idEx.pc + s.idEx.len)
      mem := if (s.exMemOfEx i).isStore then fun x =>
          if wordOf x = wordOf s.exAddr then
            laneByte (mergeBytes (wordAround st.mem s.exAddr) (s.exMemOfEx i).storeWdata
              (s.exMemOfEx i).storeWmask) (laneOf x)
          else st.mem x
        else st.mem } := by
  have hread : ∀ v, s.idEx.exWriteValue s.exRs1 s.exRs2 v s.div
      = s.idEx.exWriteValue s.exRs1 s.exRs2 0#32 s.div := by
    intro v
    rw [IdEx.csrValid] at hcsr
    simp [IdEx.exWriteValue, hcsr]
  have hwb : (s.exMemOfEx i).wbEn = s.idEx.exWriteEn s.div.resultValid := by
    simp [Core.exMemOfEx, Core.exWbEn, hpriv, hheld]
  have hvalue : (s.exMemOfEx i).wbValue = s.idEx.exWriteValue s.exRs1 s.exRs2 0#32 s.div := hread _
  have hmask : (s.exMemOfEx i).storeWmask = s.idEx.exStoreMask s.exAddr := by
    simp [Core.exMemOfEx, Core.exStoreWmask, hpriv, hheld]
  have hpc : s.exRedirect i = s.exJump s.exRs1 s.exRs2 := by
    simp [Core.exRedirect, hpriv, hheld]
  have hmis' : s.idEx.exMisaligned (s.idEx.exAddr s.exRs1) = false := hmis
  rw [hwb, hvalue, hmask, hpc, Core.exOutcome, ← h1, ← h2, hlegal, hmis', hebreak]
  cases s.idEx.exWriteEn s.div.resultValid <;> rfl

/-- The fields of the instruction in EX. -/
theorem InId.fields {s : Core} {w : Word} {st : Rv32.State} (h : InId s w st) :
    s.issued.idEx.rs1 = rs1Of w ∧ s.issued.idEx.rs2 = rs2Of w ∧ s.issued.idEx.rd = rdOf w ∧
      s.issued.idEx.funct3 = funct3Of w ∧ s.issued.idEx.funct7 = funct7Of w ∧
      s.issued.idEx.uimm = uimmOf w ∧ s.issued.idEx.iimm = iimmOf w ∧
      s.issued.idEx.simm = simmOf w ∧ s.issued.idEx.bimm = bimmOf w ∧
      s.issued.idEx.jimm = jimmOf w ∧ s.issued.idEx.instr = w ∧ s.issued.idEx.pc = st.pc ∧
      s.issued.idEx.len = s.id.len := by
  rw [← h.instr, ← h.pc]
  exact ⟨rfl, rfl, rfl, rfl, rfl, rfl, rfl, rfl, rfl, rfl, rfl, rfl, rfl⟩

/-- What EX and the memory make of an instruction that works on the registers, the program counter
and the memory is what the instruction set says. Division is the matter of its own module. -/
theorem issued_exec {s : Core} {i : Rv32.Instr} {st : Rv32.State} {o : Rv32.Outcome}
    (h : InId s (Rv32.encode i) st) (hdiv : ∀ op rd rs1 rs2, i ≠ .div op rd rs1 rs2)
    (ho : Rv32.exec s.id.len i st = some o) : s.issued.exOutcome st = o := by
  have hfence : ¬ FenceIFields (Rv32.encode i) := by
    rintro ⟨hop, h3, -⟩
    cases i <;> simp [Rv32.exec] at ho <;>
      simp [Rv32.encode, Rv32.formI, Rv32.formS, Rv32.formB, Rv32.formU, Rv32.formJ] at hop h3
    revert hop
    decide
  have hfl := h.flagged hfence
  have hfd := h.fields
  cases i with
  | lui rd imm | auipc rd imm =>
      cases ho
      rw [Flagged.outcome_value hfl (by simp)]
      simp [hfd, IdEx.exWriteValue, hfl.fields, hfl.valid, flagsOf, Rv32.encode]
  | jal rd offset =>
      cases ho
      rw [Flagged.outcome_jal hfl]
      simp [hfd, Rv32.encode]
  | jalr rd rs1 offset =>
      cases ho
      rw [Flagged.outcome_jalr hfl]
      simp [hfd, Rv32.encode, clearBit0]
  | branch op rs1 rs2 offset =>
      cases ho
      rw [Flagged.outcome_branch hfl, exTakeBranch_eq _ _ op (by simp [hfd, Rv32.encode])]
      simp [hfd, Rv32.encode]
  | load op rd rs1 offset =>
      cases ho
      rw [Flagged.outcome_load op hfl (by simp [hfd, Rv32.encode])]
      simp [hfd, Rv32.encode]
  | store op rs1 rs2 offset =>
      cases ho
      rw [Flagged.outcome_store op hfl (by simp [hfd, Rv32.encode])]
      simp [hfd, Rv32.encode]
  | imm op rd rs1 imm =>
      cases ho
      rw [Flagged.outcome_value hfl (by simp)]
      rw [hfl.exWriteValue_alu (by simp),
        exAluOut_imm _ _ op (by simp [hfl.fields, flagsOf]) (by simp [hfd, Rv32.encode])]
      simp [hfd, Rv32.encode]
  | shift op rd rs1 shamt =>
      cases ho
      rw [Flagged.outcome_value hfl (by simp)]
      rw [hfl.exWriteValue_alu (by simp),
        exAluOut_shift _ _ op (by simp [hfl.fields, flagsOf])
        (by simp [hfd, Rv32.encode]) (by simp [hfd, Rv32.encode])]
      simp [hfd, Rv32.encode]
  | reg op rd rs1 rs2 =>
      cases ho
      rw [Flagged.outcome_value hfl (by simp)]
      rw [hfl.exWriteValue_alu (by simp),
        exAluOut_reg _ _ op (by simp [hfl.fields, flagsOf])
        (by simp [hfd, Rv32.encode]) (by simp [hfd, Rv32.encode])]
      simp [hfd, Rv32.encode]
  | mul op rd rs1 rs2 =>
      cases ho
      rw [Flagged.outcome_value hfl (by simp)]
      have hmul := exMul_eq (e := s.issued.idEx) (st.get rs1) (st.get rs2) op
        (by simp [hfd, Rv32.encode])
      simp [IdEx.exWriteValue, hfl.fields, hfl.valid, flagsOf, hfd, Rv32.encode, hmul]
  | div op rd rs1 rs2 => exact absurd rfl (hdiv op rd rs1 rs2)
  | fence unused rs1 rd =>
      cases ho
      rw [Flagged.outcome_fence hfl]
      simp [hfd]
  | ebreak =>
      cases ho
      exact Flagged.outcome_ebreak hfl
  | _ => cases ho

end MelonSoc
