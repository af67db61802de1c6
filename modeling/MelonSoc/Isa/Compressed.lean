import MelonSoc.Isa.Execution
import MelonSoc.Lib.Rv32c

set_option autoImplicit false

/-! # Compressed instructions

The expander turns a code of 16 bits into a word of 32 bits, which ID and EX then execute as an
instruction of two bytes. Here the word is compared with the instruction the code stands for, and
its execution with what this instruction does.
-/

namespace MelonSoc

open Rv32c (Reg3 Legal encode expand exec exec_expand exec_hint form formCI formCJ formCB formCL
  form_op form_in_lo form_in_hi form_lo form_hi form_b12 form_bit12 form_f3 form_span form_fields
  formCI_join formCJ_join formCB_join formCL_join)

/-! ## Encoders -/

theorem rvEncI_eq (imm : BitVec 12) (rs1 : BitVec 5) (f3 : BitVec 3) (rd : BitVec 5)
    (op : BitVec 7) : rvEncI imm rs1 f3 rd op = Rv32.formI imm rs1 f3 rd op := by
  rw [rvEncI, Rv32.formI, Rv32.form, Rv32.split_imm]

theorem rvEncU_eq (imm : BitVec 20) (rd : BitVec 5) (op : BitVec 7) :
    rvEncU imm rd op = Rv32.formU imm rd op := by
  have h := Rv32.formU_fields (rvEncU imm rd op)
  have h12 : (rvEncU imm rd op).extractLsb' 12 20 = imm := by
    rw [rvEncU, BitVec.extractLsb'_append_eq_of_le (by decide)]
    exact BitVec.extractLsb'_append_eq_left
  have h7 : (rvEncU imm rd op).extractLsb' 7 5 = rd := by
    rw [rvEncU, BitVec.extractLsb'_append_eq_of_le (by decide)]
    exact BitVec.extractLsb'_append_eq_right
  have h0 : (rvEncU imm rd op).extractLsb' 0 7 = op := BitVec.extractLsb'_append_eq_right
  rw [h12, h7, h0] at h
  exact h.symm

theorem rvEncB_eq (imm : BitVec 12) (rs2 rs1 : BitVec 5) (f3 : BitVec 3) (op : BitVec 7) :
    rvEncB (imm ++ 0#1) rs2 rs1 f3 op = Rv32.formB imm rs2 rs1 f3 op := by
  simp (disch := omega) only [rvEncB, BitVec.extractLsb'_append_eq_of_le, Nat.reduceSub]
  rw [Rv32.formB, Rv32.form]
  ext i hi
  simp
  grind

theorem rvEncJ_eq (imm : BitVec 20) (rd : BitVec 5) (op : BitVec 7) :
    rvEncJ (imm ++ 0#1) rd op = Rv32.formJ imm rd op := by
  rw [Rv32.formJ, ← rvEncU_eq, rvEncU, rvEncJ]
  simp (disch := omega) only [BitVec.extractLsb'_append_eq_of_le, Nat.reduceSub]

/-! ## Immediates -/

theorem rvcImm6_formCI (f3 : BitVec 3) (imm : BitVec 6) (hi : BitVec 5) (op : BitVec 2) :
    rvcImm6 (formCI f3 imm hi op) = imm.signExtend 12 := by
  rw [rvcImm6, formCI, form_b12, form_lo,
    BitVec.extractLsb'_append_extractLsb'_eq_extractLsb' (show 5 = 0 + 5 from rfl),
    BitVec.extractLsb'_eq_self]

theorem rvcImmLw_formCL (f3 : BitVec 3) (rs1 r : Reg3) (imm : BitVec 5) :
    rvcImmLw (formCL f3 rs1 r imm) = (imm ++ 0#2 : BitVec 7).setWidth 12 := by
  have hspan := form_span f3 (imm.extractLsb' 3 1) (imm.extractLsb' 1 2 ++ rs1)
    (imm.extractLsb' 0 1 ++ imm.extractLsb' 4 1 ++ r) 0b00#2 10 2
    (by decide) (by decide)
  simp (disch := omega) only [rvcImmLw, formCL, form_in_lo, hspan, Nat.reduceSub,
    BitVec.extractLsb'_append_eq_of_le, BitVec.extractLsb'_append_eq_of_add_le,
    BitVec.extractLsb'_eq_self, BitVec.extractLsb'_append_extractLsb'_eq_extractLsb']

theorem rvcImmJ_formCJ (f3 : BitVec 3) (offset : BitVec 11) :
    rvcImmJ (formCJ f3 offset) = offset.signExtend 20 ++ 0#1 := by
  rw [Rv32.signExtend_append_zero]
  simp (disch := omega) only [rvcImmJ, formCJ, form_in_lo, form_in_hi, form_b12, Nat.reduceSub,
    BitVec.extractLsb'_append_eq_of_le, BitVec.extractLsb'_append_eq_of_add_le,
    BitVec.extractLsb'_eq_self, BitVec.extractLsb'_append_extractLsb'_eq_extractLsb']

theorem rvcImmB_formCB (f3 : BitVec 3) (rs1 : Reg3) (offset : BitVec 8) :
    rvcImmB (formCB f3 rs1 offset) = offset.signExtend 12 ++ 0#1 := by
  rw [Rv32.signExtend_append_zero]
  simp (disch := omega) only [rvcImmB, formCB, form_in_lo, form_in_hi, form_b12, Nat.reduceSub,
    BitVec.extractLsb'_append_eq_of_le, BitVec.extractLsb'_append_eq_of_add_le,
    BitVec.extractLsb'_eq_self, BitVec.extractLsb'_append_extractLsb'_eq_extractLsb']





/-! ## Expansion of the encodings -/

/-- A short register in the register field. -/
theorem form_rs1p (f3 : BitVec 3) (b12 : BitVec 1) (x : BitVec 2) (r : Reg3) (lo : BitVec 5)
    (op : BitVec 2) : (form f3 b12 (x ++ r) lo op).extractLsb' 7 3 = r := by
  rw [form_in_hi _ _ _ _ _ (by decide) (by decide)]
  exact BitVec.extractLsb'_append_eq_right

/-- What stands over it. -/
theorem form_sel (f3 : BitVec 3) (b12 : BitVec 1) (x : BitVec 2) (r : Reg3) (lo : BitVec 5)
    (op : BitVec 2) : (form f3 b12 (x ++ r) lo op).extractLsb' 10 2 = x := by
  rw [form_in_hi _ _ _ _ _ (by decide) (by decide)]
  exact BitVec.extractLsb'_append_eq_left

/-- A short register at bits 4 to 2. -/
theorem form_rdp (f3 : BitVec 3) (b12 : BitVec 1) (hi : BitVec 5) (x : BitVec 2) (r : Reg3)
    (op : BitVec 2) : (form f3 b12 hi (x ++ r) op).extractLsb' 2 3 = r := by
  rw [form_in_lo _ _ _ _ _ (by decide) (by decide)]
  exact BitVec.extractLsb'_append_eq_right

theorem form_op2 (f3 : BitVec 3) (b12 : BitVec 1) (hi : BitVec 5) (x : BitVec 2) (r : Reg3)
    (op : BitVec 2) : (form f3 b12 hi (x ++ r) op).extractLsb' 5 2 = x := by
  rw [form_in_lo _ _ _ _ _ (by decide) (by decide)]
  exact BitVec.extractLsb'_append_eq_left


/-! ## The formats -/

theorem formCI_fields (f3 : BitVec 3) (imm : BitVec 6) (hi : BitVec 5) (op : BitVec 2) :
    (formCI f3 imm hi op).extractLsb' 0 2 = op ∧ (formCI f3 imm hi op).extractLsb' 13 3 = f3 ∧
      (formCI f3 imm hi op).extractLsb' 7 5 = hi ∧
      rvcImm6 (formCI f3 imm hi op) = imm.signExtend 12 :=
  ⟨form_op _ _ _ _ _, form_f3 _ _ _ _ _, form_hi _ _ _ _ _, rvcImm6_formCI f3 imm hi op⟩

theorem formCJ_fields (f3 : BitVec 3) (offset : BitVec 11) :
    (formCJ f3 offset).extractLsb' 0 2 = 1#2 ∧ (formCJ f3 offset).extractLsb' 13 3 = f3 ∧
      rvcImmJ (formCJ f3 offset) = offset.signExtend 20 ++ 0#1 :=
  ⟨form_op _ _ _ _ _, form_f3 _ _ _ _ _, rvcImmJ_formCJ f3 offset⟩

theorem formCB_fields (f3 : BitVec 3) (rs1 : Reg3) (offset : BitVec 8) :
    (formCB f3 rs1 offset).extractLsb' 0 2 = 1#2 ∧ (formCB f3 rs1 offset).extractLsb' 13 3 = f3 ∧
      (formCB f3 rs1 offset).extractLsb' 7 3 = rs1 ∧
      rvcImmB (formCB f3 rs1 offset) = offset.signExtend 12 ++ 0#1 :=
  ⟨form_op _ _ _ _ _, form_f3 _ _ _ _ _, form_rs1p _ _ _ _ _ _, rvcImmB_formCB f3 rs1 offset⟩

theorem formCL_fields (f3 : BitVec 3) (rs1 r : Reg3) (imm : BitVec 5) :
    (formCL f3 rs1 r imm).extractLsb' 0 2 = 0#2 ∧ (formCL f3 rs1 r imm).extractLsb' 13 3 = f3 ∧
      (formCL f3 rs1 r imm).extractLsb' 7 3 = rs1 ∧ (formCL f3 rs1 r imm).extractLsb' 2 3 = r ∧
      rvcImmLw (formCL f3 rs1 r imm) = (imm ++ 0#2 : BitVec 7).setWidth 12 :=
  ⟨form_op _ _ _ _ _, form_f3 _ _ _ _ _, form_rs1p _ _ _ _ _ _, form_rdp _ _ _ _ _ _,
    rvcImmLw_formCL f3 rs1 r imm⟩

theorem form_all (f3 : BitVec 3) (b12 : BitVec 1) (hi lo : BitVec 5) (op : BitVec 2) :
    (form f3 b12 hi lo op).extractLsb' 0 2 = op ∧ (form f3 b12 hi lo op).extractLsb' 13 3 = f3 ∧
      (form f3 b12 hi lo op).getLsbD 12 = b12.getLsbD 0 ∧
      (form f3 b12 hi lo op).extractLsb' 7 5 = hi ∧ (form f3 b12 hi lo op).extractLsb' 2 5 = lo :=
  ⟨form_op _ _ _ _ _, form_f3 _ _ _ _ _, form_bit12 _ _ _ _ _, form_hi _ _ _ _ _,
    form_lo _ _ _ _ _⟩

/-- The group of operations on short registers. -/
theorem formAlu_fields (b12 : BitVec 1) (x : BitVec 2) (r : Reg3) (lo : BitVec 5) :
    (form 0b100#3 b12 (x ++ r) lo 0b01#2).extractLsb' 0 2 = 1#2 ∧
      (form 0b100#3 b12 (x ++ r) lo 0b01#2).extractLsb' 13 3 = 4#3 ∧
      (form 0b100#3 b12 (x ++ r) lo 0b01#2).getLsbD 12 = b12.getLsbD 0 ∧
      (form 0b100#3 b12 (x ++ r) lo 0b01#2).extractLsb' 10 2 = x ∧
      (form 0b100#3 b12 (x ++ r) lo 0b01#2).extractLsb' 7 3 = r ∧
      (form 0b100#3 b12 (x ++ r) lo 0b01#2).extractLsb' 2 5 = lo :=
  ⟨form_op _ _ _ _ _, form_f3 _ _ _ _ _, form_bit12 _ _ _ _ _, form_sel _ _ _ _ _ _,
    form_rs1p _ _ _ _ _ _, form_lo _ _ _ _ _⟩

/-- Every instruction is expanded to the instruction it is short for, but a load of the upper
immediate of register 0. -/
theorem rvcExpand_encode {i : Rv32c.Instr} (hd : i.Defined) (hlui : ∀ imm, i ≠ .lui 0#5 imm) :
    rvcExpand (encode i) = rvcLegal (Rv32.encode (expand i)) := by
  -- the fields of the code are named, then the code itself does not matter any more
  cases i with
  | addi4spn rd imm =>
      have hspan := form_span 0b000#3 (imm.extractLsb' 3 1)
        (imm.extractLsb' 2 1 ++ imm.extractLsb' 4 4)
        (imm.extractLsb' 0 1 ++ imm.extractLsb' 1 1 ++ rd) 0b00#2 11 1
        (by decide) (by decide)
      have hne : ∀ imm, imm ≠ 0#8 → ((imm ++ 0#2 : BitVec 10).setWidth 12 == 0#12) = false := by
        decide
      have himm : (encode (.addi4spn rd imm)).extractLsb' 7 4 ++
          (encode (.addi4spn rd imm)).extractLsb' 11 2 ++
          (encode (.addi4spn rd imm)).extractLsb' 5 1 ++
          (encode (.addi4spn rd imm)).extractLsb' 6 1 ++ 0#2 = (imm ++ 0#2 : BitVec 10) := by
        simp (disch := omega) only [encode, hspan, form_in_hi, form_in_lo, Nat.reduceSub,
          BitVec.extractLsb'_append_eq_of_le, BitVec.extractLsb'_append_eq_of_add_le,
          BitVec.extractLsb'_eq_self, BitVec.extractLsb'_append_extractLsb'_eq_extractLsb']
      have hop : (encode (.addi4spn rd imm)).extractLsb' 0 2 = 0#2 := form_op _ _ _ _ _
      have h3 : (encode (.addi4spn rd imm)).extractLsb' 13 3 = 0#3 := form_f3 _ _ _ _ _
      have hrd : (encode (.addi4spn rd imm)).extractLsb' 2 3 = rd := form_rdp _ _ _ _ _ _
      generalize encode (.addi4spn rd imm) = c at *
      simp only [rvcExpand, rvcExpand0, hop, h3, himm, hrd, rvEncI_eq, hne _ hd]
      rfl
  | lw rd rs1 imm =>
      obtain ⟨hop, h3, hrs1, hrd, himm⟩ := formCL_fields 0b010#3 rs1 rd imm
      rw [encode]
      generalize formCL 0b010#3 rs1 rd imm = c at *
      simp only [rvcExpand, rvcExpand0, hop, h3, himm, hrs1, hrd, rvEncI_eq]
      rfl
  | sw rs1 rs2 imm =>
      obtain ⟨hop, h3, hrs1, hrs2, himm⟩ := formCL_fields 0b110#3 rs1 rs2 imm
      rw [encode]
      generalize formCL 0b110#3 rs1 rs2 imm = c at *
      simp only [rvcExpand, rvcExpand0, hop, h3, himm, hrs1, hrs2]
      rfl
  | addi rd imm =>
      obtain ⟨hop, h3, hrd, himm⟩ := formCI_fields 0b000#3 imm rd 0b01#2
      rw [encode]
      generalize formCI 0b000#3 imm rd 0b01#2 = c at *
      simp only [rvcExpand, rvcExpand1, hop, h3, himm, hrd, rvEncI_eq]
      rfl
  | li rd imm =>
      obtain ⟨hop, h3, hrd, himm⟩ := formCI_fields 0b010#3 imm rd 0b01#2
      rw [encode]
      generalize formCI 0b010#3 imm rd 0b01#2 = c at *
      simp only [rvcExpand, rvcExpand1, hop, h3, himm, hrd, rvEncI_eq]
      rfl
  | lui rd imm =>
      have hrd0 : (rd != 0#5) = true := by
        rw [bne_iff_ne]
        rintro rfl
        exact hlui imm rfl
      have hsp : (rd == 2#5) = false := beq_eq_false_iff_ne.mpr hd.1
      have hne : ∀ imm, imm ≠ 0#6 → ((imm.signExtend 20).extractLsb' 0 6 == 0#6) = false := by
        decide
      obtain ⟨hop, h3, hrd, himm⟩ := formCI_fields 0b011#3 imm rd 0b01#2
      have himm20 : (formCI 0b011#3 imm rd 0b01#2).extractLsb' 12 1 ++
          (formCI 0b011#3 imm rd 0b01#2).extractLsb' 2 5 = imm := by
        rw [formCI, form_b12, form_lo,
          BitVec.extractLsb'_append_extractLsb'_eq_extractLsb' (show 5 = 0 + 5 from rfl),
          BitVec.extractLsb'_eq_self]
      rw [encode]
      generalize formCI 0b011#3 imm rd 0b01#2 = c at *
      simp only [rvcExpand, rvcExpand1, hop, h3, himm20, hrd, rvEncU_eq, hsp, hrd0, hne _ hd.2]
      rfl
  | jal offset =>
      obtain ⟨hop, h3, himm⟩ := formCJ_fields 0b001#3 offset
      rw [encode]
      generalize formCJ 0b001#3 offset = c at *
      simp only [rvcExpand, rvcExpand1, hop, h3, himm, rvEncJ_eq]
      rfl
  | j offset =>
      obtain ⟨hop, h3, himm⟩ := formCJ_fields 0b101#3 offset
      rw [encode]
      generalize formCJ 0b101#3 offset = c at *
      simp only [rvcExpand, rvcExpand1, hop, h3, himm, rvEncJ_eq]
      rfl
  | beqz rs1 offset =>
      obtain ⟨hop, h3, hrs1, himm⟩ := formCB_fields 0b110#3 rs1 offset
      rw [encode]
      generalize formCB 0b110#3 rs1 offset = c at *
      simp only [rvcExpand, rvcExpand1, hop, h3, himm, hrs1, rvEncB_eq]
      rfl
  | bnez rs1 offset =>
      obtain ⟨hop, h3, hrs1, himm⟩ := formCB_fields 0b111#3 rs1 offset
      rw [encode]
      generalize formCB 0b111#3 rs1 offset = c at *
      simp only [rvcExpand, rvcExpand1, hop, h3, himm, hrs1, rvEncB_eq]
      rfl
  | addi16sp imm =>
      have hne : ∀ imm, imm ≠ 0#6 → ((imm ++ 0#4 : BitVec 10).signExtend 12 == 0#12) = false := by
        decide
      have himm : (encode (.addi16sp imm)).extractLsb' 12 1 ++
          (encode (.addi16sp imm)).extractLsb' 3 2 ++ (encode (.addi16sp imm)).extractLsb' 5 1 ++
          (encode (.addi16sp imm)).extractLsb' 2 1 ++ (encode (.addi16sp imm)).extractLsb' 6 1 ++
          0#4 = (imm ++ 0#4 : BitVec 10) := by
        simp (disch := omega) only [encode, form_b12, form_in_lo, Nat.reduceSub,
          BitVec.extractLsb'_append_eq_of_le, BitVec.extractLsb'_append_eq_of_add_le,
          BitVec.extractLsb'_eq_self, BitVec.extractLsb'_append_extractLsb'_eq_extractLsb']
      have hop : (encode (.addi16sp imm)).extractLsb' 0 2 = 1#2 := form_op _ _ _ _ _
      have h3 : (encode (.addi16sp imm)).extractLsb' 13 3 = 3#3 := form_f3 _ _ _ _ _
      have hrd : (encode (.addi16sp imm)).extractLsb' 7 5 = 2#5 := form_hi _ _ _ _ _
      generalize encode (.addi16sp imm) = c at *
      simp only [rvcExpand, rvcExpand1, hop, h3, himm, hrd, rvEncI_eq, hne _ hd]
      rfl
  | srli rd shamt =>
      obtain ⟨hop, h3, h12, hsel, hrd, hlo⟩ := formAlu_fields 0#1 0b00#2 rd shamt
      rw [encode]
      generalize form 0b100#3 0#1 (0b00#2 ++ rd) shamt 0b01#2 = c at *
      simp only [rvcExpand, rvcExpand1, rvcExpandAlu, hop, h3, h12, hsel, hrd, hlo]
      rfl
  | srai rd shamt =>
      obtain ⟨hop, h3, h12, hsel, hrd, hlo⟩ := formAlu_fields 0#1 0b01#2 rd shamt
      rw [encode]
      generalize form 0b100#3 0#1 (0b01#2 ++ rd) shamt 0b01#2 = c at *
      simp only [rvcExpand, rvcExpand1, rvcExpandAlu, hop, h3, h12, hsel, hrd, hlo]
      rfl
  | andi rd imm =>
      obtain ⟨hop, h3, -, himm⟩ := formCI_fields 0b100#3 imm (0b10#2 ++ rd) 0b01#2
      obtain ⟨-, -, -, hsel, hrd, -⟩ :=
        formAlu_fields (imm.extractLsb' 5 1) 0b10#2 rd (imm.extractLsb' 0 5)
      rw [encode]
      rw [← formCI] at hsel hrd
      generalize formCI 0b100#3 imm (0b10#2 ++ rd) 0b01#2 = c at *
      simp only [rvcExpand, rvcExpand1, rvcExpandAlu, hop, h3, hsel, hrd, himm, rvEncI_eq]
      rfl
  | alu op rd rs2 =>
      obtain ⟨hop, h3, h12, hsel, hrd, -⟩ := formAlu_fields 0#1 0b11#2 rd (op.funct2 ++ rs2)
      have hrs2 := form_rdp 0b100#3 0#1 (0b11#2 ++ rd) op.funct2 rs2 0b01#2
      have hop2 := form_op2 0b100#3 0#1 (0b11#2 ++ rd) op.funct2 rs2 0b01#2
      rw [encode]
      generalize form 0b100#3 0#1 (0b11#2 ++ rd) (op.funct2 ++ rs2) 0b01#2 = c at *
      simp only [rvcExpand, rvcExpand1, rvcExpandAlu, hop, h3, h12, hsel, hrd, hrs2, hop2]
      cases op <;> rfl
  | slli rd shamt =>
      obtain ⟨hop, h3, h12, hhi, hlo⟩ := form_all 0b000#3 0#1 rd shamt 0b10#2
      rw [encode]
      generalize form 0b000#3 0#1 rd shamt 0b10#2 = c at *
      simp only [rvcExpand, rvcExpand2, hop, h3, h12, hhi, hlo]
      rfl
  | lwsp rd imm =>
      have hrd0 : (rd == 0#5) = false := beq_eq_false_iff_ne.mpr hd
      have himm : (encode (.lwsp rd imm)).extractLsb' 2 2 ++
          (encode (.lwsp rd imm)).extractLsb' 12 1 ++ (encode (.lwsp rd imm)).extractLsb' 4 3 ++
          0#2 = (imm ++ 0#2 : BitVec 8) := by
        simp (disch := omega) only [encode, form_b12, form_in_lo, Nat.reduceSub,
          BitVec.extractLsb'_append_eq_of_le, BitVec.extractLsb'_append_eq_of_add_le,
          BitVec.extractLsb'_eq_self, BitVec.extractLsb'_append_extractLsb'_eq_extractLsb']
      have hop : (encode (.lwsp rd imm)).extractLsb' 0 2 = 2#2 := form_op _ _ _ _ _
      have h3 : (encode (.lwsp rd imm)).extractLsb' 13 3 = 2#3 := form_f3 _ _ _ _ _
      have hrd : (encode (.lwsp rd imm)).extractLsb' 7 5 = rd := form_hi _ _ _ _ _
      generalize encode (.lwsp rd imm) = c at *
      simp only [rvcExpand, rvcExpand2, hop, h3, himm, hrd, rvEncI_eq, hrd0]
      rfl
  | jr rs1 =>
      have hrs1 : (rs1 == 0#5) = false := beq_eq_false_iff_ne.mpr hd
      obtain ⟨hop, h3, h12, hhi, hlo⟩ := form_all 0b100#3 0#1 rs1 0#5 0b10#2
      rw [encode]
      generalize form 0b100#3 0#1 rs1 0#5 0b10#2 = c at *
      simp only [rvcExpand, rvcExpand2, hop, h3, h12, hhi, hlo, hrs1, rvEncI_eq]
      rfl
  | jalr rs1 =>
      have hrs1 : (rs1 == 0#5) = false := beq_eq_false_iff_ne.mpr hd
      obtain ⟨hop, h3, h12, hhi, hlo⟩ := form_all 0b100#3 1#1 rs1 0#5 0b10#2
      rw [encode]
      generalize form 0b100#3 1#1 rs1 0#5 0b10#2 = c at *
      simp only [rvcExpand, rvcExpand2, hop, h3, h12, hhi, hlo, hrs1, rvEncI_eq]
      rfl
  | mv rd rs2 =>
      have hrs2 : (rs2 == 0#5) = false := beq_eq_false_iff_ne.mpr hd
      obtain ⟨hop, h3, h12, hhi, hlo⟩ := form_all 0b100#3 0#1 rd rs2 0b10#2
      rw [encode]
      generalize form 0b100#3 0#1 rd rs2 0b10#2 = c at *
      simp only [rvcExpand, rvcExpand2, hop, h3, h12, hhi, hlo, hrs2]
      rfl
  | add rd rs2 =>
      have hrs2 : (rs2 == 0#5) = false := beq_eq_false_iff_ne.mpr hd
      obtain ⟨hop, h3, h12, hhi, hlo⟩ := form_all 0b100#3 1#1 rd rs2 0b10#2
      rw [encode]
      generalize form 0b100#3 1#1 rd rs2 0b10#2 = c at *
      simp only [rvcExpand, rvcExpand2, hop, h3, h12, hhi, hlo, hrs2]
      rfl
  | ebreak => rfl
  | swsp rs2 imm =>
      have hspan := form_span 0b110#3 (imm.extractLsb' 3 1)
        (imm.extractLsb' 0 3 ++ imm.extractLsb' 4 2) rs2 0b10#2 9 3
        (by decide) (by decide)
      have himm : (encode (.swsp rs2 imm)).extractLsb' 7 2 ++
          (encode (.swsp rs2 imm)).extractLsb' 9 4 ++ 0#2 = (imm ++ 0#2 : BitVec 8) := by
        simp (disch := omega) only [encode, hspan, form_in_hi, Nat.reduceSub,
          BitVec.extractLsb'_append_eq_of_le, BitVec.extractLsb'_append_eq_of_add_le,
          BitVec.extractLsb'_eq_self, BitVec.extractLsb'_append_extractLsb'_eq_extractLsb']
      have hop : (encode (.swsp rs2 imm)).extractLsb' 0 2 = 2#2 := form_op _ _ _ _ _
      have h3 : (encode (.swsp rs2 imm)).extractLsb' 13 3 = 6#3 := form_f3 _ _ _ _ _
      have hrs2 : (encode (.swsp rs2 imm)).extractLsb' 2 5 = rs2 := form_lo _ _ _ _ _
      generalize encode (.swsp rs2 imm) = c at *
      simp only [rvcExpand, rvcExpand2, hop, h3, himm, hrs2]
      rfl


end MelonSoc
namespace Rv32c



end Rv32c
namespace MelonSoc
open Rv32c
/-! ## Legal codes -/

section Legal

variable {c : BitVec 16}

theorem eq_or_of_three (x : BitVec 3) :
    x = 0#3 ∨ x = 1#3 ∨ x = 2#3 ∨ x = 3#3 ∨ x = 4#3 ∨ x = 5#3 ∨ x = 6#3 ∨ x = 7#3 := by
  revert x
  decide

theorem eq_or_of_two (x : BitVec 2) : x = 0#2 ∨ x = 1#2 ∨ x = 2#2 ∨ x = 3#2 := by
  revert x
  decide

/-- Bit 12 is not set. -/
theorem b12_zero (h : c.getLsbD 12 = false) : c.extractLsb' 12 1 = 0#1 := by
  ext i hi
  have hi0 : i = 0 := by omega
  subst hi0
  simpa using h

theorem b12_one (h : c.getLsbD 12 = true) : c.extractLsb' 12 1 = 1#1 := by
  ext i hi
  have hi0 : i = 0 := by omega
  subst hi0
  simpa using h

/-- A short register in the register field, with what stands over it. -/
theorem hi_join : (c.extractLsb' 10 2 ++ c.extractLsb' 7 3 : BitVec 5) = c.extractLsb' 7 5 :=
  BitVec.extractLsb'_append_extractLsb'_eq_extractLsb' rfl

theorem lo_join : (c.extractLsb' 5 2 ++ c.extractLsb' 2 3 : BitVec 5) = c.extractLsb' 2 5 :=
  BitVec.extractLsb'_append_extractLsb'_eq_extractLsb' rfl

theorem legal_of_expand0 (hop : c.extractLsb' 0 2 = 0#2)
    (h : (rvcExpand0 c).illegal = false) : Legal c := by
  have hcl := formCL_join c hop
  rcases eq_or_of_three (c.extractLsb' 13 3) with h3 | h3 | h3 | h3 | h3 | h3 | h3 | h3 <;>
    rw [h3] at hcl
  case inl =>
    refine ⟨.addi4spn (c.extractLsb' 2 3) (c.extractLsb' 7 4 ++ c.extractLsb' 11 2 ++
      c.extractLsb' 5 1 ++ c.extractLsb' 6 1), ?_, ?_⟩
    · intro h0
      simp only [rvcExpand0, h3, h0] at h
      cases h
    · conv => rhs; rw [← form_fields c, hop, h3]
      simp (disch := omega) only [encode, Nat.reduceSub, BitVec.extractLsb'_append_eq_of_le,
        BitVec.extractLsb'_append_eq_of_add_le, Rv32.extract_extract,
        BitVec.extractLsb'_append_extractLsb'_eq_extractLsb']
  case inr.inr.inl => exact ⟨.lw _ _ _, trivial, hcl⟩
  case inr.inr.inr.inr.inr.inr.inl => exact ⟨.sw _ _ _, trivial, hcl⟩
  all_goals
    rw [rvcExpand0, h3] at h
    cases h

theorem legal_of_expandAlu (hop : c.extractLsb' 0 2 = 1#2) (h3 : c.extractLsb' 13 3 = 4#3)
    (h : (rvcExpandAlu c).illegal = false) : Legal c := by
  have hc := form_fields c
  rw [hop, h3, ← hi_join] at hc
  have hshift : ∀ x, c.extractLsb' 10 2 = x → x = 0#2 ∨ x = 1#2 → c.getLsbD 12 = false := by
    intro x hx h01
    by_contra h12
    rw [Bool.not_eq_false] at h12
    rcases h01 with rfl | rfl <;> simp only [rvcExpandAlu, hx, h12] at h <;> cases h
  rcases eq_or_of_two (c.extractLsb' 10 2) with hsel | hsel | hsel | hsel
  · rw [hsel, b12_zero (hshift _ hsel (.inl rfl))] at hc
    exact ⟨.srli _ _, trivial, hc⟩
  · rw [hsel, b12_zero (hshift _ hsel (.inr rfl))] at hc
    exact ⟨.srai _ _, trivial, hc⟩
  · have hci := formCI_join c
    rw [hop, h3, ← hi_join, hsel] at hci
    exact ⟨.andi _ _, trivial, hci⟩
  · have h12 : c.getLsbD 12 = false := by
      by_contra h12
      rw [Bool.not_eq_false] at h12
      simp only [rvcExpandAlu, hsel, h12] at h
      cases h
    rw [hsel, b12_zero h12, ← lo_join] at hc
    rcases eq_or_of_two (c.extractLsb' 5 2) with h5 | h5 | h5 | h5 <;> rw [h5] at hc
    · exact ⟨.alu .sub _ _, trivial, hc⟩
    · exact ⟨.alu .xor _ _, trivial, hc⟩
    · exact ⟨.alu .or _ _, trivial, hc⟩
    · exact ⟨.alu .and _ _, trivial, hc⟩

theorem legal_of_expand1 (hop : c.extractLsb' 0 2 = 1#2)
    (h : (rvcExpand1 c).illegal = false) : Legal c := by
  have hci := formCI_join c
  have hcj := formCJ_join c hop
  have hcb := formCB_join c hop
  rcases eq_or_of_three (c.extractLsb' 13 3) with h3 | h3 | h3 | h3 | h3 | h3 | h3 | h3 <;>
    rw [h3] at hci hcj hcb <;> rw [hop] at hci
  case inl => exact ⟨.addi _ _, trivial, hci⟩
  case inr.inl => exact ⟨.jal _, trivial, hcj⟩
  case inr.inr.inl => exact ⟨.li _ _, trivial, hci⟩
  case inr.inr.inr.inl =>
    by_cases hsp : c.extractLsb' 7 5 = 2#5
    · refine ⟨.addi16sp (c.extractLsb' 12 1 ++ c.extractLsb' 3 2 ++ c.extractLsb' 5 1 ++
        c.extractLsb' 2 1 ++ c.extractLsb' 6 1), ?_, ?_⟩
      · intro h0
        simp only [rvcExpand1, h3, hsp, h0] at h
        cases h
      · conv => rhs; rw [← form_fields c, hop, h3, hsp]
        simp (disch := omega) only [encode, Nat.reduceSub, BitVec.extractLsb'_append_eq_of_le,
          BitVec.extractLsb'_append_eq_of_add_le, Rv32.extract_extract,
          BitVec.extractLsb'_append_extractLsb'_eq_extractLsb']
    · refine ⟨.lui _ _, ⟨hsp, ?_⟩, hci⟩
      intro h0
      have hsp' : (c.extractLsb' 7 5 == 2#5) = false := beq_eq_false_iff_ne.mpr hsp
      simp only [rvcExpand1, h3, hsp', h0] at h
      by_cases hrd : (c.extractLsb' 7 5 != 0#5) = true
      · rw [hrd] at h
        cases h
      · rw [Bool.not_eq_true] at hrd
        rw [hrd] at h
        cases h
  case inr.inr.inr.inr.inl =>
    simp only [rvcExpand1, h3] at h
    exact legal_of_expandAlu hop h3 h
  case inr.inr.inr.inr.inr.inl => exact ⟨.j _, trivial, hcj⟩
  case inr.inr.inr.inr.inr.inr.inl => exact ⟨.beqz _ _, trivial, hcb⟩
  case inr.inr.inr.inr.inr.inr.inr => exact ⟨.bnez _ _, trivial, hcb⟩

theorem legal_of_expand2 (hop : c.extractLsb' 0 2 = 2#2)
    (h : (rvcExpand2 c).illegal = false) : Legal c := by
  have hc := form_fields c
  rcases eq_or_of_three (c.extractLsb' 13 3) with h3 | h3 | h3 | h3 | h3 | h3 | h3 | h3 <;>
    rw [h3, hop] at hc
  case inl =>
    have h12 : c.getLsbD 12 = false := by
      by_contra h12
      rw [Bool.not_eq_false] at h12
      simp only [rvcExpand2, h3, h12] at h
      cases h
    rw [b12_zero h12] at hc
    exact ⟨.slli _ _, trivial, hc⟩
  case inr.inr.inl =>
    refine ⟨.lwsp (c.extractLsb' 7 5) (c.extractLsb' 2 2 ++ c.extractLsb' 12 1 ++
      c.extractLsb' 4 3), ?_, ?_⟩
    · intro h0
      simp only [rvcExpand2, h3, h0] at h
      cases h
    · conv => rhs; rw [← hc]
      simp (disch := omega) only [encode, Nat.reduceSub, BitVec.extractLsb'_append_eq_of_le,
        BitVec.extractLsb'_append_eq_of_add_le, Rv32.extract_extract,
        BitVec.extractLsb'_append_extractLsb'_eq_extractLsb']
  case inr.inr.inr.inr.inl =>
    by_cases hlo : c.extractLsb' 2 5 = 0#5
    · by_cases hhi : c.extractLsb' 7 5 = 0#5
      · cases h12 : c.getLsbD 12 with
        | false =>
            simp only [rvcExpand2, h3, h12, hlo, hhi] at h
            cases h
        | true =>
            rw [b12_one h12, hlo, hhi] at hc
            exact ⟨.ebreak, trivial, hc⟩
      · cases h12 : c.getLsbD 12 with
        | false =>
            rw [b12_zero h12, hlo] at hc
            exact ⟨.jr _, hhi, hc⟩
        | true =>
            rw [b12_one h12, hlo] at hc
            exact ⟨.jalr _, hhi, hc⟩
    · cases h12 : c.getLsbD 12 with
      | false =>
          rw [b12_zero h12] at hc
          exact ⟨.mv _ _, hlo, hc⟩
      | true =>
          rw [b12_one h12] at hc
          exact ⟨.add _ _, hlo, hc⟩
  case inr.inr.inr.inr.inr.inr.inl =>
    refine ⟨.swsp (c.extractLsb' 2 5) (c.extractLsb' 7 2 ++ c.extractLsb' 9 4), trivial, ?_⟩
    conv => rhs; rw [← hc]
    simp (disch := omega) only [encode, Nat.reduceSub, BitVec.extractLsb'_append_eq_of_le,
      BitVec.extractLsb'_append_eq_of_add_le, Rv32.extract_extract,
      BitVec.extractLsb'_append_extractLsb'_eq_extractLsb']
  all_goals
    rw [rvcExpand2, h3] at h
    cases h

theorem legal_of_expand (h : (rvcExpand c).illegal = false) : Legal c := by
  rcases eq_or_of_two (c.extractLsb' 0 2) with hop | hop | hop | hop <;>
    rw [rvcExpand, hop] at h
  · exact legal_of_expand0 hop h
  · exact legal_of_expand1 hop h
  · exact legal_of_expand2 hop h
  · cases h

end Legal

/-! ## Exactness -/

/-- A load of an upper immediate into register 0; it is a hint unless the immediate is 0. -/
def LuiHint (c : BitVec 16) : Prop :=
  c.extractLsb' 0 2 = 0b01#2 ∧ c.extractLsb' 13 3 = 0b011#3 ∧ c.extractLsb' 7 5 = 0#5 ∧
    (c.extractLsb' 12 1 ++ c.extractLsb' 2 5 : BitVec 6) ≠ 0#6

instance (c : BitVec 16) : Decidable (LuiHint c) := inferInstanceAs (Decidable (_ ∧ _ ∧ _ ∧ _))

theorem luiHint_iff (c : BitVec 16) :
    LuiHint c ↔ ∃ imm, imm ≠ 0#6 ∧ encode (.lui 0#5 imm) = c := by
  constructor
  · rintro ⟨hop, h3, hrd, hne⟩
    have hci := formCI_join c
    rw [hop, h3, hrd] at hci
    exact ⟨_, hne, hci⟩
  · rintro ⟨imm, hne, rfl⟩
    refine ⟨form_op _ _ _ _ _, form_f3 _ _ _ _ _, form_hi _ _ _ _ _, ?_⟩
    rw [encode, formCI, form_b12, form_lo,
      BitVec.extractLsb'_append_extractLsb'_eq_extractLsb' (show 5 = 0 + 5 from rfl),
      BitVec.extractLsb'_eq_self]
    exact hne

theorem rvcExpand_luiHint {c : BitVec 16} (h : LuiHint c) : rvcExpand c = rvcIllegal := by
  obtain ⟨hop, h3, hrd, -⟩ := h
  simp only [rvcExpand, rvcExpand1, hop, h3, hrd]
  rfl

/-- The front of the queue is the code `c`, it has been issued to ID, and the operands of EX are
those of `st`. -/
structure Issues (q : Ibuf) (c : BitVec 16) (s : Core) (st : Rv32.State) : Prop where
  count : q.hwCount ≠ 0#4
  code : q.hw0 = c
  id : s.id = q.issue
  pc : q.pcI = st.pc

/-- The expander is right about the code `c`: it tells whether it is an instruction, and what it
makes of an instruction does what the instruction does, two bytes on. -/
structure RvcExact (c : BitVec 16) : Prop where
  illegal : (rvcExpand c).illegal = true ↔ ¬ Legal c
  runs : ∀ i : Rv32c.Instr, i.Defined → encode i = c → ∀ q s st, Issues q c s st →
    s.issued.exOutcome st = exec i st
  hints : ∀ i : Rv32c.Instr, i.Defined → encode i = c → i.Hint → ∀ q s st, Issues q c s st →
    s.issued.exOutcome st = .next { st with pc := st.pc + 2#32 }

theorem Issues.outcome {q : Ibuf} {s : Core} {st : Rv32.State} {i : Rv32c.Instr}
    (hd : i.Defined) (hlui : ∀ imm, i ≠ .lui 0#5 imm) (h : Issues q (encode i) s st) :
    s.issued.exOutcome st = exec i st := by
  have hexp := rvcExpand_encode hd hlui
  have hop : (encode i).extractLsb' 0 2 ≠ 3#2 := by
    intro hop
    rw [rvcExpand, hop] at hexp
    cases congrArg RvcExp.illegal hexp
  have hrvc : q.isRvc = true := by
    simp [Ibuf.isRvc, h.code, h.count, hop]
  have hid : InId s (Rv32.encode (expand i)) st := by
    constructor
    · rw [h.id]
      rfl
    · rw [h.id, Ibuf.issue, h.code, hexp, hrvc]
      rfl
    · rw [h.id, Ibuf.issue, h.code, hexp, hrvc]
      rfl
    · rw [h.id, ← h.pc]
      rfl
  have hlen : s.id.len = 2#32 := by
    rw [h.id, Ibuf.issue, hrvc]
    rfl
  refine issued_exec hid ?_ ?_
  · intro op rd rs1 rs2 hdiv
    cases i <;> cases hdiv
  · rw [hlen]
    exact exec_expand i st

/-- **Compressed instructions.** For every code the expander tells whether it is an instruction,
and ID and EX make of it what the instruction does, but for the hints that load an upper immediate
into register 0, which it takes to be illegal. -/
theorem rvc_exact (c : BitVec 16) : RvcExact c ↔ ¬ LuiHint c := by
  constructor
  · intro h hlui
    obtain ⟨imm, hne, rfl⟩ := (luiHint_iff c).mp hlui
    have hill : (rvcExpand (encode (.lui 0#5 imm))).illegal = true := by
      rw [rvcExpand_luiHint hlui]
      rfl
    exact h.illegal.mp hill ⟨.lui 0#5 imm, ⟨by decide, hne⟩, rfl⟩
  · intro hn
    have hlui : ∀ i : Rv32c.Instr, i.Defined → encode i = c → ∀ imm, i ≠ .lui 0#5 imm := by
      rintro i hd hc imm rfl
      exact hn ((luiHint_iff c).mpr ⟨imm, hd.2, hc⟩)
    have hruns : ∀ i : Rv32c.Instr, i.Defined → encode i = c → ∀ q s st, Issues q c s st →
        s.issued.exOutcome st = exec i st := by
      rintro i hd rfl q s st h
      exact h.outcome hd (hlui i hd rfl)
    refine ⟨?_, hruns, fun i hd hc hh q s st h => ?_⟩
    · constructor
      · rintro hill ⟨i, hd, rfl⟩
        rw [rvcExpand_encode hd (hlui i hd rfl)] at hill
        cases hill
      · intro hl
        by_contra hill
        exact hl (legal_of_expand (Bool.not_eq_true _ ▸ hill))
    · rw [hruns i hd hc q s st h]
      exact exec_hint hh st

/-- `c.lui x0, 1`. -/
theorem lui_hint_refused : ¬ RvcExact 0x6005#16 := by
  intro h
  have hill : (rvcExpand 0x6005#16).illegal = true := rfl
  exact h.illegal.mp hill ⟨.lui 0#5 1#6, ⟨by decide, by decide⟩, rfl⟩

end MelonSoc
