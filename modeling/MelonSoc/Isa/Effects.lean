import MelonSoc.Bus.AtomicMemory
import MelonSoc.Isa.Execution
import MelonSoc.Isa.MulDiv
import MelonSoc.Lib.Rv32Machine
import MelonSoc.Pipeline.InOrder

set_option autoImplicit false

/-! # What an executed instruction does to the instruction set's state

An instruction of the list of executed instructions is decoded, legal and aligned. Its result, its
jump and its transaction are the effect that the instruction set gives to its word, on every state
that holds its operands.
-/

namespace MelonSoc

/-! ## Executed instructions -/

theorem Decoded.gateAtomic_of_legal {d : Decoded} (h : d.illegal = false) : d.gateAtomic = d := by
  cases d
  simp_all [Decoded.gateAtomic]

/-- The program counter behind an instruction that is no return. -/
def IdEx.target (e : IdEx) (rs1 rs2 : Word) : Word :=
  if e.isBranch && e.exTakeBranch rs1 rs2 then e.pc + e.bimm
  else if e.isJALR then clearBit0 (rs1 + e.iimm)
  else if e.isJAL then e.pc + e.jimm
  else e.pc + e.len

/-- The flags are those of the instruction word, for a valid instruction. -/
def IdEx.Decoded (e : IdEx) : Prop :=
  ∃ ill, e.toDecoded = (decode true ill e.instr).gateAtomic

namespace Fired

/-- An instruction that no exception has kept from its execution. -/
structure Sound (f : Fired) : Prop where
  valid : f.insn.valid = true
  decoded : f.insn.Decoded
  legal : f.insn.illegal = false
  aligned : f.insn.exMisaligned (f.insn.exAddr f.rs1) = false
  noCall : f.insn.isECALL = false
  noBreak : f.insn.isEBREAK = false

/-- The state `st` is where `f` stands and holds its operands. -/
structure Reads (f : Fired) (st : Rv32.State) : Prop where
  pc : st.pc = f.insn.pc
  rs1 : st.get f.insn.rs1 = f.rs1
  rs2 : st.get f.insn.rs2 = f.rs2

end Fired

theorem exJump_target {s : Core} (c : s.idEx.Classes) (hv : s.idEx.valid = true) (a b : Word) :
    (s.exJump a b).getD (s.idEx.pc + s.idEx.len) = s.idEx.target a b := by
  have hs : s.idEx.isSFENCE = true → s.idEx.isBranch = false ∧ s.idEx.isJALR = false ∧
      s.idEx.isJAL = false := by
    intro h
    have hop := c.sfence h
    cases c
    simp_all
  unfold Core.exJump IdEx.target
  simp only [hv, if_true]
  by_cases h : (s.idEx.isSFENCE && !s.xretIllegal) = true
  · simp only [Bool.and_eq_true] at h
    obtain ⟨h1, h2, h3⟩ := hs h.1
    simp [h.1, h.2, h1, h2, h3]
  · rw [if_neg h]
    split
    · rfl
    · split
      · rfl
      · split
        · rfl
        · rfl

namespace Fired.Sound

variable {f : Fired} {i : Rv32.Instr} {st : Rv32.State} {x : Rv32.Answer}

theorem decodes (h : f.Sound) : f.insn.Decodes := by
  obtain ⟨ill, hd⟩ := h.decoded
  exact ⟨true, ill, hd⟩

theorem decode_eq (h : f.Sound) : f.insn.toDecoded = decode true false f.insn.instr := by
  obtain ⟨ill, hd⟩ := h.decoded
  have hill : (decode true ill f.insn.instr).illegal = false := by
    rw [← h.legal, hd]
    rfl
  have hno : ill = false := by
    cases ill with
    | false => rfl
    | true => simp [decode] at hill
  subst hno
  rw [hd, Decoded.gateAtomic_of_legal hill]

/-- The fields of the instruction are those of its word. -/
theorem fields (h : f.Sound) :
    f.insn.rs1 = rs1Of f.insn.instr ∧ f.insn.rs2 = rs2Of f.insn.instr ∧
      f.insn.rd = rdOf f.insn.instr ∧ f.insn.funct3 = funct3Of f.insn.instr ∧
      f.insn.funct7 = funct7Of f.insn.instr ∧ f.insn.uimm = uimmOf f.insn.instr ∧
      f.insn.iimm = iimmOf f.insn.instr ∧ f.insn.simm = simmOf f.insn.instr ∧
      f.insn.bimm = bimmOf f.insn.instr ∧ f.insn.jimm = jimmOf f.insn.instr := by
  rw [h.decode_eq]
  exact ⟨rfl, rfl, rfl, rfl, rfl, rfl, rfl, rfl, rfl, rfl⟩

theorem flagged (h : f.Sound) (hi : Rv32.encode i = f.insn.instr) :
    Flagged f.insn (flagsOf i) := by
  have hlegal : (decode true false f.insn.instr).illegal = false := by
    rw [← h.decode_eq]
    exact h.legal
  have hfence : ¬ FenceIFields (Rv32.encode i) := by
    intro hf
    rw [hi] at hf
    rw [decode_fenceI hf] at hlegal
    cases hlegal
  refine ⟨h.valid, h.legal, fun fl => ?_⟩
  rw [h.decode_eq, ← hi]
  exact (decodes_encode i hfence).2 fl

/-- The word is an instruction of the instruction set, or its `funct7` is a reserved one. -/
theorem encodes (h : f.Sound) :
    ReservedFunct7 f.insn.instr ∨ ∃ i, Rv32.encode i = f.insn.instr := by
  by_cases hr : ReservedFunct7 f.insn.instr
  · exact .inl hr
  · refine .inr (legal_of_decode ?_ hr)
    rw [← h.decode_eq]
    exact h.legal

/-- A reserved `funct7` belongs to an operation on registers. -/
theorem reserved (h : f.Sound) (hr : ReservedFunct7 f.insn.instr) :
    f.insn.isMem = false ∧ f.insn.isReturn = false ∧
      f.insn.target f.rs1 f.rs2 = f.insn.pc + f.insn.len := by
  have hop : opcodeOf f.insn.instr = 0b0110011#7 ∨ opcodeOf f.insn.instr = 0b0010011#7 := by
    rcases hr with ⟨h, -⟩ | ⟨h, -⟩ | ⟨h, -⟩
    · exact .inl h
    · exact .inr h
    · exact .inr h
  have c := h.decodes.classes
  have hret : f.insn.isReturn = false := by
    by_contra hc
    have hc' : f.insn.instr = 0x30200073#32 ∨ f.insn.instr = 0x10200073#32 := by
      simp only [IdEx.isReturn, Bool.not_eq_false, Bool.or_eq_true] at hc
      exact hc.imp c.mret c.sret
    rcases hc' with h | h <;> rw [h] at hop <;> revert hop <;> decide
  refine ⟨?_, hret, ?_⟩
  · cases c
    rcases hop with hop | hop <;> simp_all [IdEx.isMem]
  · cases c
    rcases hop with hop | hop <;> simp_all [IdEx.target]

/-- An instruction that computes a value goes on behind itself. -/
theorem value (h : f.Sound) {fl : DecodeFlag} (hfl : Flagged f.insn [fl])
    (hf : fl = .isLUI ∨ fl = .isAUIPC ∨ fl = .isALUimm ∨ fl = .isALUreg ∨ fl = .isMUL ∨
      fl = .isDIV ∨ fl = .isCSRRW ∨ fl = .isCSRRS ∨ fl = .isCSRRC) :
    f.dest = rdOf f.insn.instr ∧ f.insn.isReturn = false ∧
      f.insn.target f.rs1 f.rs2 = f.insn.pc + f.insn.len := by
  have hmret : f.insn.isMRET = decide (.isMRET ∈ [fl]) := hfl.flags .isMRET
  have hsret : f.insn.isSRET = decide (.isSRET ∈ [fl]) := hfl.flags .isSRET
  rcases hf with rfl | rfl | rfl | rfl | rfl | rfl | rfl | rfl | rfl <;>
    simp [Fired.dest, IdEx.writesReg, IdEx.plainWrite, IdEx.isReturn, IdEx.target, hfl.fields,
      hmret, hsret, h.fields]

/-- An instruction that only moves the program counter on. -/
theorem idle {fs : List DecodeFlag} (hfl : Flagged f.insn fs)
    (hf : fs = [] ∨ fs = [.isWFI] ∨ fs = [.isSFENCE]) :
    f.dest = 0#5 ∧ f.insn.isReturn = false ∧
      f.insn.target f.rs1 f.rs2 = f.insn.pc + f.insn.len := by
  have hmret : f.insn.isMRET = decide (.isMRET ∈ fs) := hfl.flags .isMRET
  have hsret : f.insn.isSRET = decide (.isSRET ∈ fs) := hfl.flags .isSRET
  rcases hf with rfl | rfl | rfl <;>
    simp [Fired.dest, IdEx.writesReg, IdEx.plainWrite, IdEx.isReturn, IdEx.target, hfl.fields,
      hmret, hsret]

theorem jump (h : f.Sound) {fl : DecodeFlag} (hfl : Flagged f.insn [fl])
    (hf : fl = .isJAL ∨ fl = .isJALR ∨ fl = .isBranch) :
    f.insn.isReturn = false ∧ f.dest = (if fl = .isBranch then 0#5 else rdOf f.insn.instr) ∧
      f.insn.resultOf f.rs1 f.rs2 f.csrRdata
        = (if fl = .isBranch then 0#32 else f.insn.pc + f.insn.len) := by
  have hmret : f.insn.isMRET = decide (.isMRET ∈ [fl]) := hfl.flags .isMRET
  have hsret : f.insn.isSRET = decide (.isSRET ∈ [fl]) := hfl.flags .isSRET
  rcases hf with rfl | rfl | rfl <;>
    simp [Fired.dest, IdEx.writesReg, IdEx.plainWrite, IdEx.isReturn, IdEx.resultOf, hfl.fields,
      hmret, hsret, h.fields]

/-- A return from a trap writes no register. -/
theorem ret {fl : DecodeFlag} (hfl : Flagged f.insn [fl])
    (hf : fl = .isMRET ∨ fl = .isSRET) : f.insn.isReturn = true ∧ f.dest = 0#5 := by
  have hmret : f.insn.isMRET = decide (.isMRET ∈ [fl]) := hfl.flags .isMRET
  have hsret : f.insn.isSRET = decide (.isSRET ∈ [fl]) := hfl.flags .isSRET
  rcases hf with rfl | rfl <;>
    simp [Fired.dest, IdEx.writesReg, IdEx.plainWrite, IdEx.isReturn, hfl.fields, hmret, hsret]

/-- An instruction without an access has the effect of its word. -/
theorem effect_plain (h : f.Sound) (hi : Rv32.encode i = f.insn.instr) (hr : f.Reads st)
    (hm : f.insn.isMem = false) (hc : x.csr = f.csrRdata) :
    Rv32.effect f.insn.len x i st =
      some { st.set f.dest (f.insn.resultOf f.rs1 f.rs2 f.csrRdata) with
        pc := if f.insn.isReturn then x.epc else f.insn.target f.rs1 f.rs2 } := by
  have hfl := h.flagged hi
  have hfd := h.fields
  have hrs1 := hr.rs1
  have hrs2 := hr.rs2
  rw [hfd.1, ← hi] at hrs1
  rw [hfd.2.1, ← hi] at hrs2
  cases i with
  | lui rd imm | auipc rd imm =>
      obtain ⟨hd, hret, ht⟩ := h.value hfl (by simp)
      rw [hd, hret, ht]
      simp [Rv32.effect, Rv32.exec, Rv32.Outcome.state, IdEx.resultOf, hfl.fields, flagsOf, hfd,
        ← hi, Rv32.encode, hr.pc]
  | jal rd offset =>
      obtain ⟨hret, hd, hv⟩ := h.jump hfl (by simp)
      rw [hd, hret, hv]
      simp [Rv32.effect, Rv32.exec, Rv32.Outcome.state, IdEx.target, hfl.fields, flagsOf, hfd,
        ← hi, Rv32.encode, hr.pc]
  | jalr rd rs1 offset =>
      obtain ⟨hret, hd, hv⟩ := h.jump hfl (by simp)
      rw [hd, hret, hv, ← hrs1]
      simp [Rv32.effect, Rv32.exec, Rv32.Outcome.state, IdEx.target, hfl.fields, flagsOf, hfd,
        ← hi, Rv32.encode, hr.pc, clearBit0]
  | branch op rs1 rs2 offset =>
      obtain ⟨hret, hd, hv⟩ := h.jump hfl (by simp)
      have htake := exTakeBranch_eq (e := f.insn) f.rs1 f.rs2 op (by simp [hfd, ← hi, Rv32.encode])
      rw [hd, hret, hv, IdEx.target, htake, ← hrs1, ← hrs2]
      simp [Rv32.effect, Rv32.exec, Rv32.Outcome.state, hfl.fields, flagsOf, hfd, ← hi,
        Rv32.encode, hr.pc]
  | imm op rd rs1 imm =>
      have h1 : st.get rs1 = f.rs1 := by simpa [Rv32.encode] using hrs1
      obtain ⟨hd, hret, ht⟩ := h.value hfl (by simp)
      have hv := exAluOut_imm (e := f.insn) f.rs1 f.rs2 op (by simp [hfl.fields, flagsOf])
        (by simp [hfd, ← hi, Rv32.encode])
      rw [hd, hret, ht]
      simp [Rv32.effect, Rv32.exec, Rv32.Outcome.state, IdEx.resultOf, hfl.fields, flagsOf, hv, hfd,
        ← hi, Rv32.encode, hr.pc, h1]
  | shift op rd rs1 shamt =>
      have h1 : st.get rs1 = f.rs1 := by simpa [Rv32.encode] using hrs1
      obtain ⟨hd, hret, ht⟩ := h.value hfl (by simp)
      have hv := exAluOut_shift (e := f.insn) f.rs1 f.rs2 op (by simp [hfl.fields, flagsOf])
        (by simp [hfd, ← hi, Rv32.encode]) (by simp [hfd, ← hi, Rv32.encode])
      rw [hd, hret, ht]
      simp [Rv32.effect, Rv32.exec, Rv32.Outcome.state, IdEx.resultOf, hfl.fields, flagsOf, hv,
        ← hi, Rv32.encode, hr.pc, h1]
  | reg op rd rs1 rs2 =>
      have h1 : st.get rs1 = f.rs1 := by simpa [Rv32.encode] using hrs1
      have h2 : st.get rs2 = f.rs2 := by simpa [Rv32.encode] using hrs2
      obtain ⟨hd, hret, ht⟩ := h.value hfl (by simp)
      have hv := exAluOut_reg (e := f.insn) f.rs1 f.rs2 op (by simp [hfl.fields, flagsOf])
        (by simp [hfd, ← hi, Rv32.encode]) (by simp [hfd, ← hi, Rv32.encode])
      rw [hd, hret, ht]
      simp [Rv32.effect, Rv32.exec, Rv32.Outcome.state, IdEx.resultOf, hfl.fields, flagsOf, hv,
        ← hi, Rv32.encode, hr.pc, h1, h2]
  | mul op rd rs1 rs2 =>
      have h1 : st.get rs1 = f.rs1 := by simpa [Rv32.encode] using hrs1
      have h2 : st.get rs2 = f.rs2 := by simpa [Rv32.encode] using hrs2
      obtain ⟨hd, hret, ht⟩ := h.value hfl (by simp)
      have hv := exMul_eq (e := f.insn) f.rs1 f.rs2 op (by simp [hfd, ← hi, Rv32.encode])
      rw [hd, hret, ht]
      simp [Rv32.effect, Rv32.exec, Rv32.Outcome.state, IdEx.resultOf, hfl.fields, flagsOf, hv,
        ← hi, Rv32.encode, hr.pc, h1, h2]
  | div op rd rs1 rs2 =>
      have h1 : st.get rs1 = f.rs1 := by simpa [Rv32.encode] using hrs1
      have h2 : st.get rs2 = f.rs2 := by simpa [Rv32.encode] using hrs2
      obtain ⟨hd, hret, ht⟩ := h.value hfl (by simp)
      have hf3 : f.insn.funct3 = op.funct3 := by simp [hfd, ← hi, Rv32.encode]
      have hv : f.insn.resultOf f.rs1 f.rs2 f.csrRdata = op.value f.rs1 f.rs2 := by
        rw [← quotRem_eq, ← hf3, IdEx.resultOf]
        simp [hfl.fields, flagsOf]
      rw [hd, hret, ht, hv]
      simp [Rv32.effect, Rv32.exec, Rv32.Outcome.state, ← hi, Rv32.encode, hr.pc, h1, h2]
  | csr op rd rs1 csr | csrImm op rd uimm csr =>
      cases op <;>
        obtain ⟨hd, hret, ht⟩ := h.value hfl (by simp [csrFlag]) <;>
        rw [hd, hret, ht] <;>
        simp [Rv32.effect, IdEx.resultOf, hfl.fields, flagsOf, csrFlag, ← hi, Rv32.encode, hr.pc,
          hc]
  | fence | fenceI | wfi | sfenceVma =>
      obtain ⟨hd, hret, ht⟩ := idle hfl (by simp [flagsOf])
      rw [hd, hret, ht]
      simp [Rv32.effect, Rv32.exec, Rv32.Outcome.state, hr.pc]
  | mret | sret =>
      obtain ⟨hret, hd⟩ := ret hfl (by simp)
      rw [hret, hd]
      simp [Rv32.effect]
  | ecall => exact absurd h.noCall (by simp [show f.insn.isECALL = _ from hfl.flags .isECALL, flagsOf])
  | ebreak =>
      exact absurd h.noBreak (by simp [show f.insn.isEBREAK = _ from hfl.flags .isEBREAK, flagsOf])
  | load | store | lr | sc | amo => simp [IdEx.isMem, hfl.fields, flagsOf] at hm

end Fired.Sound

/-! ## Words in a memory of bytes -/

/-- The memory `m` with the word `w` around `adr`. -/
def wordMem (m : Word → BitVec 8) (adr w : Word) : Word → BitVec 8 := fun y =>
  if wordOf y = wordOf adr then laneByte w (laneOf y) else m y

/-- The memory after the transaction `t`. -/
def Txn.store (t : Txn) (m : Word → BitVec 8) : Word → BitVec 8 :=
  if t.we then wordMem m t.adr (mergeBytes (wordAround m t.adr) t.datW t.sel) else m

theorem byteAt_wordMem (m : Word → BitVec 8) (a w : Word) :
    byteAt (fun y => if wordOf y = wordOf a then w else wordAround m y) = wordMem m a w := by
  funext y
  rw [byteAt, wordMem, apply_ite (fun w => laneByte w (laneOf y))]
  split
  · rfl
  · exact congrFun (byteAt_wordAround m) y

/-- What a load makes of a word that is put into a memory. -/
theorem load_wordMem {op : Rv32.LoadOp} {a : Word} (ha : op.aligned a = true)
    (m : Word → BitVec 8) (w : Word) :
    op.value (wordMem m a w) a = formatLoadData w op.funct3 (a.extractLsb' 0 2) := by
  have h := @formatLoadData_eq op (fun y => if wordOf y = wordOf a then w else wordAround m y) a
    ha (fun x hx => by simp [hx])
  rw [byteAt_wordMem] at h
  simpa using h.symm

/-- A store of a word puts the word there. -/
theorem write_word {a : Word} (ha : a.toNat % 4 = 0) (v : Word) (m : Word → BitVec 8) :
    Rv32.StoreOp.sw.write a v m = wordMem m a v := by
  have hl : laneOf a = 0 := by rw [laneOf_eq]; exact ha
  funext y
  have hsub : (y - a).toNat < 4 ↔ wordOf y = wordOf a := by
    rw [sub_lt_iff (.inr (.inr rfl)) ha, hl]
    have hlt := laneOf_lt y
    constructor
    · exact fun h => h.1
    · exact fun h => ⟨h, by omega⟩
  rw [Rv32.StoreOp.write, wordMem]
  show (if (y - a).toNat < 4 then _ else _) = _
  by_cases hw : wordOf y = wordOf a
  · rw [if_pos (hsub.mpr hw), if_pos hw, sub_eq_lanes hw (by omega), hl]
    rfl
  · rw [if_neg fun h => hw (hsub.mp h), if_neg hw]

/-- The word around an address of a memory that holds it. -/
theorem wordMem_wordAround (m : Word → BitVec 8) (a : Word) : wordMem m a (wordAround m a) = m := by
  rw [← byteAt_wordMem]
  have h : (fun y => if wordOf y = wordOf a then wordAround m a else wordAround m y)
      = wordAround m := by
    funext y
    split
    · rename_i hy
      exact wordAround_congr m hy.symm
    · rfl
  rw [h, byteAt_wordAround]

/-! ## Accesses -/

/-- Two addresses with the same offset in their pages. -/
theorem toNat_of_offset {p a : Word} (h : p.extractLsb' 0 12 = a.extractLsb' 0 12) :
    p.toNat % 4096 = a.toNat % 4096 := by
  have h' := congrArg BitVec.toNat h
  simpa using h'

theorem low_of_offset {p a : Word} (h : p.extractLsb' 0 12 = a.extractLsb' 0 12) :
    p.extractLsb' 0 2 = a.extractLsb' 0 2 := by
  have hn := toNat_of_offset h
  apply BitVec.eq_of_toNat_eq
  rw [BitVec.extractLsb'_toNat, BitVec.extractLsb'_toNat, Nat.shiftRight_zero, Nat.shiftRight_zero]
  omega

theorem aligned_load_of_offset {op : Rv32.LoadOp} {p a : Word}
    (h : p.extractLsb' 0 12 = a.extractLsb' 0 12) : op.aligned p = op.aligned a := by
  have hn := toNat_of_offset h
  have h2 : p.toNat % 2 = a.toNat % 2 := by omega
  have h4 : p.toNat % 4 = a.toNat % 4 := by omega
  cases op <;> simp [Rv32.LoadOp.aligned, h2, h4]

theorem aligned_store_of_offset {op : Rv32.StoreOp} {p a : Word}
    (h : p.extractLsb' 0 12 = a.extractLsb' 0 12) : op.aligned p = op.aligned a := by
  have hn := toNat_of_offset h
  have h2 : p.toNat % 2 = a.toNat % 2 := by omega
  have h4 : p.toNat % 4 = a.toNat % 4 := by omega
  cases op <;> simp [Rv32.StoreOp.aligned, Rv32.StoreOp.bytes, h2, h4, Nat.mod_one]

/-- The lanes of a store depend on the lowest bits of its address. -/
theorem lanes_of_low {e : IdEx} {p a : Word} (h : p.extractLsb' 0 2 = a.extractLsb' 0 2) (v : Word) :
    e.exStoreWdata p v = e.exStoreWdata a v ∧ e.exStoreMask p = e.exStoreMask a := by
  have hbit : ∀ k, k < 2 → p.getLsbD k = a.getLsbD k := by
    intro k hk
    have h' := congrArg (fun l => BitVec.getLsbD l k) h
    simpa [hk] using h'
  simp only [IdEx.exStoreWdata, IdEx.exStoreMask, hbit 0 (by decide), hbit 1 (by decide), and_self]

theorem amoValue_funct5 (op : Rv32.AmoOp) (a b : Word) : amoValue op.funct5 a b = op.value a b := by
  cases op <;> rfl

namespace Fired

/-- The access of `f` has been translated within its page. -/
def Placed (f : Fired) : Prop :=
  f.paddr.extractLsb' 0 12 = (f.insn.exAddr f.rs1).extractLsb' 0 12

namespace Sound

variable {f : Fired} {i : Rv32.Instr} {st : Rv32.State} {x : Rv32.Answer}

/-- A load has the effect of its word when it receives the word around its address. -/
theorem effect_load (h : f.Sound) (hi : Rv32.encode i = f.insn.instr) (hr : f.Reads st)
    (hp : f.Placed) (hl : f.insn.isLoad = true) (hx : x.phys = f.paddr) {w : Word}
    (hs : x.seen = wordMem st.mem f.paddr w) :
    Rv32.effect f.insn.len x i st =
      some { st.set f.dest (formatLoadData w f.insn.funct3 (f.paddr.extractLsb' 0 2)) with
        pc := f.insn.pc + f.insn.len } := by
  have hfl := h.flagged hi
  have hfd := h.fields
  cases i with
  | load op rd rs1 offset =>
      have hf3 : f.insn.funct3 = op.funct3 := by simp [hfd, ← hi, Rv32.encode]
      have h1 : st.get rs1 = f.rs1 := by
        rw [← hr.rs1, hfd.1, ← hi]
        simp [Rv32.encode]
      have ha : f.insn.exAddr f.rs1 = st.get rs1 + offset.signExtend 32 := by
        simp [IdEx.exAddr, hfl.fields, flagsOf, hfd, ← hi, Rv32.encode, h1]
      have hal : op.aligned (f.insn.exAddr f.rs1) = true := by
        have hmis := h.aligned
        rw [exMisaligned_load _ hfl hf3] at hmis
        simpa using hmis
      have hpal : op.aligned f.paddr = true := by rw [aligned_load_of_offset hp, hal]
      have hd : f.dest = rd := by
        simp [Fired.dest, IdEx.writesReg, hfl.fields, flagsOf, hfd, ← hi, Rv32.encode]
      rw [Rv32.effect, ← ha, hal, Rv32.Answer.maps, hx, hp, hs, load_wordMem hpal, hd, hf3, hr.pc]
      simp
  | csr op | csrImm op => cases op <;> simp [hfl.fields, flagsOf, csrFlag] at hl
  | _ => simp [hfl.fields, flagsOf] at hl

/-- A store has the effect of its word. -/
theorem effect_store (h : f.Sound) (hi : Rv32.encode i = f.insn.instr) (hr : f.Reads st)
    (hp : f.Placed) (hl : f.insn.isStore = true) (hx : x.phys = f.paddr) {t : Txn}
    (ht : f.txn = some t) :
    Rv32.effect f.insn.len x i st =
      some { st with mem := t.store st.mem, pc := f.insn.pc + f.insn.len } := by
  have hfl := h.flagged hi
  have hfd := h.fields
  cases i with
  | store op rs1 rs2 offset =>
      have hf3 : f.insn.funct3 = op.funct3 := by simp [hfd, ← hi, Rv32.encode]
      have h1 : st.get rs1 = f.rs1 := by
        rw [← hr.rs1, hfd.1, ← hi]
        simp [Rv32.encode]
      have h2 : st.get rs2 = f.rs2 := by
        rw [← hr.rs2, hfd.2.1, ← hi]
        simp [Rv32.encode]
      have ha : f.insn.exAddr f.rs1 = st.get rs1 + offset.signExtend 32 := by
        simp [IdEx.exAddr, hfl.fields, flagsOf, hfd, ← hi, Rv32.encode, h1]
      have hal : op.aligned (f.insn.exAddr f.rs1) = true := by
        have hmis := h.aligned
        rw [exMisaligned_store _ hfl hf3] at hmis
        simpa using hmis
      have hpal : op.aligned f.paddr = true := by rw [aligned_store_of_offset hp, hal]
      obtain ⟨hdat, hsel⟩ := lanes_of_low (e := f.insn) (low_of_offset hp) f.rs2
      rw [Fired.txn, if_pos (by simp [hl]), hl] at ht
      obtain rfl := Option.some.inj ht
      have hstore : op.write f.paddr f.rs2 st.mem = Txn.store
          { adr := f.paddr, datW := f.insn.exStoreWdata (f.insn.exAddr f.rs1) f.rs2
            sel := f.insn.exStoreMask (f.insn.exAddr f.rs1), we := true } st.mem := by
        funext y
        rw [← laneByte_store f.paddr hl hf3 hpal st.mem y, hdat, hsel]
        rfl
      rw [Rv32.effect, ← ha, hal, Rv32.Answer.maps, hx, hp, h2, hstore, hr.pc]
      simp
  | csr op | csrImm op => cases op <;> simp [hfl.fields, flagsOf, csrFlag] at hl
  | _ => simp [hfl.fields, flagsOf] at hl

/-- The address of an atomic instruction and where its word is. -/
theorem atomic_access (h : f.Sound) (hr : f.Reads st) (hp : f.Placed)
    (ha : f.insn.isAtomic = true) :
    f.insn.exAddr f.rs1 = f.rs1 ∧ st.get (rs1Of f.insn.instr) = f.rs1 ∧
      st.get (rs2Of f.insn.instr) = f.rs2 ∧ Rv32.LoadOp.lw.aligned f.rs1 = true ∧
      Rv32.LoadOp.lw.aligned f.paddr = true ∧ f.dest = rdOf f.insn.instr := by
  have hadr : f.insn.exAddr f.rs1 = f.rs1 := by simp [IdEx.exAddr, ha]
  have hmis := h.aligned
  rw [Fired.Placed, hadr] at hp
  rw [hadr, IdEx.exMisaligned, h.valid, (low_bits f.rs1).1] at hmis
  have hal : Rv32.LoadOp.lw.aligned f.rs1 = true := by
    rw [Rv32.LoadOp.aligned]
    simp only [ha, Bool.true_or, Bool.true_and, Bool.or_eq_false_iff, Bool.not_eq_false'] at hmis
    exact hmis.1
  refine ⟨hadr, ?_, ?_, hal, ?_, ?_⟩
  · rw [← hr.rs1, h.fields.1]
  · rw [← hr.rs2, h.fields.2.1]
  · rw [aligned_load_of_offset hp, hal]
  · simp [Fired.dest, IdEx.writesReg, ha, h.fields]

/-- An atomic has the effect of its word: `w` is the word that it reads, and an SC stores if its
reservation is held. -/
theorem effect_atomic (h : f.Sound) (hi : Rv32.encode i = f.insn.instr) (hr : f.Reads st)
    (hp : f.Placed) (ha : f.insn.isAtomic = true) (hx : x.phys = f.paddr) {w : Word}
    (hs : x.seen = wordMem st.mem f.paddr w) :
    Rv32.effect f.insn.len x i st =
      some { st.set f.dest (if f.insn.isSC then (if x.held then 0#32 else 1#32) else w) with
        mem := if f.insn.isLR then st.mem
          else if f.insn.isSC then (if x.held then wordMem st.mem f.paddr f.rs2 else st.mem)
          else wordMem st.mem f.paddr (amoValue (funct5Of f.insn.instr) w f.rs2)
        pc := f.insn.pc + f.insn.len } := by
  have hfl := h.flagged hi
  have hsc : f.insn.isSC = decide (.isSC ∈ flagsOf i) := hfl.flags .isSC
  obtain ⟨hadr, h1, h2, hal, hpal, hd⟩ := h.atomic_access hr hp ha
  have hmod : f.paddr.toNat % 4 = 0 := by simpa [Rv32.LoadOp.aligned] using hpal
  have hload : Rv32.LoadOp.lw.value (wordMem st.mem f.paddr w) f.paddr = w := by
    rw [load_wordMem hpal]
    rfl
  rw [Fired.Placed, hadr] at hp
  cases i with
  | lr rd rs1 order =>
      have h1' : st.get rs1 = f.rs1 := by simpa [← hi, Rv32.encode] using h1
      have hrd : f.dest = rd := by simpa [← hi, Rv32.encode] using hd
      rw [Rv32.effect, h1', hal, Rv32.Answer.maps, hx, hp, hs, hload, hr.pc, hrd, hsc]
      simp [hfl.fields, flagsOf]
  | sc rd rs1 rs2 order =>
      have h1' : st.get rs1 = f.rs1 := by simpa [← hi, Rv32.encode] using h1
      have h2' : st.get rs2 = f.rs2 := by simpa [← hi, Rv32.encode] using h2
      have hrd : f.dest = rd := by simpa [← hi, Rv32.encode] using hd
      rw [Rv32.effect, h1', hal, Rv32.Answer.maps, hx, hp, h2', write_word hmod, hr.pc, hrd, hsc]
      cases x.held <;> simp [hfl.fields, flagsOf]
  | amo op rd rs1 rs2 order =>
      have h1' : st.get rs1 = f.rs1 := by simpa [← hi, Rv32.encode] using h1
      have h2' : st.get rs2 = f.rs2 := by simpa [← hi, Rv32.encode] using h2
      have hrd : f.dest = rd := by simpa [← hi, Rv32.encode] using hd
      have hf5 : funct5Of f.insn.instr = op.funct5 := by
        rw [← hi, Rv32.encode, funct5Of_form]
        exact BitVec.extractLsb'_append_eq_left
      rw [Rv32.effect, h1', hal, Rv32.Answer.maps, hx, hp, hs, hload, h2', write_word hmod, hr.pc,
        hrd, hsc, hf5, amoValue_funct5]
      simp [hfl.fields, flagsOf]
  | csr op | csrImm op => cases op <;> simp [hfl.fields, flagsOf, csrFlag] at ha
  | _ => simp [hfl.fields, flagsOf] at ha

end Sound

end Fired

end MelonSoc
