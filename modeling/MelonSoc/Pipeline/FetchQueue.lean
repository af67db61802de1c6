import MelonSoc.Lib.BitFields
import MelonSoc.Pipeline.ProgramOrder

set_option autoImplicit false

/-! # The halfword queue as a sequence

`ibuf` and its two flag vectors hold up to eight halfwords. `Ibuf.halfword` reads one of them,
and every operation of the queue is described by the halfwords it leaves at each place.
-/

namespace MelonSoc

/-- A halfword of the instruction stream and how the fetch of its word failed. -/
structure Halfword where
  bits : BitVec 16
  fault : Bool
  pageFault : Bool
deriving DecidableEq

/-- The lower halfword of a fetched word. -/
def lowHalf (word : Word) (fault pageFault : Bool) : Halfword :=
  ⟨word.extractLsb' 0 16, fault, pageFault⟩

/-- The upper halfword of a fetched word. -/
def highHalf (word : Word) (fault pageFault : Bool) : Halfword :=
  ⟨word.extractLsb' 16 16, fault, pageFault⟩

/-! ## Writing into the vectors -/

theorem putHw_eq (ibuf : BitVec 128) (k : Nat) (hw : BitVec 16) :
    putHw ibuf k hw = BitFields.put ibuf (16 * k) hw := by
  have hmask : 0xFFFF#128 = (BitVec.allOnes 16).setWidth 128 := by decide
  rw [putHw, BitFields.put, hmask]

/-- `putHw` changes one halfword. -/
theorem putHw_half (ibuf : BitVec 128) (k j : Nat) (hw : BitVec 16) (hj : j < 8) :
    (putHw ibuf k hw).extractLsb' (16 * j) 16
      = if j = k then hw else ibuf.extractLsb' (16 * j) 16 := by
  rw [putHw_eq]
  exact BitFields.put_field ibuf k j hw (by omega)

/-- The mask of two flags. -/
theorem flagMask_bit (n : Nat) : (3#8).getLsbD n = decide (n < 2) := by
  have h : (3 : Nat) = 2 ^ 2 - 1 := by decide
  rw [BitVec.getLsbD_ofNat, h, Nat.testBit_two_pow_sub_one]
  by_cases hn : n < 2
  · have : n < 8 := by omega
    simp [hn, this]
  · simp [hn]

/-- `putFlags` changes two flags. -/
theorem putFlags_bit (flags : BitVec 8) (k j : Nat) (b : Bool) (hj : j < 8) :
    (putFlags flags k b).getLsbD j = if j = k ∨ j = k + 1 then b else flags.getLsbD j := by
  have hmask : (3#8 <<< k).getLsbD j = decide (j = k ∨ j = k + 1) := by
    rw [BitVec.getLsbD_shiftLeft, flagMask_bit]
    by_cases h : j < k
    · have h2 : ¬ (j = k ∨ j = k + 1) := by omega
      simp [h, h2]
    · by_cases h3 : j - k < 2
      · have h2 : j = k ∨ j = k + 1 := by omega
        simp [h, h3, h2, hj]
      · have h2 : ¬ (j = k ∨ j = k + 1) := by omega
        simp [h3, h2]
  unfold putFlags
  cases b with
  | true =>
      rw [if_pos rfl, BitVec.getLsbD_or, hmask]
      by_cases h : j = k ∨ j = k + 1
      · simp [h]
      · simp [h]
  | false =>
      rw [if_neg (by decide), BitVec.getLsbD_and, BitVec.getLsbD_not, hmask]
      by_cases h : j = k ∨ j = k + 1
      · simp [h]
      · simp [h, hj]

/-! ## The operations -/

namespace Ibuf

variable {q : Ibuf} {word : Word} {fault pageFault : Bool} {k n : Nat}

/-- The halfword at place `k` of the queue. -/
def halfword (q : Ibuf) (k : Nat) : Halfword :=
  ⟨q.ibuf.extractLsb' (16 * k) 16, q.fetchFault.getLsbD k, q.fetchPageFault.getLsbD k⟩

/-- The number of halfwords in the queue. -/
def count (q : Ibuf) : Nat := q.hwCount.toNat

theorem push_count (h : q.count ≤ 6) : (q.push word fault pageFault).count = q.count + 2 := by
  show (q.hwCount + 2#4).toNat = q.hwCount.toNat + 2
  unfold count at h
  rw [BitVec.toNat_add, BitVec.toNat_ofNat]
  omega

theorem push_halfword (hk : k < 8) :
    (q.push word fault pageFault).halfword k =
      if k = q.count then lowHalf word fault pageFault
      else if k = q.count + 1 then highHalf word fault pageFault
      else q.halfword k := by
  have hbits : (q.push word fault pageFault).ibuf.extractLsb' (16 * k) 16 =
      if k = q.count + 1 then word.extractLsb' 16 16
      else if k = q.count then word.extractLsb' 0 16 else q.ibuf.extractLsb' (16 * k) 16 := by
    show (putHw (putHw q.ibuf q.count _) (q.count + 1) _).extractLsb' (16 * k) 16 = _
    rw [putHw_half _ _ _ _ hk, putHw_half _ _ _ _ hk]
  have hflag : ∀ (flags : BitVec 8) (b : Bool), (putFlags flags q.count b).getLsbD k =
      if k = q.count ∨ k = q.count + 1 then b else flags.getLsbD k :=
    fun flags b => putFlags_bit flags q.count k b hk
  show Halfword.mk ((q.push word fault pageFault).ibuf.extractLsb' (16 * k) 16)
    ((putFlags q.fetchFault q.count fault).getLsbD k)
    ((putFlags q.fetchPageFault q.count pageFault).getLsbD k) = _
  rw [hbits, hflag, hflag]
  by_cases h0 : k = q.count
  · have h1 : ¬ k = q.count + 1 := by omega
    rw [if_pos h0, if_neg h1, if_pos h0, if_pos (.inl h0), if_pos (.inl h0)]
    rfl
  · by_cases h1 : k = q.count + 1
    · have h2 : k = q.count ∨ k = q.count + 1 := .inr h1
      simp only [if_neg h0, if_pos h1, if_pos h2]
      rfl
    · have h2 : ¬ (k = q.count ∨ k = q.count + 1) := by omega
      rw [if_neg h0, if_neg h1, if_neg h1, if_neg h0, if_neg h2, if_neg h2]
      rfl

theorem shift_count (h : n ≤ q.count) : (q.shift n).count = q.count - n := by
  show (q.hwCount - BitVec.ofNat 4 n).toNat = q.hwCount.toNat - n
  unfold count at h
  have hlt : q.hwCount.toNat < 16 := q.hwCount.isLt
  rw [BitVec.toNat_sub, BitVec.toNat_ofNat]
  omega

theorem shift_halfword : (q.shift n).halfword k = q.halfword (n + k) := by
  have hbits : (q.ibuf >>> (16 * n)).extractLsb' (16 * k) 16
      = q.ibuf.extractLsb' (16 * (n + k)) 16 := by
    apply BitVec.eq_of_getLsbD_eq
    intro j hj
    rw [BitVec.getLsbD_extractLsb', BitVec.getLsbD_extractLsb', BitVec.getLsbD_ushiftRight]
    have hidx : 16 * n + (16 * k + j) = 16 * (n + k) + j := by omega
    rw [hidx]
  have hflag : ∀ flags : BitVec 8, (flags >>> n).getLsbD k = flags.getLsbD (n + k) :=
    fun flags => BitVec.getLsbD_ushiftRight flags n k
  show Halfword.mk ((q.ibuf >>> (16 * n)).extractLsb' (16 * k) 16)
    ((q.fetchFault >>> n).getLsbD k) ((q.fetchPageFault >>> n).getLsbD k) = _
  rw [hbits, hflag, hflag]
  rfl

theorem count_pos : (q.hwCount != 0#4) = true ↔ 0 < q.count := by
  rw [bne_iff_ne, ne_eq, ← BitVec.toNat_inj]
  exact Nat.pos_iff_ne_zero.symm

end Ibuf

end MelonSoc
