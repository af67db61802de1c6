import MelonSoc.Rtl.LcdPanel

set_option autoImplicit false

/-! # The rows of the panel

What the registers of `vga_timing` are at each place of a frame: the counters run through 525 by 286
places, `de` is on in 480 by 272 of them, and `active_x` comes one edge behind `de`. A row begins
where `line_pulse` is on, and nowhere else.
-/

namespace MelonSoc

namespace VgaTiming

/-- The place in a line where `de` is turned on. -/
def hStart : Nat := hFp + hSync + hBp

/-- The line of a frame where `de` is turned on. -/
def vStart : Nat := vFp + vSync + vBp

theorem reaches_eq {c : BitVec 12} {n : Nat} (hn : n < 4096) :
    reaches c n = decide (c.toNat = n) := by
  rw [reaches, Bool.eq_iff_iff, beq_iff_eq, decide_eq_true_iff]
  constructor
  · intro h
    rw [h, BitVec.toNat_ofNat, Nat.mod_eq_of_lt hn]
  · intro h
    apply BitVec.eq_of_toNat_eq
    rw [h, BitVec.toNat_ofNat, Nat.mod_eq_of_lt hn]

theorem toNat_succ {c : BitVec 12} (h : c.toNat < 4095) : (c + 1#12).toNat = c.toNat + 1 := by
  rw [BitVec.toNat_add]
  show (c.toNat + 1) % 4096 = _
  omega

/-- The counters are in their ranges, and `h_active` and `v_active` go with them. -/
structure Timed (t : VgaTiming) : Prop where
  h : t.hCnt.toNat < hTotal
  v : t.vCnt.toNat < vTotal
  hActive : t.hActive = true ↔ hStart ≤ t.hCnt.toNat
  vActive : t.vActive = true ↔ vStart ≤ t.vCnt.toNat

theorem timed_reset (t : VgaTiming) : Timed t.reset where
  h := by
    show (0#12).toNat < hTotal
    decide
  v := by
    show (0#12).toNat < vTotal
    decide
  hActive := by
    show false = true ↔ hStart ≤ (0#12).toNat
    decide
  vActive := by
    show false = true ↔ vStart ≤ (0#12).toNat
    decide

section Step

variable {t : VgaTiming}

/-- The counter of a line after an edge. -/
def hNext (h : Nat) : Nat := if h = hTotal - 1 then 0 else h + 1

/-- The counter of the lines after an edge. -/
def vNext (h v : Nat) : Nat :=
  if h = hFp - 1 then if v = vTotal - 1 then 0 else v + 1 else v

theorem Timed.next_hCnt (ht : Timed t) : t.next.hCnt.toNat = hNext t.hCnt.toNat := by
  have hlt : t.hCnt.toNat < 4095 := Nat.lt_trans ht.h (by decide)
  show (if reaches t.hCnt (hTotal - 1) then 0#12 else t.hCnt + 1#12).toNat = _
  rw [reaches_eq (by decide), hNext]
  by_cases h : t.hCnt.toNat = hTotal - 1
  · simp [h]
  · simp [h, toNat_succ hlt]

theorem Timed.next_vCnt (ht : Timed t) :
    t.next.vCnt.toNat = vNext t.hCnt.toNat t.vCnt.toNat := by
  have hlt : t.vCnt.toNat < 4095 := Nat.lt_trans ht.v (by decide)
  show (if reaches t.hCnt (hFp - 1) then
      if reaches t.vCnt (vTotal - 1) then 0#12 else t.vCnt + 1#12
    else t.vCnt).toNat = _
  rw [reaches_eq (by decide), reaches_eq (by decide), vNext]
  by_cases h : t.hCnt.toNat = hFp - 1
  · by_cases hv : t.vCnt.toNat = vTotal - 1
    · simp [h, hv]
    · simp [h, hv, toNat_succ hlt]
  · simp [h]

theorem Timed.next (ht : Timed t) : Timed t.next := by
  have hh := ht.next_hCnt
  have hv := ht.next_vCnt
  have h1 := ht.h
  have h2 := ht.v
  constructor
  · rw [hh, hNext]
    split
    · decide
    · omega
  · rw [hv, vNext]
    split
    · split
      · decide
      · omega
    · exact h2
  · show (if reaches t.hCnt (hFp + hSync + hBp - 1) then true
      else if reaches t.hCnt (hTotal - 1) then false else t.hActive) = true ↔ _
    have hact := ht.hActive
    rw [reaches_eq (by decide), reaches_eq (by decide), hh, hNext]
    simp only [hStart, hTotal, hActivePix, hFp, hSync, hBp] at h1 hact ⊢
    by_cases hs : t.hCnt.toNat = 44
    · simp [hs]
    · by_cases he : t.hCnt.toNat = 524
      · simp [he]
      · simp only [hs, he, decide_false, Bool.false_eq_true, if_false, hact]
        omega
  · show (if reaches t.vCnt (vFp + vSync + vBp - 1) && reaches t.hCnt (hFp - 1) then true
      else if reaches t.vCnt (vTotal - 1) && reaches t.hCnt (hFp - 1) then false
      else t.vActive) = true ↔ _
    have hact := ht.vActive
    rw [reaches_eq (by decide), reaches_eq (by decide), reaches_eq (by decide), hv, vNext]
    simp only [vStart, vTotal, vActivePix, vFp, vSync, vBp, hFp] at h2 hact ⊢
    by_cases h0 : t.hCnt.toNat = 1
    · by_cases hs : t.vCnt.toNat = 13
      · simp [h0, hs]
      · by_cases he : t.vCnt.toNat = 285
        · simp [h0, he]
        · simp only [h0, hs, he, decide_false, Bool.false_and, Bool.false_eq_true, if_false,
            if_true, hact]
          omega
    · simp only [h0, decide_false, Bool.and_false, Bool.false_eq_true, if_false, hact]

/-! ## Places of a frame -/

/-- The place in the frame, counted from the edge that begins a line. -/
def place (t : VgaTiming) : Nat :=
  hTotal * t.vCnt.toNat +
    if t.hCnt.toNat < hFp then hTotal - hFp + t.hCnt.toNat else t.hCnt.toNat - hFp

/-- The row of the panel. -/
def row (t : VgaTiming) : Nat := t.vCnt.toNat - vStart

/-- The place where row 0 begins. -/
def firstRow : Nat := hTotal * vStart + (hStart - hFp)

/-- The number of rows of the frame that have been begun. -/
def rowsBegun (t : VgaTiming) : Nat := (t.place + hTotal - (firstRow + 1)) / hTotal

theorem hTotal_eq : hTotal = 525 := rfl

theorem vTotal_eq : vTotal = 286 := rfl

theorem hStart_eq : hStart = 45 := rfl

theorem vStart_eq : vStart = 14 := rfl

theorem rowsBegun_eq : t.rowsBegun = (t.place + 525 - 7394) / 525 := rfl

theorem place_of_lt (h : t.hCnt.toNat < 2) : t.place = 525 * t.vCnt.toNat + (523 + t.hCnt.toNat) := by
  have hlt : t.hCnt.toNat < hFp := h
  rw [place, if_pos hlt]
  rfl

theorem place_of_ge (h : 2 ≤ t.hCnt.toNat) : t.place = 525 * t.vCnt.toNat + (t.hCnt.toNat - 2) := by
  have hge : ¬t.hCnt.toNat < hFp := Nat.not_lt.mpr h
  rw [place, if_neg hge]
  rfl

theorem reset_place (t : VgaTiming) : t.reset.place = 523 := by
  have hlow : t.reset.hCnt.toNat < 2 := by
    show (0#12).toNat < 2
    decide
  rw [place_of_lt hlow]
  rfl

/-- The place two lines into a frame is not in front of a row. -/
theorem place_front (h : t.hCnt.toNat ≤ 45) (hp : 1005 ≤ t.place + 1) : 1005 ≤ t.place := by
  by_cases hlow : t.hCnt.toNat < 2
  · rw [place_of_lt hlow] at hp ⊢
    omega
  · rw [place_of_ge (Nat.not_lt.mp hlow)] at hp ⊢
    omega

/-- Every edge goes one place on, and from the last one to the first. -/
theorem Timed.next_place (ht : Timed t) :
    t.next.place = if t.place = 150149 then 0 else t.place + 1 := by
  have h1 := ht.h
  have h2 := ht.v
  have hh := ht.next_hCnt
  have hv := ht.next_vCnt
  rw [hNext, hTotal_eq] at hh
  rw [vNext, vTotal_eq, show hFp - 1 = 1 from rfl] at hv
  rw [hTotal_eq] at h1
  rw [vTotal_eq] at h2
  by_cases hend : t.hCnt.toNat = 524
  · rw [if_pos hend] at hh
    rw [if_neg (by omega)] at hv
    rw [place_of_lt (by omega), place_of_ge (by omega), if_neg (by omega)]
    omega
  · rw [if_neg hend] at hh
    by_cases hone : t.hCnt.toNat = 1
    · rw [if_pos hone] at hv
      rw [place_of_ge (by omega), place_of_lt (by omega)]
      by_cases hlast : t.vCnt.toNat = 285
      · rw [if_pos hlast] at hv
        rw [if_pos (by omega)]
        omega
      · rw [if_neg hlast] at hv
        rw [if_neg (by omega)]
        omega
    · rw [if_neg hone] at hv
      by_cases hzero : t.hCnt.toNat = 0
      · rw [place_of_lt (by omega), place_of_lt (by omega), if_neg (by omega)]
        omega
      · rw [place_of_ge (by omega), place_of_ge (by omega), if_neg (by omega)]
        omega

theorem Timed.de (ht : Timed t) :
    t.de = true ↔ hStart ≤ t.hCnt.toNat ∧ vStart ≤ t.vCnt.toNat := by
  rw [VgaTiming.de, Bool.and_eq_true, ht.hActive, ht.vActive]

end Step

end VgaTiming

namespace LcdPanel

open VgaTiming

/-- What the panel side holds at each place: `de_d` is one edge behind `de`, and `active_x` is one
edge behind the place in the row. -/
structure Scanned (p : LcdPanel) : Prop where
  timed : p.vga.Timed
  deD : p.deD = true ↔
    (hStart < p.vga.hCnt.toNat ∨ p.vga.hCnt.toNat = 0) ∧ vStart ≤ p.vga.vCnt.toNat
  activeX : hStart < p.vga.hCnt.toNat →
    p.vga.activeX.toNat = p.vga.hCnt.toNat - (hStart + 1)
  rest : hTotal + hActivePix ≤ p.vga.place → p.vga.hCnt.toNat ≤ hStart →
    p.vga.activeX.toNat = hActivePix - 1

theorem scanned_reset (p : LcdPanel) : Scanned p.reset where
  timed := timed_reset p.vga
  deD := by
    show false = true ↔ (hStart < (0#12).toNat ∨ (0#12).toNat = 0) ∧ vStart ≤ (0#12).toNat
    decide
  activeX := by
    show hStart < (0#12).toNat → _
    intro h
    exact absurd h (by decide)
  rest := by
    have hplace : p.reset.vga.place = 523 := reset_place p.vga
    rw [hplace]
    intro h
    exact absurd h (by decide)

section Step

variable {p : LcdPanel} {t : Bool}

theorem next_activeX (h : p.vga.hCnt.toNat < hTotal) :
    (p.next t).vga.activeX.toNat =
      if hStart ≤ p.vga.hCnt.toNat then p.vga.hCnt.toNat - hStart else p.vga.activeX.toNat := by
  have hle : BitVec.ofNat 12 (hFp + hSync + hBp) ≤ p.vga.hCnt ↔ hStart ≤ p.vga.hCnt.toNat := Iff.rfl
  show (if BitVec.ofNat 12 (hFp + hSync + hBp) ≤ p.vga.hCnt then
      (p.vga.hCnt - BitVec.ofNat 12 (hFp + hSync + hBp)).setWidth 10 else p.vga.activeX).toNat = _
  by_cases hs : hStart ≤ p.vga.hCnt.toNat
  · rw [if_pos (hle.mpr hs), if_pos hs]
    rw [hTotal_eq] at h
    rw [hStart_eq] at hs ⊢
    show ((p.vga.hCnt - 45#12).setWidth 10).toNat = _
    bv_omega
  · rw [if_neg (fun hn => hs (hle.mp hn)), if_neg hs]

/-- **Step lemma.** Every edge of `pix_clk` keeps what the panel side holds. -/
theorem Scanned.next (h : Scanned p) : Scanned (p.next t) := by
  have ht := h.timed
  have h1 := ht.h
  have h2 := ht.v
  have hh : (p.next t).vga.hCnt.toNat = hNext p.vga.hCnt.toNat := ht.next_hCnt
  have hv : (p.next t).vga.vCnt.toNat = vNext p.vga.hCnt.toNat p.vga.vCnt.toNat := ht.next_vCnt
  have hpl : (p.next t).vga.place = _ := ht.next_place
  have hx := next_activeX (p := p) (t := t) h1
  have hd : (p.next t).deD = p.vga.de := rfl
  rw [hNext, hTotal_eq] at hh
  rw [vNext, vTotal_eq, show hFp - 1 = 1 from rfl] at hv
  rw [hTotal_eq] at h1
  rw [hStart_eq] at hx
  constructor
  · exact ht.next
  · rw [hd, ht.de, hh, hv, hStart_eq, vStart_eq]
    split <;> split <;> omega
  · rw [hh, hx, hStart_eq]
    split <;> split <;> omega
  · rw [hpl, hh, hx, hStart_eq, hTotal_eq, show hActivePix = 480 from rfl]
    intro hlate hfront
    have hrest := h.rest
    rw [hStart_eq, hTotal_eq, show hActivePix = 480 from rfl] at hrest
    by_cases hend : p.vga.hCnt.toNat = 524
    · rw [if_pos (by omega)]
      omega
    · rw [if_neg hend] at hfront
      rw [if_neg (by omega)]
      apply hrest _ (by omega)
      have hback : 525 + 480 ≤ p.vga.place + 1 := by
        by_cases hlast : p.vga.place = 150149
        · rw [if_pos hlast] at hlate
          omega
        · rw [if_neg hlast] at hlate
          exact hlate
      exact place_front (by omega) hback

/-- A row begins at its first place, and nowhere else. -/
theorem Scanned.linePulse (h : Scanned p) :
    p.linePulse = true ↔ p.vga.hCnt.toNat = hStart ∧ vStart ≤ p.vga.vCnt.toNat := by
  have hd := h.deD
  rw [LcdPanel.linePulse, Bool.and_eq_true, Bool.not_eq_true', ← Bool.not_eq_true, hd, h.timed.de,
    hStart_eq, vStart_eq]
  omega

/-- The row that begins is the next one of the frame. -/
theorem Scanned.row (h : Scanned p) (hp : p.linePulse = true) :
    p.vga.rowsBegun = p.vga.row ∧ p.vga.row < lcdH := by
  obtain ⟨hh, hv⟩ := h.linePulse.mp hp
  have h2 := h.timed.v
  rw [hStart_eq] at hh
  rw [vStart_eq] at hv
  rw [vTotal_eq] at h2
  have hrow : p.vga.row = p.vga.vCnt.toNat - 14 := rfl
  have hlcd : lcdH = 272 := rfl
  rw [rowsBegun_eq, place_of_ge (by omega), hh, hrow, hlcd]
  omega

/-- Each pulse begins one row, and the last place of a frame begins none. -/
theorem Scanned.rows_next (h : Scanned p) :
    (p.next t).vga.rowsBegun % lcdH = (p.vga.rowsBegun + p.linePulse.toNat) % lcdH := by
  have hpl : (p.next t).vga.place = _ := h.timed.next_place
  have h1 := h.timed.h
  have h2 := h.timed.v
  have hlcd : lcdH = 272 := rfl
  have hpulse := h.linePulse
  rw [hStart_eq, vStart_eq] at hpulse
  rw [hTotal_eq] at h1
  rw [vTotal_eq] at h2
  rw [rowsBegun_eq, rowsBegun_eq, hpl, hlcd]
  by_cases hp : p.linePulse = true
  · obtain ⟨hh, hv⟩ := hpulse.mp hp
    rw [place_of_ge (by omega), hp, if_neg (by omega), Bool.toNat_true]
    omega
  · have hno : ¬(p.vga.hCnt.toNat = 45 ∧ 14 ≤ p.vga.vCnt.toNat) := fun hn => hp (hpulse.mpr hn)
    have hzero : p.linePulse.toNat = 0 := by simpa using hp
    rw [hzero]
    by_cases hlow : p.vga.hCnt.toNat < 2
    · rw [place_of_lt hlow]
      split <;> omega
    · rw [place_of_ge (Nat.not_lt.mp hlow), if_neg (by omega)]
      omega

end Step

end LcdPanel

end MelonSoc
