import Mathlib.Data.List.GetD
import MelonSoc.Lib.Clocked
import MelonSoc.Rtl.LcdPanel

set_option autoImplicit false

/-! # A line on its way into a buffer

The DMA reads sixty beats and pushes the eight pixels of each into the line buffer, one a cycle
and one cycle behind the counters. `Fill` is kept beside the run: the beats and the pixels that
were written since the fill began. The invariant `Filling` counts them by the counters of the
DMA and says what they are; when the DMA is idle again, all of the line but its last pixel has
been written, and that one is at the write port.
-/

namespace MelonSoc

/-- The beats received since the fill began, with their addresses, and the pixels written into the
line buffer, with theirs. -/
structure Fill where
  beats : List (Word × Line)
  writes : List (BitVec 10 × BitVec 16)

namespace LcdDma

/-- `LINE_BYTES`. -/
def lineBytes : Nat := lcdW * 2

/-- The DMA begins a line at this edge. -/
def starts (i : AppIn) (d : LcdDma) : Bool :=
  d.dSt == .idle && i.initCalibComplete && (!d.primed || d.lineReqEdge)

/-- The line buffer that is selected by 0 or 1. -/
def buffer (d : LcdDma) (sel : Bool) : BitVec 10 → BitVec 16 := if sel then d.lineB else d.lineA

/-- What an edge of `app_clk` adds. -/
def record (i : AppIn) (d : LcdDma) (g : Fill) : Fill :=
  if d.starts i then { beats := [], writes := [] }
  else
    { beats := if d.dSt == .wait && i.rdataValid then g.beats ++ [(d.fByte, i.rdata)] else g.beats
      writes := if d.wrEn then g.writes ++ [(d.wrAddr, d.wrData)] else g.writes }

/-- Beat `k`. -/
def beat (beats : List (Word × Line)) (k : Nat) : Word × Line := beats.getD k (0#32, 0#128)

/-- Pixel `p` of a line, with its place in the buffer. -/
def pixelOf (beats : List (Word × Line)) (p : Nat) : BitVec 10 × BitVec 16 :=
  (BitVec.ofNat 10 p, (beat beats (p / beatPix)).2.extractLsb' (16 * (p % beatPix)) 16)

/-- The address of beat `k` of line `l` of the framebuffer. -/
def beatAddr (l k : Nat) : Word := fbBase + BitVec.ofNat 32 (lineBytes * l + 16 * k)

/-- The first `n` pixels of a line have been written, in order, into the buffer `buf`. -/
structure Written (g : Fill) (buf : BitVec 10 → BitVec 16) (n : Nat) : Prop where
  writes : g.writes = (List.range n).map (pixelOf g.beats)
  held : ∀ p, p < n → buf (BitVec.ofNat 10 p) = (pixelOf g.beats p).2

/-- One whole line of the framebuffer has been written into the buffer `buf`. -/
structure WholeLine (g : Fill) (buf : BitVec 10 → BitVec 16) : Prop where
  beats : g.beats.length = lineBeats
  line : ∃ l, l < lcdH ∧ ∀ k, k < lineBeats → (beat g.beats k).1 = beatAddr l k
  written : Written g buf lcdW

/-! ## The steps of the DMA -/

section Step

variable {i : AppIn} {t : Bool} {d : LcdDma} {g : Fill} {l : Nat}

/-- The registers that change at every edge. -/
def stored (t : Bool) (d : LcdDma) : LcdDma :=
  { d with
    lineA := d.pushed.lineA, lineB := d.pushed.lineB, lineReqA1 := t
    lineReqA2 := d.lineReqA1, wrEn := false }

theorem pushed_eq (d : LcdDma) :
    d.pushed = { d with lineA := d.pushed.lineA, lineB := d.pushed.lineB } := by
  unfold pushed
  repeat' split
  all_goals rfl

theorem next_start (h : d.starts i = true) :
    d.next i t =
      { d.stored t with
        cmdEn := false, primed := true, lineReqSeen := d.lineReqA2, fillSel := !d.fillSel
        beatCnt := 0#10, pixIdx := 0#3, dSt := .req } := by
  simp only [starts, Bool.and_eq_true, beq_iff_eq] at h
  have hgo : (i.initCalibComplete && (!d.primed || d.lineReqEdge)) = true := by
    rw [h.1.2, h.2]
    rfl
  simp only [next, h.1.1]
  rw [if_pos hgo, pushed_eq]
  rfl

theorem next_rest (hs : d.dSt = .idle) (h : d.starts i = false) :
    d.next i t = { d.stored t with cmdEn := false } := by
  have hgo : ¬(i.initCalibComplete && (!d.primed || d.lineReqEdge)) = true := by
    simpa [starts, hs] using h
  simp only [next, hs]
  rw [if_neg hgo, pushed_eq]
  rfl

theorem next_accepted (hs : d.dSt = .req) (h : (d.cmdEn && i.cmdRdy) = true) :
    d.next i t = { d.stored t with cmdEn := false, dSt := .wait } := by
  simp only [next, hs]
  rw [if_pos h, pushed_eq]
  rfl

theorem next_asking (hs : d.dSt = .req) (h : (d.cmdEn && i.cmdRdy) = false) :
    d.next i t = { d.stored t with cmdEn := i.initCalibComplete } := by
  simp only [next, hs]
  rw [if_neg (by simp [h]), pushed_eq]
  rfl

theorem next_req (hs : d.dSt = .req) :
    ∃ en st, (st = .req ∨ st = .wait) ∧
      d.next i t = { d.stored t with cmdEn := en, dSt := st } := by
  by_cases h : (d.cmdEn && i.cmdRdy) = true
  · exact ⟨false, .wait, .inr rfl, next_accepted hs h⟩
  · refine ⟨i.initCalibComplete, .req, .inl rfl, ?_⟩
    rw [next_asking hs (by simpa using h), ← hs]
    rfl

theorem next_beat (hs : d.dSt = .wait) (h : i.rdataValid = true) :
    d.next i t =
      { d.stored t with cmdEn := false, cap := i.rdata, pixIdx := 0#3, dSt := .push } := by
  simp only [next, hs]
  rw [if_pos h, pushed_eq]
  rfl

theorem next_noBeat (hs : d.dSt = .wait) (h : i.rdataValid = false) :
    d.next i t = { d.stored t with cmdEn := false } := by
  simp only [next, hs]
  rw [if_neg (by simp [h]), pushed_eq]
  rfl

/-- A pixel is put to the write port. -/
def ported (t : Bool) (d : LcdDma) : LcdDma :=
  { d.stored t with
    cmdEn := false
    wrEn := true
    wrData := d.cap.extractLsb' (16 * d.pixIdx.toNat) 16
    wrAddr := BitVec.ofNat 10 (d.beatCnt.toNat * beatPix + d.pixIdx.toNat) }

@[simp] theorem ported_dSt : (d.ported t).dSt = d.dSt := rfl

@[simp] theorem ported_beatCnt : (d.ported t).beatCnt = d.beatCnt := rfl

@[simp] theorem ported_pixIdx : (d.ported t).pixIdx = d.pixIdx := rfl

@[simp] theorem ported_fByte : (d.ported t).fByte = d.fByte := rfl

@[simp] theorem ported_cap : (d.ported t).cap = d.cap := rfl

theorem next_pixel (hs : d.dSt = .push) (h : d.pixIdx ≠ 7#3) :
    d.next i t = { d.ported t with pixIdx := d.pixIdx + 1#3 } := by
  simp only [next, hs]
  rw [if_neg h, pushed_eq]
  rfl

theorem next_beatDone (hs : d.dSt = .push) (h : d.pixIdx = 7#3)
    (hb : d.beatCnt.toNat ≠ lineBeats - 1) :
    d.next i t =
      { d.ported t with fByte := d.fByteNext, beatCnt := d.beatCnt + 1#10, dSt := .req } := by
  simp only [next, hs]
  rw [if_pos h, if_neg hb, pushed_eq]
  rfl

theorem next_lineDone (hs : d.dSt = .push) (h : d.pixIdx = 7#3)
    (hb : d.beatCnt.toNat = lineBeats - 1) :
    d.next i t =
      { d.ported t with
        fByte := d.fByteNext, lineAckToggle := !d.lineAckToggle, dSt := .idle } := by
  simp only [next, hs]
  rw [if_pos h, if_pos hb, pushed_eq]
  rfl

theorem not_starts (h : d.dSt ≠ .idle) : d.starts i = false := by
  simp [starts, h]

/-- What an edge of `app_clk` does to the registers that the panel has to do with. -/
theorem next_cases (i : AppIn) (t : Bool) (d : LcdDma) :
    (d.starts i = true ∧ (d.next i t).dSt = .req ∧ (d.next i t).primed = true ∧
        (d.next i t).fillSel = !d.fillSel ∧ (d.next i t).lineReqSeen = d.lineReqA2 ∧
        (d.next i t).lineAckToggle = d.lineAckToggle) ∨
      (d.dSt = .push ∧ (d.next i t).dSt = .idle ∧ (d.next i t).primed = d.primed ∧
        (d.next i t).fillSel = d.fillSel ∧ (d.next i t).lineReqSeen = d.lineReqSeen ∧
        (d.next i t).lineAckToggle = !d.lineAckToggle) ∨
      (d.starts i = false ∧ ((d.next i t).dSt = .idle ↔ d.dSt = .idle) ∧
        (d.next i t).primed = d.primed ∧ (d.next i t).fillSel = d.fillSel ∧
        (d.next i t).lineReqSeen = d.lineReqSeen ∧
        (d.next i t).lineAckToggle = d.lineAckToggle) := by
  cases hs : d.dSt with
  | idle =>
      by_cases h : d.starts i = true
      · left
        rw [next_start h]
        exact ⟨h, rfl, rfl, rfl, rfl, rfl⟩
      · right; right
        rw [next_rest hs (by simpa using h)]
        exact ⟨by simpa using h, by simp [stored, hs], rfl, rfl, rfl, rfl⟩
  | req =>
      right; right
      have ⟨en, st, hst, heq⟩ := next_req (i := i) (t := t) hs
      rw [heq]
      refine ⟨not_starts (by simp [hs]), ?_, rfl, rfl, rfl, rfl⟩
      rcases hst with rfl | rfl <;> simp
  | wait =>
      right; right
      have hn : d.starts i = false := not_starts (by simp [hs])
      by_cases hv : i.rdataValid = true
      · rw [next_beat hs hv]
        exact ⟨hn, by simp, rfl, rfl, rfl, rfl⟩
      · rw [next_noBeat hs (by simpa using hv)]
        exact ⟨hn, by simp [stored, hs], rfl, rfl, rfl, rfl⟩
  | push =>
      have hn : d.starts i = false := not_starts (by simp [hs])
      by_cases hp : d.pixIdx = 7#3
      · by_cases hb : d.beatCnt.toNat = lineBeats - 1
        · right; left
          rw [next_lineDone hs hp hb]
          exact ⟨rfl, rfl, rfl, rfl, rfl, rfl⟩
        · right; right
          rw [next_beatDone hs hp hb]
          exact ⟨hn, by simp, rfl, rfl, rfl, rfl⟩
      · right; right
        rw [next_pixel hs hp]
        exact ⟨hn, by simp [hs], rfl, rfl, rfl, rfl⟩

/-- What every edge of `app_clk` does. -/
theorem next_always (i : AppIn) (t : Bool) (d : LcdDma) :
    (d.next i t).lineReqA1 = t ∧ (d.next i t).lineReqA2 = d.lineReqA1 ∧
      (d.next i t).wrEn = (d.dSt == .push) ∧
      ∀ sel, (d.next i t).buffer sel = (d.stored t).buffer sel := by
  cases hs : d.dSt with
  | idle =>
      by_cases h : d.starts i = true
      · rw [next_start h]
        exact ⟨rfl, rfl, rfl, fun _ => rfl⟩
      · rw [next_rest hs (by simpa using h)]
        exact ⟨rfl, rfl, rfl, fun _ => rfl⟩
  | req =>
      have ⟨en, st, _, heq⟩ := next_req (i := i) (t := t) hs
      rw [heq]
      exact ⟨rfl, rfl, rfl, fun _ => rfl⟩
  | wait =>
      by_cases hv : i.rdataValid = true
      · rw [next_beat hs hv]
        exact ⟨rfl, rfl, rfl, fun _ => rfl⟩
      · rw [next_noBeat hs (by simpa using hv)]
        exact ⟨rfl, rfl, rfl, fun _ => rfl⟩
  | push =>
      by_cases hp : d.pixIdx = 7#3
      · by_cases hb : d.beatCnt.toNat = lineBeats - 1
        · rw [next_lineDone hs hp hb]
          exact ⟨rfl, rfl, rfl, fun _ => rfl⟩
        · rw [next_beatDone hs hp hb]
          exact ⟨rfl, rfl, rfl, fun _ => rfl⟩
      · rw [next_pixel hs hp]
        exact ⟨rfl, rfl, rfl, fun _ => rfl⟩

/-- After the first line has been begun, `primed` stays. -/
theorem next_primed (h : d.primed = true) : (d.next i t).primed = true := by
  rcases next_cases i t d with ⟨-, -, hp, -⟩ | ⟨-, -, hp, -⟩ | ⟨-, -, hp, -⟩
  · exact hp
  · exact hp.trans h
  · exact hp.trans h

/-! ## Buffers and pixels -/

theorem buffer_stored (sel : Bool) :
    (d.stored t).buffer sel =
      if d.wrEn = true ∧ d.fillSel = sel then
        Function.update (d.buffer sel) d.wrAddr d.wrData
      else d.buffer sel := by
  unfold stored buffer pushed
  cases d.wrEn <;> cases d.fillSel <;> cases sel <;> rfl

theorem beat_append {beats : List (Word × Line)} {b : Word × Line} {k : Nat}
    (h : k < beats.length) : beat (beats ++ [b]) k = beat beats k := by
  rw [beat, beat, List.getD_append _ _ _ _ h]

theorem beat_last (beats : List (Word × Line)) (b : Word × Line) :
    beat (beats ++ [b]) beats.length = b := by
  rw [beat, List.getD_append_right _ _ _ _ (Nat.le_refl _), Nat.sub_self]
  rfl

theorem pixelOf_append {beats : List (Word × Line)} {b : Word × Line} {p : Nat}
    (h : p < beatPix * beats.length) : pixelOf (beats ++ [b]) p = pixelOf beats p := by
  have hk : p / beatPix < beats.length := Nat.div_lt_of_lt_mul h
  rw [pixelOf, pixelOf, beat_append hk]

theorem Written.more {buf : BitVec 10 → BitVec 16} {b : Word × Line} {n : Nat}
    (h : Written g buf n) (hn : n ≤ beatPix * g.beats.length) :
    Written { g with beats := g.beats ++ [b] } buf n where
  writes := by
    rw [h.writes]
    apply List.map_congr_left
    intro p hp
    rw [List.mem_range] at hp
    exact (pixelOf_append (Nat.lt_of_lt_of_le hp hn)).symm
  held := by
    intro p hp
    rw [h.held p hp, pixelOf_append (Nat.lt_of_lt_of_le hp hn)]

theorem Written.push {buf : BitVec 10 → BitVec 16} {n : Nat} (h : Written g buf n)
    (hn : n < lcdW) :
    Written { g with writes := g.writes ++ [pixelOf g.beats n] }
      (Function.update buf (pixelOf g.beats n).1 (pixelOf g.beats n).2) (n + 1) where
  writes := by
    rw [List.range_succ, List.map_append, h.writes]
    rfl
  held := by
    intro p hp
    rcases Nat.lt_succ_iff_lt_or_eq.mp hp with hlt | rfl
    · have hne : BitVec.ofNat 10 p ≠ (pixelOf g.beats n).1 := by
        intro heq
        have := congrArg BitVec.toNat heq
        simp only [pixelOf, BitVec.toNat_ofNat, lcdW] at this hn
        omega
      rw [Function.update_of_ne hne, h.held p hlt]
    · exact Function.update_self ..

end Step

/-! ## The invariant -/

/-- The number of beats received. -/
def beatsIn (d : LcdDma) : Nat :=
  match d.dSt with
  | .idle => lineBeats
  | .req | .wait => d.beatCnt.toNat
  | .push => d.beatCnt.toNat + 1

/-- The number of pixels put to the write port. -/
def pixOut (d : LcdDma) : Nat :=
  match d.dSt with
  | .idle => lcdW
  | .req | .wait => beatPix * d.beatCnt.toNat
  | .push => beatPix * d.beatCnt.toNat + d.pixIdx.toNat

/-- The address of the beat to come. -/
def beatNext (d : LcdDma) (l : Nat) : Word :=
  match d.dSt with
  | .idle => beatAddr ((l + 1) % lcdH) 0
  | _ => beatAddr l d.beatCnt.toNat

/-- Line `l` is on its way into the buffer that is selected by `fill_sel`. -/
structure Filling (d : LcdDma) (g : Fill) (l : Nat) : Prop where
  line : l < lcdH
  count : d.dSt ≠ .idle → d.beatCnt.toNat < lineBeats
  received : g.beats.length = d.beatsIn
  ordered : ∀ k, k < d.beatsIn → (beat g.beats k).1 = beatAddr l k
  address : d.fByte = d.beatNext l
  cap : d.dSt = .push → (beat g.beats d.beatCnt.toNat).2 = d.cap
  port : d.wrEn = true → 0 < d.pixOut ∧ (d.wrAddr, d.wrData) = pixelOf g.beats (d.pixOut - 1)
  written : Written g (d.buffer d.fillSel) (d.pixOut - d.wrEn.toNat)

section Invariant

variable {i : AppIn} {t : Bool} {d : LcdDma} {g : Fill} {l : Nat}

theorem pixOut_le (hc : d.dSt ≠ .idle → d.beatCnt.toNat < lineBeats) :
    d.pixOut ≤ beatPix * d.beatsIn ∧ d.pixOut ≤ lcdW := by
  have hp := d.pixIdx.isLt
  cases hs : d.dSt with
  | idle => simp [pixOut, beatsIn, hs, beatPix, lineBeats, lcdW]
  | req | wait =>
      have hc := hc (by simp [hs])
      simp only [pixOut, beatsIn, hs, beatPix, lineBeats, lcdW] at hc ⊢
      omega
  | push =>
      have hc := hc (by simp [hs])
      simp only [pixOut, beatsIn, hs, beatPix, lineBeats, lcdW] at hc ⊢
      omega

/-- The pixel at the write port is written at the next edge. -/
theorem Filling.stored (h : Filling d g l) :
    Written { g with writes := if d.wrEn then g.writes ++ [(d.wrAddr, d.wrData)] else g.writes }
      ((d.stored t).buffer d.fillSel) d.pixOut := by
  have hw := h.written
  cases he : d.wrEn with
  | false =>
      rw [he] at hw
      simpa [buffer_stored, he] using hw
  | true =>
      have ⟨hpos, hport⟩ := h.port he
      have hle := (pixOut_le h.count).2
      rw [he] at hw
      have hpush := Written.push hw (by simp only [Bool.toNat_true]; omega)
      simp only [Bool.toNat_true] at hpush
      rw [← hport, Nat.sub_add_cancel hpos] at hpush
      simpa [buffer_stored, he] using hpush

theorem toNat_beatAddr {k : Nat} (hl : l < lcdH) (hk : k < lineBeats) :
    (beatAddr l k).toNat = 0x87000000 + (lineBytes * l + 16 * k) := by
  simp only [lcdH, lineBeats, lcdW, beatPix, lineBytes, beatAddr, fbBase] at *
  rw [BitVec.toNat_add, BitVec.toNat_ofNat, BitVec.toNat_ofNat]
  omega

theorem beatAddr_succ (k : Nat) : beatAddr l k + 16#32 = beatAddr l (k + 1) := by
  have heq : lineBytes * l + 16 * (k + 1) = lineBytes * l + 16 * k + 16 := by omega
  rw [beatAddr, beatAddr, heq, BitVec.ofNat_add (_ + _) 16, ← BitVec.add_assoc]

/-- The beat behind beat `k` of line `l`. -/
theorem fByteNext_beatAddr {k : Nat} (hl : l < lcdH) (hk : k < lineBeats)
    (h : d.fByte = beatAddr l k) :
    d.fByteNext =
      if k = lineBeats - 1 then beatAddr ((l + 1) % lcdH) 0 else beatAddr l (k + 1) := by
  have hlast : fbBase + BitVec.ofNat 32 fbBytes - 16#32 ≤ d.fByte ↔
      l = lcdH - 1 ∧ k = lineBeats - 1 := by
    rw [h, BitVec.le_def, toNat_beatAddr hl hk]
    simp only [fbBase, fbBytes, lcdH, lcdW, lineBeats, beatPix, lineBytes] at *
    simp only [Nat.reduceMul, BitVec.reduceAdd, BitVec.reduceSub, BitVec.reduceToNat]
    omega
  unfold fByteNext
  by_cases hk' : k = lineBeats - 1
  · rw [if_pos hk']
    by_cases hl' : l = lcdH - 1
    · rw [if_pos (hlast.mpr ⟨hl', hk'⟩), hl']
      rfl
    · rw [if_neg (fun hle => hl' (hlast.mp hle).1), h, beatAddr_succ, hk']
      have hmod : (l + 1) % lcdH = l + 1 := by
        apply Nat.mod_eq_of_lt
        unfold lcdH at *
        omega
      rw [hmod]
      unfold beatAddr
      congr 2
  · rw [if_neg hk', if_neg (fun hle => hk' (hlast.mp hle).2), h, beatAddr_succ]

/-! ## The steps of the invariant -/

theorem record_start (h : d.starts i = true) :
    d.record i g = { beats := [], writes := [] } := by
  rw [record, if_pos h]

theorem record_go (hb : (d.dSt == .wait && i.rdataValid) = false) (h : d.starts i = false) :
    d.record i g =
      { g with writes := if d.wrEn then g.writes ++ [(d.wrAddr, d.wrData)] else g.writes } := by
  simp [record, h, hb]

theorem record_beat (hs : d.dSt = .wait) (hv : i.rdataValid = true) :
    d.record i g =
      { beats := g.beats ++ [(d.fByte, i.rdata)]
        writes := if d.wrEn then g.writes ++ [(d.wrAddr, d.wrData)] else g.writes } := by
  simp [record, not_starts, hs, hv]

theorem filling_start (hl : l < lcdH) (ha : d.fByte = beatAddr l 0) (h : d.starts i = true) :
    Filling (d.next i t) (d.record i g) l := by
  rw [next_start h, record_start h]
  constructor
  · exact hl
  · intro _
    show (0#10).toNat < lineBeats
    decide
  · rfl
  · intro k hk
    exact absurd hk (Nat.not_lt_zero k)
  · exact ha
  · intro hs
    cases hs
  · intro he
    cases he
  · constructor
    · rfl
    · intro p hp
      exact absurd hp (Nat.not_lt_zero p)

theorem Filling.rest (h : Filling d g l) (hs : d.dSt = .idle) (hi : d.starts i = false) :
    Filling (d.next i t) (d.record i g) l := by
  have hst := h.stored (t := t)
  rw [next_rest hs hi, record_go (by simp [hs]) hi]
  constructor
  · exact h.line
  · intro hne
    exact absurd hs hne
  · exact h.received
  · exact h.ordered
  · exact h.address
  · intro hp
    exact h.cap hp
  · intro he
    cases he
  · exact hst

theorem Filling.req (h : Filling d g l) (hs : d.dSt = .req) :
    Filling (d.next i t) (d.record i g) l := by
  have hst := h.stored (t := t)
  have hne : d.dSt ≠ .idle := by simp [hs]
  have ⟨en, st, hst', heq⟩ := next_req (i := i) (t := t) hs
  rw [heq, record_go (by simp [hs]) (not_starts hne)]
  have hc := h.count hne
  have hr := h.received
  have ho := h.ordered
  have ha := h.address
  simp only [beatsIn, hs, pixOut, beatNext] at hr ho ha hst
  constructor
  · exact h.line
  · intro _
    exact hc
  · rcases hst' with rfl | rfl <;> exact hr
  · rcases hst' with rfl | rfl <;> exact ho
  · rcases hst' with rfl | rfl <;> exact ha
  · intro hp
    rcases hst' with rfl | rfl <;> cases hp
  · intro he
    cases he
  · rcases hst' with rfl | rfl <;> exact hst

theorem Filling.noBeat (h : Filling d g l) (hs : d.dSt = .wait) (hv : i.rdataValid = false) :
    Filling (d.next i t) (d.record i g) l := by
  have hst := h.stored (t := t)
  have hne : d.dSt ≠ .idle := by simp [hs]
  rw [next_noBeat hs hv, record_go (by simp [hv]) (not_starts hne)]
  constructor
  · exact h.line
  · exact h.count
  · exact h.received
  · exact h.ordered
  · exact h.address
  · intro hp
    exact h.cap hp
  · intro he
    cases he
  · exact hst

theorem Filling.beat (h : Filling d g l) (hs : d.dSt = .wait) (hv : i.rdataValid = true) :
    Filling (d.next i t) (d.record i g) l := by
  have hst := h.stored (t := t)
  have hne : d.dSt ≠ .idle := by simp [hs]
  have hle := (pixOut_le h.count).1
  have hr := h.received
  have ho := h.ordered
  have ha := h.address
  rw [← hr] at hle
  rw [next_beat hs hv, record_beat hs hv]
  simp only [beatsIn, hs, beatNext, pixOut] at hr ho ha hst hle
  constructor
  · exact h.line
  · intro _
    exact h.count hne
  · rw [List.length_append, hr]
    rfl
  · intro k hk
    change k < d.beatCnt.toNat + 1 at hk
    rcases Nat.lt_succ_iff_lt_or_eq.mp hk with hlt | rfl
    · rw [beat_append (by omega)]
      exact ho k hlt
    · rw [← hr, beat_last, hr]
      exact ha
  · exact ha
  · intro _
    show (LcdDma.beat (g.beats ++ _) d.beatCnt.toNat).2 = i.rdata
    rw [← hr, beat_last]
  · intro he
    cases he
  · exact hst.more hle

/-- The pixel that is put to the write port. -/
theorem Filling.ported (h : Filling d g l) (hs : d.dSt = .push) :
    ((d.ported t).wrAddr, (d.ported t).wrData) = pixelOf g.beats d.pixOut := by
  have hp := d.pixIdx.isLt
  have hout : d.pixOut = d.beatCnt.toNat * beatPix + d.pixIdx.toNat := by
    simp only [pixOut, hs]
    rw [Nat.mul_comm]
  have hdiv : d.pixOut / beatPix = d.beatCnt.toNat := by
    rw [hout]
    unfold beatPix
    omega
  have hmod : d.pixOut % beatPix = d.pixIdx.toNat := by
    rw [hout]
    unfold beatPix
    omega
  rw [pixelOf, hdiv, hmod, h.cap hs, hout]
  rfl

theorem Filling.pixel (h : Filling d g l) (hs : d.dSt = .push) (hp : d.pixIdx ≠ 7#3) :
    Filling (d.next i t) (d.record i g) l := by
  have hst := h.stored (t := t)
  have hport := h.ported (t := t) hs
  have hne : d.dSt ≠ .idle := by simp [hs]
  have hsucc : (d.pixIdx + 1#3).toNat = d.pixIdx.toNat + 1 := by
    have : d.pixIdx.toNat ≠ 7 := fun heq => hp (BitVec.eq_of_toNat_eq heq)
    bv_omega
  have hout : pixOut { d.ported t with pixIdx := d.pixIdx + 1#3 } = d.pixOut + 1 := by
    simp [pixOut, hs, hsucc, Nat.add_assoc]
  rw [next_pixel hs hp, record_go (by simp [hs]) (not_starts hne)]
  constructor
  · exact h.line
  · intro _
    exact h.count hne
  · simpa [beatsIn, hs] using h.received
  · simpa [beatsIn, hs] using h.ordered
  · simpa [beatNext, hs] using h.address
  · intro _
    exact h.cap hs
  · intro _
    rw [hout]
    exact ⟨Nat.succ_pos _, hport⟩
  · rw [hout]
    exact hst

theorem Filling.beatDone (h : Filling d g l) (hs : d.dSt = .push) (hp : d.pixIdx = 7#3)
    (hb : d.beatCnt.toNat ≠ lineBeats - 1) : Filling (d.next i t) (d.record i g) l := by
  have hst := h.stored (t := t)
  have hport := h.ported (t := t) hs
  have hne : d.dSt ≠ .idle := by simp [hs]
  have hlt : d.beatCnt.toNat + 1 < lineBeats := by
    have := h.count hne
    omega
  have hsucc : (d.beatCnt + 1#10).toNat = d.beatCnt.toNat + 1 := by
    unfold lineBeats lcdW beatPix at hlt
    bv_omega
  have haddr : d.fByteNext = beatAddr l (d.beatCnt.toNat + 1) := by
    have ha := h.address
    simp only [beatNext, hs] at ha
    rw [fByteNext_beatAddr h.line (h.count hne) ha, if_neg hb]
  have hout : pixOut { d.ported t with
      fByte := d.fByteNext, beatCnt := d.beatCnt + 1#10, dSt := .req } = d.pixOut + 1 := by
    simp only [pixOut, hs, hsucc, hp, beatPix, BitVec.reduceToNat]
    omega
  rw [next_beatDone hs hp hb, record_go (by simp [hs]) (not_starts hne)]
  constructor
  · exact h.line
  · intro _
    simpa only [hsucc] using hlt
  · simpa only [beatsIn, hs, hsucc] using h.received
  · simpa only [beatsIn, hs, hsucc] using h.ordered
  · simpa only [beatNext, hsucc] using haddr
  · intro hw
    cases hw
  · intro _
    rw [hout]
    exact ⟨Nat.succ_pos _, hport⟩
  · rw [hout]
    exact hst

theorem Filling.lineDone (h : Filling d g l) (hs : d.dSt = .push) (hp : d.pixIdx = 7#3)
    (hb : d.beatCnt.toNat = lineBeats - 1) : Filling (d.next i t) (d.record i g) l := by
  have hst := h.stored (t := t)
  have hport := h.ported (t := t) hs
  have hne : d.dSt ≠ .idle := by simp [hs]
  have hin : d.beatsIn = lineBeats := by
    simp only [beatsIn, hs, hb]
    rfl
  have haddr : d.fByteNext = beatAddr ((l + 1) % lcdH) 0 := by
    have ha := h.address
    simp only [beatNext, hs] at ha
    rw [fByteNext_beatAddr h.line (h.count hne) ha, if_pos hb]
  have hout : pixOut { d.ported t with
      fByte := d.fByteNext, lineAckToggle := !d.lineAckToggle, dSt := .idle } = d.pixOut + 1 := by
    simp only [pixOut, hs, hb, hp]
    rfl
  rw [next_lineDone hs hp hb, record_go (by simp [hs]) (not_starts hne)]
  constructor
  · exact h.line
  · intro hn
    exact absurd rfl hn
  · exact h.received.trans hin
  · intro k hk
    exact h.ordered k (hin.symm ▸ hk)
  · exact haddr
  · intro hw
    cases hw
  · intro _
    rw [hout]
    exact ⟨Nat.succ_pos _, hport⟩
  · rw [hout]
    exact hst

/-- **Step lemma.** Every edge of `app_clk` keeps the invariant. -/
theorem Filling.next (h : Filling d g l) :
    Filling (d.next i t) (d.record i g) (if d.starts i then (l + 1) % lcdH else l) := by
  cases hs : d.dSt with
  | idle =>
      by_cases hi : d.starts i = true
      · have ha := h.address
        simp only [beatNext, hs] at ha
        rw [if_pos hi]
        exact filling_start (Nat.mod_lt _ (by decide)) ha hi
      · rw [if_neg hi]
        exact h.rest hs (by simpa using hi)
  | req =>
      rw [if_neg (by simp [not_starts, hs])]
      exact h.req hs
  | wait =>
      rw [if_neg (by simp [not_starts, hs])]
      by_cases hv : i.rdataValid = true
      · exact h.beat hs hv
      · exact h.noBeat hs (by simpa using hv)
  | push =>
      rw [if_neg (by simp [not_starts, hs])]
      by_cases hp : d.pixIdx = 7#3
      · by_cases hb : d.beatCnt.toNat = lineBeats - 1
        · exact h.lineDone hs hp hb
        · exact h.beatDone hs hp hb
      · exact h.pixel hs hp

/-- Behind a line only its last pixel can be at the write port. -/
theorem Filling.last (h : Filling d g l) (hs : d.dSt = .idle) (he : d.wrEn = true) :
    d.wrAddr = BitVec.ofNat 10 (lcdW - 1) := by
  have ⟨_, hport⟩ := h.port he
  simp only [pixOut, hs] at hport
  exact congrArg Prod.fst hport

/-- A line that is filled and written out is whole. -/
theorem Filling.whole (h : Filling d g l) (hs : d.dSt = .idle) (he : d.wrEn = false) :
    WholeLine g (d.buffer d.fillSel) where
  beats := by
    have hr := h.received
    simpa only [beatsIn, hs] using hr
  line := by
    have ho := h.ordered
    simp only [beatsIn, hs] at ho
    exact ⟨l, h.line, ho⟩
  written := by
    have hw := h.written
    simpa [pixOut, hs, he] using hw

/-- With `n` lines begun, line `(n - 1) % 272` is on its way; before the first one the DMA rests at
the beginning of the framebuffer. -/
structure Tracked (d : LcdDma) (g : Fill) (n : Nat) : Prop where
  filling : d.primed = true → ∃ k, n = k + 1 ∧ Filling d g (k % lcdH)
  first : d.primed = false → n = 0 ∧ d.dSt = .idle ∧ d.fByte = fbBase ∧ d.wrEn = false

theorem tracked_reset : Tracked d.reset g 0 where
  filling := by
    intro h
    cases h
  first _ := ⟨rfl, rfl, rfl, rfl⟩

/-- Every edge of `app_clk` keeps what is known of the line. -/
theorem Tracked.next {n : Nat} (h : Tracked d g n) :
    Tracked (d.next i t) (d.record i g) (n + (d.starts i).toNat) := by
  cases hp : d.primed with
  | true =>
      have ⟨k, hk, hl⟩ := h.filling hp
      have hnext := hl.next (i := i) (t := t)
      constructor
      · intro _
        cases hi : d.starts i with
        | true =>
            rw [if_pos hi, Nat.mod_add_mod] at hnext
            exact ⟨k + 1, by rw [hk]; rfl, hnext⟩
        | false =>
            rw [if_neg (by simp [hi])] at hnext
            exact ⟨k, hk, hnext⟩
      · intro hf
        rw [next_primed hp] at hf
        cases hf
  | false =>
      have ⟨hn, hs, ha, _⟩ := h.first hp
      by_cases hi : d.starts i = true
      · constructor
        · intro _
          refine ⟨0, ?_, filling_start (by decide) (ha.trans (by decide)) hi⟩
          rw [hn, hi]
          rfl
        · intro hf
          rw [next_start hi] at hf
          cases hf
      · have hno : d.starts i = false := by simpa using hi
        rw [next_rest hs hno]
        constructor
        · intro ht
          exact absurd (hp.symm.trans ht) (by decide)
        · intro _
          refine ⟨?_, hs, ha, rfl⟩
          rw [hn, hno]
          rfl

end Invariant

end LcdDma

end MelonSoc
