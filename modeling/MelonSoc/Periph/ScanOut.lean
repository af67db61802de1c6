import MelonSoc.Periph.PanelRows
import MelonSoc.Periph.PingPong

set_option autoImplicit false

/-! # The picture on the panel

Every row of the panel either adopts the next line of the framebuffer or comes too late for it and
shows the last line again. The lines are read in order and are never skipped, so the row on the
panel and the row of the framebuffer differ by the number of rows that came too late: one such row
moves the picture until 272 of them have come. Inside a row the place read in the buffer is
`active_x`, which is one edge behind `lcd_de`: the first clock of a row shows the last pixel of the
buffer that was shown before, and each later one shows the pixel before its own.
-/

namespace MelonSoc

namespace LcdDma

/-- The address at the port of the controller for a byte address. -/
def portAddr (a : Word) : BitVec 28 := a.extractLsb' 4 25 ++ 0#3

/-- Pixel `x` of row `y` of the framebuffer `fb`. -/
def pixel (fb : BitVec 28 → Line) (y x : Nat) : BitVec 16 :=
  (fb (portAddr (beatAddr y (x / beatPix)))).extractLsb' (16 * (x % beatPix)) 16

end LcdDma

namespace LcdTop

/-- The panel adopts a line at this instant. -/
def adopts (e : LcdEdges) (s : LcdTop) : Bool := e.pix && s.panel.swaps

/-- A row begins at this instant and there is no new line for it. -/
def late (e : LcdEdges) (s : LcdTop) : Bool :=
  e.pix && (s.panel.linePulse && !s.panel.newLineReady)

/-- There is a pixel clock with `lcd_de` at this instant. -/
def deClock (e : LcdEdges) (s : LcdTop) : Bool := e.pix && s.panel.vga.de

/-- The number of lines adopted before instant `n`. -/
def adopted (inp : Nat → LcdEdges) (s : LcdTop) (n : Nat) : Nat :=
  Clocked.count next adopts inp s.reset n

/-- The number of rows before instant `n` that came too late. -/
def lates (inp : Nat → LcdEdges) (s : LcdTop) (n : Nat) : Nat :=
  Clocked.count next late inp s.reset n

/-- The number of pixel clocks with `lcd_de` before instant `n`. -/
def deClocks (inp : Nat → LcdEdges) (s : LcdTop) (n : Nat) : Nat :=
  Clocked.count next deClock inp s.reset n

/-- The controller answers out of the framebuffer `fb`, which does not change. -/
def Feeds (inp : Nat → LcdEdges) (s : LcdTop) (fb : BitVec 28 → Line) : Prop :=
  ∀ n i, (inp n).app = some i → (states inp s n).dma.dSt = .wait → i.rdataValid = true →
    i.rdata = fb (states inp s n).dma.appAddr

/-- The pixel clock does not stop. -/
def Ticks (inp : Nat → LcdEdges) : Prop := ∀ n, ∃ k, n ≤ k ∧ (inp k).pix = true

/-- The panel shows the framebuffer `fb` in register: in a row that adopts a line at instant `m`,
clock `x` with `lcd_de` shows pixel `x` of that row of the framebuffer, and the line that was
adopted is that row. -/
structure InRegister (inp : Nat → LcdEdges) (s : LcdTop) (fb : BitVec 28 → Line) : Prop where
  pixels : ∀ m n x, adopts (inp m) (states inp s m) = true → m ≤ n →
    deClock (inp n) (states inp s n) = true → deClocks inp s n = deClocks inp s m + x → x < lcdW →
    (states inp s n).rgb = LcdDma.pixel fb (states inp s m).panel.vga.row x
  rows : ∀ m, adopts (inp m) (states inp s m) = true → ∀ k, k < lineBeats →
    (LcdDma.beat (fills inp s m).beats k).1 = LcdDma.beatAddr (states inp s m).panel.vga.row k

/-- At every row that adopts a line, a multiple of 272 rows have come too late before, and that row
of the framebuffer has one colour, which is also the last one in the buffer that was shown. -/
structure Plain (inp : Nat → LcdEdges) (s : LcdTop) (fb : BitVec 28 → Line) : Prop where
  rows : ∀ m, adopts (inp m) (states inp s m) = true → lcdH ∣ lates inp s m
  colour : ∀ m, adopts (inp m) (states inp s m) = true → ∀ x, x < lcdW →
    LcdDma.pixel fb (states inp s m).panel.vga.row x =
      (states inp s m).buffer (states inp s m).panel.showSel (BitVec.ofNat 10 (lcdW - 1))

/-! ## Rows and lines -/

section Step

variable {e : LcdEdges} {s : LcdTop}

theorem next_panel : (s.next e).panel = if e.pix then s.panel.next s.dma.lineAckToggle else s.panel :=
  rfl

theorem next_scanned (h : s.panel.Scanned) : (s.next e).panel.Scanned := by
  rw [next_panel]
  cases e.pix with
  | true => exact h.next
  | false => exact h

theorem next_showSel : (s.next e).panel.showSel = (s.panel.showSel ^^ adopts e s) := by
  cases hs : adopts e s with
  | true =>
      rw [adopts, Bool.and_eq_true] at hs
      rw [(next_swapped hs.1 hs.2).1, Bool.xor_true]
  | false => rw [(next_kept hs).1, Bool.xor_false]

theorem next_fillSel : (s.next e).dma.fillSel = (s.dma.fillSel ^^ begins e s) := by
  rw [begins]
  cases ha : e.app with
  | none => rw [next_dma_none ha, Option.any_none, Bool.xor_false]
  | some i =>
      rw [next_dma_some ha, Option.any_some]
      rcases LcdDma.next_cases i s.panel.lineReqToggle s.dma with
        ⟨hst, -, -, hfill, -⟩ | ⟨hpush, -, -, hfill, -⟩ | ⟨hst, -, -, hfill, -⟩
      · rw [hfill, hst, Bool.xor_true]
      · rw [hfill, LcdDma.not_starts (by simp [hpush]), Bool.xor_false]
      · rw [hfill, hst, Bool.xor_false]

/-- A line is begun when the last one has been adopted. -/
theorem InStep.begun_same (h : InStep s) (hb : begins e s = true) :
    s.dma.fillSel = s.panel.showSel := by
  obtain ⟨i, _, hi⟩ := (Option.any_eq_true _ _).mp hb
  rcases h with h | h | h
  · exact h.same
  · rw [LcdDma.not_starts h.busy] at hi
    cases hi
  · rw [h.no_start] at hi
    cases hi

/-- A line is adopted when it has been begun. -/
theorem InStep.fillSel_ne (h : InStep s) (ha : adopts e s = true) :
    s.dma.fillSel ≠ s.panel.showSel := by
  rw [adopts, Bool.and_eq_true] at ha
  exact (h.swaps ha.2).other

/-- A line is adopted at a pixel clock with `lcd_de`. -/
theorem deClock_of_adopts (ha : adopts e s = true) : deClock e s = true := by
  rw [adopts, LcdPanel.swaps, LcdPanel.linePulse] at ha
  rw [deClock]
  revert ha
  cases e.pix <;> cases s.panel.vga.de <;> simp

/-- A row begins with a new line or too late. -/
theorem adopts_late :
    (adopts e s).toNat + (late e s).toNat = (e.pix && s.panel.linePulse).toNat := by
  rw [adopts, late, LcdPanel.swaps]
  cases e.pix <;> cases s.panel.linePulse <;> cases s.panel.newLineReady <;> rfl

end Step

section Run

variable {inp : Nat → LcdEdges} {s : LcdTop} {fb : BitVec 28 → Line}

theorem states_scanned (inp : Nat → LcdEdges) (s : LcdTop) (n : Nat) :
    (states inp s n).panel.Scanned :=
  Clocked.run_always (P := fun s : LcdTop => s.panel.Scanned) (LcdPanel.scanned_reset s.panel)
    (fun _ _ h => next_scanned h) n

theorem adopted_succ (inp : Nat → LcdEdges) (s : LcdTop) (n : Nat) :
    adopted inp s (n + 1) = adopted inp s n + (adopts (inp n) (states inp s n)).toNat :=
  Clocked.count_succ n

theorem lates_succ (inp : Nat → LcdEdges) (s : LcdTop) (n : Nat) :
    lates inp s (n + 1) = lates inp s n + (late (inp n) (states inp s n)).toNat :=
  Clocked.count_succ n

theorem deClocks_succ (inp : Nat → LcdEdges) (s : LcdTop) (n : Nat) :
    deClocks inp s (n + 1) = deClocks inp s n + (deClock (inp n) (states inp s n)).toNat :=
  Clocked.count_succ n

/-- **Run lemma.** The rows that were begun are the ones that adopted a line and the ones that came
too late. -/
theorem rows_counted (inp : Nat → LcdEdges) (s : LcdTop) (n : Nat) :
    (adopted inp s n + lates inp s n) % lcdH = (states inp s n).panel.vga.rowsBegun % lcdH := by
  induction n with
  | zero =>
      have hplace : (states inp s 0).panel.vga.place = 523 := VgaTiming.reset_place s.panel.vga
      rw [VgaTiming.rowsBegun_eq, hplace]
      rfl
  | succ n ih =>
      have hsum : adopted inp s (n + 1) + lates inp s (n + 1) = adopted inp s n + lates inp s n +
          ((inp n).pix && (states inp s n).panel.linePulse).toNat := by
        rw [← adopts_late, adopted_succ, lates_succ]
        exact Nat.add_add_add_comm ..
      rw [hsum, states_succ, next_panel]
      cases (inp n).pix with
      | false => exact ih
      | true =>
          have hrow := (states_scanned inp s n).rows_next (t := (states inp s n).dma.lineAckToggle)
          rw [if_pos rfl, hrow, Bool.true_and, Nat.add_mod, ih, ← Nat.add_mod]

/-- **Run lemma.** The lines that were begun have been adopted, but for the one on its way. -/
theorem lines_counted (inp : Nat → LcdEdges) (s : LcdTop) (n : Nat) :
    linesBegun inp s n = adopted inp s n +
      ((states inp s n).dma.fillSel ^^ (states inp s n).panel.showSel).toNat := by
  induction n with
  | zero => rfl
  | succ n ih =>
      have hstep := states_inStep inp s n
      rw [states_succ, adopted_succ, linesBegun_succ, ih, next_fillSel, next_showSel]
      have hbeg := hstep.begun_same (e := inp n)
      have hado := hstep.fillSel_ne (e := inp n)
      revert hbeg hado
      cases begins (inp n) (states inp s n) <;> cases adopts (inp n) (states inp s n) <;>
        cases (states inp s n).dma.fillSel <;> cases (states inp s n).panel.showSel <;> simp

/-- **Run lemma.** The beats of the line on its way come out of the framebuffer. -/
theorem beats_fed (h : Feeds inp s fb) (n : Nat) :
    ∀ b ∈ (fills inp s n).beats, b.2 = fb (LcdDma.portAddr b.1) := by
  induction n with
  | zero =>
      intro b hb
      cases hb
  | succ n ih =>
      rw [fills_succ, record]
      cases ha : (inp n).app with
      | none => exact ih
      | some i =>
          intro b hb
          simp only [LcdDma.record] at hb
          split at hb
          · cases hb
          · split at hb
            · rename_i hw
              rw [Bool.and_eq_true, beq_iff_eq] at hw
              rcases List.mem_append.mp hb with hb | hb
              · exact ih b hb
              · rw [List.mem_singleton.mp hb]
                exact h n i ha hw.1 hw.2
            · exact ih b hb

/-! ## The line that is adopted -/

theorem pixelOf_pixel {g : Fill} {l p : Nat} (hfed : ∀ b ∈ g.beats, b.2 = fb (LcdDma.portAddr b.1))
    (hlen : g.beats.length = lineBeats)
    (ho : ∀ k, k < lineBeats → (LcdDma.beat g.beats k).1 = LcdDma.beatAddr l k) (hp : p < lcdW) :
    (LcdDma.pixelOf g.beats p).2 = LcdDma.pixel fb l p := by
  have hk : p / beatPix < lineBeats := Nat.div_lt_div_of_lt_of_dvd (by decide) hp
  have hmem : LcdDma.beat g.beats (p / beatPix) ∈ g.beats := by
    rw [← hlen] at hk
    rw [LcdDma.beat, List.getD_eq_getElem _ _ hk]
    exact List.getElem_mem hk
  rw [LcdDma.pixelOf, LcdDma.pixel, hfed _ hmem, ho _ hk]

/-- When the panel adopts a line, line `adopted % 272` of the framebuffer is in the buffer, but for
its last pixel. -/
structure Ready (inp : Nat → LcdEdges) (s : LcdTop) (fb : BitVec 28 → Line) (m : Nat) : Prop where
  filled : Filled (states inp s m)
  beats : ∀ k, k < lineBeats →
    (LcdDma.beat (fills inp s m).beats k).1 = LcdDma.beatAddr (adopted inp s m % lcdH) k
  held : ∀ p, p < lcdW - 1 →
    (states inp s m).buffer (states inp s m).dma.fillSel (BitVec.ofNat 10 p) =
      LcdDma.pixel fb (adopted inp s m % lcdH) p

theorem ready (h : Feeds inp s fb) {m : Nat} (ha : adopts (inp m) (states inp s m) = true) :
    Ready inp s fb m := by
  have hstep := states_inStep inp s m
  have hne := hstep.fillSel_ne ha
  rw [adopts, Bool.and_eq_true] at ha
  have hfilled := hstep.swaps ha.2
  obtain ⟨k, hk, hl⟩ := (states_tracked inp s m).filling hfilled.primed
  have hcount : k = adopted inp s m := by
    have hx : ((states inp s m).dma.fillSel ^^ (states inp s m).panel.showSel) = true := by
      simpa using hne
    have hlines := lines_counted inp s m
    rw [hk, hx] at hlines
    exact Nat.succ.inj hlines
  rw [hcount] at hl
  have hin := hl.received
  have ho := hl.ordered
  have hw := hl.written.held
  simp only [LcdDma.beatsIn, LcdDma.pixOut, hfilled.idle] at hin ho hw
  refine ⟨hfilled, ho, ?_⟩
  intro p hp
  have hlt : p < lcdW - (states inp s m).dma.wrEn.toNat := by
    have := Bool.toNat_le (states inp s m).dma.wrEn
    omega
  exact (hw p hlt).trans (pixelOf_pixel (beats_fed h m) hin ho (by omega))

/-- The line that is adopted belongs to the row exactly when a multiple of 272 rows came too
late. -/
theorem adopted_row {m : Nat} (ha : adopts (inp m) (states inp s m) = true) :
    adopted inp s m % lcdH = (states inp s m).panel.vga.row ↔ lcdH ∣ lates inp s m := by
  rw [adopts, LcdPanel.swaps, Bool.and_eq_true, Bool.and_eq_true] at ha
  obtain ⟨hrow, hlt⟩ := (states_scanned inp s m).row ha.2.1
  have hcount := rows_counted inp s m
  rw [hrow, Nat.mod_eq_of_lt hlt] at hcount
  rw [← hcount]
  unfold lcdH
  omega

end Run

/-! ## Inside a row -/

/-- The panel is `x` clocks behind the beginning of a row that shows the pixels `line`. -/
structure InRow (s : LcdTop) (line : Nat → BitVec 16) (x : Nat) : Prop where
  place : s.panel.vga.hCnt.toNat = VgaTiming.hStart + x
  row : VgaTiming.vStart ≤ s.panel.vga.vCnt.toNat
  shown : ∀ p, p < lcdW - 1 → s.buffer s.panel.showSel (BitVec.ofNat 10 p) = line p

section Row

variable {e : LcdEdges} {s : LcdTop} {line : Nat → BitVec 16} {x : Nat}

/-- A pixel that is written is the one at the write port. -/
theorem next_buffer_ne {sel : Bool} {a : BitVec 10}
    (h : s.dma.wrEn = true → s.dma.fillSel = sel → s.dma.wrAddr ≠ a) :
    (s.next e).buffer sel a = s.buffer sel a := by
  show (s.next e).dma.buffer sel a = s.dma.buffer sel a
  cases ha : e.app with
  | none => rw [next_dma_none ha]
  | some i =>
      obtain ⟨_, _, _, hbuf⟩ := LcdDma.next_always i s.panel.lineReqToggle s.dma
      rw [next_dma_some ha, hbuf, LcdDma.buffer_stored]
      split
      · rename_i hw
        exact Function.update_of_ne (h hw.1 hw.2).symm _ _
      · rfl

theorem toNat_hCnt_next (h : s.panel.Scanned) (hp : e.pix = true) :
    (s.next e).panel.vga.hCnt.toNat = VgaTiming.hNext s.panel.vga.hCnt.toNat ∧
      (s.next e).panel.vga.vCnt.toNat =
        VgaTiming.vNext s.panel.vga.hCnt.toNat s.panel.vga.vCnt.toNat := by
  rw [next_panel, if_pos hp]
  exact ⟨h.timed.next_hCnt, h.timed.next_vCnt⟩

/-- In a row every pixel clock comes with `lcd_de`. -/
theorem InRow.de (h : InRow s line x) (hs : s.panel.Scanned) : s.panel.vga.de = true := by
  rw [hs.timed.de, h.place]
  exact ⟨Nat.le_add_right .., h.row⟩

/-- A row begins only at its first place. -/
theorem InRow.no_pulse (h : InRow s line x) (hs : s.panel.Scanned) (hx : 1 ≤ x) :
    s.panel.linePulse = false := by
  by_contra hn
  obtain ⟨hh, _⟩ := hs.linePulse.mp (by simpa using hn)
  rw [h.place] at hh
  omega

/-- A clock after the first one shows the pixel before its own. -/
theorem InRow.rgb (h : InRow s line x) (hs : s.panel.Scanned) (hx : 1 ≤ x) (hlt : x < lcdW) :
    s.rgb = line (x - 1) := by
  have hact := hs.activeX (by rw [h.place]; omega)
  have haddr : s.panel.vga.activeX = BitVec.ofNat 10 (x - 1) := by
    apply BitVec.eq_of_toNat_eq
    rw [hact, h.place, BitVec.toNat_ofNat]
    unfold lcdW at hlt
    omega
  rw [LcdTop.rgb, h.de hs, if_pos rfl, rdPix, haddr]
  exact h.shown (x - 1) (by omega)

/-- The first clock of a row shows the last pixel of the buffer that was shown before. -/
theorem rgb_first (hs : s.panel.Scanned) (hp : s.panel.linePulse = true) :
    s.rgb = s.buffer s.panel.showSel (BitVec.ofNat 10 (lcdW - 1)) := by
  obtain ⟨hh, hv⟩ := hs.linePulse.mp hp
  have hde : s.panel.vga.de = true := by
    rw [hs.timed.de, hh]
    exact ⟨Nat.le_refl _, hv⟩
  have hplace : VgaTiming.hTotal + VgaTiming.hActivePix ≤ s.panel.vga.place := by
    rw [VgaTiming.hStart_eq] at hh
    rw [VgaTiming.vStart_eq] at hv
    show 1005 ≤ _
    rw [VgaTiming.place_of_ge (by omega)]
    omega
  have hrest := hs.rest hplace (by omega)
  have haddr : s.panel.vga.activeX = BitVec.ofNat 10 (lcdW - 1) := BitVec.eq_of_toNat_eq hrest
  rw [LcdTop.rgb, hde, if_pos rfl, rdPix, haddr]

end Row

section Run

variable {inp : Nat → LcdEdges} {s : LcdTop} {fb : BitVec 28 → Line} {line : Nat → BitVec 16}
variable {m n x : Nat}

/-- Outside a fill only the last pixel of a buffer changes. -/
theorem buffer_kept {sel : Bool} {p : Nat} (hp : p < lcdW - 1)
    (hidle : (states inp s n).dma.fillSel = sel → (states inp s n).dma.dSt = .idle) :
    (states inp s (n + 1)).buffer sel (BitVec.ofNat 10 p) =
      (states inp s n).buffer sel (BitVec.ofNat 10 p) := by
  rw [states_succ]
  apply next_buffer_ne
  intro hw hsel heq
  have htr := states_tracked inp s n
  cases hpr : (states inp s n).dma.primed with
  | false =>
      obtain ⟨_, _, _, hno⟩ := htr.first hpr
      rw [hno] at hw
      cases hw
  | true =>
      obtain ⟨k, _, hl⟩ := htr.filling hpr
      rw [hl.last (hidle hsel) hw] at heq
      have hnat := congrArg BitVec.toNat heq
      rw [BitVec.toNat_ofNat, BitVec.toNat_ofNat] at hnat
      unfold lcdW at hp hnat
      omega

/-- The first pixels of the buffer that is shown stay. -/
theorem shown_kept {p : Nat} (hp : p < lcdW - 1) :
    (states inp s (n + 1)).buffer (states inp s n).panel.showSel (BitVec.ofNat 10 p) =
      (states inp s n).buffer (states inp s n).panel.showSel (BitVec.ofNat 10 p) := by
  apply buffer_kept hp
  intro hsel
  rcases states_inStep inp s n with h | h | h
  · exact h.idle
  · exact absurd hsel h.other
  · exact h.idle

/-- **Step lemma.** A pixel clock goes one place on in the row. -/
theorem InRow.next (h : InRow (states inp s n) line x) (hx : 1 ≤ x)
    (hlt : x + (deClock (inp n) (states inp s n)).toNat < lcdW) :
    InRow (states inp s (n + 1)) line (x + (deClock (inp n) (states inp s n)).toNat) := by
  have hs := states_scanned inp s n
  have hno : adopts (inp n) (states inp s n) = false := by
    rw [adopts, LcdPanel.swaps, h.no_pulse hs hx, Bool.false_and, Bool.and_false]
  have hshow : (states inp s (n + 1)).panel.showSel = (states inp s n).panel.showSel := by
    rw [states_succ, next_showSel, hno, Bool.xor_false]
  have hbuf : ∀ p, p < lcdW - 1 → (states inp s (n + 1)).buffer
      (states inp s (n + 1)).panel.showSel (BitVec.ofNat 10 p) = line p := by
    intro p hp
    rw [hshow, shown_kept hp]
    exact h.shown p hp
  cases hp : (inp n).pix with
  | false =>
      have hpanel : (states inp s (n + 1)).panel = (states inp s n).panel := by
        rw [states_succ, next_panel, hp]
        rfl
      have hclk : deClock (inp n) (states inp s n) = false := by
        rw [deClock, hp, Bool.false_and]
      rw [hclk]
      constructor
      · rw [hpanel]
        exact h.place
      · rw [hpanel]
        exact h.row
      · exact hbuf
  | true =>
      have hclk : deClock (inp n) (states inp s n) = true := by
        rw [deClock, hp, h.de hs, Bool.true_and]
      rw [hclk, Bool.toNat_true] at hlt ⊢
      obtain ⟨hh, hv⟩ := toNat_hCnt_next hs hp
      have hplace := h.place
      unfold lcdW at hlt
      constructor
      · rw [states_succ, hh, VgaTiming.hNext, hplace, VgaTiming.hStart_eq, VgaTiming.hTotal_eq,
          if_neg (by omega), Nat.add_assoc]
      · rw [states_succ, hv, VgaTiming.vNext, hplace, VgaTiming.hStart_eq, show VgaTiming.hFp - 1 = 1 from rfl,
          if_neg (by omega)]
        exact h.row
      · exact hbuf

/-- The row that adopts a line. -/
theorem inRow_first (hr : Ready inp s fb m) (ha : adopts (inp m) (states inp s m) = true) :
    InRow (states inp s (m + 1)) (LcdDma.pixel fb (adopted inp s m % lcdH)) 1 := by
  have hs := states_scanned inp s m
  have hand := ha
  rw [adopts, LcdPanel.swaps, Bool.and_eq_true, Bool.and_eq_true] at hand
  obtain ⟨hh, hv⟩ := hs.linePulse.mp hand.2.1
  obtain ⟨hh', hv'⟩ := toNat_hCnt_next hs hand.1
  have hshow : (states inp s (m + 1)).panel.showSel = (states inp s m).dma.fillSel := by
    rw [states_succ, next_showSel, ha, Bool.xor_true]
    exact (Bool.eq_not.mpr hr.filled.other).symm
  constructor
  · rw [states_succ, hh', hh]
    rfl
  · rw [states_succ, hv', hh]
    exact hv
  · intro p hp
    rw [hshow, buffer_kept hp fun _ => hr.filled.idle]
    exact hr.held p hp

/-- **Run lemma.** Where a row that has adopted a line is, and what it shows. -/
theorem row_scan (hr : Ready inp s fb m) (ha : adopts (inp m) (states inp s m) = true)
    (hn : m < n) (hlt : deClocks inp s n < deClocks inp s m + lcdW) :
    ∃ x, 1 ≤ x ∧ deClocks inp s n = deClocks inp s m + x ∧
      InRow (states inp s n) (LcdDma.pixel fb (adopted inp s m % lcdH)) x := by
  induction n, hn using Nat.le_induction with
  | base =>
      refine ⟨1, Nat.le_refl 1, ?_, inRow_first hr ha⟩
      rw [deClocks_succ, deClock_of_adopts ha]
      rfl
  | succ n _ ih =>
      have hsucc := deClocks_succ inp s n
      obtain ⟨x, hx, hcount, hrow⟩ := ih (by omega)
      refine ⟨x + (deClock (inp n) (states inp s n)).toNat, by omega, by omega, ?_⟩
      exact hrow.next hx (by omega)

/-- What clock `x` of a row shows: the last pixel of the buffer that was shown before, and then each
pixel one clock late. -/
theorem row_pixels (hr : Ready inp s fb m) (ha : adopts (inp m) (states inp s m) = true)
    (hmn : m ≤ n) (hcount : deClocks inp s n = deClocks inp s m + x) (hx : x < lcdW) :
    (states inp s n).rgb =
      if x = 0 then
        (states inp s m).buffer (states inp s m).panel.showSel (BitVec.ofNat 10 (lcdW - 1))
      else LcdDma.pixel fb (adopted inp s m % lcdH) (x - 1) := by
  by_cases hzero : x = 0
  · have heq : n = m := by
      by_contra hne
      have hlt : deClocks inp s m < deClocks inp s n :=
        Clocked.count_lt (Nat.lt_of_le_of_ne hmn (Ne.symm hne)) (deClock_of_adopts ha)
      omega
    rw [adopts, LcdPanel.swaps, Bool.and_eq_true, Bool.and_eq_true] at ha
    rw [if_pos hzero, heq]
    exact rgb_first (states_scanned inp s m) ha.2.1
  · have hlt : m < n := by
      by_contra hge
      rw [Nat.le_antisymm (Nat.not_lt.mp hge) hmn] at hcount
      omega
    obtain ⟨y, hy, hyc, hrow⟩ := row_scan hr ha hlt (by omega)
    have hxy : y = x := by omega
    rw [hxy] at hrow hy
    rw [if_neg hzero]
    exact hrow.rgb (states_scanned inp s n) hy hx

/-! ## Every clock of a row comes -/

theorem tick_comes (ht : Ticks inp) (s : LcdTop) (n : Nat) :
    ∃ k, n ≤ k ∧ (inp k).pix = true ∧ deClocks inp s k = deClocks inp s n := by
  obtain ⟨k, hk, hp⟩ := ht n
  induction hk using Nat.decreasingInduction with
  | self => exact ⟨k, Nat.le_refl k, hp, rfl⟩
  | of_succ n _ ih =>
      cases hn : (inp n).pix with
      | true => exact ⟨n, Nat.le_refl n, hn, rfl⟩
      | false =>
          obtain ⟨j, hj, hjp, hjc⟩ := ih
          refine ⟨j, Nat.le_of_succ_le hj, hjp, ?_⟩
          rw [hjc, deClocks_succ, deClock, hn, Bool.false_and]
          rfl

theorem clock_comes (ht : Ticks inp) (hr : Ready inp s fb m)
    (ha : adopts (inp m) (states inp s m) = true) (hx : x < lcdW) :
    ∃ n, m ≤ n ∧ deClock (inp n) (states inp s n) = true ∧
      deClocks inp s n = deClocks inp s m + x := by
  induction x with
  | zero => exact ⟨m, Nat.le_refl m, deClock_of_adopts ha, (Nat.add_zero _).symm⟩
  | succ x ih =>
      obtain ⟨n, hn, hclk, hcount⟩ := ih (Nat.lt_of_succ_lt hx)
      obtain ⟨k, hk, hp, hsame⟩ := tick_comes ht s (n + 1)
      rw [deClocks_succ, hclk, Bool.toNat_true, hcount, Nat.add_assoc] at hsame
      obtain ⟨y, _, _, hrow⟩ := row_scan hr ha (n := k) (by omega) (by omega)
      refine ⟨k, by omega, ?_, hsame⟩
      rw [deClock, hp, hrow.de (states_scanned inp s k)]
      rfl

/-! ## In register -/

theorem beatAddr_inj {l l' : Nat} (hl : l < lcdH) (hl' : l' < lcdH)
    (h : LcdDma.beatAddr l 0 = LcdDma.beatAddr l' 0) : l = l' := by
  have hnat := congrArg BitVec.toNat h
  rw [LcdDma.toNat_beatAddr hl (by decide), LcdDma.toNat_beatAddr hl' (by decide)] at hnat
  unfold LcdDma.lineBytes lcdW at hnat
  omega

theorem Plain.inRegister (h : Feeds inp s fb) (hplain : Plain inp s fb) : InRegister inp s fb := by
  constructor
  · intro m n x ha hmn _ hcount hx
    have hr := ready h ha
    have hcolour := hplain.colour m ha
    rw [row_pixels hr ha hmn hcount hx, (adopted_row ha).mpr (hplain.rows m ha), hcolour x hx]
    by_cases hzero : x = 0
    · rw [if_pos hzero]
    · rw [if_neg hzero]
      exact hcolour (x - 1) (by omega)
  · intro m ha k hk
    rw [(ready h ha).beats k hk, (adopted_row ha).mpr (hplain.rows m ha)]

theorem InRegister.row (h : Feeds inp s fb) (hin : InRegister inp s fb)
    (ha : adopts (inp m) (states inp s m) = true) :
    adopted inp s m % lcdH = (states inp s m).panel.vga.row := by
  have hpulse := ha
  rw [adopts, LcdPanel.swaps, Bool.and_eq_true, Bool.and_eq_true] at hpulse
  have hlt := ((states_scanned inp s m).row hpulse.2.1).2
  have hfirst := hin.rows m ha 0 (by decide)
  rw [(ready h ha).beats 0 (by decide)] at hfirst
  exact beatAddr_inj (Nat.mod_lt _ (by decide)) hlt hfirst

theorem InRegister.plain (h : Feeds inp s fb) (ht : Ticks inp) (hin : InRegister inp s fb) :
    Plain inp s fb := by
  constructor
  · intro m ha
    exact (adopted_row ha).mp (hin.row h ha)
  · intro m ha x hx
    have hr := ready h ha
    induction x with
    | zero =>
        obtain ⟨n, hn, hclk, hcount⟩ := clock_comes ht hr ha hx
        rw [← hin.pixels m n 0 ha hn hclk hcount hx, row_pixels hr ha hn hcount hx]
        rfl
    | succ x ih =>
        obtain ⟨n, hn, hclk, hcount⟩ := clock_comes ht hr ha hx
        rw [← hin.pixels m n (x + 1) ha hn hclk hcount hx, row_pixels hr ha hn hcount hx,
          if_neg (Nat.succ_ne_zero x), hin.row h ha]
        exact ih (Nat.lt_of_succ_lt hx)

/-- **Scan-out.** However the edges of the two clocks fall and whenever the controller answers: the
panel is in register where every row that adopts a line is plain and comes without a slip. If the
pixel clock does not stop, it is in register nowhere else. -/
theorem scan_out (h : Feeds inp s fb) :
    (Plain inp s fb → InRegister inp s fb) ∧
      (Ticks inp → InRegister inp s fb → Plain inp s fb) :=
  ⟨fun hplain => hplain.inRegister h, fun ht hin => hin.plain h ht⟩

end Run

/-! ## The first row -/

/-- Edges of both clocks; the controller is ready and answers with `line`. -/
def lit (line : Line) : LcdEdges :=
  { app := some
      { cmdRdy := true, dataRdy := true, rdataValid := true, rdata := line
        initCalibComplete := true }
    pix := true }

/-- The edges of `app_clk` until the line is filled, when the controller is always ready. -/
def edgesLeft (d : LcdDma) : Nat :=
  match d.dSt with
  | .idle => 0
  | .req => 11 * (lineBeats - d.beatCnt.toNat) - d.cmdEn.toNat
  | .wait => 11 * (lineBeats - d.beatCnt.toNat) - 2
  | .push => 11 * (lineBeats - d.beatCnt.toNat) - 3 - d.pixIdx.toNat

/-- The instant at which the first row begins. -/
def firstRowAt : Nat := 6870

section FirstRow

variable {inp : Nat → LcdEdges} {line : Line} {n : Nat}

theorem edgesLeft_next {i : AppIn} {t : Bool} {d : LcdDma} (hb : d.beatCnt.toNat < lineBeats)
    (hs : d.dSt ≠ .idle) (hr : i.cmdRdy = true) (hv : i.rdataValid = true)
    (hc : i.initCalibComplete = true) : edgesLeft (d.next i t) + 1 = edgesLeft d := by
  have h60 : lineBeats = 60 := rfl
  rw [h60] at hb
  cases hd : d.dSt with
  | idle => exact absurd hd hs
  | req =>
      cases hen : d.cmdEn with
      | true =>
          rw [LcdDma.next_accepted hd (by rw [hen, hr]; rfl)]
          simp only [edgesLeft, hd, hen, LcdDma.stored, h60, Bool.toNat_true]
          omega
      | false =>
          rw [LcdDma.next_asking hd (by rw [hen, hr]; rfl), hc]
          simp only [edgesLeft, hd, hen, LcdDma.stored, h60, Bool.toNat_true, Bool.toNat_false]
          omega
  | wait =>
      rw [LcdDma.next_beat hd hv]
      simp only [edgesLeft, hd, LcdDma.stored, h60, BitVec.toNat_ofNat]
      omega
  | push =>
      by_cases h7 : d.pixIdx = 7#3
      · have hseven : d.pixIdx.toNat = 7 := by rw [h7]; rfl
        by_cases hlast : d.beatCnt.toNat = lineBeats - 1
        · rw [LcdDma.next_lineDone hd h7 hlast]
          simp only [edgesLeft, hd, hlast, h60, hseven]
        · have hsucc : (d.beatCnt + 1#10).toNat = d.beatCnt.toNat + 1 := by bv_omega
          rw [LcdDma.next_beatDone hd h7 hlast]
          simp only [edgesLeft, hd, h60, hseven, hsucc, LcdDma.ported, LcdDma.stored,
            Bool.toNat_false]
          rw [h60] at hlast
          omega
      · have hlt : d.pixIdx.toNat < 7 := by
          have := d.pixIdx.isLt
          have : d.pixIdx.toNat ≠ 7 := fun heq => h7 (BitVec.eq_of_toNat_eq heq)
          omega
        have hsucc : (d.pixIdx + 1#3).toNat = d.pixIdx.toNat + 1 := by bv_omega
        rw [LcdDma.next_pixel hd h7]
        simp only [edgesLeft, LcdDma.ported_dSt, LcdDma.ported_beatCnt, hd, h60, hsucc]
        omega

/-- The first row begins at place 7393, and the second one at place 7918. -/
theorem pulse_place {p : LcdPanel} (h : p.Scanned) (hp : p.linePulse = true)
    (hlt : p.vga.place < 7918) : p.vga.place = 7393 := by
  obtain ⟨hh, hv⟩ := h.linePulse.mp hp
  rw [VgaTiming.hStart_eq] at hh
  rw [VgaTiming.vStart_eq] at hv
  rw [VgaTiming.place_of_ge (by omega)] at hlt ⊢
  omega

theorem place_pulse {p : LcdPanel} (h : p.Scanned) (hp : p.vga.place = 7393) :
    p.linePulse = true := by
  have hlt := h.timed.h
  rw [VgaTiming.hTotal_eq] at hlt
  rw [h.linePulse, VgaTiming.hStart_eq, VgaTiming.vStart_eq]
  by_cases hlow : p.vga.hCnt.toNat < 2
  · rw [VgaTiming.place_of_lt hlow] at hp
    omega
  · rw [VgaTiming.place_of_ge (Nat.not_lt.mp hlow)] at hp
    omega

theorem states_place (s : LcdTop) (hp : ∀ k, k < n → (inp k).pix = true) (hn : n < 149627) :
    (states inp s n).panel.vga.place = 523 + n := by
  induction n with
  | zero => exact VgaTiming.reset_place s.panel.vga
  | succ n ih =>
      have hplace := ih (fun k hk => hp k (Nat.lt_succ_of_lt hk)) (Nat.lt_of_succ_lt hn)
      have hnext := (states_scanned inp s n).timed.next_place
      rw [states_succ, next_panel, if_pos (hp n (Nat.lt_succ_self n))]
      show (states inp s n).panel.vga.next.place = _
      rw [hnext, hplace, if_neg (by omega), Nat.add_assoc]

/-- There is one pulse in the first 7000 clocks. -/
theorem pulse_at (s : LcdTop) (hp : ∀ k, k < n → (inp k).pix = true) (hn : n < 7000)
    (hpulse : (states inp s n).panel.linePulse = true) : n = firstRowAt := by
  have hplace := states_place s hp (by omega)
  have := pulse_place (states_scanned inp s n) hpulse (by omega)
  unfold firstRowAt
  omega

/-- The state at instant `n`, before the first row: the DMA fills line 1 or has filled it, and the
panel shows the buffer it began with. -/
structure Waiting (s : LcdTop) (n : Nat) : Prop where
  phase : (Busy s ∧ edgesLeft s.dma + n = 661) ∨ Filled s
  shown : s.panel.showSel = false
  dark : s.buffer false (BitVec.ofNat 10 (lcdW - 1)) = 0#16

theorem waiting_one (line : Line) : Waiting (zero.reset.next (lit line)) 1 where
  phase := by
    left
    refine ⟨⟨?_, rfl, ?_, ⟨rfl, rfl, rfl⟩, ⟨rfl, rfl, rfl⟩⟩, rfl⟩
    · show DmaState.req ≠ .idle
      decide
    · show true ≠ false
      decide
  shown := rfl
  dark := rfl

theorem Waiting.next (hw : Waiting (states inp zero n) n)
    (hpulse : (states inp zero n).panel.linePulse = false) (he : inp n = lit line) :
    Waiting (states inp zero (n + 1)) (n + 1) := by
  have hno : ((lit line).pix && (states inp zero n).panel.swaps) = false := by
    rw [LcdPanel.swaps, hpulse, Bool.false_and, Bool.and_false]
  rw [states_succ, he]
  constructor
  · rcases hw.phase with ⟨hb, hleft⟩ | hf
    · rcases hb.next (e := lit line) with hb' | hf'
      · left
        refine ⟨hb', ?_⟩
        obtain ⟨k, _, hl⟩ := (states_tracked inp zero n).filling hb.primed
        have hdrop := edgesLeft_next (t := (states inp zero n).panel.lineReqToggle)
          (i := { cmdRdy := true, dataRdy := true, rdataValid := true, rdata := line
                  initCalibComplete := true })
          (hl.count hb.busy) hb.busy rfl rfl rfl
        show edgesLeft ((states inp zero n).dma.next _ _) + (n + 1) = 661
        omega
      · exact .inr hf'
    · exact .inr (hf.wait hno)
  · rw [(next_kept hno).1]
    exact hw.shown
  · rw [next_buffer]
    · exact hw.dark
    · rintro ⟨-, -, hsel⟩
      rcases hw.phase with ⟨hb, _⟩ | hf
      · exact hb.other (hsel.trans hw.shown.symm)
      · exact hf.other (hsel.trans hw.shown.symm)

theorem waiting (he : ∀ k, k < firstRowAt → inp k = lit line) (h1 : 1 ≤ n) (hn : n ≤ firstRowAt) :
    Waiting (states inp zero n) n := by
  induction n, h1 using Nat.le_induction with
  | base =>
      rw [states_succ, he 0 (by decide)]
      exact waiting_one line
  | succ n _ ih =>
      have hpulse : (states inp zero n).panel.linePulse = false := by
        by_contra hp
        have hpix : ∀ k, k < n → (inp k).pix = true := by
          intro k hk
          rw [he k (Nat.lt_trans hk hn)]
          rfl
        have := pulse_at zero hpix (Nat.lt_of_lt_of_le hn (by decide)) (by simpa using hp)
        omega
      exact (ih (Nat.le_of_succ_le hn)).next hpulse (he n hn)

theorem Waiting.filled {s : LcdTop} (hw : Waiting s n) (hn : 661 < n) : Filled s := by
  rcases hw.phase with ⟨_, hleft⟩ | hf
  · omega
  · exact hf

/-- The first row adopts the first line, out of a buffer that is dark. -/
theorem first_adopted (he : ∀ k, k ≤ firstRowAt → inp k = lit line) :
    adopts (inp firstRowAt) (states inp zero firstRowAt) = true := by
  have he' : ∀ k, k < firstRowAt → inp k = lit line := fun k hk => he k (Nat.le_of_lt hk)
  have hw0 := (waiting he' (n := 6868) (by decide) (by decide)).filled (by decide)
  have hw1 := (waiting he' (n := 6869) (by decide) (by decide)).filled (by decide)
  have hw := waiting he' (n := firstRowAt) (by decide) (Nat.le_refl _)
  have hack0 := (hw0.dma (e := inp 6868)).2.2.2.2.2.2
  have hack1 := (hw1.dma (e := inp 6869)).2.2.2.2.2.2
  rw [← states_succ] at hack0 hack1
  have hp1 : (states inp zero 6869).panel.lineAckP1 = (states inp zero 6868).dma.lineAckToggle := by
    rw [states_succ, next_p1, he' 6868 (by decide)]
    rfl
  have hp2 : (states inp zero firstRowAt).panel.lineAckP2 =
      (states inp zero firstRowAt).dma.lineAckToggle := by
    show (states inp zero (6869 + 1)).panel.lineAckP2 = _
    rw [states_succ, next_p2, he' 6869 (by decide)]
    show (states inp zero 6869).panel.lineAckP1 = (states inp zero (6869 + 1)).dma.lineAckToggle
    rw [hp1, hack1, hack0]
  have hpix : ∀ k, k < firstRowAt → (inp k).pix = true := by
    intro k hk
    rw [he' k hk]
    rfl
  have hpulse := place_pulse (states_scanned inp zero firstRowAt)
    (states_place zero hpix (by decide))
  have hnews := (hw.filled (by decide)).news
  have hready : (states inp zero firstRowAt).panel.newLineReady = true := by
    rw [LcdPanel.newLineReady, hp2]
    simpa using hnews.symm
  rw [adopts, LcdPanel.swaps, hpulse, hready, he firstRowAt (Nat.le_refl _)]
  rfl

/-- The first clock of the first row is dark. -/
theorem first_dark (he : ∀ k, k < firstRowAt → inp k = lit line) :
    (states inp zero firstRowAt).buffer (states inp zero firstRowAt).panel.showSel
      (BitVec.ofNat 10 (lcdW - 1)) = 0#16 := by
  have hw := waiting he (n := firstRowAt) (by decide) (Nat.le_refl _)
  rw [hw.shown]
  exact hw.dark

end FirstRow

/-- A framebuffer with all pixels white, and both clocks at every instant. -/
def white (_ : Nat) : LcdEdges := lit (BitVec.allOnes 128)

theorem white_not_inRegister :
    Feeds white zero (fun _ => BitVec.allOnes 128) ∧
      ¬InRegister white zero (fun _ => BitVec.allOnes 128) := by
  constructor
  · intro n i hi _ _
    cases hi
    rfl
  · intro hin
    have hlit : ∀ k, white k = lit (BitVec.allOnes 128) := fun _ => rfl
    have ha : adopts (white firstRowAt) (states white zero firstRowAt) = true :=
      first_adopted fun k _ => hlit k
    have hdark : (states white zero firstRowAt).buffer (states white zero firstRowAt).panel.showSel
        (BitVec.ofNat 10 (lcdW - 1)) = 0#16 := first_dark fun k _ => hlit k
    have hshown := hin.pixels firstRowAt firstRowAt 0 ha (Nat.le_refl _) (deClock_of_adopts ha)
      (Nat.add_zero _).symm (by decide)
    rw [adopts, LcdPanel.swaps, Bool.and_eq_true, Bool.and_eq_true] at ha
    rw [rgb_first (states_scanned white zero firstRowAt) ha.2.1, hdark] at hshown
    revert hshown
    show ¬(0#16 = (BitVec.allOnes 128).extractLsb' (16 * (0 % 8)) 16)
    decide

/-- A framebuffer with all pixels black, and both clocks until instant 7000. -/
def black (n : Nat) : LcdEdges := if n < 7000 then lit 0#128 else { app := none, pix := false }

theorem black_lit {n : Nat} (h : n < 7000) : black n = lit 0#128 := if_pos h

theorem black_adopts {m : Nat} (ha : adopts (black m) (states black zero m) = true) :
    m = firstRowAt := by
  rw [adopts, LcdPanel.swaps, Bool.and_eq_true, Bool.and_eq_true] at ha
  have hm : m < 7000 := by
    by_contra hm
    have hpix := ha.1
    rw [black, if_neg hm] at hpix
    cases hpix
  have hpix : ∀ k, k < m → (black k).pix = true := by
    intro k hk
    rw [black_lit (Nat.lt_trans hk hm)]
    rfl
  exact pulse_at zero hpix hm ha.2.1

theorem black_plain : Plain black zero fun _ => 0#128 := by
  have he : ∀ k, k < firstRowAt → black k = lit 0#128 :=
    fun k hk => black_lit (Nat.lt_trans hk (by decide))
  constructor
  · intro m ha
    rw [black_adopts ha]
    have hzero : lates black zero firstRowAt = 0 := by
      apply Clocked.count_eq_zero
      intro k hk
      have hpulse : (states black zero k).panel.linePulse = false := by
        by_contra hp
        have hpix : ∀ j, j < k → (black j).pix = true := by
          intro j hj
          rw [he j (Nat.lt_trans hj hk)]
          rfl
        have := pulse_at zero hpix (Nat.lt_trans hk (by decide)) (by simpa using hp)
        omega
      show late (black k) (states black zero k) = false
      rw [late, hpulse, Bool.false_and, Bool.and_false]
    rw [hzero]
    exact Nat.dvd_zero lcdH
  · intro m ha x _
    rw [black_adopts ha, first_dark he]
    simp [LcdDma.pixel]

theorem scan_out_black :
    adopts (black firstRowAt) (states black zero firstRowAt) = true ∧
      InRegister black zero fun _ => 0#128 := by
  constructor
  · exact first_adopted fun k hk => black_lit (Nat.lt_of_le_of_lt hk (by decide))
  · apply (scan_out _).1 black_plain
    intro n i hi _ _
    rw [black] at hi
    split at hi <;> cases hi
    rfl

end LcdTop

end MelonSoc
