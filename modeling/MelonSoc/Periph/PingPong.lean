import MelonSoc.Periph.LineFill

set_option autoImplicit false

/-! # The two line buffers are never confused

The DMA turns `fill_sel` when it begins a line and the panel turns `show_sel` when it adopts one.
Each of the two is a toggle of its own domain; they are kept in step by the request of the panel
and the announcement of the DMA, and each of these reaches the other domain through two registers.
The exchange goes round in three phases:

* *asked*: the DMA is idle, the buffers are the same, and the request is on its way;
* *filling*: the DMA fills the other buffer, and both synchronisers have settled;
* *filled*: the line is announced and the announcement is on its way.

The last pixel of a line is written one cycle after the line has been announced. The panel has to
wait for two edges of `pix_clk` before it sees the announcement, and an edge of `app_clk` between
them has written the pixel.
-/

namespace MelonSoc

/-! ## The phases -/

namespace LcdTop

/-- The panel has seen everything that was announced. -/
structure Settled (s : LcdTop) : Prop where
  p1 : s.panel.lineAckP1 = s.dma.lineAckToggle
  p2 : s.panel.lineAckP2 = s.dma.lineAckToggle
  seen : s.panel.lineAckSeen = s.dma.lineAckToggle

/-- The DMA has seen everything that was asked for. -/
structure Served (s : LcdTop) : Prop where
  a1 : s.dma.lineReqA1 = s.panel.lineReqToggle
  a2 : s.dma.lineReqA2 = s.panel.lineReqToggle
  seen : s.dma.lineReqSeen = s.panel.lineReqToggle

/-- The panel has adopted the last line, or there has been none, and waits for the next one. -/
structure Asked (s : LcdTop) : Prop where
  idle : s.dma.dSt = .idle
  same : s.dma.fillSel = s.panel.showSel
  settled : Settled s
  first : s.dma.primed = false → Served s
  later : s.dma.primed = true → s.dma.lineReqSeen ≠ s.panel.lineReqToggle
  order : s.dma.lineReqA2 = s.panel.lineReqToggle → s.dma.lineReqA1 = s.panel.lineReqToggle

/-- The DMA fills the buffer that is not shown. -/
structure Busy (s : LcdTop) : Prop where
  busy : s.dma.dSt ≠ .idle
  primed : s.dma.primed = true
  other : s.dma.fillSel ≠ s.panel.showSel
  settled : Settled s
  served : Served s

/-- The line is announced. -/
structure Filled (s : LcdTop) : Prop where
  idle : s.dma.dSt = .idle
  primed : s.dma.primed = true
  other : s.dma.fillSel ≠ s.panel.showSel
  served : Served s
  news : s.panel.lineAckSeen ≠ s.dma.lineAckToggle
  arrived : s.panel.lineAckP2 = s.dma.lineAckToggle → s.panel.lineAckP1 = s.dma.lineAckToggle

/-- The handshake is in one of its phases. -/
def InStep (s : LcdTop) : Prop := Asked s ∨ Busy s ∨ Filled s

/-- While the last pixel of a line is at the write port, the announcement has not come through to
the panel. With `due` there has been an edge of `pix_clk` and none of `app_clk` since. -/
structure LastPixel (due : Bool) (s : LcdTop) : Prop where
  unseen : s.panel.lineAckSeen ≠ s.dma.lineAckToggle
  coming : s.panel.lineAckP2 ≠ s.dma.lineAckToggle
  passing : s.panel.lineAckP1 = s.dma.lineAckToggle → due = true

/-- What is known while the DMA is idle and the write port is not. -/
def Draining (due : Bool) (s : LcdTop) : Prop :=
  s.dma.dSt = .idle → s.dma.wrEn = true → LastPixel due s

/-- There has been an edge of `pix_clk` and none of `app_clk` since. -/
def dueNext (e : LcdEdges) (due : Bool) : Bool :=
  if e.app.isSome then false else if e.pix then true else due

/-- There is an edge of `app_clk` between any two edges of `pix_clk`; one that comes together with
an edge of `pix_clk` counts. -/
def AppBetween (inp : Nat → LcdEdges) : Prop :=
  ∀ m n, m < n → (inp m).pix = true → (inp n).pix = true →
    ∃ k, m ≤ k ∧ k ≤ n ∧ (inp k).app.isSome = true

/-- The state before instant `n` when both domains have been reset together. -/
def states (inp : Nat → LcdEdges) (s : LcdTop) (n : Nat) : LcdTop :=
  Clocked.run next inp s.reset n

/-- What the edges of an instant add to the line on its way. -/
def record (e : LcdEdges) (s : LcdTop) (g : Fill) : Fill :=
  match e.app with
  | some i => s.dma.record i g
  | none => g

/-- The line on its way before instant `n`. -/
def fills (inp : Nat → LcdEdges) (s : LcdTop) (n : Nat) : Fill :=
  Clocked.history next record inp s.reset { beats := [], writes := [] } n

/-- The DMA begins a line at this instant. -/
def begins (e : LcdEdges) (s : LcdTop) : Bool := e.app.any fun i => s.dma.starts i

/-- The number of lines that were begun before instant `n`. -/
def linesBegun (inp : Nat → LcdEdges) (s : LcdTop) (n : Nat) : Nat :=
  Clocked.count next begins inp s.reset n

/-- At this instant the DMA writes a pixel into the buffer that is selected by `sel`. -/
def Writes (e : LcdEdges) (s : LcdTop) (sel : Bool) : Prop :=
  e.app.isSome = true ∧ s.dma.wrEn = true ∧ s.dma.fillSel = sel

/-! ## The steps of the handshake -/

section Step

variable {e : LcdEdges} {s : LcdTop} {due : Bool}

theorem next_dma_some {i : AppIn} (h : e.app = some i) :
    (s.next e).dma = s.dma.next i s.panel.lineReqToggle := by
  rw [next, h]

theorem next_dma_none (h : e.app = none) : (s.next e).dma = s.dma := by
  rw [next, h]

theorem next_p1 :
    (s.next e).panel.lineAckP1 =
      if e.pix then s.dma.lineAckToggle else s.panel.lineAckP1 := by
  cases h : e.pix <;> simp [next, LcdPanel.next, h]

theorem next_p2 :
    (s.next e).panel.lineAckP2 =
      if e.pix then s.panel.lineAckP1 else s.panel.lineAckP2 := by
  cases h : e.pix <;> simp [next, LcdPanel.next, h]

/-- The panel keeps its choice unless it adopts a line. -/
theorem next_kept (h : (e.pix && s.panel.swaps) = false) :
    (s.next e).panel.showSel = s.panel.showSel ∧
      (s.next e).panel.lineReqToggle = s.panel.lineReqToggle ∧
      (s.next e).panel.lineAckSeen = s.panel.lineAckSeen := by
  cases hp : e.pix with
  | false => simp [next, hp]
  | true =>
      have hs : s.panel.swaps = false := by simpa [hp] using h
      simp [next, hp, LcdPanel.next, hs]

theorem next_swapped (hp : e.pix = true) (hs : s.panel.swaps = true) :
    (s.next e).panel.showSel = !s.panel.showSel ∧
      (s.next e).panel.lineReqToggle = !s.panel.lineReqToggle ∧
      (s.next e).panel.lineAckSeen = s.panel.lineAckP2 := by
  simp [next, hp, LcdPanel.next, hs]

theorem Settled.no_swap (h : Settled s) : s.panel.swaps = false := by
  simp [LcdPanel.swaps, LcdPanel.newLineReady, h.p2, h.seen]

/-- What the panel has seen it goes on seeing. -/
theorem Settled.next (h : Settled s) :
    (s.next e).panel.lineAckP1 = s.dma.lineAckToggle ∧
      (s.next e).panel.lineAckP2 = s.dma.lineAckToggle ∧
      (s.next e).panel.lineAckSeen = s.dma.lineAckToggle ∧
      (s.next e).panel.showSel = s.panel.showSel ∧
      (s.next e).panel.lineReqToggle = s.panel.lineReqToggle := by
  have ⟨hshow, hreq, hseen⟩ := next_kept (e := e) (s := s) (by simp [h.no_swap])
  rw [next_p1, next_p2, hseen, h.p1, h.p2, h.seen]
  exact ⟨ite_self _, ite_self _, rfl, hshow, hreq⟩

/-- A line is begun when the request is there, and for the first line without one. -/
theorem Asked.starts (h : Asked s) {i : AppIn} (hi : s.dma.starts i = true) :
    s.dma.lineReqA1 = s.panel.lineReqToggle ∧ s.dma.lineReqA2 = s.panel.lineReqToggle := by
  cases hp : s.dma.primed with
  | false => exact ⟨(h.first hp).a1, (h.first hp).a2⟩
  | true =>
      have hne : s.dma.lineReqA2 ≠ s.dma.lineReqSeen := by
        simp only [LcdDma.starts, LcdDma.lineReqEdge, hp, Bool.and_eq_true] at hi
        simpa using hi.2
      have ha2 : s.dma.lineReqA2 = s.panel.lineReqToggle := by
        rw [Bool.eq_not.mpr hne, Bool.eq_not.mpr (h.later hp).symm]
      exact ⟨h.order ha2, ha2⟩

theorem Asked.next (h : Asked s) : Asked (s.next e) ∨ Busy (s.next e) := by
  have ⟨hp1, hp2, hseen, hshow, hreq⟩ := h.settled.next (e := e)
  cases ha : e.app with
  | none =>
      left
      have hd := next_dma_none (s := s) ha
      constructor
      · rw [hd, h.idle]
      · rw [hd, hshow, h.same]
      · rw [← hd] at hp1 hp2 hseen
        exact ⟨hp1, hp2, hseen⟩
      · intro hf
        rw [hd] at hf
        have := h.first hf
        constructor
        · rw [hd, hreq, this.a1]
        · rw [hd, hreq, this.a2]
        · rw [hd, hreq, this.seen]
      · rw [hd, hreq]
        exact h.later
      · rw [hd, hreq]
        exact h.order
  | some i =>
      have hd := next_dma_some (s := s) ha
      have ⟨ha1, ha2, _⟩ := LcdDma.next_always i s.panel.lineReqToggle s.dma
      rw [← hd] at ha1 ha2
      rw [← hreq] at ha1
      rcases LcdDma.next_cases i s.panel.lineReqToggle s.dma with
        ⟨hst, hreqd, hprimed, hfill, hrseen, hack⟩ | ⟨hpush, -⟩ |
        ⟨hst, hidle, hprimed, hfill, hrseen, hack⟩
      · right
        have ⟨hr1, hr2⟩ := h.starts hst
        rw [← hd] at hreqd hprimed hfill hrseen hack
        constructor
        · simp [hreqd]
        · exact hprimed
        · rw [hfill, hshow, h.same]
          simp
        · rw [← hack] at hp1 hp2 hseen
          exact ⟨hp1, hp2, hseen⟩
        · exact ⟨ha1, by rw [ha2, hr1, hreq], by rw [hrseen, hr2, hreq]⟩
      · rw [h.idle] at hpush
        cases hpush
      · left
        rw [← hd] at hidle hprimed hfill hrseen hack
        constructor
        · exact hidle.mpr h.idle
        · rw [hfill, hshow, h.same]
        · rw [← hack] at hp1 hp2 hseen
          exact ⟨hp1, hp2, hseen⟩
        · intro hf
          have hs := h.first (hprimed ▸ hf)
          exact ⟨ha1, by rw [ha2, hs.a1, hreq], by rw [hrseen, hs.seen, hreq]⟩
        · rw [hprimed, hrseen, hreq]
          exact h.later
        · intro _
          exact ha1

theorem Served.next (h : Served s) {i : AppIn} (ha : e.app = some i)
    (hrseen : (s.next e).dma.lineReqSeen = s.dma.lineReqSeen)
    (hreq : (s.next e).panel.lineReqToggle = s.panel.lineReqToggle) : Served (s.next e) := by
  have hd := next_dma_some (s := s) ha
  have ⟨ha1, ha2, _⟩ := LcdDma.next_always i s.panel.lineReqToggle s.dma
  rw [← hd] at ha1 ha2
  constructor
  · rw [ha1, hreq]
  · rw [ha2, h.a1, hreq]
  · rw [hrseen, h.seen, hreq]

theorem Busy.next (h : Busy s) : Busy (s.next e) ∨ Filled (s.next e) := by
  have ⟨hp1, hp2, hseen, hshow, hreq⟩ := h.settled.next (e := e)
  cases ha : e.app with
  | none =>
      left
      have hd := next_dma_none (s := s) ha
      constructor
      · rw [hd]
        exact h.busy
      · rw [hd, h.primed]
      · rw [hd, hshow]
        exact h.other
      · rw [← hd] at hp1 hp2 hseen
        exact ⟨hp1, hp2, hseen⟩
      · have hs := h.served
        constructor
        · rw [hd, hreq, hs.a1]
        · rw [hd, hreq, hs.a2]
        · rw [hd, hreq, hs.seen]
  | some i =>
      have hd := next_dma_some (s := s) ha
      rcases LcdDma.next_cases i s.panel.lineReqToggle s.dma with
        ⟨hst, -⟩ | ⟨hpush, hidle, hprimed, hfill, hrseen, hack⟩ |
        ⟨hst, hidle, hprimed, hfill, hrseen, hack⟩
      · rw [LcdDma.not_starts h.busy] at hst
        cases hst
      · right
        rw [← hd] at hidle hprimed hfill hrseen hack
        have hnew : s.dma.lineAckToggle ≠ (s.next e).dma.lineAckToggle := by
          rw [hack]
          simp
        constructor
        · exact hidle
        · rw [hprimed, h.primed]
        · rw [hfill, hshow]
          exact h.other
        · exact h.served.next ha hrseen hreq
        · rw [hseen]
          exact hnew
        · intro heq
          exact absurd (hp2.symm.trans heq) hnew
      · left
        rw [← hd] at hidle hprimed hfill hrseen hack
        constructor
        · intro hi
          exact h.busy (hidle.mp hi)
        · rw [hprimed, h.primed]
        · rw [hfill, hshow]
          exact h.other
        · rw [← hack] at hp1 hp2 hseen
          exact ⟨hp1, hp2, hseen⟩
        · exact h.served.next ha hrseen hreq

theorem Filled.no_start (h : Filled s) (i : AppIn) : s.dma.starts i = false := by
  simp [LcdDma.starts, LcdDma.lineReqEdge, h.primed, h.served.a2, h.served.seen]

/-- The panel adopts a line that it has seen announced. -/
theorem Filled.swaps (h : Filled s) (hs : s.panel.swaps = true) :
    s.panel.lineAckP2 = s.dma.lineAckToggle := by
  have hp2 : s.panel.lineAckP2 ≠ s.panel.lineAckSeen := by
    simp only [LcdPanel.swaps, LcdPanel.newLineReady, Bool.and_eq_true] at hs
    simpa using hs.2
  rw [Bool.eq_not.mpr hp2, Bool.eq_not.mpr h.news.symm]

/-- The registers of the DMA in this phase. -/
theorem Filled.dma (h : Filled s) :
    (s.next e).dma.dSt = .idle ∧ (s.next e).dma.primed = true ∧
      (s.next e).dma.fillSel = s.dma.fillSel ∧
      (s.next e).dma.lineReqSeen = s.panel.lineReqToggle ∧
      (s.next e).dma.lineReqA1 = s.panel.lineReqToggle ∧
      (s.next e).dma.lineReqA2 = s.panel.lineReqToggle ∧
      (s.next e).dma.lineAckToggle = s.dma.lineAckToggle := by
  cases ha : e.app with
  | none =>
      rw [next_dma_none ha]
      exact ⟨h.idle, h.primed, rfl, h.served.seen, h.served.a1, h.served.a2, rfl⟩
  | some i =>
      rw [next_dma_some ha]
      have ⟨ha1, ha2, _⟩ := LcdDma.next_always i s.panel.lineReqToggle s.dma
      rcases LcdDma.next_cases i s.panel.lineReqToggle s.dma with
        ⟨hst, -⟩ | ⟨hpush, -⟩ | ⟨-, hidle, hprimed, hfill, hrseen, hack⟩
      · rw [h.no_start] at hst
        cases hst
      · rw [h.idle] at hpush
        cases hpush
      · exact ⟨hidle.mpr h.idle, hprimed.trans h.primed, hfill, hrseen.trans h.served.seen, ha1,
          ha2.trans h.served.a1, hack⟩

/-- The panel adopts the line. -/
theorem Filled.adopt (h : Filled s) (hp : e.pix = true) (hs : s.panel.swaps = true) :
    Asked (s.next e) := by
  have ⟨hidle, hprimed, hfill, hrseen, ha1, ha2, hack⟩ := h.dma (e := e)
  have ⟨hshow, hreq, hseen⟩ := next_swapped hp hs
  have hp2 := h.swaps hs
  constructor
  · exact hidle
  · rw [hfill, hshow]
    exact Bool.eq_not.mpr h.other
  · constructor
    · rw [next_p1, hp, hack]
      rfl
    · rw [next_p2, hp, hack]
      exact h.arrived hp2
    · rw [hseen, hp2, hack]
  · intro hf
    rw [hprimed] at hf
    cases hf
  · intro _
    rw [hrseen, hreq]
    simp
  · intro heq
    rw [ha2, hreq] at heq
    simp at heq

/-- The announcement goes on. -/
theorem Filled.wait (h : Filled s) (hn : (e.pix && s.panel.swaps) = false) :
    Filled (s.next e) := by
  have ⟨hidle, hprimed, hfill, hrseen, ha1, ha2, hack⟩ := h.dma (e := e)
  have ⟨hshow, hreq, hseen⟩ := next_kept hn
  constructor
  · exact hidle
  · exact hprimed
  · rw [hfill, hshow]
    exact h.other
  · rw [← hreq] at hrseen ha1 ha2
    exact ⟨ha1, ha2, hrseen⟩
  · rw [hseen, hack]
    exact h.news
  · rw [next_p1, next_p2, hack]
    intro heq
    cases hp : e.pix with
    | false =>
        rw [hp] at heq
        exact h.arrived heq
    | true => rfl

/-- **Step lemma.** Every edge keeps the handshake in step. -/
theorem InStep.next (h : InStep s) : InStep (s.next e) := by
  rcases h with h | h | h
  · rcases h.next (e := e) with h' | h'
    · exact .inl h'
    · exact .inr (.inl h')
  · exact .inr h.next
  · by_cases hs : (e.pix && s.panel.swaps) = true
    · rw [Bool.and_eq_true] at hs
      exact .inl (h.adopt hs.1 hs.2)
    · exact .inr (.inr (h.wait (by simpa using hs)))

/-! ## The last pixel -/

theorem LastPixel.no_swap (h : LastPixel due s) : s.panel.swaps = false := by
  have heq : s.panel.lineAckP2 = s.panel.lineAckSeen := by
    rw [Bool.eq_not.mpr h.coming, Bool.eq_not.mpr h.unseen]
  simp [LcdPanel.swaps, LcdPanel.newLineReady, heq]

/-- Without an edge of `app_clk` the announcement comes one register nearer at most. -/
theorem LastPixel.wait (h : LastPixel due s) (ha : e.app = none)
    (hb : due = true → e.pix = true → e.app.isSome = true) :
    LastPixel (dueNext e due) (s.next e) := by
  have hd := next_dma_none (s := s) ha
  have ⟨_, _, hseen⟩ := next_kept (e := e) (s := s) (by simp [h.no_swap])
  have hnot : e.pix = true → s.panel.lineAckP1 ≠ s.dma.lineAckToggle := by
    intro hp heq
    have := hb (h.passing heq) hp
    simp [ha] at this
  constructor
  · rw [hseen, hd]
    exact h.unseen
  · rw [next_p2, hd]
    cases hp : e.pix with
    | true => exact hnot hp
    | false => exact h.coming
  · rw [next_p1, hd, dueNext, ha]
    cases hp : e.pix with
    | true => simp
    | false => simpa using h.passing

/-- **Step lemma.** Every edge keeps what is known of the last pixel. -/
theorem Draining.next (h : Draining due s) (hs : InStep s)
    (hb : due = true → e.pix = true → e.app.isSome = true) :
    Draining (dueNext e due) (s.next e) := by
  intro hidle' hw'
  cases ha : e.app with
  | none =>
      rw [next_dma_none ha] at hidle' hw'
      exact (h hidle' hw').wait ha hb
  | some i =>
      have hd := next_dma_some (s := s) ha
      have ⟨_, _, hen, _⟩ := LcdDma.next_always i s.panel.lineReqToggle s.dma
      have hpush : s.dma.dSt = .push := by
        rw [hd, hen] at hw'
        simpa using hw'
      -- the DMA announces the line at this edge, and the panel has seen nothing of it
      rcases hs with hs | hs | hs
      · rw [hs.idle] at hpush
        cases hpush
      · have ⟨hp1, hp2, hseen, _⟩ := hs.settled.next (e := e)
        rcases LcdDma.next_cases i s.panel.lineReqToggle s.dma with
          ⟨hst, -⟩ | ⟨-, -, -, -, -, hack⟩ | ⟨-, hidle, -⟩
        · rw [LcdDma.not_starts hs.busy] at hst
          cases hst
        · rw [← hd] at hack
          have hnew : s.dma.lineAckToggle ≠ (s.next e).dma.lineAckToggle := by
            rw [hack]
            simp
          constructor
          · rw [hseen]
            exact hnew
          · rw [hp2]
            exact hnew
          · rw [hp1]
            intro heq
            exact absurd heq hnew
        · rw [hd] at hidle'
          exact absurd (hidle.mp hidle') hs.busy
      · rw [hs.idle] at hpush
        cases hpush

/-- When the panel adopts a line, its last pixel has been written. -/
theorem Draining.swaps (h : Draining due s) (hidle : s.dma.dSt = .idle)
    (hs : s.panel.swaps = true) : s.dma.wrEn = false := by
  by_contra hw
  rw [(h hidle (by simpa using hw)).no_swap] at hs
  cases hs

/-- The DMA does not write into the buffer that is shown, nor into one that is adopted at the same
instant. -/
theorem InStep.apart (h : InStep s) (hd : Draining due s) :
    ¬Writes e s s.panel.showSel ∧ ¬Writes e s (s.next e).panel.showSel := by
  unfold Writes
  rcases h with h | h | h
  · have hw : s.dma.wrEn = false := by
      by_contra hw
      exact (hd h.idle (by simpa using hw)).unseen h.settled.seen
    simp [hw]
  · have ⟨_, _, _, hshow, _⟩ := h.settled.next (e := e)
    rw [hshow]
    simp [h.other]
  · constructor
    · simp [h.other]
    · rintro ⟨-, hw, heq⟩
      by_cases hs : (e.pix && s.panel.swaps) = true
      · rw [Bool.and_eq_true] at hs
        rw [hd.swaps h.idle hs.2] at hw
        cases hw
      · rw [(next_kept (by simpa using hs)).1] at heq
        exact h.other heq

/-- The panel adopts a line only when one is announced. -/
theorem InStep.swaps (h : InStep s) (hs : s.panel.swaps = true) : Filled s := by
  rcases h with h | h | h
  · rw [h.settled.no_swap] at hs
    cases hs
  · rw [h.settled.no_swap] at hs
    cases hs
  · exact h

/-- The panel turns to the buffer that has been filled. -/
theorem InStep.turned (h : InStep s) (hne : (s.next e).panel.showSel ≠ s.panel.showSel) :
    e.pix = true ∧ s.panel.swaps = true ∧ (s.next e).panel.showSel = s.dma.fillSel := by
  have hs : (e.pix && s.panel.swaps) = true := by
    by_contra hs
    exact hne (next_kept (by simpa using hs)).1
  rw [Bool.and_eq_true] at hs
  refine ⟨hs.1, hs.2, ?_⟩
  rw [(next_swapped hs.1 hs.2).1]
  exact (Bool.eq_not.mpr (h.swaps hs.2).other).symm

/-- A buffer changes where the DMA writes. -/
theorem next_buffer {sel : Bool} (h : ¬Writes e s sel) : (s.next e).buffer sel = s.buffer sel := by
  show (s.next e).dma.buffer sel = s.dma.buffer sel
  cases ha : e.app with
  | none => rw [next_dma_none ha]
  | some i =>
      have ⟨_, _, _, hbuf⟩ := LcdDma.next_always i s.panel.lineReqToggle s.dma
      have hno : ¬(s.dma.wrEn = true ∧ s.dma.fillSel = sel) := by
        simpa [Writes, ha] using h
      rw [next_dma_some ha, hbuf, LcdDma.buffer_stored, if_neg hno]

end Step

/-! ## Runs -/

section Run

variable {inp : Nat → LcdEdges} {n : Nat}

theorem states_succ (inp : Nat → LcdEdges) (s : LcdTop) (n : Nat) :
    states inp s (n + 1) = (states inp s n).next (inp n) := rfl

theorem fills_succ (inp : Nat → LcdEdges) (s : LcdTop) (n : Nat) :
    fills inp s (n + 1) = record (inp n) (states inp s n) (fills inp s n) := by
  rw [fills, Clocked.history_succ]
  rfl

theorem linesBegun_succ (inp : Nat → LcdEdges) (s : LcdTop) (n : Nat) :
    linesBegun inp s (n + 1) =
      linesBegun inp s n + (begins (inp n) (states inp s n)).toNat := Clocked.count_succ n

theorem due_edge (h : Clocked.run dueNext inp false n = true) :
    ∃ m, m < n ∧ (inp m).pix = true ∧ ∀ k, m ≤ k → k < n → (inp k).app.isSome = false := by
  induction n with
  | zero => cases h
  | succ n ih =>
      rw [Clocked.run_succ, dueNext] at h
      cases ha : (inp n).app.isSome with
      | true =>
          rw [ha] at h
          cases h
      | false =>
          rw [ha] at h
          cases hp : (inp n).pix with
          | true =>
              refine ⟨n, Nat.lt_succ_self n, hp, ?_⟩
              intro k hle hlt
              rw [Nat.le_antisymm (Nat.le_of_lt_succ hlt) hle, ha]
          | false =>
              rw [hp] at h
              have ⟨m, hm, hpm, hnone⟩ := ih h
              refine ⟨m, Nat.lt_succ_of_lt hm, hpm, ?_⟩
              intro k hle hlt
              rcases Nat.lt_succ_iff_lt_or_eq.mp hlt with hk | rfl
              · exact hnone k hle hk
              · exact ha

/-- An edge of `pix_clk` that is due comes together with one of `app_clk`. -/
theorem AppBetween.due (h : AppBetween inp) (hd : Clocked.run dueNext inp false n = true)
    (hp : (inp n).pix = true) : (inp n).app.isSome = true := by
  have ⟨m, hm, hpm, hnone⟩ := due_edge hd
  have ⟨k, hle, hkn, hk⟩ := h m n hm hpm hp
  rcases Nat.lt_or_eq_of_le hkn with hlt | rfl
  · rw [hnone k hle hlt] at hk
    cases hk
  · exact hk

theorem asked_reset (s : LcdTop) : Asked s.reset where
  idle := rfl
  same := rfl
  settled := ⟨rfl, rfl, rfl⟩
  first _ := ⟨rfl, rfl, rfl⟩
  later h := by cases h
  order _ := rfl

/-- **Run lemma.** The handshake is in step at every instant. -/
theorem states_inStep (inp : Nat → LcdEdges) (s : LcdTop) (n : Nat) : InStep (states inp s n) :=
  Clocked.run_always (.inl (asked_reset s)) (fun _ _ h => h.next) n

/-- **Run lemma.** The last pixel of a line is written before the panel sees the announcement. -/
theorem states_draining (h : AppBetween inp) (s : LcdTop) (n : Nat) :
    Draining (Clocked.run dueNext inp false n) (states inp s n) := by
  induction n with
  | zero =>
      intro _ hw
      cases hw
  | succ n ih => exact ih.next (states_inStep inp s n) h.due

/-- **Run lemma.** The line on its way is known at every instant. -/
theorem states_tracked (inp : Nat → LcdEdges) (s : LcdTop) (n : Nat) :
    (states inp s n).dma.Tracked (fills inp s n) (linesBegun inp s n) := by
  induction n with
  | zero => exact LcdDma.tracked_reset
  | succ n ih =>
      rw [states_succ, fills_succ, linesBegun_succ, record, begins]
      cases ha : (inp n).app with
      | none =>
          rw [next_dma_none ha]
          exact ih
      | some i =>
          rw [next_dma_some ha]
          exact ih.next

/-- **Ping-pong exclusion.** However the edges of the two clocks fall, with one of `app_clk` between
any two of `pix_clk`, and whenever the controller answers: the DMA never writes into the buffer that
is shown, whose contents stay, and the panel turns to the other buffer only when one whole line of
the framebuffer has been written into it. -/
theorem ping_pong (s : LcdTop) (h : AppBetween inp) (n : Nat) :
    ¬Writes (inp n) (states inp s n) (states inp s n).panel.showSel ∧
      ¬Writes (inp n) (states inp s n) (states inp s (n + 1)).panel.showSel ∧
      (states inp s (n + 1)).buffer (states inp s n).panel.showSel =
        (states inp s n).buffer (states inp s n).panel.showSel ∧
      ((states inp s (n + 1)).panel.showSel ≠ (states inp s n).panel.showSel →
        (states inp s (n + 1)).panel.showSel = (states inp s n).dma.fillSel ∧
          LcdDma.WholeLine (fills inp s n)
            ((states inp s n).buffer (states inp s (n + 1)).panel.showSel)) := by
  have hstep := states_inStep inp s n
  have hdrain := states_draining h s n
  have ⟨hnow, hthen⟩ := hstep.apart hdrain (e := inp n)
  refine ⟨hnow, hthen, next_buffer hnow, ?_⟩
  intro hne
  have ⟨_, hs, hsel⟩ := hstep.turned hne
  have hfilled := hstep.swaps hs
  have ⟨k, _, hl⟩ := (states_tracked inp s n).filling hfilled.primed
  refine ⟨hsel, ?_⟩
  have hnext : (states inp s (n + 1)).panel.showSel = (states inp s n).dma.fillSel := hsel
  rw [hnext]
  exact hl.whole hfilled.idle (hdrain.swaps hfilled.idle hs)

end Run

/-- All registers and both buffers are 0. -/
def zero : LcdTop :=
  { dma :=
      { dSt := .idle, fByte := 0#32, cmdEn := false, cap := 0#128, pixIdx := 0#3, beatCnt := 0#10
        fillSel := false, wrEn := false, wrData := 0#16, wrAddr := 0#10, lineReqA1 := false
        lineReqA2 := false, lineReqSeen := false, lineAckToggle := false, primed := false
        lineA := fun _ => 0#16, lineB := fun _ => 0#16 }
    panel :=
      { vga :=
          { hsReg := false, vsReg := false, hCnt := 0#12, vCnt := 0#12, hActive := false
            vActive := false, activeX := 0#10, activeY := 0#10 }
        deD := false, showSel := false, lineReqToggle := false, lineAckSeen := false
        lineAckP1 := false, lineAckP2 := false } }

/-- An edge of `app_clk` at every instant and one of `pix_clk` at every third; the controller is
ready and answers with all pixels white. -/
def steady (n : Nat) : LcdEdges :=
  { app := some
      { cmdRdy := true, dataRdy := true, rdataValid := true, rdata := BitVec.allOnes 128
        initCalibComplete := true }
    pix := n % 3 == 0 }

theorem ping_pong_steady :
    ¬Writes (steady 6) (states steady zero 6) (states steady zero 6).panel.showSel ∧
      (states steady zero 6).dma.wrEn = true ∧
      (states steady zero 7).buffer false = (states steady zero 6).buffer false := by
  have hb : AppBetween steady := fun m n hlt _ _ => ⟨m, Nat.le_refl m, Nat.le_of_lt hlt, rfl⟩
  have ⟨hnow, _, hsame, _⟩ := ping_pong zero hb 6
  have hsel : (states steady zero 6).panel.showSel = false := by decide
  rw [hsel] at hsame
  exact ⟨hnow, by decide, hsame⟩

end LcdTop

end MelonSoc
