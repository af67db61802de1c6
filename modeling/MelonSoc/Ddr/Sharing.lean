import MelonSoc.Rtl.Top
import MelonSoc.Lib.Clocked

set_option autoImplicit false

/-! # Two masters on the port of the controller

The bridge and the DMA share the command port, and the beats come back without a tag: the arbiter
counts the reads of the DMA that are on their way and takes the next beat for the DMA while the
count is not zero. The controller of this file remembers whose read it has taken and returns one
beat for each, in order, each after any number of cycles.
-/

namespace MelonSoc

inductive Master
  | cpu
  | lcd
  deriving DecidableEq

/-- A read that the controller has taken. -/
structure PortRead where
  master : Master
  addr : BitVec 28
  deriving DecidableEq

/-- The masters with the controller: the reads it has not answered yet, oldest first. -/
structure Port where
  top : Top
  pending : List PortRead

/-- What has happened on the port. -/
structure PortLog where
  /-- The reads the controller has taken. -/
  accepted : List PortRead
  /-- The reads it has answered, each with its beat. -/
  returned : List (PortRead × Line)
  /-- The beats the bridge has taken. -/
  cpu : List Line
  /-- The beats the DMA has taken. -/
  lcd : List Line

namespace Port

def reset (lcd : LcdDma) : Port := { top := Top.reset lcd, pending := [] }

/-- The controller can only return a beat for a read it has taken. -/
def answer (x : TopIn) (s : Port) : AppIn :=
  { x.ddr with rdataValid := x.ddr.rdataValid && !s.pending.isEmpty }

/-- The read that the controller takes in this cycle: the command on the port belongs to the
master that is granted. -/
def accepted (x : TopIn) (s : Port) : List PortRead :=
  if s.top.ddrApp.cmdEn && x.ddr.cmdRdy && s.top.ddrApp.cmd == 1#3 then
    [{ master := if s.top.lcdGrant then .lcd else .cpu, addr := s.top.ddrApp.addr }]
  else []

def next (x : TopIn) (s : Port) : Port :=
  { top := s.top.next { x with ddr := s.answer x }
    pending :=
      (if (s.answer x).rdataValid then s.pending.tail else s.pending) ++ s.accepted x }

/-- The bridge takes a beat in this cycle. -/
def cpuTakes (x : TopIn) (s : Port) : Bool :=
  s.top.cpu.state == .readWait && (s.top.cpuApp (s.answer x)).rdataValid

/-- The DMA takes a beat in this cycle. -/
def lcdTakes (x : TopIn) (s : Port) : Bool :=
  s.top.lcd.dSt == .wait && (s.top.lcdApp (s.answer x)).rdataValid

def logNext (x : TopIn) (s : Port) (g : PortLog) : PortLog :=
  { accepted := g.accepted ++ s.accepted x
    returned := g.returned ++
      if (s.answer x).rdataValid then s.pending.head?.toList.map (·, x.ddr.rdata) else []
    cpu := g.cpu ++ if s.cpuTakes x then [x.ddr.rdata] else []
    lcd := g.lcd ++ if s.lcdTakes x then [x.ddr.rdata] else [] }

end Port

/-! ## The property -/

/-- The arbiter in a cycle with the inputs `x`, after what `g` records. -/
structure Arbitrated (x : TopIn) (s : Port) (g : PortLog) : Prop where
  /-- A beat that comes back reaches the master whose read it answers, and this one waits for the
  beat at this address. -/
  routed : ∀ r, s.pending.head? = some r → (s.answer x).rdataValid = true →
    (r.master = .cpu → (s.top.cpuApp (s.answer x)).rdataValid = true ∧
      (s.top.lcdApp (s.answer x)).rdataValid = false ∧ s.top.cpu.state = .readWait ∧
      r.addr = s.top.cpu.addr) ∧
    (r.master = .lcd → (s.top.lcdApp (s.answer x)).rdataValid = true ∧
      (s.top.cpuApp (s.answer x)).rdataValid = false ∧ s.top.lcd.dSt = .wait ∧
      r.addr = s.top.lcd.appAddr)
  /-- Neither master sees a beat that the controller does not return. -/
  silent : (s.answer x).rdataValid = false →
    (s.top.cpuApp (s.answer x)).rdataValid = false ∧
      (s.top.lcdApp (s.answer x)).rdataValid = false
  /-- One beat per read, in order. -/
  answered : g.accepted = g.returned.map Prod.fst ++ s.pending
  /-- The bridge has taken the beats of its reads, each once, and no others. -/
  cpuBeats : g.cpu = (g.returned.filter (·.1.master = .cpu)).map Prod.snd
  /-- And the DMA those of its own. -/
  lcdBeats : g.lcd = (g.returned.filter (·.1.master = .lcd)).map Prod.snd
  inflight : s.top.inflightLcd.toNat ≤ 1
  /-- The count counts the reads of the DMA on their way. -/
  counts : s.top.inflightLcd.toNat = s.pending.countP (·.master = .lcd)
  /-- It is updated without a wrap in either direction. -/
  exact : (s.top.inflightLcdNext (s.answer x)).toNat + (s.top.lcdRetire (s.answer x)).toNat =
    s.top.inflightLcd.toNat + (s.top.lcdIssue (s.answer x)).toNat
  quiet : s.top.lcdGrant = true →
    s.top.cpu.cmdEn = false ∧ s.top.cpu.wren = false ∧ s.top.cpu.dataEnd = false

/-! ## The bridge side -/

namespace BridgeApp

/-- The bridge has no command on the port and none on its way. -/
def beforeRead (a : BridgeApp) : Prop :=
  a.state = .idle ∨ a.state = .capture ∨ a.state = .readCmd

/-- Which commands the bridge can present in which state. -/
structure Strobes (a : BridgeApp) : Prop where
  silent : a.beforeRead ∨ a.state = .writeCmd → a.cmdEn = false
  write : a.state ≠ .ack → a.wren = false ∧ a.dataEnd = false
  ack : a.state = .ack → a.cmdEn = true → a.cmd = 0#3

variable {i : AppIn} {b : BridgeBus} {a : BridgeApp}

theorem strobes_reset : BridgeApp.reset.Strobes where
  silent := fun _ => rfl
  write := fun _ => ⟨rfl, rfl⟩
  ack := by intro h; cases h

theorem next_strobes : (a.next i b).Strobes := by
  cases hs : a.state <;> simp only [BridgeApp.next, hs] <;> (repeat' split) <;>
    constructor <;> simp [beforeRead]

/-- Without a ready the bridge stays in front of its read. -/
theorem beforeRead.next (h : a.beforeRead) (hrdy : i.cmdRdy = false) :
    (a.next i b).beforeRead := by
  rcases h with hs | hs | hs <;> simp only [beforeRead, BridgeApp.next, hs, hrdy]
  · split <;> simp
  · simp
  · simp

theorem next_of_idle (h : a.idle = true) : (a.next i b).beforeRead := by
  simp only [idle, Bool.and_eq_true, beq_iff_eq] at h
  left
  simp [BridgeApp.next, h.1, h.2]

/-- The bridge goes on waiting until a beat comes. -/
theorem next_readWait (hs : a.state = .readWait) (hv : i.rdataValid = false) :
    (a.next i b).state = .readWait ∧ (a.next i b).cmdEn = false ∧
      (a.next i b).addr = a.addr := by
  simp [BridgeApp.next, hs, hv]

end BridgeApp

/-! ## The DMA side -/

namespace LcdDma

variable {i : AppIn} {t : Bool} {s : LcdDma}

@[simp] theorem pushed_dSt : s.pushed.dSt = s.dSt := by
  unfold pushed
  repeat' split
  all_goals rfl

@[simp] theorem pushed_fByte : s.pushed.fByte = s.fByte := by
  unfold pushed
  repeat' split
  all_goals rfl

/-- The command is presented in `D_REQ` only. -/
theorem next_cmdEn (h : (s.next i t).cmdEn = true) : (s.next i t).dSt = .req := by
  revert h
  cases hs : s.dSt <;> simp only [LcdDma.next, hs] <;> (repeat' split) <;> simp [hs]

/-- The DMA waits from the cycle after its command is taken to its beat. -/
theorem next_wait : (s.next i t).dSt = .wait ↔
    (s.dSt = .req ∧ s.cmdEn = true ∧ i.cmdRdy = true) ∨
      (s.dSt = .wait ∧ i.rdataValid = false) := by
  cases hs : s.dSt <;> simp only [LcdDma.next, hs] <;> (repeat' split) <;> simp_all

/-- The address stays while the DMA asks and waits. -/
theorem next_appAddr (h : s.dSt ≠ .push) : (s.next i t).appAddr = s.appAddr := by
  unfold appAddr
  cases hs : s.dSt <;> simp only [LcdDma.next, hs] <;> (repeat' split) <;> simp_all

end LcdDma

/-! ## Who waits for what -/

/-- The read the DMA waits for. -/
def LcdDma.waiting (s : LcdDma) : List PortRead :=
  if s.dSt = .wait then [{ master := .lcd, addr := s.appAddr }] else []

/-- The read the bridge waits for, or none: the command may still be on the port, or never have
been taken. -/
def BridgeApp.Waiting (a : BridgeApp) (c : List PortRead) : Prop :=
  c = [] ∨ (c = [{ master := .cpu, addr := a.addr }] ∧ a.state = .readWait ∧ a.cmdEn = false)

/-- The arbiter and its masters agree. -/
structure Agreed (s : Port) : Prop where
  strobes : s.top.cpu.Strobes
  dma : s.top.lcd.cmdEn = true → s.top.lcd.dSt = .req
  held : s.top.lcdRstN = false →
    s.top.lcdGrant = false ∧ s.top.lcd.cmdEn = false ∧ s.top.lcd.dSt = .idle
  granted : s.top.lcdGrant = true → s.top.cpu.beforeRead
  inflight : s.top.inflightLcd = if s.top.lcd.dSt = .wait then 1#2 else 0#2
  /-- The DMA has its read in front of that of the bridge. -/
  pending : ∃ c, s.pending = s.top.lcd.waiting ++ c ∧ s.top.cpu.Waiting c

theorem agreed_reset (lcd : LcdDma) : Agreed (Port.reset lcd) where
  strobes := BridgeApp.strobes_reset
  dma := by intro h; cases h
  held := fun _ => ⟨rfl, rfl, rfl⟩
  granted := by intro h; cases h
  inflight := rfl
  pending := ⟨[], rfl, .inl rfl⟩

section Step

variable {x : TopIn} {s : Port}

theorem Agreed.lcdIssue_req (h : Agreed s) {i : AppIn} (hi : s.top.lcdIssue i = true) :
    s.top.lcdGrant = true ∧ s.top.lcd.cmdEn = true ∧ s.top.lcd.dSt = .req ∧ i.cmdRdy = true := by
  simp only [Top.lcdIssue, Top.lcdApp, Bool.and_eq_true] at hi
  obtain ⟨⟨hg, hen⟩, hrdy⟩ := hi
  rw [if_pos hg] at hrdy
  exact ⟨hg, hen, h.dma hen, hrdy⟩

/-- A beat is for the DMA if the DMA waits. -/
theorem Agreed.beatIsLcd (h : Agreed s) (i : AppIn) :
    s.top.beatIsLcd i = (decide (s.top.lcd.dSt = .wait) && i.rdataValid) := by
  rw [Top.beatIsLcd, h.inflight]
  by_cases hw : s.top.lcd.dSt = .wait <;> simp [hw]

theorem Agreed.lcdRetire (h : Agreed s) (i : AppIn) :
    s.top.lcdRetire i = (decide (s.top.lcd.dSt = .wait) && i.rdataValid) := by
  rw [← h.beatIsLcd, Top.lcdRetire, Top.beatIsLcd, Bool.and_comm]

/-- What the controller takes while the DMA is granted is the read of the DMA. -/
theorem accepted_granted (hg : s.top.lcdGrant = true) :
    s.accepted x =
      if s.top.lcdIssue (s.answer x) then [{ master := .lcd, addr := s.top.lcd.appAddr }]
      else [] := by
  simp [Port.accepted, Top.ddrApp, Top.lcdIssue, Top.lcdApp, Port.answer, hg]

/-- Otherwise it is a read the bridge presents. -/
theorem Agreed.accepted_cpu (h : Agreed s) (hg : s.top.lcdGrant = false) :
    s.accepted x = [] ∨
      (s.accepted x = [{ master := .cpu, addr := s.top.cpu.addr }] ∧
        s.top.cpu.state = .readWait ∧ s.top.cpu.cmdEn = true) := by
  simp only [Port.accepted, Top.ddrApp, hg, Bool.false_eq_true, if_false]
  split
  · rename_i hc
    simp only [Bool.and_eq_true, beq_iff_eq] at hc
    obtain ⟨⟨hen, -⟩, hcmd⟩ := hc
    refine .inr ⟨rfl, ?_, hen⟩
    cases hs : s.top.cpu.state with
    | readWait => rfl
    | ack =>
        rw [h.strobes.ack hs hen] at hcmd
        cases hcmd
    | idle => simp [h.strobes.silent (.inl (.inl hs))] at hen
    | capture => simp [h.strobes.silent (.inl (.inr (.inl hs)))] at hen
    | readCmd => simp [h.strobes.silent (.inl (.inr (.inr hs)))] at hen
    | writeCmd => simp [h.strobes.silent (.inr hs)] at hen
  · exact .inl rfl

/-- The DMA waits for the read it has had taken, until the beat comes. -/
theorem Agreed.lcd_waits (h : Agreed s) :
    (s.next x).top.lcd.waiting =
      (if (s.answer x).rdataValid then [] else s.top.lcd.waiting) ++
        if s.top.lcdIssue (s.answer x) then [{ master := .lcd, addr := s.top.lcd.appAddr }]
        else [] := by
  cases hr : s.top.lcdRstN with
  | false =>
      obtain ⟨hg, -, hd⟩ := h.held hr
      simp [Port.next, Top.next, hr, LcdDma.waiting, LcdDma.reset, hd, Top.lcdIssue, hg]
  | true =>
      have hnext : (s.next x).top.lcd =
          s.top.lcd.next (s.top.lcdApp (s.answer x)) x.lineReqToggle := by
        simp [Port.next, Top.next, hr]
      rw [hnext]
      cases hi : s.top.lcdIssue (s.answer x) with
      | true =>
          obtain ⟨hg, hen, hd, hrdy⟩ := h.lcdIssue_req hi
          have hw : (s.top.lcd.next (s.top.lcdApp (s.answer x)) x.lineReqToggle).dSt = .wait :=
            LcdDma.next_wait.mpr (.inl ⟨hd, hen, by simp [Top.lcdApp, hg, hrdy]⟩)
          have ha := LcdDma.next_appAddr (i := s.top.lcdApp (s.answer x)) (t := x.lineReqToggle)
            (s := s.top.lcd) (by rw [hd]; decide)
          simp [LcdDma.waiting, hw, hd, ha]
      | false =>
          have hno : ¬ (s.top.lcd.dSt = .req ∧ s.top.lcd.cmdEn = true ∧
              (s.top.lcdApp (s.answer x)).cmdRdy = true) := by
            rintro ⟨-, hen, hrdy⟩
            simp only [Top.lcdIssue, hen, hrdy, Bool.and_true] at hi
            simp [Top.lcdApp, hi] at hrdy
          by_cases hd : s.top.lcd.dSt = .wait
          · have ha := LcdDma.next_appAddr (i := s.top.lcdApp (s.answer x))
              (t := x.lineReqToggle) (s := s.top.lcd) (by rw [hd]; decide)
            have hv : (s.top.lcdApp (s.answer x)).rdataValid = (s.answer x).rdataValid := by
              simp [Top.lcdApp, h.beatIsLcd, hd]
            cases hval : (s.answer x).rdataValid <;>
              simp [LcdDma.waiting, LcdDma.next_wait, hd, hv, hval, ha]
          · simp [LcdDma.waiting, LcdDma.next_wait, hd, hno]

/-- The bridge goes on waiting for what it has had taken. -/
theorem Agreed.cpu_waits (h : Agreed s) {c : List PortRead} (hc : s.top.cpu.Waiting c)
    (hg : s.top.lcdGrant = false) (hv : (s.top.cpuApp (s.answer x)).rdataValid = false) :
    (s.next x).top.cpu.Waiting (c ++ s.accepted x) := by
  have hcpu : (s.next x).top.cpu = s.top.cpu.next (s.top.cpuApp (s.answer x)) x.bus := by
    simp only [Port.next, Top.next]
    split <;> rfl
  rw [hcpu]
  rcases hc with rfl | ⟨rfl, hs, hen⟩
  · rcases h.accepted_cpu (x := x) hg with ha | ⟨ha, hs, hen⟩
    · rw [ha]
      exact .inl rfl
    · obtain ⟨h1, h2, h3⟩ := BridgeApp.next_readWait (b := x.bus) hs hv
      rw [ha]
      exact .inr ⟨by rw [h3]; rfl, h1, h2⟩
  · rcases h.accepted_cpu (x := x) hg with ha | ⟨ha, -, hen'⟩
    · obtain ⟨h1, h2, h3⟩ := BridgeApp.next_readWait (b := x.bus) hs hv
      rw [ha]
      exact .inr ⟨by rw [h3]; rfl, h1, h2⟩
    · rw [hen] at hen'
      cases hen'

theorem Waiting.of_granted {a : BridgeApp} {c : List PortRead} (hc : a.Waiting c)
    (hb : a.beforeRead) : c = [] := by
  rcases hc with rfl | ⟨-, hs, -⟩
  · rfl
  · rcases hb with hb | hb | hb <;> · rw [hs] at hb; cases hb

theorem Agreed.pending_next (h : Agreed s) :
    ∃ c, (s.next x).pending = (s.next x).top.lcd.waiting ++ c ∧ (s.next x).top.cpu.Waiting c := by
  obtain ⟨c, hp, hc⟩ := h.pending
  have hq : (s.next x).pending =
      (if (s.answer x).rdataValid then s.pending.tail else s.pending) ++ s.accepted x := rfl
  rw [h.lcd_waits, hq, hp]
  cases hg : s.top.lcdGrant with
  | true =>
      -- the bridge is in front of its read: whatever is on its way belongs to the DMA
      obtain rfl := Waiting.of_granted hc (h.granted hg)
      refine ⟨[], ?_, .inl rfl⟩
      rw [accepted_granted hg]
      cases (s.answer x).rdataValid <;> simp [LcdDma.waiting]
      split <;> rfl
  | false =>
      have hi : s.top.lcdIssue (s.answer x) = false := by simp [Top.lcdIssue, hg]
      simp only [hi, Bool.false_eq_true, if_false, List.append_nil]
      by_cases hd : s.top.lcd.dSt = .wait
      · have hv : (s.top.cpuApp (s.answer x)).rdataValid = false := by
          simp [Top.cpuApp, h.beatIsLcd, hd]
        refine ⟨c ++ s.accepted x, ?_, h.cpu_waits hc hg hv⟩
        cases (s.answer x).rdataValid <;> simp [LcdDma.waiting, hd]
      · cases hval : (s.answer x).rdataValid with
        | false =>
            have hv : (s.top.cpuApp (s.answer x)).rdataValid = false := by
              simp [Top.cpuApp, hval]
            refine ⟨c ++ s.accepted x, ?_, h.cpu_waits hc hg hv⟩
            simp [LcdDma.waiting, hd]
        | true =>
            -- the beat answers the read of the bridge
            refine ⟨[], ?_, .inl rfl⟩
            rcases hc with rfl | ⟨rfl, -, hen⟩
            · simp [Port.answer, hp, LcdDma.waiting, hd] at hval
            · rcases h.accepted_cpu (x := x) hg with ha | ⟨-, -, hen'⟩
              · simp [LcdDma.waiting, hd, ha]
              · rw [hen] at hen'
                cases hen'

/-- The count is updated without a wrap. -/
theorem Agreed.exact (h : Agreed s) (i : AppIn) :
    (s.top.inflightLcdNext i).toNat + (s.top.lcdRetire i).toNat =
      s.top.inflightLcd.toNat + (s.top.lcdIssue i).toNat := by
  rw [Top.inflightLcdNext, h.inflight, h.lcdRetire]
  cases hi : s.top.lcdIssue i with
  | true =>
      obtain ⟨-, -, hd, -⟩ := h.lcdIssue_req hi
      simp [hd]
  | false =>
      by_cases hd : s.top.lcd.dSt = .wait <;> cases hv : i.rdataValid <;> simp [hd]

theorem waiting_length (d : LcdDma) :
    d.waiting.length = (if d.dSt = .wait then 1#2 else 0#2).toNat := by
  unfold LcdDma.waiting
  split <;> rfl

theorem Agreed.inflight_next (h : Agreed s) :
    (s.next x).top.inflightLcd = if (s.next x).top.lcd.dSt = .wait then 1#2 else 0#2 := by
  have hnew : (s.next x).top.inflightLcd = s.top.inflightLcdNext (s.answer x) := by
    cases hr : s.top.lcdRstN with
    | true => simp [Port.next, Top.next, hr]
    | false =>
        obtain ⟨hg, -, hd⟩ := h.held hr
        simp [Port.next, Top.next, hr, Top.inflightLcdNext, Top.lcdIssue, hg, h.lcdRetire, hd,
          h.inflight]
  -- both sides count the reads the DMA waits for
  have hexact := h.exact (s.answer x)
  rw [h.inflight, ← waiting_length] at hexact
  have hretire : s.top.lcd.waiting.length =
      (if (s.answer x).rdataValid then [] else s.top.lcd.waiting).length +
        (s.top.lcdRetire (s.answer x)).toNat := by
    rw [h.lcdRetire, LcdDma.waiting]
    by_cases hd : s.top.lcd.dSt = .wait <;> cases (s.answer x).rdataValid <;> simp [hd]
  have hissue : (if s.top.lcdIssue (s.answer x) then
        [{ master := .lcd, addr := s.top.lcd.appAddr : PortRead }] else []).length =
      (s.top.lcdIssue (s.answer x)).toNat := by
    cases s.top.lcdIssue (s.answer x) <;> rfl
  apply BitVec.eq_of_toNat_eq
  rw [hnew, ← waiting_length, h.lcd_waits, List.length_append, hissue]
  omega

/-- The grant is given while the bridge is idle, and kept from it until it is taken back. -/
theorem Agreed.granted_next (h : Agreed s) (hg : (s.next x).top.lcdGrant = true) :
    (s.next x).top.cpu.beforeRead := by
  have hcpu : (s.next x).top.cpu = s.top.cpu.next (s.top.cpuApp (s.answer x)) x.bus := by
    simp only [Port.next, Top.next]
    split <;> rfl
  have hnext : s.top.lcdGrantNext = true := by
    cases hr : s.top.lcdRstN <;> simp [Port.next, Top.next, hr] at hg
    exact hg
  rw [hcpu]
  cases hold : s.top.lcdGrant with
  | true => exact (h.granted hold).next (by simp [Top.cpuApp, hold])
  | false =>
      simp only [Top.lcdGrantNext, hold, Bool.not_false, if_true, Bool.and_eq_true] at hnext
      exact BridgeApp.next_of_idle hnext.1.1.2

theorem Agreed.next (h : Agreed s) : Agreed (s.next x) where
  strobes := by
    simp only [Port.next, Top.next]
    split <;> exact BridgeApp.next_strobes
  dma := by
    simp only [Port.next, Top.next]
    split
    · exact LcdDma.next_cmdEn
    · intro hen
      cases hen
  held := by
    intro hr
    cases hold : s.top.lcdRstN with
    | true => simp [Port.next, Top.next, hold] at hr
    | false => simp [Port.next, Top.next, hold, LcdDma.reset]
  granted := h.granted_next
  inflight := h.inflight_next
  pending := h.pending_next

/-! ## Beats -/

/-- A beat that comes back is the oldest read of the one master that waits first. -/
theorem Agreed.routed (h : Agreed s) {r : PortRead} (hr : s.pending.head? = some r)
    (hv : (s.answer x).rdataValid = true) :
    (r.master = .cpu → (s.top.cpuApp (s.answer x)).rdataValid = true ∧
      (s.top.lcdApp (s.answer x)).rdataValid = false ∧ s.top.cpu.state = .readWait ∧
      r.addr = s.top.cpu.addr) ∧
    (r.master = .lcd → (s.top.lcdApp (s.answer x)).rdataValid = true ∧
      (s.top.cpuApp (s.answer x)).rdataValid = false ∧ s.top.lcd.dSt = .wait ∧
      r.addr = s.top.lcd.appAddr) := by
  obtain ⟨c, hp, hc⟩ := h.pending
  simp only [Top.cpuApp, Top.lcdApp, h.beatIsLcd, hv]
  rw [hp] at hr
  by_cases hd : s.top.lcd.dSt = .wait
  · simp only [LcdDma.waiting, hd, if_true, List.cons_append, List.head?_cons,
      Option.some.injEq] at hr
    obtain rfl := hr
    simp [hd]
  · rcases hc with rfl | ⟨rfl, hs, -⟩
    · simp [LcdDma.waiting, hd] at hr
    · simp only [LcdDma.waiting, hd, if_false, List.nil_append, List.head?_cons,
        Option.some.injEq] at hr
      obtain rfl := hr
      simp [hd, hs]

theorem Agreed.counts (h : Agreed s) :
    s.top.inflightLcd.toNat = s.pending.countP (·.master = .lcd) := by
  obtain ⟨c, hp, hc⟩ := h.pending
  have hcpu : c.countP (·.master = .lcd) = 0 := by
    rcases hc with rfl | ⟨rfl, -, -⟩ <;> rfl
  rw [hp, List.countP_append, hcpu, h.inflight, LcdDma.waiting]
  split <;> rfl

theorem Agreed.quiet (h : Agreed s) (hg : s.top.lcdGrant = true) :
    s.top.cpu.cmdEn = false ∧ s.top.cpu.wren = false ∧ s.top.cpu.dataEnd = false := by
  have hb := h.granted hg
  have hack : s.top.cpu.state ≠ .ack := by
    rcases hb with hs | hs | hs <;> rw [hs] <;> decide
  exact ⟨h.strobes.silent (.inl hb), h.strobes.write hack⟩

/-- What the log says of the beats. -/
structure Logged (s : Port) (g : PortLog) : Prop where
  answered : g.accepted = g.returned.map Prod.fst ++ s.pending
  cpuBeats : g.cpu = (g.returned.filter (·.1.master = .cpu)).map Prod.snd
  lcdBeats : g.lcd = (g.returned.filter (·.1.master = .lcd)).map Prod.snd

variable {g : PortLog}

theorem Logged.next (l : Logged s g) (h : Agreed s) :
    Logged (s.next x) (s.logNext x g) := by
  obtain ⟨l1, l2, l3⟩ := l
  cases hv : (s.answer x).rdataValid with
  | false =>
      have hc : s.cpuTakes x = false := by simp [Port.cpuTakes, Top.cpuApp, hv]
      have hl : s.lcdTakes x = false := by simp [Port.lcdTakes, Top.lcdApp, hv]
      constructor
      · simp [Port.logNext, Port.next, hv, l1]
      · simp [Port.logNext, hv, hc, l2]
      · simp [Port.logNext, hv, hl, l3]
  | true =>
      have hne : s.pending ≠ [] := by
        intro hnil
        simp [Port.answer, hnil] at hv
      obtain ⟨r, rest, hp⟩ := List.exists_cons_of_ne_nil hne
      obtain ⟨hcpu, hlcd⟩ := h.routed (x := x) (r := r) (by rw [hp]; rfl) hv
      have hanswered : (s.logNext x g).accepted =
          (s.logNext x g).returned.map Prod.fst ++ (s.next x).pending := by
        simp [Port.logNext, Port.next, hv, l1, hp]
      cases hm : r.master with
      | cpu =>
          obtain ⟨c1, c2, c3, -⟩ := hcpu hm
          have hc : s.cpuTakes x = true := by simp [Port.cpuTakes, c1, c3]
          have hl : s.lcdTakes x = false := by simp [Port.lcdTakes, c2]
          refine ⟨hanswered, ?_, ?_⟩
          · simp [Port.logNext, hv, hp, hc, hm, l2]
          · simp [Port.logNext, hv, hp, hl, hm, l3]
      | lcd =>
          obtain ⟨c1, c2, c3, -⟩ := hlcd hm
          have hc : s.cpuTakes x = false := by simp [Port.cpuTakes, c2]
          have hl : s.lcdTakes x = true := by simp [Port.lcdTakes, c1, c3]
          refine ⟨hanswered, ?_, ?_⟩
          · simp [Port.logNext, hv, hp, hc, hm, l2]
          · simp [Port.logNext, hv, hp, hl, hm, l3]

end Step

/-! ## Runs -/

/-- The port before cycle `n` of `app_clk`. -/
def portRun (lcd : LcdDma) (inp : Nat → TopIn) (n : Nat) : Port :=
  Clocked.run Port.next inp (Port.reset lcd) n

/-- What has happened on the port before cycle `n`. -/
def portLog (lcd : LcdDma) (inp : Nat → TopIn) (n : Nat) : PortLog :=
  Clocked.history Port.next Port.logNext inp (Port.reset lcd)
    { accepted := [], returned := [], cpu := [], lcd := [] } n

theorem port_invariant (lcd : LcdDma) (inp : Nat → TopIn) (n : Nat) :
    Agreed (portRun lcd inp n) ∧ Logged (portRun lcd inp n) (portLog lcd inp n) := by
  induction n with
  | zero => exact ⟨agreed_reset lcd, ⟨rfl, rfl, rfl⟩⟩
  | succ n ih =>
      rw [portLog, Clocked.history_succ]
      exact ⟨ih.1.next, ih.2.next ih.1⟩

/-- **The DDR arbiter.** In every run every beat that comes back reaches the master whose read it
answers, none is lost or seen twice, the count of reads on their way stays at 1 and never wraps,
and the bridge presents nothing while the DMA is granted. -/
theorem port_arbitrated (lcd : LcdDma) (inp : Nat → TopIn) (n : Nat) :
    Arbitrated (inp n) (portRun lcd inp n) (portLog lcd inp n) := by
  obtain ⟨h, l⟩ := port_invariant lcd inp n
  refine
    { routed := fun r hr hv => h.routed hr hv
      silent := fun hv => ?_
      answered := l.answered
      cpuBeats := l.cpuBeats
      lcdBeats := l.lcdBeats
      inflight := ?_
      counts := h.counts
      exact := h.exact _
      quiet := h.quiet }
  · simp [Top.cpuApp, Top.lcdApp, hv]
  · rw [h.inflight]
    split <;> decide

end MelonSoc
