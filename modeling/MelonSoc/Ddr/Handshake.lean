import MelonSoc.Rtl.DdrBridge
import MelonSoc.Lib.Clocked

set_option autoImplicit false

/-! # The command handshake of the DDR bridge

The controller takes a command in a cycle in which `cmd_en` and `cmd_rdy` are both high, a write
also needs `data_rdy`. The bridge samples the ready signals first and presents its command in the
cycle after, whatever the signals are by then. A count of the commands that were taken, kept
beside the run, tells when that goes well.
-/

namespace MelonSoc

/-- The commands of the current request that the controller has taken. -/
structure Taken where
  reads : Nat
  writes : Nat

namespace BridgeApp

/-! ## What the controller takes -/

/-- The read of the request is taken in this cycle. -/
def readTaken (i : AppIn) (a : BridgeApp) : Bool :=
  a.cmdEn && i.cmdRdy && a.cmd == 1#3 && a.addr == appLineAddr a.appReq.addr

/-- The write of the request is taken in this cycle. -/
def writeTaken (i : AppIn) (a : BridgeApp) : Bool :=
  a.cmdEn && i.cmdRdy && a.wren && i.dataRdy && a.cmd == 0#3 &&
    a.addr == appLineAddr a.appReq.addr &&
    a.data == mergeWord a.line (wordSel a.appReq.addr) a.appReq.datW a.appReq.sel

/-- The count after the cycle; it starts anew with a request. -/
def takenNext (i : AppIn) (a : BridgeApp) (t : Taken) : Taken :=
  if a.state == .capture then { reads := 0, writes := 0 }
  else
    { reads := t.reads + (a.readTaken i).toNat
      writes := t.writes + (a.writeTaken i).toNat }

/-! ## The property -/

/-- The command in this cycle is a read. -/
def presentsRead (a : BridgeApp) : Bool := a.cmdEn && a.cmd == 1#3

/-- The bridge goes on after a command only if the command was taken, and once. -/
structure Handshaken (i : AppIn) (a : BridgeApp) (t : Taken) : Prop where
  /-- Behind `S_READ_CMD` the read has been taken, unless it is presented in this very cycle. -/
  read : a.state = .readWait ∨ a.state = .writeCmd ∨ a.state = .ack → a.presentsRead = false →
    t.reads = 1
  /-- What is acknowledged was taken. -/
  ack : a.state = .ack → (a.takenNext i t).reads = 1 ∧
    (a.takenNext i t).writes = if a.appReq.we then 1 else 0

/-- The ready signals that the bridge has sampled for its command in the cycle of `i` are down in
the cycle of `i'`, in which it presents the command. -/
def readyDrops (i i' : AppIn) (a : BridgeApp) : Bool :=
  (a.state == .readCmd && i.cmdRdy && !i'.cmdRdy) ||
  (a.state == .writeCmd && i.cmdRdy && i.dataRdy && !(i'.cmdRdy && i'.dataRdy))

/-! ## Commands and states -/

/-- What the app side presents in which state, and what can have been taken by then. -/
structure Presents (a : BridgeApp) (t : Taken) : Prop where
  quiet : a.state = .idle ∨ a.state = .capture ∨ a.state = .readCmd → a.cmdEn = false
  start : a.state = .readCmd → t = { reads := 0, writes := 0 }
  noWrite : a.state = .readWait ∨ a.state = .writeCmd → a.wren = false ∧ t.writes = 0
  writes : a.state = .writeCmd → a.appReq.we = true
  /-- A read is presented once, right behind `S_READ_CMD`. -/
  read : a.state = .readWait ∨ a.state = .writeCmd ∨ (a.state = .ack ∧ a.appReq.we = false) →
    a.cmdEn = true → a.cmd = 1#3 ∧ a.addr = appLineAddr a.appReq.addr ∧ t.reads = 0
  /-- A read request is acknowledged without a write. -/
  readOnly : a.state = .ack → a.appReq.we = false → a.wren = false ∧ t.writes = 0
  /-- A write is presented in `S_ACK`. -/
  write : a.state = .ack → a.appReq.we = true →
    a.cmdEn = true ∧ a.wren = true ∧ a.cmd = 0#3 ∧ a.addr = appLineAddr a.appReq.addr ∧
      a.data = mergeWord a.line (wordSel a.appReq.addr) a.appReq.datW a.appReq.sel ∧
      t.writes = 0

theorem presents_reset : BridgeApp.reset.Presents { reads := 0, writes := 0 } where
  quiet := fun _ => rfl
  start := fun _ => rfl
  noWrite := by rintro (h | h) <;> cases h
  writes := by intro h; cases h
  read := by rintro (h | h | ⟨h, -⟩) <;> cases h
  readOnly := by intro h; cases h
  write := by intro h; cases h

variable {i i' : AppIn} {b : BridgeBus} {a : BridgeApp} {t : Taken}

theorem Presents.next (p : a.Presents t) : (a.next i b).Presents (a.takenNext i t) := by
  obtain ⟨h1, h2, h3, h4, h5, h6, h7⟩ := p
  cases hs : a.state with
  | idle =>
      simp only [BridgeApp.next, hs, takenNext]
      constructor <;> (split <;> simp_all)
  | capture =>
      simp only [BridgeApp.next, hs, takenNext]
      constructor <;> simp_all
  | readCmd =>
      simp only [BridgeApp.next, hs, takenNext]
      constructor <;> (split <;> simp_all [readTaken, writeTaken])
  | readWait =>
      simp only [BridgeApp.next, hs, takenNext]
      constructor <;> (repeat' split) <;> simp_all [readTaken, writeTaken]
  | writeCmd =>
      simp only [BridgeApp.next, hs, takenNext]
      constructor <;> (split <;> simp_all [readTaken, writeTaken])
  | ack =>
      simp only [BridgeApp.next, hs, takenNext]
      constructor <;> simp_all

/-! ## Runs in which ready stays up -/

/-- A command that is presented meets its ready signals. -/
structure Met (i : AppIn) (a : BridgeApp) (t : Taken) : Prop where
  presented : a.state = .readWait ∨ a.state = .writeCmd ∨ a.state = .ack →
    a.presentsRead = true → i.cmdRdy = true
  taken : a.state = .readWait ∨ a.state = .writeCmd ∨ a.state = .ack →
    a.presentsRead = false → t.reads = 1
  write : a.state = .ack → a.appReq.we = true → i.cmdRdy = true ∧ i.dataRdy = true

theorem Met.next (m : a.Met i t) (p : a.Presents t) (h : a.readyDrops i i' = false) :
    (a.next i b).Met i' (a.takenNext i t) := by
  obtain ⟨h1, h2, h3, h4, h5, h6, h7⟩ := p
  obtain ⟨m1, m2, m3⟩ := m
  cases hs : a.state with
  | idle =>
      simp only [BridgeApp.next, hs, takenNext]
      constructor <;> (split <;> simp_all)
  | capture =>
      simp only [BridgeApp.next, hs, takenNext]
      constructor <;> simp_all
  | readCmd =>
      simp only [readyDrops, hs] at h
      simp only [BridgeApp.next, hs, takenNext]
      constructor <;> (split <;> simp_all [presentsRead])
  | readWait =>
      -- a read that was presented has been taken after this cycle
      have hread : (a.takenNext i t).reads = 1 := by
        cases hp : a.presentsRead <;>
          simp_all [takenNext, readTaken, presentsRead]
      simp only [takenNext, hs] at hread
      simp only [BridgeApp.next, hs, takenNext]
      constructor <;> (repeat' split) <;> simp_all [presentsRead]
  | writeCmd =>
      have hread : (a.takenNext i t).reads = 1 := by
        cases hp : a.presentsRead <;>
          simp_all [takenNext, readTaken, presentsRead]
      simp only [takenNext, hs] at hread
      simp only [readyDrops, hs] at h
      simp only [BridgeApp.next, hs, takenNext]
      constructor <;> (split <;> simp_all [presentsRead])
  | ack =>
      simp only [BridgeApp.next, hs, takenNext]
      constructor <;> simp_all

theorem Met.handshaken (m : a.Met i t) (p : a.Presents t) : a.Handshaken i t := by
  refine ⟨m.taken, fun hs => ?_⟩
  cases hwe : a.appReq.we with
  | false =>
      obtain ⟨hwren, hwrites⟩ := p.readOnly hs hwe
      cases hp : a.presentsRead with
      | false =>
          have hr := m.taken (.inr (.inr hs)) hp
          simp only [presentsRead] at hp
          simp [takenNext, hs, readTaken, writeTaken, hr, hwren, hwrites]
          grind
      | true =>
          have hrdy := m.presented (.inr (.inr hs)) hp
          simp only [presentsRead, Bool.and_eq_true, beq_iff_eq] at hp
          obtain ⟨hcmd, hadr, hr⟩ := p.read (.inr (.inr ⟨hs, hwe⟩)) hp.1
          simp [takenNext, hs, readTaken, writeTaken, hp, hrdy, hadr, hr, hwren, hwrites]
  | true =>
      obtain ⟨hen, hwren, hcmd, hadr, hdata, hwrites⟩ := p.write hs hwe
      obtain ⟨hrdy, hdrdy⟩ := m.write hs hwe
      have hr := m.taken (.inr (.inr hs)) (by simp [presentsRead, hcmd])
      simp [takenNext, hs, readTaken, writeTaken, hen, hwren, hcmd, hadr, hdata, hwrites, hrdy,
        hdrdy, hr]

/-! ## A dropped ready is a lost command -/

theorem next_readCmd (h : a.state = .readCmd) (hrdy : i.cmdRdy = true) :
    (a.next i b).state = .readWait ∧ (a.next i b).cmdEn = true := by
  simp [BridgeApp.next, h, hrdy]

theorem next_writeCmd (h : a.state = .writeCmd) (hrdy : i.cmdRdy = true)
    (hdata : i.dataRdy = true) (hwe : a.appReq.we = true) :
    (a.next i b).state = .ack ∧ (a.next i b).appReq.we = true := by
  simp [BridgeApp.next, h, hrdy, hdata, hwe]

/-- A read that is presented without ready is missing behind it. -/
theorem Presents.lost_read (p : a.Presents t) (h : a.state = .readWait) (hen : a.cmdEn = true)
    (hrdy : i.cmdRdy = false) : ¬ (a.next i b).Handshaken i' (a.takenNext i t) := by
  intro hh
  obtain ⟨-, -, hr⟩ := p.read (.inl h) hen
  have hcount : (a.takenNext i t).reads = 0 := by simp [takenNext, h, readTaken, hrdy, hr]
  have hbehind : (a.next i b).state = .readWait ∨ (a.next i b).state = .writeCmd ∨
      (a.next i b).state = .ack := by
    simp only [BridgeApp.next, h]
    repeat' split
    all_goals simp
  have hquiet : (a.next i b).presentsRead = false := by
    simp only [BridgeApp.next, h, presentsRead]
    repeat' split
    all_goals rfl
  rw [hh.read hbehind hquiet] at hcount
  cases hcount

/-- A write that is presented without ready is acknowledged all the same. -/
theorem Presents.lost_write (p : a.Presents t) (h : a.state = .ack) (hwe : a.appReq.we = true)
    (hrdy : (i.cmdRdy && i.dataRdy) = false) : ¬ a.Handshaken i t := by
  intro hh
  obtain ⟨-, -, -, -, -, hw⟩ := p.write h hwe
  have hnot : a.writeTaken i = false := by
    simp only [writeTaken]
    grind
  have hcount := (hh.ack h).2
  simp [takenNext, h, hnot, hw, hwe] at hcount

end BridgeApp

/-! ## Runs -/

/-- One cycle of the app side on what the controller answers and the bus side holds. -/
def appNext (x : AppIn × BridgeBus) (a : BridgeApp) : BridgeApp := a.next x.1 x.2

/-- The app side before cycle `n`. -/
def appRun (inp : Nat → AppIn × BridgeBus) (n : Nat) : BridgeApp :=
  Clocked.run appNext inp BridgeApp.reset n

/-- The commands taken along the run. -/
def appTaken (inp : Nat → AppIn × BridgeBus) (n : Nat) : Taken :=
  Clocked.history appNext (fun x a t => a.takenNext x.1 t) inp BridgeApp.reset
    { reads := 0, writes := 0 } n

theorem appRun_presents (inp : Nat → AppIn × BridgeBus) (n : Nat) :
    (appRun inp n).Presents (appTaken inp n) :=
  Clocked.history_invariant (P := fun (a : BridgeApp) t => a.Presents t)
    (C := fun _ _ => True) BridgeApp.presents_reset (fun _ _ _ _ p => p.next) (fun _ _ => trivial)

theorem appRun_met (inp : Nat → AppIn × BridgeBus)
    (h : ∀ k, (appRun inp k).readyDrops (inp k).1 (inp (k + 1)).1 = false) (n : Nat) :
    (appRun inp n).Met (inp n).1 (appTaken inp n) := by
  induction n with
  | zero =>
      refine ⟨?_, ?_, ?_⟩
      · rintro (h | h | h) <;> cases h
      · rintro (h | h | h) <;> cases h
      · intro h
        cases h
  | succ n ih =>
      rw [appTaken, Clocked.history_succ]
      exact ih.next (appRun_presents inp n) (h n)

/-- **The command handshake.** In a run of the app side every command was taken, and once, if and
only if the ready signals that the bridge has sampled are still up a cycle later. -/
theorem handshake_iff (inp : Nat → AppIn × BridgeBus) :
    (∀ n, (appRun inp n).Handshaken (inp n).1 (appTaken inp n)) ↔
      ∀ n, (appRun inp n).readyDrops (inp n).1 (inp (n + 1)).1 = false := by
  constructor
  · intro h n
    have p := appRun_presents inp n
    have p' := appRun_presents inp (n + 1)
    by_contra hd
    simp only [Bool.not_eq_false, BridgeApp.readyDrops, Bool.or_eq_true, Bool.and_eq_true,
      beq_iff_eq, Bool.not_eq_true'] at hd
    rcases hd with ⟨⟨hs, hrdy⟩, hdrop⟩ | ⟨⟨⟨hs, hrdy⟩, hdata⟩, hdrop⟩
    · have hnext : (appRun inp (n + 1)).state = .readWait ∧ (appRun inp (n + 1)).cmdEn = true :=
        BridgeApp.next_readCmd hs hrdy
      have hlost := h (n + 2)
      rw [appTaken, Clocked.history_succ] at hlost
      exact p'.lost_read hnext.1 hnext.2 hdrop hlost
    · have hnext : (appRun inp (n + 1)).state = .ack ∧ (appRun inp (n + 1)).appReq.we = true :=
        BridgeApp.next_writeCmd hs hrdy hdata (p.writes hs)
      exact p'.lost_write hnext.1 hnext.2 (by simpa using hdrop) (h (n + 1))
  · intro h n
    exact (appRun_met inp h n).handshaken (appRun_presents inp n)

/-- A read is posted in cycle 0, and the controller is ready in cycle 4 only, in which the bridge
samples it. -/
def readyOnce (n : Nat) : AppIn × BridgeBus :=
  ({ cmdRdy := n == 4, dataRdy := true, rdataValid := false, rdata := 0#128
     initCalibComplete := true },
   { BridgeBus.reset with
     busy := true, reqToggle := true
     req := { we := false, addr := 0x80000000#32, datW := 0#32, sel := 0b1111#4 } })

/-- The bridge waits for a read that the controller did not take. -/
theorem read_not_taken :
    ¬ ∀ inp n, (appRun inp n).Handshaken (inp n).1 (appTaken inp n) := by
  intro h
  have hread := (h readyOnce 6).read (by decide) (by decide)
  revert hread
  decide

end MelonSoc
