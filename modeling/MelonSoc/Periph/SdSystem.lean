import MelonSoc.Periph.SdBlock

set_option autoImplicit false

/-! # CPU, host and card

The CPU runs the driver, with an access in some of the cycles it is ready in; the SoC samples what
it reads one cycle later. The card counts the rising edges since the end of the command and changes
its lines at the falling ones.
-/

namespace MelonSoc

namespace SdHost

/-- The CPU between two accesses, or with a read to sample. -/
inductive Cpu (α : Type)
  | runs (p : SdCard.Driver α)
  | samples (adr : Word) (k : Word → SdCard.Driver α)

/-- No access. -/
def noReq : WbReq :=
  { adr := 0#32, datW := 0#32, sel := 0#4, we := false, cyc := false, stb := false, lock := false }

namespace Cpu

variable {α : Type}

/-- What the CPU drives on the bus. -/
def bus (ready : Bool) : Cpu α → WbReq
  | .runs (.read adr _) =>
      if ready then { noReq with adr := adr, sel := 0xF#4, cyc := true, stb := true } else noReq
  | .runs (.write adr w _) =>
      if ready then
        { noReq with adr := adr, datW := w, sel := 0xF#4, we := true, cyc := true, stb := true }
      else noReq
  | .runs (.ret _) => noReq
  | .samples adr _ => { noReq with adr := adr }

/-- The CPU after a cycle in which it sees the word `v`. -/
def next (ready : Bool) (v : Word) : Cpu α → Cpu α
  | .runs (.read adr k) => if ready then .samples adr k else .runs (.read adr k)
  | .runs (.write adr w k) => if ready then .runs k else .runs (.write adr w k)
  | .runs (.ret a) => .runs (.ret a)
  | .samples _ k => .runs (k v)

end Cpu

structure World (α : Type) where
  cpu : Cpu α
  host : SdHost
  edges : Nat
  cmdOut : Bool
  datOut : Bool

namespace World

variable {α : Type}

def input (ready : Bool) (w : World α) : In :=
  { bus := w.cpu.bus ready, cmd := w.cmdOut, dat := if w.datOut then 0xF#4 else 0xE#4 }

def next (D : Dividers) (c : Card) (ready : Bool) (w : World α) : World α :=
  let i := w.input ready
  let edges := heardNext D i w.host w.edges
  { cpu := w.cpu.next ready (w.host.datR i)
    host := w.host.next D i
    edges := edges
    cmdOut := if falls D w.host then c.cmd edges else w.cmdOut
    datOut := if falls D w.host then c.dat edges else w.datOut }

/-- A call of the driver with the lines of the card high. -/
def call (p : SdCard.Driver α) (s₀ : SdHost) : World α :=
  { cpu := .runs p, host := s₀, edges := 0, cmdOut := true, datOut := true }

end World

section System

variable {α : Type} (D : Dividers) (c : Card) (ready : Nat → Bool) (p : SdCard.Driver α)
  (s₀ : SdHost)

/-- CPU, host and card before a cycle of the call. -/
def system (n : Nat) : World α := Clocked.run (World.next D c) ready (World.call p s₀) n

/-- What the host is given in a cycle. -/
def systemIn (n : Nat) : In := (system D c ready p s₀ n).input (ready n)

end System

section Systems

variable {α : Type} {D : Dividers} {c : Card} {ready : Nat → Bool} {p : SdCard.Driver α}
  {s₀ : SdHost} {n : Nat}

/-- The host of the system is a host on its timeline. -/
theorem system_host (n : Nat) :
    (system D c ready p s₀ n).host = hostRun D (systemIn D c ready p s₀) s₀ n ∧
      (system D c ready p s₀ n).edges = heard D (systemIn D c ready p s₀) s₀ n := by
  induction n with
  | zero => exact ⟨rfl, rfl⟩
  | succ n ih =>
      constructor
      · show (system D c ready p s₀ n).host.next D (systemIn D c ready p s₀ n) =
          (hostRun D (systemIn D c ready p s₀) s₀ n).next D (systemIn D c ready p s₀ n)
        rw [ih.1]
      · show heardNext D (systemIn D c ready p s₀ n) (system D c ready p s₀ n).host
          (system D c ready p s₀ n).edges = _
        rw [heard_succ, ih.1, ih.2]

/-- Between a falling edge and the next rising one the lines show what the card has set. -/
theorem system_lines (hs : s₀.fsm.state.answering = false) (n : Nat)
    (hq : (system D c ready p s₀ n).host.fsm.sdclkQ = false)
    (hans : (system D c ready p s₀ n).host.fsm.state.answering = true) :
    (system D c ready p s₀ n).cmdOut = c.cmd (system D c ready p s₀ n).edges ∧
      (system D c ready p s₀ n).datOut = c.dat (system D c ready p s₀ n).edges := by
  induction n with
  | zero =>
      have hno : (system D c ready p s₀ 0).host.fsm.state.answering = false := hs
      rw [hno] at hans
      cases hans
  | succ n ih =>
      have hw : system D c ready p s₀ (n + 1) =
        (system D c ready p s₀ n).next D c (ready n) := rfl
      generalize system D c ready p s₀ n = w at hw ih
      rw [hw] at hq hans ⊢
      by_cases hf : falls D w.host = true
      · simp [World.next, hf]
      · -- no edge: a rising one would leave the clock high
        have ht : w.host.fsm.ticks D w.host.regs = false := by
          by_contra hc
          rw [Bool.not_eq_false] at hc
          have hlow : w.host.fsm.sdclkQ = false := by
            rw [falls, hc, Bool.true_and, Bool.not_eq_true] at hf
            exact hf
          have hrise := fsm_next_rise (i := w.input (ready n)) (s := w.host) (D := D)
            (by simp [rises, hc, hlow])
          have hhigh : (w.next D c (ready n)).host.fsm.sdclkQ = true := by
            show (w.host.next D (w.input (ready n))).fsm.sdclkQ = true
            rw [hrise]
          rw [hhigh] at hq
          cases hq
        have hwait : (w.next D c (ready n)).host.fsm =
            { w.host.fsm with sdclkDiv := (w.host.fsm.sdclkDiv + 1) % 256 } := fsm_next_wait ht
        rw [hwait] at hq hans
        obtain ⟨hcmd, hdat⟩ := ih hq hans
        have hans' : w.host.fsm.state.answering = true := hans
        have hedges : (w.next D c (ready n)).edges = w.edges := by
          show heardNext D (w.input (ready n)) w.host w.edges = w.edges
          simp [heardNext, hans', rises, ht]
        have hcmd' : (w.next D c (ready n)).cmdOut = w.cmdOut := by simp [World.next, hf]
        have hdat' : (w.next D c (ready n)).datOut = w.datOut := by simp [World.next, hf]
        rw [hedges, hcmd', hdat']
        exact ⟨hcmd, hdat⟩

/-- The card drives its levels. -/
theorem system_levels (hs : s₀.fsm.state.answering = false) (n : Nat) :
    Levels D c (systemIn D c ready p s₀ n) (hostRun D (systemIn D c ready p s₀) s₀ n)
      (heard D (systemIn D c ready p s₀) s₀ n) := by
  have hhost : (system D c ready p s₀ n).host = _ := (system_host n).1
  have hedges : (system D c ready p s₀ n).edges = _ := (system_host n).2
  rw [← hhost, ← hedges]
  intro hr hans
  simp only [rises, Bool.and_eq_true, Bool.not_eq_true'] at hr
  obtain ⟨hcmd, hdat⟩ := system_lines hs n hr.2 hans
  refine ⟨hcmd, ?_⟩
  rw [← hdat]
  show (if (system D c ready p s₀ n).datOut then 0xF#4 else 0xE#4).getLsbD 0 = _
  cases (system D c ready p s₀ n).datOut <;> rfl

end Systems

/-! ## The call goes on -/

namespace Cpu

variable {α : Type}

theorem issued_wait (x : SdCard.Driver α) : issued (bus false (.runs x)) = none := by
  cases x <;> rfl

theorem next_wait (v : Word) (x : SdCard.Driver α) : next false v (.runs x) = .runs x := by
  cases x <;> rfl

end Cpu

section Progress

variable {α : Type} {D : Dividers} {c : Card} {ready : Nat → Bool} {p : SdCard.Driver α}
  {s₀ : SdHost} {n m : Nat}

theorem system_cpu (n : Nat) : (system D c ready p s₀ (n + 1)).cpu =
    (system D c ready p s₀ n).cpu.next (ready n)
      ((system D c ready p s₀ n).host.datR (systemIn D c ready p s₀ n)) := rfl

/-- In cycles in which it is not ready the CPU makes no access. -/
theorem system_waits {x : SdCard.Driver α} (hx : (system D c ready p s₀ n).cpu = .runs x)
    (hnm : n ≤ m) (hr : ∀ j, n ≤ j → j < m → ready j = false) :
    (system D c ready p s₀ m).cpu = .runs x ∧
      ∀ j, n ≤ j → j < m → issued (systemIn D c ready p s₀ j).bus = none := by
  induction m, hnm using Nat.le_induction with
  | base => exact ⟨hx, fun j h1 h2 => absurd h1 (Nat.not_le_of_lt h2)⟩
  | succ m hm ih =>
      obtain ⟨hcpu, hquiet⟩ := ih fun j h1 h2 => hr j h1 (by omega)
      have hno : ready m = false := hr m hm (Nat.lt_succ_self m)
      refine ⟨?_, fun j h1 h2 => ?_⟩
      · rw [system_cpu, hcpu, hno]
        exact Cpu.next_wait _ x
      · rcases Nat.lt_succ_iff_lt_or_eq.mp h2 with hlt | rfl
        · exact hquiet j h1 hlt
        · show issued ((system D c ready p s₀ j).cpu.bus (ready j)) = none
          rw [hcpu, hno]
          exact Cpu.issued_wait x

/-- The first cycle from `n` on in which the CPU is ready. -/
theorem first_ready (hfair : ∃ k, n ≤ k ∧ ready k = true) :
    ∃ t, n ≤ t ∧ ready t = true ∧ ∀ j, n ≤ j → j < t → ready j = false := by
  refine ⟨Nat.find hfair, (Nat.find_spec hfair).1, (Nat.find_spec hfair).2, fun j h1 h2 => ?_⟩
  have hmin := Nat.find_min hfair h2
  rw [Bool.eq_false_iff]
  exact fun hj => hmin ⟨h1, hj⟩

/-- A CPU that is ready again and again runs every program to its end; the accesses on the bus are
those of the program. -/
theorem system_makes (hfair : ∀ n, ∃ k, n ≤ k ∧ ready k = true) (x : SdCard.Driver α) (n : Nat)
    (hx : (system D c ready p s₀ n).cpu = .runs x) :
    ∃ a q m, Makes D (systemIn D c ready p s₀) s₀ n x a q ∧ q ≤ m ∧
      (system D c ready p s₀ m).cpu = .runs (.ret a) := by
  induction x generalizing n with
  | ret a => exact ⟨a, n, n, .ret n a, Nat.le_refl n, hx⟩
  | read adr k ih =>
      obtain ⟨t, hnt, hready, hbefore⟩ := first_ready (hfair n)
      obtain ⟨hcpu, hquiet⟩ := system_waits hx hnt hbefore
      have hnow : issued (systemIn D c ready p s₀ t).bus = some (.read adr) := by
        show issued ((system D c ready p s₀ t).cpu.bus (ready t)) = _
        rw [hcpu, hready]
        rfl
      have hmid : (system D c ready p s₀ (t + 1)).cpu = .samples adr k := by
        rw [system_cpu, hcpu, hready]
        rfl
      -- the word comes in the cycle after the access
      have hbus : (systemIn D c ready p s₀ (t + 1)).bus = { noReq with adr := adr } := by
        show (system D c ready p s₀ (t + 1)).cpu.bus (ready (t + 1)) = _
        rw [hmid]
        rfl
      have hword : (system D c ready p s₀ (t + 1)).host.datR (systemIn D c ready p s₀ (t + 1)) =
          sampled D (systemIn D c ready p s₀) s₀ t adr := by
        rw [sampled, (system_host (t + 1)).1, hbus]
        congr 1
        rw [← hbus]
      have hthen : (system D c ready p s₀ (t + 2)).cpu =
          .runs (k (sampled D (systemIn D c ready p s₀) s₀ t adr)) := by
        rw [system_cpu, hmid, hword]
        rfl
      obtain ⟨a, q, m, hrun, hqm, hend⟩ := ih _ (t + 2) hthen
      obtain ⟨q', hq', hrun'⟩ := hrun.earlier (by rw [hbus]; rfl)
      exact ⟨a, q', m, .read hnt hquiet hnow hrun', Nat.le_trans hq' hqm, hend⟩
  | write adr w k ih =>
      obtain ⟨t, hnt, hready, hbefore⟩ := first_ready (hfair n)
      obtain ⟨hcpu, hquiet⟩ := system_waits hx hnt hbefore
      have hnow : issued (systemIn D c ready p s₀ t).bus = some (.write adr w) := by
        show issued ((system D c ready p s₀ t).cpu.bus (ready t)) = _
        rw [hcpu, hready]
        rfl
      have hthen : (system D c ready p s₀ (t + 1)).cpu = .runs k := by
        rw [system_cpu, hcpu, hready]
        rfl
      obtain ⟨a, q, m, hrun, hqm, hend⟩ := ih (t + 1) hthen
      exact ⟨a, q, m, .write hnt hquiet hnow hrun, hqm, hend⟩

end Progress

/-! ## The whole read -/

/-- No operation goes on, and none is asked for. -/
structure Quiescent (s : SdHost) : Prop where
  idle : s.fsm.state = .idle
  free : s.regs.status.busy = false
  start : s.regs.startRead = false

/-- `sdcard_read_block` has an argument of CMD17 for the block. -/
def Addressable (g : SdCard.Globals) (lba : Word) : Prop :=
  g.highCapacity = true ∨ lba ≤ 0xFFFFFFFF#32 >>> 9

/-- The operation started in the cycle `t` is over in some cycle within `readCycles`, with `ERR` as
the card's bits are, and the block in the buffer. -/
def Over (D : Dividers) (inp : Nat → In) (s₀ : SdHost) (c : Card) (d e : Nat)
    (block : List (BitVec 8)) (t : Nat) : Prop :=
  ∃ k, t < k ∧ k ≤ t + readCycles D + 2 ∧
    (∀ j, t < j → j < k → (hostRun D inp s₀ j).regs.status.busy = true ∧
      (hostRun D inp s₀ j).regs.status.done = false) ∧
    (hostRun D inp s₀ k).regs.status.busy = false ∧
    (hostRun D inp s₀ k).regs.status.done = true ∧
    (c.Sends d e block → (hostRun D inp s₀ k).regs.status.err = false ∧
      ∀ w, w < 128 → SdCard.wordBytes ((hostRun D inp s₀ k).fsm.dataBuf (BitVec.ofNat 7 w)) =
        (block.drop (4 * w)).take 4) ∧
    (c.Garbles d e block → (hostRun D inp s₀ k).regs.status.err = true)

section Whole

variable {α : Type} {D : Dividers} {c : Card} {d e t n : Nat} {block : List (BitVec 8)}
  {inp : Nat → In} {s s₀ : SdHost} {i : In} {ready : Nat → Bool}

theorem Quiescent.next (h : Quiescent s) (ha : asks i.bus s.regs = false) :
    Quiescent (s.next D i) := by
  have hne : s.fsm.state ≠ .done := by simp [h.idle]
  have hn : Fsm.starts s.regs = false := by simp [Fsm.starts, h.start, h.free]
  have hregs : (s.next D i).regs = s.regs.mmioWrite i.bus := next_of_ne hne
  obtain ⟨hstart, hstatus⟩ := mmioWrite_status ha
  refine ⟨?_, ?_, ?_⟩
  · by_cases hf : falls D s = true
    · rw [fsm_next_fall hf, fall_idle h.idle hn]
      exact h.idle
    · obtain ⟨a, b, hq⟩ := fsm_next_quiet (i := i) (by simpa using hf)
        (by simp [h.idle, State.answering])
      rw [hq]
      exact h.idle
  · rw [hregs, hstatus]
    split_ifs <;> exact h.free
  · rw [hregs]
    exact hstart

theorem Quiescent.later (h : Quiescent s₀) (hu : Unstarted inp 0 t) :
    Quiescent (hostRun D inp s₀ t) := by
  induction t with
  | zero => exact h
  | succ t ih =>
      exact (ih fun j h1 h2 => hu j h1 (by omega)).next (hu t (Nat.zero_le t) (Nat.lt_succ_self t) _)

/-- In the system the first START is served. -/
theorem Quiescent.served {p : SdCard.Driver α} (h : Quiescent s₀) (M : Nat)
    (hu : Unstarted (systemIn D c ready p s₀) 0 t) :
    Served D (systemIn D c ready p s₀) s₀ c t M := by
  have hq := h.later (D := D) hu
  exact ⟨hq.idle, hq.free, fun j _ _ => system_levels (by simp [h.idle, State.answering]) j⟩

/-- The operation on any timeline on which nothing is written meanwhile. -/
theorem StartsRead.isOver (h : StartsRead D inp s₀ t) (ha : c.Answers d e)
    (hlen : block.length = 512)
    (hl : ∀ j, t < j → j ≤ t + readCycles D + 1 →
      Levels D c (inp j) (hostRun D inp s₀ j) (heard D inp s₀ j))
    (hw : ∀ j, t < j → j ≤ t + readCycles D + 1 → noWrite (inp j).bus) :
    Over D inp s₀ c d e block t := by
  obtain ⟨hlast, hall⟩ := h.ends ha hl hw
  have hex : ∃ k, t < k ∧ Finished c d e (hostRun D inp s₀ k) :=
    ⟨t + readCycles D + 2, by omega, hlast⟩
  classical
  have hle : Nat.find hex ≤ t + readCycles D + 2 := Nat.find_min' hex ⟨by omega, hlast⟩
  obtain ⟨hgt, hf⟩ := Nat.find_spec hex
  refine ⟨Nat.find hex, hgt, hle, fun j h1 h2 => ?_, hf.busy, hf.done, fun hs => ⟨?_, ?_⟩,
    fun hg => ?_⟩
  · rcases hall j h1 (by omega) with hb | hf'
    · exact hb
    · exact absurd ⟨h1, hf'⟩ (Nat.find_min hex h2)
  · rw [hf.err]
    exact hs.not_broken
  · exact fun w hw' => hf.buf.bytes hs hlen hw'
  · rw [hf.err]
    exact hg.broken hlen

/-- `sd_cmd` in the system. -/
theorem system_cmd {g : SdCard.Globals} {arg : Word} (hD : readCycles D < SdCard.pollLimit)
    (ha : c.Answers d e) (hfair : ∀ n, ∃ k, n ≤ k ∧ ready k = true) (hs : Quiescent s₀) :
    ∃ m g', (system D c ready (SdCard.sdCmd g 17#32 arg true) s₀ m).cpu =
      .runs (.ret (!c.broken d e, g')) := by
  obtain ⟨a, q, m, hrun, hqm, hend⟩ := system_makes hfair _ 0 rfl
  obtain ⟨hok, -⟩ := sdCmd_ends ha hD hrun (Nat.le_refl q) fun t _ _ hu _ => hs.served q hu
  exact ⟨m, a.2, by rw [hend, ← hok]⟩

/-- `sdcard_read_block` in the system. -/
theorem system_block {g : SdCard.Globals} {lba : Word} (hD : readCycles D < SdCard.pollLimit)
    (ha : c.Answers d e) (hsend : c.Sends d e block) (hlen : block.length = 512)
    (hfair : ∀ n, ∃ k, n ≤ k ∧ ready k = true) (hs : Quiescent s₀) (hg : Addressable g lba) :
    ∃ m g', (system D c ready (SdCard.sdcardReadBlock g lba) s₀ m).cpu =
      .runs (.ret (some block, g')) ∧ g'.sdErr = 0#8 := by
  have hprog : ∃ arg, SdCard.sdcardReadBlock g lba = SdCard.attempts g arg 3 := by
    cases hc : g.highCapacity with
    | true => exact ⟨lba, by rw [SdCard.sdcardReadBlock, if_pos hc]⟩
    | false =>
        have hle : lba ≤ 0xFFFFFFFF#32 >>> 9 := hg.resolve_left (by simp [hc])
        refine ⟨lba <<< 9, ?_⟩
        rw [SdCard.sdcardReadBlock, if_neg (by simp [hc]), if_neg (BitVec.not_lt.mpr hle)]
  obtain ⟨arg, hprog⟩ := hprog
  have hstart : (system D c ready (SdCard.sdcardReadBlock g lba) s₀ 0).cpu =
    .runs (SdCard.sdcardReadBlock g lba) := rfl
  obtain ⟨a, q, m, hrun, hqm, hend⟩ := system_makes hfair _ 0 hstart
  have hserve : ∀ t, 0 ≤ t → t < q →
      Unstarted (systemIn D c ready (SdCard.sdcardReadBlock g lba) s₀) 0 t →
      issued (systemIn D c ready (SdCard.sdcardReadBlock g lba) s₀ t).bus =
        some (.write ioSdCtrlAddr startRead) →
      Served D (systemIn D c ready (SdCard.sdcardReadBlock g lba) s₀) s₀ c t q :=
    fun t _ _ hu _ => hs.served q hu
  have hrun' : Makes D (systemIn D c ready (SdCard.sdcardReadBlock g lba) s₀) s₀ 0
      (SdCard.attempts g arg (2 + 1)) a q := by
    rw [← hprog]
    exact hrun
  obtain ⟨hout, herr⟩ := attempts_ends ha hD hsend hlen hrun' hserve
  exact ⟨m, a.2, by rw [hend, ← hout], herr⟩

theorem readCycles_lt (hD : D = .board ∨ D = .bench) : readCycles D < SdCard.pollLimit := by
  rcases hD with rfl | rfl <;> decide

/-- The read of a block end to end. The card answers after `d` edges and sends its data after `e`
more. The operation is over in time; if the card has sent the block, its checksum and the stop bit,
`ERR` is 0 and `sdcard_read_block` returns the block; if the bits differ by a burst or the stop bit
is 0, `ERR` is 1 and `sd_cmd` fails. -/
theorem block_read_end_to_end (hD : D = .board ∨ D = .bench) (ha : c.Answers d e)
    (hlen : block.length = 512) :
    (∀ inp s₀ t, StartsRead D inp s₀ t →
      (∀ j, t < j → j ≤ t + readCycles D + 1 →
        Levels D c (inp j) (hostRun D inp s₀ j) (heard D inp s₀ j)) →
      (∀ j, t < j → j ≤ t + readCycles D + 1 → noWrite (inp j).bus) →
      Over D inp s₀ c d e block t) ∧
    (∀ ready s₀ g, (∀ n, ∃ k, n ≤ k ∧ ready k = true) → Quiescent s₀ →
      (c.Sends d e block → ∀ lba, Addressable g lba →
        ∃ m g', (system D c ready (SdCard.sdcardReadBlock g lba) s₀ m).cpu =
          .runs (.ret (some block, g')) ∧ g'.sdErr = 0#8) ∧
      (c.Garbles d e block → ∀ arg,
        ∃ m g', (system D c ready (SdCard.sdCmd g 17#32 arg true) s₀ m).cpu =
          .runs (.ret (false, g')))) := by
  refine ⟨fun inp s₀ t hstart hl hw => hstart.isOver ha hlen hl hw, fun ready s₀ g hfair hs => ?_⟩
  constructor
  · intro hsend lba hg
    exact system_block (readCycles_lt hD) ha hsend hlen hfair hs hg
  · intro hgarb arg
    have hbad : (!c.broken d e) = false := by rw [hgarb.broken hlen, Bool.not_true]
    rw [← hbad]
    exact system_cmd (readCycles_lt hD) ha hfair hs

end Whole

/-! ## A card for every block -/

/-- A card that answers and sends its block at once. -/
def Card.sending (block : List (BitVec 8)) : Card where
  cmd := fun _ => false
  dat := fun h => if h < 48 then true else if h = 48 then false else
    (codeword block)[h - 49]?.getD true

theorem Card.sending_answers (block : List (BitVec 8)) : (Card.sending block).Answers 0 0 where
  respIdle := fun h hh => absurd hh (Nat.not_lt_zero h)
  respStart := rfl
  respTime := Nat.zero_le _
  datIdle := fun _ h1 h2 => absurd h1 (Nat.not_le_of_lt h2)
  datStart := rfl
  datTime := Nat.zero_le _

theorem Card.sending_sends {block : List (BitVec 8)} (hlen : block.length = 512) :
    (Card.sending block).Sends 0 0 block := by
  have hcode : (codeword block).length = 4112 := by
    rw [codeword, List.length_append, blockBits_length, msbFirst_length, hlen]
  have hdat : ∀ k, (Card.sending block).dat (first 0 0 + k) = (codeword block)[k]?.getD true := by
    intro k
    have hlt : ¬first 0 0 + k < 48 := by simp [first]; omega
    have hne : first 0 0 + k ≠ 48 := by simp [first]; omega
    have hpos : first 0 0 + k - 49 = k := by simp [first]
    simp only [Card.sending, if_neg hlt, if_neg hne, hpos]
  constructor
  · apply List.ext_getElem
    · simp [Card.bits, hcode]
    · intro k h1 h2
      simp [Card.bits, hdat, h2]
  · rw [Card.stop, hdat, List.getElem?_eq_none (by omega)]
    rfl

/-- The bytes 0 to 255, twice. -/
def counting : List (BitVec 8) := (List.range 512).map (BitVec.ofNat 8)

/-- The globals after a reset. -/
def globals₀ : SdCard.Globals :=
  { sdErr := 0#8, lastStatus := 0#32, lastDebug := 0#32, lastCrc := 0#32, lastResp := 0#32
    highCapacity := false }

theorem block_read_counting :
    ∃ m g', (system .board (Card.sending counting) (fun _ => true)
      (SdCard.sdcardReadBlock globals₀ 7#32) SdHost.reset m).cpu =
        .runs (.ret (some counting, g')) ∧ g'.sdErr = 0#8 := by
  have hlen : counting.length = 512 := by simp [counting]
  have hend := (block_read_end_to_end (.inl rfl) (Card.sending_answers counting) hlen).2
    (fun _ => true) SdHost.reset globals₀ (fun n => ⟨n, Nat.le_refl n, rfl⟩) ⟨rfl, rfl, rfl⟩
  exact hend.1 (Card.sending_sends hlen) 7#32 (.inr (by decide))

end SdHost

end MelonSoc
