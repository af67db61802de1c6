import MelonSoc.Periph.SdDriver
import MelonSoc.Periph.SdRead

set_option autoImplicit false

/-! # A block through host and driver

The bits of a block go from the card through the buffer of the host to the bytes of the driver.
The driver is a program whose accesses can come at any time; what it is promised is said of the
timeline of its accesses.
-/

namespace MelonSoc

namespace SdHost

/-! ## Blocks on the line -/

/-- The bits of a block on the line. -/
def blockBits (block : List (BitVec 8)) : List Bool := block.flatMap msbFirst

/-- The CRC-16 of a block: generator `x^16 + x^12 + x^5 + 1`, from zero. -/
def blockCrc (block : List (BitVec 8)) : BitVec 16 := Crc.feed 0x1021#16 0#16 (blockBits block)

/-- A block and its checksum. -/
def codeword (block : List (BitVec 8)) : List Bool := blockBits block ++ msbFirst (blockCrc block)

/-- An error of at most 16 bits from its first wrong bit to its last one. -/
def Burst (l : List Bool) : Prop :=
  ∃ k b n, b.length + 1 ≤ 16 ∧ l = List.replicate k false ++ (true :: b) ++ List.replicate n false

/-- The card sends the block as it is. -/
structure Card.Sends (c : Card) (d e : Nat) (block : List (BitVec 8)) : Prop where
  bits : c.bits d e 4112 = codeword block
  stop : c.stop d e = true

/-- What arrives is wrong: a burst on block and checksum, or the stop bit. -/
def Card.Garbles (c : Card) (d e : Nat) (block : List (BitVec 8)) : Prop :=
  c.stop d e = false ∨
    ∃ l, Burst l ∧ l.length = 4112 ∧ c.bits d e 4112 = List.zipWith xor (codeword block) l

section Blocks

variable {c : Card} {d e : Nat} {block : List (BitVec 8)}

theorem blockBits_length (block : List (BitVec 8)) :
    (blockBits block).length = 8 * block.length := by
  induction block with
  | nil => rfl
  | cons b t ih =>
      rw [blockBits, List.flatMap_cons, List.length_append, msbFirst_length, List.length_cons]
      rw [blockBits] at ih
      omega

/-- The checksum is the remainder of the bits of the block modulo `x^16 + x^12 + x^5 + 1`. -/
theorem blockCrc_mod (block : List (BitVec 8)) :
    (Crc.message (blockBits block) * Polynomial.X ^ 16) %ₘ Crc.generator 0x1021#16 =
      Crc.poly (blockCrc block) := Crc.message_mod

/-- The codeword feeds the register back to zero. -/
theorem feed_codeword (block : List (BitVec 8)) :
    Crc.feed 0x1021#16 0#16 (codeword block) = 0#16 :=
  (Crc.feed_bits_iff (by decide)).mpr rfl

theorem Card.Sends.not_broken (h : c.Sends d e block) : c.broken d e = false := by
  rw [Card.broken, h.bits, feed_codeword, h.stop]
  rfl

theorem Card.Garbles.broken (hlen : block.length = 512) (h : c.Garbles d e block) :
    c.broken d e = true := by
  rcases h with hstop | ⟨l, ⟨k, b, n, hb, hl⟩, hll, hbits⟩
  · rw [Card.broken, hstop]
    rfl
  · have hcode : l.length = (codeword block).length := by
      rw [hll, codeword, List.length_append, blockBits_length, msbFirst_length, hlen]
    have hne := Crc.burst_detected (by decide) (feed_codeword block) hb hl hcode
    rw [← hbits] at hne
    rw [Card.broken, bne_iff_ne.mpr hne, Bool.or_true]

theorem blockBits_get {m j : Nat} (hm : m < block.length) (hj : j < 8) :
    (blockBits block)[8 * m + j]? = some ((block.get ⟨m, hm⟩).getLsbD (7 - j)) := by
  induction block generalizing m with
  | nil => cases hm
  | cons b t ih =>
      rw [blockBits, List.flatMap_cons]
      cases m with
      | zero =>
          rw [List.getElem?_append_left (by rw [msbFirst_length]; omega)]
          simp [msbFirst, hj]
      | succ m =>
          have hpos : 8 * (m + 1) + j - 8 = 8 * m + j := by omega
          rw [List.getElem?_append_right (by rw [msbFirst_length]; omega), msbFirst_length, hpos]
          exact ih (Nat.lt_of_succ_lt_succ hm)

/-- The levels of the data line are the bits of the block. -/
theorem Card.Sends.level (h : c.Sends d e block) (hlen : block.length = 512) {m j : Nat}
    (hm : m < block.length) (hj : j < 8) :
    c.dat (first d e + (8 * m + j)) = (block.get ⟨m, hm⟩).getLsbD (7 - j) := by
  have hget : (c.bits d e 4112)[8 * m + j]? = some (c.dat (first d e + (8 * m + j))) := by
    have hlt : 8 * m + j < 4112 := by omega
    rw [Card.bits, List.getElem?_map, List.getElem?_range hlt]
    rfl
  have hin : 8 * m + j < (blockBits block).length := by
    rw [blockBits_length]
    omega
  rw [h.bits, codeword, List.getElem?_append_left hin, blockBits_get hm hj] at hget
  exact (Option.some.inj hget).symm

/-- A word of the buffer holds four bytes of the block, the first one on top. -/
theorem Stored.bytes {buf : BitVec 7 → Word} (hb : Stored c d e 128 buf) (h : c.Sends d e block)
    (hlen : block.length = 512) {w : Nat} (hw : w < 128) :
    SdCard.wordBytes (buf (BitVec.ofNat 7 w)) = (block.drop (4 * w)).take 4 := by
  have hbyte : ∀ q (hq : q < 4) (hm : 4 * w + q < block.length),
      ((buf (BitVec.ofNat 7 w)) >>> (24 - 8 * q)).setWidth 8 = block.get ⟨4 * w + q, hm⟩ := by
    intro q hq hm
    apply BitVec.eq_of_getLsbD_eq
    intro i hi
    have hbit := hb w hw (8 * q + (7 - i)) (by omega)
    have hlev := h.level hlen hm (j := 7 - i) (by omega)
    have hpos : first d e + 32 * w + (8 * q + (7 - i)) =
        first d e + (8 * (4 * w + q) + (7 - i)) := by omega
    have hidx : 31 - (8 * q + (7 - i)) = 24 - 8 * q + i := by omega
    have hback : 7 - (7 - i) = i := by omega
    rw [hpos, hlev, hidx, hback] at hbit
    rw [BitVec.getLsbD_setWidth, BitVec.getLsbD_ushiftRight, hbit]
    simp [hi]
  have hdrop : (block.drop (4 * w)).take 4 =
      [block.get ⟨4 * w + 0, by omega⟩, block.get ⟨4 * w + 1, by omega⟩,
        block.get ⟨4 * w + 2, by omega⟩, block.get ⟨4 * w + 3, by omega⟩] := by
    apply List.ext_getElem
    · simp
      omega
    · intro n h1 h2
      simp only [List.length_cons, List.length_nil] at h2
      rw [List.getElem_take, List.getElem_drop]
      have hcases : n = 0 ∨ n = 1 ∨ n = 2 ∨ n = 3 := by omega
      rcases hcases with rfl | rfl | rfl | rfl <;> rfl
  rw [hdrop, ← hbyte 0 (by omega), ← hbyte 1 (by omega), ← hbyte 2 (by omega),
    ← hbyte 3 (by omega)]
  simp [SdCard.wordBytes]

end Blocks

/-! ## The operation in a run -/

section Run

variable (D : Dividers) (inp : Nat → In) (s₀ : SdHost)

/-- The host before a cycle. -/
def hostRun (n : Nat) : SdHost := Clocked.run (SdHost.next D) inp s₀ n

/-- The edges the host has sampled the card's lines at, before a cycle. -/
def heard (n : Nat) : Nat := Clocked.history (SdHost.next D) (heardNext D) inp s₀ 0 n

/-- START with READ for CMD17 goes to an idle host. -/
structure StartsRead (t : Nat) : Prop where
  write : Regs.writes (inp t).bus ioSdCtrlAddr = true
  start : (inp t).bus.datW.getLsbD 0 = true
  read : (inp t).bus.datW.getLsbD 3 = true
  idle : (hostRun D inp s₀ t).fsm.state = .idle
  free : (hostRun D inp s₀ t).regs.status.busy = false
  none : (hostRun D inp s₀ t).regs.startRead = false
  cmd : (hostRun D inp s₀ t).regs.cmdIdx = 17#6

/-- From a START in the cycle `t` on the read of a block goes on, and in time, or it has ended. -/
def Transfer (c : Card) (d e t n : Nat) : Prop :=
  (Going c d e (hostRun D inp s₀ n) (heard D inp s₀ n) ∧
      cyclesLeft D (hostRun D inp s₀ n) + n ≤ readCycles D + (t + 1)) ∨
    Finished c d e (hostRun D inp s₀ n)

end Run

section Runs

variable {D : Dividers} {inp : Nat → In} {s₀ : SdHost} {c : Card} {d e t n : Nat}

theorem heard_succ : heard D inp s₀ (n + 1) =
    heardNext D (inp n) (hostRun D inp s₀ n) (heard D inp s₀ n) := Clocked.history_succ n

/-- After its START the read of a block goes on. -/
theorem StartsRead.going (h : StartsRead D inp s₀ t) :
    Going c d e (hostRun D inp s₀ (t + 1)) (heard D inp s₀ (t + 1)) ∧
      cyclesLeft D (hostRun D inp s₀ (t + 1)) ≤ readCycles D := by
  have ha : asks (inp t).bus (hostRun D inp s₀ t).regs = true := by
    simp [asks, h.write, h.start, h.free]
  have hne : (hostRun D inp s₀ t).fsm.state ≠ .done := by simp [h.idle]
  have hn : Fsm.starts (hostRun D inp s₀ t).regs = false := by
    simp [Fsm.starts, h.none, h.free]
  have hregs := regs_asks (D := D) ha hne
  have hstate : (hostRun D inp s₀ (t + 1)).fsm.state = .idle := by
    show ((hostRun D inp s₀ t).next D (inp t)).fsm.state = .idle
    by_cases hf : falls D (hostRun D inp s₀ t) = true
    · rw [fsm_next_fall hf, fall_idle h.idle hn]
      exact h.idle
    · obtain ⟨a, b, hq⟩ := fsm_next_quiet (i := inp t) (by simpa using hf)
        (by simp [h.idle, State.answering])
      rw [hq]
      exact h.idle
  refine ⟨⟨.pending hstate, ?_, ?_, ?_, ?_, sdclkDiv_next _ _⟩, cyclesLeft_le hstate⟩
  · exact (congrArg Regs.cmdIdx hregs).trans h.cmd
  · exact congrArg (fun r : Regs => r.status.busy) hregs
  · exact congrArg (fun r : Regs => r.status.done) hregs
  · exact (congrArg (fun r : Regs => r.status.read) hregs).trans h.read

/-- One cycle without a write. -/
theorem Transfer.next (h : Transfer D inp s₀ c d e t n) (ha : c.Answers d e)
    (hl : Levels D c (inp n) (hostRun D inp s₀ n) (heard D inp s₀ n)) (hw : noWrite (inp n).bus) :
    Transfer D inp s₀ c d e t (n + 1) := by
  rcases h with ⟨hg, htime⟩ | hf
  · by_cases hs : (hostRun D inp s₀ n).fsm.state = .done
    · exact .inr (hg.ends hw hs)
    · refine .inl ⟨?_, ?_⟩
      · rw [heard_succ]
        exact hg.next ha hl hw hs
      · have hless : cyclesLeft D (hostRun D inp s₀ (n + 1)) < cyclesLeft D (hostRun D inp s₀ n) :=
          hg.cycles_next ha hl hw hs
        omega
  · exact .inr (hf.next hw)

/-- Cycles without a write. -/
theorem Transfer.later {m : Nat} (h : Transfer D inp s₀ c d e t n) (hnm : n ≤ m)
    (ha : c.Answers d e)
    (hl : ∀ j, n ≤ j → j < m → Levels D c (inp j) (hostRun D inp s₀ j) (heard D inp s₀ j))
    (hw : ∀ j, n ≤ j → j < m → noWrite (inp j).bus) : Transfer D inp s₀ c d e t m := by
  induction m, hnm using Nat.le_induction with
  | base => exact h
  | succ m hm ih =>
      exact (ih (fun j h1 h2 => hl j h1 (by omega)) (fun j h1 h2 => hw j h1 (by omega))).next ha
        (hl m hm (Nat.lt_succ_self m)) (hw m hm (Nat.lt_succ_self m))

/-- The operation ends in time, with `ERR` exactly if what has arrived is not a codeword with its
stop bit; the buffer then holds the block. -/
theorem StartsRead.ends (h : StartsRead D inp s₀ t) (ha : c.Answers d e)
    (hl : ∀ j, t < j → j ≤ t + readCycles D + 1 →
      Levels D c (inp j) (hostRun D inp s₀ j) (heard D inp s₀ j))
    (hw : ∀ j, t < j → j ≤ t + readCycles D + 1 → noWrite (inp j).bus) :
    Finished c d e (hostRun D inp s₀ (t + readCycles D + 2)) ∧
      ∀ j, t < j → j ≤ t + readCycles D + 2 →
        (hostRun D inp s₀ j).regs.status.busy = true ∧
            (hostRun D inp s₀ j).regs.status.done = false ∨
          Finished c d e (hostRun D inp s₀ j) := by
  have hfirst : Transfer D inp s₀ c d e t (t + 1) := by
    obtain ⟨hg, htime⟩ := h.going (c := c) (d := d) (e := e)
    exact .inl ⟨hg, by omega⟩
  have hall : ∀ j, t < j → j ≤ t + readCycles D + 2 → Transfer D inp s₀ c d e t j := by
    intro j h1 h2
    exact hfirst.later h1 ha (fun q hq1 hq2 => hl q hq1 (by omega))
      (fun q hq1 hq2 => hw q hq1 (by omega))
  refine ⟨?_, fun j h1 h2 => ?_⟩
  · rcases hall (t + readCycles D + 2) (by omega) (Nat.le_refl _) with ⟨-, htime⟩ | hf
    · omega
    · exact hf
  · exact (hall j h1 h2).imp (fun hg => ⟨hg.1.busy, hg.1.done⟩) id

end Runs

/-! ## The driver on the timeline -/

/-- The access of a cycle. -/
def issued (b : WbReq) : Option (Issued Word Word) :=
  if b.cyc && b.stb then if b.we then some (.write b.adr b.datW) else some (.read b.adr) else none

/-- What a read of the cycle `n` gives: the SoC samples it in the next cycle. -/
def sampled (D : Dividers) (inp : Nat → In) (s₀ : SdHost) (n : Nat) (adr : Word) : Word :=
  (hostRun D inp s₀ (n + 1)).datR { inp (n + 1) with bus := { (inp (n + 1)).bus with adr := adr } }

section Driver

variable {D : Dividers} {inp : Nat → In} {s₀ : SdHost} {c : Card} {d e t n m : Nat}

theorem noWrite_of_none {b : WbReq} (h : issued b = none) : noWrite b := by
  cases hs : (b.cyc && b.stb) with
  | false => simp [noWrite, hs]
  | true => cases hw : b.we <;> simp [issued, hs, hw] at h

theorem noWrite_of_read {b : WbReq} {adr : Word} (h : issued b = some (.read adr)) : noWrite b := by
  cases hs : (b.cyc && b.stb) with
  | false => simp [noWrite, hs]
  | true => cases hw : b.we with
      | true => simp [issued, hs, hw] at h
      | false => simp [noWrite, hs, hw]

theorem writes_of_issued {b : WbReq} {adr w : Word} (h : issued b = some (.write adr w)) :
    (∀ a, Regs.writes b a = (alignWord adr == a)) ∧ b.datW = w := by
  cases hs : (b.cyc && b.stb) with
  | false => simp [issued, hs] at h
  | true =>
      cases hw : b.we with
      | false => simp [issued, hs, hw] at h
      | true =>
          simp only [issued, hs, hw, if_true, Option.some.injEq, Issued.write.injEq] at h
          refine ⟨fun a => ?_, h.2⟩
          rw [Regs.writes, hs, hw, h.1, Bool.true_and, Bool.true_and]

theorem sampled_status : sampled D inp s₀ n ioSdCtrlAddr =
    (hostRun D inp s₀ (n + 1)).regs.status.word := by
  have hal : alignWord ioSdCtrlAddr = ioSdCtrlAddr := by decide
  rw [sampled, SdHost.datR]
  simp only [hal]
  rw [if_neg (by decide), if_neg (by decide), if_pos trivial]

theorem sampled_data {w : Nat} (hw : w < 128) :
    sampled D inp s₀ n (ioSdDataAddr + BitVec.ofNat 32 (4 * w)) =
      (hostRun D inp s₀ (n + 1)).fsm.dataBuf (BitVec.ofNat 7 w) := by
  have hnat : (ioSdDataAddr + BitVec.ofNat 32 (4 * w)).toNat = 0x400080 + 4 * w := by
    have hbase : ioSdDataAddr.toNat = 0x400080 := rfl
    rw [BitVec.toNat_add, hbase, BitVec.toNat_ofNat]
    omega
  generalize ioSdDataAddr + BitVec.ofNat 32 (4 * w) = a at hnat ⊢
  have hal : alignWord a = a := by
    apply BitVec.eq_of_toNat_eq
    rw [alignWord_toNat, hnat]
    omega
  have hne : ∀ r : Word, r.toNat < 0x400080 → a ≠ r := by
    intro r hr heq
    rw [heq] at hnat
    omega
  have hbase : ioSdDataAddr.toNat = 0x400080 := rfl
  have hend : (ioSdDataAddr + 512#32).toNat = 0x400280 := rfl
  have hin : ioSdDataAddr ≤ a ∧ a < ioSdDataAddr + 512#32 := by
    rw [BitVec.le_def, BitVec.lt_def, hnat, hbase, hend]
    omega
  have hidx : (a - ioSdDataAddr).extractLsb' 2 7 = BitVec.ofNat 7 w := by
    apply BitVec.eq_of_toNat_eq
    rw [BitVec.extractLsb'_toNat, BitVec.toNat_sub, hnat, hbase, BitVec.toNat_ofNat,
      Nat.shiftRight_eq_div_pow]
    omega
  rw [sampled, SdHost.datR]
  simp only [hal]
  rw [if_neg (hne _ (by decide)), if_neg (hne _ (by decide)), if_neg (hne _ (by decide)),
    if_neg (hne _ (by decide)), if_neg (hne _ (by decide)), if_neg (hne _ (by decide)), if_pos hin,
    hidx]

theorem noWrite_of_ne {b : WbReq} (h : ∀ adr w, issued b ≠ some (.write adr w)) : noWrite b := by
  cases hi : issued b with
  | none => exact noWrite_of_none hi
  | some q =>
      cases q with
      | read adr => exact noWrite_of_read hi
      | write adr w => exact absurd hi (h adr w)

theorem word_done (s : Status) : s.word.getLsbD 1 = s.done := by
  rcases s with ⟨busy, done, err, read⟩
  cases busy <;> cases done <;> cases err <;> cases read <;> rfl

theorem word_err (s : Status) : s.word.getLsbD 2 = s.err := by
  rcases s with ⟨busy, done, err, read⟩
  cases busy <;> cases done <;> cases err <;> cases read <;> rfl

theorem Finished.later (hf : Finished c d e (hostRun D inp s₀ n)) (hnm : n ≤ m)
    (hw : ∀ j, n ≤ j → j < m → noWrite (inp j).bus) : Finished c d e (hostRun D inp s₀ m) := by
  induction m, hnm using Nat.le_induction with
  | base => exact hf
  | succ m hm ih =>
      exact (ih fun j h1 h2 => hw j h1 (by omega)).next (hw m hm (Nat.lt_succ_self m))

/-- A program of the driver on the timeline. -/
abbrev Makes (D : Dividers) (inp : Nat → In) (s₀ : SdHost) {α : Type} (n : Nat)
    (x : SdCard.Driver α) (a : α) (m : Nat) : Prop :=
  Access.Exec (fun n => issued (inp n).bus) (sampled D inp s₀) n x a m

/-- Nothing is written up to and with a read. -/
theorem noWrite_upTo {adr : Word} (hq : ∀ j, n ≤ j → j < m → issued (inp j).bus = none)
    (hr : issued (inp m).bus = some (.read adr)) {j : Nat} (h1 : n ≤ j) (h2 : j < m + 1) :
    noWrite (inp j).bus := by
  rcases Nat.lt_succ_iff_lt_or_eq.mp h2 with hlt | rfl
  · exact noWrite_of_none (hq j h1 hlt)
  · exact noWrite_of_read hr

/-- The loop of `sd_cmd` sees the end of the read before its time is up. -/
theorem poll_ends {M : Nat} (ha : c.Answers d e)
    (hl : ∀ j, t < j → j < M → Levels D c (inp j) (hostRun D inp s₀ j) (heard D inp s₀ j))
    (T : Nat) {r : Option Word} (hx : Makes D inp s₀ n (SdCard.pollDone T) r m) (hn : t < n)
    (hm : m ≤ M) (hg : Going c d e (hostRun D inp s₀ n) (heard D inp s₀ n))
    (htime : cyclesLeft D (hostRun D inp s₀ n) + n ≤ readCycles D + (t + 1))
    (hT : readCycles D + (t + 1) < n + T) :
    r = some (hostRun D inp s₀ m).regs.status.word ∧ Finished c d e (hostRun D inp s₀ m) := by
  induction T generalizing n with
  | zero => omega
  | succ T ih =>
      cases hx with
      | read later quiet now rest =>
          rename_i t'
          have hle := rest.le
          have hnext : Transfer D inp s₀ c d e t (t' + 1) :=
            Transfer.later (.inl ⟨hg, htime⟩) (by omega) ha
              (fun j h1 h2 => hl j (by omega) (by omega))
              (fun j h1 h2 => noWrite_upTo quiet now h1 h2)
          have hthen : Makes D inp s₀ (t' + 1)
              (if (sampled D inp s₀ t' ioSdCtrlAddr).getLsbD 1
                then .ret (some (sampled D inp s₀ t' ioSdCtrlAddr)) else SdCard.pollDone T) r m :=
            rest
          rw [sampled_status, word_done] at hthen
          rcases hnext with ⟨hg', htime'⟩ | hf
          · rw [hg'.done] at hthen
            exact ih hthen (by omega) hg' htime' (by omega)
          · rw [hf.done] at hthen
            cases hthen with
            | ret => exact ⟨rfl, hf⟩

/-- The registers that `sd_cmd` keeps are read, the rest of the globals stays. -/
theorem keepLast_ends {g g' : SdCard.Globals} {st : Word}
    (hf : Finished c d e (hostRun D inp s₀ n))
    (hx : Makes D inp s₀ n (SdCard.keepLast g st) g' m) :
    Finished c d e (hostRun D inp s₀ m) ∧ g'.lastStatus = st := by
  have hread : Access.ReadOnly (SdCard.keepLast g st) :=
    .read _ _ fun _ => .read _ _ fun _ => .read _ _ fun _ => .ret _
  refine ⟨hf.later hx.le fun j h1 h2 => noWrite_of_ne fun adr w => hx.no_write hread h1 h2 adr w, ?_⟩
  cases hx with
  | read _ _ _ rest =>
      cases rest with
      | read _ _ _ rest =>
          cases rest with
          | read _ _ _ rest =>
              cases rest with
              | ret => rfl

/-- The loop over the buffer reads the block. -/
theorem readData_ends {block : List (BitVec 8)} (hs : c.Sends d e block)
    (hlen : block.length = 512) (k : Nat) {i : Nat} {out : List (BitVec 8)}
    (hf : Finished c d e (hostRun D inp s₀ n)) (hik : i + k = 128)
    (hx : Makes D inp s₀ n (SdCard.readData i k) out m) : out = block.drop (4 * i) := by
  induction k generalizing n m i out with
  | zero =>
      cases hx with
      | ret =>
          rw [List.drop_of_length_le (by omega)]
  | succ k ih =>
      cases hx with
      | read later quiet now rest =>
          rename_i t'
          have hf' : Finished c d e (hostRun D inp s₀ (t' + 1)) :=
            hf.later (by omega) fun j h1 h2 => noWrite_upTo quiet now h1 h2
          have hthen : Makes D inp s₀ (t' + 1) (SdCard.readData (i + 1) k >>= fun tail =>
              .ret (SdCard.wordBytes (sampled D inp s₀ t'
                (ioSdDataAddr + BitVec.ofNat 32 (4 * i))) ++ tail)) out m := rest
          obtain ⟨tail, q, hx', hret⟩ := hthen.of_bind
          have htail := ih (i := i + 1) hf' (by omega) hx'
          cases hret with
          | ret =>
              rw [sampled_data (by omega), hf'.buf.bytes hs hlen (by omega), htail]
              have hpos : 4 * (i + 1) = 4 * i + 4 := by omega
              rw [hpos, ← List.drop_drop, List.take_append_drop]

theorem startRead_next {i : In} {s : SdHost} (ha : asks i.bus s.regs = false) :
    (s.next D i).regs.startRead = false := by
  have hregs : (s.next D i).regs.startRead = (s.regs.mmioWrite i.bus).startRead := by
    show (s.regs.next i.bus s.fsm.state s.fsm.opError).startRead = _
    rw [Regs.next]
    split_ifs <;> rfl
  rw [hregs]
  exact (mmioWrite_status ha).1

/-- A write of CMD is in place from the next cycle on, and nothing is started meanwhile. -/
theorem cmd_written {w : Word} (hc : issued (inp n).bus = some (.write ioSdCmdAddr w)) (hn : n < m)
    (hq : ∀ j, n + 1 ≤ j → j < m → issued (inp j).bus = none) :
    (hostRun D inp s₀ m).regs.cmdIdx = w.setWidth 6 ∧
      (hostRun D inp s₀ m).regs.startRead = false := by
  induction m, Nat.succ_le_of_lt hn using Nat.le_induction with
  | base =>
      obtain ⟨hw, hdat⟩ := writes_of_issued hc
      have hcmd : Regs.writes (inp n).bus ioSdCmdAddr = true := by rw [hw]; decide
      have hctrl : Regs.writes (inp n).bus ioSdCtrlAddr = false := by rw [hw]; decide
      refine ⟨?_, startRead_next (by rw [asks, hctrl]; rfl)⟩
      show ((hostRun D inp s₀ n).regs.next (inp n).bus (hostRun D inp s₀ n).fsm.state
        (hostRun D inp s₀ n).fsm.opError).cmdIdx = w.setWidth 6
      rw [Regs.next]
      split_ifs <;> simp only [Regs.mmioWrite, hcmd, if_true, hdat]
  | succ m hm ih =>
      obtain ⟨hcmd, -⟩ := ih (by omega) fun j h1 h2 => hq j h1 (by omega)
      have hno : noWrite (inp m).bus := noWrite_of_none (hq m hm (Nat.lt_succ_self m))
      have hw : ∀ a, Regs.writes (inp m).bus a = false := by
        intro a
        rw [Regs.writes, show ((inp m).bus.cyc && (inp m).bus.stb && (inp m).bus.we) = false from hno,
          Bool.false_and]
      refine ⟨?_, startRead_next (by rw [asks, hw]; rfl)⟩
      rw [← hcmd]
      exact next_cmdIdx (by rw [changesCmd, hw]; rfl)

/-- No START is written from the cycle `n` up to the cycle `t`. -/
def Unstarted (inp : Nat → In) (n t : Nat) : Prop :=
  ∀ j, n ≤ j → j < t → ∀ r, asks (inp j).bus r = false

theorem Unstarted.quiet (hq : ∀ j, n ≤ j → j < m → issued (inp j).bus = none) :
    Unstarted inp n m := by
  intro j h1 h2 r
  have hno : ((inp j).bus.cyc && (inp j).bus.stb && (inp j).bus.we) = false :=
    noWrite_of_none (hq j h1 h2)
  rw [asks, Regs.writes, hno]
  rfl

/-- A write that is no START, after cycles without one. -/
theorem Unstarted.write {adr w : Word} (h : Unstarted inp n m)
    (hw : issued (inp m).bus = some (.write adr w))
    (hno : (alignWord adr == ioSdCtrlAddr && w.getLsbD 0) = false) : Unstarted inp n (m + 1) := by
  intro j h1 h2 r
  rcases Nat.lt_succ_iff_lt_or_eq.mp h2 with hlt | rfl
  · exact h j h1 hlt r
  · obtain ⟨hwr, hdat⟩ := writes_of_issued hw
    rw [asks, hwr, hdat, hno]
    rfl

theorem Unstarted.trans {q : Nat} (h : Unstarted inp n m) (h' : Unstarted inp m q) :
    Unstarted inp n q := by
  intro j h1 h2
  by_cases hj : j < m
  · exact h j h1 hj
  · exact h' j (by omega) h2

/-- START of the read in a cycle of a call that returns in the cycle `M`: the host is idle, and the
card serves the operation. -/
structure Served (D : Dividers) (inp : Nat → In) (s₀ : SdHost) (c : Card) (t M : Nat) : Prop where
  idle : (hostRun D inp s₀ t).fsm.state = .idle
  free : (hostRun D inp s₀ t).regs.status.busy = false
  levels : ∀ j, t < j → j < M → Levels D c (inp j) (hostRun D inp s₀ j) (heard D inp s₀ j)

/-- The word that starts a read. -/
def startRead : Word := SdCard.sdCtrlStart ||| SdCard.sdCtrlRead

/-- `sd_cmd` for a read returns the error of the operation, when it has ended. -/
theorem sdCmd_ends {g : SdCard.Globals} {arg : Word} {p : Bool × SdCard.Globals} {M : Nat}
    (ha : c.Answers d e) (hD : readCycles D < SdCard.pollLimit)
    (hx : Makes D inp s₀ n (SdCard.sdCmd g 17#32 arg true) p m) (hM : m ≤ M)
    (hserve : ∀ t, n ≤ t → t < m → Unstarted inp n t →
      issued (inp t).bus = some (.write ioSdCtrlAddr startRead) → Served D inp s₀ c t M) :
    p.1 = !c.broken d e ∧ Finished c d e (hostRun D inp s₀ m) := by
  cases hx with
  | write h1 q1 w1 x1 =>
    cases x1 with
    | write h2 q2 w2 x2 =>
      cases x2 with
      | write h3 q3 w3 x3 =>
        cases x3 with
        | write h4 q4 w4 x4 =>
          rename_i t1 t2 t3 t
          have hend : Makes D inp s₀ (t + 1)
              (SdCard.pollDone SdCard.pollLimit >>= SdCard.cmdResult g) p m := x4
          have hle := hend.le
          have harg : (alignWord ioSdArgAddr == ioSdCtrlAddr) = false := by decide
          have hbefore : Unstarted inp n t :=
            ((Unstarted.quiet q1).write w1 (by decide)).trans <|
              ((Unstarted.quiet q2).write w2 (by rw [harg, Bool.false_and])).trans <|
                ((Unstarted.quiet q3).write w3 (by decide)).trans (Unstarted.quiet q4)
          have hs := hserve t (by omega) (by omega) hbefore w4
          have hcmd : (hostRun D inp s₀ t).regs.cmdIdx = (17#32).setWidth 6 :=
            (cmd_written w3 (by omega) q4).1
          have hstart : (hostRun D inp s₀ t).regs.startRead = false :=
            (cmd_written w3 (by omega) q4).2
          obtain ⟨hwr, hdat⟩ := writes_of_issued w4
          have hbegin : StartsRead D inp s₀ t := by
            refine ⟨by rw [hwr]; decide, ?_, ?_, hs.idle, hs.free, hstart, hcmd⟩ <;>
              rw [hdat] <;> decide
          obtain ⟨hg, htime⟩ := hbegin.going (c := c) (d := d) (e := e)
          obtain ⟨r, q, hpoll, hrest⟩ := hend.of_bind
          have hq := hrest.le
          obtain ⟨hr, hf⟩ := poll_ends ha (fun j h1 h2 => hs.levels j h1 h2) _ hpoll (by omega)
            (by omega) hg (by omega) (by omega)
          subst hr
          have hkept : Makes D inp s₀ q (SdCard.keepLast g
              (hostRun D inp s₀ q).regs.status.word >>= fun g =>
                .ret (!(hostRun D inp s₀ q).regs.status.word.getLsbD 2, g)) p m := hrest
          obtain ⟨g', q', hkeep, hret⟩ := hkept.of_bind
          obtain ⟨hf', -⟩ := keepLast_ends hf hkeep
          cases hret with
          | ret => exact ⟨by rw [word_err, hf.err], hf'⟩

/-- `sdcard_read_block` stores the block that the card sends, in its first attempt. -/
theorem attempts_ends {g : SdCard.Globals} {arg : Word} {k : Nat} {block : List (BitVec 8)}
    {p : Option (List (BitVec 8)) × SdCard.Globals} (ha : c.Answers d e)
    (hD : readCycles D < SdCard.pollLimit) (hs : c.Sends d e block) (hlen : block.length = 512)
    (hx : Makes D inp s₀ n (SdCard.attempts g arg (k + 1)) p m)
    (hserve : ∀ t, n ≤ t → t < m → Unstarted inp n t →
      issued (inp t).bus = some (.write ioSdCtrlAddr startRead) → Served D inp s₀ c t m) :
    p.1 = some block ∧ p.2.sdErr = 0#8 := by
  have hcmd : Makes D inp s₀ n (SdCard.sdCmd g 17#32 arg true >>= fun r =>
      if r.1 then SdCard.readData 0 128 >>= fun out => .ret (some out, { r.2 with sdErr := 0#8 })
      else SdCard.attempts r.2 arg k) p m := hx
  obtain ⟨r, q, hfirst, hrest⟩ := hcmd.of_bind
  have hq := hrest.le
  obtain ⟨hok, hf⟩ := sdCmd_ends ha hD hfirst hq fun t h1 h2 => hserve t h1 (by omega)
  rw [hs.not_broken] at hok
  rw [hok, Bool.not_false, if_pos rfl] at hrest
  obtain ⟨out, q', hdata, hret⟩ := hrest.of_bind
  have hout := readData_ends hs hlen 128 hf rfl hdata
  cases hret with
  | ret => exact ⟨congrArg some hout, rfl⟩

end Driver

end SdHost

end MelonSoc
