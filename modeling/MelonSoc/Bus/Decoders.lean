import MelonSoc.Bus.Mmio
import MelonSoc.Isa.Lanes
import MelonSoc.Rtl.MmioBlock

set_option autoImplicit false

/-! # The address map, three times

The map is written in the predicates of `soc_pkg.sv`, in the selects of `soc.sv` and in the
decoder of each peripheral. All of them look at the word address, so a byte in the middle of a
register belongs to it everywhere, except for `clint.sv`, which compares the byte address: there
only the first byte of a register is decoded.
-/

namespace MelonSoc

/-- The request with its address rounded down to the word. -/
def WbReq.align (b : WbReq) : WbReq := { b with adr := alignWord b.adr }

section Align

variable (b : WbReq)

@[simp] theorem align_adr : b.align.adr = alignWord b.adr := rfl
@[simp] theorem align_datW : b.align.datW = b.datW := rfl
@[simp] theorem align_sel : b.align.sel = b.sel := rfl
@[simp] theorem align_we : b.align.we = b.we := rfl
@[simp] theorem align_cyc : b.align.cyc = b.cyc := rfl
@[simp] theorem align_stb : b.align.stb = b.stb := rfl

@[simp] theorem alignWord_alignWord (a : Word) : alignWord (alignWord a) = alignWord a := by
  apply BitVec.eq_of_toNat_eq
  rw [alignWord_toNat, alignWord_toNat]
  omega

@[simp] theorem periphSel_alignWord (p : Periph) (a : Word) :
    periphSel p (alignWord a) = periphSel p a := by
  simp only [periphSel, alignWord_alignWord]

/-! ## The decoders of the peripherals -/

theorem Uart.ctl_align : Uart.ctl b.align = Uart.ctl b := by
  simp [Uart.ctl, Uart.selDat, Uart.selCtrl]

theorem Uart.datR_align (s : Uart.Pair) : s.datR b.align = s.datR b := by
  simp [Uart.Pair.datR, Uart.selDat, Uart.selCtrl]

theorem I2cMmio.next_align (sda : Bool) (s : I2cMmio) :
    s.next { bus := b.align, sda := sda } = s.next { bus := b, sda := sda } := by
  simp [I2cMmio.next, I2cMmio.latch, I2cMmio.engine, I2cMmio.accepts, I2cMmio.written,
    I2cMmio.edge, I2cMmio.sdaIn, I2cMmio.selTxrx, I2cMmio.selCmd, I2cMmio.selDiv]

theorem I2cMmio.datR_align (s : I2cMmio) : s.datR b.align = s.datR b := by
  simp [I2cMmio.datR, I2cMmio.selTxrx, I2cMmio.selStatus, I2cMmio.selDiv]

theorem TimerMmio.next_align (s : TimerMmio) : s.next b.align = s.next b := by
  have hctrl : TimerMmio.selCtrl b.align = TimerMmio.selCtrl b := by simp [TimerMmio.selCtrl]
  have hpresc : TimerMmio.selPresc b.align = TimerMmio.selPresc b := by simp [TimerMmio.selPresc]
  have hcount : TimerMmio.selCount b.align = TimerMmio.selCount b := by simp [TimerMmio.selCount]
  have hcmp : TimerMmio.selCmp b.align = TimerMmio.selCmp b := by simp [TimerMmio.selCmp]
  have hper : TimerMmio.selPeriod b.align = TimerMmio.selPeriod b := by
    simp [TimerMmio.selPeriod]
  have hstatus : TimerMmio.selStatus b.align = TimerMmio.selStatus b := by
    simp [TimerMmio.selStatus]
  have hwrite : s.mmioWrite b.align = s.mmioWrite b := by
    rw [TimerMmio.mmioWrite, hctrl, hpresc, hcount, hcmp, hper, hstatus]
    rfl
  rw [TimerMmio.next, hwrite]
  rfl

theorem TimerMmio.datR_align (s : TimerMmio) : s.datR b.align = s.datR b := by
  simp [TimerMmio.datR, TimerMmio.selCtrl, TimerMmio.selPresc, TimerMmio.selCount,
    TimerMmio.selPeriod, TimerMmio.selCmp, TimerMmio.selStatus]

theorem SpiMmio.next_align (miso : Bool) (s : SpiMmio) :
    s.next { bus := b.align, spiMiso := miso } = s.next { bus := b, spiMiso := miso } := by
  simp [SpiMmio.next, SpiMmio.latch, SpiMmio.engine, SpiMmio.startWrite, SpiMmio.written,
    SpiMmio.selTxrx, SpiMmio.selCtrl, SpiMmio.selDiv]

theorem SpiMmio.datR_align (s : SpiMmio) : s.datR b.align = s.datR b := by
  simp [SpiMmio.datR, SpiMmio.selTxrx, SpiMmio.selCtrl, SpiMmio.selStatus, SpiMmio.selDiv]

theorem SdHost.next_align (dv : SdHost.Dividers) (cmd : Bool) (dat : BitVec 4) (s : SdHost) :
    s.next dv { bus := b.align, cmd := cmd, dat := dat } =
      s.next dv { bus := b, cmd := cmd, dat := dat } := by
  simp [SdHost.next, SdHost.Regs.next, SdHost.Regs.mmioWrite, SdHost.Regs.writes,
    SdHost.Fsm.next, SdHost.Fsm.sdcmd]

theorem SdHost.datR_align (cmd : Bool) (dat : BitVec 4) (s : SdHost) :
    s.datR { bus := b.align, cmd := cmd, dat := dat } =
      s.datR { bus := b, cmd := cmd, dat := dat } := by
  simp [SdHost.datR, SdHost.debugStatus, SdHost.Fsm.sdcmd]

/-- Without a strobe the address does not matter to the CLINT. -/
theorem Clint.next_idle {b : WbReq} (h : b.cyc = false) (s : Clint) :
    s.next b = { s with mtime := s.mtime + 1#64 } := by
  simp [Clint.next, Clint.mtimecmpNext, Clint.written, h]

end Align

/-! ## The block -/

namespace MmioBlock

variable {c : Params} {ackQ : Bool} {i : Pins} {b : WbReq} {s : MmioBlock}

/-- A byte of a register of the CLINT that is not its first one. -/
def InsideClint (a : Word) : Prop := periphSel .clint a = true ∧ alignWord a ≠ a

theorem busOf_align (p : Periph) (ackQ : Bool) (b : WbReq) :
    busOf p ackQ b.align = (busOf p ackQ b).align := by
  simp [busOf, WbReq.align]

theorem clint_next_align (h : ¬InsideClint b.adr) (s : Clint) :
    s.next (busOf .clint ackQ b.align) = s.next (busOf .clint ackQ b) := by
  by_cases hsel : periphSel .clint b.adr = true
  · have heq : b.align = b := by
      have hadr : alignWord b.adr = b.adr := by
        by_contra hne
        exact h ⟨hsel, hne⟩
      rw [WbReq.align, hadr]
    rw [heq]
  · have hidle : (busOf .clint ackQ b).cyc = false := by simp [busOf, hsel]
    have hidle' : (busOf .clint ackQ b.align).cyc = false := by simp [busOf, hsel]
    rw [Clint.next_idle hidle, Clint.next_idle hidle']

/-- A request acts on the register of its word. -/
theorem next_align (h : ¬InsideClint b.adr) :
    s.next c ackQ i b.align = s.next c ackQ i b := by
  have hgpio : s.gpio.next (busOf .leds ackQ b).align = s.gpio.next (busOf .leds ackQ b) := rfl
  rw [next, clint_next_align h, busOf_align, busOf_align, busOf_align, busOf_align, busOf_align,
    busOf_align, hgpio, Uart.ctl_align, I2cMmio.next_align, TimerMmio.next_align,
    SpiMmio.next_align, SdHost.next_align]
  rfl

/-- A request reads the register of its word. -/
theorem datR_align (h : ¬InsideClint b.adr) : s.datR ackQ i b.align = s.datR ackQ i b := by
  have hclint : periphSel .clint b.adr = true →
      s.clint.datR (busOf .clint ackQ b.align) = s.clint.datR (busOf .clint ackQ b) := by
    intro hsel
    have hadr : alignWord b.adr = b.adr := by
      by_contra hne
      exact h ⟨hsel, hne⟩
    rw [WbReq.align, hadr]
  rw [datR, datR]
  simp only [align_adr, periphSel_alignWord]
  rw [busOf_align, busOf_align, busOf_align, busOf_align, busOf_align, Uart.datR_align,
    I2cMmio.datR_align, TimerMmio.datR_align, SpiMmio.datR_align, SdHost.datR_align]
  by_cases hsel : periphSel .clint b.adr = true
  · rw [hclint hsel]
  · rw [if_neg hsel, if_neg hsel]

/-! ## The bytes the CLINT does not decode -/

/-- The offsets that `clint.sv` compares with are multiples of four. -/
theorem aligned_of_offset {a k : Word} (h : Clint.offset a = k)
    (hk : alignWord (ioClintBaseAddr + k) = ioClintBaseAddr + k) : alignWord a = a := by
  have ha : a = ioClintBaseAddr + k := by
    rw [← h, Clint.offset, BitVec.add_comm, BitVec.sub_add_cancel]
  rw [ha]
  exact hk

theorem clint_unselected (h : alignWord b.adr ≠ b.adr) :
    Clint.selMsip b = false ∧ Clint.selMtimecmpLo b = false ∧ Clint.selMtimecmpHi b = false ∧
      Clint.selMtimeLo b = false ∧ Clint.selMtimeHi b = false := by
  have hno : ∀ k : Word, alignWord (ioClintBaseAddr + k) = ioClintBaseAddr + k →
      (Clint.offset b.adr == k) = false := by
    intro k hk
    rw [beq_eq_false_iff_ne]
    intro heq
    exact h (aligned_of_offset heq hk)
  exact ⟨hno _ (by decide), hno _ (by decide), hno _ (by decide), hno _ (by decide),
    hno _ (by decide)⟩

/-- A load from there reads zero and a store is dropped. -/
theorem clint_lost (h : alignWord b.adr ≠ b.adr) (s : Clint) :
    s.datR b = 0#32 ∧ s.next b = { s with mtime := s.mtime + 1#64 } := by
  have ⟨hmsip, hcmpLo, hcmpHi, htimeLo, htimeHi⟩ := clint_unselected h
  refine ⟨?_, ?_⟩
  · rw [Clint.datR, hmsip, hcmpLo, hcmpHi, htimeLo, htimeHi]
    rfl
  · simp [Clint.next, Clint.mtimecmpNext, hmsip, hcmpLo, hcmpHi]

/-- The registers of the CLINT with all bits set. -/
def clintFull : Clint :=
  { msipReg := true, mtime := BitVec.allOnes 64, mtimecmp := BitVec.allOnes 64 }

/-- A request that reads at an address. -/
def readAt (a : Word) : WbReq :=
  { adr := a, datW := 0#32, sel := 15#4, we := false, cyc := true, stb := true, lock := false }

theorem clintFull_datR (h : periphSel .clint b.adr = true) : clintFull.datR b.align ≠ 0#32 := by
  show clintFull.datR (readAt (alignWord b.adr)) ≠ 0#32
  simp only [periphSel, Bool.or_eq_true, beq_iff_eq] at h
  rcases h with (((h | h) | h) | h) | h <;> rw [h] <;> decide

end MmioBlock

/-! ## The three regions -/

/-- What serves data addresses. -/
inductive Region
  | dataram
  | ddr
  | mmio
  deriving DecidableEq

/-- The predicates of `soc_pkg.sv`. -/
def Region.holds : Region → Word → Bool
  | .dataram => isDataramRegion
  | .ddr => isDdrRegion
  | .mmio => isMappedMmio

/-- The bus behind the data bus shows a request. -/
def Soc.strobes (s : Soc) : Region → Bool
  | .dataram => s.ramStrobe
  | .ddr => s.ddrDataReq.cyc && s.ddrDataReq.stb
  | .mmio => s.mmioStrobe

theorem region_unique {a : Word} :
    isMappedDataAddress a = true ↔ ∃! r, Region.holds r a = true := by
  constructor
  · intro h
    rcases region_cases h with ⟨hram, hddr, hmmio⟩ | ⟨hram, hddr, hmmio⟩ | ⟨hram, hddr, hmmio⟩
    · refine ⟨.dataram, hram, fun r hr => ?_⟩
      cases r <;> simp_all [Region.holds]
    · refine ⟨.ddr, hddr, fun r hr => ?_⟩
      cases r <;> simp_all [Region.holds]
    · refine ⟨.mmio, hmmio, fun r hr => ?_⟩
      cases r <;> simp_all [Region.holds]
  · rintro ⟨r, hr, -⟩
    cases r <;> simp_all [Region.holds, isMappedDataAddress]

/-- A request goes to the regions its address lies in. -/
theorem strobes_eq {s : Soc} (hcyc : s.dataReq.cyc = true) (hstb : s.dataReq.stb = true)
    (r : Region) : s.strobes r = r.holds s.dataReq.adr := by
  cases r with
  | dataram =>
      have hmapped : isDataramRegion s.dataReq.adr = true →
          isMappedDataAddress s.dataReq.adr = true := by
        intro h
        simp [isMappedDataAddress, h]
      by_cases h : isDataramRegion s.dataReq.adr = true
      · simp [Soc.strobes, Soc.ramStrobe, Soc.dataUnmapped, Region.holds, hcyc, hstb, h, hmapped h]
      · simp [Soc.strobes, Soc.ramStrobe, Region.holds, h]
  | ddr => simp [Soc.strobes, Soc.ddrDataReq, Region.holds, hcyc, hstb]
  | mmio => simp [Soc.strobes, Soc.mmioStrobe, Region.holds, hcyc, hstb]

/-- One peripheral for each MMIO address, and none for any other. -/
theorem select_unique {a : Word} :
    isMappedMmio a = true ↔ ∃! p, periphSel p a = true := by
  constructor
  · intro h
    have ⟨p, hp⟩ := periph_of_mmio h
    refine ⟨p, by simp [hp], fun q hq => ?_⟩
    simpa [hp] using hq
  · rintro ⟨p, hp, -⟩
    exact (isMappedMmio_iff a).mpr ⟨p, (periphSel_iff p a).mp hp⟩

/-- The access check of EX. -/
theorem exAccessFault_unmapped {i : CoreIn} {s : Core}
    (hun : isMappedDataAddress i.dPaddr = false) (hv : s.idEx.valid = true)
    (hm : s.idEx.isMem = true) (hready : i.dReqReady = true) :
    s.exAccessFault i = true ∧ s.commits i = false := by
  have hno : supportsAtomic i.dPaddr = false := by
    simp only [isMappedDataAddress, Bool.or_eq_false_iff] at hun
    simp [supportsAtomic, hun.1]
  refine ⟨?_, ?_⟩
  · simp only [IdEx.isMem, Bool.or_eq_true] at hm
    simp only [Core.exAccessFault, hv, hready, hun, hno, Bool.true_and, Bool.not_false,
      Bool.and_true]
    rcases hm with (h | h) | h <;> simp [h]
  · by_contra hc
    have hcommits : s.commits i = true := by simpa using hc
    obtain ⟨hls, hat, -⟩ := Core.access_of_commits hcommits hm
    simp only [IdEx.isMem, Bool.or_eq_true] at hm
    rcases hm with h | h
    · rw [hls (by simpa using h)] at hun
      cases hun
    · rw [hat h] at hno
      cases hno

/-! ## The decoders agree -/

/-- What the three decoders have to say about a byte address. -/
structure DecodersAgree (a : Word) : Prop where
  /-- The package and the selects. -/
  select : isMappedMmio a = true ↔ ∃! p, periphSel p a = true
  /-- The selects and the peripherals: a read and what it makes of the registers. -/
  register : isMappedMmio a = true → ∀ c ackQ i (b : WbReq) (s : MmioBlock), b.adr = a →
    s.datR ackQ i b = s.datR ackQ i b.align ∧ s.next c ackQ i b = s.next c ackQ i b.align
  /-- Every load returns the bytes of the register. -/
  load : isMappedMmio a = true → ∀ (op : Rv32.LoadOp), op.aligned a = true →
    ∀ ackQ i (b : WbReq) (s : MmioBlock), b.adr = a →
      formatLoadData (s.datR ackQ i b) op.funct3 (a.extractLsb' 0 2) =
        op.value (byteAt fun x => s.datR ackQ i { b with adr := alignWord x }) a
  /-- One region serves the address. -/
  region : isMappedDataAddress a = true ↔ ∃! r, Region.holds r a = true
  served : ∀ s : Soc, s.dataReq.cyc = true → s.dataReq.stb = true → s.dataReq.adr = a →
    ∀ r, s.strobes r = r.holds a
  /-- Without a region it does not get behind EX, -/
  faults : isMappedDataAddress a = false → ∀ (i : CoreIn) (s : Core), i.dPaddr = a →
    s.idEx.valid = true → s.idEx.isMem = true → i.dReqReady = true →
      s.exAccessFault i = true ∧ s.commits i = false
  /-- nor onto the bus. -/
  unreached : isMappedDataAddress a = false → ∀ m inp n,
    (socRun m inp n).dataReq.cyc = true → (socRun m inp n).dataReq.adr ≠ a

/-- The reset state with the CLINT full. -/
def MmioBlock.full : MmioBlock :=
  { gpio := .reset, uart := { tx := .reset, rx := .reset }, i2c := .reset 27000000 100000
    timer := .reset, spi := .reset 27000000 200000, sd := .reset, clint := clintFull }

/-- Inside the CLINT the decoders disagree. -/
theorem not_agree_inside {a : Word} (h : MmioBlock.InsideClint a) : ¬DecodersAgree a := by
  intro hagree
  have ⟨hsel, hne⟩ := h
  have hmmio : isMappedMmio a = true :=
    (isMappedMmio_iff a).mpr ⟨.clint, (periphSel_iff .clint a).mp hsel⟩
  have ⟨p, hp⟩ := periph_of_mmio hmmio
  have hclint : p = .clint := by
    rw [hp] at hsel
    exact (of_decide_eq_true hsel).symm
  have honly : ∀ q, periphSel q a = decide (q = .clint) := by
    rw [← hclint]
    exact hp
  have hreg := (hagree.register hmmio { ticks := 4, dividers := .bench } false
    { rxd := true, i2cSda := true, spiMiso := true, sdcmd := true, sddat := 0#4 }
    (MmioBlock.readAt a) MmioBlock.full rfl).1
  have hadr : (MmioBlock.readAt a).adr = a := rfl
  simp only [MmioBlock.datR, align_adr, periphSel_alignWord, hadr, honly] at hreg
  have hlost := (MmioBlock.clint_lost (b := MmioBlock.busOf .clint false (MmioBlock.readAt a))
    hne MmioBlock.clintFull).1
  have hfull := MmioBlock.clintFull_datR (b := MmioBlock.readAt a) hsel
  exact hfull (hreg.symm.trans hlost)

/-- **The address decoders agree if and only if** the address is not inside a register of the
CLINT, behind its first byte. -/
theorem decoders_agree_iff (a : Word) :
    DecodersAgree a ↔ ¬(periphSel .clint a = true ∧ alignWord a ≠ a) := by
  constructor
  · exact fun h hin => not_agree_inside hin h
  · intro hout
    constructor
    case select => exact select_unique
    case register =>
      rintro - c ackQ i b s rfl
      exact ⟨(MmioBlock.datR_align hout).symm, (MmioBlock.next_align hout).symm⟩
    case load =>
      rintro - op hal ackQ i b s rfl
      have hsame : ∀ x, wordOf x = wordOf b.adr →
          s.datR ackQ i { b with adr := alignWord x } =
            s.datR ackQ i { b with adr := alignWord b.adr } := by
        intro x hx
        have hword : alignWord x = alignWord b.adr := congrArg (· ++ 0#2) hx
        rw [hword]
      rw [← formatLoadData_eq hal hsame, ← MmioBlock.datR_align hout]
      rfl
    case region => exact region_unique
    case served =>
      rintro s hcyc hstb rfl
      exact strobes_eq hcyc hstb
    case faults =>
      rintro hun i s rfl hv hm hready
      exact exAccessFault_unmapped hun hv hm hready
    case unreached =>
      rintro hun m inp n hcyc rfl
      rw [(socRun_grants m inp n).1.mappedReq hcyc] at hun
      cases hun

/-- The second byte of `mtime`. -/
theorem decoders_disagree : ¬DecodersAgree 0x40BFF9#32 :=
  not_agree_inside ⟨by decide, by decide⟩

end MelonSoc
