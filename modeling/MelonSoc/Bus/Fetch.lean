import MelonSoc.Bus.Ownership

set_option autoImplicit false

/-! # The word of a fetch

A fetch that is accepted is sampled by the core one cycle later. Both memories keep the word in a
register for this, but the multiplexer in front of the registers follows the address that is on
the bus by then.
-/

namespace MelonSoc

/-- The word that a fetch at `addr` is for. -/
def Memories.fetchWord (m : Memories) (addr : Word) : Word :=
  if isDdrRegion addr then m.ddr (wordOf addr) else m.progrom (progromIndex addr)

namespace Soc

/-- The request of the core on `core_instr`. -/
def coreInstrReq (i : SocIn) (s : Soc) : ImemReq := s.hart.coreInstrReq (s.hartIn i)

/-- `core_instr.stall`. -/
def coreInstrStall (i : SocIn) (s : Soc) : Bool :=
  s.hart.mmu.instrStall s.hart.ctx (s.coreInstrReq i) (s.instrRsp i)

/-- A fetch is accepted because it has a fault of its own, found by the walker. -/
def fetchFaulted (i : SocIn) (s : Soc) : Bool :=
  s.hart.ctx.instrTranslate && s.hart.mmu.instrFaultPending &&
    s.hart.mmu.instrFaultVaddr == (s.coreInstrReq i).addr

/-- A fetch is accepted at the physical address on the instruction bus. -/
def fetchAccepted (i : SocIn) (s : Soc) : Bool :=
  (s.coreInstrReq i).ren && !s.coreInstrStall i && (s.instrReq i).ren && !s.fetchFaulted i

/-- The core samples `core_instr.rdata`. -/
def samples (i : SocIn) (s : Soc) : Bool :=
  s.hart.core.fe.ifValid && !(s.coreInstrReq i).flush

/-- The two registers behind the multiplexer; that of the DDR path is passed by a word that just
arrives. -/
def fetchRegister (ddr : Bool) (i : SocIn) (s : Soc) : Word :=
  if ddr then
    if s.ddrInstrRsp.ack && s.fetch.ddrPending && !s.fetch.ddrKilled && !(s.instrReq i).flush then
      s.ddrInstrRsp.datR
    else s.fetch.ddrRdataQ
  else s.fetch.romRdata

/-! ## The property -/

/-- The word of a fetch that `s` accepts is what the core samples in the next cycle. -/
def Delivers (i i' : SocIn) (s : Soc) : Prop :=
  s.fetchAccepted i = true → (s.next i).samples i' = true →
    ((s.next i).instrRsp i').rdata = s.mem.fetchWord (s.instrReq i).addr

/-- The address on the bus a cycle after the fetch is in the other memory, whose register holds
another word. -/
def Diverted (i i' : SocIn) (s : Soc) : Prop :=
  s.fetchAccepted i = true ∧ (s.next i).samples i' = true ∧
    isDdrRegion ((s.next i).instrReq i').addr ≠ isDdrRegion (s.instrReq i).addr ∧
    (s.next i).fetchRegister (isDdrRegion ((s.next i).instrReq i').addr) i' ≠
      s.mem.fetchWord (s.instrReq i).addr

variable {i i' : SocIn} {s : Soc} {g : Origins}

theorem instrReq_eq : s.instrReq i = s.hart.mmu.physInstrReq s.hart.ctx (s.coreInstrReq i) := rfl

/-- The multiplexer. -/
theorem instrRsp_rdata :
    (s.instrRsp i).rdata = s.fetchRegister (isDdrRegion (s.instrReq i).addr) i := by
  cases hd : isDdrRegion (s.instrReq i).addr <;> simp [instrRsp, fetchRegister, hd]

/-- The instruction bus has answered an accepted fetch. -/
theorem not_stall_of_accepted (h : s.fetchAccepted i = true) : (s.instrRsp i).stall = false := by
  simp only [fetchAccepted, Bool.and_eq_true, Bool.not_eq_true'] at h
  obtain ⟨⟨⟨hren, hstall⟩, hphys⟩, hfault⟩ := h
  rw [instrReq_eq] at hphys
  simp only [Mmu.physInstrReq, hren, Bool.true_and, Bool.or_eq_true, Bool.and_eq_true,
    Bool.not_eq_true'] at hphys
  simp only [coreInstrStall, Mmu.instrStall, hren, Bool.and_true] at hstall
  cases ht : s.hart.ctx.instrTranslate with
  | false => simpa [ht] using hstall
  | true =>
      simp only [fetchFaulted, ht, Bool.true_and] at hfault
      rcases hphys with hno | ⟨⟨hhit, hperm⟩, hlow⟩
      · rw [ht] at hno
        cases hno
      · simpa [ht, hfault, Mmu.instrDirectPageFault, Mmu.instrDirectAccessFault, hhit, hperm, hlow]
          using hstall

/-- A fetch from PROGROM leaves its word in the register of PROGROM. -/
theorem rom_register (h : s.fetchAccepted i = true)
    (hd : isDdrRegion (s.instrReq i).addr = false) :
    (s.next i).fetchRegister false i' = s.mem.fetchWord (s.instrReq i).addr := by
  have hren : (s.instrReq i).ren = true := by
    simp only [fetchAccepted, Bool.and_eq_true] at h
    exact h.1.2
  have hrom : (s.fetchNext i).romRdata = s.mem.progrom (progromIndex (s.instrReq i).addr) := by
    simp only [fetchNext, hren, hd, Bool.not_false, Bool.and_true, if_true]
    repeat' split
    all_goals rfl
  simp only [fetchRegister, Bool.false_eq_true, if_false, Memories.fetchWord, hd]
  exact hrom

/-- A fetch from DDR leaves its word in the register of the DDR path. -/
theorem Grants.ddr_register (d : s.Grants g) (f : s.FetchInFlight)
    (h : s.fetchAccepted i = true) (hd : isDdrRegion (s.instrReq i).addr = true) :
    (s.next i).fetchRegister true i' = s.mem.fetchWord (s.instrReq i).addr := by
  -- the answer is there, for this very address
  have hstall := not_stall_of_accepted h
  simp only [instrRsp, hd, if_true, Bool.not_eq_false', Bool.and_eq_true, Bool.not_eq_true',
    beq_iff_eq] at hstall
  obtain ⟨⟨⟨⟨hack, hpend⟩, hkill⟩, hflush⟩, hadr⟩ := hstall
  have hrsp := d.rsp_ack .instr
  rw [show (s.ddrRspOf .instr).ack = s.ddrInstrRsp.ack from rfl, hack] at hrsp
  simp only [Bool.true_eq, Bool.and_eq_true, decide_eq_true_eq] at hrsp
  obtain ⟨hb, howner⟩ := hrsp
  have hinstr : s.arb.ownerIsData = false := by
    cases hown : s.arb.ownerIsData with
    | false => rfl
    | true => simp [ddrOwner, hown] at howner
  obtain ⟨-, hreq, hwe⟩ := f (.inr hb) hinstr
  have hdat : s.ddrInstrRsp.datR = s.mem.ddr (wordOf (s.instrReq i).addr) := by
    have hbr := d.rsp_datR (m := .instr) hack
    rw [show (s.ddrRspOf .instr).datR = s.ddrInstrRsp.datR from rfl] at hbr
    rw [hbr, d.ddrData (.inr hb) hwe, hreq, hadr]
  have hnext : (s.fetchNext i).ddrPending = false ∧
      (s.fetchNext i).ddrRdataQ = s.ddrInstrRsp.datR := by
    simp [fetchNext, hack, hkill, hflush]
  have hpend' : (s.next i).fetch.ddrPending = false := hnext.1
  have hq' : (s.next i).fetch.ddrRdataQ = s.ddrInstrRsp.datR := hnext.2
  simp only [fetchRegister, if_true, hpend', Bool.and_false, Bool.false_and, Bool.false_eq_true,
    if_false, hq', hdat, Memories.fetchWord, hd]

/-- A fetch is delivered if and only if it is not diverted. -/
theorem Grants.delivers_iff (d : s.Grants g) (f : s.FetchInFlight) :
    s.Delivers i i' ↔ ¬ s.Diverted i i' := by
  have hown : s.fetchAccepted i = true →
      (s.next i).fetchRegister (isDdrRegion (s.instrReq i).addr) i' =
        s.mem.fetchWord (s.instrReq i).addr := by
    intro h
    cases hd : isDdrRegion (s.instrReq i).addr with
    | true => exact d.ddr_register f h hd
    | false => exact rom_register h hd
  constructor
  · rintro h ⟨hacc, hs, -, hne⟩
    apply hne
    rw [← instrRsp_rdata]
    exact h hacc hs
  · intro h hacc hs
    rw [instrRsp_rdata]
    by_cases heq : isDdrRegion ((s.next i).instrReq i').addr = isDdrRegion (s.instrReq i).addr
    · rw [heq]
      exact hown hacc
    · by_contra hne
      exact h ⟨hacc, hs, heq, hne⟩

end Soc

/-! ## Runs -/

/-- **Fetches.** In every run every accepted fetch is sampled as the word at its address if and
only if no fetch is diverted. -/
theorem fetches_delivered_iff (m : Memories) (inp : Nat → SocIn) :
    (∀ n, (socRun m inp n).Delivers (inp n) (inp (n + 1))) ↔
      ∀ n, ¬ (socRun m inp n).Diverted (inp n) (inp (n + 1)) :=
  forall_congr' fun n =>
    (socRun_grants m inp n).2.delivers_iff (socRun_booked m inp n).1

/-- A program that jumps to the last word of DDR. -/
def lastDdrWord : Memories :=
  Memories.ofWords [(0, 0x880000b7#32), (1, 0xffc08093#32), (2, 0x00008067#32)] []
    [(0x21FFFFFF, 0x00100093#32)]

/-- The fetch path has gone on to an address outside DDR when the core takes the word. -/
theorem fetch_diverted :
    ¬ ∀ m inp n, (socRun m inp n).Delivers (inp n) (inp (n + 1)) := by
  intro h
  have hdel := h lastDdrWord quietSoc 11
  have hcase : (socRun lastDdrWord quietSoc 11).fetchAccepted (quietSoc 11) = true ∧
      ((socRun lastDdrWord quietSoc 11).next (quietSoc 11)).samples (quietSoc 12) = true ∧
      (((socRun lastDdrWord quietSoc 11).next (quietSoc 11)).instrRsp (quietSoc 12)).rdata ≠
        (socRun lastDdrWord quietSoc 11).mem.fetchWord
          ((socRun lastDdrWord quietSoc 11).instrReq (quietSoc 11)).addr := by
    decide +kernel
  exact hcase.2.2 (hdel hcase.1 hcase.2.1)

end MelonSoc
