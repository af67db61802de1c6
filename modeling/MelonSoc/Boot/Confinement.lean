import MelonSoc.Boot.Xmodem
import MelonSoc.Boot.FatBoot

set_option autoImplicit false

/-! # Where the boot loaders write

Both loaders write the payload of an image and nothing else, and only after they have accepted
its header. The trace of a run is read off by `Confining`; one triple for each function of the
loaders says how it goes on.
-/

namespace MelonSoc.Boot

open Prog

/-! ## Traces -/

/-- An image with these sizes fits between `dst` and the end of the boot region. -/
structure Fits (dst text data : Word) : Prop where
  above : loadAddr.toNat ≤ dst.toNat
  below : dst.toNat + (text.toNat + data.toNat) ≤ loadLimit.toNat

/-- What a loader may do with `dst`. Of the additions and subtractions only those in `spared` may
wrap. -/
structure Confined (spared : Arith → Prop) (dst : Word) (t : List Event) : Prop where
  /-- A byte goes into the payload of a header that has been accepted before. -/
  stores : ∀ before addr byte after, t = before ++ .store addr byte :: after →
    ∃ text data, .accepted text data ∈ before ∧ dst.toNat ≤ addr.toNat ∧
      addr.toNat < dst.toNat + (text.toNat + data.toNat)
  /-- The payload lies inside the boot region. -/
  region : ∀ text data, .accepted text data ∈ t → Fits dst text data
  /-- There is one header. -/
  once : ∀ text data text' data', .accepted text data ∈ t → .accepted text' data' ∈ t →
    text = text' ∧ data = data'
  exact : ∀ op, .wrapped op ∈ t → spared op

/-- An event that is no write and no header. -/
def Event.harmless : Event → Prop
  | .accepted _ _ => False
  | .store _ _ => False
  | .wrapped op => op = .countTest
  | _ => True

/-- The traces of a loader, with the sizes in the header it has accepted. -/
inductive Confining (dst : Word) : Option (Word × Word) → List Event → Prop
  | nil : Confining dst none []
  | harmless {p : Option (Word × Word)} {t : List Event} {e : Event} (h : Confining dst p t)
      (he : e.harmless) : Confining dst p (t ++ [e])
  | accepted {t : List Event} {text data : Word} (h : Confining dst none t)
      (fits : Fits dst text data) : Confining dst (some (text, data)) (t ++ [.accepted text data])
  | store {t : List Event} {text data addr : Word} {byte : Byte}
      (h : Confining dst (some (text, data)) t) (above : dst.toNat ≤ addr.toNat)
      (below : addr.toNat < dst.toNat + (text.toNat + data.toNat)) :
      Confining dst (some (text, data)) (t ++ [.store addr byte])

variable {dst : Word} {p : Option (Word × Word)} {t : List Event}

theorem Confining.mem_accepted (h : Confining dst p t) (text data : Word) :
    .accepted text data ∈ t ↔ p = some (text, data) := by
  induction h with
  | nil => simp
  | harmless h he ih =>
      rw [List.mem_append, ih, List.mem_singleton]
      constructor
      · rintro (h | rfl)
        · exact h
        · exact absurd he id
      · exact .inl
  | accepted h fits ih =>
      rw [List.mem_append, ih, List.mem_singleton]
      simp [eq_comm]
  | store h above below ih =>
      rw [List.mem_append, ih, List.mem_singleton]
      simp

/-- A prefix that ends in a new event is the trace before it or shorter. -/
theorem append_cons_eq_concat {α : Type} {before after : List α} {a e : α} {t : List α}
    (h : t ++ [e] = before ++ a :: after) :
    (∃ after', t = before ++ a :: after') ∨ (before = t ∧ a = e) := by
  rcases List.eq_nil_or_concat after with rfl | ⟨after', e', rfl⟩
  · right
    have h' := List.append_inj' h rfl
    exact ⟨h'.1.symm, (List.cons.inj h'.2).1.symm⟩
  · left
    have h' : t ++ [e] = (before ++ a :: after') ++ [e'] := by simpa using h
    exact ⟨after', (List.append_inj' h' rfl).1⟩

theorem Confining.confined (h : Confining dst p t) : Confined (· = .countTest) dst t := by
  refine ⟨?_, ?_, ?_, ?_⟩
  · induction h with
    | nil => simp
    | harmless h he ih =>
        intro before addr byte after heq
        rcases append_cons_eq_concat heq with ⟨after', heq⟩ | ⟨-, rfl⟩
        · exact ih _ _ _ _ heq
        · exact absurd he id
    | accepted h fits ih =>
        intro before addr byte after heq
        rcases append_cons_eq_concat heq with ⟨after', heq⟩ | ⟨-, hc⟩
        · exact ih _ _ _ _ heq
        · cases hc
    | store h above below ih =>
        intro before addr byte after heq
        rcases append_cons_eq_concat heq with ⟨after', heq⟩ | ⟨rfl, hc⟩
        · exact ih _ _ _ _ heq
        · cases hc
          exact ⟨_, _, (h.mem_accepted _ _).mpr rfl, above, below⟩
  · intro text data hm
    rw [h.mem_accepted] at hm
    induction h with
    | nil => cases hm
    | harmless h he ih => exact ih hm
    | accepted h fits ih =>
        cases hm
        exact fits
    | store h above below ih => exact ih hm
  · intro text data text' data' hm hm'
    rw [h.mem_accepted] at hm hm'
    rw [hm] at hm'
    cases hm'
    exact ⟨rfl, rfl⟩
  · induction h with
    | nil => simp
    | harmless h he ih =>
        intro op hm
        rcases List.mem_append.mp hm with hm | hm
        · exact ih op hm
        · obtain rfl := List.mem_singleton.mp hm
          exact he
    | accepted h fits ih =>
        intro op hm
        simpa using ih op (by simpa using hm)
    | store h above below ih =>
        intro op hm
        simpa using ih op (by simpa using hm)

/-! ## Triples -/

/-- The trace of the loader so far. -/
def Traced (dst : Word) (p : Option (Word × Word)) (w : World) : Prop := Confining dst p w.trace

/-- Whatever it has accepted, the loader has kept to it. -/
def Kept (dst : Word) (w : World) : Prop := ∃ p, Traced dst p w

theorem Traced.kept {w : World} (h : Traced dst p w) : Kept dst w := ⟨p, h⟩

/-- The program writes nothing; what it returns has `Q`. -/
def Passes (dst : Word) (p : Option (Word × Word)) {α : Type} (x : Loader α) (Q : α → Prop) :
    Prop :=
  Meets (Traced dst p) x (fun a w => Q a ∧ Traced dst p w) (Kept dst)

section Triples

variable {α β : Type} {Q : α → Prop} {Q' : β → Prop}

theorem Passes.pure {a : α} (h : Q a) : Passes dst p (pure a) Q :=
  Meets.pure fun _ hw => ⟨h, hw⟩

theorem Passes.throw {e : Stop} : Passes dst p (throw e : Loader α) Q :=
  Meets.throw fun _ hw => hw.kept

theorem Passes.bind {x : Loader α} {f : α → Loader β} (hx : Passes dst p x Q)
    (hf : ∀ a, Q a → Passes dst p (f a) Q') : Passes dst p (x >>= f) Q' :=
  Meets.bind hx fun a => Meets.pre (hf a)

theorem Passes.meets {x : Loader α} {f : α → Loader β} {P : β → World → Prop}
    (hx : Passes dst p x Q) (hf : ∀ a, Q a → Meets (Traced dst p) (f a) P (Kept dst)) :
    Meets (Traced dst p) (x >>= f) P (Kept dst) :=
  Meets.bind hx fun a => Meets.pre (hf a)

theorem Passes.mono {x : Loader α} {Q₂ : α → Prop} (hx : Passes dst p x Q)
    (h : ∀ a, Q a → Q₂ a) : Passes dst p x Q₂ :=
  Meets.mono hx (fun _ hw => hw) (fun a _ hw => ⟨h a hw.1, hw.2⟩) (fun _ hw => hw)

theorem Passes.loop {body : β → Loader (β ⊕ α)} {I : β → Prop}
    (hbody : ∀ b, I b → Passes dst p (body b) (fun r => Sum.elim I Q r)) (n : Nat) {b : β}
    (hb : I b) : Passes dst p (Prog.loop .fuel body n b) Q := by
  have h := Meets.loop (e := Stop.fuel) (f := body) (I := fun b w => I b ∧ Traced dst p w)
    (Q := fun a w => Q a ∧ Traced dst p w) (R := Kept dst)
    (fun b => Meets.pre fun hb => Meets.mono (hbody b hb) (fun _ hw => hw)
      (fun r _ hw => by cases r <;> exact hw) (fun _ hw => hw))
    (fun _ _ hw => hw.2.kept) n b
  exact h.mono (fun _ hw => ⟨hb, hw⟩) (fun _ _ hw => hw) (fun _ hw => hw)

theorem emit_meets {P : World → Prop} {e : Event} {R : World → Prop}
    {P' : World → Prop} (h : ∀ w, P w → P' { w with trace := w.trace ++ [e] }) :
    Meets P (emit e) (fun _ => P') R :=
  fun w hw => h w hw

theorem passes_emit {e : Event} (he : e.harmless) : Passes dst p (emit e) (fun _ => True) :=
  emit_meets fun _ hw => ⟨trivial, hw.harmless he⟩

theorem add_eq {op : Arith} {a b : Word} (h : a.toNat + b.toNat < 2 ^ 32) :
    add op a b = (pure (a + b) : Loader Word) := by
  rw [add, if_neg (by omega)]

theorem sub_eq {op : Arith} {a b : Word} (h : b.toNat ≤ a.toNat) :
    sub op a b = (pure (a - b) : Loader Word) := by
  rw [sub, if_neg (by rw [BitVec.lt_def]; omega)]

theorem passes_add {op : Arith} {a b : Word} (h : a.toNat + b.toNat < 2 ^ 32) :
    Passes dst p (add op a b) (fun v => v.toNat = a.toNat + b.toNat) := by
  rw [add_eq h]
  exact Passes.pure (by rw [BitVec.toNat_add, Nat.mod_eq_of_lt h])

theorem passes_sub {op : Arith} {a b : Word} (h : b.toNat ≤ a.toNat) :
    Passes dst p (sub op a b) (fun v => v.toNat = a.toNat - b.toNat) := by
  rw [sub_eq h]
  exact Passes.pure (BitVec.toNat_sub_of_le h)

end Triples

/-! ## The header -/

theorem loadAddr_toNat : loadAddr.toNat = 0x80000000 := rfl

theorem loadLimit_toNat : loadLimit.toNat = 0x87000000 := rfl

theorem headerSize_toNat : headerSize.toNat = 12 := rfl

theorem passes_parseHeader (header : Nat → Byte) :
    Passes dst p (bootImageParseHeader header dst) (fun r => ∀ s, r = .ok s →
      Fits dst s.text s.data ∧ s.payload.toNat = s.text.toNat + s.data.toNat) := by
  unfold bootImageParseHeader
  split
  · exact Passes.pure (by simp)
  · split
    · exact Passes.pure (by simp)
    · rename_i hmagic hdst
      simp only [not_or, BitVec.le_def, BitVec.lt_def] at hdst
      refine (passes_sub (by omega)).bind fun available hav => ?_
      split
      · exact Passes.pure (by simp)
      · rename_i htext
        rw [BitVec.not_lt, BitVec.le_def] at htext
        refine (passes_sub htext).bind fun rest hrest => ?_
        split
        · exact Passes.pure (by simp)
        · rename_i hdata
          rw [BitVec.not_lt, BitVec.le_def] at hdata
          have hbelow : dst.toNat + ((rd32 header 4).toNat + (rd32 header 8).toNat) ≤
              loadLimit.toNat := by omega
          refine (passes_add (by rw [loadLimit_toNat] at hbelow; omega)).bind
            fun payload hpay => Passes.pure ?_
          intro s hs
          obtain rfl := Except.ok.inj hs
          exact ⟨⟨by omega, hbelow⟩, hpay⟩

theorem passes_validateFileSize (fileSize text data : Word) :
    Passes dst p (bootImageValidateFileSize fileSize text data) (fun r => ∀ u, r = .ok u →
      fileSize.toNat = 12 + (text.toNat + data.toNat)) := by
  unfold bootImageValidateFileSize
  split
  · exact Passes.pure (by simp)
  · rename_i hsize
    rw [BitVec.not_lt, BitVec.le_def] at hsize
    refine (passes_sub hsize).bind fun payloadSize hpay => ?_
    split
    · exact Passes.pure (by simp)
    · rename_i htext
      rw [BitVec.not_lt, BitVec.le_def] at htext
      refine (passes_sub htext).bind fun rest hrest => Passes.pure ?_
      intro u hu
      split at hu
      · rename_i hdata
        rw [headerSize_toNat] at hpay hsize
        rw [hdata]
        omega
      · cases hu

/-! ## The UART -/

theorem getcClears_harmless (q : Poll) : ∀ e ∈ getcClears q, e.harmless := by
  unfold getcClears
  repeat' split
  all_goals simp [Event.harmless]

theorem getcRounds_harmless {start ticks : Word} {polls rest : List Poll} {clears : List Event}
    {r : Except XmodemError Byte} (h : getcRounds start ticks polls = some (r, clears, rest)) :
    ∀ e ∈ clears, e.harmless := by
  induction polls with
  | nil => cases h
  | cons q polls ih =>
      unfold getcRounds at h
      split at h
      · cases h
        exact getcClears_harmless q
      · exact ih h

theorem Confining.append (h : Confining dst p t) {es : List Event}
    (hes : ∀ e ∈ es, e.harmless) : Confining dst p (t ++ es) := by
  induction es generalizing t with
  | nil => simpa using h
  | cons e es ih =>
      have he := h.harmless (hes e (by simp))
      simpa using ih he fun e' he' => hes e' (List.mem_cons_of_mem _ he')

theorem passes_getcTimeout (ticks : Word) :
    Passes dst p (getcTimeout ticks) (fun _ => True) := by
  refine Meets.get_bind fun w hw => ?_
  split
  · rename_i r clears rest heq
    exact ⟨trivial, hw.append (getcRounds_harmless heq)⟩
  · exact hw.kept

theorem passes_receiveByte (v : Nat × (Nat → Byte)) :
    Passes dst p (receiveByte v) (fun _ => True) := by
  unfold receiveByte
  split
  · exact Passes.pure trivial
  · refine (passes_getcTimeout _).bind fun r _ => ?_
    split <;> exact Passes.pure trivial

theorem passes_receiveBlock (fuel : Nat) :
    Passes dst p (receiveBlock fuel) (fun _ => True) := by
  unfold receiveBlock
  refine (passes_getcTimeout _).bind fun block _ => (passes_getcTimeout _).bind fun inverse _ => ?_
  split
  · exact Passes.pure trivial
  · exact Passes.pure trivial
  · refine (Passes.loop (I := fun _ => True) (Q := fun _ => True)
      (fun v _ => (passes_receiveByte v).mono fun r _ => by cases r <;> trivial) fuel
      trivial).bind fun r _ => ?_
    split
    · exact Passes.pure trivial
    · refine (passes_getcTimeout _).bind fun crcHi _ => (passes_getcTimeout _).bind fun crcLo _ => ?_
      split
      · exact Passes.pure trivial
      · exact Passes.pure trivial
      · split
        · exact Passes.pure trivial
        · dsimp only
          split <;> exact Passes.pure trivial

/-! ## Storing a block -/

/-- The transfer knows the header that was accepted. -/
def Transfer.Knows (dst : Word) : Option (Word × Word) → Transfer → Prop
  | none, t => t.headerReady = false
  | some (text, data), t => t.headerReady = true ∧
      t.imageSize.toNat = 12 + (text.toNat + data.toNat) ∧ Fits dst text data

theorem Transfer.Knows.move {tr : Transfer} {offset : Word} (h : tr.Knows dst p) :
    Transfer.Knows dst p { tr with streamOffset := offset } := by
  cases p <;> exact h

/-- In front of byte `i` of the block at `offset`. The header is complete within the first block,
and a block is only stored while the image is not. -/
structure Storing (dst offset : Word) (i : Nat) (p : Option (Word × Word)) (tr : Transfer) :
    Prop where
  start : tr.streamOffset = offset
  knows : tr.Knows dst p
  before : p = none → offset = 0#32 ∧ i < 12
  behind : ∀ text data, p = some (text, data) → 12 ≤ offset.toNat + i ∧
    offset.toNat < 12 + (text.toNat + data.toNat)

/-- After a step that can fail: `I` of what it returns, and nothing is out of place if it has
failed. -/
def Ends (dst : Word) {ε α : Type} (I : α → World → Prop) : Except ε α → World → Prop
  | .ok a, w => I a w
  | .error _, w => Kept dst w

theorem fits_bound {text data : Word} (h : Fits dst text data) :
    text.toNat + data.toNat ≤ 0x07000000 := by
  obtain ⟨h1, h2⟩ := h
  rw [loadAddr_toNat] at h1
  rw [loadLimit_toNat] at h2
  omega

theorem Storing.bound {offset : Word} {i : Nat} {tr : Transfer} (h : Storing dst offset i p tr) :
    offset.toNat < 0x0700000C := by
  cases hp : p with
  | none =>
      rw [(h.before hp).1]
      decide
  | some s =>
      have h1 := (h.behind s.1 s.2 hp).2
      have hk := h.knows
      rw [hp] at hk
      have h2 := fits_bound hk.2.2
      omega

theorem meets_storeByte {offset : Word} {i : Nat} {tr : Transfer} (data : Nat → Byte)
    (h : Storing dst offset i p tr) (hi : i < 128) :
    Meets (Traced dst p) (storeByte dst offset data i tr)
      (Ends dst fun tr' w => ∃ p', Storing dst offset (i + 1) p' tr' ∧ Traced dst p' w)
      (Kept dst) := by
  have hoff := h.bound
  have hi32 : (BitVec.ofNat 32 i).toNat = i := by
    rw [BitVec.toNat_ofNat]
    omega
  unfold storeByte
  refine (passes_add (by omega)).meets fun imageOffset himg => ?_
  rw [hi32] at himg
  cases hp : p with
  | none =>
      -- a byte of the header
      subst hp
      obtain ⟨hzero, hlt⟩ := h.before rfl
      rw [hzero] at himg
      have hhdr : imageOffset < headerSize := by
        rw [BitVec.lt_def, headerSize_toNat, himg]
        simpa using hlt
      rw [if_pos hhdr]
      refine (passes_add (by rw [himg]; simp; omega)).meets fun headerEnd hend => ?_
      split
      · rename_i hlast
        refine (passes_parseHeader _).meets fun r hr => ?_
        split
        · exact Meets.pure fun w hw => hw.kept
        · rename_i sizes
          obtain ⟨hfits, hpay⟩ := hr sizes rfl
          have hbound := fits_bound hfits
          refine (passes_add (by rw [headerSize_toNat]; omega)).meets fun imageSize hsize => ?_
          refine Meets.bind (Q := fun _ => Traced dst (some (sizes.text, sizes.data)))
            (emit_meets fun w hw => hw.accepted hfits) fun _ => Meets.pure fun w hw => ?_
          refine ⟨some (sizes.text, sizes.data), ⟨h.start, ⟨rfl, ?_, hfits⟩, ?_, ?_⟩, hw⟩
          · show imageSize.toNat = _
            rw [hsize, headerSize_toNat, hpay]
          · intro hnone
            cases hnone
          · rintro _ _ ⟨⟩
            have hlast := congrArg BitVec.toNat hlast
            rw [hend, himg, headerSize_toNat] at hlast
            rw [hzero]
            simp at hlast ⊢
            omega
      · rename_i hne
        refine Meets.pure fun w hw => ⟨none, ⟨h.start, h.knows, fun _ => ⟨hzero, ?_⟩, ?_⟩, hw⟩
        · have hlast : i + 1 ≠ 12 := by
            intro hi12
            apply hne
            apply BitVec.eq_of_toNat_eq
            rw [hend, himg, headerSize_toNat]
            simpa using hi12
          omega
        · rintro _ _ ⟨⟩
  | some sizes =>
      obtain ⟨text, len⟩ := sizes
      subst hp
      obtain ⟨hge, hlt⟩ := h.behind text len rfl
      obtain ⟨hready, hsize, hfits⟩ := h.knows
      have hbound := fits_bound hfits
      have hdst := hfits.below
      rw [loadLimit_toNat] at hdst
      have hnext : Storing dst offset (i + 1) (some (text, len)) tr :=
        ⟨h.start, h.knows, (by intro hnone; cases hnone),
          (by rintro _ _ ⟨⟩; exact ⟨by omega, hlt⟩)⟩
      rw [if_neg (by rw [BitVec.lt_def, headerSize_toNat]; omega)]
      split
      · -- a byte of the payload
        rename_i hin
        simp only [hready, Bool.true_and, decide_eq_true_eq, BitVec.lt_def] at hin
        refine (passes_add (by omega)).meets fun addr haddr => ?_
        refine (passes_sub (by rw [headerSize_toNat]; omega)).meets fun out hout => ?_
        rw [headerSize_toNat] at hout
        refine Meets.bind (Q := fun _ => Traced dst (some (text, len)))
          (emit_meets fun w hw => hw.store (by omega) (by omega)) fun _ => Meets.pure fun w hw => ?_
        exact ⟨_, hnext, hw⟩
      · split
        · -- padding
          refine (passes_add ?_).meets fun paddingEnd _ => ?_
          · show tr.imageSize.toNat + 128 < _
            omega
          · split
            · exact Meets.pure fun w hw => hw.kept
            · exact Meets.pure fun w hw => ⟨_, hnext, hw⟩
        · exact Meets.pure fun w hw => ⟨_, hnext, hw⟩

/-- Between two blocks. -/
structure Receiving (dst : Word) (p : Option (Word × Word)) (tr : Transfer) : Prop where
  knows : tr.Knows dst p
  before : p = none → tr.streamOffset = 0#32
  behind : ∀ text data, p = some (text, data) → 128 ≤ tr.streamOffset.toNat ∧
    tr.streamOffset.toNat < 140 + (text.toNat + data.toNat)

theorem meets_storeBlock {tr : Transfer} (fuel : Nat) (data : Nat → Byte)
    (h : Receiving dst p tr) :
    Meets (Traced dst p) (storeBlock fuel data dst tr)
      (Ends dst fun tr' w => ∃ p', Receiving dst p' tr' ∧ Traced dst p' w) (Kept dst) := by
  unfold storeBlock
  dsimp only
  split
  · exact Meets.pure fun w hw => hw.kept
  · rename_i hoff
    have hstart : Storing dst tr.streamOffset 0 p tr := by
      refine ⟨rfl, h.knows, fun hp => ⟨h.before hp, by omega⟩, fun text len hp => ?_⟩
      have hk := h.knows
      rw [hp] at hk
      obtain ⟨hready, hsize, -⟩ := hk
      simp only [hready, Bool.true_and, decide_eq_true_eq, BitVec.not_le, BitVec.lt_def] at hoff
      have hge := (h.behind text len hp).1
      omega
    -- the loop carries the position and the header that has been accepted by then
    have hloop := Meets.loop (e := Stop.fuel) (f := storeRound dst tr.streamOffset data)
      (I := fun v w => v.1 ≤ 128 ∧ ∃ p', Storing dst tr.streamOffset v.1 p' v.2 ∧ Traced dst p' w)
      (Q := Ends dst fun tr' w => ∃ p', Storing dst tr.streamOffset 128 p' tr' ∧ Traced dst p' w)
      (R := Kept dst) (fun v => Meets.pre fun hle => Meets.exists fun p' => Meets.pre fun hv => ?_)
      (fun v w hw => by obtain ⟨-, p', -, hw⟩ := hw; exact hw.kept) fuel (0, tr)
    · refine Meets.bind (hloop.mono (fun w hw => ⟨by omega, p, hstart, hw⟩) (fun _ _ hw => hw)
        (fun _ hw => hw)) fun r => ?_
      split
      · exact Meets.pure fun w hw => hw
      · refine Meets.exists fun p' => Meets.pre fun hend => ?_
        have hb := hend.bound
        refine (passes_add ?_).meets fun streamOffset hso => Meets.pure fun w hw => ?_
        · show tr.streamOffset.toNat + 128 < _
          omega
        · refine ⟨p', ⟨hend.knows.move, fun hp => ?_, fun text len hp => ?_⟩, hw⟩
          · have hlt := (hend.before hp).2
            omega
          · have hlt := (hend.behind text len hp).2
            have h128 : xmodemBlockSize.toNat = 128 := rfl
            show 128 ≤ streamOffset.toNat ∧ streamOffset.toNat < _
            omega
    · unfold storeRound
      split
      · rename_i hge
        refine Meets.pure fun w hw => ⟨p', ?_, hw⟩
        have hi : v.1 = 128 := by omega
        rw [← hi]
        exact hv
      · refine Meets.bind (meets_storeByte data hv (by omega)) fun r => ?_
        cases r with
        | error e => exact Meets.pure fun w hw => hw
        | ok tr' => exact Meets.pure fun w hw => ⟨by omega, hw⟩

/-! ## The session -/

/-- What a round of the session leaves behind. -/
def Rounded (dst : Word) (r : Round) (w : World) : Prop :=
  Sum.elim (fun s => ∃ p, Receiving dst p s.transfer ∧ Traced dst p w) (fun _ => Kept dst w) r

theorem meets_emit {e : Event} {α : Type} {x : Loader α} {Q : α → World → Prop}
    (he : e.harmless) (hx : Meets (Traced dst p) x Q (Kept dst)) :
    Meets (Traced dst p) (emit e >>= fun _ => x) Q (Kept dst) :=
  (passes_emit he).meets fun _ _ => hx

theorem meets_returned {r : Except XmodemError Word} :
    Meets (Traced dst p) (pure (.inr r) : Loader Round) (Rounded dst) (Kept dst) :=
  Meets.pure fun _ hw => hw.kept

theorem meets_cancel {r : Except XmodemError Word} :
    Meets (Traced dst p) (do cancelTransfer; pure (.inr r) : Loader Round) (Rounded dst)
      (Kept dst) := by
  have hcancel : Passes dst p cancelTransfer (fun _ => True) :=
    (passes_emit (e := .putc xmodemCan) trivial).bind fun _ _ => passes_emit trivial
  exact hcancel.meets fun _ _ => meets_returned

theorem meets_continue {s : Session} (h : Receiving dst p s.transfer) :
    Meets (Traced dst p) (pure (.inl s) : Loader Round) (Rounded dst) (Kept dst) :=
  Meets.pure fun _ hw => ⟨p, h, hw⟩

theorem meets_retry {s : Session} (giveUp : XmodemError) (nak : Bool)
    (h : Receiving dst p s.transfer) :
    Meets (Traced dst p) (retry giveUp nak s) (Rounded dst) (Kept dst) := by
  unfold retry
  dsimp only
  split
  · exact meets_cancel
  · split
    · exact meets_emit trivial (meets_continue h)
    · exact meets_continue h

theorem meets_xmodemBlock {s : Session} (fuel : Nat) (h : Receiving dst p s.transfer) :
    Meets (Traced dst p) (xmodemBlock fuel dst s) (Rounded dst) (Kept dst) := by
  unfold xmodemBlock
  refine (passes_receiveBlock fuel).meets fun r _ => ?_
  split
  · exact meets_retry _ _ h
  · split
    · exact meets_emit trivial (meets_continue h)
    · split
      · exact meets_retry _ _ h
      · refine Meets.bind (meets_storeBlock fuel _ h) fun r => ?_
        cases r with
        | error e =>
            exact Meets.exists fun p' => meets_cancel
        | ok tr =>
            refine Meets.exists fun p' => Meets.pre fun hr => ?_
            exact meets_emit trivial (meets_continue hr)

theorem meets_xmodemEnd {tr : Transfer} (h : Receiving dst p tr) :
    Meets (Traced dst p) (xmodemEnd tr) (Rounded dst) (Kept dst) := by
  unfold xmodemEnd
  split
  · exact meets_cancel
  · rename_i hready
    have hsize : headerSize.toNat ≤ tr.imageSize.toNat := by
      have hk := h.knows
      cases hp : p with
      | none =>
          rw [hp] at hk
          have hk : tr.headerReady = false := hk
          simp [hk] at hready
      | some sizes =>
          rw [hp] at hk
          rw [hk.2.1, headerSize_toNat]
          omega
    exact meets_emit trivial ((passes_sub hsize).meets fun _ _ => meets_returned)

theorem meets_xmodemControl {s : Session} (fuel : Nat) (h : Receiving dst p s.transfer) :
    Meets (Traced dst p) (xmodemControl fuel dst s) (Rounded dst) (Kept dst) := by
  unfold xmodemControl
  refine (passes_getcTimeout _).meets fun r _ => ?_
  split
  · split
    · exact meets_cancel
    · exact meets_continue h
  · exact meets_retry _ _ h
  · split
    · refine (passes_getcTimeout _).meets fun r _ => ?_
      split
      · split
        · exact meets_returned
        · exact meets_continue h
      · exact meets_continue h
    · split
      · exact meets_xmodemEnd h
      · split
        · exact meets_retry _ _ h
        · exact meets_xmodemBlock fuel h

theorem meets_xmodemRound {s : Session} (fuel : Nat) (h : Receiving dst p s.transfer) :
    Meets (Traced dst p) (xmodemRound fuel dst s) (Rounded dst) (Kept dst) := by
  unfold xmodemRound
  split
  · exact meets_emit trivial (meets_xmodemControl fuel h)
  · exact meets_xmodemControl fuel h

theorem receiving_start : Receiving dst none Session.start.transfer where
  knows := rfl
  before := fun _ => rfl
  behind := by rintro _ _ ⟨⟩

theorem meets_xmodemLoad (fuel : Nat) (sizeOut : Bool) :
    Meets (Traced dst none) (xmodemLoadBootImage fuel dst sizeOut) (fun _ => Kept dst)
      (Kept dst) := by
  unfold xmodemLoadBootImage
  split
  · exact Meets.pure fun _ hw => hw.kept
  · refine meets_emit trivial ?_
    have hloop := Meets.loop (e := Stop.fuel) (f := xmodemRound fuel dst)
      (I := fun s w => ∃ p, Receiving dst p s.transfer ∧ Traced dst p w)
      (Q := fun _ => Kept dst) (R := Kept dst)
      (fun s => Meets.exists fun p => Meets.pre fun h => meets_xmodemRound fuel h)
      (fun s w hw => by obtain ⟨p, -, hw⟩ := hw; exact hw.kept) fuel Session.start
    exact hloop.mono (fun w hw => ⟨none, receiving_start, hw⟩) (fun _ _ hw => hw) (fun _ hw => hw)

/-! ## The volume -/

theorem passes_readBlock (lba : Word) : Passes dst p (sdcardReadBlock lba) (fun _ => True) := by
  unfold sdcardReadBlock
  refine (passes_emit (e := .readBlock lba) trivial).bind fun _ _ => ?_
  refine Meets.get_bind fun w hw => ?_
  split
  · exact hw.kept
  · exact ⟨trivial, hw⟩

theorem passes_nextCluster (vol : Volume) (cluster : Word) :
    Passes dst p (nextCluster vol cluster) (fun _ => True) := by
  unfold nextCluster
  refine (passes_readBlock _).bind fun r _ => ?_
  split <;> exact Passes.pure trivial

theorem passes_openVolume : Passes dst p openVolume (fun _ => True) := by
  unfold openVolume
  refine (passes_readBlock _).bind fun r _ => ?_
  split
  · exact Passes.pure trivial
  · refine (passes_readBlock _).bind fun r _ => ?_
    split
    · exact Passes.pure trivial
    · split <;> exact Passes.pure trivial

theorem passes_searchSector (vol : Volume) (first : Word) (v : Nat × Search) :
    Passes dst p (searchSector vol first v) (fun _ => True) := by
  unfold searchSector
  split
  · exact Passes.pure trivial
  · refine (passes_readBlock _).bind fun r _ => ?_
    split <;> exact Passes.pure trivial

/-- A loop that writes nothing writes nothing. -/
theorem Passes.loop_trivial {α β : Type} {body : β → Loader (β ⊕ α)}
    (hbody : ∀ b, Passes dst p (body b) (fun _ => True)) (n : Nat) (b : β) :
    Passes dst p (Prog.loop .fuel body n b) (fun _ => True) :=
  Passes.loop (I := fun _ => True)
    (fun b _ => (hbody b).mono fun r _ => by cases r <;> trivial) n trivial

theorem passes_searchCluster (fuel : Nat) (vol : Volume) (v : Search) :
    Passes dst p (searchCluster fuel vol v) (fun _ => True) := by
  unfold searchCluster
  split
  · exact Passes.pure trivial
  · refine (Passes.loop_trivial (passes_searchSector vol _) fuel _).bind fun r _ => ?_
    split
    · exact Passes.pure trivial
    · split
      · exact Passes.pure trivial
      · refine (passes_nextCluster _ _).bind fun r _ => ?_
        split <;> exact Passes.pure trivial

/-! ## Copying the payload -/

section Copy

variable {text data : Word}

theorem passes_store {addr : Word} {byte : Byte} (above : dst.toNat ≤ addr.toNat)
    (below : addr.toNat < dst.toNat + (text.toNat + data.toNat)) :
    Passes dst (some (text, data)) (emit (.store addr byte)) (fun _ => True) :=
  emit_meets fun _ hw => ⟨trivial, hw.store above below⟩

/-- The destination and the count in the loops of `copy_payload`, on the way to `stop`. -/
def Ahead (dst : Word) (stop : Nat) (v : Word × Nat × Word) : Prop :=
  dst.toNat ≤ v.1.toNat ∧ v.1.toNat + v.2.2.toNat = stop

theorem passes_copyWord {src : Nat → Byte} {stop : Nat} {v : Word × Nat × Word}
    (hfits : Fits dst text data) (hstop : stop ≤ dst.toNat + (text.toNat + data.toNat))
    (h : Ahead dst stop v) :
    Passes dst (some (text, data)) (copyWord src v)
      (fun r => Sum.elim (Ahead dst stop) (Ahead dst stop) r) := by
  obtain ⟨d, i, count⟩ := v
  obtain ⟨habove, hsum⟩ := h
  simp only at habove hsum
  have hlimit := hfits.below
  rw [loadLimit_toNat] at hlimit
  unfold copyWord
  dsimp only
  split
  · exact Passes.pure ⟨habove, hsum⟩
  · rename_i hcount
    rw [BitVec.not_lt, BitVec.le_def] at hcount
    have hcount : 4 ≤ count.toNat := hcount
    have haddr : ∀ k, k < 4 → (d + BitVec.ofNat 32 k).toNat = d.toNat + k := by
      intro k hk
      rw [BitVec.toNat_add, BitVec.toNat_ofNat]
      omega
    have h1 := haddr 1 (by omega)
    have h2 := haddr 2 (by omega)
    have h3 := haddr 3 (by omega)
    refine (passes_store (by omega) (by omega)).bind fun _ _ => ?_
    refine (passes_store (by omega) (by omega)).bind fun _ _ => ?_
    refine (passes_store (by omega) (by omega)).bind fun _ _ => ?_
    refine (passes_store (by omega) (by omega)).bind fun _ _ => ?_
    have h4 : (4#32 : Word).toNat = 4 := rfl
    refine (passes_add (by omega)).bind fun d' hd => ?_
    refine (passes_sub (by omega)).bind fun count' hc => ?_
    refine Passes.pure ⟨?_, ?_⟩
    · show dst.toNat ≤ d'.toNat
      omega
    · show d'.toNat + count'.toNat = stop
      omega

theorem passes_copyByte {src : Nat → Byte} {stop : Nat} {v : Word × Nat × Word}
    (hfits : Fits dst text data) (hstop : stop ≤ dst.toNat + (text.toNat + data.toNat))
    (h : Ahead dst stop v) :
    Passes dst (some (text, data)) (copyByte src v)
      (fun r => Sum.elim (Ahead dst stop) (fun d => d.toNat = stop) r) := by
  obtain ⟨d, i, count⟩ := v
  obtain ⟨habove, hsum⟩ := h
  simp only at habove hsum
  have hlimit := hfits.below
  rw [loadLimit_toNat] at hlimit
  unfold copyByte
  dsimp only
  -- the test of the loop is the one subtraction that may wrap
  have htest : Passes dst (some (text, data)) (sub .countTest count 1#32)
      (fun left => left = count - 1#32) := by
    unfold sub
    split
    · exact (passes_emit (e := .wrapped .countTest) rfl).bind fun _ _ => Passes.pure rfl
    · exact Passes.pure rfl
  refine htest.bind fun left hleft => ?_
  split
  · rename_i hzero
    refine Passes.pure ?_
    rw [hzero] at hsum
    exact hsum
  · rename_i hne
    have hpos : 1 ≤ count.toNat := by
      rcases Nat.eq_zero_or_pos count.toNat with h0 | hpos
      · exact absurd (BitVec.eq_of_toNat_eq h0) hne
      · exact hpos
    have hl : left.toNat = count.toNat - 1 := by
      rw [hleft]
      exact BitVec.toNat_sub_of_le hpos
    refine (passes_store (by omega) (by omega)).bind fun _ _ => ?_
    have h1 : (1#32 : Word).toNat = 1 := rfl
    refine (passes_add (by omega)).bind fun d' hd => Passes.pure ⟨?_, ?_⟩
    · show dst.toNat ≤ d'.toNat
      omega
    · show d'.toNat + left.toNat = stop
      omega

theorem passes_copyPayload {d count : Word} (fuel : Nat) (src : Nat → Byte)
    (hfits : Fits dst text data) (habove : dst.toNat ≤ d.toNat)
    (hbelow : d.toNat + count.toNat ≤ dst.toNat + (text.toNat + data.toNat)) :
    Passes dst (some (text, data)) (copyPayload fuel d src count)
      (fun d' => d'.toNat = d.toNat + count.toNat) := by
  unfold copyPayload
  refine (Passes.loop (I := Ahead dst (d.toNat + count.toNat))
    (fun v hv => passes_copyWord hfits hbelow hv) fuel ⟨habove, rfl⟩).bind fun v hv => ?_
  exact Passes.loop (fun v hv => passes_copyByte hfits hbelow hv) fuel hv

/-- The variables of the payload loop when `done` bytes of the file have been dealt with, the
header included. -/
structure Filling (dst fileSize text data : Word) (done : Nat) (c : Copying) : Prop where
  fits : Fits dst text data
  size : fileSize.toNat = 12 + (text.toNat + data.toNat)
  text : c.textSize = text
  data : c.dataSize = data
  header : 12 ≤ done
  left : c.fileOff.toNat + c.remaining.toNat = fileSize.toNat
  out : c.payloadOut.toNat + 12 = dst.toNat + done

theorem passes_copySector {fileSize : Word} {c : Copying} (fuel : Nat) (sector : Sector)
    (payloadOff : Word)
    (h : Filling dst fileSize text data (c.fileOff.toNat + payloadOff.toNat) c)
    (hoff : payloadOff.toNat ≤ 12 ∧ payloadOff.toNat ≤ c.remaining.toNat) :
    Passes dst (some (text, data)) (copySector fuel sector payloadOff c)
      (fun c' => Filling dst fileSize text data c'.fileOff.toNat c') := by
  obtain ⟨hfits, hsize, htext, hdata, hheader, hleft, hout⟩ := h
  have hbound := fits_bound hfits
  unfold copySector
  dsimp only
  generalize hn : (if c.remaining < 512#32 then c.remaining else 512#32) = n
  have hle : n.toNat ≤ c.remaining.toNat ∧ payloadOff.toNat ≤ n.toNat := by
    rw [← hn]
    split
    · exact ⟨Nat.le_refl _, hoff.2⟩
    · rename_i hge
      rw [BitVec.not_lt, BitVec.le_def] at hge
      exact ⟨hge, by have h512 : (512#32 : Word).toNat = 512 := rfl; omega⟩
  refine (passes_sub hle.2).bind fun count hcount => ?_
  refine (passes_copyPayload fuel _ hfits (by omega) (by omega)).bind fun out hnew => ?_
  refine (passes_add (by omega)).bind fun fileOff hfile => ?_
  refine (passes_sub hle.1).bind fun remaining hrem => Passes.pure ?_
  refine ⟨hfits, hsize, htext, hdata, ?_, ?_, ?_⟩
  · show 12 ≤ fileOff.toNat
    omega
  · show fileOff.toNat + remaining.toNat = _
    omega
  · show out.toNat + 12 = dst.toNat + fileOff.toNat
    omega

end Copy

/-! ## The file -/

/-- The payload loop at its head, for a file of a size that can hold a header. -/
inductive Loading (dst fileSize : Word) : Option (Word × Word) → Copying → Prop
  | before {c : Copying} (off : c.fileOff = 0#32) (left : c.remaining = fileSize)
      (out : c.payloadOut = dst) (text : c.textSize = 0#32) (data : c.dataSize = 0#32) :
      Loading dst fileSize none c
  | behind {text data : Word} {c : Copying}
      (filling : Filling dst fileSize text data c.fileOff.toNat c) :
      Loading dst fileSize (some (text, data)) c

theorem meets_checkHeader (fileSize : Word) (sector : Sector) :
    Meets (Traced dst none) (checkHeader dst fileSize sector)
      (Ends dst fun s w => (Fits dst s.text s.data ∧
        fileSize.toNat = 12 + (s.text.toNat + s.data.toNat)) ∧
          Traced dst (some (s.text, s.data)) w) (Kept dst) := by
  unfold checkHeader
  dsimp only
  refine (passes_parseHeader _).meets fun r hr => ?_
  split
  · exact Meets.pure fun _ hw => hw.kept
  · rename_i sizes
    obtain ⟨hfits, -⟩ := hr sizes rfl
    refine (passes_validateFileSize _ _ _).meets fun r hr => ?_
    split
    · exact Meets.pure fun _ hw => hw.kept
    · refine Meets.bind (Q := fun _ => Traced dst (some (sizes.text, sizes.data)))
        (emit_meets fun w hw => hw.accepted hfits) fun _ => Meets.pure fun w hw => ?_
      exact ⟨⟨hfits, hr _ rfl⟩, hw⟩

/-- What a step of the payload loop leaves behind, as long as it goes on. -/
def Loaded (dst fileSize : Word) (c : Copying) (w : World) : Prop :=
  ∃ p, Loading dst fileSize p c ∧ Traced dst p w

theorem Loaded.kept {fileSize : Word} {c : Copying} {w : World} (h : Loaded dst fileSize c w) :
    Kept dst w := by
  obtain ⟨p, -, hw⟩ := h
  exact hw.kept

theorem meets_loadSector {fileSize first : Word} {v : Nat × Copying} (fuel : Nat)
    (vol : Volume) (hsize : 12 ≤ fileSize.toNat) (h : Loading dst fileSize p v.2) :
    Meets (Traced dst p) (loadSector fuel vol dst fileSize first v)
      (fun r w => Sum.elim (fun v => Loaded dst fileSize v.2 w)
        (fun e => Ends dst (Loaded dst fileSize) e w) r) (Kept dst) := by
  obtain ⟨s, c⟩ := v
  unfold loadSector
  dsimp only
  split
  · exact Meets.pure fun w hw => ⟨p, h, hw⟩
  · refine (passes_readBlock _).meets fun r _ => ?_
    split
    · exact Meets.pure fun w hw => hw.kept
    · rename_i sector
      cases h with
      | before off left out text data =>
          rw [if_pos off]
          refine Meets.bind (meets_checkHeader fileSize sector) fun r => ?_
          cases r with
          | error e => exact Meets.pure fun w hw => hw
          | ok sizes =>
              refine Meets.pre fun hs => ?_
              refine (passes_copySector fuel sector headerSize ?_ ?_).meets
                fun c' hc' => Meets.pure fun w hw => ⟨_, .behind hc', hw⟩
              · refine ⟨hs.1, hs.2, rfl, rfl, ?_, ?_, ?_⟩
                · rw [headerSize_toNat]
                  omega
                · show c.fileOff.toNat + c.remaining.toNat = _
                  rw [off, left]
                  simp
                · show c.payloadOut.toNat + 12 = dst.toNat + (c.fileOff.toNat + headerSize.toNat)
                  rw [off, out, headerSize_toNat]
                  simp
              · rw [headerSize_toNat]
                refine ⟨Nat.le_refl _, ?_⟩
                show 12 ≤ c.remaining.toNat
                rw [left]
                exact hsize
      | behind filling =>
          have hne : ¬ c.fileOff = 0#32 := by
            intro h0
            have h12 := filling.header
            rw [h0] at h12
            exact absurd h12 (by decide)
          rw [if_neg hne]
          refine (passes_copySector fuel sector 0#32 ?_ ?_).meets
            fun c' hc' => Meets.pure fun w hw => ⟨_, .behind hc', hw⟩
          · exact filling
          · exact ⟨by decide, by simp⟩

theorem Loading.move {fileSize cluster : Word} {c : Copying} (h : Loading dst fileSize p c) :
    Loading dst fileSize p { c with cluster := cluster } := by
  cases h with
  | before off left out text data => exact .before off left out text data
  | behind filling =>
      obtain ⟨h1, h2, h3, h4, h5, h6, h7⟩ := filling
      exact .behind ⟨h1, h2, h3, h4, h5, h6, h7⟩

theorem meets_loadCluster {fileSize : Word} {c : Copying} (fuel : Nat) (vol : Volume)
    (hsize : 12 ≤ fileSize.toNat) (h : Loading dst fileSize p c) :
    Meets (Traced dst p) (loadCluster fuel vol dst fileSize c)
      (fun r w => Sum.elim (fun c => Loaded dst fileSize c w)
        (fun e => Ends dst (Loaded dst fileSize) e w) r) (Kept dst) := by
  unfold loadCluster
  split
  · exact Meets.pure fun w hw => ⟨p, h, hw⟩
  · have hloop := Meets.loop (e := Stop.fuel)
      (f := loadSector fuel vol dst fileSize (vol.first c.cluster))
      (I := fun v w => Loaded dst fileSize v.2 w)
      (Q := Ends dst (Loaded dst fileSize)) (R := Kept dst)
      (fun v => Meets.exists fun p => Meets.pre fun hv => meets_loadSector fuel vol hsize hv)
      (fun _ _ hw => hw.kept) fuel (0, c)
    refine Meets.bind (hloop.mono (fun w hw => ⟨p, h, hw⟩) (fun _ _ hw => hw) (fun _ hw => hw))
      fun r => ?_
    cases r with
    | error e => exact Meets.pure fun w hw => hw
    | ok c' =>
        refine Meets.exists fun p' => Meets.pre fun hc' => ?_
        dsimp only
        split
        · exact Meets.pure fun w hw => ⟨p', hc', hw⟩
        · refine (passes_nextCluster _ _).meets fun r _ => ?_
          split
          · exact Meets.pure fun w hw => hw.kept
          · exact Meets.pure fun w hw => ⟨p', hc'.move, hw⟩

theorem meets_loadFile {fileCluster fileSize : Word} (fuel : Nat) (vol : Volume) :
    Meets (Traced dst none) (loadFile fuel vol dst fileCluster fileSize) (fun _ => Kept dst)
      (Kept dst) := by
  unfold loadFile
  split
  · exact Meets.pure fun _ hw => hw.kept
  · rename_i hsize
    rw [BitVec.not_lt, BitVec.le_def, headerSize_toNat] at hsize
    have hloop := Meets.loop (e := Stop.fuel) (f := loadCluster fuel vol dst fileSize)
      (I := fun c w => Loaded dst fileSize c w)
      (Q := Ends dst (Loaded dst fileSize)) (R := Kept dst)
      (fun c => Meets.exists fun p => Meets.pre fun hc => meets_loadCluster fuel vol hsize hc)
      (fun _ _ hw => hw.kept) fuel
    refine Meets.bind ((hloop _).mono
      (fun w hw => ⟨none, .before rfl rfl rfl rfl rfl, hw⟩) (fun _ _ hw => hw) (fun _ hw => hw))
      fun r => ?_
    cases r with
    | error e => exact Meets.pure fun w hw => hw
    | ok c =>
        refine Meets.exists fun p' => Meets.pre fun hc => ?_
        have hsum : c.textSize.toNat + c.dataSize.toNat < 2 ^ 32 := by
          cases hc with
          | before off left out text data =>
              rw [text, data]
              decide
          | behind filling =>
              have hbound := fits_bound filling.fits
              rw [filling.text, filling.data]
              omega
        exact (passes_add hsum).meets fun _ _ => Meets.pure fun _ hw => hw.kept

theorem meets_fatbootLoad (fuel : Nat) :
    Meets (Traced dst none) (fatbootLoad fuel dst) (fun _ => Kept dst) (Kept dst) := by
  unfold fatbootLoad
  refine passes_openVolume.meets fun r _ => ?_
  split
  · exact Meets.pure fun _ hw => hw.kept
  · dsimp only
    refine (Passes.loop_trivial (passes_searchCluster fuel _) fuel _).meets fun r _ => ?_
    split
    · exact Meets.pure fun _ hw => hw.kept
    · split
      · exact Meets.pure fun _ hw => hw.kept
      · exact meets_loadFile fuel _

/-! ## Runs -/

/-- What a loader does when it reads `uart` and `sd`, up to the end of either or of the fuel. -/
def traceOf {α : Type} (x : Loader α) (uart : List Poll) (sd : List (Option Sector)) :
    List Event :=
  (x.run.run { uart := uart, sd := sd, trace := [] }).2.trace

theorem confined_of_meets {α : Type} {x : Loader α}
    (h : Meets (Traced dst none) x (fun _ => Kept dst) (Kept dst)) (uart : List Poll)
    (sd : List (Option Sector)) : Confined (· = .countTest) dst (traceOf x uart sd) := by
  have hrun := h { uart := uart, sd := sd, trace := [] } Confining.nil
  have hkept : Kept dst (x.run.run { uart := uart, sd := sd, trace := [] }).2 := by
    generalize x.run.run { uart := uart, sd := sd, trace := [] } = r at hrun
    obtain ⟨r, w⟩ := r
    cases r <;> exact hrun
  obtain ⟨p, hp⟩ := hkept
  exact hp.confined

/-- **The boot loaders.** Whatever they read, both loaders write the payload of an image that they
have accepted, inside the boot region, and nothing wraps on the way but the counter of
`copy_payload` when its loop tests it for the last time. -/
theorem loaders_confined (fuel : Nat) (dst : Word) (uart : List Poll)
    (sd : List (Option Sector)) (sizeOut : Bool) :
    Confined (· = .countTest) dst (traceOf (xmodemLoadBootImage fuel dst sizeOut) uart sd) ∧
      Confined (· = .countTest) dst (traceOf (fatbootLoad fuel dst) uart sd) :=
  ⟨confined_of_meets (meets_xmodemLoad fuel sizeOut) uart sd,
    confined_of_meets (meets_fatbootLoad fuel) uart sd⟩

/-- A card whose BOOT.BIN is a header without a payload: the boot sector, which is read twice, the
root directory and the file. -/
def emptyImage : List (Option Sector) :=
  let boot : Sector := fun i =>
    match i with
    | 12 => 2#8
    | 13 | 14 | 16 | 36 => 1#8
    | 44 => 2#8
    | _ => 0#8
  let root : Sector := fun i =>
    ([0x42, 0x4F, 0x4F, 0x54, 0x20, 0x20, 0x20, 0x20, 0x42, 0x49, 0x4E] : List Byte).getD i
      (if i = 26 then 3#8 else if i = 28 then 12#8 else 0#8)
  let file : Sector := fun i => ([0x4D, 0x44, 0x44, 0x52] : List Byte).getD i 0#8
  [some boot, some boot, some root, some file]

/-- `while (count--)` takes 1 from 0 even then. -/
theorem count_wraps :
    ¬ ∀ fuel dst uart sd sizeOut,
      Confined (fun _ => False) dst (traceOf (xmodemLoadBootImage fuel dst sizeOut) uart sd) ∧
        Confined (fun _ => False) dst (traceOf (fatbootLoad fuel dst) uart sd) := by
  intro h
  have hexact := (h 20 loadAddr [] emptyImage true).2.exact .countTest
  revert hexact
  decide +kernel

end MelonSoc.Boot
