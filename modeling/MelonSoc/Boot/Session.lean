import MelonSoc.Boot.Receiver

set_option autoImplicit false

/-! # The loader is the receiver

Every run of `xmodem_load_boot_image` goes through the phases of the receiver: it has heard what
the receiver has heard, it has sent what the receiver sends, and it has stored the payload of the
blocks that the receiver has accepted. It stops early only where the receiver is still waiting.
-/

namespace MelonSoc.Boot

open Prog

/-! ## What the loader hears, sends and stores -/

/-- What the calls of `getc_timeout` return one after the other; a call that has begun started its
timer at `start`. -/
def hearFrom : Option Word → List Poll → List Heard
  | _, [] => []
  | start, p :: ps =>
      match getcRound (start.getD p.start) xmodemTimeoutTicks p with
      | some h => h :: hearFrom none ps
      | none => hearFrom (some (start.getD p.start)) ps

/-- Everything that is going to be heard. -/
def hearing (polls : List Poll) : List Heard := hearFrom none polls

/-- The bytes that were sent. -/
def sentBytes (t : List Event) : List Byte :=
  t.filterMap fun e => match e with
    | .putc b => some b
    | _ => none

/-- The bytes that were stored. -/
def storedBytes (t : List Event) : List (Word × Byte) :=
  t.filterMap fun e => match e with
    | .store a b => some (a, b)
    | _ => none

/-- What the loader will hear, what it has sent and what it has stored. -/
structure Listening (heard : List Heard) (sent : List Byte) (stored : List (Word × Byte))
    (w : World) : Prop where
  heard : hearing w.uart = heard
  sent : sentBytes w.trace = sent
  stored : storedBytes w.trace = stored

section Listening

variable {heard : List Heard} {sent : List Byte} {stored : List (Word × Byte)} {R : World → Prop}

theorem getcClears_quiet (q : Poll) :
    sentBytes (getcClears q) = [] ∧ storedBytes (getcClears q) = [] := by
  unfold getcClears
  split
  · exact ⟨rfl, rfl⟩
  · split <;> exact ⟨rfl, rfl⟩

theorem getcRounds_hearFrom (start : Word) (polls : List Poll) :
    match getcRounds start xmodemTimeoutTicks polls with
    | some (h, clears, rest) => hearFrom (some start) polls = h :: hearing rest ∧
        sentBytes clears = [] ∧ storedBytes clears = []
    | none => hearFrom (some start) polls = [] := by
  induction polls with
  | nil => rfl
  | cons p ps ih =>
      rw [getcRounds]
      cases hr : getcRound start xmodemTimeoutTicks p with
      | some h =>
          refine ⟨?_, getcClears_quiet p⟩
          simp [hearFrom, hr, hearing]
      | none =>
          simp only [hearFrom, Option.getD_some, hr]
          exact ih

theorem meets_getc : Meets (Listening heard sent stored) (getcTimeout xmodemTimeoutTicks)
    (fun h w => ∃ rest, heard = h :: rest ∧ Listening rest sent stored w)
    (fun _ => heard = []) := by
  refine Meets.get_bind fun w hw => ?_
  have hr := getcRounds_hearFrom ((w.uart.head?.map Poll.start).getD 0#32) w.uart
  have hstart : hearFrom (some ((w.uart.head?.map Poll.start).getD 0#32)) w.uart = heard := by
    rw [← hw.heard]
    cases hu : w.uart <;> simp [hearing, hearFrom]
  rw [hstart] at hr
  split
  · rename_i h clears rest heq
    rw [heq] at hr
    refine ⟨hearing rest, hr.1, rfl, ?_, ?_⟩
    · show sentBytes (w.trace ++ clears) = sent
      rw [sentBytes, List.filterMap_append, ← sentBytes, ← sentBytes, hr.2.1, List.append_nil,
        hw.sent]
    · show storedBytes (w.trace ++ clears) = stored
      rw [storedBytes, List.filterMap_append, ← storedBytes, ← storedBytes, hr.2.2,
        List.append_nil, hw.stored]
  · rename_i heq
    rw [heq] at hr
    exact hr

theorem meets_putc (b : Byte) : Meets (Listening heard sent stored) (emit (.putc b))
    (fun _ => Listening heard (sent ++ [b]) stored) R := by
  refine emit_meets fun w hw => ⟨hw.heard, ?_, ?_⟩
  · show sentBytes (w.trace ++ [.putc b]) = _
    rw [← hw.sent]
    simp [sentBytes]
  · show storedBytes (w.trace ++ [.putc b]) = _
    rw [← hw.stored]
    simp [storedBytes]

theorem meets_stored (a : Word) (b : Byte) : Meets (Listening heard sent stored) (emit (.store a b))
    (fun _ => Listening heard sent (stored ++ [(a, b)])) R := by
  refine emit_meets fun w hw => ⟨hw.heard, ?_, ?_⟩
  · show sentBytes (w.trace ++ [.store a b]) = _
    rw [← hw.sent]
    simp [sentBytes]
  · show storedBytes (w.trace ++ [.store a b]) = _
    rw [← hw.stored]
    simp [storedBytes]

theorem meets_accepted (text data : Word) :
    Meets (Listening heard sent stored) (emit (.accepted text data))
      (fun _ => Listening heard sent stored) R := by
  refine emit_meets fun w hw => ⟨hw.heard, ?_, ?_⟩
  · rw [← hw.sent]
    simp [sentBytes]
  · rw [← hw.stored]
    simp [storedBytes]

end Listening

/-! ## The header -/

section Header

/-- The header of the buffer is the one of the stream. -/
theorem rd32_header {header : Nat → Byte} {stream : List Byte}
    (h : ∀ j, j < 12 → header j = bytesAt stream j) {i : Nat} (hi : i + 4 ≤ 12) :
    rd32 header i = rd32 (bytesAt stream) i :=
  rd32_congr fun j _ hj => h j (by omega)

/-- `boot_image_parse_header` accepts the valid headers. -/
theorem parseHeader_eq (dst : Word) (header : Nat → Byte) (stream : List Byte)
    (h : ∀ j, j < 12 → header j = bytesAt stream j) :
    ∃ res, bootImageParseHeader header dst = pure res ∧
      (∀ sizes, res = .ok sizes → ValidHeader dst stream ∧ sizes.text = textOf stream ∧
        sizes.data = dataOf stream ∧ sizes.payload.toNat = payloadLength stream) ∧
      (∀ e, res = .error e → ¬ ValidHeader dst stream) := by
  have hmagic := rd32_header h (i := 0) (by omega)
  have htext : rd32 header 4 = textOf stream := rd32_header h (by omega)
  have hdata : rd32 header 8 = dataOf stream := rd32_header h (by omega)
  unfold bootImageParseHeader
  rw [hmagic, htext, hdata]
  split
  · rename_i hne
    exact ⟨_, rfl, (by simp), fun _ _ hv => hne hv.magic⟩
  split
  · rename_i hdst
    refine ⟨_, rfl, (by simp), fun _ _ hv => ?_⟩
    have h1 := hv.below
    have h2 := hv.fits.above
    simp only [BitVec.lt_def, BitVec.le_def] at hdst
    omega
  rename_i hm hdst
  simp only [not_or, BitVec.le_def, BitVec.lt_def] at hdst
  have havail : (loadLimit - dst).toNat = loadLimit.toNat - dst.toNat :=
    BitVec.toNat_sub_of_le (by rw [BitVec.le_def]; omega)
  rw [sub_eq (by omega), pure_bind]
  split
  · rename_i hlt
    refine ⟨_, rfl, (by simp), fun _ _ hv => ?_⟩
    have h1 := hv.fits.below
    rw [BitVec.lt_def] at hlt
    omega
  rename_i ht
  rw [BitVec.not_lt, BitVec.le_def] at ht
  have hrest : (loadLimit - dst - textOf stream).toNat =
      loadLimit.toNat - dst.toNat - (textOf stream).toNat := by
    rw [BitVec.toNat_sub_of_le (by rw [BitVec.le_def]; exact ht), havail]
  rw [sub_eq ht, pure_bind]
  split
  · rename_i hlt
    refine ⟨_, rfl, (by simp), fun _ _ hv => ?_⟩
    have h1 := hv.fits.below
    rw [BitVec.lt_def] at hlt
    omega
  rename_i hd
  rw [BitVec.not_lt, BitVec.le_def] at hd
  have hfits : Fits dst (textOf stream) (dataOf stream) := ⟨by omega, by omega⟩
  have hbound := fits_bound hfits
  have hsum : (textOf stream).toNat + (dataOf stream).toNat < 2 ^ 32 := by omega
  rw [add_eq hsum, pure_bind]
  refine ⟨_, rfl, fun sizes hs => ?_, (by simp)⟩
  obtain rfl := Except.ok.inj hs
  refine ⟨⟨not_not.mp hm, by omega, hfits⟩, rfl, rfl, ?_⟩
  show (textOf stream + dataOf stream).toNat = _
  rw [BitVec.toNat_add, Nat.mod_eq_of_lt hsum, payloadLength]

end Header

/-! ## Storing a block -/

/-- In front of byte `i` of the block at `offset`, where `stream` is what has been accepted so
far. -/
structure Partway (dst offset : Word) (i : Nat) (t : Transfer) (stream : List Byte) : Prop where
  start : t.streamOffset = offset
  length : offset.toNat + i = stream.length
  sound : Sound dst stream
  header : stream.length < 12 →
    t.headerReady = false ∧ ∀ j, j < stream.length → t.header j = bytesAt stream j
  ready : 12 ≤ stream.length → t.headerReady = true ∧ t.imageSize.toNat = imageLength stream ∧
    offset.toNat < imageLength stream

section Storing

variable {dst offset : Word} {i : Nat} {t : Transfer} {stream : List Byte}
variable (heard : List Heard) (sent : List Byte)

theorem Partway.bound (h : Partway dst offset i t stream) (hi : i < 128) :
    stream.length < 0x0700008C := by
  have hlen := h.length
  by_cases h12 : stream.length < 12
  · omega
  · have hle := ((h.sound.header (by omega)).imageLength_le)
    have hnear := (h.ready (by omega)).2.2
    omega

/-- A byte of the stream is stored, checked or ignored, and it is refused where the stream is not
sound any more. -/
theorem hears_storeByte (data : Nat → Byte) (h : Partway dst offset i t stream) (hi : i < 128) :
    Meets (Listening heard sent (payloadStores dst stream)) (storeByte dst offset data i t)
      (fun r w => match r with
        | .ok t' => Partway dst offset (i + 1) t' (stream ++ [data i]) ∧
            Listening heard sent (payloadStores dst (stream ++ [data i])) w
        | .error e => e = .image ∧ ¬ Sound dst (stream ++ [data i]) ∧
            hearing w.uart = heard ∧ sentBytes w.trace = sent)
      (fun _ => False) := by
  have hb := h.bound hi
  have hlen := h.length
  have hi32 : (BitVec.ofNat 32 i).toNat = i := by
    rw [BitVec.toNat_ofNat]
    omega
  have hoff : (offset + BitVec.ofNat 32 i).toNat = stream.length := by
    rw [BitVec.toNat_add, hi32, Nat.mod_eq_of_lt (by omega), hlen]
  have hsnoc : (stream ++ [data i]).length = stream.length + 1 := by simp
  unfold storeByte
  rw [add_eq (by omega), pure_bind]
  dsimp only
  by_cases h12 : stream.length < 12
  · -- a byte of the header
    obtain ⟨hready, hheader⟩ := h.header h12
    have hnone : payloadStores dst (stream ++ [data i]) = payloadStores dst stream := by
      rw [payloadStores_short (by omega), payloadStores_short (by omega)]
    have hupd : ∀ j, j < stream.length + 1 →
        Function.update t.header (offset + BitVec.ofNat 32 i).toNat (data i) j =
          bytesAt (stream ++ [data i]) j := by
      intro j hj
      rw [hoff]
      rcases Nat.lt_succ_iff_lt_or_eq.mp hj with hlt | rfl
      · rw [Function.update_of_ne (by omega), bytesAt_append _ hlt, hheader j hlt]
      · rw [Function.update_self, bytesAt_length]
    have hend : (offset + BitVec.ofNat 32 i + 1#32).toNat = stream.length + 1 := by
      rw [BitVec.toNat_add, hoff, BitVec.toNat_ofNat, Nat.mod_eq_of_lt (by omega)]
    rw [if_pos (by rw [BitVec.lt_def, hoff, headerSize_toNat]; exact h12),
      add_eq (by rw [hoff]; simp; omega), pure_bind]
    split
    · -- the last one
      rename_i hlast
      have hlast' := congrArg BitVec.toNat hlast
      rw [hend, headerSize_toNat] at hlast'
      obtain ⟨res, heq, hok, herr⟩ := parseHeader_eq dst
        (Function.update t.header (offset + BitVec.ofNat 32 i).toNat (data i))
        (stream ++ [data i]) (fun j hj => hupd j (by omega))
      rw [heq, pure_bind]
      cases res with
      | error e =>
          refine Meets.pure fun w hw => ⟨rfl, fun hs => herr e rfl ?_, hw.heard, hw.sent⟩
          exact hs.header (by omega)
      | ok sizes =>
          obtain ⟨hv, htext, hdata, hpay⟩ := hok sizes rfl
          have hle := hv.imageLength_le
          rw [imageLength] at hle
          have hsum : headerSize.toNat + sizes.payload.toNat < 2 ^ 32 := by
            rw [headerSize_toNat, hpay]
            omega
          dsimp only
          rw [add_eq hsum, pure_bind]
          refine Meets.bind (meets_accepted _ _) fun _ => Meets.pure fun w hw => ?_
          rw [hnone]
          refine ⟨⟨h.start, by omega, (sound_header (by omega)).mpr hv, fun hc => by omega,
            fun _ => ⟨rfl, ?_, ?_⟩⟩, hw⟩
          · show (headerSize + sizes.payload).toNat = _
            rw [BitVec.toNat_add, Nat.mod_eq_of_lt hsum, headerSize_toNat, hpay, imageLength]
          · rw [imageLength]
            omega
    · rename_i hne
      have hne' : stream.length + 1 ≠ 12 := by
        intro heq
        apply hne
        apply BitVec.eq_of_toNat_eq
        rw [hend, heq, headerSize_toNat]
      refine Meets.pure fun w hw => ?_
      rw [hnone]
      refine ⟨⟨h.start, by omega, sound_short (by omega), fun _ => ⟨hready, fun j hj => ?_⟩,
        fun hc => by omega⟩, hw⟩
      exact hupd j (by omega)
  · obtain ⟨hready, hsize, hnear⟩ := h.ready (by omega)
    have hge : 12 ≤ stream.length := by omega
    have hv := h.sound.header hge
    have hle := hv.imageLength_le
    have hnext : (imageLength stream ≤ stream.length → data i = paddingByte) →
        Partway dst offset (i + 1) t (stream ++ [data i]) := by
      intro hpad
      refine ⟨h.start, by omega, (sound_snoc hge).mpr ⟨h.sound, hpad⟩, fun hc => by omega,
        fun _ => ⟨hready, ?_, ?_⟩⟩
      · rw [hsize, imageLength_append _ hge]
      · rw [imageLength_append _ hge]
        exact hnear
    rw [if_neg (by rw [BitVec.lt_def, hoff, headerSize_toNat]; omega), hready]
    simp only [Bool.true_and, decide_eq_true_eq, BitVec.lt_def, BitVec.le_def, hoff, hsize]
    by_cases hin : stream.length < imageLength stream
    · -- a byte of the payload
      have hdst : dst.toNat < 0x87000000 := hv.below
      have haddr : (dst + (offset + BitVec.ofNat 32 i)).toNat = dst.toNat + stream.length := by
        rw [BitVec.toNat_add, hoff, Nat.mod_eq_of_lt (by omega)]
      have hout : dst + (offset + BitVec.ofNat 32 i) - headerSize
          = dst + BitVec.ofNat 32 (stream.length - 12) := by
        apply BitVec.eq_of_toNat_eq
        rw [BitVec.toNat_sub_of_le (by rw [BitVec.le_def, haddr, headerSize_toNat]; omega), haddr,
          headerSize_toNat, BitVec.toNat_add, BitVec.toNat_ofNat, Nat.mod_eq_of_lt (by omega),
          Nat.mod_eq_of_lt (by omega)]
        omega
      rw [if_pos hin, add_eq (by rw [hoff]; omega), pure_bind,
        sub_eq (by rw [haddr, headerSize_toNat]; omega), pure_bind, hout]
      refine Meets.bind (meets_stored _ _) fun _ => Meets.pure fun w hw => ?_
      rw [payloadStores_snoc hge, if_pos hin]
      exact ⟨hnext fun hc => by omega, hw⟩
    · -- padding
      have hsame : payloadStores dst (stream ++ [data i]) = payloadStores dst stream := by
        rw [payloadStores_snoc hge, if_neg hin, List.append_nil]
      have hend : (t.imageSize + xmodemBlockSize).toNat = imageLength stream + 128 := by
        rw [BitVec.toNat_add, hsize, Nat.mod_eq_of_lt]
        · rfl
        · show imageLength stream + 128 < _
          omega
      rw [if_neg hin, if_pos (by omega), add_eq (by show t.imageSize.toNat + 128 < _; omega),
        pure_bind]
      split
      · rename_i hbad
        refine Meets.pure fun w hw => ⟨rfl, fun hs => hbad.2 ?_, hw.heard, hw.sent⟩
        exact ((sound_snoc hge).mp hs).2 (by omega)
      · rename_i hgood
        refine Meets.pure fun w hw => ?_
        rw [hsame]
        refine ⟨hnext fun _ => ?_, hw⟩
        by_contra hne
        exact hgood ⟨by omega, hne⟩

end Storing

/-- Between two blocks. -/
structure Transfer.Holds (dst : Word) (t : Transfer) (blocks : List (List Byte)) : Prop where
  full : ∀ b ∈ blocks, b.length = 128
  offset : t.streamOffset.toNat = blocks.flatten.length
  sound : Sound dst blocks.flatten
  header : blocks = [] → t.headerReady = false
  ready : blocks ≠ [] → t.headerReady = true ∧ t.imageSize.toNat = imageLength blocks.flatten ∧
    blocks.flatten.length < imageLength blocks.flatten + 128

section Blocks

variable {dst : Word} {t : Transfer} {blocks : List (List Byte)} {data : List Byte}
variable (heard : List Heard) (sent : List Byte)

theorem Transfer.Holds.long (h : t.Holds dst blocks) (hne : blocks ≠ []) :
    12 ≤ blocks.flatten.length := by
  cases blocks with
  | nil => exact absurd rfl hne
  | cons b rest =>
      have hfull := h.full b (List.mem_cons_self)
      rw [List.flatten_cons, List.length_append]
      omega

/-- There is nothing left of the image. -/
theorem Transfer.Holds.complete_iff (h : t.Holds dst blocks) :
    (t.headerReady && t.imageSize ≤ t.streamOffset) = true ↔
      ¬ (blocks = [] ∨ blocks.flatten.length < imageLength blocks.flatten) := by
  by_cases hne : blocks = []
  · simp [hne, h.header hne]
  · obtain ⟨hready, hsize, -⟩ := h.ready hne
    simp [hne, hready, BitVec.le_def, hsize, h.offset]

/-- The loop of `store_block`. -/
theorem hears_storeRounds {offset : Word} (hlen : data.length = 128) (n i : Nat) (hi : i ≤ 128)
    (t : Transfer) (h : Partway dst offset i t (blocks.flatten ++ data.take i)) :
    Meets (Listening heard sent (payloadStores dst (blocks.flatten ++ data.take i)))
      (Prog.loop .fuel (storeRound dst offset (bytesAt data)) n (i, t))
      (fun r w => match r with
        | .ok t' => Partway dst offset 128 t' (blocks.flatten ++ data) ∧
            Listening heard sent (payloadStores dst (blocks.flatten ++ data)) w
        | .error e => e = .image ∧ ¬ Sound dst (blocks.flatten ++ data) ∧
            hearing w.uart = heard ∧ sentBytes w.trace = sent)
      (fun _ => n + i ≤ 128) := by
  induction n generalizing i t with
  | zero => exact Meets.throw fun _ _ => by omega
  | succ n ih =>
      rw [Prog.loop, storeRound]
      dsimp only
      by_cases h128 : 128 ≤ i
      · rw [if_pos h128, pure_bind]
        have hall : data.take i = data := List.take_of_length_le (by omega)
        obtain rfl : i = 128 := by omega
        rw [hall] at h ⊢
        exact Meets.pure fun w hw => ⟨h, hw⟩
      · rw [if_neg h128, bind_assoc]
        have hstep : data.take i ++ [bytesAt data i] = data.take (i + 1) := by
          rw [List.take_add_one, bytesAt, List.getD_eq_getElem?_getD]
          rw [List.getElem?_eq_getElem (by omega)]
          rfl
        have hbyte := hears_storeByte heard sent (bytesAt data) h (by omega)
        rw [List.append_assoc, hstep] at hbyte
        refine Meets.bind (hbyte.mono (fun _ hw => hw) (fun _ _ hw => hw) (fun _ hf => hf.elim))
          fun r => ?_
        cases r with
        | error e =>
            refine Meets.pure fun w hw => ⟨hw.1, fun hs => hw.2.1 ?_, hw.2.2⟩
            have hsplit : data = data.take (i + 1) ++ data.drop (i + 1) :=
              (List.take_append_drop _ _).symm
            rw [hsplit, ← List.append_assoc] at hs
            exact hs.of_append
        | ok t' =>
            rw [pure_bind]
            refine Meets.pre fun hp => ?_
            exact (ih (i + 1) (by omega) t' hp).mono (fun _ hw => hw) (fun _ _ hw => hw)
              (fun _ hn => by omega)

/-- `store_block` takes the blocks that are admitted. -/
theorem hears_storeBlock (fuel : Nat) (h : t.Holds dst blocks) (hlen : data.length = 128) :
    Meets (Listening heard sent (payloadStores dst blocks.flatten))
      (storeBlock fuel (bytesAt data) dst t)
      (fun r w => match r with
        | .ok t' => Admits dst blocks data ∧ t'.Holds dst (blocks ++ [data]) ∧
            Listening heard sent (payloadStores dst (blocks ++ [data]).flatten) w
        | .error e => e = .image ∧ ¬ Admits dst blocks data ∧
            hearing w.uart = heard ∧ sentBytes w.trace = sent)
      (fun _ => fuel ≤ 128) := by
  unfold storeBlock
  dsimp only
  split
  · rename_i hdone
    refine Meets.pure fun w hw => ⟨rfl, fun ha => ?_, hw.heard, hw.sent⟩
    exact h.complete_iff.mp hdone ha.1
  · rename_i hopen
    have hopen : blocks = [] ∨ blocks.flatten.length < imageLength blocks.flatten := by
      by_contra hc
      exact hopen (h.complete_iff.mpr hc)
    have hstart : Partway dst t.streamOffset 0 t (blocks.flatten ++ data.take 0) := by
      rw [List.take_zero, List.append_nil]
      refine ⟨rfl, by rw [h.offset, Nat.add_zero], h.sound, fun hshort => ?_, fun hlong => ?_⟩
      · have hnil : blocks = [] := by
          by_contra hne
          have := h.long hne
          omega
        refine ⟨h.header hnil, fun j hj => ?_⟩
        rw [hnil] at hj
        exact absurd hj (Nat.not_lt_zero j)
      · have hne : blocks ≠ [] := by
          rintro rfl
          exact absurd hlong (by decide)
        obtain ⟨hready, hsize, -⟩ := h.ready hne
        refine ⟨hready, hsize, ?_⟩
        rw [h.offset]
        exact hopen.resolve_left hne
    have hloop := hears_storeRounds heard sent hlen fuel 0 (by omega) t hstart
    rw [List.take_zero, List.append_nil] at hloop
    refine Meets.bind (hloop.mono (fun _ hw => hw) (fun _ _ hw => hw) (fun _ hn => by omega))
      fun r => ?_
    cases r with
    | error e => exact Meets.pure fun w hw => ⟨hw.1, fun ha => hw.2.1 ha.2, hw.2.2⟩
    | ok t' =>
        refine Meets.pre fun hend => ?_
        have hb := hend.length
        have hall : (blocks ++ [data]).flatten = blocks.flatten ++ data := by simp
        have hlong : 12 ≤ (blocks.flatten ++ data).length := by
          rw [List.length_append]
          omega
        obtain ⟨hready, hsize, hnear⟩ := hend.ready hlong
        have hle := (hend.sound.header hlong).imageLength_le
        have hoff : t.streamOffset.toNat + xmodemBlockSize.toNat < 2 ^ 32 := by
          show t.streamOffset.toNat + 128 < _
          omega
        dsimp only
        rw [add_eq hoff, pure_bind]
        refine Meets.pure fun w hw => ⟨⟨hopen, hend.sound⟩, ?_, by rw [hall]; exact hw⟩
        have hnew : (t.streamOffset + xmodemBlockSize).toNat = t.streamOffset.toNat + 128 := by
          rw [BitVec.toNat_add, Nat.mod_eq_of_lt hoff]
          rfl
        refine ⟨?_, ?_, ?_, ?_, ?_⟩
        · intro b hb
          rcases List.mem_append.mp hb with hb | hb
          · exact h.full b hb
          · rw [List.mem_singleton.mp hb]
            exact hlen
        · rw [hall, ← hb]
          exact hnew
        · rw [hall]
          exact hend.sound
        · intro hnil
          simp at hnil
        · intro _
          rw [hall]
          exact ⟨hready, hsize, by omega⟩

end Blocks

/-! ## Receiving a block -/

open Receiver (hears behind)

section Receiving

variable {dst : Word} {r : Receiver} {out : List Byte}
variable {heard : List Heard} {stored : List (Word × Byte)}

/-- A call of `getc_timeout`. -/
theorem meets_hear {α : Type} {f : Heard → Loader α} {Q : α → World → Prop} {R : World → Prop}
    (hf : ∀ h rest, heard = h :: rest → Meets (Listening rest out stored) (f h) Q R)
    (hR : heard = [] → ∀ w, R w) :
    Meets (Listening heard out stored) (getcTimeout xmodemTimeoutTicks >>= f) Q R := by
  refine Meets.bind (Q := fun h w => ∃ rest, heard = h :: rest ∧ Listening rest out stored w)
    (meets_getc.mono (fun _ hw => hw) (fun _ _ hw => hw) (fun w hn => hR hn w)) fun h => ?_
  exact Meets.exists fun rest => Meets.pre (hf h rest)

theorem bytesAt_update (got : List Byte) (b : Byte) :
    Function.update (bytesAt got) got.length b = bytesAt (got ++ [b]) := by
  funext j
  rcases Nat.lt_trichotomy j got.length with hlt | rfl | hgt
  · rw [Function.update_of_ne (by omega), bytesAt_append _ hlt]
  · rw [Function.update_self, bytesAt_length]
  · rw [Function.update_of_ne (by omega)]
    simp only [bytesAt, List.getD_eq_getElem?_getD]
    rw [List.getElem?_eq_none (by omega), List.getElem?_eq_none (by simp; omega)]

/-- The receiver in a phase of its own is still running. -/
theorem running_filling (number inverse : Byte) (got : List Byte) :
    ({ r with phase := .filling number inverse got } : Receiver).running = true := by
  rw [Receiver.running, Phase.filling]
  by_cases h : got.length = 128 <;> simp [h]

/-- The loop of `receive_block`. -/
theorem hears_receiveBytes (dst : Word) (r : Receiver) (number inverse : Byte) (n : Nat)
    (got : List Byte) (hgot : got.length ≤ 128) :
    Meets (Listening heard out stored) (Prog.loop .fuel receiveByte n (got.length, bytesAt got))
      (fun res w => ∃ used rest, heard = used ++ rest ∧ Listening rest out stored w ∧
        match res with
        | .error e =>
            hears dst ({ r with phase := .filling number inverse got }, out) used
              = behind out (r.retry e true)
        | .ok data => ∃ all, data = bytesAt all ∧ all.length = 128 ∧
            hears dst ({ r with phase := .filling number inverse got }, out) used
              = ({ r with phase := .crcHi number inverse all }, out))
      (fun _ => 128 < n + got.length →
        (hears dst ({ r with phase := .filling number inverse got }, out) heard).1.running
          = true) := by
  induction n generalizing got heard with
  | zero => exact Meets.throw fun _ _ hn => by omega
  | succ n ih =>
      rw [Prog.loop, receiveByte]
      dsimp only
      by_cases h128 : 128 ≤ got.length
      · have hfull : got.length = 128 := by omega
        rw [if_pos h128, pure_bind]
        refine Meets.pure fun w hw => ⟨[], heard, rfl, hw, got, rfl, hfull, ?_⟩
        rw [Receiver.hears_nil, Phase.filling, if_pos hfull]
      · have hdata : Phase.filling number inverse got = .data number inverse got := by
          rw [Phase.filling, if_neg (by omega)]
        rw [if_neg h128, bind_assoc]
        refine meets_hear (fun h rest hrest => ?_) (fun hnil _ _ => ?_)
        · cases h with
          | error e =>
              rw [pure_bind]
              refine Meets.pure fun w hw => ⟨[.error e], rest, hrest, hw, ?_⟩
              rw [hdata]
              rfl
          | ok b =>
              have hstep : ∀ more, hears dst ({ r with phase := .filling number inverse got }, out)
                  (.ok b :: more) =
                  hears dst ({ r with phase := .filling number inverse (got ++ [b]) }, out) more := by
                intro more
                rw [hdata, Receiver.hears_cons, behind]
                simp [Receiver.hear]
              rw [pure_bind, bytesAt_update]
              have hlen : got.length + 1 = (got ++ [b]).length := by simp
              dsimp only
              rw [hlen]
              refine (ih (got ++ [b]) (by omega)).mono (fun _ hw => hw) ?_ ?_
              · rintro res w ⟨used, rest', hsplit, hw, hres⟩
                refine ⟨.ok b :: used, rest', by rw [hrest, hsplit]; rfl, hw, ?_⟩
                cases res with
                | error e =>
                    dsimp only at hres ⊢
                    rw [hstep, hres]
                | ok data =>
                    dsimp only at hres ⊢
                    rw [hstep]
                    exact hres
              · intro w hw hn
                rw [hrest, hstep]
                exact hw (by omega)
        · rw [hnil, Receiver.hears_nil]
          exact running_filling number inverse got

/-- The receiver `p` goes on from `r` with the result of `receive_block`. -/
def Takes (dst : Word) (p : Receiver × List Byte) (r : Receiver) (out : List Byte) :
    Except XmodemError ((Nat → Byte) × Byte) → Prop
  | .error e => p = behind out (r.retry e true)
  | .ok (data, number) => ∃ all, data = bytesAt all ∧ all.length = 128 ∧
      p = behind out (r.block dst number all)

/-- The check bytes of `receive_block`. -/
theorem hears_check (dst : Word) (r : Receiver) (block inverse : Byte) (all : List Byte)
    (hall : all.length = 128) :
    Meets (Listening heard out stored)
      (do
        let crcHi ← getcTimeout xmodemTimeoutTicks
        let crcLo ← getcTimeout xmodemTimeoutTicks
        match crcHi, crcLo with
        | .error e, _ => return .error e
        | .ok _, .error e => return .error e
        | .ok crcHi, .ok crcLo =>
            if block ^^^ inverse ≠ 0xFF#8 then return .error .blockNumber
            let receivedCrc : BitVec 16 := (crcHi.setWidth 16 <<< 8) ||| crcLo.setWidth 16
            if receivedCrc ≠ crc16Ccitt (bytesAt all) 128 then return .error .crc
            return .ok (bytesAt all, block))
      (fun res w => ∃ used rest, heard = used ++ rest ∧ Listening rest out stored w ∧
        Takes dst (hears dst ({ r with phase := .crcHi block inverse all }, out) used) r out res)
      (fun _ =>
        (hears dst ({ r with phase := .crcHi block inverse all }, out) heard).1.running = true) := by
  refine meets_hear (fun hi rest1 hrest1 => ?_) (fun hnil _ => ?_)
  swap
  · rw [hnil]
    rfl
  have h1 : ∀ more, hears dst ({ r with phase := .crcHi block inverse all }, out) (hi :: more)
      = hears dst ({ r with phase := .crcLo block inverse all hi }, out) more := by
    intro more
    simp only [Receiver.hears_cons, Receiver.hear, behind, List.append_nil]
  refine meets_hear (fun lo rest2 hrest2 => ?_) (fun hnil _ => ?_)
  swap
  · rw [hrest1, hnil, h1]
    rfl
  have hend : heard = [hi, lo] ++ rest2 := by rw [hrest1, hrest2]; rfl
  have h2 := h1 [lo]
  cases hi with
  | error e => exact Meets.pure fun w hw => ⟨_, rest2, hend, hw, h2⟩
  | ok hi =>
  cases lo with
  | error e => exact Meets.pure fun w hw => ⟨_, rest2, hend, hw, h2⟩
  | ok lo =>
  have h3 : hears dst ({ r with phase := .crcHi block inverse all }, out) [.ok hi, .ok lo]
      = behind out
          (if block ^^^ inverse ≠ 0xFF#8 then r.retry .blockNumber true
          else if (hi.setWidth 16 <<< 8 ||| lo.setWidth 16 : BitVec 16)
              ≠ crc16Ccitt (bytesAt all) 128 then r.retry .crc true
          else r.block dst block all) := h2
  dsimp only
  split
  · rename_i hne
    rw [if_pos hne] at h3
    exact Meets.pure fun w hw => ⟨_, rest2, hend, hw, h3⟩
  rename_i heq
  rw [if_neg heq] at h3
  split
  · rename_i hne
    rw [if_pos hne] at h3
    exact Meets.pure fun w hw => ⟨_, rest2, hend, hw, h3⟩
  rename_i heq
  rw [if_neg heq] at h3
  exact Meets.pure fun w hw => ⟨_, rest2, hend, hw, all, rfl, hall, h3⟩

/-- `receive_block`, behind `XMODEM_SOH`. -/
theorem hears_receiveBlock (fuel : Nat) (hr : r.phase = .number) :
    Meets (Listening heard out stored) (receiveBlock fuel)
      (fun res w => ∃ used rest, heard = used ++ rest ∧ Listening rest out stored w ∧
        Takes dst (hears dst (r, out) used) r out res)
      (fun _ => 128 < fuel → (hears dst (r, out) heard).1.running = true) := by
  unfold receiveBlock
  refine meets_hear (fun block rest1 hrest1 => ?_) (fun hnil _ _ => ?_)
  swap
  · rw [hnil, Receiver.hears_nil, Receiver.running, hr]
  have h1 : ∀ more, hears dst (r, out) (block :: more)
      = hears dst ({ r with phase := .inverse block }, out) more := by
    intro more
    simp only [Receiver.hears_cons, Receiver.hear, hr, behind, List.append_nil]
  refine meets_hear (fun inverse rest2 hrest2 => ?_) (fun hnil _ _ => ?_)
  swap
  · rw [hrest1, hnil, h1]
    rfl
  have hsplit : heard = [block, inverse] ++ rest2 := by rw [hrest1, hrest2]; rfl
  have h2 := h1 [inverse]
  cases block with
  | error e => exact Meets.pure fun w hw => ⟨_, rest2, hsplit, hw, h2⟩
  | ok block =>
  cases inverse with
  | error e => exact Meets.pure fun w hw => ⟨_, rest2, hsplit, hw, h2⟩
  | ok inverse =>
  have h3 : ∀ more, hears dst (r, out) (.ok block :: .ok inverse :: more)
      = hears dst ({ r with phase := .filling block inverse [] }, out) more := by
    intro more
    rw [h1]
    simp [Receiver.hear, behind, Phase.filling]
  refine Meets.bind ((hears_receiveBytes dst r block inverse fuel []
    (Nat.zero_le _)).mono (fun _ hw => hw) (fun _ _ hw => hw) fun w hn hfuel => ?_)
    fun res => Meets.exists fun used => Meets.exists fun rest3 => Meets.pre fun hrest3 => ?_
  · rw [hsplit]
    show (hears dst (r, out) (.ok block :: .ok inverse :: rest2)).1.running = true
    rw [h3]
    exact hn (by simpa using hfuel)
  have hsplit : ∀ more, heard = (.ok block :: .ok inverse :: used) ++ more ↔ rest3 = more := by
    intro more
    rw [hsplit, hrest3]
    simp
  cases res with
  | error e =>
      refine Meets.pure fun w hw => ⟨.ok block :: .ok inverse :: used, rest3, ?_, hw.1, ?_⟩
      · rw [hsplit]
      · rw [h3]
        exact hw.2
  | ok data =>
  refine Meets.mono (P := fun w => ∃ all, (data = bytesAt all ∧ all.length = 128 ∧
      hears dst ({ r with phase := .filling block inverse [] }, out) used
        = ({ r with phase := .crcHi block inverse all }, out)) ∧ Listening rest3 out stored w)
    (Meets.exists fun all => Meets.pre fun h => ?_)
    (fun w hw => ⟨hw.2.choose, hw.2.choose_spec, hw.1⟩) (fun _ _ hw => hw) (fun _ hw => hw)
  obtain ⟨rfl, hall, hres⟩ := h
  have h4 : ∀ more, hears dst (r, out) ((.ok block :: .ok inverse :: used) ++ more)
      = hears dst ({ r with phase := .crcHi block inverse all }, out) more := by
    intro more
    rw [List.cons_append, List.cons_append, h3, Receiver.hears_append, hres]
  refine (hears_check dst r block inverse all hall).mono (fun _ hw => hw) ?_ ?_
  · rintro res w ⟨more, rest, hmore, hw, ht⟩
    refine ⟨(.ok block :: .ok inverse :: used) ++ more, rest, ?_, hw, ?_⟩
    · rw [List.append_assoc, hsplit]
      exact hmore
    · rw [h4]
      exact ht
  · intro w hw _
    rw [(hsplit rest3).mpr rfl, h4]
    exact hw

end Receiving

/-! ## The rounds of the session -/

/-- The session of the loader between two rounds, and the receiver. -/
structure Session.Is (dst : Word) (s : Session) (r : Receiver) : Prop where
  syncStarted : s.syncStarted = r.syncStarted
  syncRetries : s.syncRetries = r.syncRetries
  blockRetries : s.blockRetries = r.blockRetries
  expected : s.expectedBlock = r.expected
  transfer : s.transfer.Holds dst r.blocks

/-- The receiver `p` stands where the round has ended. -/
def Ended (dst : Word) (p : Receiver × List Byte) (rest : List Heard) : Round → World → Prop
  | .inl s, w => ∃ r out, (s.Is dst r ∧ p = r.await out) ∧
      Listening rest out (payloadStores dst r.blocks.flatten) w
  | .inr result, w => p.1.phase = .done result ∧ hearing w.uart = rest ∧
      sentBytes w.trace = p.2 ∧
      ∀ size, result = .ok size → storedBytes w.trace = payloadStores dst p.1.blocks.flatten

section Session

variable {dst : Word} {s : Session} {r : Receiver} {out : List Byte} {heard : List Heard}
variable {R : World → Prop}

theorem hears_continue (hs : s.Is dst r) (heard : List Heard) (out : List Byte)
    (R : World → Prop) :
    Meets (Listening heard out (payloadStores dst r.blocks.flatten)) (pure (.inl s) : Loader Round)
      (Ended dst (r.await out) heard) R :=
  Meets.pure fun _ hw => ⟨r, out, ⟨hs, rfl⟩, hw⟩

theorem hears_returned {e : XmodemError} {stored : List (Word × Byte)} :
    Meets (Listening heard out stored) (pure (.inr (.error e)) : Loader Round)
      (Ended dst (r.stop out (.error e)) heard) R :=
  Meets.pure fun _ hw => ⟨rfl, hw.heard, hw.sent, fun _ h => by cases h⟩

theorem hears_cancel {e : XmodemError} {stored : List (Word × Byte)} :
    Meets (Listening heard out stored) (do cancelTransfer; pure (.inr (.error e)) : Loader Round)
      (Ended dst (behind out (r.stop [xmodemCan, xmodemCan] (.error e))) heard) R := by
  rw [Receiver.behind_stop]
  unfold cancelTransfer
  rw [bind_assoc]
  refine Meets.bind (meets_putc xmodemCan) fun _ => Meets.bind (meets_putc xmodemCan) fun _ => ?_
  rw [List.append_assoc]
  exact hears_returned

theorem hears_retry (giveUp : XmodemError) (nak : Bool) (hs : s.Is dst r) :
    Meets (Listening heard out (payloadStores dst r.blocks.flatten)) (retry giveUp nak s)
      (Ended dst (behind out (r.retry giveUp nak)) heard) R := by
  unfold retry Receiver.retry
  dsimp only
  rw [hs.blockRetries]
  have hnext : Session.Is dst { s with blockRetries := r.blockRetries + 1#32 }
      { r with blockRetries := r.blockRetries + 1#32 } :=
    ⟨hs.syncStarted, hs.syncRetries, rfl, hs.expected, hs.transfer⟩
  split
  · exact hears_cancel
  · rw [Receiver.behind_await]
    cases nak with
    | true => exact Meets.bind (meets_putc xmodemNak) fun _ => hears_continue hnext _ _ _
    | false =>
        have h := hears_continue hnext heard out R
        simpa using h

/-- The retry counter does not depend on the phase. -/
theorem Session.Is.phase (hs : s.Is dst r) (phase : Phase) :
    s.Is dst { r with phase := phase } :=
  ⟨hs.syncStarted, hs.syncRetries, hs.blockRetries, hs.expected, hs.transfer⟩

/-- A block that `receive_block` has returned. -/
theorem hears_block (fuel : Nat) (number : Byte) (data : List Byte) (hdata : data.length = 128)
    (hs : s.Is dst r) :
    Meets (Listening heard out (payloadStores dst r.blocks.flatten))
      (do
        if number = s.expectedBlock - 1#8 then
          emit (.putc xmodemAck)
          return .inl { s with blockRetries := 0#32 }
        if number ≠ s.expectedBlock then
          return ← retry .protocol true s
        match ← storeBlock fuel (bytesAt data) dst s.transfer with
        | .error e =>
            cancelTransfer
            return .inr (.error e)
        | .ok t =>
            emit (.putc xmodemAck)
            return .inl { s with
              transfer := t, expectedBlock := s.expectedBlock + 1#8, blockRetries := 0#32 })
      (Ended dst (behind out (r.block dst number data)) heard) (fun _ => fuel ≤ 128) := by
  unfold Receiver.block
  rw [← hs.expected]
  split
  · rw [Receiver.behind_await]
    have hnext : Session.Is dst { s with blockRetries := 0#32 } { r with blockRetries := 0#32 } :=
      ⟨hs.syncStarted, hs.syncRetries, rfl, hs.expected, hs.transfer⟩
    exact Meets.bind (meets_putc xmodemAck) fun _ => hears_continue hnext _ _ _
  split
  · exact hears_retry _ _ hs
  refine Meets.bind (hears_storeBlock heard out fuel hs.transfer hdata) fun res => ?_
  cases res with
  | error e =>
      intro w hw
      obtain ⟨rfl, hadmits, hheard, hsent⟩ := hw
      rw [if_neg hadmits]
      exact hears_cancel w ⟨hheard, hsent, rfl⟩
  | ok t =>
      refine Meets.pre fun hadmits => Meets.pre fun hholds => ?_
      have hnext : Session.Is dst
          { s with transfer := t, expectedBlock := s.expectedBlock + 1#8, blockRetries := 0#32 }
          { r with blocks := r.blocks ++ [data], blockRetries := 0#32 } := by
        refine ⟨hs.syncStarted, hs.syncRetries, rfl, ?_, hholds⟩
        show s.expectedBlock + 1#8 = BitVec.ofNat 8 ((r.blocks ++ [data]).length + 1)
        rw [hs.expected, Receiver.expected, List.length_append, List.length_singleton,
          BitVec.ofNat_add (r.blocks.length + 1) 1]
      rw [if_pos hadmits, Receiver.behind_await]
      have hgoes := hears_continue hnext heard (out ++ [xmodemAck]) (fun _ => fuel ≤ 128)
      exact Meets.bind (meets_putc xmodemAck) fun _ => hgoes

theorem hears_xmodemBlock (fuel : Nat) (hr : r.phase = .number) (hs : s.Is dst r) :
    Meets (Listening heard out (payloadStores dst r.blocks.flatten)) (xmodemBlock fuel dst s)
      (fun o w => ∃ used rest, heard = used ++ rest ∧
        Ended dst (hears dst (r, out) used) rest o w)
      (fun _ => 128 < fuel → (hears dst (r, out) heard).1.running = true) := by
  unfold xmodemBlock
  refine Meets.bind (hears_receiveBlock fuel hr) fun res => ?_
  refine Meets.exists fun used => Meets.exists fun rest => Meets.pre fun hsplit => ?_
  cases res with
  | error e =>
      intro w hw
      refine (hears_retry e true hs w hw.1).mono (fun o w' ho => ⟨used, rest, hsplit, ?_⟩)
        (fun _ hw => hw)
      rw [hw.2]
      exact ho
  | ok res =>
      intro w hw
      obtain ⟨hw, all, hdata, hall, htakes⟩ := hw
      have hblock := hears_block fuel res.2 all hall hs w hw
      rw [← hdata] at hblock
      refine hblock.mono (fun o w' ho => ⟨used, rest, hsplit, ?_⟩) (fun w' hn => by omega)
      rw [htakes]
      exact ho

theorem hears_xmodemEnd (hs : s.Is dst r) :
    Meets (Listening heard out (payloadStores dst r.blocks.flatten)) (xmodemEnd s.transfer)
      (Ended dst (behind out r.finish) heard) R := by
  have hholds := hs.transfer
  unfold xmodemEnd Receiver.finish
  have hiff : (!s.transfer.headerReady || s.transfer.streamOffset < s.transfer.imageSize) = true ↔
      (r.blocks = [] ∨ r.blocks.flatten.length < imageLength r.blocks.flatten) := by
    have hnot : (!s.transfer.headerReady || s.transfer.streamOffset < s.transfer.imageSize) =
        !(s.transfer.headerReady && s.transfer.imageSize ≤ s.transfer.streamOffset) := by
      simp [Bool.not_and, ← BitVec.not_le]
    rw [hnot, Bool.not_eq_true', ← Bool.not_eq_true, hholds.complete_iff, not_not]
  by_cases hopen : r.blocks = [] ∨ r.blocks.flatten.length < imageLength r.blocks.flatten
  · rw [if_pos (hiff.mpr hopen), if_pos hopen]
    exact hears_cancel
  · rw [if_neg (fun h => hopen (hiff.mp h)), if_neg hopen, Receiver.behind_stop]
    have hne : r.blocks ≠ [] := fun h => hopen (.inl h)
    obtain ⟨-, hsize, -⟩ := hholds.ready hne
    have hle := (hholds.sound.header (hholds.long hne)).imageLength_le
    refine Meets.bind (meets_putc xmodemAck) fun _ => ?_
    rw [imageLength] at hsize hle
    have hsub : (s.transfer.imageSize - headerSize).toNat = payloadLength r.blocks.flatten := by
      rw [BitVec.toNat_sub_of_le (by rw [BitVec.le_def, headerSize_toNat]; omega),
        headerSize_toNat]
      omega
    have hword : s.transfer.imageSize - headerSize
        = BitVec.ofNat 32 (payloadLength r.blocks.flatten) := by
      apply BitVec.eq_of_toNat_eq
      rw [hsub, BitVec.toNat_ofNat, Nat.mod_eq_of_lt (by omega)]
    rw [sub_eq (by rw [headerSize_toNat]; omega), pure_bind, hword]
    exact Meets.pure fun w hw => ⟨rfl, hw.heard, hw.sent, fun _ _ => hw.stored⟩

/-- The round ends behind what it has used. -/
theorem ends_behind {P : World → Prop} {x : Loader Round} {used rest : List Heard}
    {p : Receiver × List Byte} (hsplit : heard = used ++ rest) (hne : used ≠ [])
    (hp : hears dst (r, out) used = p) (h : Meets P x (Ended dst p rest) R) :
    Meets P x (fun o w => ∃ used rest, (heard = used ++ rest ∧ used ≠ []) ∧
      Ended dst (hears dst (r, out) used) rest o w) R := by
  refine h.mono (fun _ hw => hw) (fun o w ho => ?_) (fun _ hw => hw)
  rw [← hp] at ho
  exact ⟨used, rest, ⟨hsplit, hne⟩, ho⟩

/-- The round behind `XMODEM_CAN`. -/
theorem hears_second (hs : s.Is dst r) :
    Meets (Listening heard out (payloadStores dst r.blocks.flatten))
      (do
        match ← getcTimeout xmodemTimeoutTicks with
        | .ok second => return if second = xmodemCan then .inr (.error .cancelled) else .inl s
        | .error _ => return .inl s)
      (fun o w => ∃ used rest, (heard = used ++ rest ∧ used ≠ []) ∧
        Ended dst (hears dst ({ r with phase := .second }, out) used) rest o w)
      (fun _ => (hears dst ({ r with phase := .second }, out) heard).1.running = true) := by
  refine meets_hear (fun h rest hrest => ?_) (fun hnil _ => ?_)
  swap
  · rw [hnil]
    rfl
  cases h with
  | error e =>
      have h1 : hears dst ({ r with phase := .second }, out) [.error e] = r.await out := by
        show behind out (Receiver.await [] _) = r.await out
        rw [Receiver.behind_await, List.append_nil]
        rfl
      exact ends_behind hrest (List.cons_ne_nil _ _) h1 (hears_continue hs rest out _)
  | ok second =>
      have h1 : hears dst ({ r with phase := .second }, out) [.ok second]
          = if second = xmodemCan then r.stop out (.error .cancelled) else r.await out := by
        show behind out (if second = xmodemCan then _ else Receiver.await [] _) = _
        split
        · rw [Receiver.behind_stop, List.append_nil]
          rfl
        · rw [Receiver.behind_await, List.append_nil]
          rfl
      dsimp only
      refine ends_behind hrest (List.cons_ne_nil _ _) h1 ?_
      split
      · exact hears_returned
      · exact hears_continue hs rest out _

/-- The control byte of a round and what follows. -/
theorem hears_xmodemControl (fuel : Nat) (hr : r.phase = .control) (hs : s.Is dst r) :
    Meets (Listening heard out (payloadStores dst r.blocks.flatten)) (xmodemControl fuel dst s)
      (fun o w => ∃ used rest, (heard = used ++ rest ∧ used ≠ []) ∧
        Ended dst (hears dst (r, out) used) rest o w)
      (fun _ => 128 < fuel → (hears dst (r, out) heard).1.running = true) := by
  unfold xmodemControl
  refine meets_hear (fun h rest hrest => ?_) (fun hnil _ _ => ?_)
  swap
  · rw [hnil, Receiver.hears_nil, Receiver.running, hr]
  have hone : ∀ h : Heard, [h] ≠ [] := fun h => List.cons_ne_nil h []
  have h1 : hears dst (r, out) [h] = behind out (r.hear dst h) := rfl
  simp only [Receiver.hear, hr] at h1
  -- the receiver has heard `h` and sends nothing
  have hgoes : ∀ r' : Receiver, hears dst (r, out) [h] = (r', out) → ∀ more,
      hears dst (r, out) (h :: more) = hears dst (r', out) more := by
    intro r' hr' more
    show hears dst (hears dst (r, out) [h]) more = _
    rw [hr']
  cases h with
  | error e =>
      cases e with
      | timeout =>
          dsimp only at h1 ⊢
          rw [← hs.syncRetries] at h1
          refine ends_behind hrest (hone _) h1 ?_
          split
          · exact hears_cancel
          · rw [Receiver.behind_await, List.append_nil]
            exact hears_continue hs rest out _
      | cancelled | protocol | image | uart | blockNumber | crc =>
          exact ends_behind hrest (hone _) h1 (hears_retry _ _ hs)
  | ok control =>
      dsimp only at h1 ⊢
      split
      · rename_i hcan
        rw [if_pos hcan, behind, List.append_nil] at h1
        refine (hears_second hs).mono (fun _ hw => hw) ?_ ?_
        · rintro o w ⟨used, rest2, ⟨hrest2, -⟩, ho⟩
          refine ⟨.ok control :: used, rest2, ⟨by rw [hrest, hrest2]; rfl,
            List.cons_ne_nil _ _⟩, ?_⟩
          rw [hgoes _ h1]
          exact ho
        · intro w hw _
          rw [hrest, hgoes _ h1]
          exact hw
      rename_i hcan
      rw [if_neg hcan] at h1
      split
      · rename_i heot
        rw [if_pos heot] at h1
        exact ends_behind hrest (hone _) h1 (hears_xmodemEnd hs)
      rename_i heot
      rw [if_neg heot] at h1
      split
      · rename_i hsoh
        rw [if_pos hsoh] at h1
        exact ends_behind hrest (hone _) h1 (hears_retry _ _ hs)
      rename_i hsoh
      rw [if_neg hsoh, behind, List.append_nil] at h1
      have hnext : Session.Is dst { s with syncStarted := true }
          { r with phase := .number, syncStarted := true } :=
        ⟨rfl, hs.syncRetries, hs.blockRetries, hs.expected, hs.transfer⟩
      refine (hears_xmodemBlock fuel rfl hnext).mono (fun _ hw => hw) ?_ ?_
      · rintro o w ⟨used, rest2, hrest2, ho⟩
        refine ⟨.ok control :: used, rest2, ⟨by rw [hrest, hrest2]; rfl,
          List.cons_ne_nil _ _⟩, ?_⟩
        rw [hgoes _ h1]
        exact ho
      · intro w hw hfuel
        rw [hrest, hgoes _ h1]
        exact hw hfuel

theorem hears_xmodemRound (fuel : Nat) (hs : s.Is dst r) :
    Meets (Listening heard out (payloadStores dst r.blocks.flatten)) (xmodemRound fuel dst s)
      (fun o w => ∃ used rest, (heard = used ++ rest ∧ used ≠ []) ∧
        Ended dst (hears dst (r.await out) used) rest o w)
      (fun _ => 128 < fuel → (hears dst (r.await out) heard).1.running = true) := by
  unfold xmodemRound Receiver.await
  rw [hs.syncStarted, hs.syncRetries]
  split
  · have hnext : Session.Is dst
        { s with syncStarted := r.syncStarted, syncRetries := r.syncRetries + 1#32 }
        { r with phase := .control, syncRetries := r.syncRetries + 1#32 } :=
      ⟨rfl, rfl, hs.blockRetries, hs.expected, hs.transfer⟩
    refine Meets.bind (meets_putc xmodemCrcRequest) fun _ => ?_
    exact hears_xmodemControl fuel rfl hnext
  · exact hears_xmodemControl fuel rfl (hs.phase .control)

/-- The session from round to round. Every round hears something, so that the rounds suffice when
there are more of them than there is to hear. -/
theorem hears_session (fuel n : Nat) (hs : s.Is dst r) :
    Meets (Listening heard out (payloadStores dst r.blocks.flatten))
      (Prog.loop .fuel (xmodemRound fuel dst) n s)
      (fun result w => ∃ used rest, heard = used ++ rest ∧
        Ended dst (hears dst (r.await out) used) rest (.inr result) w)
      (fun _ => 128 < fuel → heard.length < n →
        (hears dst (r.await out) heard).1.running = true) := by
  induction n generalizing s r out heard with
  | zero => exact Meets.throw fun _ _ _ hlt => absurd hlt (Nat.not_lt_zero _)
  | succ n ih =>
      rw [Prog.loop]
      refine Meets.bind ((hears_xmodemRound fuel hs).mono (fun _ hw => hw) (fun _ _ hw => hw)
        (fun _ hw hfuel _ => hw hfuel)) fun o => ?_
      refine Meets.exists fun used => Meets.exists fun rest => Meets.pre fun hsplit => ?_
      obtain ⟨hsplit, hne⟩ := hsplit
      cases o with
      | inr result => exact Meets.pure fun w hw => ⟨used, rest, hsplit, hw⟩
      | inl s' =>
          refine Meets.exists fun r' => Meets.exists fun out' => Meets.pre fun h => ?_
          obtain ⟨hs', hp⟩ := h
          refine (ih hs').mono (fun _ hw => hw) ?_ ?_
          · rintro result w ⟨used', rest', hsplit', hend⟩
            refine ⟨used ++ used', rest', by rw [hsplit, hsplit', List.append_assoc], ?_⟩
            rw [Receiver.hears_append, hp]
            exact hend
          · intro w hw hfuel hlt
            have hpos : 0 < used.length := List.length_pos_iff.mpr hne
            have hlen : heard.length = used.length + rest.length := by
              rw [hsplit, List.length_append]
            rw [hsplit, Receiver.hears_append, hp]
            exact hw hfuel (by omega)

end Session

theorem is_start (dst : Word) : Session.Is dst Session.start
    { phase := .control, blocks := [], syncStarted := false, syncRetries := 0#32,
      blockRetries := 0#32 } where
  syncStarted := rfl
  syncRetries := rfl
  blockRetries := rfl
  expected := rfl
  transfer := {
    full := fun b hb => absurd hb (List.not_mem_nil)
    offset := rfl
    sound := sound_short (by decide)
    header := fun _ => rfl
    ready := fun hne => absurd rfl hne }

/-- **The loader is the receiver.** From the bytes, timeouts and errors on the line the loader
makes what the receiver makes of them. -/
theorem loader_follows (fuel : Nat) (dst : Word) (uart : List Poll) (sd : List (Option Sector)) :
    After
      (fun result w => ∃ used rest, hearing uart = used ++ rest ∧
        Ended dst (hears dst Receiver.start used) rest (.inr result) w)
      (fun _ => 128 < fuel → (hearing uart).length < fuel →
        (hears dst Receiver.start (hearing uart)).1.running = true)
      ((xmodemLoadBootImage fuel dst true).run.run { uart := uart, sd := sd, trace := [] }) := by
  have hsession : Meets (Listening (hearing uart) [] []) _ _ _ :=
    hears_session fuel fuel (is_start dst)
  exact hsession { uart := uart, sd := sd, trace := [.clearStatus (uartRxOverrun ||| uartRxFrameErr)] }
    ⟨rfl, rfl, rfl⟩

/-- When the receiver has returned after what is heard first, the loader returns the same. -/
theorem loader_returns {fuel : Nat} {dst : Word} {uart : List Poll} {sd : List (Option Sector)}
    {heard rest : List Heard} {result : Except XmodemError Word}
    (hsplit : hearing uart = heard ++ rest) (hfuel : 128 < fuel)
    (hlen : (hearing uart).length < fuel)
    (hdone : (hears dst Receiver.start heard).1.phase = .done result) :
    let run := (xmodemLoadBootImage fuel dst true).run.run { uart := uart, sd := sd, trace := [] }
    run.1 = .ok result ∧ ∀ size, result = .ok size → storedBytes run.2.trace =
      payloadStores dst (hears dst Receiver.start heard).1.blocks.flatten := by
  have hfollows := loader_follows fuel dst uart sd
  have hall : hears dst Receiver.start (hearing uart) = hears dst Receiver.start heard := by
    rw [hsplit, Receiver.hears_append, Receiver.hears_done hdone]
  generalize (xmodemLoadBootImage fuel dst true).run.run { uart := uart, sd := sd, trace := [] }
    = run at hfollows
  obtain ⟨res, w⟩ := run
  cases res with
  | error stop =>
      have hrun := hfollows hfuel hlen
      rw [hall, Receiver.running, hdone] at hrun
      cases hrun
  | ok result' =>
      obtain ⟨used, rest', hused, hphase, -, -, hstored⟩ := hfollows
      have hsame : hears dst Receiver.start used = hears dst Receiver.start heard := by
        rw [← hall, hused, Receiver.hears_append, Receiver.hears_done hphase]
      rw [hsame] at hphase hstored
      rw [hdone] at hphase
      obtain rfl : result = result' := Phase.done.inj hphase
      exact ⟨rfl, hstored⟩

end MelonSoc.Boot
