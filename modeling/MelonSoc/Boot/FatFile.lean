import MelonSoc.Boot.Card

set_option autoImplicit false

/-! # CopyAt a file

`copy_payload`, `checkHeader` and the loops over the sectors of a file on a card: what they store
and that they come to an end.
-/

namespace MelonSoc.Boot

/-- The bytes of a sector in order. -/
def sectorBytes (sector : Sector) : List Byte := (List.range 512).map sector

/-- Bytes that are stored one behind the other from `dst` on. -/
def span (dst : Word) (bytes : List Byte) : List (Word × Byte) :=
  bytes.zipIdx.map fun p => (dst + BitVec.ofNat 32 p.2, p.1)

theorem payloadStores_eq_span (dst : Word) (stream : List Byte) :
    payloadStores dst stream = span dst (payloadOf stream) := rfl

theorem span_append (dst : Word) (a b : List Byte) :
    span dst (a ++ b) = span dst a ++ span (dst + BitVec.ofNat 32 a.length) b := by
  rw [span, span, span, List.zipIdx_append, List.map_append, Nat.zero_add]
  congr 1
  rw [← Nat.add_zero a.length, ← List.map_snd_add_zipIdx_eq_zipIdx, List.map_map]
  refine List.map_congr_left fun p _ => ?_
  simp only [Function.comp, Prod.map, id, Nat.add_zero, BitVec.ofNat_add]
  rw [BitVec.add_comm (BitVec.ofNat 32 p.2), BitVec.add_assoc]

section Copy

variable {card : Card}

/-- What a copy of `count` bytes has done. -/
structure Copied (dst : Word) (src : Nat → Byte) (n : Nat) (t : List Event) : Prop where
  reads : readsIn t = []
  stored : storedBytes t = span dst ((List.range n).map src)

theorem Copied.nil (dst : Word) (src : Nat → Byte) : Copied dst src 0 [] := ⟨rfl, rfl⟩

theorem Copied.marks {dst : Word} {src : Nat → Byte} {n : Nat} {t t' : List Event}
    (h : Copied dst src n t) (ht : Marks t') : Copied dst src n (t ++ t') where
  reads := by rw [readsIn_append, h.reads, readsIn_marks ht]; rfl
  stored := by rw [storedBytes_append, h.stored, storedBytes_marks ht, List.append_nil]

theorem Copied.store {dst : Word} {src : Nat → Byte} {n : Nat} {t : List Event}
    (h : Copied dst src n t) :
    Copied dst src (n + 1) (t ++ [.store (dst + BitVec.ofNat 32 n) (src n)]) where
  reads := by rw [readsIn_append, h.reads]; rfl
  stored := by
    rw [storedBytes_append, h.stored, List.range_succ, List.map_append, span_append]
    simp [span, storedBytes]

/-- A word, whose bytes are stored in order. -/
theorem Copied.word {dst : Word} {src : Nat → Byte} {n : Nat} {t : List Event}
    (h : Copied dst src n t) : Copied dst src (n + 4) (t ++
      [.store (dst + BitVec.ofNat 32 n) (src n),
       .store (dst + BitVec.ofNat 32 n + 1#32) (src (n + 1)),
       .store (dst + BitVec.ofNat 32 n + 2#32) (src (n + 2)),
       .store (dst + BitVec.ofNat 32 n + 3#32) (src (n + 3))]) := by
  have h4 := h.store.store.store.store
  simp only [BitVec.ofNat_add, ← BitVec.add_assoc, List.append_assoc, List.cons_append,
    List.nil_append] at h4
  have e2 : dst + BitVec.ofNat 32 n + BitVec.ofNat 32 1 + BitVec.ofNat 32 1
      = dst + BitVec.ofNat 32 n + 2#32 := by rw [BitVec.add_assoc]; rfl
  have e3 : dst + BitVec.ofNat 32 n + 2#32 + BitVec.ofNat 32 1
      = dst + BitVec.ofNat 32 n + 3#32 := by rw [BitVec.add_assoc]; rfl
  rw [e2, e3] at h4
  exact h4

/-- Where a copy is: `n` bytes are done and `count` are left. -/
structure Partly (dst : Word) (src : Nat → Byte) (total : Nat) (v : Word × Nat × Word)
    (t : List Event) : Prop where
  left : v.2.1 + v.2.2.toNat = total
  out : v.1 = dst + BitVec.ofNat 32 v.2.1
  copied : Copied dst src v.2.1 t

theorem runs_copyWords (dst : Word) (src : Nat → Byte) (count : Word) :
    Runs card (fun fuel => Prog.loop .fuel (copyWord src) fuel (dst, 0, count))
      (Partly dst src count.toNat) := by
  refine Runs.loop (f := fun _ => copyWord src) (Partly dst src count.toNat)
    (fun v => v.2.2.toNat) (fun v t hv => ?_) _ ⟨Nat.zero_add _, by simp, .nil dst src⟩
  obtain ⟨out, i, left⟩ := v
  unfold copyWord
  dsimp only
  by_cases hlt : left < 4#32
  · simp only [hlt, if_true]
    refine .pure ⟨fun _ h => (Sum.inr_ne_inl h).elim, fun a h => ?_⟩
    obtain rfl := Sum.inr.inj h
    rw [List.append_nil]
    exact hv
  · simp only [hlt, if_false]
    refine .emit_bind rfl (.emit_bind rfl (.emit_bind rfl (.emit_bind rfl ?_)))
    refine .add_bind fun t1 h1 => .sub_bind fun t2 h2 => .pure ⟨fun b' h => ?_, fun _ h => ?_⟩
    · obtain rfl := Sum.inl.inj h
      have h4 : 4 ≤ left.toNat := by
        rw [BitVec.not_lt, BitVec.le_def] at hlt
        exact hlt
      have hleft : (left - 4#32).toNat = left.toNat - 4 :=
        BitVec.toNat_sub_of_le (by rw [BitVec.le_def]; exact h4)
      have hsum : i + left.toNat = count.toNat := hv.left
      have hword := (hv.copied.word.marks h1).marks h2
      have hout : out = dst + BitVec.ofNat 32 i := hv.out
      refine ⟨⟨?_, ?_, ?_⟩, ?_⟩
      · show i + 4 + (left - 4#32).toNat = count.toNat
        omega
      · show out + 4#32 = dst + BitVec.ofNat 32 (i + 4)
        rw [hout, BitVec.ofNat_add, BitVec.add_assoc]
      · rw [← hout] at hword
        simpa using hword
      · show (left - 4#32).toNat < left.toNat
        omega
    · exact (Sum.inl_ne_inr h).elim

theorem runs_copyBytes (dst : Word) (src : Nat → Byte) (total : Nat) (v : Word × Nat × Word)
    (t : List Event) (hv : Partly dst src total v t) :
    Runs card (fun fuel => Prog.loop .fuel (copyByte src) fuel v)
      fun out t' => out = dst + BitVec.ofNat 32 total ∧ Copied dst src total (t ++ t') := by
  refine Runs.loop (f := fun _ => copyByte src) (fun v t' => Partly dst src total v (t ++ t'))
    (fun v => v.2.2.toNat) (fun v t' hv => ?_) _ (by rwa [List.append_nil])
  obtain ⟨out, i, left⟩ := v
  have hsum : i + left.toNat = total := hv.left
  have hout : out = dst + BitVec.ofNat 32 i := hv.out
  unfold copyByte
  dsimp only
  refine .sub_bind fun t1 h1 => ?_
  by_cases hzero : left = 0#32
  · simp only [hzero, if_true]
    refine .pure ⟨fun _ h => (Sum.inr_ne_inl h).elim, fun a h => ?_⟩
    obtain rfl := Sum.inr.inj h
    have hi : i = total := by simpa [hzero] using hsum
    refine ⟨by rw [hout, hi], ?_⟩
    have hcopied := hv.copied.marks h1
    rw [show (out, i, left).2.1 = total from hi] at hcopied
    simpa using hcopied
  · simp only [hzero, if_false]
    refine .emit_bind rfl (.add_bind fun t2 h2 => .pure ⟨fun b' h => ?_, fun _ h => ?_⟩)
    · obtain rfl := Sum.inl.inj h
      have hpos : 1 ≤ left.toNat := by
        have hne : left.toNat ≠ 0 := fun h0 => hzero (BitVec.eq_of_toNat_eq h0)
        omega
      have hleft : (left - 1#32).toNat = left.toNat - 1 :=
        BitVec.toNat_sub_of_le (by rw [BitVec.le_def]; exact hpos)
      have hstore := ((hv.copied.marks h1).store).marks h2
      refine ⟨⟨?_, ?_, ?_⟩, ?_⟩
      · show i + 1 + (left - 1#32).toNat = total
        omega
      · show out + 1#32 = dst + BitVec.ofNat 32 (i + 1)
        rw [hout, BitVec.ofNat_add, BitVec.add_assoc]
      · rw [← hout] at hstore
        simpa using hstore
      · show (left - 1#32).toNat < left.toNat
        omega
    · exact (Sum.inl_ne_inr h).elim

/-- `copy_payload` stores the bytes in order. -/
theorem runs_copyPayload (dst : Word) (src : Nat → Byte) (count : Word) :
    Runs card (fun fuel => copyPayload fuel dst src count)
      fun out t => out = dst + count ∧ Copied dst src count.toNat t := by
  refine (runs_copyWords dst src count).bind fun v t hv => ?_
  refine (runs_copyBytes dst src count.toNat v t hv).mono fun out t' h => ?_
  rw [BitVec.ofNat_toNat, BitVec.setWidth_eq] at h
  exact h

end Copy

/-! ## The header -/

section Header

variable {card : Card} {dst fileSize : Word} {stream : List Byte}

/-- `boot_image_validate_file_size` accepts the size of the image. -/
theorem validateFileSize_eq (text data : Word) (h12 : 12 ≤ fileSize.toNat) :
    bootImageValidateFileSize fileSize text data = (pure
      (if fileSize.toNat = 12 + (text.toNat + data.toNat) then .ok () else .error .fileSize) :
        Loader (Except ImageError Unit)) := by
  have hsize : headerSize.toNat = 12 := rfl
  have hpayload : (fileSize - headerSize).toNat = fileSize.toNat - 12 :=
    BitVec.toNat_sub_of_le (by rw [BitVec.le_def]; exact h12)
  unfold bootImageValidateFileSize
  rw [if_neg (by rw [BitVec.lt_def]; omega), sub_eq (by omega), pure_bind]
  by_cases hlt : fileSize - headerSize < text
  · rw [if_pos hlt, if_neg (by rw [BitVec.lt_def] at hlt; omega)]
  · have hle : text.toNat ≤ (fileSize - headerSize).toNat := by
      rw [BitVec.not_lt, BitVec.le_def] at hlt
      exact hlt
    have hrest : (fileSize - headerSize - text).toNat = fileSize.toNat - 12 - text.toNat := by
      rw [BitVec.toNat_sub_of_le (by rw [BitVec.le_def]; exact hle), hpayload]
    rw [if_neg hlt, sub_eq hle, pure_bind]
    congr 1
    refine if_congr ?_ rfl rfl
    rw [← BitVec.toNat_inj, hrest]
    omega

/-- The header of the stream is accepted for a file of this size. -/
structure Accepts (dst fileSize : Word) (stream : List Byte) : Prop where
  header : ValidHeader dst stream
  size : fileSize.toNat = imageLength stream

/-- The header in the first sector is the one of the stream. -/
theorem runs_checkHeader (sector : Sector) (h : ∀ j, j < 12 → sector j = bytesAt stream j)
    (h12 : 12 ≤ fileSize.toNat) :
    Runs card (fun _ => checkHeader dst fileSize sector) fun r t =>
      storedBytes t = [] ∧ readsIn t = [] ∧
        (∀ sizes, r = .ok sizes → Accepts dst fileSize stream ∧ sizes.text = textOf stream ∧
          sizes.data = dataOf stream) ∧
        ∀ e, r = .error e → ¬Accepts dst fileSize stream := by
  have hheader : ∀ j, j < 12 → (fun i => if i < headerSize.toNat then sector i else 0#8) j
      = bytesAt stream j := by
    intro j hj
    have hj' : j < headerSize.toNat := hj
    simp only [hj', if_true]
    exact h j hj
  obtain ⟨res, hparse, hok, herr⟩ := parseHeader_eq dst _ stream hheader
  unfold checkHeader
  dsimp only
  rw [hparse, pure_bind]
  cases res with
  | error e =>
      exact .pure ⟨rfl, rfl, fun _ h => (by cases h), fun _ _ hacc => herr e rfl hacc.header⟩
  | ok sizes =>
      obtain ⟨hvalid, htext, hdata, -⟩ := hok sizes rfl
      dsimp only
      rw [validateFileSize_eq _ _ h12, pure_bind]
      have himage : imageLength stream = 12 + (sizes.text.toNat + sizes.data.toNat) := by
        rw [imageLength, payloadLength, htext, hdata]
      by_cases hfit : fileSize.toNat = 12 + (sizes.text.toNat + sizes.data.toNat)
      · rw [if_pos hfit]
        refine .emit_bind rfl (.pure ⟨rfl, rfl, fun sizes' h => ?_, fun _ h => (by cases h)⟩)
        obtain rfl := Except.ok.inj h
        exact ⟨⟨hvalid, hfit.trans himage.symm⟩, htext, hdata⟩
      · rw [if_neg hfit]
        exact .pure ⟨rfl, rfl, fun _ h => (by cases h),
          fun _ _ hacc => hfit (hacc.size.trans himage)⟩

end Header

/-! ## The sectors of a file -/

/-- The FAT entry of a cluster. -/
def fatEntry (card : Card) (vol : Volume) (cluster : Word) : Option Word :=
  (card (vol.fatLba + (cluster * 4#32) / 512#32)).map fun sector =>
    rd32 sector ((cluster * 4#32) &&& 511#32).toNat &&& 0x0FFFFFFF#32

theorem runs_nextCluster (card : Card) (vol : Volume) (cluster : Word) :
    Runs card (fun _ => nextCluster vol cluster) fun r t => storedBytes t = [] ∧
      (∀ c, r = .ok c → fatEntry card vol cluster = some c) ∧
      ∀ e, r = .error e → e = .read ∧ fatEntry card vol cluster = none := by
  unfold nextCluster
  dsimp only
  refine .read_bind ?_
  unfold fatEntry
  cases hcard : card (vol.fatLba + (cluster * 4#32) / 512#32) with
  | none =>
      refine .pure ⟨rfl, fun _ h => (by cases h), fun e h => ?_⟩
      exact ⟨(Except.error.inj h).symm, rfl⟩
  | some sector =>
      refine .pure ⟨rfl, fun c h => ?_, fun _ h => (by cases h)⟩
      obtain rfl := Except.ok.inj h
      rfl

theorem fatEntry_none {card : Card} {vol : Volume} {cluster : Word}
    (h : fatEntry card vol cluster = none) : ∃ lba, card lba = none :=
  ⟨_, Option.map_eq_none_iff.mp h⟩

/-- Behind the sectors `read` of a chain that begins at `start` comes sector `s` of `cluster`. -/
inductive Trail (card : Card) (vol : Volume) (start : Word) : List Sector → Word → Nat → Prop
  | start : Trail card vol start [] start 0
  | sector {read : List Sector} {cluster : Word} {s : Nat} {sector : Sector}
      (h : Trail card vol start read cluster s) (hend : cluster < chainEnd)
      (hs : s < vol.secPerClus.toNat)
      (hcard : card (vol.first cluster + BitVec.ofNat 32 s) = some sector) :
      Trail card vol start (read ++ [sector]) cluster (s + 1)
  | link {read : List Sector} {cluster next : Word}
      (h : Trail card vol start read cluster vol.secPerClus.toNat) (hend : cluster < chainEnd)
      (hnext : fatEntry card vol cluster = some next) : Trail card vol start read next 0

/-- The bytes of the sectors, as far as they belong to a file of this size. -/
def fileBytes (fileSize : Word) (read : List Sector) : List Byte :=
  (read.flatMap sectorBytes).take fileSize.toNat

section FileBytes

variable {fileSize : Word} {read : List Sector}

theorem flatMap_sectorBytes_length (read : List Sector) :
    (read.flatMap sectorBytes).length = 512 * read.length := by
  induction read with
  | nil => rfl
  | cons sector read ih =>
      rw [List.flatMap_cons, List.length_append, ih, sectorBytes, List.length_map,
        List.length_range, List.length_cons]
      omega

theorem fileBytes_length :
    (fileBytes fileSize read).length = min fileSize.toNat (512 * read.length) := by
  rw [fileBytes, List.length_take, flatMap_sectorBytes_length]

/-- One more sector. -/
theorem fileBytes_snoc (sector : Sector) :
    fileBytes fileSize (read ++ [sector]) = fileBytes fileSize read ++
      (sectorBytes sector).take (fileSize.toNat - 512 * read.length) := by
  rw [fileBytes, List.flatMap_append, List.take_append, flatMap_sectorBytes_length, fileBytes]
  simp

/-- The header of the file is in its first sector. -/
theorem fileBytes_head (sector : Sector) (h12 : 12 ≤ fileSize.toNat) (j : Nat) (hj : j < 12) :
    sector j = bytesAt (fileBytes fileSize [sector]) j := by
  have hlen : j < (fileBytes fileSize [sector]).length := by
    rw [fileBytes_length]
    simp
    omega
  rw [bytesAt, List.getD_eq_getElem?_getD, List.getElem?_eq_getElem hlen]
  simp [fileBytes, sectorBytes]

end FileBytes

/-! ## A sector -/

theorem sectorBytes_part (sector : Sector) {off n : Nat} (hn : n ≤ 512) :
    ((sectorBytes sector).take n).drop off = (List.range (n - off)).map fun i => sector (off + i) := by
  refine List.ext_getElem (by simp [sectorBytes]; omega) fun i h1 h2 => ?_
  simp [sectorBytes]

/-- The bytes of a sector that are copied: as many as are left of the file. -/
def chunk (remaining : Word) : Word := if remaining < 512#32 then remaining else 512#32

theorem chunk_toNat (remaining : Word) : (chunk remaining).toNat = min 512 remaining.toNat := by
  unfold chunk
  by_cases h : remaining < 512#32
  · rw [if_pos h]
    rw [BitVec.lt_def] at h
    exact (Nat.min_eq_right (Nat.le_of_lt h)).symm
  · rw [if_neg h]
    rw [BitVec.not_lt, BitVec.le_def] at h
    exact (Nat.min_eq_left h).symm

/-- The variables behind a sector that was copied from `off` on. -/
def Copying.advance (off : Word) (c : Copying) : Copying :=
  { c with
    payloadOut := c.payloadOut + (chunk c.remaining - off)
    fileOff := c.fileOff + chunk c.remaining
    remaining := c.remaining - chunk c.remaining }

section Sectors

variable {card : Card} {vol : Volume} {dst fileSize start : Word}

theorem runs_copySector (sector : Sector) (off : Word) (c : Copying)
    (hoff : off.toNat ≤ (chunk c.remaining).toNat) :
    Runs card (fun fuel => copySector fuel sector off c) fun c' t => c' = c.advance off ∧
      storedBytes t = span c.payloadOut
        (((sectorBytes sector).take (chunk c.remaining).toNat).drop off.toNat) := by
  have hcount : (chunk c.remaining - off).toNat = (chunk c.remaining).toNat - off.toNat :=
    BitVec.toNat_sub_of_le (by rw [BitVec.le_def]; exact hoff)
  have hmax : (chunk c.remaining).toNat ≤ 512 := by
    rw [chunk_toNat]
    exact Nat.min_le_left _ _
  unfold copySector
  refine .sub_bind fun t1 h1 => ?_
  refine (runs_copyPayload _ _ _).bind fun out t2 h2 => ?_
  refine .add_bind fun t3 h3 => .sub_bind fun t4 h4 => .pure ⟨?_, ?_⟩
  · rw [h2.1]
    rfl
  · have hstored := h2.2.stored
    rw [show (if c.remaining < 512#32 then c.remaining else 512#32) = chunk c.remaining from rfl,
      hcount, ← sectorBytes_part sector hmax] at hstored
    simp [storedBytes_marks h1, storedBytes_marks h3, storedBytes_marks h4, hstored]

/-- The sectors `read` of the file have been copied, and sector `s` of the cluster is next. -/
structure CopyAt (card : Card) (vol : Volume) (dst fileSize start : Word) (s : Nat)
    (c : Copying) (read : List Sector) (t : List Event) : Prop where
  trail : Trail card vol start read c.cluster s
  needed : 512 * read.length < fileSize.toNat + 512
  remaining : c.remaining.toNat = fileSize.toNat - 512 * read.length
  offset : c.fileOff.toNat = min fileSize.toNat (512 * read.length)
  out : c.payloadOut = dst + BitVec.ofNat 32 ((fileBytes fileSize read).length - 12)
  stored : storedBytes t = span dst ((fileBytes fileSize read).drop 12)
  header : read ≠ [] → Accepts dst fileSize (fileBytes fileSize read) ∧
    c.textSize = textOf (fileBytes fileSize read) ∧ c.dataSize = dataOf (fileBytes fileSize read)

variable {s : Nat} {c : Copying} {read : List Sector} {t : List Event}

/-- What is copied of the next sector. -/
theorem CopyAt.snoc (h : CopyAt card vol dst fileSize start s c read t) (sector : Sector)
    (hleft : c.remaining ≠ 0#32) : fileBytes fileSize (read ++ [sector]) =
      fileBytes fileSize read ++ (sectorBytes sector).take (chunk c.remaining).toNat := by
  have hpos : c.remaining.toNat ≠ 0 := fun h0 => hleft (BitVec.eq_of_toNat_eq h0)
  have hrem := h.remaining
  rw [fileBytes_snoc sector, ← hrem, chunk_toNat]
  congr 1
  have hlen : (sectorBytes sector).length = 512 := by simp [sectorBytes]
  rw [← hlen, List.take_eq_take_min]
  rw [hlen, Nat.min_comm]

/-- The counters behind the next sector. -/
theorem CopyAt.counters (h : CopyAt card vol dst fileSize start s c read t) (sector : Sector)
    (hleft : c.remaining ≠ 0#32) (off : Word) :
    512 * (read ++ [sector]).length < fileSize.toNat + 512 ∧
      (c.advance off).remaining.toNat = fileSize.toNat - 512 * (read ++ [sector]).length ∧
      (c.advance off).fileOff.toNat = min fileSize.toNat (512 * (read ++ [sector]).length) := by
  have hpos : c.remaining.toNat ≠ 0 := fun h0 => hleft (BitVec.eq_of_toNat_eq h0)
  have hrem := h.remaining
  have hoff := h.offset
  have hchunk := chunk_toNat c.remaining
  have hsize : fileSize.toNat < 2 ^ 32 := fileSize.isLt
  have hsub : (c.remaining - chunk c.remaining).toNat = c.remaining.toNat - (chunk c.remaining).toNat :=
    BitVec.toNat_sub_of_le (by rw [BitVec.le_def]; omega)
  have hadd : (c.fileOff + chunk c.remaining).toNat = c.fileOff.toNat + (chunk c.remaining).toNat := by
    rw [BitVec.toNat_add]
    omega
  rw [List.length_append, List.length_singleton]
  refine ⟨by omega, ?_, ?_⟩
  · show (c.remaining - chunk c.remaining).toNat = _
    omega
  · show (c.fileOff + chunk c.remaining).toNat = _
    omega

variable {sector : Sector}

/-- The first sector, whose header is accepted. -/
theorem CopyAt.first (h : CopyAt card vol dst fileSize start s c [] t) (h12 : 12 ≤ fileSize.toNat)
    (hend : c.cluster < chainEnd) (hs : s < vol.secPerClus.toNat)
    (hcard : card (vol.first c.cluster + BitVec.ofNat 32 s) = some sector)
    (hacc : Accepts dst fileSize (fileBytes fileSize [sector])) {t' : List Event}
    (ht : storedBytes t' = span c.payloadOut
      (((sectorBytes sector).take (chunk c.remaining).toNat).drop 12)) :
    CopyAt card vol dst fileSize start (s + 1)
      ({ c with textSize := textOf (fileBytes fileSize [sector])
                dataSize := dataOf (fileBytes fileSize [sector]) }.advance headerSize)
      [sector] (t ++ t') := by
  have hrem : c.remaining.toNat = fileSize.toNat := h.remaining
  have hleft : c.remaining ≠ 0#32 := by
    intro h0
    rw [h0] at hrem
    simp at hrem
    omega
  have hbytes : fileBytes fileSize [sector] = (sectorBytes sector).take (chunk c.remaining).toNat := by
    have hsnoc := h.snoc sector hleft
    simpa [fileBytes] using hsnoc
  have hout : c.payloadOut = dst := by simpa [fileBytes] using h.out
  have hstored : storedBytes t = [] := by simpa [fileBytes, span] using h.stored
  obtain ⟨hneeded, hrem', hoff'⟩ := h.counters sector hleft headerSize
  refine ⟨h.trail.sector hend hs hcard, hneeded, hrem', hoff', ?_, ?_, fun _ => ⟨hacc, rfl, rfl⟩⟩
  · show c.payloadOut + (chunk c.remaining - headerSize) = _
    have hlen : (fileBytes fileSize [sector]).length = (chunk c.remaining).toNat := by
      rw [fileBytes_length, chunk_toNat, hrem]
      exact Nat.min_comm _ _
    have hchunk := chunk_toNat c.remaining
    have hsub : (chunk c.remaining - headerSize).toNat = (chunk c.remaining).toNat - 12 :=
      BitVec.toNat_sub_of_le (by
        rw [BitVec.le_def]
        show 12 ≤ (chunk c.remaining).toNat
        omega)
    rw [hlen, ← hsub, BitVec.ofNat_toNat, BitVec.setWidth_eq, hout]
  · rw [storedBytes_append, hstored, List.nil_append, ht, hout, hbytes]

/-- Another sector. -/
theorem CopyAt.more (h : CopyAt card vol dst fileSize start s c read t) (hread : read ≠ [])
    (h12 : 12 ≤ fileSize.toNat) (hleft : c.remaining ≠ 0#32) (hend : c.cluster < chainEnd)
    (hs : s < vol.secPerClus.toNat)
    (hcard : card (vol.first c.cluster + BitVec.ofNat 32 s) = some sector) {t' : List Event}
    (ht : storedBytes t' = span c.payloadOut ((sectorBytes sector).take (chunk c.remaining).toNat)) :
    CopyAt card vol dst fileSize start (s + 1) (c.advance 0#32) (read ++ [sector]) (t ++ t') := by
  have hsnoc := h.snoc sector hleft
  obtain ⟨hneeded, hrem', hoff'⟩ := h.counters sector hleft 0#32
  have hlen : 12 ≤ (fileBytes fileSize read).length := by
    have hpos : 0 < read.length := List.length_pos_iff.mpr hread
    rw [fileBytes_length]
    omega
  have hchunk : (chunk c.remaining).toNat = ((sectorBytes sector).take (chunk c.remaining).toNat).length := by
    rw [List.length_take, sectorBytes, List.length_map, List.length_range, chunk_toNat]
    omega
  obtain ⟨hacc, htext, hdata⟩ := h.header hread
  refine ⟨h.trail.sector hend hs hcard, hneeded, hrem', hoff', ?_, ?_, fun _ => ⟨⟨?_, ?_⟩, ?_, ?_⟩⟩
  · show c.payloadOut + (chunk c.remaining - 0#32) = _
    rw [BitVec.sub_zero, hsnoc, List.length_append, h.out, ← hchunk, Nat.sub_add_comm hlen,
      BitVec.ofNat_add, BitVec.ofNat_toNat, BitVec.setWidth_eq, BitVec.add_assoc]
  · rw [storedBytes_append, h.stored, ht, hsnoc, List.drop_append_of_le_length hlen, span_append,
      List.length_drop, h.out]
  · rw [hsnoc]
    exact (validHeader_append _ hlen).mpr hacc.header
  · rw [hsnoc, imageLength_append _ hlen]
    exact hacc.size
  · rw [hsnoc, textOf_append _ hlen]
    exact htext
  · rw [hsnoc, dataOf_append _ hlen]
    exact hdata

/-- Behind a part of the file a sector that it needs, or the FAT entry of its last cluster, cannot
be read. -/
def Unread (card : Card) (vol : Volume) (fileSize start : Word) : Prop :=
  ∃ read cluster s, Trail card vol start read cluster s ∧ cluster < chainEnd ∧
    512 * read.length < fileSize.toNat ∧
    (s < vol.secPerClus.toNat ∧ card (vol.first cluster + BitVec.ofNat 32 s) = none ∨
      s = vol.secPerClus.toNat ∧ fatEntry card vol cluster = none)

theorem Unread.lba (h : Unread card vol fileSize start) : ∃ lba, card lba = none := by
  obtain ⟨_, _, _, _, _, _, ⟨_, h⟩ | ⟨_, h⟩⟩ := h
  · exact ⟨_, h⟩
  · exact fatEntry_none h

/-- Why the copy stops early: a sector cannot be read, or the header is not accepted. -/
def FileRefused (card : Card) (vol : Volume) (dst fileSize start : Word) (e : FatError)
    (t : List Event) : Prop :=
  (e = .read ∧ Unread card vol fileSize start) ∨ ∃ sector cluster s,
    Trail card vol start [sector] cluster s ∧
      ¬Accepts dst fileSize (fileBytes fileSize [sector]) ∧ storedBytes t = []

/-- The sectors of a cluster have been copied, or the file is at its end. -/
structure ClusterDone (card : Card) (vol : Volume) (dst fileSize start cluster : Word)
    (before : Nat) (r : Except FatError Copying) (t : List Event) : Prop where
  ok : ∀ c, r = .ok c → c.cluster = cluster ∧ c.remaining.toNat < before ∧ ∃ s read,
    CopyAt card vol dst fileSize start s c read t ∧
      (s = vol.secPerClus.toNat ∨ c.remaining = 0#32)
  error : ∀ e, r = .error e → FileRefused card vol dst fileSize start e t

/-- Where the loop over the sectors of a cluster is. -/
structure InCluster (card : Card) (vol : Volume) (dst fileSize start cluster : Word)
    (before : Nat) (v : Nat × Copying) (t : List Event) : Prop where
  same : v.2.cluster = cluster
  bound : v.1 ≤ vol.secPerClus.toNat
  less : v.2.remaining.toNat < before ∨ v.1 = 0 ∧ v.2.remaining.toNat = before
  copied : ∃ read, CopyAt card vol dst fileSize start v.1 v.2 read t

theorem advance_less (hleft : c.remaining ≠ 0#32) (off : Word) :
    (c.advance off).remaining.toNat < c.remaining.toNat := by
  have hpos : c.remaining.toNat ≠ 0 := fun h0 => hleft (BitVec.eq_of_toNat_eq h0)
  have hchunk := chunk_toNat c.remaining
  have hsub : (c.remaining - chunk c.remaining).toNat = c.remaining.toNat - (chunk c.remaining).toNat :=
    BitVec.toNat_sub_of_le (by rw [BitVec.le_def]; omega)
  show (c.remaining - chunk c.remaining).toNat < _
  omega

/-- A round of the loop over the sectors of a cluster. -/
theorem runs_loadSector {cluster : Word} {before : Nat} (h12 : 12 ≤ fileSize.toNat)
    (hspc : 0 < vol.secPerClus.toNat) (hchain : cluster < chainEnd) (hbefore : before ≠ 0)
    (v : Nat × Copying) (t : List Event) (hv : InCluster card vol dst fileSize start cluster before v t) :
    Runs card (fun fuel => loadSector fuel vol dst fileSize (vol.first cluster) v) fun r t' =>
      (∀ v', r = .inl v' → InCluster card vol dst fileSize start cluster before v' (t ++ t') ∧
        vol.secPerClus.toNat - v'.1 < vol.secPerClus.toNat - v.1) ∧
      ∀ a, r = .inr a → ClusterDone card vol dst fileSize start cluster before a (t ++ t') := by
  obtain ⟨s, c⟩ := v
  obtain ⟨read, hcopy⟩ := hv.copied
  obtain rfl : c.cluster = cluster := hv.same
  have hbound : s ≤ vol.secPerClus.toNat := hv.bound
  have hless : c.remaining.toNat < before ∨ s = 0 ∧ c.remaining.toNat = before := hv.less
  unfold loadSector
  dsimp only
  by_cases hend : vol.secPerClus.toNat ≤ s ∨ c.remaining = 0#32
  · simp only [if_pos hend]
    refine .pure ⟨fun _ h => (Sum.inr_ne_inl h).elim, fun a h => ?_⟩
    obtain rfl := Sum.inr.inj h
    rw [List.append_nil]
    refine ⟨fun c' h => ?_, fun _ h => (by cases h)⟩
    obtain rfl := Except.ok.inj h
    refine ⟨rfl, ?_, s, read, hcopy, ?_⟩
    · rcases hend with hge | hzero
      · omega
      · have h0 : c.remaining.toNat = 0 := by rw [hzero]; rfl
        omega
    · exact hend.imp_left fun hge => Nat.le_antisymm hbound hge
  · simp only [if_neg hend]
    obtain ⟨hs, hleft⟩ := not_or.mp hend
    rw [Nat.not_le] at hs
    refine .read_bind ?_
    cases hcard : card (vol.first c.cluster + BitVec.ofNat 32 s) with
    | none =>
        refine .pure ⟨fun _ h => (Sum.inr_ne_inl h).elim, fun a h => ?_⟩
        obtain rfl := Sum.inr.inj h
        refine ⟨fun _ h => (by cases h), fun e h => ?_⟩
        obtain rfl := Except.error.inj h
        have hrem : c.remaining.toNat = fileSize.toNat - 512 * read.length := hcopy.remaining
        have hpos : c.remaining.toNat ≠ 0 := fun h0 => hleft (BitVec.eq_of_toNat_eq h0)
        exact .inl ⟨rfl, read, c.cluster, s, hcopy.trail, hchain, by omega, .inl ⟨hs, hcard⟩⟩
    | some sector =>
        dsimp only
        by_cases hfirst : c.fileOff = 0#32
        · simp only [if_pos hfirst]
          obtain rfl : read = [] := by
            have hoff := hcopy.offset
            rw [show (s, c).2.fileOff = 0#32 from hfirst] at hoff
            have hlen : read.length = 0 := by
              simp only [BitVec.toNat_ofNat] at hoff
              omega
            exact List.length_eq_zero_iff.mp hlen
          refine (runs_checkHeader sector (fileBytes_head sector h12) h12).bind fun res t1 h1 => ?_
          obtain ⟨hstored1, -, hok, herr⟩ := h1
          cases res with
          | error e =>
              refine .pure ⟨fun _ h => (Sum.inr_ne_inl h).elim, fun a h => ?_⟩
              obtain rfl := Sum.inr.inj h
              refine ⟨fun _ h => (by cases h), fun e' h => ?_⟩
              refine .inr ⟨sector, c.cluster, s + 1, hcopy.trail.sector hchain hs hcard, herr e rfl, ?_⟩
              have hstored : storedBytes t = [] := by simpa [fileBytes, span] using hcopy.stored
              rw [storedBytes_append, hstored, List.append_nil]
              exact hstored1
          | ok sizes =>
              obtain ⟨hacc, htext, hdata⟩ := hok sizes rfl
              have hchunk : headerSize.toNat ≤ (chunk c.remaining).toNat := by
                have hrem : c.remaining.toNat = fileSize.toNat := hcopy.remaining
                rw [chunk_toNat, hrem]
                exact Nat.le_min.mpr ⟨by decide, h12⟩
              refine (runs_copySector sector headerSize
                { c with textSize := sizes.text, dataSize := sizes.data } hchunk).bind fun c' t2 h2 =>
                .pure ⟨fun v' h => ?_, fun _ h => (Sum.inl_ne_inr h).elim⟩
              obtain rfl := Sum.inl.inj h
              obtain ⟨rfl, hstored2⟩ := h2
              have hstored : storedBytes
                  (.readBlock (vol.first c.cluster + BitVec.ofNat 32 s) :: (t1 ++ (t2 ++ []))) =
                  span c.payloadOut (((sectorBytes sector).take (chunk c.remaining).toNat).drop 12) := by
                show storedBytes (t1 ++ (t2 ++ [])) = _
                rw [storedBytes_append, hstored1, List.append_nil]
                exact hstored2
              have hnext := hcopy.first h12 hchain hs hcard hacc hstored
              rw [← htext, ← hdata] at hnext
              have hsmaller := advance_less hleft headerSize
              refine ⟨⟨rfl, hs, .inl ?_, _, hnext⟩, ?_⟩
              · show (c.advance headerSize).remaining.toNat < before
                omega
              · show vol.secPerClus.toNat - (s + 1) < vol.secPerClus.toNat - s
                omega
        · simp only [if_neg hfirst]
          have hread : read ≠ [] := by
            rintro rfl
            refine hfirst (BitVec.eq_of_toNat_eq ?_)
            rw [hcopy.offset]
            simp
          refine (runs_copySector sector 0#32 c (Nat.zero_le _)).bind fun c' t1 h1 =>
            .pure ⟨fun v' h => ?_, fun _ h => (Sum.inl_ne_inr h).elim⟩
          obtain rfl := Sum.inl.inj h
          obtain ⟨rfl, hstored⟩ := h1
          have hstored' : storedBytes
              (.readBlock (vol.first c.cluster + BitVec.ofNat 32 s) :: (t1 ++ [])) =
              span c.payloadOut ((sectorBytes sector).take (chunk c.remaining).toNat) := by
            rw [List.append_nil]
            exact hstored
          have hnext := hcopy.more hread h12 hleft hchain hs hcard hstored'
          have hsmaller := advance_less hleft 0#32
          refine ⟨⟨rfl, hs, .inl ?_, _, hnext⟩, ?_⟩
          · show (c.advance 0#32).remaining.toNat < before
            omega
          · show vol.secPerClus.toNat - (s + 1) < vol.secPerClus.toNat - s
            omega

/-! ## The clusters of a file -/

/-- Where the loop over the clusters of a file is. -/
def InFile (card : Card) (vol : Volume) (dst fileSize start : Word) (c : Copying)
    (t : List Event) : Prop :=
  ∃ s read, CopyAt card vol dst fileSize start s c read t ∧ (c.remaining ≠ 0#32 → s = 0)

/-- The file has been copied, or its chain is at an end. -/
structure FileDone (card : Card) (vol : Volume) (dst fileSize start : Word)
    (r : Except FatError Copying) (t : List Event) : Prop where
  ok : ∀ c, r = .ok c → ∃ s read, CopyAt card vol dst fileSize start s c read t ∧
    (c.remaining = 0#32 ∨ s = 0 ∧ chainEnd ≤ c.cluster)
  error : ∀ e, r = .error e → FileRefused card vol dst fileSize start e t

theorem runs_loadCluster (h12 : 12 ≤ fileSize.toNat) (hspc : 0 < vol.secPerClus.toNat)
    (c : Copying) (t : List Event) (hc : InFile card vol dst fileSize start c t) :
    Runs card (fun fuel => loadCluster fuel vol dst fileSize c) fun r t' =>
      (∀ c', r = .inl c' → InFile card vol dst fileSize start c' (t ++ t') ∧
        c'.remaining.toNat < c.remaining.toNat) ∧
      ∀ a, r = .inr a → FileDone card vol dst fileSize start a (t ++ t') := by
  obtain ⟨s, read, hcopy, hstart⟩ := hc
  unfold loadCluster
  by_cases hend : c.remaining = 0#32 ∨ chainEnd ≤ c.cluster
  · simp only [if_pos hend]
    refine .pure ⟨fun _ h => (Sum.inr_ne_inl h).elim, fun a h => ?_⟩
    obtain rfl := Sum.inr.inj h
    rw [List.append_nil]
    refine ⟨fun c' h => ?_, fun _ h => (by cases h)⟩
    obtain rfl := Except.ok.inj h
    refine ⟨s, read, hcopy, ?_⟩
    by_cases hzero : c.remaining = 0#32
    · exact .inl hzero
    · exact .inr ⟨hstart hzero, hend.resolve_left hzero⟩
  · simp only [if_neg hend]
    obtain ⟨hleft, hchain⟩ := not_or.mp hend
    rw [BitVec.not_le] at hchain
    obtain rfl := hstart hleft
    have hpos : c.remaining.toNat ≠ 0 := fun h0 => hleft (BitVec.eq_of_toNat_eq h0)
    have hloop : Runs card (fun fuel => Prog.loop .fuel
        (loadSector fuel vol dst fileSize (vol.first c.cluster)) fuel (0, c)) _ := Runs.loop
      (f := fun fuel => loadSector fuel vol dst fileSize (vol.first c.cluster))
      (fun v t' => InCluster card vol dst fileSize start c.cluster c.remaining.toNat v (t ++ t'))
      (fun v => vol.secPerClus.toNat - v.1)
      (Q := fun a t' =>
        ClusterDone card vol dst fileSize start c.cluster c.remaining.toNat a (t ++ t'))
      (fun v t' hv => by
        have hround := runs_loadSector h12 hspc hchain hpos v (t ++ t') hv
        simp only [List.append_assoc] at hround
        exact hround)
      (0, c) ⟨rfl, Nat.zero_le _, .inr ⟨rfl, rfl⟩, read, by rwa [List.append_nil]⟩
    refine hloop.bind fun res t1 h1 => ?_
    cases res with
    | error e =>
        refine .pure ⟨fun _ h => (Sum.inr_ne_inl h).elim, fun a h => ?_⟩
        obtain rfl := Sum.inr.inj h
        rw [List.append_nil]
        refine ⟨fun _ h => (by cases h), fun e' h => ?_⟩
        obtain rfl := Except.error.inj h
        exact h1.error e rfl
    | ok c' =>
        obtain ⟨hsame, hless, s', read', hcopy', hstop⟩ := h1.ok c' rfl
        dsimp only
        by_cases hzero : c'.remaining = 0#32
        · simp only [if_pos hzero]
          refine .pure ⟨fun c2 h => ?_, fun _ h => (Sum.inl_ne_inr h).elim⟩
          obtain rfl := Sum.inl.inj h
          rw [List.append_nil]
          exact ⟨⟨s', read', hcopy', fun hno => absurd hzero hno⟩, hless⟩
        · simp only [if_neg hzero]
          obtain rfl := hstop.resolve_right hzero
          refine (runs_nextCluster card vol c'.cluster).bind fun res t2 h2 => ?_
          obtain ⟨hstored, hok, herr⟩ := h2
          cases res with
          | error e =>
              refine .pure ⟨fun _ h => (Sum.inr_ne_inl h).elim, fun a h => ?_⟩
              obtain rfl := Sum.inr.inj h
              refine ⟨fun _ h => (by cases h), fun e' h => ?_⟩
              obtain rfl := Except.error.inj h
              have hrem := hcopy'.remaining
              have hleft' : c'.remaining.toNat ≠ 0 := fun h0 => hzero (BitVec.eq_of_toNat_eq h0)
              exact .inl ⟨(herr e rfl).1, read', c'.cluster, _, hcopy'.trail, hsame ▸ hchain,
                by omega, .inr ⟨rfl, (herr e rfl).2⟩⟩
          | ok next =>
              refine .pure ⟨fun c2 h => ?_, fun _ h => (Sum.inl_ne_inr h).elim⟩
              obtain rfl := Sum.inl.inj h
              refine ⟨⟨0, read', ⟨?_, hcopy'.needed, hcopy'.remaining, hcopy'.offset, hcopy'.out,
                ?_, hcopy'.header⟩, fun _ => rfl⟩, hless⟩
              · exact hcopy'.trail.link (hsame ▸ hchain) (hok next rfl)
              · rw [← List.append_assoc, List.append_nil, storedBytes_append, hstored,
                  List.append_nil]
                exact hcopy'.stored

/-- What comes of a file that begins at `start`. -/
inductive FileOutcome (card : Card) (vol : Volume) (dst fileSize start : Word) :
    Except FatError Word → List Event → Prop
  | small {t : List Event} (h : fileSize.toNat < 12) (ht : storedBytes t = []) :
      FileOutcome card vol dst fileSize start (.error .image) t
  | refused {e : FatError} {t : List Event} (h : FileRefused card vol dst fileSize start e t) :
      FileOutcome card vol dst fileSize start (.error e) t
  /-- The chain is shorter than the file. -/
  | short {size : Word} {t : List Event} {read : List Sector} {cluster : Word}
      (h : Trail card vol start read cluster 0) (hend : chainEnd ≤ cluster)
      (hread : 512 * read.length < fileSize.toNat)
      (hacc : read ≠ [] → Accepts dst fileSize (fileBytes fileSize read))
      (ht : storedBytes t = span dst ((fileBytes fileSize read).drop 12)) :
      FileOutcome card vol dst fileSize start (.error (.short size)) t
  | loaded {t : List Event} {read : List Sector} {cluster : Word} {s : Nat}
      (h : Trail card vol start read cluster s) (hread : fileSize.toNat ≤ 512 * read.length)
      (hneeded : 512 * read.length < fileSize.toNat + 512)
      (hacc : Accepts dst fileSize (fileBytes fileSize read))
      (ht : storedBytes t = payloadStores dst (fileBytes fileSize read)) :
      FileOutcome card vol dst fileSize start
        (.ok (textOf (fileBytes fileSize read) + dataOf (fileBytes fileSize read))) t

/-- A file that was read to its end. -/
theorem CopyAt.complete (h : CopyAt card vol dst fileSize start s c read t)
    (h12 : 12 ≤ fileSize.toNat) (hzero : c.remaining = 0#32) {t' : List Event}
    (ht : storedBytes t' = storedBytes t) :
    FileOutcome card vol dst fileSize start (.ok (c.textSize + c.dataSize)) t' := by
  have hrem : 0 = fileSize.toNat - 512 * read.length := by
    rw [← h.remaining, hzero]
    rfl
  have hread : read ≠ [] := by
    rintro rfl
    simp at hrem
    omega
  obtain ⟨hacc, htext, hdata⟩ := h.header hread
  rw [htext, hdata]
  refine .loaded h.trail (by omega) h.needed hacc ?_
  have hlen : (fileBytes fileSize read).length = fileSize.toNat := by
    rw [fileBytes_length]
    omega
  have hsize := hacc.size
  rw [imageLength] at hsize
  rw [ht, h.stored, payloadStores_eq_span, payloadOf, List.take_of_length_le]
  rw [List.length_drop, hlen]
  omega

/-- `loadFile` returns on every card whose clusters have sectors. -/
theorem runs_loadFile (hspc : 0 < vol.secPerClus.toNat) :
    Runs card (fun fuel => loadFile fuel vol dst start fileSize)
      (FileOutcome card vol dst fileSize start) := by
  unfold loadFile
  dsimp only
  by_cases h12 : fileSize < headerSize
  · simp only [if_pos h12]
    rw [BitVec.lt_def] at h12
    exact .pure (.small h12 rfl)
  · simp only [if_neg h12]
    rw [BitVec.not_lt, BitVec.le_def] at h12
    have hloop : Runs card (fun fuel => Prog.loop .fuel (loadCluster fuel vol dst fileSize) fuel
        { payloadOut := dst, fileOff := 0#32, textSize := 0#32, dataSize := 0#32
          remaining := fileSize, cluster := start }) _ := Runs.loop
      (f := fun fuel => loadCluster fuel vol dst fileSize)
      (InFile card vol dst fileSize start) (fun c => c.remaining.toNat)
      (Q := FileDone card vol dst fileSize start)
      (fun c t hc => runs_loadCluster h12 hspc c t hc)
      _
      ⟨0, [], ⟨.start, Nat.add_pos_right _ (by decide), rfl, by simp, by simp [fileBytes],
        by simp [fileBytes, span, storedBytes], fun h => absurd rfl h⟩, fun _ => rfl⟩
    refine hloop.bind fun res t1 h1 => ?_
    cases res with
    | error e =>
        refine .pure ?_
        rw [List.append_nil]
        exact .refused (h1.error e rfl)
    | ok c =>
        obtain ⟨s, read, hcopy, hstop⟩ := h1.ok c rfl
        refine .add_bind fun t2 h2 => .pure ?_
        rw [List.append_nil]
        by_cases hzero : c.remaining = 0#32
        · rw [if_pos hzero]
          refine hcopy.complete h12 hzero ?_
          rw [storedBytes_append, storedBytes_marks h2, List.append_nil]
        · rw [if_neg hzero]
          obtain ⟨rfl, hend⟩ := hstop.resolve_left hzero
          have hpos : c.remaining.toNat ≠ 0 := fun h0 => hzero (BitVec.eq_of_toNat_eq h0)
          have hrem : c.remaining.toNat = fileSize.toNat - 512 * read.length := hcopy.remaining
          refine .short hcopy.trail hend (by omega) (fun hread => (hcopy.header hread).1) ?_
          rw [storedBytes_append, storedBytes_marks h2, List.append_nil]
          exact hcopy.stored

end Sectors

end MelonSoc.Boot
