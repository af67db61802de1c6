import MelonSoc.Boot.FatLoad

set_option autoImplicit false

/-! # FAT32 volumes

What a reader of FAT32 takes for the file BOOT.BIN of a volume and for its contents, and how
`fatboot_load` compares with it.
-/

namespace MelonSoc.Boot

/-! ## The contents of a file -/

/-- The sectors of the file that begins at `start`, in the order of its cluster chain, as many as
a file of this size needs. -/
structure Contents (card : Card) (vol : Volume) (start size : Word) (sectors : List Sector) :
    Prop where
  enough : size.toNat ≤ 512 * sectors.length
  chain : ∀ n, n < sectors.length → ∃ c,
    Orbit.reached (fatEntry card vol) start (n / vol.secPerClus.toNat) = some c ∧ c < chainEnd ∧
      card (vol.first c + BitVec.ofNat 32 (n % vol.secPerClus.toNat)) = sectors[n]?

section Contents

variable {card : Card} {vol : Volume} {dst size start : Word} {sectors read : List Sector}

/-- Where a trail is in the chain. -/
structure OnChain (card : Card) (vol : Volume) (start : Word) (read : List Sector) (c : Word)
    (s : Nat) : Prop where
  bound : s ≤ vol.secPerClus.toNat
  place : ∃ k, Orbit.reached (fatEntry card vol) start k = some c ∧
    read.length = k * vol.secPerClus.toNat + s
  sectors : ∀ n, n < read.length → ∃ c',
    Orbit.reached (fatEntry card vol) start (n / vol.secPerClus.toNat) = some c' ∧ c' < chainEnd ∧
      card (vol.first c' + BitVec.ofNat 32 (n % vol.secPerClus.toNat)) = read[n]?

theorem Trail.onChain {c : Word} {s : Nat} (h : Trail card vol start read c s) :
    OnChain card vol start read c s := by
  induction h with
  | start => exact ⟨Nat.zero_le _, ⟨0, rfl, by simp⟩, fun n hn => absurd hn (Nat.not_lt_zero n)⟩
  | @sector read c s x _ hend hs hcard ih =>
      obtain ⟨k, hk, hlen⟩ := ih.place
      refine ⟨hs, ⟨k, hk, by rw [List.length_append, List.length_singleton]; omega⟩, fun n hn => ?_⟩
      rw [List.length_append, List.length_singleton] at hn
      rcases Nat.lt_succ_iff_lt_or_eq.mp hn with hlt | rfl
      · obtain ⟨c', hreach, hend', hcard'⟩ := ih.sectors n hlt
        exact ⟨c', hreach, hend', by rw [hcard', List.getElem?_append_left hlt]⟩
      · have hdiv : read.length / vol.secPerClus.toNat = k := by
          rw [hlen, Nat.mul_comm, Nat.mul_add_div (by omega), Nat.div_eq_of_lt hs, Nat.add_zero]
        have hmod : read.length % vol.secPerClus.toNat = s := by
          rw [hlen, Nat.mul_comm, Nat.mul_add_mod, Nat.mod_eq_of_lt hs]
        refine ⟨c, by rw [hdiv, hk], hend, ?_⟩
        rw [hmod, hcard, List.getElem?_append_right (Nat.le_refl _), Nat.sub_self]
        rfl
  | @link read c next _ _ hnext ih =>
      obtain ⟨k, hk, hlen⟩ := ih.place
      refine ⟨Nat.zero_le _, ⟨k + 1, ?_, ?_⟩, ih.sectors⟩
      · rw [Orbit.reached_succ, hk]
        exact hnext
      · rw [hlen, Nat.succ_mul, Nat.add_zero]

/-- The loader reads the sectors of the file. -/
theorem Trail.contents {c : Word} {s : Nat} (h : Trail card vol start read c s)
    (hc : Contents card vol start size sectors) {n : Nat} (hn : n < read.length)
    (hn' : n < sectors.length) : read[n]? = sectors[n]? := by
  obtain ⟨c1, h1, -, hcard1⟩ := h.onChain.sectors n hn
  obtain ⟨c2, h2, -, hcard2⟩ := hc.chain n hn'
  rw [h1] at h2
  obtain rfl := Option.some.inj h2
  rw [← hcard1, hcard2]

/-- The bytes of a file are those of any sectors that begin with its own. -/
theorem fileBytes_eq (hread : size.toNat ≤ 512 * read.length)
    (hsectors : size.toNat ≤ 512 * sectors.length)
    (h : ∀ n, n < read.length → n < sectors.length → read[n]? = sectors[n]?) :
    fileBytes size read = fileBytes size sectors := by
  have hpre : ∀ {a b : List Sector}, a.length ≤ b.length → size.toNat ≤ 512 * a.length →
      (∀ n, n < a.length → n < b.length → a[n]? = b[n]?) → fileBytes size a = fileBytes size b := by
    intro a b hle hlen hsame
    have htake : a = b.take a.length := by
      refine List.ext_getElem? fun n => ?_
      by_cases hn : n < a.length
      · rw [List.getElem?_take_of_lt hn, hsame n hn (by omega)]
      · rw [List.getElem?_eq_none (by omega), List.getElem?_eq_none (by simp; omega)]
    obtain ⟨rest, hrest⟩ : ∃ rest, b = a ++ rest := ⟨b.drop a.length, by
      conv_lhs => rw [← List.take_append_drop a.length b, ← htake]⟩
    rw [hrest, fileBytes, fileBytes, List.flatMap_append, List.take_append_of_le_length]
    rw [flatMap_sectorBytes_length]
    exact hlen
  rcases Nat.le_total read.length sectors.length with hle | hle
  · exact hpre hle hread h
  · exact (hpre hle hsectors fun n h1 h2 => (h n h2 h1).symm).symm

/-- The header of a file is in its first sector. -/
theorem accepts_head (x : Sector) (rest : List Sector) :
    Accepts dst size (fileBytes size (x :: rest)) ↔ Accepts dst size (fileBytes size [x]) := by
  by_cases h12 : 12 ≤ size.toNat
  · have hlen : 12 ≤ (fileBytes size [x]).length := by
      rw [fileBytes_length]
      simp
      omega
    obtain ⟨more, hmore⟩ : ∃ more, fileBytes size (x :: rest) = fileBytes size [x] ++ more := by
      refine ⟨(rest.flatMap sectorBytes).take (size.toNat - 512), ?_⟩
      rw [fileBytes, List.flatMap_cons, List.take_append]
      simp [fileBytes, sectorBytes]
    rw [hmore]
    constructor
    · rintro ⟨h1, h2⟩
      exact ⟨(validHeader_append more hlen).mp h1, h2.trans (imageLength_append more hlen)⟩
    · rintro ⟨h1, h2⟩
      exact ⟨(validHeader_append more hlen).mpr h1, h2.trans (imageLength_append more hlen).symm⟩
  · have hsmall : ∀ bytes, ¬Accepts dst size bytes := by
      intro bytes h
      have hsize := h.size
      rw [imageLength] at hsize
      omega
    exact ⟨fun h => absurd h (hsmall _), fun h => absurd h (hsmall _)⟩

/-- The loader returns a negative code and has stored nothing. -/
def Declined (r : Except FatError Word) (t : List Event) : Prop :=
  (∃ e, r = .error e) ∧ storedBytes t = []

/-- The loader loads a file with these contents: the payload when it is a boot image. -/
structure LoadsBytes (dst size : Word) (bytes : List Byte) (r : Except FatError Word)
    (t : List Event) : Prop where
  image : Accepts dst size bytes →
    r = .ok (textOf bytes + dataOf bytes) ∧ storedBytes t = payloadStores dst bytes
  other : ¬Accepts dst size bytes → Declined r t

/-- The first sector that is read. -/
theorem Trail.head {c : Word} {s : Nat} {x : Sector} (h : Trail card vol start (x :: read) c s) :
    start < chainEnd ∧ card (vol.first start) = some x := by
  obtain ⟨c', hreach, hend, hcard⟩ := h.onChain.sectors 0 (Nat.succ_pos _)
  rw [Nat.zero_div, Orbit.reached_zero] at hreach
  obtain rfl := Option.some.inj hreach
  rw [Nat.zero_mod, BitVec.add_zero] at hcard
  exact ⟨hend, hcard⟩

variable {r : Except FatError Word} {t : List Event}

/-- Whatever the loader needs of the file can be read. -/
theorem Contents.no_unread (hc : Contents card vol start size sectors)
    (hspc : 0 < vol.secPerClus.toNat) : ¬Unread card vol size start := by
  rintro ⟨read, c, s, htrail, -, hlen, hno⟩
  have henough := hc.enough
  have hn : read.length < sectors.length := by omega
  obtain ⟨c', hreach, -, hcard⟩ := hc.chain read.length hn
  obtain ⟨k, hk, hplace⟩ := htrail.onChain.place
  rcases hno with ⟨hs, hno⟩ | ⟨rfl, hno⟩
  · have hdiv : read.length / vol.secPerClus.toNat = k := by
      rw [hplace, Nat.mul_comm, Nat.mul_add_div hspc, Nat.div_eq_of_lt hs, Nat.add_zero]
    have hmod : read.length % vol.secPerClus.toNat = s := by
      rw [hplace, Nat.mul_comm, Nat.mul_add_mod, Nat.mod_eq_of_lt hs]
    rw [hdiv, hk] at hreach
    obtain rfl := Option.some.inj hreach
    rw [hmod, hno, List.getElem?_eq_getElem hn] at hcard
    cases hcard
  · -- behind the last sector of a cluster the file goes on in the next one
    have hdiv : read.length / vol.secPerClus.toNat = k + 1 := by
      rw [hplace, ← Nat.succ_mul, Nat.mul_div_cancel _ hspc]
    rw [hdiv, Orbit.reached_succ, hk] at hreach
    have hnone : fatEntry card vol c = some c' := hreach
    rw [hno] at hnone
    cases hnone

theorem FileOutcome.loads (hspc : 0 < vol.secPerClus.toNat)
    (hc : Contents card vol start size sectors) (h : FileOutcome card vol dst size start r t) :
    LoadsBytes dst size (fileBytes size sectors) r t := by
  cases h with
  | small hsize ht =>
      refine ⟨fun hacc => ?_, fun _ => ⟨⟨_, rfl⟩, ht⟩⟩
      have h12 := hacc.size
      rw [imageLength] at h12
      omega
  | refused h =>
      rcases h with ⟨-, hunread⟩ | ⟨x, c, s, htrail, hno, ht⟩
      · exact absurd hunread (hc.no_unread hspc)
      · refine ⟨fun hacc => ?_, fun _ => ⟨⟨_, rfl⟩, ht⟩⟩
        cases sectors with
        | nil =>
            have h12 := hacc.size
            have hzero := hc.enough
            rw [imageLength] at h12
            simp at hzero
            omega
        | cons y rest =>
            have hxy : some x = some y :=
              htrail.contents hc (n := 0) (Nat.succ_pos _) (Nat.succ_pos _)
            obtain rfl := Option.some.inj hxy
            exact absurd ((accepts_head x rest).mp hacc) hno
  | @short _ _ read c htrail hend hread _ _ =>
      obtain ⟨k, hreach, hlen⟩ := htrail.onChain.place
      have henough := hc.enough
      obtain ⟨c', hreach', hend', -⟩ := hc.chain read.length (by omega)
      rw [hlen, Nat.add_zero, Nat.mul_div_cancel _ hspc, hreach] at hreach'
      obtain rfl := Option.some.inj hreach'
      exact absurd hend (BitVec.not_le.mpr hend')
  | @loaded _ read c s htrail hread _ hacc ht =>
      have hbytes : fileBytes size read = fileBytes size sectors :=
        fileBytes_eq hread hc.enough fun n hn hn' => htrail.contents hc hn hn'
      rw [hbytes] at hacc ht ⊢
      exact ⟨fun _ => ⟨rfl, ht⟩, fun hno => absurd hacc hno⟩

end Contents

/-! ## The directory -/

section Directory

variable {card : Card} {vol : Volume} {root : Word}

/-- The search comes to one thing only. -/
theorem Finds.unique {c : Word} {r r' : Except FatError (Option DirEntry)} (h : Finds card vol c r)
    (h' : Finds card vol c r') : r = r' := by
  induction h with
  | unreadable h => cases h' <;> simp_all
  | finished h => cases h' <;> simp_all
  | found h => cases h' <;> simp_all
  | next h _ ih =>
      cases h' with
      | unreadable h2 => rw [h] at h2; cases h2
      | finished h2 => rw [h] at h2; cases h2
      | found h2 => rw [h] at h2; cases h2
      | next h2 rest =>
          rw [h] at h2
          obtain rfl := DirStep.next.inj h2
          exact ih rest

end Directory

/-! ## The file BOOT.BIN -/

/-- A regular file with the name BOOT.BIN: not deleted, and no directory, volume label or part of a
long name. -/
def DirEntry.isBootFile (e : DirEntry) : Bool :=
  e.first != 0xE5#8 && e.boot && e.attr &&& 0x18#8 == 0#8

/-- The entries before the end mark of the directory. -/
def inUse (entries : List DirEntry) : List DirEntry := entries.takeWhile (·.first != 0#8)

/-- The file BOOT.BIN of the directory. -/
def bootFile (entries : List DirEntry) : Option DirEntry :=
  (inUse entries).find? DirEntry.isBootFile

/-- A volume on the card, or in the first partition of its MBR. -/
inductive Mounted (card : Card) (vol : Volume) (root : Word) : Prop
  | superfloppy {bpb : Sector} (h : card 0#32 = some bpb) (hbpb : looksLikeFat32Bpb bpb = true)
      (hvol : volumeOf 0#32 bpb = .ok (vol, root))
  | partition {mbr bpb : Sector} (h : card 0#32 = some mbr) (hmbr : looksLikeFat32Bpb mbr = false)
      (hsig : mbr 510 = 0x55#8 ∧ mbr 511 = 0xAA#8) (htype : mbr (0x1BE + 4) ≠ 0#8)
      (hstart : card (rd32 mbr (0x1BE + 8)) = some bpb) (hbpb : looksLikeFat32Bpb bpb = true)
      (hvol : volumeOf (rd32 mbr (0x1BE + 8)) bpb = .ok (vol, root))

/-- What a reader of FAT32 demands of the loader. -/
structure Right (card : Card) (vol : Volume) (dst : Word) (entries : List DirEntry)
    (r : Except FatError Word) (t : List Event) : Prop where
  file : ∀ e, bootFile entries = some e → e.size ≠ 0#32 → ∀ sectors,
    Contents card vol e.cluster e.size sectors → LoadsBytes dst e.size (fileBytes e.size sectors) r t
  none : (∀ e, bootFile entries = some e → e.size = 0#32) → Declined r t

section Volume

variable {card : Card} {vol : Volume} {root dst : Word} {clusters : List Word}
variable {entries : List DirEntry} {r : Except FatError Word} {t : List Event}

/-- The loader opens the volume that is mounted. -/
theorem Mounted.opens (h : Mounted card vol root) : openOn card = .ok (vol, root) := by
  cases h with
  | superfloppy h hbpb hvol =>
      have hstart : ∀ bpb, looksLikeFat32Bpb bpb = true → partitionStart bpb = 0#32 := by
        intro bpb hbpb
        rw [partitionStart, hbpb]
        rfl
      rw [openOn, h]
      dsimp only
      rw [hstart _ hbpb, h]
      exact hvol
  | @partition mbr bpb h hmbr hsig htype hstart hbpb hvol =>
      have hpart : partitionStart mbr = rd32 mbr (0x1BE + 8) := by
        rw [partitionStart, hmbr, hsig.1, hsig.2, if_pos]
        simpa using htype
      rw [openOn, h]
      dsimp only
      rw [hpart, hstart]
      exact hvol

theorem Mounted.sectors (h : Mounted card vol root) : 0 < vol.secPerClus.toNat := by
  have hpos : ∀ (start : Word) (bpb : Sector), looksLikeFat32Bpb bpb = true →
      volumeOf start bpb = .ok (vol, root) → 0 < vol.secPerClus.toNat := by
    intro start bpb hbpb hvol
    simp only [looksLikeFat32Bpb, Bool.and_eq_true, bne_iff_ne] at hbpb
    unfold volumeOf at hvol
    split at hvol
    · cases hvol
    · obtain ⟨rfl, -⟩ := Prod.mk.inj (Except.ok.inj hvol)
      exact Nat.pos_of_ne_zero fun h0 => hbpb.1.1.1.1.2 (BitVec.eq_of_toNat_eq h0)
  cases h with
  | superfloppy _ hbpb hvol => exact hpos _ _ hbpb hvol
  | partition _ _ _ _ _ hbpb hvol => exact hpos _ _ hbpb hvol

theorem Right.congr {t' : List Event} (h : Right card vol dst entries r t)
    (ht : storedBytes t' = storedBytes t) : Right card vol dst entries r t' := by
  have hdecl : Declined r t → Declined r t' := fun hd => ⟨hd.1, ht.trans hd.2⟩
  refine ⟨fun e he hsize sectors hc => ?_, fun hno => hdecl (h.none hno)⟩
  have hfile := h.file e he hsize sectors hc
  exact ⟨fun hacc => ⟨(hfile.image hacc).1, ht.trans (hfile.image hacc).2⟩,
    fun hacc => hdecl (hfile.other hacc)⟩

end Volume

/-! ## A card -/

/-- The bytes of a list, and zeros behind it. -/
def listed (bytes : List Byte) : Sector := fun i => bytes.getD i 0#8

/-- Clusters 2 and 3 are the last ones of their chains. -/
def fatSector : Sector :=
  listed [0#8, 0#8, 0#8, 0#8, 0#8, 0#8, 0#8, 0#8, 0xFF#8, 0xFF#8, 0xFF#8, 0x0F#8, 0xFF#8, 0xFF#8,
    0xFF#8, 0x0F#8]

end MelonSoc.Boot
