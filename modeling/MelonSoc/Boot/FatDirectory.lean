import MelonSoc.Boot.Card
import MelonSoc.Boot.FatFile
import MelonSoc.Lib.Orbits

set_option autoImplicit false

/-! # Searching the root directory

The search of `fatboot_load` in terms of the entries on the card: what it finds in a cluster, and
where it goes on.
-/

namespace MelonSoc.Boot

/-! ## Entries -/

/-- What the search looks at of a directory entry. -/
structure DirEntry where
  first : Byte
  /-- The name is BOOT.BIN. -/
  boot : Bool
  attr : Byte
  cluster : Word
  size : Word
  deriving DecidableEq

def entryAt (sector : Sector) (off : Nat) : DirEntry :=
  { first := sector off
    boot := nameMatch sector off
    attr := sector (off + 11)
    cluster := ((rd16 sector (off + 20)).setWidth 32 <<< 16) |||
      (rd16 sector (off + 26)).setWidth 32
    size := rd32 sector (off + 28) }

/-- The entries of a sector in order. -/
def entriesOf (sector : Sector) : List DirEntry :=
  (List.range 16).map fun k => entryAt sector (32 * k)

/-- An entry that the search takes. -/
def DirEntry.taken (e : DirEntry) : Bool :=
  e.first != 0#8 && !(e.first == 0xE5#8 || e.attr == 0x0F#8) && e.boot

/-- The variables behind an entry that was taken. -/
def DirEntry.search (e : DirEntry) : Search :=
  { cluster := 0x0FFFFFFF#32, fileCluster := e.cluster, fileSize := e.size }

theorem searchEntries_find (sector : Sector) (v : Search) (n : Nat) (hn : n ≤ 16) :
    searchEntries sector n v =
      ((((List.range' (16 - n) n).map fun k => entryAt sector (32 * k)).find?
        DirEntry.taken).map DirEntry.search).getD v := by
  induction n with
  | zero => rfl
  | succ n ih =>
      have hrest : 16 - (n + 1) + 1 = 16 - n := by omega
      rw [List.range'_succ, hrest, List.map_cons, List.find?_cons, searchEntries,
        ih (Nat.le_of_succ_le hn)]
      generalize 32 * (16 - (n + 1)) = off
      cases htaken : (entryAt sector off).taken with
      | true =>
          simp only [DirEntry.taken, entryAt, Bool.and_eq_true, bne_iff_ne, Bool.not_eq_true',
            Bool.or_eq_false_iff, beq_eq_false_iff_ne] at htaken
          obtain ⟨⟨h0, h1, h2⟩, hname⟩ := htaken
          rw [if_neg h0, if_neg (not_or.mpr ⟨h1, h2⟩), if_pos hname]
          rfl
      | false =>
          dsimp only
          split
          · rfl
          · rename_i h0
            split
            · rfl
            · rename_i h1
              split
              · rename_i hname
                obtain ⟨h1, h2⟩ := not_or.mp h1
                simp [DirEntry.taken, entryAt, h0, h1, h2, hname] at htaken
              · rfl

theorem searchEntries_eq (sector : Sector) (v : Search) :
    searchEntries sector 16 v =
      (((entriesOf sector).find? DirEntry.taken).map DirEntry.search).getD v := by
  rw [searchEntries_find sector v 16 (Nat.le_refl 16), entriesOf, List.range_eq_range']

/-! ## A cluster -/

/-- The entry that was taken last in the `n` sectors from `s` on, behind `pending`; an entry with
a cluster is the last one. `none` when a sector cannot be read before. -/
def scan (card : Card) (first : Word) : Nat → Nat → Option DirEntry → Option (Option DirEntry)
  | 0, _, pending => some pending
  | n + 1, s, pending =>
      (card (first + BitVec.ofNat 32 s)).bind fun sector =>
        match (entriesOf sector).find? DirEntry.taken with
        | some e => if e.cluster ≠ 0#32 then some (some e) else scan card first n (s + 1) (some e)
        | none => scan card first n (s + 1) pending

/-- What the search makes of a cluster. -/
inductive DirStep
  /-- A sector cannot be read. -/
  | unreadable
  /-- The chain is at its end. -/
  | finished
  | found (e : DirEntry)
  | next (cluster : Word)

/-- The entry that ends the search. -/
def foundIn (pending : Option DirEntry) : Option DirEntry := pending.filter (·.cluster != 0#32)

/-- The cluster whose FAT entry is read next: an entry without a cluster has set it to the end of
a chain. -/
def linkFrom (cluster : Word) (pending : Option DirEntry) : Word :=
  (pending.map fun _ => 0x0FFFFFFF#32).getD cluster

def dirStep (card : Card) (vol : Volume) (cluster : Word) : DirStep :=
  if chainEnd ≤ cluster then .finished
  else
    match scan card (vol.first cluster) vol.secPerClus.toNat 0 none with
    | none => .unreadable
    | some pending =>
        match foundIn pending with
        | some e => .found e
        | none =>
            match fatEntry card vol (linkFrom cluster pending) with
            | none => .unreadable
            | some c => .next c

/-- The cluster that is searched next. -/
def dirNext (card : Card) (vol : Volume) (cluster : Word) : Option Word :=
  match dirStep card vol cluster with
  | .next c => some c
  | _ => none

/-- The variables when `pending` was taken since `v`. -/
def Search.behind (v : Search) (pending : Option DirEntry) : Search :=
  (pending.map DirEntry.search).getD v

section Cluster

variable {card : Card} {vol : Volume} {v : Search}

/-- What the loop over the sectors of a cluster ends with. -/
structure Scanned (card : Card) (vol : Volume) (first : Word) (v : Search)
    (r : Except FatError Search) (t : List Event) : Prop where
  stored : storedBytes t = []
  ok : ∀ found, r = .ok found → ∃ pending,
    scan card first vol.secPerClus.toNat 0 none = some pending ∧ found = v.behind pending
  error : ∀ e, r = .error e → e = .read ∧ scan card first vol.secPerClus.toNat 0 none = none

/-- Where the loop over the sectors of a cluster is. -/
structure Scanning (card : Card) (vol : Volume) (first : Word) (v : Search) (w : Nat × Search)
    (t : List Event) : Prop where
  stored : storedBytes t = []
  bound : w.1 ≤ vol.secPerClus.toNat
  empty : w.2.fileCluster = 0#32
  left : ∃ pending, w.2 = v.behind pending ∧ scan card first vol.secPerClus.toNat 0 none =
    scan card first (vol.secPerClus.toNat - w.1) w.1 pending

theorem runs_searchSector {first : Word} (w : Nat × Search) (t : List Event)
    (h : Scanning card vol first v w t) :
    Runs card (fun _ => searchSector vol first w) fun r t' =>
      (∀ w', r = .inl w' → Scanning card vol first v w' (t ++ t') ∧
        vol.secPerClus.toNat - w'.1 < vol.secPerClus.toNat - w.1) ∧
      ∀ a, r = .inr a → Scanned card vol first v a (t ++ t') := by
  obtain ⟨s, w⟩ := w
  obtain ⟨hstored, hbound, hempty, pending, hw, hscan⟩ := h
  obtain rfl : w = v.behind pending := hw
  have hstored' : ∀ lba, storedBytes (t ++ [.readBlock lba]) = [] := by
    intro lba
    rw [storedBytes_append, hstored]
    rfl
  unfold searchSector
  dsimp only
  by_cases hend : vol.secPerClus.toNat ≤ s
  · simp only [if_pos hend]
    refine .pure ⟨fun _ h => (Sum.inr_ne_inl h).elim, fun a h => ?_⟩
    obtain rfl := Sum.inr.inj h
    rw [List.append_nil]
    refine ⟨hstored, fun found h => ⟨pending, ?_, (Except.ok.inj h).symm⟩, fun _ h => (by cases h)⟩
    rw [hscan, Nat.sub_eq_zero_of_le hend]
    rfl
  · simp only [if_neg hend]
    obtain ⟨n, hn⟩ : ∃ n, vol.secPerClus.toNat - s = n + 1 := ⟨_, (Nat.succ_pred (by omega)).symm⟩
    rw [show ((s, v.behind pending) : Nat × Search).1 = s from rfl, hn, scan] at hscan
    refine .read_bind ?_
    cases hcard : card (first + BitVec.ofNat 32 s) with
    | none =>
        rw [hcard, Option.bind_none] at hscan
        refine .pure ⟨fun _ h => (Sum.inr_ne_inl h).elim, fun a h => ?_⟩
        obtain rfl := Sum.inr.inj h
        exact ⟨hstored' _, fun _ h => (by cases h), fun e h => ⟨(Except.error.inj h).symm, hscan⟩⟩
    | some sector =>
        rw [hcard, Option.bind_some] at hscan
        have hn' : vol.secPerClus.toNat - (s + 1) = n := by omega
        have hless : vol.secPerClus.toNat - (s + 1) < vol.secPerClus.toNat - s := by omega
        dsimp only
        rw [searchEntries_eq]
        cases hhit : (entriesOf sector).find? DirEntry.taken with
        | none =>
            rw [hhit] at hscan
            simp only [Option.map_none, Option.getD_none]
            have hzero : ¬(v.behind pending).fileCluster ≠ 0#32 := not_not.mpr hempty
            simp only [if_neg hzero]
            refine .pure ⟨fun w' h => ?_, fun _ h => (Sum.inl_ne_inr h).elim⟩
            obtain rfl := Sum.inl.inj h
            refine ⟨⟨hstored' _, by omega, hempty, pending, rfl, ?_⟩, hless⟩
            rw [hscan, hn']
        | some e =>
            rw [hhit] at hscan
            simp only [Option.map_some, Option.getD_some]
            by_cases hcluster : e.cluster ≠ 0#32
            · simp only [if_pos (show e.search.fileCluster ≠ 0#32 from hcluster)]
              refine .pure ⟨fun _ h => (Sum.inr_ne_inl h).elim, fun a h => ?_⟩
              obtain rfl := Sum.inr.inj h
              refine ⟨hstored' _, fun found h => ⟨some e, ?_, (Except.ok.inj h).symm⟩,
                fun _ h => (by cases h)⟩
              rw [hscan]
              exact if_pos hcluster
            · simp only [if_neg (show ¬e.search.fileCluster ≠ 0#32 from hcluster)]
              refine .pure ⟨fun w' h => ?_, fun _ h => (Sum.inl_ne_inr h).elim⟩
              obtain rfl := Sum.inl.inj h
              refine ⟨⟨hstored' _, by omega, not_not.mp hcluster, some e, rfl, ?_⟩, hless⟩
              rw [hscan, hn']
              exact if_neg hcluster

/-- What a round of the search over the clusters comes to. -/
inductive Stepped (v : Search) : DirStep → Search ⊕ Except FatError Search → Prop
  | unreadable : Stepped v .unreadable (.inr (.error .read))
  | finished : Stepped v .finished (.inr (.ok v))
  | found (e : DirEntry) (h : e.cluster ≠ 0#32) : Stepped v (.found e) (.inr (.ok e.search))
  | next (w : Search) (h : w.fileCluster = 0#32) : Stepped v (.next w.cluster) (.inl w)

theorem runs_searchCluster (hv : v.fileCluster = 0#32) :
    Runs card (fun fuel => searchCluster fuel vol v) fun r t =>
      storedBytes t = [] ∧ Stepped v (dirStep card vol v.cluster) r := by
  unfold searchCluster dirStep
  by_cases hend : chainEnd ≤ v.cluster
  · simp only [if_pos hend]
    exact .pure ⟨rfl, .finished⟩
  · simp only [if_neg hend]
    have hloop : Runs card (fun fuel => Prog.loop .fuel
        (searchSector vol (vol.first v.cluster)) fuel (0, v)) _ := Runs.loop
      (f := fun _ => searchSector vol (vol.first v.cluster))
      (Scanning card vol (vol.first v.cluster) v) (fun w => vol.secPerClus.toNat - w.1)
      (Q := Scanned card vol (vol.first v.cluster) v) (fun w t hw => runs_searchSector w t hw)
      (0, v) ⟨rfl, Nat.zero_le _, hv, none, rfl, rfl⟩
    refine hloop.bind fun res t1 h1 => ?_
    cases res with
    | error e =>
        obtain ⟨rfl, hscan⟩ := h1.error e rfl
        rw [hscan]
        refine .pure ⟨?_, .unreadable⟩
        rw [List.append_nil]
        exact h1.stored
    | ok found =>
        obtain ⟨pending, hscan, rfl⟩ := h1.ok found rfl
        rw [hscan]
        dsimp only
        by_cases hfound : (v.behind pending).fileCluster ≠ 0#32
        · simp only [if_pos hfound]
          cases pending with
          | none => exact absurd hv hfound
          | some e =>
              have hcluster : e.cluster ≠ 0#32 := hfound
              have hin : foundIn (some e) = some e :=
                Option.filter_eq_some_iff.mpr ⟨rfl, bne_iff_ne.mpr hcluster⟩
              rw [hin]
              refine .pure ⟨?_, .found e hcluster⟩
              rw [List.append_nil]
              exact h1.stored
        · simp only [if_neg hfound]
          have hin : foundIn pending = none := by
            cases pending with
            | none => rfl
            | some e =>
                have hcluster : e.cluster = 0#32 := not_not.mp hfound
                simp [foundIn, hcluster]
          have hlink : (v.behind pending).cluster = linkFrom v.cluster pending := by
            cases pending with
            | none => rfl
            | some e => rfl
          rw [hin, ← hlink]
          dsimp only
          refine (runs_nextCluster card vol (v.behind pending).cluster).bind fun res t2 h2 => ?_
          obtain ⟨hstored2, hok, herr⟩ := h2
          have hstored : storedBytes (t1 ++ (t2 ++ [])) = [] := by
            rw [List.append_nil, storedBytes_append, h1.stored, hstored2]
            rfl
          cases res with
          | error e =>
              obtain ⟨rfl, hnone⟩ := herr e rfl
              rw [hnone]
              exact .pure ⟨hstored, .unreadable⟩
          | ok c =>
              rw [hok c rfl]
              exact .pure ⟨hstored, .next { v.behind pending with cluster := c } (not_not.mp hfound)⟩

end Cluster

/-! ## The directory -/

/-- What the search from a cluster on comes to: an entry that has a cluster, no entry, or a sector
that cannot be read. -/
inductive Finds (card : Card) (vol : Volume) : Word → Except FatError (Option DirEntry) → Prop
  | unreadable {c : Word} (h : dirStep card vol c = .unreadable) : Finds card vol c (.error .read)
  | finished {c : Word} (h : dirStep card vol c = .finished) : Finds card vol c (.ok none)
  | found {c : Word} {e : DirEntry} (h : dirStep card vol c = .found e) :
      Finds card vol c (.ok (some e))
  | next {c c' : Word} {r : Except FatError (Option DirEntry)} (h : dirStep card vol c = .next c')
      (rest : Finds card vol c' r) : Finds card vol c r

section Directory

variable {card : Card} {vol : Volume} {root : Word}

theorem dirNext_of_step {c c' : Word} (h : dirStep card vol c = .next c') :
    dirNext card vol c = some c' := by
  rw [dirNext, h]

/-- A search that comes to something has an end. -/
theorem Finds.ends {c : Word} {r : Except FatError (Option DirEntry)} (h : Finds card vol c r) :
    Orbit.Ends (dirNext card vol) c := by
  induction h with
  | unreadable h => exact ⟨1, by rw [Orbit.reached_none (by rw [dirNext, h])]⟩
  | finished h => exact ⟨1, by rw [Orbit.reached_none (by rw [dirNext, h])]⟩
  | found h => exact ⟨1, by rw [Orbit.reached_none (by rw [dirNext, h])]⟩
  | next h _ ih => exact (Orbit.ends_step (dirNext_of_step h)).mpr ih

/-- What the search has come to, in the variables of the loader. -/
structure Searched (card : Card) (vol : Volume) (root : Word) (r : Except FatError Search)
    (t : List Event) : Prop where
  stored : storedBytes t = []
  error : ∀ e, r = .error e → e = .read ∧ Finds card vol root (.error .read)
  ok : ∀ v, r = .ok v → (v.fileCluster = 0#32 ∧ Finds card vol root (.ok none)) ∨
    ∃ e, e.cluster ≠ 0#32 ∧ v = e.search ∧ Finds card vol root (.ok (some e))

/-- Where the search over the clusters is. -/
structure Searching (card : Card) (vol : Volume) (root : Word) (v : Search) (t : List Event) :
    Prop where
  stored : storedBytes t = []
  empty : v.fileCluster = 0#32
  ends : Orbit.Ends (dirNext card vol) v.cluster
  onward : ∀ r, Finds card vol v.cluster r → Finds card vol root r

theorem runs_search (hend : Orbit.Ends (dirNext card vol) root) :
    Runs card (fun fuel => Prog.loop .fuel (searchCluster fuel vol) fuel
      { cluster := root, fileCluster := 0#32, fileSize := 0#32 }) (Searched card vol root) := by
  refine Runs.loop (f := fun fuel => searchCluster fuel vol) (Searching card vol root)
    (fun v => Orbit.length (dirNext card vol) v.cluster) (fun v t hv => ?_) _
    ⟨rfl, rfl, hend, fun _ h => h⟩
  refine (runs_searchCluster hv.empty).mono fun r t' h => ?_
  obtain ⟨hstored', hstep⟩ := h
  have hstored : storedBytes (t ++ t') = [] := by
    rw [storedBytes_append, hv.stored, hstored']
    rfl
  generalize hd : dirStep card vol v.cluster = d at hstep
  cases hstep with
  | unreadable =>
      refine ⟨fun _ h => (Sum.inr_ne_inl h).elim, fun a h => ?_⟩
      obtain rfl := Sum.inr.inj h
      exact ⟨hstored, fun e h => ⟨(Except.error.inj h).symm, hv.onward _ (.unreadable hd)⟩,
        fun _ h => (by cases h)⟩
  | finished =>
      refine ⟨fun _ h => (Sum.inr_ne_inl h).elim, fun a h => ?_⟩
      obtain rfl := Sum.inr.inj h
      refine ⟨hstored, fun _ h => (by cases h), fun w h => .inl ?_⟩
      obtain rfl := Except.ok.inj h
      exact ⟨hv.empty, hv.onward _ (.finished hd)⟩
  | found e hcluster =>
      refine ⟨fun _ h => (Sum.inr_ne_inl h).elim, fun a h => ?_⟩
      obtain rfl := Sum.inr.inj h
      exact ⟨hstored, fun _ h => (by cases h), fun w h =>
        .inr ⟨e, hcluster, (Except.ok.inj h).symm, hv.onward _ (.found hd)⟩⟩
  | next w hempty =>
      refine ⟨fun v' h => ?_, fun _ h => (Sum.inl_ne_inr h).elim⟩
      obtain rfl := Sum.inl.inj h
      have hnext := dirNext_of_step hd
      exact ⟨⟨hstored, hempty, (Orbit.ends_step hnext).mp hv.ends,
        fun r h => hv.onward r (.next hd h)⟩, Orbit.length_step hnext hv.ends⟩

/-- A volume whose clusters have no sectors has no entries. -/
theorem Finds.sectors {c : Word} {r : Except FatError (Option DirEntry)} (h : Finds card vol c r) :
    ∀ e, r = .ok (some e) → 0 < vol.secPerClus.toNat := by
  induction h with
  | unreadable h => exact fun _ h => by cases h
  | finished h => exact fun _ h => by cases h
  | next _ _ ih => exact ih
  | found h =>
      intro e' _
      by_contra hzero
      have hspc : vol.secPerClus.toNat = 0 := Nat.eq_zero_of_not_pos hzero
      unfold dirStep at h
      rw [hspc] at h
      simp only [scan, foundIn, Option.filter_none] at h
      split at h
      · cases h
      · split at h <;> cases h

end Directory

end MelonSoc.Boot
