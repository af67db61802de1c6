import MelonSoc.Boot.FatDirectory
import Mathlib.Data.Finite.Prod

set_option autoImplicit false

/-! # `fatboot_load` on a card

The volume, the search of its root directory and the file that is found, put together. The loader
comes to an end on every card whose directory chain does.
-/

namespace MelonSoc.Boot

/-! ## The volume -/

/-- Where the volume begins: at the first partition of an MBR, or at the start of the card. -/
def partitionStart (mbr : Sector) : Word :=
  if !looksLikeFat32Bpb mbr && mbr 510 == 0x55#8 && mbr 511 == 0xAA#8 && mbr (0x1BE + 4) != 0#8 then
    rd32 mbr (0x1BE + 8)
  else 0#32

/-- The volume that begins at `start`, and the first cluster of its root directory. -/
def volumeOf (start : Word) (bpb : Sector) : Except FatError (Volume × Word) :=
  if rd16 bpb 11 ≠ 512#16 then .error .bpb
  else
    .ok ({ secPerClus := bpb 13
           fatLba := start + (rd16 bpb 14).setWidth 32
           dataLba := start + (rd16 bpb 14).setWidth 32 + (bpb 16).setWidth 32 * rd32 bpb 36 },
      rd32 bpb 44)

/-- What `openVolume` makes of the card. -/
def openOn (card : Card) : Except FatError (Volume × Word) :=
  match card 0#32 with
  | none => .error .read
  | some mbr =>
      match card (partitionStart mbr) with
      | none => .error .read
      | some bpb => volumeOf (partitionStart mbr) bpb

section Load

variable {card : Card} {vol : Volume} {dst fileSize start root : Word}

theorem runs_openVolume : Runs card (fun _ => openVolume)
    fun r t => r = openOn card ∧ storedBytes t = [] := by
  unfold openVolume openOn
  refine .read_bind ?_
  cases hmbr : card 0#32 with
  | none => exact .pure ⟨rfl, rfl⟩
  | some mbr =>
      dsimp only
      refine .read_bind ?_
      rw [show (if !looksLikeFat32Bpb mbr && mbr 510 == 0x55#8 && mbr 511 == 0xAA#8 &&
        mbr (0x1BE + 4) != 0#8 then rd32 mbr (0x1BE + 8) else 0#32) = partitionStart mbr from rfl]
      cases hbpb : card (partitionStart mbr) with
      | none => exact .pure ⟨rfl, rfl⟩
      | some bpb =>
          dsimp only
          rw [volumeOf]
          by_cases h512 : rd16 bpb 11 ≠ 512#16
          · simp only [if_pos h512]
            exact .pure ⟨rfl, rfl⟩
          · simp only [if_neg h512]
            exact .pure ⟨rfl, rfl⟩

/-! ## The loader -/

theorem FileOutcome.behind {r : Except FatError Word} {t t' : List Event}
    (h : FileOutcome card vol dst fileSize start r t') (ht : storedBytes t = []) :
    FileOutcome card vol dst fileSize start r (t ++ t') := by
  have hstored : storedBytes (t ++ t') = storedBytes t' := by
    rw [storedBytes_append, ht, List.nil_append]
  cases h with
  | small hsize h => exact .small hsize (hstored.trans h)
  | refused h =>
      refine .refused (h.imp_right ?_)
      rintro ⟨sector, cluster, s, htrail, hno, h⟩
      exact ⟨sector, cluster, s, htrail, hno, hstored.trans h⟩
  | short htrail hend hread hacc h => exact .short htrail hend hread hacc (hstored.trans h)
  | loaded htrail hread hneeded hacc h => exact .loaded htrail hread hneeded hacc (hstored.trans h)

/-- What `fatboot_load` comes to. -/
inductive LoadOutcome (card : Card) (dst : Word) : Except FatError Word → List Event → Prop
  | closed {e : FatError} {t : List Event} (h : openOn card = .error e) (ht : storedBytes t = []) :
      LoadOutcome card dst (.error e) t
  | unreadable {vol : Volume} {root : Word} {t : List Event} (h : openOn card = .ok (vol, root))
      (hfinds : Finds card vol root (.error .read)) (ht : storedBytes t = []) :
      LoadOutcome card dst (.error .read) t
  | absent {vol : Volume} {root : Word} {t : List Event} (h : openOn card = .ok (vol, root))
      (hfinds : Finds card vol root (.ok none)) (ht : storedBytes t = []) :
      LoadOutcome card dst (.error .notFound) t
  | file {vol : Volume} {root : Word} {e : DirEntry} {r : Except FatError Word} {t : List Event}
      (h : openOn card = .ok (vol, root)) (hfinds : Finds card vol root (.ok (some e)))
      (hfile : FileOutcome card vol dst e.size e.cluster r t)
      (hrun : Runs card (fun fuel => loadFile fuel vol dst e.cluster e.size) fun r' t' =>
        r' = r ∧ storedBytes t' = storedBytes t) : LoadOutcome card dst r t

/-- The search of the directory comes to an end. -/
def DirectoryEnds (card : Card) : Prop :=
  ∀ vol root, openOn card = .ok (vol, root) → Orbit.Ends (dirNext card vol) root

theorem runs_fatbootLoad (dst : Word) (hend : DirectoryEnds card) :
    Runs card (fun fuel => fatbootLoad fuel dst) (LoadOutcome card dst) := by
  unfold fatbootLoad
  refine runs_openVolume.bind fun res t1 h1 => ?_
  obtain ⟨rfl, hstored1⟩ := h1
  cases hopen : openOn card with
  | error e =>
      refine .pure (.closed hopen ?_)
      rw [List.append_nil]
      exact hstored1
  | ok p =>
      obtain ⟨vol, root⟩ := p
      dsimp only
      refine (runs_search (hend vol root hopen)).bind fun res t2 h2 => ?_
      have hstored : storedBytes (t1 ++ t2) = [] := by
        rw [storedBytes_append, hstored1, h2.stored]
        rfl
      cases res with
      | error e =>
          obtain ⟨rfl, hfinds⟩ := h2.error e rfl
          refine .pure (.unreadable hopen hfinds ?_)
          rw [List.append_nil]
          exact hstored
      | ok found =>
          dsimp only
          rcases h2.ok found rfl with ⟨hzero, hfinds⟩ | ⟨e, hcluster, rfl, hfinds⟩
          · simp only [if_pos hzero]
            refine .pure (.absent hopen hfinds ?_)
            rw [List.append_nil]
            exact hstored
          · simp only [if_neg (show ¬e.search.fileCluster = 0#32 from hcluster)]
            have hspc := hfinds.sectors e rfl
            refine (runs_loadFile hspc).self.mono fun r t3 h3 => ?_
            obtain ⟨hfile, hrun⟩ := h3
            rw [← List.append_assoc]
            refine .file hopen hfinds (hfile.behind hstored) (hrun.mono fun r' t' h => ⟨h.1, ?_⟩)
            rw [h.2, storedBytes_append, hstored, List.nil_append]

/-! ## Termination -/

theorem finite_search : Finite Search := by
  have hinj : Function.Injective fun v : Search =>
      (v.cluster.toFin, v.fileCluster.toFin, v.fileSize.toFin) := by
    rintro ⟨a, b, c⟩ ⟨a', b', c'⟩ h
    simp only [Prod.mk.injEq, BitVec.toFin_inj] at h
    obtain ⟨rfl, rfl, rfl⟩ := h
    rfl
  exact .of_injective _ hinj

/-- A chain without an end keeps the loader for good. -/
theorem fatbootLoad_forever (dst : Word) (hopen : openOn card = .ok (vol, root))
    (hno : ¬Orbit.Ends (dirNext card vol) root) :
    ∃ N, ∀ fuel, N ≤ fuel → ∃ t, Computes card (fatbootLoad fuel dst) (.error .fuel) t := by
  have := finite_search
  obtain ⟨N, hN⟩ := loop_forever card (f := fun fuel => searchCluster fuel vol)
    (I := fun v => v.fileCluster = 0#32 ∧ ¬Orbit.Ends (dirNext card vol) v.cluster)
    (fun v hv => (runs_searchCluster hv.1).mono fun r t h => by
      obtain ⟨-, hstep⟩ := h
      generalize hd : dirStep card vol v.cluster = d at hstep
      have hlast : dirNext card vol v.cluster = none → False := fun hnone =>
        hv.2 ⟨1, Orbit.reached_none hnone 0⟩
      cases hstep with
      | unreadable => exact (hlast (by rw [dirNext, hd])).elim
      | finished => exact (hlast (by rw [dirNext, hd])).elim
      | found e _ => exact (hlast (by rw [dirNext, hd])).elim
      | next w hempty =>
          exact ⟨w, rfl, hempty, fun h => hv.2 ((Orbit.ends_step (dirNext_of_step hd)).mpr h)⟩)
  obtain ⟨M, p, t1, hrun, hp, -⟩ : Runs card _ _ := runs_openVolume
  refine ⟨max N M, fun fuel hfuel => ?_⟩
  obtain ⟨t2, hloop⟩ := hN fuel (by omega) fuel
    { cluster := root, fileCluster := 0#32, fileSize := 0#32 } ⟨rfl, hno⟩
  rw [hopen] at hp
  refine ⟨t1 ++ t2, ?_⟩
  unfold fatbootLoad
  refine (hrun fuel (by omega)).bind ?_
  rw [hp]
  exact hloop.bind_error

/-- `fatboot_load` returns after finitely many reads. -/
def Returns (card : Card) (dst : Word) : Prop :=
  Runs card (fun fuel => fatbootLoad fuel dst) fun _ _ => True

/-- The search of the root directory does not come back to a cluster. -/
def NoLoop (card : Card) : Prop :=
  ∀ vol root, openOn card = .ok (vol, root) → ∀ i j c, i < j →
    Orbit.reached (dirNext card vol) root i = some c →
    Orbit.reached (dirNext card vol) root j ≠ some c

theorem finite_word : Finite Word := .of_injective BitVec.toFin fun _ _ => BitVec.toFin_inj.mp

theorem noLoop_iff : NoLoop card ↔ DirectoryEnds card := by
  have := finite_word
  unfold NoLoop DirectoryEnds
  constructor
  · intro h vol root hopen
    exact Orbit.ends_iff.mpr (h vol root hopen)
  · intro h vol root hopen
    exact Orbit.ends_iff.mp (h vol root hopen)

theorem not_returns (dst : Word) (hopen : openOn card = .ok (vol, root))
    (hno : ¬Orbit.Ends (dirNext card vol) root) : ¬Returns card dst := by
  rintro ⟨N, r, t, hrun, -⟩
  obtain ⟨M, hforever⟩ := fatbootLoad_forever dst hopen hno
  obtain ⟨t', ht'⟩ := hforever (max N M) (Nat.le_max_right N M)
  obtain ⟨hres, -⟩ := (hrun _ (Nat.le_max_left N M)).unique ht' (by simp) (by simp)
  cases hres

/-- **`fatboot_load` terminates** on exactly the cards whose directory chain has no loop. -/
theorem fatboot_terminates (card : Card) (dst : Word) : Returns card dst ↔ NoLoop card := by
  constructor
  · intro h
    rw [noLoop_iff]
    intro vol root hopen
    by_contra hno
    exact not_returns dst hopen hno h
  · intro h
    exact (runs_fatbootLoad dst (noLoop_iff.mp h)).mono fun _ _ _ => trivial

/-- A volume with one FAT of one sector, whose root directory is linked to itself. -/
def loopCard : Card := fun lba => some fun i =>
  if lba = 0#32 then
    if i = 12 ∨ i = 44 then 2#8 else if i = 13 ∨ i = 14 ∨ i = 16 ∨ i = 36 then 1#8 else 0#8
  else if lba = 1#32 ∧ i = 8 then 2#8 else 0#8

/-- The loader reads the sectors of that directory for good. -/
theorem directory_loop : ¬ ∀ (card : Card) (dst : Word), Returns card dst := by
  intro h
  have hopen : openOn loopCard = .ok (⟨1#8, 1#32, 2#32⟩, 2#32) := rfl
  refine not_returns 0x80000000#32 hopen ?_ (h _ _)
  have hnext : dirNext loopCard ⟨1#8, 1#32, 2#32⟩ 2#32 = some 2#32 := by decide
  exact Orbit.ends_of_return Nat.zero_lt_one rfl hnext

end Load

end MelonSoc.Boot
