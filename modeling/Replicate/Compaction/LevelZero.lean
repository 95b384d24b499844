import Replicate.Compaction.LevelInvariant
import Replicate.Compaction.RetentionSafety

/-
  Level 0, whatever runs at once.

  L0 files are single transactions without a gap, up to the
  last upload, and the last one is never deleted. A
  retention run deletes all files up to some TXID that were
  there when it listed them. Others may have been deleted
  in the meantime, and uploads only come after them.

  Main declarations:
    * `LevelZeroInv`
    * `Trims`
    * `levelZero_sound`
-/

-- The Invariant

namespace Replicate

open FileInfo IntervalChain

namespace Retention

structure LevelZeroInv (s : Shared) : Prop where
  tiles : ∃ base, Tiles minTXID maxTXID base (s.content 0) ∧
    reach maxTXID base (s.content 0) = s.uploaded
  single : ∀ f ∈ s.content 0, f.minTXID = f.maxTXID
  kept : s.content 0 = [] → s.uploaded = 0
  below : ∀ level, level < snapshotLevel → ∀ f ∈ s.content level, f.maxTXID ≤ s.uploaded

/- Uploads go to the end, and nothing else is new. -/
structure LevelZeroRely (s s' : Shared) : Prop where
  uploaded_le : s.uploaded ≤ s'.uploaded
  fresh : ∀ f ∈ s'.content 0, f ∈ s.content 0 ∨ s.uploaded < f.maxTXID

/- The files of level 0 to delete are those up to a TXID. -/
def Trims (s : Shared) (deleted : List FileInfo) : Prop :=
  ∃ e, (e = 0 ∨ e < s.uploaded) ∧ (∀ d ∈ deleted, d.level = 0 → d.maxTXID ≤ e) ∧
    ∀ f ∈ s.content 0, f.maxTXID ≤ e → ∃ d ∈ deleted, d.level = 0 ∧ SameName d f

def LevelZeroKnows (s : Shared) : Task → Prop
| .openSources _ _ sources _ => ∀ f ∈ sources, f.maxTXID ≤ s.uploaded
| .deleteL0 deleted => Trims s deleted
| .deleteLevel deleted _ _ => Trims s deleted
| _ => True

theorem LevelZeroInv.empty : LevelZeroInv Shared.empty where
  tiles := ⟨0, trivial, rfl⟩
  single := by simp [Shared.empty]
  kept := fun _ => rfl
  below := by simp [Shared.empty]

theorem Trims.stable {s s' deleted} (hRely : LevelZeroRely s s') (hTrims : Trims s deleted) :
    Trims s' deleted := by
  rcases hTrims with ⟨e, hBound, hDeleted, hAll⟩
  have hUploaded := hRely.uploaded_le
  refine ⟨e, by omega, hDeleted, ?_⟩
  intro f hf hLe
  rcases hRely.fresh f hf with hOld | hNew
  · exact hAll f hOld hLe
  · omega

theorem LevelZeroKnows.stable {s s'} {task : Task} (hRely : LevelZeroRely s s')
    (hKnows : LevelZeroKnows s task) : LevelZeroKnows s' task := by
  cases task with
  | openSources c dstLevel sources unopened =>
    exact fun f hf => Nat.le_trans (hKnows f hf) hRely.uploaded_le
  | deleteL0 | deleteLevel => exact Trims.stable hRely hKnows
  | _ => exact trivial

-- Steps

section Steps

variable {s s' : Shared} {deleted : List FileInfo}

theorem LevelZeroRely.of_eq (hContent : s'.content 0 = s.content 0)
    (hUploaded : s'.uploaded = s.uploaded) : LevelZeroRely s s' where
  uploaded_le := Nat.le_of_eq hUploaded.symm
  fresh := by
    intro f hf
    rw [hContent] at hf
    exact Or.inl hf

theorem LevelZeroInv.store {info} (hInv : LevelZeroInv s) (hContent :
    s'.content = s.content.put info.level info) (hUploaded : s'.uploaded = s.uploaded)
    (hLevel : info.level ≠ 0) (hBelow : info.level < snapshotLevel → info.maxTXID ≤ s.uploaded) :
    LevelZeroInv s' ∧ LevelZeroRely s s' := by
  have hZero : s'.content 0 = s.content 0 := by rw [hContent, Content.put_other (Ne.symm hLevel)]
  refine ⟨?_, LevelZeroRely.of_eq hZero hUploaded⟩
  constructor
  case tiles =>
    rw [hZero, hUploaded]
    exact hInv.tiles
  case single =>
    rw [hZero]
    exact hInv.single
  case kept =>
    rw [hZero, hUploaded]
    exact hInv.kept
  case below =>
    intro level hLess f hf
    rw [hContent] at hf
    rw [hUploaded]
    rcases Content.eq_or_mem_of_mem_put hf with ⟨rfl, rfl⟩ | hOld
    · exact hBelow hLess
    · exact hInv.below level hLess f hOld

theorem World.levelZero (hInv : LevelZeroInv s) (hWorld : World s s') :
    LevelZeroInv s' ∧ LevelZeroRely s s' := by
  cases hWorld with
  | commit hBound =>
    exact ⟨⟨hInv.tiles, hInv.single, hInv.kept, hInv.below⟩, LevelZeroRely.of_eq rfl rfl⟩
  | @upload size createdAt hNext =>
    rcases hInv.tiles with ⟨base, hTiles, hReach⟩
    have hStored : s.content.put 0 ⟨0, s.uploaded + 1, s.uploaded + 1, size, createdAt⟩ 0 =
      s.content 0 ++ [⟨0, s.uploaded + 1, s.uploaded + 1, size, createdAt⟩] := by
      apply putInfo_tiles hTiles
      rw [hReach]
      exact Nat.lt_succ_self _
    have hFiles : ∀ level, ∀ f ∈ s.content.put 0
      ⟨0, s.uploaded + 1, s.uploaded + 1, size, createdAt⟩ level,
        f.minTXID = s.uploaded + 1 ∧ f.maxTXID = s.uploaded + 1 ∨ f ∈ s.content level := by
      intro level f hf
      rcases Content.eq_or_mem_of_mem_put hf with ⟨_, rfl⟩ | hOld
      · exact Or.inl ⟨rfl, rfl⟩
      · exact Or.inr hOld
    refine ⟨⟨⟨base, ?_, ?_⟩, ?_, ?_, ?_⟩, ⟨?_, ?_⟩⟩
    · show Tiles _ _ base (s.content.put 0 _ 0)
      rw [hStored, tiles_append_singleton, hReach]
      exact ⟨hTiles, rfl, Nat.lt_succ_self _⟩
    · show reach _ base (s.content.put 0 _ 0) = _
      rw [hStored, reach_append_singleton]
    · intro f hf
      rcases hFiles 0 f hf with ⟨hMin, hMax⟩ | hOld
      · exact hMin.trans hMax.symm
      · exact hInv.single f hOld
    · intro hNone
      have hEmpty : s.content.put 0 ⟨0, s.uploaded + 1, s.uploaded + 1, size,
        createdAt⟩ 0 = [] := hNone
      rw [hStored] at hEmpty
      simp at hEmpty
    · intro level hLess f hf
      rcases hFiles level f hf with ⟨_, hMax⟩ | hOld
      · exact Nat.le_of_eq hMax
      · exact Nat.le_succ_of_le (hInv.below level hLess f hOld)
    · exact Nat.le_succ _
    · intro f hf
      rcases hFiles 0 f hf with ⟨_, hMax⟩ | hOld
      · exact Or.inr (Nat.le_of_eq hMax.symm)
      · exact Or.inl hOld

/- What is left of level 0 is past the TXID. -/
theorem LevelZeroInv.delete (hInv : LevelZeroInv s) (hTrims : Trims s deleted) :
    LevelZeroInv { s with content := s.content.delete deleted } ∧
      LevelZeroRely s { s with content := s.content.delete deleted } := by
  rcases hTrims with ⟨e, hBound, hDeleted, hAll⟩
  have hFiles : ∀ level, ∀ f ∈ s.content.delete deleted level, f ∈ s.content level :=
    fun level f hf => (Content.mem_delete_iff.mp hf).1
  have hLeft : s.content.delete deleted 0 = (s.content 0).filter
    (fun f => decide (e < f.maxTXID)) := by
    apply List.filter_congr
    intro f hf
    apply decide_eq_decide.mpr
    constructor
    · intro hKept
      by_contra hOld
      exact hKept (hAll f hf (by omega))
    · rintro hPast ⟨d, hd, hLevel, hSame⟩
      have hLe := hDeleted d hd hLevel
      have hEnd := hSame.2
      omega
  rcases hInv.tiles with ⟨base, hTiles, hReach⟩
  refine ⟨⟨?_, ?_, ?_, ?_⟩, ⟨Nat.le_refl _, ?_⟩⟩
  · show ∃ base, Tiles _ _ base (s.content.delete deleted 0) ∧
      reach _ base (s.content.delete deleted 0) = s.uploaded
    rw [hLeft, ← hReach]
    exact hTiles.filter_hi_past e
  · intro f hf
    exact hInv.single f (hFiles 0 f hf)
  · intro hNone
    have hEmpty : s.content.delete deleted 0 = [] := hNone
    rw [hLeft, List.filter_eq_nil_iff] at hEmpty
    by_contra hUploaded
    have hSome : s.content 0 ≠ [] := fun hNil => hUploaded (hInv.kept hNil)
    -- the last file is never among those to delete
    rcases exists_hi_eq_reach maxTXID base hSome with ⟨f, hf, hEnd⟩
    apply hEmpty f hf
    apply decide_eq_true
    have hPos : s.uploaded ≠ 0 := hUploaded
    omega
  · intro level hLess f hf
    exact hInv.below level hLess f (hFiles level f hf)
  · intro f hf
    exact Or.inl (hFiles 0 f hf)

theorem Trims.of_other (hReplica : ReplicaInv s) (hLevels : ∀ d ∈ deleted, d.level ≠ 0) :
    Trims s deleted := by
  refine ⟨0, Or.inl rfl, ?_, ?_⟩
  · intro d hd hLevel
    exact absurd hLevel (hLevels d hd)
  · intro f hf hLe
    have hRange := hReplica.range 0 f hf
    omega

theorem Trims.of_front (hReplica : ReplicaInv s) (hInv : LevelZeroInv s)
    (hFront : Front deleted (s.content 0)) : Trims s deleted := by
  rcases hFront with rfl | ⟨rest, hRest, hSplit⟩
  · exact Trims.of_other hReplica (by simp)
  rcases hInv.tiles with ⟨base, hTiles, hReach⟩
  have hListed : ∀ f ∈ deleted, f.level = 0 := by
    intro f hf
    apply hReplica.level_eq 0
    rw [hSplit]
    exact List.mem_append_left _ hf
  rw [hSplit] at hTiles hReach
  rw [reach_append] at hReach
  rcases (tiles_append base deleted rest).mp hTiles with ⟨hOld, hNew⟩
  rcases exists_hi_eq_reach maxTXID (reach maxTXID base deleted) hRest with ⟨last, hLast, hEnd⟩
  have hAfter := Tiles.lt_lo hNew hLast
  have hProper := hNew.lo_le_hi hLast
  refine ⟨reach maxTXID base deleted, Or.inr (by omega), ?_, ?_⟩
  · intro d hd _
    exact hi_le_reach hOld.isChain hd
  · intro f hf hLe
    rw [hSplit] at hf
    rcases List.mem_append.mp hf with hIn | hOut
    · exact ⟨f, hIn, hListed f hIn, rfl, rfl⟩
    · have hLater := Tiles.lt_lo hNew hOut
      have hWide := hNew.lo_le_hi hOut
      omega

theorem expiredByTXID_trims {txID level : Nat} {fault itr} (hReplica : ReplicaInv s)
    (hInv : LevelZeroInv s) (hList : ltxFiles s.content fault level 0 = .ok itr) :
    Trims s (expiredByTXID txID itr.items) := by
  by_cases hLevel : level = 0
  · subst hLevel
    rcases hInv.tiles with ⟨base, hTiles, _⟩
    have hInitial := ltxFiles_zero_initial hList
    exact Trims.of_front hReplica hInv
      ((expiredByTXID_front (hTiles.of_initial hInitial) txID).trans hInitial)
  apply Trims.of_other hReplica
  intro d hd
  rw [hReplica.level_eq level d (mem_of_mem_ltxFiles hList (expiredByTXID_lt hd).1)]
  exact hLevel

theorem LevelZeroKnows.deleteNext {enabled : Bool} {txID : Nat} {levels}
    (hTrims : Trims s deleted) :
    LevelZeroKnows s (Task.deleteNext enabled deleted txID levels) := by
  unfold Task.deleteNext
  split
  · exact hTrims
  · exact trivial

theorem Task.Call.levelZero {task : Task} {next} (hReplica : ReplicaInv s)
    (hTask : TaskKnows s task) (hInv : LevelZeroInv s) (hKnows : LevelZeroKnows s task)
    (hCall : Task.Call s task s' next) :
    LevelZeroInv s' ∧ LevelZeroRely s s' ∧ ∀ task' ∈ next, LevelZeroKnows s' task' := by
  have hSame : LevelZeroRely s s := LevelZeroRely.of_eq rfl rfl
  have hCached : ∀ cache, LevelZeroInv { s with cache := cache } :=
    fun _ => ⟨hInv.tiles, hInv.single, hInv.kept, hInv.below⟩
  cases hCall with
  | lookup hLookup =>
    refine ⟨hCached _, LevelZeroRely.of_eq rfl rfl, ?_⟩
    rintro task' ⟨rfl⟩
    exact trivial
  | lookupFailed hLookup => exact ⟨hCached _, LevelZeroRely.of_eq rfl rfl, by simp⟩
  | @listSources c dstLevel prevMaxInfo fault itr hList hSources =>
    refine ⟨hInv, hSame, ?_⟩
    rintro task' ⟨rfl⟩
    intro f hf
    have hLevel := hTask.1
    exact hInv.below (dstLevel - 1) (by omega) f (mem_of_mem_ltxFiles hList hf)
  | openSource =>
    refine ⟨hInv, hSame, ?_⟩
    rintro task' ⟨rfl⟩
    exact hKnows
  | @writeCompacted c dstLevel sources info hLevel hMin hMax =>
    rcases hTask with ⟨hLevels, hSome, _, _⟩
    have hBelow : info.maxTXID ≤ s.uploaded := by
      rcases (Compactor.sourceRange_max hSome).2 with ⟨f, hf, hEq⟩
      rw [hMax, ← hEq]
      exact hKnows f hf
    apply and_assoc.mp
    refine ⟨hInv.store rfl rfl ?_ (fun _ => hBelow), by simp⟩
    omega
  | readPos | listL1 =>
    refine ⟨hInv, hSame, ?_⟩
    rintro task' ⟨rfl⟩
    exact trivial
  | @writeSnapshot txID size createdAt hPos =>
    apply and_assoc.mp
    refine ⟨hInv.store rfl rfl ?_ ?_, by simp⟩
    · exact (by decide : snapshotLevel ≠ 0)
    · exact fun hLess => absurd hLess (Nat.lt_irrefl _)
  | listL0 hList =>
    refine ⟨hInv, hSame, ?_⟩
    rintro task' ⟨rfl⟩
    rcases hInv.tiles with ⟨base, hTiles, _⟩
    have hInitial := ltxFiles_zero_initial hList
    exact Trims.of_front hReplica hInv
      ((expiredL0_front (hTiles.of_initial hInitial) _ _ _).trans hInitial)
  | deleteL0 =>
    rcases hInv.delete hKnows with ⟨hInv', hRely⟩
    exact ⟨hInv', hRely, by simp⟩
  | listSnapshots hList =>
    refine ⟨hInv, hSame, ?_⟩
    rintro task' ⟨rfl⟩
    apply LevelZeroKnows.deleteNext
    apply Trims.of_other hReplica
    intro d hd
    unfold expiredSnapshots at hd
    rw [scanSnapshots_fst] at hd
    have hListed := List.mem_of_mem_dropLast (mem_keepLast_filter hd).1
    rw [hReplica.level_eq snapshotLevel d (mem_of_mem_ltxFiles hList hListed)]
    decide
  | listLevel hList =>
    refine ⟨hInv, hSame, ?_⟩
    rintro task' ⟨rfl⟩
    exact LevelZeroKnows.deleteNext (expiredByTXID_trims hReplica hInv hList)
  | deleteLevel =>
    rcases hInv.delete hKnows with ⟨hInv', hRely⟩
    refine ⟨hInv', hRely, ?_⟩
    rintro task' ⟨rfl⟩
    exact trivial
  | returns => exact ⟨hInv, hSame, by simp⟩

end Steps

/- Both invariants hold together. -/
theorem levelZero_sound : Interleaving.Sound replicaSystem (fun s => ReplicaInv s ∧ LevelZeroInv s)
    (fun s task => TaskKnows s task ∧ LevelZeroKnows s task)
    (fun s s' => Rely s s' ∧ LevelZeroRely s s') where
  world := by
    rintro s s' ⟨hReplica, hInv⟩ hWorld
    rcases hWorld.sound hReplica with ⟨hReplica', hRely⟩
    rcases hWorld.levelZero hInv with ⟨hInv', hZero⟩
    exact ⟨⟨hReplica', hInv'⟩, hRely, hZero⟩
  starts := by
    rintro s task ⟨hReplica, _⟩ hStarts
    refine ⟨replicaSystem_sound.starts s task hReplica hStarts, ?_⟩
    cases hStarts with
    | _ => exact trivial
  call := by
    rintro s task s' next ⟨hReplica, hInv⟩ ⟨hTask, hKnows⟩ hCall
    rcases hCall.sound hReplica hTask with ⟨hReplica', hRely, hNext⟩
    rcases hCall.levelZero hReplica hTask hInv hKnows with ⟨hInv', hZero, hNextZero⟩
    exact ⟨⟨hReplica', hInv'⟩, ⟨hRely, hZero⟩, fun task' hTask' =>
      ⟨hNext task' hTask', hNextZero task' hTask'⟩⟩
  stable := by
    rintro s s' task ⟨hRely, hZero⟩ ⟨hTask, hKnows⟩
    exact ⟨hTask.stable hRely, hKnows.stable hZero⟩

end Retention

end Replicate
