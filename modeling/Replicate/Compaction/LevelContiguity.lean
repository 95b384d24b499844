import Replicate.Compaction.LevelInvariant

/-
  When the levels of a replica stay contiguous.

  L0 retention deletes only what level 1 has consumed, and
  so does retention by TXID in a run that meets the
  condition. In general it goes by the snapshot instead and
  leaves a gap in the next level.

  Main declarations:
    * `LevelState.Sound.call`
    * `LevelState.Run.sound`
    * `levels_stay_contiguous`
    * `retention_leaves_gap`
-/

namespace Replicate

open IntervalChain

-- Every Step

open Retention

namespace LevelState

variable {c : Compactor} {base : Nat → Nat} {s : Shared}
variable {task : Task} {txID : Nat} {fault : ListFault} {itr : FileIterator} {x : LevelState}

/- The invariant, and what the operation under way knows. -/
def Sound (c : Compactor) (x : LevelState) : Prop :=
  ∃ base, LevelsInv c base x.shared ∧ ∀ task ∈ x.task, LevelsKnow c base x.shared task

theorem Sound.of_none (hInv : LevelsInv c base s) : Sound c ⟨s, none⟩ :=
  ⟨base, hInv, by simp⟩

theorem Sound.of_some (hInv : LevelsInv c base s) (hKnows : LevelsKnow c base s task) :
    Sound c ⟨s, some task⟩ := by
  refine ⟨base, hInv, ?_⟩
  rintro task' ⟨rfl⟩
  exact hKnows

theorem Sound.deleteNext {enabled : Bool} {deleted levels} (hInv : LevelsInv c base s)
    (hDroppable : Droppable s.content deleted) :
    Sound c ⟨s, some (Task.deleteNext enabled deleted txID levels)⟩ := by
  apply Sound.of_some hInv
  unfold Task.deleteNext
  split
  · exact hDroppable
  · exact trivial

/-
  What retention by TXID chooses from a level, once the
  next level has consumed it.
-/
theorem expiredByTXID_droppable {level : Nat} (hInv : LevelsInv c base s)
    (hList : ltxFiles s.content fault level 0 = .ok itr)
    (hConsumed : level + 1 < snapshotLevel → ∀ f ∈ (s.content level).dropLast, f.maxTXID < txID →
      s.content (level + 1) = [] ∨ ∃ g ∈ s.content (level + 1), f.maxTXID ≤ g.maxTXID) :
    Droppable s.content (expiredByTXID txID itr.items) := by
  refine ⟨level, ?_, ?_⟩
  · intro d hd
    exact hInv.level_eq level d (mem_of_mem_ltxFiles hList (expiredByTXID_lt hd).1)
  · intro hLess
    have hInitial := ltxFiles_zero_initial hList
    have hTiles := (hInv.tiles level hLess).of_initial hInitial
    have hFront := (expiredByTXID_front hTiles txID).trans hInitial
    refine ⟨hFront, ?_⟩
    intro hNext hSome d hd
    have hEarly : d ∈ (s.content level).dropLast := by
      rcases hFront with hNone | ⟨rest, hRest, hSplit⟩
      · rw [hNone] at hd
        simp at hd
      · rw [hSplit, List.dropLast_append_of_ne_nil hRest]
        exact List.mem_append_left _ hd
    rcases hConsumed hNext d hEarly (expiredByTXID_lt hd).2 with hNone | hLater
    · exact absurd hNone hSome
    · exact hLater

theorem expiredL0_droppable {maxL1 : Nat} {threshold : Int} {modTime} (hInv : LevelsInv c base s)
    (hList : ltxFiles s.content fault 0 0 = .ok itr) (hEnd : ∃ g ∈ s.content 1, maxL1 = g.maxTXID) :
    Droppable s.content (expiredL0 maxL1 threshold modTime itr.items) := by
  refine ⟨0, ?_, ?_⟩
  · intro d hd
    exact hInv.level_eq 0 d (mem_of_mem_ltxFiles hList (expiredL0_le hd).1)
  · intro hLess
    have hInitial := ltxFiles_zero_initial hList
    have hTiles := (hInv.tiles 0 hLess).of_initial hInitial
    refine ⟨(expiredL0_front hTiles maxL1 threshold modTime).trans hInitial, ?_⟩
    intro _ _ d hd
    rcases hEnd with ⟨g, hg, hEq⟩
    exact ⟨g, hg, hEq ▸ (expiredL0_le hd).2⟩

theorem Sound.call {s' next} (hSound : Sound c ⟨s, some task⟩)
    (hConsumed : ConsumedFirst ⟨s, some task⟩) (hCall : Task.Call s task s' next) :
    Sound c ⟨s', next⟩ := by
  rcases hSound with ⟨base, hInv, hTask⟩
  have hKnows : LevelsKnow c base s task := hTask task rfl
  cases hCall with
  | lookup hLookup =>
    rcases hKnows with ⟨rfl, hFirst, hLast⟩
    rcases hInv.lookup hFirst hLast hLookup with ⟨hFilled, hEnd⟩
    exact Sound.of_some hFilled ⟨⟨rfl, hFirst, hLast⟩, hEnd _ rfl⟩
  | lookupFailed hLookup =>
    rcases hKnows with ⟨rfl, hFirst, hLast⟩
    exact Sound.of_none (hInv.lookup hFirst hLast hLookup).1
  | listSources hList hSources =>
    exact Sound.of_some hInv (LevelsKnow.listSources hInv hKnows hList hSources)
  | openSource => exact Sound.of_some hInv hKnows
  | writeCompacted hLevel hMin hMax =>
    rcases hInv.writeCompacted hKnows hLevel hMin hMax with ⟨base', hStored⟩
    exact Sound.of_none hStored
  | readPos => exact Sound.of_some hInv trivial
  | @writeSnapshot txID size createdAt hPos =>
    apply Sound.of_none
    refine hInv.congr ?_ ?_ rfl rfl (Nat.le_refl _) hInv.bound
    · intro level hLess
      exact Content.put_other (Nat.ne_of_lt hLess)
    · intro level f hf
      rcases Content.eq_or_mem_of_mem_put hf with ⟨hEq, rfl⟩ | hOld
      · exact hEq.symm
      · exact hInv.level_eq level f hOld
  | @listL1 enabled retention fault itr hList hClose hSome =>
    apply Sound.of_some hInv
    rcases maxL1TXID_eq itr.items with hZero | ⟨g, hg, hEq⟩
    · exact absurd hZero hSome
    · exact ⟨g, mem_of_mem_ltxFiles hList hg, hEq⟩
  | listL0 hList => exact Sound.of_some hInv (expiredL0_droppable hInv hList hKnows)
  | deleteL0 =>
    rcases hInv.delete hKnows with ⟨base', hDeleted⟩
    exact Sound.of_none hDeleted
  | listSnapshots hList =>
    apply Sound.deleteNext hInv
    refine ⟨snapshotLevel, ?_, ?_⟩
    · intro d hd
      unfold expiredSnapshots at hd
      rw [scanSnapshots_fst] at hd
      have hListed := List.mem_of_mem_dropLast (mem_keepLast_filter hd).1
      exact hInv.level_eq snapshotLevel d (mem_of_mem_ltxFiles hList hListed)
    · intro hLess
      exact absurd hLess (Nat.lt_irrefl _)
  | @listLevel enabled txID level levels fault itr hList =>
    apply Sound.deleteNext hInv
    apply expiredByTXID_droppable hInv hList
    exact hConsumed enabled txID level levels rfl
  | deleteLevel =>
    rcases hInv.delete hKnows with ⟨base', hDeleted⟩
    exact Sound.of_some hDeleted trivial
  | returns => exact Sound.of_none hInv

theorem Step.sound {y} (hSound : Sound c x) (hConsumed : x.ConsumedFirst) (hStep : Step c x y) :
    Sound c y := by
  cases hStep with
  | world hWorld =>
    rcases hSound with ⟨base, hInv, _⟩
    exact Sound.of_none (hWorld.levels hInv)
  | start hStarts hAllowed =>
    rcases hSound with ⟨base, hInv, _⟩
    apply Sound.of_some hInv
    cases hStarts with
    | compact hFirst hLast _ => exact ⟨hAllowed, hFirst, hLast⟩
    | snapshot | l0Retention | snapshotRetention => exact trivial
  | call hCall => exact hSound.call hConsumed hCall

theorem Run.sound (hRun : Run c ConsumedFirst empty x) : Sound c x := by
  induction hRun with
  | refl => exact Sound.of_none (LevelsInv.empty c)
  | tail _ hLast ih => exact hLast.2.sound ih hLast.1

end LevelState

-- Contiguity

theorem contiguous_of_tiles {b : Nat} {files}
    (hTiles : Tiles FileInfo.minTXID FileInfo.maxTXID b files) : Contiguous files := by
  induction files generalizing b with
  | nil => exact List.IsChain.nil
  | cons f files ih =>
    rcases hTiles with ⟨_, _, hRest⟩
    cases files with
    | nil => exact List.IsChain.singleton f
    | cons g files => exact List.isChain_cons_cons.mpr ⟨hRest.1, ih hRest⟩

theorem checks_of_contiguous {content} {level : Nat} (hContiguous : Contiguous (content level))
    (hProper : ∀ f ∈ content level, f.minTXID ≤ f.maxTXID)
    (hBound : ∀ f ∈ content level, f.maxTXID + 1 < TXID.bound) :
    validateLevel content .none level = .ok [] ∧
      verifyLevelConsistency content .none level = .ok () := by
  rcases hContiguous.checks hProper hBound level with ⟨hValid, hVerified⟩
  constructor
  · simp only [validateLevel, ltxFiles_none_zero, hValid]
  · simp only [verifyLevelConsistency, ltxFiles_none_zero, hVerified, failOn]

/-
  In every run, if retention by TXID looks only at levels
  whose older files have been compacted into the next
  level, all levels stay contiguous.
-/
theorem levels_stay_contiguous
    (c : Compactor)
    (x : LevelState)
    (hRun :
      LevelState.Run c LevelState.ConsumedFirst
        LevelState.empty x)
    (level : Nat)
    (hLevel : level < snapshotLevel) :
    Contiguous (x.shared.content level) ∧
    validateLevel x.shared.content .none level = .ok [] ∧
    verifyLevelConsistency x.shared.content .none level =
      .ok () := by
  rcases hRun.sound with ⟨base, hInv, _⟩
  have hTiles := hInv.tiles level hLevel
  have hContiguous := contiguous_of_tiles hTiles
  refine ⟨hContiguous, checks_of_contiguous hContiguous ?_ ?_⟩
  · intro f hf
    exact hTiles.lo_le_hi hf
  · intro f hf
    have hLe := hInv.reach_le level hLevel f hf
    have hUploaded := hInv.uploaded_le
    have hBound := hInv.bound
    omega

-- A Gap

open LevelState in
/- Two transactions are compacted to level 1 one by one. -/
theorem levels_stay_contiguous_two :
    Contiguous
      ((compactNow plainCompactor
          (uploadNext
            (compactNow plainCompactor
              (uploadNext Shared.empty) 1)) 1).content
        1) := by
  refine (levels_stay_contiguous plainCompactor ⟨_, none⟩ ?_ 1 (by decide)).1
  refine (Run.uploadNext lenient_consumedFirst (by decide)).trans ?_
  refine (Run.compactNow lenient_consumedFirst 1 (by decide)).trans ?_
  refine (Run.uploadNext lenient_consumedFirst (by decide)).trans ?_
  exact Run.compactNow lenient_consumedFirst 1 (by decide)

namespace LevelState

def beforeSnapshot : Shared :=
  let first := uploadNext Shared.empty
  let first := compactNow plainCompactor first 1
  let first := compactNow plainCompactor first 2
  let second := compactNow plainCompactor (uploadNext first) 1
  compactNow plainCompactor (uploadNext second) 1

def afterRetention : Shared :=
  compactNow plainCompactor (retainNow (snapshotNow beforeSnapshot) [1, 2, 3, 4, 5, 6, 7, 8]) 2

theorem run_beforeSnapshot (hLenient : Lenient (fun _ => True)) :
    Run plainCompactor (fun _ => True) empty ⟨beforeSnapshot, none⟩ := by
  refine (Run.uploadNext hLenient (by decide)).trans ?_
  refine (Run.compactNow hLenient 1 (by decide)).trans ?_
  refine (Run.compactNow hLenient 2 (by decide)).trans ?_
  refine (Run.uploadNext hLenient (by decide)).trans ?_
  refine (Run.compactNow hLenient 1 (by decide)).trans ?_
  refine (Run.uploadNext hLenient (by decide)).trans ?_
  exact Run.compactNow hLenient 1 (by decide)

end LevelState

open LevelState in
/-
  Level 2 ends at TXID 1 when a snapshot of TXID 3 lets
  retention delete TXID 2 from level 1. The next compaction
  to level 2 goes on with TXID 3.
-/
theorem retention_leaves_gap :
    Run plainCompactor (fun _ => True) empty
      ⟨afterRetention, none⟩ ∧
    ¬ Contiguous (afterRetention.content 2) ∧
    (∃ e,
      validateLevel afterRetention.content .none 2 =
        .ok [e] ∧
      e.type = .gap) ∧
    verifyLevelConsistency afterRetention.content .none 2 ≠
      .ok () := by
  have hFiles : afterRetention.content 2 = [⟨2, 1, 1, 0, 0⟩, ⟨2, 3, 3, 0, 0⟩] := by decide
  have hLenient : Lenient (fun _ : LevelState => True) := fun _ _ => trivial
  refine ⟨?_, ?_, ?_, ?_⟩
  · refine (run_beforeSnapshot hLenient).trans ?_
    refine (Run.snapshotNow hLenient (by decide)).trans ?_
    refine (Run.retainNow (fun _ => trivial) [1, 2, 3, 4, 5, 6, 7, 8] (by decide)).trans ?_
    exact Run.compactNow hLenient 2 (by decide)
  · rw [hFiles]
    intro hContiguous
    exact absurd (List.isChain_cons_cons.mp hContiguous).1 (by decide)
  · rw [validateLevel, ltxFiles_none_zero, hFiles]
    exact ⟨_, rfl, rfl⟩
  · rw [verifyLevelConsistency, ltxFiles_none_zero, hFiles]
    simp [verifyFiles, TXID.next, TXID.bound]

end Replicate
