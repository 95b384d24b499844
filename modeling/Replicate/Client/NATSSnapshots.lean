import Mathlib.Data.Finset.Max
import Replicate.Client.NATS
import Replicate.Compaction.Retention
import Replicate.Restore.PlannerCorrectness

/-
  Snapshots in a NATS bucket.

  The listing is sorted by the lowest TXID. All snapshots
  begin at 1, so with two of them any order may come out of
  the sort. The retention keeps the last one listed and the
  restore starts from it, whichever it is.

  Main declarations:
    * `NATS.NewestLast`
    * `NATS.snapshots_newest_last`
    * `NATS.newest_snapshot_deleted`
-/

namespace Replicate

open List

namespace NATS

variable {txID fuel : Nat} {timestamp : Int} {s : PlanState} {plan items : List FileInfo}
  {f : FileInfo}

open Retention RestoreLevelCursor

/-
  The retention keeps the newest snapshot, and a plan starts
  from the newest one that is not above the target.
-/
def NewestLast (items : List FileInfo) : Prop :=
  (∀ timestamp, ∀ f ∈ items, (∀ g ∈ items, g.maxTXID ≤ f.maxTXID) →
    f ∉ expiredSnapshots timestamp items) ∧
  ∀ (files : Listing) fuel txID plan, files snapshotLevel = .ok ⟨items, none⟩ →
    calcRestorePlanFuel fuel files txID 0 = some (.ok plan) →
    ∀ f ∈ items, Eligible txID 0 f →
      (∀ g ∈ items, Eligible txID 0 g → g.maxTXID ≤ f.maxTXID) → plan.head? = some f

theorem planLoop_infos {s'} (hLoop : planLoop txID timestamp fuel s = some (.ok s')) :
    s.infos <+: s'.infos := by
  induction fuel generalizing s with
  | zero => contradiction
  | succ fuel ih =>
    unfold planLoop at hLoop
    split at hLoop
    · cases hLoop
    split at hLoop
    · cases hLoop
      exact prefix_rfl
    split at hLoop
    · have hRest := ih hLoop
      exact hRest
    · split at hLoop
      · cases hLoop
        exact prefix_append _ _
      · exact (prefix_append _ _).trans (ih hLoop)

theorem finishPlan_infos (hFinish : finishPlan txID timestamp s = .ok plan) : plan = s.infos := by
  simp only [finishPlan, bind, Except.bind] at hFinish
  split at hFinish <;> grind

/- A plan starts with the snapshot that was found. -/
theorem head_of_calcRestorePlanFuel {files} (hFiles : files snapshotLevel = .ok ⟨items, none⟩)
    (hFind : findSnapshot txID 0 items = some f)
    (hPlan : calcRestorePlanFuel fuel files txID 0 = some (.ok plan)) : plan.head? = some f := by
  rw [calcRestorePlanFuel, if_neg (by simp), hFiles] at hPlan
  dsimp only at hPlan
  rw [hFind, Option.toList_some] at hPlan
  split at hPlan
  · cases hPlan
    rfl
  split at hPlan
  · cases hPlan
  split at hPlan
  · cases hPlan
  · cases hPlan
  · next s hLoop =>
    obtain ⟨rest, hInfos⟩ := planLoop_infos hLoop
    rw [finishPlan_infos (Option.some.inj hPlan), ← hInfos]
    rfl

/- A snapshot that is not the last one listed expires. -/
theorem mem_expiredSnapshots {last} (hNe : f ≠ last) :
    f ∈ expiredSnapshots (f.createdAt + 1) (f :: items ++ [last]) := by
  have hScan : f ∈ (scanSnapshots (f.createdAt + 1) (f :: items ++ [last])).1 := by
    rw [scanSnapshots_fst, mem_filter, decide_eq_true_eq]
    exact ⟨mem_append_left _ mem_cons_self, Int.lt_succ _⟩
  unfold expiredSnapshots keepLast
  split
  · next hLast =>
    rw [getLast?_concat] at hLast
    obtain ⟨init, hInit⟩ := getLast?_eq_some_iff.mp hLast.2
    rw [hInit] at hScan ⊢
    rw [dropLast_concat]
    exact (mem_append.mp hScan).resolve_right (mt mem_singleton.mp hNe)
  · exact hScan

theorem snapshots_newest_last
    (N : Naming)
    (path : List Char)
    (objs : List Object)
    (hMin :
      ∀ f ∈ objs.filterMap (fileInfo N path snapshotLevel 0),
        f.minTXID = 1)
    (hDistinct :
      ((objs.filterMap
          (fileInfo N path snapshotLevel 0)).map
        FileInfo.maxTXID).Nodup) :
    (∀ items,
      Lists N path objs snapshotLevel 0 items →
      NewestLast items) ↔
    (objs.filterMap
      (fileInfo N path snapshotLevel 0)).length ≤ 1 := by
  constructor
  · intro hAll
    by_contra hMany
    generalize hFound : objs.filterMap (fileInfo N path snapshotLevel 0) = found at *
    obtain ⟨f, hf, hMax⟩ := Finset.exists_max_image found.toFinset FileInfo.maxTXID
      ((toFinset_nonempty_iff found).mpr (by rintro rfl; simp at hMany))
    -- the newest snapshot is listed first
    have hPerm := perm_cons_erase (mem_toFinset.mp hf)
    rcases eq_nil_or_concat (found.erase f) with hNil | ⟨init, last, hRest⟩
    · rw [hNil] at hPerm
      exact hMany hPerm.length_eq.le
    rw [hRest, concat_eq_append] at hPerm
    have hNe : f ≠ last := by
      rintro rfl
      have hNodup := (hPerm.map _).nodup_iff.mp hDistinct
      simp at hNodup
    have hLists : Lists N path objs snapshotLevel 0 (f :: init ++ [last]) := by
      refine ⟨hFound ▸ hPerm.symm, pairwise_of_forall_mem_list fun a ha b hb => ?_⟩
      rw [hMin a (hPerm.symm.subset ha), hMin b (hPerm.symm.subset hb)]
      exact Nat.lt_irrefl 1
    refine (hAll _ hLists).1 (f.createdAt + 1) f mem_cons_self ?_ (mem_expiredSnapshots hNe)
    exact fun g hg => hMax g (mem_toFinset.mpr (hPerm.symm.subset hg))
  · intro hFew items hLists
    have hLength := hLists.perm.length_eq
    match items with
    | [] => exact ⟨fun _ _ hMem => absurd hMem not_mem_nil,
      fun _ _ _ _ _ _ _ hMem => absurd hMem not_mem_nil⟩
    | [g] =>
      constructor
      · rintro timestamp f - - hMem
        rw [expiredSnapshots, scanSnapshots_fst] at hMem
        exact absurd (mem_keepLast_filter hMem).1 not_mem_nil
      · rintro files fuel txID plan hFiles hPlan f hf hElig -
        rw [mem_singleton.mp hf] at hElig ⊢
        exact head_of_calcRestorePlanFuel hFiles (by simp [findSnapshot, hElig]) hPlan
    | _ :: _ :: _ => simp at hLength; omega

/- The files of two snapshots in a bucket without a path. -/
def twoSnapshots : List Object :=
  [⟨keyPath ltxNaming [] ⟨9, 1, 2⟩, 0, 0, none⟩,
    ⟨keyPath ltxNaming [] ⟨9, 1, 1⟩, 0, 0, none⟩]

theorem twoSnapshots_infos :
    twoSnapshots.filterMap
      (fileInfo ltxNaming [] snapshotLevel 0) =
      [⟨9, 1, 2, 0, 0⟩, ⟨9, 1, 1, 0, 0⟩] := by
  decide +kernel

theorem snapshots_newest_last_single :
    Lists ltxNaming [] (twoSnapshots.take 1) snapshotLevel 0
      [⟨9, 1, 2, 0, 0⟩] ∧
    NewestLast [⟨9, 1, 2, 0, 0⟩] := by
  have hInfos : (twoSnapshots.take 1).filterMap
    (fileInfo ltxNaming [] snapshotLevel 0) =
      [⟨9, 1, 2, 0, 0⟩] := by
    decide +kernel
  have hLists : Lists ltxNaming [] (twoSnapshots.take 1)
    snapshotLevel 0 [⟨9, 1, 2, 0, 0⟩] :=
    ⟨by rw [hInfos], pairwise_singleton _ _⟩
  refine ⟨hLists, ?_⟩
  exact (snapshots_newest_last ltxNaming []
    (twoSnapshots.take 1) (by rw [hInfos]; decide)
    (by rw [hInfos]; decide)).mpr (by rw [hInfos]; decide)
    _ hLists

/-
  The newest one is listed first: it is deleted, and a
  restore begins with the other one.
-/
theorem newest_snapshot_deleted :
    ∃ newest older,
      Lists ltxNaming [] twoSnapshots snapshotLevel 0
        [newest, older] ∧
      newest.maxTXID = 2 ∧
      older.maxTXID = 1 ∧
      newest ∈ expiredSnapshots 1 [newest, older] ∧
      findSnapshot 0 0 [newest, older] = some older :=
  ⟨⟨9, 1, 2, 0, 0⟩, ⟨9, 1, 1, 0, 0⟩,
    ⟨by rw [twoSnapshots_infos], by decide⟩, rfl, rfl,
    by decide, by decide⟩

end NATS

end Replicate
