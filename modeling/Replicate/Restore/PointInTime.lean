import Replicate.LTX.Library
import Replicate.Restore.PlannerCorrectness

/-
  Point-in-time restores.

  A compacted file carries the last timestamp of its
  sources, so that no transaction in it is later than the
  file. The planner admits a file by that timestamp alone,
  and a plan stays before its target. With the earliest
  timestamp, which the docs ask for, it would not: a file
  that straddles the requested time would be admitted.

  Main declarations:
    * `Schedule.timed`
    * `pointInTime_staysBefore`
    * `pointInTime_passes_target`
-/

-- Schedules

namespace Replicate

open Compactor Content RestoreLevelCursor List

/- The earliest timestamp of the sources of a compaction. -/
def earliestCreatedAt : List FileInfo → Int
| [] => 0
| f :: fs => fs.foldl (fun t g => min t g.createdAt) f.createdAt

/- The last timestamp of the sources of a compaction. -/
def lastCreatedAt : List FileInfo → Int
| [] => 0
| f :: fs => fs.foldl (fun t g => max t g.createdAt) f.createdAt

/-
  The replicas that uploads of consecutive transactions,
  compactions and snapshots can build. Transaction `t` has
  the timestamp `ts t`. A compaction takes what it lists
  from the level below, and `stamp` is the time that it
  gives to its file; a snapshot is labelled with a position
  and carries its own time, which is not before the
  transactions it contains.
-/
inductive Schedule (stamp : List FileInfo → Int)
    (ts : Nat → Int) : Nat → Content → Prop where
  | empty : Schedule stamp ts 0 (fun _ => [])
  | upload {n content size} (hRun : Schedule stamp ts n content) (hBound : n + 1 < TXID.bound) :
    Schedule stamp ts (n + 1) (content.put 0 ⟨0, n + 1, n + 1, size, ts (n + 1)⟩)
  | compact {n level seek content fault itr size} (hRun : Schedule stamp ts n content)
    (hLevel : level + 1 < snapshotLevel) (hSources : ltxFiles content fault level seek = .ok itr)
    (hNonempty : itr.items ≠ []) :
    Schedule stamp ts n (content.put (level + 1)
      { level := level + 1
        minTXID := (sourceRange itr.items).1
        maxTXID := (sourceRange itr.items).2
        size := size
        createdAt := stamp itr.items })
  | snapshot {n pos content size now} (hRun : Schedule stamp ts n content) (hPos : 1 ≤ pos)
    (hBound : pos < TXID.bound) (hNow : ∀ t, 1 ≤ t → t ≤ pos → ts t ≤ now) :
    Schedule stamp ts n (content.put snapshotLevel ⟨snapshotLevel, 1, pos, size, now⟩)

-- What Holds Along Every Schedule

/- A file is not older than its transactions. -/
structure FileInfo.NotBefore (ts : Nat → Int)
    (f : FileInfo) : Prop where
  start : 1 ≤ f.minTXID
  range : f.minTXID ≤ f.maxTXID
  bound : f.maxTXID < TXID.bound
  times : ∀ t, 1 ≤ t → t ≤ f.maxTXID → ts t ≤ f.createdAt

/-
  Files are listed by name, none is older than one of its
  transactions, and snapshots begin with the first one.
-/
structure Timed (ts : Nat → Int) (content : Content) : Prop where
  sorted : ∀ level, (content level).Pairwise NameLt
  files : ∀ level, ∀ f ∈ content level, f.NotBefore ts
  snapshots : ∀ f ∈ content snapshotLevel, f.minTXID = 1

theorem le_lastCreatedAt {items : List FileInfo} {f : FileInfo} (hMem : f ∈ items) :
    f.createdAt ≤ lastCreatedAt items := by
  have hFold : ∀ (fs : List FileInfo) (t : Int), t ≤ fs.foldl (fun t g => max t g.createdAt) t ∧
    ∀ g ∈ fs, g.createdAt ≤ fs.foldl (fun t g => max t g.createdAt) t := by
    intro fs
    induction fs with
    | nil => exact fun t => ⟨Int.le_refl t, nofun⟩
    | cons g fs ih =>
      intro t
      rw [foldl_cons]
      rcases ih (max t g.createdAt) with ⟨hLe, hAll⟩
      refine ⟨by omega, ?_⟩
      intro x hx
      rcases mem_cons.mp hx with rfl | hTail
      · omega
      · exact hAll x hTail
  cases items with
  | nil => cases hMem
  | cons g fs =>
    rcases mem_cons.mp hMem with rfl | hTail
    · exact (hFold fs f.createdAt).1
    · exact (hFold fs g.createdAt).2 f hTail

section Steps

variable {ts : Nat → Int} {n : Nat} {content : Content}

theorem Timed.put (hTimed : Timed ts content) {level : Nat} {f : FileInfo}
    (hFile : f.NotBefore ts) (hSnapshot : level = snapshotLevel → f.minTXID = 1) :
    Timed ts (content.put level f) where
  sorted := put_sorted hTimed.sorted
  files := by
    intro l g hg
    rcases eq_or_mem_of_mem_put hg with ⟨_, rfl⟩ | hOld
    · exact hFile
    · exact hTimed.files l g hOld
  snapshots := by
    intro g hg
    rcases eq_or_mem_of_mem_put hg with ⟨hLevel, rfl⟩ | hOld
    · exact hSnapshot hLevel.symm
    · exact hTimed.snapshots g hOld

/-
  The compacted file. It can span transactions that none of
  its sources has, and the last source is not before them.
-/
theorem Timed.compacted (hTimed : Timed ts content) {level seek : Nat} {fault itr}
    (hSources : ltxFiles content fault level seek = .ok itr) (hNonempty : itr.items ≠ [])
    (dstLevel : Nat) (size : Int) :
    FileInfo.NotBefore ts ⟨dstLevel, (sourceRange itr.items).1, (sourceRange itr.items).2, size,
      lastCreatedAt itr.items⟩ := by
  have hFiles : ∀ g ∈ itr.items, g.NotBefore ts :=
    fun g hg => hTimed.files level g (mem_of_mem_ltxFiles hSources hg)
  rcases sourceRange_min (fun g hg => (hFiles g hg).start) hNonempty with ⟨_, a, ha, hMin⟩
  rcases sourceRange_max hNonempty with ⟨hGreatest, b, hb, hMax⟩
  refine ⟨?_, ?_, ?_, ?_⟩
  · exact hMin ▸ (hFiles a ha).start
  · have hLe := hGreatest a ha
    have hRange := (hFiles a ha).range
    dsimp only
    omega
  · exact hMax ▸ (hFiles b hb).bound
  · intro t hPos hLe
    dsimp only at hLe
    exact Int.le_trans ((hFiles b hb).times t hPos (hMax ▸ hLe)) (le_lastCreatedAt hb)

/- Every schedule keeps the invariant. -/
theorem Schedule.timed (hMono : ∀ s t, 1 ≤ s → s ≤ t → ts s ≤ ts t)
    (hRun : Schedule lastCreatedAt ts n content) : Timed ts content := by
  induction hRun with
  | empty => exact ⟨by simp, by simp, by simp⟩
  | @upload n content size _ hBound ih =>
    refine ih.put ⟨Nat.le_add_left 1 n, Nat.le_refl _, hBound, ?_⟩ nofun
    exact fun t hPos hLe => hMono t (n + 1) hPos hLe
  | compact _ hLevel hSources hNonempty ih =>
    exact ih.put (ih.compacted hSources hNonempty _ _) (fun hLast => absurd hLast (by omega))
  | snapshot _ hPos hBound hNow ih =>
    exact ih.put ⟨Nat.le_refl 1, hPos, hBound, hNow⟩ (fun _ => rfl)

end Steps

-- The Restore Target

/- No file of the plan holds a transaction from then on. -/
def StaysBefore (ts : Nat → Int) (timestamp : Int) (plan : List FileInfo) : Prop :=
  ∀ f ∈ plan, ∀ t, f.minTXID ≤ t → t ≤ f.maxTXID → ts t < timestamp

theorem Timed.wellListed {ts : Nat → Int} {content : Content} (hTimed : Timed ts content) :
    content.WellListed where
  levels_sorted := by
    intro level _
    refine (hTimed.sorted level).imp ?_
    intro f g hLt
    unfold NameLt at hLt
    omega
  range := by
    rintro f ⟨level, _, hf⟩
    have hFile := hTimed.files level f hf
    exact ⟨hFile.start, hFile.range, hFile.bound⟩
  snapshot_min := hTimed.snapshots
  snapshots_sorted := by
    refine (hTimed.sorted snapshotLevel).imp_of_mem ?_
    intro f g hf hg hLt
    have hMinF := hTimed.snapshots f hf
    have hMinG := hTimed.snapshots g hg
    unfold NameLt at hLt
    omega

/-
  Along every schedule, a point-in-time restore stays
  before its target.
-/
theorem pointInTime_staysBefore
    (ts : Nat → Int)
    (hMono : ∀ s t, 1 ≤ s → s ≤ t → ts s ≤ ts t)
    (n : Nat)
    (content : Content)
    (hRun : Schedule lastCreatedAt ts n content)
    (timestamp : Int)
    (hTarget : timestamp ≠ 0)
    (plan : List FileInfo)
    (hPlan :
      calcRestorePlan content.listing 0 timestamp =
        .ok plan) :
    StaysBefore ts timestamp plan := by
  have hTimed := hRun.timed hMono
  have hWell := hTimed.wellListed
  have hFiles :=
    (calcRestorePlan_isChain hWell.sorted (fun _ hItr _ hf => hWell.snapshots_start hItr hf)
      hPlan).2.2.1
  intro f hf t hMin hMax
  rcases hFiles f hf with ⟨⟨level, _, itr, hItr, hMem⟩, hElig⟩
  simp only [listing, Except.ok.injEq] at hItr
  rw [← hItr] at hMem
  have hFile := hTimed.files level f hMem
  have hBefore : f.createdAt < timestamp := hElig.2.resolve_left hTarget
  exact Int.lt_of_le_of_lt (hFile.times t (Nat.le_trans hFile.start hMin) hMax) hBefore

def everyTen (t : Nat) : Int :=
  10 * t

theorem everyTen_mono : ∀ s t, 1 ≤ s → s ≤ t → everyTen s ≤ everyTen t := by
  intro s t _ hLe
  unfold everyTen
  omega

def threeUploads : Content :=
  ((put (put (put (fun _ => []) 0 ⟨0, 1, 1, 150, 10⟩) 0 ⟨0, 2, 2, 150, 20⟩) 0 ⟨0, 3, 3, 150, 30⟩))

/- Three transactions, and the file that holds all of them. -/
def threeCompacted (createdAt : Int) : Content :=
  put threeUploads 1 ⟨1, 1, 3, 300, createdAt⟩

theorem threeCompacted_schedule (stamp : List FileInfo → Int) :
    Schedule stamp everyTen 3 (threeCompacted (stamp (threeUploads 0))) := by
  have hSources : ltxFiles threeUploads .none 0 1 = .ok ⟨threeUploads 0, none⟩ := by decide
  have hUploads : Schedule stamp everyTen 3 threeUploads :=
    .upload (.upload (.upload .empty (by decide)) (by decide)) (by decide)
  exact .compact hUploads (by decide) hSources (by decide)

/- Asked for time 25, the planner leaves the file of time 30. -/
theorem threeCompacted_staysBefore :
    calcRestorePlan (threeCompacted 30).listing 0 25 =
      .ok [⟨0, 1, 1, 150, 10⟩, ⟨0, 2, 2, 150, 20⟩] ∧
    StaysBefore everyTen 25
      [⟨0, 1, 1, 150, 10⟩, ⟨0, 2, 2, 150, 20⟩] := by
  have hPlan : calcRestorePlan (threeCompacted 30).listing 0 25 =
    .ok [⟨0, 1, 1, 150, 10⟩, ⟨0, 2, 2, 150, 20⟩] := by decide
  exact ⟨hPlan, pointInTime_staysBefore everyTen everyTen_mono 3 (threeCompacted 30)
    (threeCompacted_schedule lastCreatedAt) 25 (by decide) _ hPlan⟩

/-
  Had the file the earliest timestamp, the planner would
  take it, and with it the transaction of time 30.
-/
theorem pointInTime_passes_target :
    ¬ (∀ (ts : Nat → Int) (n : Nat) (content : Content) (timestamp : Int) (plan : List FileInfo),
        (∀ s t, 1 ≤ s → s ≤ t → ts s ≤ ts t) →
        Schedule earliestCreatedAt ts n content →
        timestamp ≠ 0 →
        calcRestorePlan content.listing 0 timestamp =
          .ok plan → StaysBefore ts timestamp plan) := by
  intro hClaim
  have hPlan : calcRestorePlan (threeCompacted 10).listing 0 25 = .ok [⟨1, 1, 3, 300, 10⟩] := by
    decide
  have hBefore :=
    hClaim everyTen 3 (threeCompacted 10) 25 _ everyTen_mono
      (threeCompacted_schedule earliestCreatedAt) (by decide) hPlan
      ⟨1, 1, 3, 300, 10⟩ (by simp) 3 (by decide) (by decide)
  revert hBefore
  decide

end Replicate
