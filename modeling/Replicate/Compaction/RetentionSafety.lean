import Mathlib.Data.Finset.Max
import Replicate.Compaction.Retention
import Replicate.LTX.Library
import Replicate.Restore.PlannerCorrectness

/-
  Retention keeps the latest state restorable.

  A transaction is secured once a snapshot or a level-1
  file covers it, and it stays secured from then on:
  retention deletes a file of level 1 only below a snapshot
  it leaves in place. L0 files go only when secured. So at
  any time all transactions up to the greatest one are
  covered, whatever runs at once, and the planner finds a
  chain to it.

  Main declarations:
    * `Secured`
    * `ReplicaInv`
    * `TaskKnows`
    * `replicaSystem_sound`
    * `retention_keeps_latest`
-/

-- Secured Transactions

namespace Replicate

open Compactor Content Interleaving

namespace Retention

variable {s s' : Shared}

/- A snapshot or a level-1 file covers the transaction. -/
def Secured (content : Content) (t : Nat) : Prop :=
  (∃ f ∈ content snapshotLevel, t ≤ f.maxTXID) ∨ ∃ f ∈ content 1, f.minTXID ≤ t ∧ t ≤ f.maxTXID

/- All transactions up to the TXID are secured. -/
def SecuredTo (content : Content) (txID : Nat) : Prop :=
  ∀ t, 1 ≤ t → t ≤ txID → Secured content t

/- The TXID is not past the newest snapshot. -/
def WithinSnapshot (content : Content) (txID : Nat) : Prop :=
  ∃ f ∈ content snapshotLevel, txID ≤ f.maxTXID

/-
  What holds of the replica between any two calls. The
  greatest TXID is that of the last upload or that of the
  newest snapshot, which can be ahead of the uploads.
-/
structure ReplicaInv (s : Shared) : Prop where
  sorted : ∀ level, (s.content level).Pairwise NameLt
  level_eq : ∀ level, ∀ f ∈ s.content level, f.level = level
  range : ∀ level, ∀ f ∈ s.content level,
    1 ≤ f.minTXID ∧ f.minTXID ≤ f.maxTXID ∧ f.maxTXID ≤ s.greatest
  snapshot_min : ∀ f ∈ s.content snapshotLevel, f.minTXID = 1
  level1 : ∀ f ∈ s.content 1, SecuredTo s.content f.maxTXID
  cached : ∀ info, s.cache 1 = some info → SecuredTo s.content info.maxTXID
  transactions : ∀ t, 1 ≤ t → t ≤ s.uploaded → Secured s.content t ∨
    ∃ f ∈ s.content 0, f.minTXID = t ∧ f.maxTXID = t
  reached : s.greatest ≤ s.uploaded ∨ WithinSnapshot s.content s.greatest
  uploaded_le : s.uploaded ≤ s.pos
  greatest_le : s.greatest ≤ s.pos
  bound : s.pos + 1 < TXID.bound

/-
  What every step guarantees: the newest snapshot does not
  get older and secured transactions stay secured.
-/
structure Rely (s s' : Shared) : Prop where
  snapshots : ∀ txID, WithinSnapshot s.content txID → WithinSnapshot s'.content txID
  secured : ∀ t, Secured s.content t → Secured s'.content t
  pos_le : s.pos ≤ s'.pos
  greatest_mono : s.greatest ≤ s'.greatest

theorem Rely.securedTo (hRely : Rely s s') {txID : Nat} (hTo : SecuredTo s.content txID) :
    SecuredTo s'.content txID :=
  fun t hPos hLe => hRely.secured t (hTo t hPos hLe)

theorem Rely.of_content_eq (hContent : s'.content = s.content) (hPos : s.pos ≤ s'.pos)
    (hGreatest : s.greatest ≤ s'.greatest) : Rely s s' where
  snapshots := by
    intro txID hWithin
    rwa [hContent]
  secured := by
    intro t hSecured
    rwa [hContent]
  pos_le := hPos
  greatest_mono := hGreatest

theorem ReplicaInv.empty : ReplicaInv Shared.empty where
  sorted := by simp [Shared.empty]
  level_eq := by simp [Shared.empty]
  range := by simp [Shared.empty]
  snapshot_min := by simp [Shared.empty]
  level1 := by simp [Shared.empty]
  cached := by simp [Shared.empty]
  transactions := by
    intro t hPos hLe
    simp only [Shared.empty] at hLe
    omega
  reached := Or.inl (Nat.le_refl _)
  uploaded_le := Nat.le_refl _
  greatest_le := Nat.le_refl _
  bound := by decide

-- Storing And Deleting

theorem Rely.store {info} (hContent : s'.content = s.content.put info.level info)
    (hPos : s'.pos = s.pos) (hGreatest : s'.greatest = max s.greatest info.maxTXID) :
    Rely s s' where
  snapshots := by
    rintro txID ⟨f, hf, hLe⟩
    rcases exists_sameName_put info.level info hf with ⟨g, hg, hSame⟩
    refine ⟨g, hContent ▸ hg, ?_⟩
    rw [hSame.2]
    exact hLe
  secured := by
    rintro t (⟨f, hf, hLe⟩ | ⟨f, hf, hMin, hMax⟩)
    · rcases exists_sameName_put info.level info hf with ⟨g, hg, hSame⟩
      refine Or.inl ⟨g, hContent ▸ hg, ?_⟩
      rw [hSame.2]
      exact hLe
    · rcases exists_sameName_put info.level info hf with ⟨g, hg, hSame⟩
      refine Or.inr ⟨g, hContent ▸ hg, ?_⟩
      rw [hSame.1, hSame.2]
      exact ⟨hMin, hMax⟩
  pos_le := Nat.le_of_eq hPos.symm
  greatest_mono := by
    rw [hGreatest]
    exact Nat.le_max_left _ _

/-
  The invariant after storing a file. It asks for the range
  of the file, for what a level-1 file has to secure, and
  for a reason why the greatest TXID is still reached.
-/
theorem ReplicaInv.store {info} (hInv : ReplicaInv s)
    (hContent : s'.content = s.content.put info.level info) (hPos : s'.pos = s.pos)
    (hGreatest : s'.greatest = max s.greatest info.maxTXID)
    (hRange : 1 ≤ info.minTXID ∧ info.minTXID ≤ info.maxTXID ∧ info.maxTXID ≤ s.pos)
    (hSnapshot : info.level = snapshotLevel → info.minTXID = 1)
    (hLevel1 : info.level = 1 → SecuredTo s'.content info.maxTXID)
    (hCached : ∀ i, s'.cache 1 = some i → SecuredTo s'.content i.maxTXID)
    (hUploaded : s.uploaded ≤ s'.uploaded ∧ s'.uploaded ≤ s'.pos)
    (hTransactions : ∀ t, s.uploaded < t → t ≤ s'.uploaded → ∃ f ∈ s'.content 0, f.minTXID = t ∧
      f.maxTXID = t)
    (hReached : info.maxTXID ≤ s.greatest ∨ info.level = snapshotLevel ∨ info.maxTXID ≤ s'.uploaded) :
    
    ReplicaInv s' := by
  have hRely : Rely s s' := Rely.store hContent hPos hGreatest
  have hFiles : ∀ level, ∀ f ∈ s'.content level,
    (level = info.level ∧ f = info) ∨ f ∈ s.content level := by
    intro level f hf
    rw [hContent] at hf
    exact eq_or_mem_of_mem_put hf
  have hStored : info ∈ s'.content info.level := by
    rw [hContent, put_same]
    exact mem_putInfo_self info _
  constructor
  case sorted =>
    intro level
    rw [hContent]
    exact put_sorted hInv.sorted level
  case level_eq =>
    intro level f hf
    rcases hFiles level f hf with ⟨rfl, rfl⟩ | hOld
    · rfl
    · exact hInv.level_eq level f hOld
  case range =>
    intro level f hf
    rcases hFiles level f hf with ⟨_, rfl⟩ | hOld
    · omega
    · have hOldRange := hInv.range level f hOld
      omega
  case snapshot_min =>
    intro f hf
    rcases hFiles _ f hf with ⟨hLevel, rfl⟩ | hOld
    · exact hSnapshot hLevel.symm
    · exact hInv.snapshot_min f hOld
  case level1 =>
    intro f hf
    rcases hFiles _ f hf with ⟨hLevel, rfl⟩ | hOld
    · exact hLevel1 hLevel.symm
    · exact hRely.securedTo (hInv.level1 f hOld)
  case cached => exact hCached
  case transactions =>
    intro t hStart hLe
    by_cases hNew : s.uploaded < t
    · exact Or.inr (hTransactions t hNew hLe)
    rcases hInv.transactions t hStart (by omega) with hSecured | ⟨f, hf, hMin, hMax⟩
    · exact Or.inl (hRely.secured t hSecured)
    rcases exists_sameName_put info.level info hf with ⟨g, hg, hSame⟩
    refine Or.inr ⟨g, hContent ▸ hg, ?_⟩
    rw [hSame.1, hSame.2]
    exact ⟨hMin, hMax⟩
  case reached =>
    by_cases hOld : s'.greatest = s.greatest
    · rw [hOld]
      rcases hInv.reached with hLe | hWithin
      · exact Or.inl (Nat.le_trans hLe hUploaded.1)
      · exact Or.inr (hRely.snapshots _ hWithin)
    -- the stored file is the greatest one
    have hNew : s'.greatest = info.maxTXID := by omega
    rcases hReached with hLe | hLevel | hLe
    · omega
    · refine Or.inr ⟨info, hLevel ▸ hStored, ?_⟩
      exact Nat.le_of_eq hNew
    · exact Or.inl (hNew ▸ hLe)
  case uploaded_le => exact hUploaded.2
  case greatest_le =>
    have hGreatestLe := hInv.greatest_le
    omega
  case bound =>
    rw [hPos]
    exact hInv.bound

/- Why a file may be deleted. -/
def Deletable (content : Content) (d : FileInfo) : Prop :=
  WithinSnapshot content (d.maxTXID + 1) ∨ (d.level = 0 ∧ Secured content d.maxTXID)

section Delete

variable {s : Shared} {deleted : List FileInfo}

theorem withinSnapshot_delete (hDeletable : ∀ d ∈ deleted, Deletable s.content d) {txID : Nat}
    (hWithin : WithinSnapshot s.content txID) : WithinSnapshot (s.content.delete deleted) txID := by
  rcases hWithin with ⟨f, hf, hLe⟩
  rcases Finset.exists_max_image (s.content snapshotLevel).toFinset FileInfo.maxTXID
    ⟨f, List.mem_toFinset.mpr hf⟩ with ⟨g, hg, hNewest⟩
  have hgMem := List.mem_toFinset.mp hg
  have hfLe := hNewest f (List.mem_toFinset.mpr hf)
  refine ⟨g, ?_, Nat.le_trans hLe hfLe⟩
  rw [mem_delete_iff]
  refine ⟨hgMem, ?_⟩
  rintro ⟨d, hd, hLevel, hSame⟩
  rcases hDeletable d hd with ⟨h, hh, hLater⟩ | ⟨hZero, _⟩
  · have hhLe := hNewest h (List.mem_toFinset.mpr hh)
    have hEq := hSame.2
    omega
  · rw [hLevel] at hZero
    simp [snapshotLevel] at hZero

theorem Rely.delete (hDeletable : ∀ d ∈ deleted, Deletable s.content d) : Rely s
    { s with content := s.content.delete deleted } where
  snapshots := fun _ hWithin => withinSnapshot_delete hDeletable hWithin
  secured := by
    rintro t (hWithin | ⟨f, hf, hMin, hMax⟩)
    · exact Or.inl (withinSnapshot_delete hDeletable hWithin)
    · by_cases hGone : ∃ d ∈ deleted, d.level = 1 ∧ SameName d f
      · -- a deleted level-1 file lies below a snapshot
        rcases hGone with ⟨d, hd, hLevel, hSame⟩
        rcases hDeletable d hd with ⟨g, hg, hLater⟩ | ⟨hZero, _⟩
        · apply Or.inl
          apply withinSnapshot_delete hDeletable
          have hEq := hSame.2
          exact ⟨g, hg, by omega⟩
        · omega
      · exact Or.inr ⟨f, mem_delete_iff.mpr ⟨hf, hGone⟩, hMin, hMax⟩
  pos_le := Nat.le_refl _
  greatest_mono := Nat.le_refl _

theorem ReplicaInv.delete (hInv : ReplicaInv s) (hDeletable :
    ∀ d ∈ deleted, Deletable s.content d) :
    ReplicaInv { s with content := s.content.delete deleted } := by
  have hRely := Rely.delete hDeletable
  have hFiles : ∀ level, ∀ f ∈ s.content.delete deleted level, f ∈ s.content level :=
    fun level f hf => (mem_delete_iff.mp hf).1
  constructor
  case sorted => exact delete_sorted hInv.sorted
  case level_eq =>
    intro level f hf
    exact hInv.level_eq level f (hFiles level f hf)
  case range =>
    intro level f hf
    exact hInv.range level f (hFiles level f hf)
  case snapshot_min =>
    intro f hf
    exact hInv.snapshot_min f (hFiles _ f hf)
  case level1 =>
    intro f hf
    exact hRely.securedTo (hInv.level1 f (hFiles _ f hf))
  case cached =>
    intro info hInfo
    exact hRely.securedTo (hInv.cached info hInfo)
  case transactions =>
    intro t hStart hLe
    rcases hInv.transactions t hStart hLe with hSecured | ⟨f, hf, hMin, hMax⟩
    · exact Or.inl (hRely.secured t hSecured)
    by_cases hGone : ∃ d ∈ deleted, d.level = 0 ∧ SameName d f
    · rcases hGone with ⟨d, hd, _, hSame⟩
      have hEq : d.maxTXID = t := hSame.2.trans hMax
      apply Or.inl
      apply hRely.secured
      rcases hDeletable d hd with ⟨g, hg, hLater⟩ | ⟨_, hSecured⟩
      · exact Or.inl ⟨g, hg, by omega⟩
      · exact hEq ▸ hSecured
    · exact Or.inr ⟨f, mem_delete_iff.mpr ⟨hf, hGone⟩, hMin, hMax⟩
  case reached =>
    exact hInv.reached.imp id (hRely.snapshots _)
  case uploaded_le => exact hInv.uploaded_le
  case greatest_le => exact hInv.greatest_le
  case bound => exact hInv.bound

end Delete

-- What The Operations Know

/-
  What an operation under way knows about the replica. A
  compaction to level 1 knows that everything before its
  sources is secured, L0 retention that everything up to
  the end of level 1 is, and snapshot retention that the
  TXID it passes down is within a snapshot.
-/
def TaskKnows (s : Shared) : Task → Prop
| .compact _ dstLevel => 1 ≤ dstLevel ∧ dstLevel < snapshotLevel
| .listSources _ dstLevel prevMaxInfo =>
  (1 ≤ dstLevel ∧ dstLevel < snapshotLevel) ∧ (dstLevel = 1 →
    SecuredTo s.content prevMaxInfo.maxTXID)
| .openSources _ dstLevel sources _ =>
  (1 ≤ dstLevel ∧ dstLevel < snapshotLevel) ∧ sources ≠ [] ∧ (∀ f ∈ sources,
    1 ≤ f.minTXID ∧ f.minTXID ≤ f.maxTXID ∧ f.maxTXID ≤ s.greatest) ∧
    (dstLevel = 1 → ∀ t, 1 ≤ t → t < (sourceRange sources).1 → Secured s.content t)
| .snapshot => True
| .writeSnapshot txID => txID ≤ s.pos
| .l0Retention _ _ => True
| .listL0 _ _ maxL1 => SecuredTo s.content maxL1
| .deleteL0 deleted => ∀ d ∈ deleted, Deletable s.content d
| .snapshotRetention _ _ _ => True
| .levelRetention _ txID _ => txID = 0 ∨ WithinSnapshot s.content txID
| .deleteLevel deleted txID _ =>
  (∀ d ∈ deleted, Deletable s.content d) ∧ (txID = 0 ∨ WithinSnapshot s.content txID)

theorem Rely.deletable {s s'} (hRely : Rely s s') {d} (hDeletable : Deletable s.content d) :
    Deletable s'.content d := by
  rcases hDeletable with hWithin | ⟨hLevel, hSecured⟩
  · exact Or.inl (hRely.snapshots _ hWithin)
  · exact Or.inr ⟨hLevel, hRely.secured _ hSecured⟩

theorem TaskKnows.stable {s s'} {task : Task} (hRely : Rely s s') (hKnows : TaskKnows s task) :
    TaskKnows s' task := by
  cases task with
  | compact c dstLevel => exact hKnows
  | listSources c dstLevel prevMaxInfo =>
    exact ⟨hKnows.1, fun hOne => hRely.securedTo (hKnows.2 hOne)⟩
  | openSources c dstLevel sources unopened =>
    rcases hKnows with ⟨hLevel, hSome, hRange, hBefore⟩
    refine ⟨hLevel, hSome, fun f hf => ?_, ?_⟩
    · have hOld := hRange f hf
      have hGreatest := hRely.greatest_mono
      omega
    · intro hOne t hStart hLt
      exact hRely.secured t (hBefore hOne t hStart hLt)
  | snapshot | l0Retention | snapshotRetention => exact trivial
  | writeSnapshot txID => exact Nat.le_trans hKnows hRely.pos_le
  | listL0 enabled retention maxL1 => exact hRely.securedTo hKnows
  | deleteL0 deleted => exact fun d hd => hRely.deletable (hKnows d hd)
  | levelRetention enabled txID levels => exact hKnows.imp id (hRely.snapshots txID)
  | deleteLevel deleted txID levels =>
    exact ⟨fun d hd => hRely.deletable (hKnows.1 d hd), hKnows.2.imp id (hRely.snapshots txID)⟩

section Calls

variable {s : Shared} {c : Compactor} {dstLevel : Nat}

/- The lookup of level 1 returns, and caches, its end. -/
theorem maxLTXFileInfo_securedTo {fault result cache} (hInv : ReplicaInv s)
    (hLookup : c.maxLTXFileInfo fault s.content s.cache dstLevel = (result, cache)) :
    (∀ info, cache 1 = some info → SecuredTo s.content info.maxTXID) ∧
    (dstLevel = 1 → ∀ info, result = .ok info → SecuredTo s.content info.maxTXID) := by
  unfold maxLTXFileInfo at hLookup
  cases hCache : (if c.cacheGetter then s.cache dstLevel else none) with
  | some info =>
    simp only [hCache, Prod.mk.injEq] at hLookup
    rcases hLookup with ⟨rfl, rfl⟩
    refine ⟨hInv.cached, ?_⟩
    rintro rfl info' hOk
    rw [Except.ok.injEq] at hOk
    subst hOk
    split at hCache
    · exact hInv.cached info hCache
    · simp at hCache
  | none =>
    simp only [hCache] at hLookup
    cases hList : ltxFiles s.content fault dstLevel 0 with
    | error err =>
      simp only [hList, Prod.mk.injEq] at hLookup
      rcases hLookup with ⟨rfl, rfl⟩
      exact ⟨hInv.cached, by simp⟩
    | ok itr =>
      simp only [hList] at hLookup
      have hInfo : dstLevel = 1 → SecuredTo s.content (maxInfo itr.items).maxTXID := by
        rintro rfl
        rcases maxInfo_eq_or_mem itr.items with hZero | hListed
        · intro t hStart hLe
          rw [hZero] at hLe
          simp only [zeroInfo] at hLe
          omega
        · exact hInv.level1 _ (mem_of_mem_ltxFiles hList hListed)
      have hFilled : ∀ info, (if c.cacheSetter ∧ 0 < (maxInfo itr.items).maxTXID then
        setCache s.cache dstLevel (maxInfo itr.items)
          else s.cache) 1 = some info →
          SecuredTo s.content info.maxTXID := by
        intro info hSome
        split at hSome
        · unfold setCache at hSome
          split at hSome
          · rename_i hOne
            rw [Option.some.injEq] at hSome
            exact hSome ▸ hInfo hOne.symm
          · exact hInv.cached info hSome
        · exact hInv.cached info hSome
      cases hErr : itr.err with
      | some err =>
        simp only [hErr, Prod.mk.injEq] at hLookup
        rcases hLookup with ⟨rfl, rfl⟩
        exact ⟨hFilled, by simp⟩
      | none =>
        simp only [hErr, Prod.mk.injEq] at hLookup
        rcases hLookup with ⟨rfl, rfl⟩
        refine ⟨hFilled, ?_⟩
        intro hOne info hOk
        rw [Except.ok.injEq] at hOk
        exact hOk ▸ hInfo hOne

/- The sources of level 1 start where it is not secured. -/
theorem TaskKnows.listSources {prevMaxInfo fault itr} (hInv : ReplicaInv s)
    (hKnows : TaskKnows s (.listSources c dstLevel prevMaxInfo))
    (hList : ltxFiles s.content fault (dstLevel - 1) (TXID.next prevMaxInfo.maxTXID) = .ok itr)
    (hSources : itr.items ≠ []) : TaskKnows s (.openSources c dstLevel itr.items itr.items) := by
  rcases hKnows with ⟨hLevel, hPrev⟩
  have hRange : ∀ f ∈ itr.items, 1 ≤ f.minTXID ∧ f.minTXID ≤ f.maxTXID ∧ f.maxTXID ≤ s.greatest :=
    fun f hf => hInv.range _ f (mem_of_mem_ltxFiles hList hf)
  refine ⟨hLevel, hSources, hRange, ?_⟩
  rintro rfl t hStart hLt
  by_cases hOld : t ≤ prevMaxInfo.maxTXID
  · exact hPrev rfl t hStart hOld
  -- an unsecured one would have been listed
  have hLeast := (sourceRange_min (fun f hf => (hRange f hf).1) hSources).1
  have hUploaded : t ≤ s.uploaded ∨ WithinSnapshot s.content t := by
    rcases sourceRange_min (fun f hf => (hRange f hf).1) hSources with ⟨_, x, hx, hMin⟩
    have hX := hRange x hx
    rcases hInv.reached with hLe | ⟨g, hg, hLe⟩
    · exact Or.inl (by omega)
    · exact Or.inr ⟨g, hg, by omega⟩
  rcases hUploaded with hLe | hWithin
  · rcases hInv.transactions t hStart hLe with hSecured | ⟨f, hf, hMin, _⟩
    · exact hSecured
    · have hOrder : (s.content 0).Pairwise (fun f g => f.minTXID ≤ g.minTXID) := by
        refine (hInv.sorted 0).imp ?_
        intro f g hName
        unfold NameLt at hName
        omega
      have hNext := TXID.next_le prevMaxInfo.maxTXID
      rcases exists_mem_le_of_mem_level hOrder hList hSources hf (by omega) with ⟨x, hx, hLe⟩
      have hxLeast := hLeast x hx
      omega
  · exact Or.inl hWithin

/- Writing a compacted file. -/
theorem ReplicaInv.writeCompacted {sources info} (hInv : ReplicaInv s)
    (hKnows : TaskKnows s (.openSources c dstLevel sources [])) (hLevel : info.level = dstLevel)
    (hMin : info.minTXID = (sourceRange sources).1)
    (hMax : info.maxTXID = (sourceRange sources).2) :
    ReplicaInv { s.put info with
      cache :=
        if c.cacheSetter then setCache s.cache dstLevel info else s.cache } := by
  rcases hKnows with ⟨hLevels, hSome, hRange, hBefore⟩
  rcases sourceRange_min (fun f hf => (hRange f hf).1) hSome with ⟨hLeast, a, ha, hA⟩
  rcases sourceRange_max hSome with ⟨hGreatest, b, hb, hB⟩
  have hARange := hRange a ha
  have hBRange := hRange b hb
  have hALe := hGreatest a ha
  have hPos := hInv.greatest_le
  have hRely : ∀ cache, Rely s { s.put info with cache := cache } :=
    fun cache => Rely.store rfl rfl rfl
  have hSecured : info.level = 1 → SecuredTo (s.content.put info.level info) info.maxTXID := by
    intro hOne t hStart hLe
    by_cases hCovered : info.minTXID ≤ t
    · refine Or.inr ⟨info, ?_, hCovered, hLe⟩
      rw [hOne, put_same]
      exact mem_putInfo_self info _
    · exact (hRely s.cache).secured t (hBefore (hLevel ▸ hOne) t hStart (by omega))
  refine hInv.store rfl rfl rfl ?hRange ?hSnapshot
    ?hLevel1 ?hCached ?hUploaded ?hTransactions ?hReached
  case hRange => omega
  case hSnapshot =>
    intro hNine
    omega
  case hLevel1 => exact hSecured
  case hCached =>
    intro i hi
    dsimp only at hi
    split at hi
    · unfold setCache at hi
      split at hi
      · rename_i hOne
        rw [Option.some.injEq] at hi
        exact hi ▸ hSecured (hLevel.trans hOne.symm)
      · exact (hRely s.cache).securedTo (hInv.cached i hi)
    · exact (hRely s.cache).securedTo (hInv.cached i hi)
  case hUploaded =>
    exact ⟨Nat.le_refl _, hInv.uploaded_le⟩
  case hTransactions =>
    intro t hLt hLe
    exact absurd hLe (Nat.not_le.mpr hLt)
  case hReached => exact Or.inl (by omega)

end Calls

-- Every Step

theorem World.sound {s s'} (hInv : ReplicaInv s) (hWorld : World s s') :
    ReplicaInv s' ∧ Rely s s' := by
  cases hWorld with
  | commit hBound =>
    refine ⟨?_, Rely.of_content_eq rfl (Nat.le_succ _) (Nat.le_refl _)⟩
    exact { hInv with
      uploaded_le := Nat.le_trans hInv.uploaded_le (Nat.le_succ _)
      greatest_le := Nat.le_trans hInv.greatest_le (Nat.le_succ _)
      bound := hBound }
  | @upload size createdAt hNext =>
    have hRely : Rely s { s.put ⟨0, s.uploaded + 1, s.uploaded + 1, size, createdAt⟩ with
      uploaded := s.uploaded + 1 } :=
      Rely.store rfl rfl rfl
    refine ⟨?_, hRely⟩
    refine hInv.store rfl rfl rfl ?hRange ?hSnapshot
      ?hLevel1 ?hCached ?hUploaded ?hTransactions ?hReached
    case hRange =>
      dsimp only
      omega
    case hSnapshot => simp [snapshotLevel]
    case hLevel1 => simp
    case hCached =>
      intro i hi
      exact hRely.securedTo (hInv.cached i hi)
    case hUploaded => exact ⟨Nat.le_succ _, hNext⟩
    case hTransactions =>
      intro t hLt hLe
      have hEq : t = s.uploaded + 1 := Nat.le_antisymm hLe hLt
      subst hEq
      refine ⟨⟨0, s.uploaded + 1, s.uploaded + 1, size, createdAt⟩, ?_, rfl, rfl⟩
      show _ ∈ s.content.put 0 _ 0
      exact mem_putInfo_self _ _
    case hReached => exact Or.inr (Or.inr (Nat.le_refl _))

theorem TaskKnows.deleteNext {s} {enabled : Bool} {deleted} {txID : Nat} {levels}
    (hDeletable : ∀ d ∈ deleted, Deletable s.content d)
    (hWithin : txID = 0 ∨ WithinSnapshot s.content txID) :
    TaskKnows s (Task.deleteNext enabled deleted txID levels) := by
  unfold Task.deleteNext
  split
  · exact ⟨hDeletable, hWithin⟩
  · exact hWithin

theorem Task.Call.sound {s s'} {task : Task} {next} (hInv : ReplicaInv s)
    (hKnows : TaskKnows s task) (hCall : Task.Call s task s' next) :
    ReplicaInv s' ∧ Rely s s' ∧ ∀ task' ∈ next, TaskKnows s' task' := by
  have hSame : Rely s s := Rely.of_content_eq rfl (Nat.le_refl _) (Nat.le_refl _)
  cases hCall with
  | lookup hLookup =>
    rcases maxLTXFileInfo_securedTo hInv hLookup with ⟨hCache, hInfo⟩
    refine ⟨{ hInv with cached := hCache },
      Rely.of_content_eq rfl (Nat.le_refl _) (Nat.le_refl _), ?_⟩
    rintro task' ⟨rfl⟩
    exact ⟨hKnows, fun hOne => hInfo hOne _ rfl⟩
  | lookupFailed hLookup =>
    rcases maxLTXFileInfo_securedTo hInv hLookup with ⟨hCache, _⟩
    exact ⟨{ hInv with cached := hCache },
      Rely.of_content_eq rfl (Nat.le_refl _) (Nat.le_refl _), by simp⟩
  | listSources hList hSources =>
    refine ⟨hInv, hSame, ?_⟩
    rintro task' ⟨rfl⟩
    exact TaskKnows.listSources hInv hKnows hList hSources
  | openSource =>
    refine ⟨hInv, hSame, ?_⟩
    rintro task' ⟨rfl⟩
    exact hKnows
  | writeCompacted hLevel hMin hMax =>
    exact ⟨hInv.writeCompacted hKnows hLevel hMin hMax, Rely.store rfl rfl rfl, by simp⟩
  | readPos =>
    refine ⟨hInv, hSame, ?_⟩
    rintro task' ⟨rfl⟩
    exact Nat.le_refl s.pos
  | @writeSnapshot txID size createdAt hPos =>
    have hRely : Rely s (s.put ⟨snapshotLevel, 1, txID, size, createdAt⟩) := Rely.store rfl rfl rfl
    refine ⟨?_, hRely, by simp⟩
    refine hInv.store rfl rfl rfl ?hRange ?hSnapshot
      ?hLevel1 ?hCached ?hUploaded ?hTransactions ?hReached
    case hRange => exact ⟨Nat.le_refl _, hPos, hKnows⟩
    case hSnapshot => exact fun _ => rfl
    case hLevel1 => simp [snapshotLevel]
    case hCached =>
      intro i hi
      exact hRely.securedTo (hInv.cached i hi)
    case hUploaded =>
      exact ⟨Nat.le_refl _, hInv.uploaded_le⟩
    case hTransactions =>
      intro t hLt hLe
      exact absurd hLe (Nat.not_le.mpr hLt)
    case hReached => exact Or.inr (Or.inl rfl)
  | @listL1 enabled retention fault itr hList hClose hSome =>
    refine ⟨hInv, hSame, ?_⟩
    rintro task' ⟨rfl⟩
    rcases maxL1TXID_eq itr.items with hZero | ⟨f, hf, hEq⟩
    · exact absurd hZero hSome
    · show SecuredTo s.content (maxL1TXID itr.items)
      rw [hEq]
      exact hInv.level1 f (mem_of_mem_ltxFiles hList hf)
  | listL0 hList =>
    refine ⟨hInv, hSame, ?_⟩
    rintro task' ⟨rfl⟩
    intro d hd
    rcases expiredL0_le hd with ⟨hMem, hLe⟩
    have hLevel0 := mem_of_mem_ltxFiles hList hMem
    have hRange := hInv.range 0 d hLevel0
    exact Or.inr ⟨hInv.level_eq 0 d hLevel0, hKnows d.maxTXID (by omega) hLe⟩
  | deleteL0 => exact ⟨hInv.delete hKnows, Rely.delete hKnows, by simp⟩
  | @listSnapshots enabled retention now levels fault itr hList =>
    refine ⟨hInv, hSame, ?_⟩
    rintro task' ⟨rfl⟩
    have hFiles : ∀ f ∈ itr.items, f ∈ s.content snapshotLevel :=
      fun f hf => mem_of_mem_ltxFiles hList hf
    apply TaskKnows.deleteNext
    · intro d hd
      have hSorted : itr.items.Pairwise (fun f g => f.maxTXID < g.maxTXID) := by
        refine List.Pairwise.imp_of_mem ?_ (ltxFiles_sorted hInv.sorted hList)
        intro f g hf hg hName
        have hF := hInv.snapshot_min f (hFiles f hf)
        have hG := hInv.snapshot_min g (hFiles g hg)
        unfold NameLt at hName
        omega
      rcases expiredSnapshots_below hSorted hd with ⟨g, hg, hLt⟩
      exact Or.inl ⟨g, hFiles g hg, hLt⟩
    · rcases minSnapshotTXID_eq (now - retention) itr.items with hZero | ⟨g, hg, hEq⟩
      · exact Or.inl hZero
      · exact Or.inr ⟨g, hFiles g hg, Nat.le_of_eq hEq.symm⟩
  | listLevel hList =>
    refine ⟨hInv, hSame, ?_⟩
    rintro task' ⟨rfl⟩
    apply TaskKnows.deleteNext
    · intro d hd
      have hLt := (expiredByTXID_lt hd).2
      rcases hKnows with hZero | ⟨g, hg, hLe⟩
      · omega
      · exact Or.inl ⟨g, hg, by omega⟩
    · exact hKnows
  | deleteLevel =>
    have hRely := Rely.delete hKnows.1
    refine ⟨hInv.delete hKnows.1, hRely, ?_⟩
    rintro task' ⟨rfl⟩
    exact hKnows.2.imp id (hRely.snapshots _)
  | returns => exact ⟨hInv, hSame, by simp⟩

theorem replicaSystem_sound : Sound replicaSystem ReplicaInv TaskKnows Rely where
  world := fun _ _ hInv hWorld => hWorld.sound hInv
  starts := by
    intro s task hInv hStarts
    cases hStarts with
    | compact hFirst hLast _ => exact ⟨hFirst, hLast⟩
    | snapshot | l0Retention | snapshotRetention => exact trivial
  call := fun _ _ _ _ hInv hKnows hCall => hCall.sound hInv hKnows
  stable := fun _ _ _ hRely hKnows => hKnows.stable hRely

-- The Latest State

theorem ReplicaInv.wellListed {s} (hInv : ReplicaInv s) : s.content.WellListed where
  levels_sorted := by
    intro level _
    refine (hInv.sorted level).imp ?_
    intro f g hName
    unfold NameLt at hName
    omega
  range := by
    rintro f ⟨level, _, hMem⟩
    have hRange := hInv.range level f hMem
    have hPos := hInv.greatest_le
    have hBound := hInv.bound
    omega
  snapshot_min := hInv.snapshot_min
  snapshots_sorted := by
    refine List.Pairwise.imp_of_mem ?_ (hInv.sorted snapshotLevel)
    intro f g hf hg hName
    have hF := hInv.snapshot_min f hf
    have hG := hInv.snapshot_min g hg
    unfold NameLt at hName
    omega

theorem ReplicaInv.covered {s} (hInv : ReplicaInv s) {t : Nat} (hStart : 1 ≤ t)
    (hLe : t ≤ s.greatest) : ∃ f, s.content.Listed f ∧ f.minTXID ≤ t ∧ t ≤ f.maxTXID := by
  have hSnapshot : WithinSnapshot s.content t → ∃ f, s.content.Listed f ∧
    f.minTXID ≤ t ∧ t ≤ f.maxTXID := by
    rintro ⟨f, hf, hTo⟩
    have hMin := hInv.snapshot_min f hf
    exact ⟨f, ⟨snapshotLevel, Nat.le_refl _, hf⟩, by omega, hTo⟩
  by_cases hUploaded : t ≤ s.uploaded
  · rcases hInv.transactions t hStart hUploaded with
      (hWithin | ⟨f, hf, hRange⟩) | ⟨f, hf, hMin, hMax⟩
    · exact hSnapshot hWithin
    · exact ⟨f, ⟨1, by decide, hf⟩, hRange⟩
    · exact ⟨f, ⟨0, by decide, hf⟩, by omega, by omega⟩
  · rcases hInv.reached with hShort | ⟨g, hg, hTo⟩
    · omega
    · exact hSnapshot ⟨g, hg, Nat.le_trans hLe hTo⟩

/-
  Whatever uploads, compactions, snapshots and retention
  runs interleave, from the first stored file on the
  planner finds the way to the greatest TXID stored so far.
-/
theorem retention_keeps_latest
    (x : State Shared Task)
    (hRun : Run replicaSystem ⟨Shared.empty, []⟩ x)
    (hStored : 0 < x.shared.greatest) :
    ∃ plan,
      calcRestorePlan x.shared.content.listing 0 0 =
        .ok plan ∧
      maxTXIDOf plan = x.shared.greatest := by
  have hInv : ReplicaInv x.shared := (replicaSystem_sound.run ⟨ReplicaInv.empty, by simp⟩ hRun).1
  have hPos := hInv.greatest_le
  have hBound := hInv.bound
  refine exists_calcRestorePlan_of_covered hInv.wellListed hStored (by omega) ?_ ?_
  · rintro f ⟨level, _, hMem⟩
    exact (hInv.range level f hMem).2.2
  · intro t hStart hLe
    exact hInv.covered hStart hLe

/-
  Two transactions are uploaded. While a snapshot is under
  way they are compacted, and then the retention of level 0
  deletes the first of them.
-/
theorem retention_keeps_compacted :
    ∃ x plan,
      Run replicaSystem ⟨Shared.empty, []⟩ x ∧
      x.shared.content 0 = [⟨0, 2, 2, 100, 20⟩] ∧
      x.shared.content 1 = [⟨1, 1, 2, 100, 20⟩] ∧
      calcRestorePlan x.shared.content.listing 0 0 =
        .ok plan ∧
      maxTXIDOf plan = 2 := by
  have hFirst : Run replicaSystem ⟨Shared.empty, []⟩ _ :=
    .single (.world (.commit (by decide)))
  have hUpload := hFirst.tail
    (.world (@World.upload _ 100 10 (by decide)))
  have hSecond := hUpload.tail
    (.world (.commit (by decide)))
  have hUploaded := hSecond.tail
    (.world (@World.upload _ 100 20 (by decide)))
  have hSnapshot := (hUploaded.tail (.start .snapshot)).tail
    (.last .readPos)
  have hCompact := hSnapshot.tail
    (.start (@Task.Starts.compact
      ⟨true, true, true, [], [], false⟩ 1 (by decide)
      (by decide) (by simp)))
  have hLookup := hCompact.tail
    (.last (@Task.Call.lookup _ _ _ .none _ _ rfl))
  have hList := hLookup.tail
    (.last (@Task.Call.listSources _ _ _ _ .none _ rfl
      (List.cons_ne_nil _ _)))
  have hOpen := (hList.tail (.last .openSource)).tail
    (.last .openSource)
  have hWrite := hOpen.tail
    (.last (@Task.Call.writeCompacted _ _ _ _
      ⟨1, 1, 2, 100, 20⟩ rfl rfl rfl))
  have hWritten := hWrite.tail
    (.last (@Task.Call.writeSnapshot _ _ 100 30 (by decide)))
  have hRetention := hWritten.tail
    (.start (@Task.Starts.l0Retention true 5 (by decide)))
  have hBound := hRetention.tail
    (.last (@Task.Call.listL1 _ _ _ .none _ rfl rfl
      (by decide)))
  have hExpired := hBound.tail
    (.last (@Task.Call.listL0 _ _ 40 (fun _ => none) _ .none _
      rfl))
  have hDeleted := hExpired.tail (.last .deleteL0)
  obtain ⟨plan, hPlan⟩ :=
    retention_keeps_latest _ hDeleted (by decide)
  exact ⟨_, plan, hDeleted, by decide, by decide, hPlan⟩

end Retention

end Replicate
