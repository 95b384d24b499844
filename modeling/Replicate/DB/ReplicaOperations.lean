import Replicate.DB.Agreement

/-
  How uploads, compactions and L0 retention keep the
  agreement of a database with its replica.

  An upload stores the transaction after the end of level
  0. A compaction continues its level with the files that
  tile what is missing there. Retention deletes from level 0
  what level 1 has, but never the newest file.

  Main declarations:
    * `ReplicaAgrees.of_continues`
    * `SyncState.Agrees.replicaSync`
    * `SyncState.Agrees.compact`
    * `SyncState.Agrees.enforceL0Retention`
-/

-- The Replica's Levels

namespace Replicate

open Compactor IntervalChain Replica PageHistory List
open IntervalChain (Tiles reach)

variable {D : Type} {lib : LtxLibrary D}

namespace Replica

variable (r : Replica D) {level l : Nat} {obj : Stored D}

@[simp] theorem put_objects_same (level : Nat) (obj : Stored D) : (r.put level obj).objects level =
    putBy Stored.info obj (r.objects level) := by
  simp [put]

@[simp] theorem put_objects_other (hOther : l ≠ level) (obj : Stored D) :
    (r.put level obj).objects l = r.objects l := by
  simp [put, hOther]

theorem put_content (hLast : ∀ f ∈ r.content level, NameLt f obj.info) :
    (r.put level obj).objects level = r.objects level ++ [obj] ∧
      (r.put level obj).content level = r.content level ++ [obj.info] := by
  have hObjects : (r.put level obj).objects level = r.objects level ++ [obj] := by
    rw [put_objects_same]
    apply putBy_eq_append
    intro y hy
    exact hLast y.info (mem_map_of_mem hy)
  refine ⟨hObjects, ?_⟩
  unfold content
  rw [hObjects, map_append, map_singleton]

theorem put_sorted (hLast : ∀ f ∈ r.content level, NameLt f obj.info)
    (hSorted : (r.content level).Pairwise NameLt) :
    ((r.put level obj).content level).Pairwise NameLt := by
  rw [(r.put_content hLast).2, pairwise_append]
  refine ⟨hSorted, pairwise_singleton _ _, ?_⟩
  intro f hf g hg
  rw [mem_singleton.mp hg]
  exact hLast f hf

theorem mem_put (hLast : ∀ f ∈ r.content level, NameLt f obj.info) {new}
    (hMem : new ∈ (r.put level obj).objects l) : new ∈ r.objects l ∨ l = level ∧ new = obj := by
  by_cases hSame : l = level
  · subst hSame
    rw [(r.put_content hLast).1, mem_append, mem_singleton] at hMem
    exact hMem.imp_right fun hNew => ⟨rfl, hNew⟩
  · rw [put_objects_other r hSame] at hMem
    exact Or.inl hMem

theorem put_content_other (hOther : l ≠ level) (obj : Stored D) :
    (r.put level obj).content l = r.content l := by
  unfold content
  rw [put_objects_other r hOther]

theorem le_l0Max {f} (hMem : f ∈ r.content 0) : f.maxTXID ≤ r.l0Max :=
  le_maxInfo hMem

theorem mem_content_of_mem (hMem : obj ∈ r.objects level) : obj.info ∈ r.content level :=
  mem_map_of_mem hMem

end Replica

theorem maxInfo_tiles {items} (hTiles : Tiles FileInfo.minTXID FileInfo.maxTXID 0 items) :
    (maxInfo items).maxTXID = reach FileInfo.maxTXID 0 items := by
  apply Nat.le_antisymm
  · rcases maxInfo_eq_or_mem items with hZero | hMem
    · rw [hZero]
      exact Nat.zero_le _
    · exact hi_le_reach hTiles.isChain hMem
  · rcases eq_nil_or_concat items with rfl | ⟨init, last, rfl⟩
    · exact Nat.zero_le _
    · rw [concat_eq_append, reach_append_singleton]
      exact le_maxInfo (by simp)

namespace ReplicaAgrees

variable {H : History lib} {r : Replica D} {compacted : List (Nat × Layer D)}

theorem levelEnd_le (hRemote : ReplicaAgrees H r compacted) {level : Nat} (hLevel : 1 ≤ level) :
    r.levelEnd level ≤ r.levelEnd 1 := by
  induction level, hLevel using Nat.le_induction with
  | base => exact Nat.le_refl _
  | succ level hLevel ih =>
    rcases hRemote.ends level hLevel with hZero | ⟨f, hMem, hEnd⟩
    · omega
    · have hLe := hi_le_reach (hRemote.tiles level hLevel).isChain hMem
      rw [hEnd] at hLe
      exact Nat.le_trans hLe ih

theorem max_le (hRemote : ReplicaAgrees H r compacted) {level : Nat} {f}
    (hMem : f ∈ r.content level) : f.maxTXID ≤ r.l0Max := by
  by_cases hLevel : 1 ≤ level
  · have hEnd := hi_le_reach (hRemote.tiles level hLevel).isChain hMem
    have hUpper := hRemote.levelEnd_le hLevel
    have hLower := hRemote.l1_le
    unfold levelEnd at hUpper hLower
    omega
  · have hZero : level = 0 := by omega
    subst hZero
    exact r.le_l0Max hMem

/- The lineage may change after the end of the replica. -/
theorem of_continues (hRemote : ReplicaAgrees H r compacted) {H'} {txID : Nat}
    (hNext : H.Continues H' txID) (hTop : r.l0Max ≤ txID) : ReplicaAgrees H' r compacted := by
  rcases hNext with ⟨hCount, hAgree⟩
  refine { hRemote with
    l0 := ?_, count := by omega, stored := ?_,
    recorded := ?_ }
  · intro obj hMem
    rcases hRemote.l0 obj hMem with ⟨hName, hStart, hHolds⟩
    have hEnd := r.le_l0Max (r.mem_content_of_mem hMem)
    rw [hAgree obj.info.maxTXID hStart (by omega)]
    exact ⟨hName, hStart, hHolds⟩
  · intro level hLevel obj hMem
    rcases hRemote.stored level hLevel obj hMem with ⟨layer, hHolds, hProduced⟩
    have hEnd := hRemote.max_le (r.mem_content_of_mem hMem)
    exact ⟨layer, hHolds, hProduced.of_agree hAgree (by omega) (by omega)⟩
  · intro t hStart hLe
    have hEnd := hRemote.l1_le
    rw [hAgree t hStart (by omega)]
    exact hRemote.recorded t hStart hLe

/- Level 0 may change if it has what level 1 lacks. -/
theorem of_level_zero (hRemote : ReplicaAgrees H r compacted) {r'}
    (hOther : ∀ level, 1 ≤ level → r'.objects level = r.objects level)
    (hSorted : (r'.content 0).Pairwise NameLt)
    (hL0 : ∀ obj ∈ r'.objects 0, obj.info.level = 0 ∧ obj.info.minTXID = obj.info.maxTXID ∧
      1 ≤ obj.info.maxTXID ∧ obj.data.Holds obj.info.maxTXID (H.tx obj.info.maxTXID))
    (hCount : r'.l0Max ≤ H.count) (hTop : r.l0Max ≤ r'.l0Max)
    (hPresent : ∀ t, r.levelEnd 1 < t → t ≤ r'.l0Max → ∃ obj ∈ r'.objects 0, obj.info.maxTXID = t) :
    ReplicaAgrees H r' compacted := by
  have hContent : ∀ level, 1 ≤ level → r'.content level = r.content level := by
    intro level hPos
    unfold Replica.content
    rw [hOther level hPos]
  have hEnds : ∀ level, 1 ≤ level → r'.levelEnd level = r.levelEnd level := by
    intro level hPos
    unfold levelEnd
    rw [hContent level hPos]
  refine ⟨?_, ?_, fun obj hMem => (hL0 obj hMem).2, hCount, ?_, ?_, ?_, ?_, ?_, ?_, ?_⟩
  · intro level obj hMem
    rcases Nat.eq_zero_or_pos level with rfl | hPos
    · exact (hL0 obj hMem).1
    · rw [hOther level hPos] at hMem
      exact hRemote.levels level obj hMem
  · intro level
    rcases Nat.eq_zero_or_pos level with rfl | hPos
    · exact hSorted
    · rw [hContent level hPos]
      exact hRemote.sorted level
  · intro level hPos
    rw [hOther level hPos]
    exact hRemote.stored level hPos
  · intro level hPos
    rw [hContent level hPos]
    exact hRemote.tiles level hPos
  · intro level hPos
    rw [hEnds (level + 1) (Nat.le_add_left 1 level), hContent level hPos]
    exact hRemote.ends level hPos
  · rw [hEnds 1 (Nat.le_refl 1)]
    exact Nat.le_trans hRemote.l1_le hTop
  · rw [hEnds 1 (Nat.le_refl 1)]
    exact hPresent
  · rw [hEnds 1 (Nat.le_refl 1)]
    exact hRemote.recorded
  · intro level hSnap
    rw [hOther level (Nat.le_trans (by decide) hSnap)]
    exact hRemote.no_snapshots level hSnap

-- Uploads

/- The next transaction takes its place at level 0. -/
theorem storeNext (hRemote : ReplicaAgrees H r compacted) {obj} (hLevel : obj.info.level = 0)
    (hMin : obj.info.minTXID = r.l0Max + 1) (hMax : obj.info.maxTXID = r.l0Max + 1)
    (hCount : r.l0Max + 1 ≤ H.count) (hHolds : obj.data.Holds (r.l0Max + 1) (H.tx (r.l0Max + 1))) :
    ReplicaAgrees H (r.put 0 obj) compacted ∧ (r.put 0 obj).l0Max = r.l0Max + 1 := by
  have hLast : ∀ f ∈ r.content 0, NameLt f obj.info := by
    intro f hMem
    rcases mem_map.mp hMem with ⟨old, hOld, rfl⟩
    have hName := (hRemote.l0 old hOld).1
    have hEnd := r.le_l0Max hMem
    unfold NameLt
    omega
  rcases r.put_content hLast with ⟨hObjects, hContent⟩
  have hTop : (r.put 0 obj).l0Max = r.l0Max + 1 := by
    unfold l0Max maxInfo
    rw [hContent, foldl_append]
    have hLess : (foldl (fun info item : FileInfo =>
      if info.maxTXID < item.maxTXID then item else info)
        zeroInfo (r.content 0)).maxTXID < obj.info.maxTXID := by
      rw [hMax]
      exact Nat.lt_succ_self _
    rw [foldl_cons, foldl_nil, if_pos hLess]
    exact hMax
  refine ⟨hRemote.of_level_zero ?_ (r.put_sorted hLast (hRemote.sorted 0)) ?_ ?_ ?_ ?_, hTop⟩
  · intro level hPos
    exact r.put_objects_other (Nat.ne_of_gt hPos) obj
  · intro new hMem
    rcases r.mem_put hLast hMem with hOld | ⟨_, rfl⟩
    · exact ⟨hRemote.levels 0 new hOld, hRemote.l0 new hOld⟩
    · rw [hMin, hMax]
      exact ⟨hLevel, rfl, Nat.le_add_left 1 _, hHolds⟩
  · rw [hTop]
    exact hCount
  · rw [hTop]
    exact Nat.le_succ _
  · intro t hAfter hTo
    rw [hObjects]
    by_cases hNew : t = r.l0Max + 1
    · exact ⟨obj, by simp, by rw [hMax, hNew]⟩
    · rcases hRemote.present t hAfter (by omega) with ⟨old, hOld, hEnd⟩
      exact ⟨old, mem_append_left _ hOld, hEnd⟩

end ReplicaAgrees

theorem LocalState.file_spec {db : LocalState D} {minTXID maxTXID : Nat}
    {file : LocalFile D} (hFile : db.file minTXID maxTXID = some file) :
    file ∈ db.l0 ∧ file.minTXID = minTXID ∧ file.maxTXID = maxTXID := by
  have hName := find?_some hFile
  simp only [Bool.and_eq_true, beq_iff_eq] at hName
  exact ⟨mem_of_find?_eq_some hFile, hName⟩

section Upload

variable {H : History lib} {r r' : Replica D} {compacted : List (Nat × Layer D)} {db : LocalState D}
variable {env : UploadEnv} {res : Option Err}

/- An upload stores the next transaction, or nothing. -/
theorem ReplicaAgrees.uploadLTXFile (hRemote : ReplicaAgrees H r compacted)
    (hLocal : LocalAgrees H r.l0Max db)
    (hUpload : r.uploadLTXFile env db (r.l0Max + 1) = (res, r')) :
    (r' = r ∧ res ≠ none) ∨ (ReplicaAgrees H r' compacted ∧ r'.l0Max = r.l0Max + 1 ∧
      ∃ file ∈ db.l0, file.maxTXID = r.l0Max + 1) := by
  unfold Replica.uploadLTXFile at hUpload
  split at hUpload
  · rw [Prod.mk.injEq] at hUpload
    rcases hUpload with ⟨rfl, rfl⟩
    exact Or.inl ⟨rfl, by simp⟩
  split at hUpload
  · rw [Prod.mk.injEq] at hUpload
    rcases hUpload with ⟨rfl, rfl⟩
    exact Or.inl ⟨rfl, by simp⟩
  rename_i file hFile
  rcases LocalState.file_spec hFile with ⟨hMem, hMin, hMax⟩
  rcases hLocal.files file hMem with ⟨_, _, hCount, hHolds, hPlain⟩
  rw [hMax] at hCount hHolds hPlain
  have hStored : (r.encrypted file.data).Holds (r.l0Max + 1) (H.tx (r.l0Max + 1)) := by
    rcases hHolds with hLtx | hSealed
    · unfold encrypted
      rw [hLtx]
      split
      · exact Or.inl rfl
      · exact Or.inr rfl
    · have hOpen := hPlain (Nat.lt_succ_self _)
      rw [hSealed] at hOpen
      simp [Bytes.isSealed] at hOpen
  have hNext := @ReplicaAgrees.storeNext D lib H r compacted hRemote
    ⟨⟨0, r.l0Max + 1, r.l0Max + 1, env.size (r.l0Max + 1), env.createdAt (r.l0Max + 1)⟩,
      r.encrypted file.data⟩
    rfl rfl rfl hCount hStored
  split at hUpload
  · rw [Prod.mk.injEq] at hUpload
    rcases hUpload with ⟨rfl, rfl⟩
    exact Or.inl ⟨rfl, by simp⟩
  dsimp only at hUpload
  split at hUpload
  · rw [Prod.mk.injEq] at hUpload
    rcases hUpload with ⟨rfl, rfl⟩
    exact Or.inr ⟨hNext.1, hNext.2, file, hMem, hMax⟩
  rw [Prod.mk.injEq] at hUpload
  rcases hUpload with ⟨rfl, rfl⟩
  split
  · exact Or.inr ⟨hNext.1, hNext.2, file, hMem, hMax⟩
  · exact Or.inl ⟨rfl, by simp⟩

theorem LocalAgrees.raise {top txID : Nat} (hLocal : LocalAgrees H top db)
    (hCache : db.posCache = some txID) (hLe : top + 1 ≤ txID)
    (hFile : ∃ file ∈ db.l0, file.maxTXID = top + 1) : LocalAgrees H (top + 1) db := by
  have hReaches : Reaches (top + 1) db.l0 := by
    rcases hFile with ⟨file, hMem, hMax⟩
    exact Or.inr ⟨file, hMem, Nat.le_of_eq hMax.symm⟩
  refine ⟨?_, ?_, ?_⟩
  · intro file hMem
    rcases hLocal.files file hMem with ⟨hName, hStart, hCount, hHolds, hPlain⟩
    exact ⟨hName, hStart, hCount, hHolds, fun hLess => hPlain (by omega)⟩
  · intro pos hPos
    rcases hLocal.cached pos hPos with ⟨hEnd, hFiles, _⟩
    exact ⟨hEnd, hFiles, fun _ => hReaches⟩
  · intro _
    refine ⟨hReaches, ?_⟩
    intro pos hPos
    rw [hCache] at hPos
    rcases Option.some.inj hPos with rfl
    exact hLe

/- The loop stores the transactions one after the other. -/
theorem ReplicaAgrees.uploadFrom {n txID pos : Nat} (hRemote : ReplicaAgrees H r compacted)
    (hLocal : LocalAgrees H r.l0Max db) (hCache : db.posCache = some txID)
    (hTo : 0 < n → r.l0Max + n ≤ txID) (hLoop : uploadFrom env db n r.l0Max r = (res, pos, r')) :
    ReplicaAgrees H r' compacted ∧ LocalAgrees H r'.l0Max db ∧ (res = none →
      pos = r'.l0Max ∧ r'.l0Max = r.l0Max + n) := by
  induction n generalizing r with
  | zero =>
    rcases hLoop with ⟨_, rfl, rfl⟩
    exact ⟨hRemote, hLocal, fun _ => ⟨rfl, rfl⟩⟩
  | succ n ih =>
    have hNext : r.l0Max + 1 ≤ txID := by
      have hAll := hTo (Nat.succ_pos n)
      omega
    unfold uploadFrom at hLoop
    split at hLoop
    · rename_i err r₁ hUpload
      rcases hLoop with ⟨rfl, _, rfl⟩
      rcases hRemote.uploadLTXFile hLocal hUpload with ⟨rfl, _⟩ | ⟨hStored, hTop, hFile⟩
      · exact ⟨hRemote, hLocal, by simp⟩
      · rw [hTop]
        exact ⟨hStored, hLocal.raise hCache hNext hFile, by simp⟩
    rename_i r₁ hUpload
    rcases hRemote.uploadLTXFile hLocal hUpload with ⟨_, hFailed⟩ | ⟨hStored, hTop, hFile⟩
    · exact absurd rfl hFailed
    have hRaised := hLocal.raise hCache hNext hFile
    rw [← hTop] at hRaised hLoop
    rcases ih hStored hRaised (by
      intro _
      have hAll := hTo (Nat.succ_pos n)
      omega)
        hLoop with ⟨hDone, hKept, hEnd⟩
    refine ⟨hDone, hKept, ?_⟩
    intro hOk
    rcases hEnd hOk with ⟨hPos, hLast⟩
    exact ⟨hPos, by omega⟩

end Upload

namespace SyncState

variable {s s' : SyncState lib} {env : UploadEnv} {res : Option Err}

theorem Agrees.knownPos (hAgrees : s.Agrees) {fault} {pos : Nat}
    (hKnown : s.knownPos fault = .ok pos) : pos = s.replica.l0Max := by
  unfold SyncState.knownPos at hKnown
  split at hKnown
  · unfold calcPos at hKnown
    cases hInfo : s.replica.maxLTXFileInfo fault 0 with
    | error err => simp [hInfo] at hKnown
    | ok info =>
      simp only [hInfo, Except.ok.injEq] at hKnown
      rw [← hKnown, maxLTXFileInfo_ok hInfo]
      rfl
  · rename_i hNonzero
    rw [Except.ok.injEq] at hKnown
    rcases hAgrees.pos with hZero | hTop
    · exact absurd hZero hNonzero
    · rw [← hKnown, hTop]

/-
  A replica sync keeps the agreement. When it succeeds, the
  replica's level 0 reaches the local position.
-/
theorem Agrees.replicaSync (hAgrees : s.Agrees) (hSync : s.replicaSync env = (res, s')) :
    s'.Agrees ∧ (res = none → ∃ txID, s'.db.pos = .ok txID ∧ txID ≤ s'.replica.l0Max) := by
  have hFailed : ({ s with replicaPos := 0 } : SyncState lib).Agrees :=
    ⟨hAgrees.local_, hAgrees.remote, Or.inl rfl, hAgrees.bound⟩
  unfold SyncState.replicaSync syncFailed at hSync
  cases hKnown : s.knownPos env.listFault with
  | error err =>
    simp only [hKnown, Prod.mk.injEq] at hSync
    rcases hSync with ⟨rfl, rfl⟩
    exact ⟨hFailed, by simp⟩
  | ok rpos =>
    rcases hAgrees.knownPos hKnown with rfl
    simp only [hKnown] at hSync
    cases hPos : s.db.pos with
    | error err =>
      simp only [hPos, Prod.mk.injEq] at hSync
      rcases hSync with ⟨rfl, rfl⟩
      exact ⟨hFailed, by simp⟩
    | ok dpos =>
      simp only [hPos] at hSync
      split at hSync
      · rw [Prod.mk.injEq] at hSync
        rcases hSync with ⟨rfl, rfl⟩
        exact ⟨hFailed, by simp⟩
      rename_i hNonzero
      have hCache := hAgrees.local_.posCache_withPos hPos hNonzero
      have hLocal := hAgrees.local_.withPos
      split at hSync
      · rename_i err pos r' hLoop
        rcases hSync with ⟨rfl, rfl⟩
        rcases hAgrees.remote.uploadFrom hLocal hCache (by omega) hLoop with ⟨hDone, hKept, _⟩
        exact ⟨⟨hKept, hDone, Or.inl rfl, hAgrees.bound⟩, by simp⟩
      rename_i pos r' hLoop
      rcases hSync with ⟨rfl, rfl⟩
      rcases hAgrees.remote.uploadFrom hLocal hCache (by omega) hLoop with ⟨hDone, hKept, hEnd⟩
      rcases hEnd rfl with ⟨hLast, hTop⟩
      refine ⟨⟨hKept, hDone, Or.inr hLast, hAgrees.bound⟩, ?_⟩
      intro _
      refine ⟨dpos, ?_, ?_⟩
      · rw [LocalState.pos_withPos]
        exact hPos
      · rw [hTop]
        omega

end SyncState

-- Compaction

namespace ReplicaAgrees

variable {H : History lib} {r : Replica D} {compacted : List (Nat × Layer D)}

/- A compacted file continues its level. -/
theorem storeCompacted (hRemote : ReplicaAgrees H r compacted) {dstLevel : Nat}
    (hDst : 1 ≤ dstLevel) (hBelow : dstLevel < snapshotLevel) {obj out}
    (hLevel : obj.info.level = dstLevel) (hMin : obj.info.minTXID = r.levelEnd dstLevel + 1)
    (hLess : r.levelEnd dstLevel < obj.info.maxTXID)
    (hSource : ∃ f ∈ r.content (dstLevel - 1), f.maxTXID = obj.info.maxTXID)
    (hHolds : obj.data.Holds obj.info.maxTXID out)
    (hProduced : Produced H obj.info.minTXID obj.info.maxTXID out) {compacted'}
    (hKept : compacted ⊆ compacted')
    (hRecorded : dstLevel = 1 → ∀ t, r.levelEnd 1 < t → t ≤ obj.info.maxTXID →
      (t, H.tx t) ∈ compacted') :
    ReplicaAgrees H (r.put dstLevel obj) compacted' ∧ (r.put dstLevel obj).l0Max = r.l0Max := by
  have hLast : ∀ f ∈ r.content dstLevel, NameLt f obj.info := by
    intro f hMem
    have hTiles := hRemote.tiles dstLevel hDst
    have hWide := hTiles.lo_le_hi hMem
    have hEnd := hi_le_reach hTiles.isChain hMem
    unfold levelEnd at hMin
    unfold NameLt
    omega
  rcases r.put_content hLast with ⟨hObjects, hContent⟩
  have hObjectsOther : ∀ level, level ≠ dstLevel →
    (r.put dstLevel obj).objects level = r.objects level :=
    fun level hOther => r.put_objects_other hOther obj
  have hOther : ∀ level, level ≠ dstLevel → (r.put dstLevel obj).content level = r.content level :=
    fun level hNe => r.put_content_other hNe obj
  have hNewEnd : (r.put dstLevel obj).levelEnd dstLevel = obj.info.maxTXID := by
    unfold levelEnd
    rw [hContent, reach_append_singleton]
  have hOldEnd : ∀ level, level ≠ dstLevel →
    (r.put dstLevel obj).levelEnd level = r.levelEnd level := by
    intro level hNe
    unfold levelEnd
    rw [hOther level hNe]
  have hTop : (r.put dstLevel obj).l0Max = r.l0Max := by
    unfold l0Max
    rw [hOther 0 (by omega)]
  have hWithin : obj.info.maxTXID ≤ r.l0Max := by
    rcases hSource with ⟨f, hMem, hEnd⟩
    rw [← hEnd]
    exact hRemote.max_le hMem
  -- level 1 only grows, so less is asked of level 0
  have hGrown : r.levelEnd 1 ≤ (r.put dstLevel obj).levelEnd 1 := by
    by_cases hOne : dstLevel = 1
    · subst hOne
      rw [hNewEnd]
      exact Nat.le_of_lt hLess
    · rw [hOldEnd 1 (Ne.symm hOne)]
  refine ⟨⟨?_, ?_, ?_, ?_, ?_, ?_, ?_, ?_, ?_, ?_, ?_⟩, hTop⟩
  · intro level new hMem
    rcases r.mem_put hLast hMem with hOld | ⟨rfl, rfl⟩
    · exact hRemote.levels level new hOld
    · exact hLevel
  · intro level
    by_cases hNe : level = dstLevel
    · subst hNe
      exact r.put_sorted hLast (hRemote.sorted level)
    · rw [hOther level hNe]
      exact hRemote.sorted level
  · rw [hObjectsOther 0 (by omega)]
    exact hRemote.l0
  · rw [hTop]
    exact hRemote.count
  · intro level hPos new hMem
    rcases r.mem_put hLast hMem with hOld | ⟨_, rfl⟩
    · exact hRemote.stored level hPos new hOld
    · exact ⟨out, hHolds, hProduced⟩
  · intro level hPos
    by_cases hNe : level = dstLevel
    · subst hNe
      rw [hContent, tiles_append_singleton]
      exact ⟨hRemote.tiles level hPos, hMin, hLess⟩
    · rw [hOther level hNe]
      exact hRemote.tiles level hPos
  · intro level hPos
    by_cases hNext : level + 1 = dstLevel
    · subst hNext
      rw [hNewEnd, hOther level (by omega)]
      exact Or.inr hSource
    rw [hOldEnd (level + 1) hNext]
    rcases hRemote.ends level hPos with hZero | ⟨f, hMem, hEnd⟩
    · exact Or.inl hZero
    refine Or.inr ⟨f, ?_, hEnd⟩
    by_cases hNe : level = dstLevel
    · subst hNe
      rw [hContent]
      exact mem_append_left _ hMem
    · rw [hOther level hNe]
      exact hMem
  · rw [hTop]
    by_cases hOne : dstLevel = 1
    · subst hOne
      rw [hNewEnd]
      exact hWithin
    · rw [hOldEnd 1 (Ne.symm hOne)]
      exact hRemote.l1_le
  · intro t hAfter hTo
    rw [hTop] at hTo
    rw [hObjectsOther 0 (by omega)]
    exact hRemote.present t (by omega) hTo
  · intro t hStart hTo
    by_cases hOld : t ≤ r.levelEnd 1
    · exact hKept (hRemote.recorded t hStart hOld)
    by_cases hOne : dstLevel = 1
    · subst hOne
      rw [hNewEnd] at hTo
      exact hRecorded rfl t (by omega) hTo
    · rw [hOldEnd 1 (Ne.symm hOne)] at hTo
      exact absurd hTo hOld
  · intro level hSnap
    rw [hObjectsOther level (by omega)]
    exact hRemote.no_snapshots level hSnap

/- The sources of a compaction tile what is missing. -/
theorem tiles_sources (hRemote : ReplicaAgrees H r compacted) {dstLevel : Nat}
    (hDst : 1 ≤ dstLevel) :
    Tiles FileInfo.minTXID FileInfo.maxTXID (r.levelEnd dstLevel)
      ((r.content (dstLevel - 1)).filter (fun info =>
        decide (r.levelEnd dstLevel + 1 ≤ info.minTXID))) := by
  rcases Nat.exists_eq_add_of_le' hDst with ⟨level, rfl⟩
  by_cases hLevel : 1 ≤ level
  · exact (tiles_filter (hRemote.tiles level hLevel) (hRemote.ends level hLevel)).1
  have hZero : level = 0 := by omega
  subst hZero
  have hPoint : ∀ f ∈ r.content 0, f.minTXID = f.maxTXID := by
    intro f hMem
    rcases mem_map.mp hMem with ⟨obj, hObj, rfl⟩
    exact (hRemote.l0 obj hObj).1
  have hOrder : (r.content 0).Pairwise (fun f g => f.minTXID < g.minTXID) := by
    refine List.Pairwise.imp_of_mem ?_ (hRemote.sorted 0)
    intro f g hf hg hName
    have hF := hPoint f hf
    have hG := hPoint g hg
    unfold NameLt at hName
    omega
  refine @tiles_of_points _ _ _ _ r.l0Max _ (hOrder.filter _) ?_ ?_ ?_
  · intro f hMem
    exact hPoint f (mem_filter.mp hMem).1
  · intro f hMem
    rcases mem_filter.mp hMem with ⟨hIn, hAfter⟩
    have hEnd := r.le_l0Max hIn
    have hEq := hPoint f hIn
    have hLo := of_decide_eq_true hAfter
    omega
  · intro t hAfter hTo
    rcases hRemote.present t hAfter hTo with ⟨obj, hObj, hEnd⟩
    have hIn := r.mem_content_of_mem hObj
    have hEq := hPoint obj.info hIn
    refine ⟨obj.info, mem_filter.mpr ⟨hIn, ?_⟩, by omega⟩
    exact decide_eq_true (by omega)

end ReplicaAgrees

theorem Bytes.Holds.eq_of_ltx {txID maxTXID : Nat} {layer content : Layer D}
    (hHolds : (Bytes.ltx maxTXID content).Holds txID layer) : content = layer := by
  rcases hHolds with hPlain | hSealed
  · exact (Bytes.ltx.inj hPlain).2
  · cases hSealed

namespace SyncState

variable {s : SyncState lib} {env : LevelEnv}

/- Sources are files of the lineage, also local ones. -/
theorem Agrees.readSource (hAgrees : s.Agrees) {level : Nat} {obj : Stored D} {layer : Layer D}
    (hMem : obj ∈ s.replica.objects level) (hRead : s.readSource env level obj = .ok layer) :
    Produced s.lineage obj.info.minTXID obj.info.maxTXID layer ∧
      (level = 0 → layer = s.lineage.tx obj.info.maxTXID) := by
  have hRemote := hAgrees.remote
  have hTransaction : level = 0 → layer = s.lineage.tx obj.info.maxTXID →
    Produced s.lineage obj.info.minTXID obj.info.maxTXID layer ∧
      (level = 0 → layer = s.lineage.tx obj.info.maxTXID) := by
    rintro rfl rfl
    rcases hRemote.l0 obj hMem with ⟨hPoint, hStart, _⟩
    have hEnd := s.replica.le_l0Max (s.replica.mem_content_of_mem hMem)
    have hCount := hRemote.count
    rw [hPoint]
    exact ⟨Produced.transaction hStart (by omega), fun _ => rfl⟩
  unfold SyncState.readSource openSource at hRead
  split at hRead
  · simp at hRead
  · rename_i maxTXID content hOpen
    rw [Except.ok.injEq] at hRead
    subst hRead
    split at hOpen
    · rename_i file hFile
      split at hFile
      · rename_i hLevel
        rcases LocalState.file_spec hFile with ⟨hLocal, _, hMax⟩
        have hHolds := (hAgrees.local_.files file hLocal).2.2.2.1
        rw [Except.ok.injEq] at hOpen
        rw [hOpen, hMax] at hHolds
        exact hTransaction hLevel hHolds.eq_of_ltx
      · cases hFile
    · rcases openLTXFile_holds hOpen with ⟨found, hFound, hMin, hMax, hData⟩
      by_cases hLevel : level = 0
      · subst hLevel
        have hHolds := (hRemote.l0 found hFound).2.2
        have hSame := (hData _ _ hHolds).eq_of_ltx
        rw [hMax] at hSame
        exact hTransaction rfl hSame
      rcases hRemote.stored level (by omega) found hFound with ⟨layer, hHolds, hProduced⟩
      have hSame := (hData _ _ hHolds).eq_of_ltx
      subst hSame
      rw [hMin, hMax] at hProduced
      exact ⟨hProduced, fun hZero => absurd hZero hLevel⟩
  · simp at hRead

theorem Agrees.map_sources (hAgrees : s.Agrees) {dstLevel : Nat} (hDst : 1 ≤ dstLevel) :
    (s.sources dstLevel).map Stored.info = (s.replica.content (dstLevel - 1)).filter (fun info =>
      decide (s.replica.levelEnd dstLevel + 1 ≤ info.minTXID)) := by
  have hEnd : (maxInfo (s.replica.content dstLevel)).maxTXID = s.replica.levelEnd dstLevel :=
    maxInfo_tiles (hAgrees.remote.tiles dstLevel hDst)
  have hNext : TXID.next (s.replica.levelEnd dstLevel) = s.replica.levelEnd dstLevel + 1 := by
    apply TXID.next_eq
    have hUpper := hAgrees.remote.levelEnd_le hDst
    have hLower := hAgrees.remote.l1_le
    have hCount := hAgrees.remote.count
    have hBound := hAgrees.bound
    omega
  unfold sources Replica.content
  rw [filter_map]
  unfold Replica.content at hEnd
  rw [hEnd, hNext]
  rfl

/- Storing a merge of the sources keeps the agreement. -/
theorem Agrees.storeCompacted (hAgrees : s.Agrees) {dstLevel : Nat} (hDst : 1 ≤ dstLevel)
    (hBelow : dstLevel < snapshotLevel) (hNonempty : s.sources dstLevel ≠ []) {layers out}
    (hRead : (s.sources dstLevel).mapM (s.readSource env (dstLevel - 1)) = .ok layers)
    (hCompact : lib.compact layers = .ok out) :
    (s.storeCompacted env dstLevel (s.sources dstLevel) layers out).Agrees := by
  have hRemote := hAgrees.remote
  have hSources := hAgrees.map_sources hDst
  have hTiles := hRemote.tiles_sources hDst
  rw [← hSources] at hTiles
  have hInfos : (s.sources dstLevel).map Stored.info ≠ [] := by simpa using hNonempty
  have hRange := sourceRange_tiles hTiles hInfos
  have hMembers : ∀ obj ∈ s.sources dstLevel, obj ∈ s.replica.objects (dstLevel - 1) :=
    fun obj hMem => (mem_filter.mp hMem).1
  rw [Traversal.mapM_eq_ok_iff, forall₂_iff_zip] at hRead
  rcases hRead with ⟨hLength, hPairs⟩
  -- the inputs of the merge with their labels
  let inputs := ((s.sources dstLevel).map Stored.info).zip layers
  have hLabels : inputs.map Prod.fst = (s.sources dstLevel).map Stored.info :=
    map_fst_zip (by simp [hLength])
  have hLayers : inputs.map Prod.snd = layers := map_snd_zip (by simp [hLength])
  have hZip : inputs = ((s.sources dstLevel).zip layers).map (fun x => (x.1.info, x.2)) :=
    zip_map_left
  have hInputs : ∀ x ∈ inputs, Produced s.lineage x.1.minTXID x.1.maxTXID x.2 := by
    intro x hx
    rw [hZip] at hx
    rcases mem_map.mp hx with ⟨⟨obj, layer⟩, hPair, rfl⟩
    exact (hAgrees.readSource (hMembers obj (of_mem_zip hPair).1) (hPairs hPair)).1
  have hProduced : Produced s.lineage (sourceRange ((s.sources dstLevel).map Stored.info)).1
      (sourceRange ((s.sources dstLevel).map Stored.info)).2 out := by
    rw [← hLabels]
    refine @Produced.compaction D lib s.lineage inputs out
      (s.replica.levelEnd dstLevel) hInputs ?_ ?_ ?_
    · intro hNil
      rw [hNil] at hLabels
      exact hInfos hLabels.symm
    · rw [← IntervalChain.isChain_map Prod.fst, hLabels]
      exact hTiles.isChain
    · rw [hLayers]
      exact hCompact
  have hLess : s.replica.levelEnd dstLevel < (sourceRange
    ((s.sources dstLevel).map Stored.info)).2 := by
    have hWide := (sourceRange_max hInfos).1 _ (head_mem hInfos)
    have hAfter := hTiles.lt_lo (head_mem hInfos)
    have hProper := hTiles.lo_le_hi (head_mem hInfos)
    omega
  have hSource : ∃ f ∈ s.replica.content (dstLevel - 1), f.maxTXID =
    (sourceRange ((s.sources dstLevel).map Stored.info)).2 := by
    rcases (sourceRange_max hInfos).2 with ⟨f, hMem, hEnd⟩
    rw [hSources] at hMem
    exact ⟨f, (mem_filter.mp hMem).1, hEnd⟩
  have hHolds : (s.replica.encrypted (.ltx (sourceRange ((s.sources dstLevel).map Stored.info)).2
      out)).Holds (sourceRange ((s.sources dstLevel).map Stored.info)).2 out := by
    unfold encrypted
    split
    · exact Or.inl rfl
    · exact Or.inr rfl
  have hRecorded : dstLevel = 1 → ∀ t, s.replica.levelEnd 1 < t →
    t ≤ (sourceRange ((s.sources dstLevel).map Stored.info)).2 →
    (t, s.lineage.tx t) ∈ ((s.sources dstLevel).zip layers).map
      (fun x => (x.1.info.maxTXID, x.2)) := by
    rintro rfl t hAfter hTo
    have hTop := hRemote.max_le hSource.choose_spec.1
    rw [hSource.choose_spec.2] at hTop
    rcases hRemote.present t hAfter (by omega) with ⟨obj, hObj, hEnd⟩
    have hPoint := (hRemote.l0 obj hObj).1
    have hSelected : obj.info ∈ inputs.map Prod.fst := by
      rw [hLabels, hSources]
      refine mem_filter.mpr ⟨s.replica.mem_content_of_mem hObj, ?_⟩
      exact decide_eq_true (by omega)
    rw [hZip, List.map_map] at hSelected
    rcases mem_map.mp hSelected with ⟨⟨found, layer⟩, hPair, hInfo⟩
    have hLayer := (hAgrees.readSource (hMembers found (of_mem_zip hPair).1) (hPairs hPair)).2 rfl
    have hMax : found.info.maxTXID = t := by
      rw [← hEnd]
      exact congrArg FileInfo.maxTXID hInfo
    refine mem_map.mpr ⟨(found, layer), hPair, ?_⟩
    rw [hMax] at hLayer ⊢
    rw [hLayer]
  have hStart : (sourceRange ((s.sources dstLevel).map Stored.info)).1 =
    s.replica.levelEnd dstLevel + 1 := by
    rw [hRange]
  have hDone :=
    @ReplicaAgrees.storeCompacted D lib s.lineage s.replica s.compacted hRemote dstLevel hDst hBelow
      ⟨⟨dstLevel, _, _, env.size, env.createdAt⟩, _⟩ out
      rfl hStart hLess hSource hHolds hProduced
      (s.storeCompacted env dstLevel (s.sources dstLevel) layers out).compacted
      (by
        unfold SyncState.storeCompacted
        dsimp only
        split
        · exact subset_append_left _ _
        · exact List.Subset.refl _)
      (by
        intro hOne t hAfter hTo
        unfold SyncState.storeCompacted
        dsimp only
        rw [if_pos hOne]
        exact mem_append_right _ (hRecorded hOne t hAfter hTo))
  refine ⟨?_, hDone.1, ?_, hAgrees.bound⟩
  · have hLocal := hAgrees.local_
    rw [← hDone.2] at hLocal
    exact hLocal
  · have hPos := hAgrees.pos
    rw [← hDone.2] at hPos
    exact hPos

/- A compaction keeps the agreement. -/
theorem Agrees.compact (hAgrees : s.Agrees) {dstLevel : Nat} (hDst : 1 ≤ dstLevel)
    (hBelow : dstLevel < snapshotLevel) : (s.compact env dstLevel).2.Agrees := by
  unfold SyncState.compact
  split
  · exact hAgrees
  split
  · exact hAgrees
  rename_i hNonempty
  split
  · exact hAgrees
  rename_i layers hRead
  split
  · exact hAgrees
  rename_i out hCompact
  have hStored := hAgrees.storeCompacted hDst hBelow hNonempty hRead hCompact
  dsimp only
  split
  · exact hStored
  dsimp only
  split
  · exact hStored
  · exact hAgrees

end SyncState

-- L0 Retention

/- Level 0 may lose what level 1 has, but its newest file. -/
theorem ReplicaAgrees.deleteL0 {H : History lib} {r : Replica D} {compacted : List (Nat × Layer D)}
    (hRemote : ReplicaAgrees H r compacted) {gone : FileInfo → Bool}
    (hGone : ∀ info, gone info = true → info.maxTXID ≤ r.levelEnd 1 ∧ info.maxTXID < r.l0Max) :
    ReplicaAgrees H (r.deleteL0 gone) compacted ∧ (r.deleteL0 gone).l0Max = r.l0Max := by
  have hObjects : (r.deleteL0 gone).objects 0 =
    (r.objects 0).filter (fun obj => !gone obj.info) := by
    simp [Replica.deleteL0]
  have hContent : (r.deleteL0 gone).content 0 = (r.content 0).filter (fun info => !gone info) := by
    unfold Replica.content
    rw [hObjects, filter_map]
    rfl
  have hTop : (r.deleteL0 gone).l0Max = r.l0Max := by
    apply Nat.le_antisymm
    · unfold l0Max
      rcases maxInfo_eq_or_mem ((r.deleteL0 gone).content 0) with hZero | hMem
      · rw [hZero]
        exact Nat.zero_le _
      · rw [hContent] at hMem ⊢
        exact r.le_l0Max (mem_filter.mp hMem).1
    · rcases maxInfo_eq_or_mem (r.content 0) with hZero | hMem
      · unfold l0Max
        rw [hZero]
        exact Nat.zero_le _
      · apply Replica.le_l0Max
        rw [hContent]
        refine mem_filter.mpr ⟨hMem, ?_⟩
        rw [Bool.not_eq_true']
        apply Bool.eq_false_iff.mpr
        intro hDeleted
        exact Nat.lt_irrefl _ (hGone _ hDeleted).2
  refine ⟨hRemote.of_level_zero ?_ ?_ ?_ ?_ ?_ ?_, hTop⟩
  · intro level hPos
    simp [Replica.deleteL0, Nat.ne_of_gt hPos]
  · rw [hContent]
    exact (hRemote.sorted 0).filter _
  · intro obj hMem
    rw [hObjects] at hMem
    have hOld := (mem_filter.mp hMem).1
    exact ⟨hRemote.levels 0 obj hOld, hRemote.l0 obj hOld⟩
  · rw [hTop]
    exact hRemote.count
  · exact Nat.le_of_eq hTop.symm
  · intro t hAfter hTo
    rw [hTop] at hTo
    rcases hRemote.present t hAfter hTo with ⟨obj, hObj, hEnd⟩
    refine ⟨obj, ?_, hEnd⟩
    rw [hObjects]
    refine mem_filter.mpr ⟨hObj, ?_⟩
    rw [Bool.not_eq_true']
    apply Bool.eq_false_iff.mpr
    intro hDeleted
    have hLe := (hGone _ hDeleted).1
    omega

namespace SyncState

variable {s : SyncState lib} {env : RetentionEnv}

/- Only compacted files expire, and never the newest. -/
theorem Agrees.expiredL0 (hAgrees : s.Agrees) {deleted} (hExpired : s.expiredL0 env = .ok deleted)
    {info} (hMem : info ∈ deleted) :
    info.maxTXID ≤ s.replica.levelEnd 1 ∧ info.maxTXID < s.replica.l0Max := by
  have hRemote := hAgrees.remote
  unfold SyncState.expiredL0 at hExpired
  split at hExpired
  · simp at hExpired
  rename_i l1 hL1
  split at hExpired
  · simp at hExpired
  dsimp only at hExpired
  split at hExpired
  · rw [Except.ok.injEq] at hExpired
    simp [← hExpired] at hMem
  split at hExpired
  · simp at hExpired
  rename_i l0 hL0
  rw [Except.ok.injEq] at hExpired
  rw [← hExpired] at hMem
  have hOrder : l0.items.Pairwise (fun f g => f.maxTXID < g.maxTXID) := by
    refine List.Pairwise.imp_of_mem ?_ (ltxFiles_sorted hRemote.sorted hL0)
    intro f g hf hg hName
    rcases mem_map.mp (mem_of_mem_ltxFiles hL0 hf) with ⟨fObj, hF, rfl⟩
    rcases mem_map.mp (mem_of_mem_ltxFiles hL0 hg) with ⟨gObj, hG, rfl⟩
    have hPointF := (hRemote.l0 fObj hF).1
    have hPointG := (hRemote.l0 gObj hG).1
    unfold NameLt at hName
    omega
  refine ⟨?_, ?_⟩
  · refine Nat.le_trans (Retention.expiredL0_le hMem).2 ?_
    rcases Retention.maxL1TXID_eq l1.items with hZero | ⟨g, hg, hEq⟩
    · rw [hZero]
      exact Nat.zero_le _
    · rw [hEq]
      exact hi_le_reach (hRemote.tiles 1 (Nat.le_refl 1)).isChain (mem_of_mem_ltxFiles hL1 hg)
  · rcases Retention.expiredL0_lt hOrder hMem with ⟨g, hg, hLess⟩
    exact Nat.lt_of_lt_of_le hLess (s.replica.le_l0Max (mem_of_mem_ltxFiles hL0 hg))

/- L0 retention keeps the agreement. -/
theorem Agrees.enforceL0Retention (hAgrees : s.Agrees) : (s.enforceL0Retention env).2.Agrees := by
  unfold SyncState.enforceL0Retention
  cases hExpired : s.expiredL0 env with
  | error err => exact hAgrees
  | ok deleted =>
    have hLocal : LocalAgrees s.lineage s.replica.l0Max (s.db.removeL0
      (deleted.filter env.localRemoved)) := by
      apply hAgrees.local_.removeL0
      intro info hMem
      exact (hAgrees.expiredL0 hExpired (mem_filter.mp hMem).1).2
    have hRemote : ∀ gone : FileInfo → Bool, (∀ info, gone info = true → info ∈ deleted) →
      ReplicaAgrees s.lineage (s.replica.deleteL0 gone) s.compacted ∧
        (s.replica.deleteL0 gone).l0Max = s.replica.l0Max := by
      intro gone hGone
      apply hAgrees.remote.deleteL0
      intro info hInfo
      exact hAgrees.expiredL0 hExpired (hGone info hInfo)
    dsimp only
    split
    · exact hAgrees
    split
    · split
      · rcases hRemote (fun info =>
          decide (info ∈ deleted) && env.removed info) (fun info hGone =>
              of_decide_eq_true (Bool.and_eq_true_iff.mp hGone).1) with
          ⟨hKept, hTop⟩
        exact ⟨hTop.symm ▸ hAgrees.local_, hKept, hTop.symm ▸ hAgrees.pos, hAgrees.bound⟩
      · rcases hRemote (fun info => decide (info ∈ deleted)) (by simp) with ⟨hKept, hTop⟩
        exact ⟨hTop.symm ▸ hLocal, hKept, hTop.symm ▸ hAgrees.pos, hAgrees.bound⟩
    · exact ⟨hLocal, hAgrees.remote, hAgrees.pos, hAgrees.bound⟩

end SyncState

end Replicate
