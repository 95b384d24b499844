import Replicate.Compaction.Levels
import Replicate.LTX.Library

/-
  What holds of the levels of a replica together.

  Each level tiles the transactions from some point on, and
  a compaction goes on where its destination ends. For that
  end to be one of the source level's ends again, retention
  must not delete source files past it.

  Main declarations:
    * `LevelsInv`
    * `LevelsKnow`
    * `LevelsInv.lookup`
    * `LevelsInv.store`
    * `LevelsInv.delete`
-/

-- Files At The Front Of A Level

namespace Replicate

open Compactor Content FileInfo IntervalChain List Function

namespace Retention

variable {deleted items : List FileInfo}

/- The files are at the front, and some file is left. -/
def Front (deleted items : List FileInfo) : Prop :=
  deleted = [] ∨ ∃ rest, rest ≠ [] ∧ items = deleted ++ rest

theorem Front.of_length (hInitial : deleted <+: items) (hLength : deleted.length < items.length) :
    Front deleted items := by
  rcases hInitial with ⟨rest, rfl⟩
  refine Or.inr ⟨rest, ?_, rfl⟩
  rintro rfl
  simp at hLength

theorem Front.trans {files} (hFront : Front deleted items) (hInitial : items <+: files) :
    Front deleted files := by
  rcases hFront with hNone | ⟨rest, hRest, rfl⟩
  · exact Or.inl hNone
  · rcases hInitial with ⟨more, rfl⟩
    refine Or.inr ⟨rest ++ more, ?_, by simp⟩
    simp [hRest]

theorem keepLast_front (hInitial : deleted <+: items) :
    Front (keepLast items.getLast? deleted) items := by
  unfold keepLast
  split
  · rename_i hLast
    apply Front.of_length
    · exact (List.dropLast_prefix deleted).trans hInitial
    · have hLength := hInitial.length_le
      have hPos := length_pos_iff.mpr hLast.1
      rw [length_dropLast]
      omega
  · rename_i hKept
    by_cases hNone : deleted = []
    · exact Or.inl hNone
    apply Front.of_length hInitial
    apply Nat.lt_of_le_of_ne hInitial.length_le
    intro hEq
    exact hKept ⟨hNone, by rw [hInitial.eq_of_length hEq]⟩

section Tiling

variable {b : Nat} {items : List FileInfo}

theorem expiredByTXID_front (hTiles : Tiles minTXID maxTXID b items) (txID : Nat) :
    Front (expiredByTXID txID items) items :=
  keepLast_front (hTiles.filter_hi_initial txID)

theorem scanL0_initial (hTiles : Tiles minTXID maxTXID b items) (maxL1 : Nat) (threshold : Int)
    (modTime : FileInfo → Option Int) : (scanL0 maxL1 threshold modTime items).1 <+: items ∧
      ((scanL0 maxL1 threshold modTime items).2 = false →
        (scanL0 maxL1 threshold modTime items).1.length < items.length) := by
  induction items generalizing b with
  | nil => simp [scanL0]
  | cons info items ih =>
    rcases hTiles with ⟨_, _, hRest⟩
    rcases ih hRest with ⟨hInitial, hShort⟩
    simp only [scanL0]
    split
    · exact ⟨List.nil_prefix, fun _ => Nat.succ_pos _⟩
    dsimp only
    split
    · refine ⟨(prefix_cons_inj info).mpr hInitial, fun hStop => ?_⟩
      exact Nat.succ_lt_succ (hShort hStop)
    -- later files end even later
    rename_i hPast
    have hNone : (scanL0 maxL1 threshold modTime items).1 = [] := by
      apply eq_nil_iff_forall_not_mem.mpr
      intro f hf
      rcases scanL0_le hf with ⟨hMem, hLe⟩
      have hAfter := Tiles.lt_lo hRest hMem
      have hProper := hRest.lo_le_hi hMem
      omega
    rw [hNone]
    exact ⟨List.nil_prefix, fun _ => Nat.succ_pos _⟩

theorem expiredL0_front (hTiles : Tiles minTXID maxTXID b items) (maxL1 : Nat) (threshold : Int)
    (modTime : FileInfo → Option Int) : Front (expiredL0 maxL1 threshold modTime items) items := by
  rcases scanL0_initial hTiles maxL1 threshold modTime with ⟨hInitial, hShort⟩
  unfold expiredL0
  dsimp only
  split
  · exact keepLast_front hInitial
  · rename_i hStop
    exact Front.of_length hInitial (hShort (Bool.eq_false_iff.mpr hStop))

end Tiling

variable {content : Content} {level b : Nat} {files : List FileInfo}

theorem delete_front {deleted rest} (hLevel : ∀ d ∈ deleted, d.level = level)
    (hContent : content level = deleted ++ rest)
    (hTiles : Tiles minTXID maxTXID b (content level)) :
    content.delete deleted level = rest := by
  rw [hContent] at hTiles
  have hApart := (pairwise_append.mp hTiles.apart).2.2
  unfold delete
  rw [hContent, filter_append]
  have hGone : deleted.filter (fun f =>
    decide (¬ ∃ d ∈ deleted, d.level = level ∧ SameName d f)) = [] := by
    rw [filter_eq_nil_iff]
    intro f hf hKept
    exact of_decide_eq_true hKept ⟨f, hf, hLevel f hf, rfl, rfl⟩
  have hLeft : rest.filter (fun f =>
    decide (¬ ∃ d ∈ deleted, d.level = level ∧ SameName d f)) = rest := by
    rw [filter_eq_self]
    intro f hf
    apply decide_eq_true
    rintro ⟨d, hd, _, hSame⟩
    have hBefore := hApart d hd f hf
    have hMin := hSame.1
    omega
  rw [hGone, hLeft, nil_append]

theorem delete_other {deleted} (hLevel : ∀ d ∈ deleted, d.level ≠ level) :
    content.delete deleted level = content level := by
  unfold delete
  rw [filter_eq_self]
  intro f hf
  apply decide_eq_true
  rintro ⟨d, hd, hEq, _⟩
  exact hLevel d hd hEq

theorem putInfo_tiles {info} (hTiles : Tiles minTXID maxTXID b files)
    (hPast : reach maxTXID b files < info.minTXID) : putInfo info files = files ++ [info] := by
  apply putBy_eq_append
  intro f hf
  have hEnd : f.maxTXID ≤ reach maxTXID b files := hi_le_reach hTiles.isChain hf
  have hProper := hTiles.lo_le_hi hf
  exact Or.inl (by simp only [id]; omega)

-- The Invariant

/- The TXID is where the tiling or one of its files ends. -/
def EndsAt (b : Nat) (files : List FileInfo) (txID : Nat) : Prop :=
  txID = b ∨ ∃ f ∈ files, f.maxTXID = txID

theorem EndsAt.append {txID : Nat} (hEnds : EndsAt b files txID) (more : List FileInfo) :
    EndsAt b (files ++ more) txID := by
  rcases hEnds with hEq | ⟨f, hf, hEq⟩
  · exact Or.inl hEq
  · exact Or.inr ⟨f, mem_append_left more hf, hEq⟩

/-
  Each level tiles the transactions from its base on. Where
  a level ends, the one below begins or one of its files
  ends. A cache in use knows the end of each level.
-/
structure LevelsInv (c : Compactor) (base : Nat → Nat) (s : Shared) : Prop where
  tiles : ∀ level, level < snapshotLevel → Tiles minTXID maxTXID (base level) (s.content level)
  level_eq : ∀ level, ∀ f ∈ s.content level, f.level = level
  reached : reach maxTXID (base 0) (s.content 0) = s.uploaded
  reach_le : ∀ level, level < snapshotLevel → ∀ f ∈ s.content level, f.maxTXID ≤ s.uploaded
  link : ∀ level, level + 1 < snapshotLevel → s.content (level + 1) ≠ [] →
    s.content level ≠ [] ∧ EndsAt (base level) (s.content level)
      (reach maxTXID (base (level + 1)) (s.content (level + 1)))
  cached : c.cacheGetter = true → ∀ level, 1 ≤ level → level < snapshotLevel →
    ∀ info, s.cache level = some info → s.content level ≠ [] ∧
      info.maxTXID = reach maxTXID (base level) (s.content level)
  uncached : c.cacheGetter = true → c.cacheSetter = true →
    ∀ level, 1 ≤ level → level < snapshotLevel → s.cache level = none → s.content level = []
  unset : c.cacheSetter = false → ∀ level, s.cache level = none
  uploaded_le : s.uploaded ≤ s.pos
  bound : s.pos + 1 < TXID.bound

theorem LevelsInv.empty (c : Compactor) : LevelsInv c (fun _ => 0) Shared.empty where
  tiles := fun _ _ => trivial
  level_eq := by simp [Shared.empty]
  reached := rfl
  reach_le := by simp [Shared.empty]
  link := by simp [Shared.empty]
  cached := by simp [Shared.empty]
  uncached := by simp [Shared.empty]
  unset := fun _ _ => rfl
  uploaded_le := Nat.le_refl _
  bound := by decide

/-
  The files are at the front of a level, and the next level
  reaches past them, or it is empty.
-/
def Droppable (content : Content) (deleted : List FileInfo) : Prop :=
  ∃ level, (∀ d ∈ deleted, d.level = level) ∧ (level < snapshotLevel →
    Front deleted (content level) ∧ (level + 1 < snapshotLevel →
      content (level + 1) ≠ [] → ∀ d ∈ deleted, ∃ g ∈ content (level + 1), d.maxTXID ≤ g.maxTXID))

/- What an operation under way knows of the levels. -/
def LevelsKnow (c : Compactor) (base : Nat → Nat) (s : Shared) : Task → Prop
| .compact c' dstLevel => c' = c ∧ 1 ≤ dstLevel ∧ dstLevel < snapshotLevel
| .listSources c' dstLevel prevMaxInfo =>
  (c' = c ∧ 1 ≤ dstLevel ∧ dstLevel < snapshotLevel) ∧
    (s.content dstLevel = [] → prevMaxInfo.maxTXID = 0) ∧
    (s.content dstLevel ≠ [] → prevMaxInfo.maxTXID =
      reach maxTXID (base dstLevel) (s.content dstLevel))
| .openSources c' dstLevel sources _ =>
  (c' = c ∧ 1 ≤ dstLevel ∧ dstLevel < snapshotLevel) ∧ sources ≠ [] ∧
    (∀ f ∈ sources, f ∈ s.content (dstLevel - 1)) ∧
    ∃ b, Tiles minTXID maxTXID b sources ∧
      (s.content dstLevel ≠ [] → b = reach maxTXID (base dstLevel) (s.content dstLevel))
| .listL0 _ _ maxL1 => ∃ g ∈ s.content 1, maxL1 = g.maxTXID
| .deleteL0 deleted => Droppable s.content deleted
| .deleteLevel deleted _ _ => Droppable s.content deleted
| _ => True

-- Looking Up The End Of A Level

section Lookup

variable {c : Compactor} {base : Nat → Nat} {s : Shared}

theorem maxInfo_tiles {b : Nat} {files} (hTiles : Tiles minTXID maxTXID b files)
    (hNonempty : files ≠ []) : (maxInfo files).maxTXID = reach maxTXID b files := by
  rcases exists_hi_eq_reach maxTXID b hNonempty with ⟨f, hf, hEq⟩
  have hLe := le_maxInfo hf
  apply Nat.le_antisymm
  · rcases maxInfo_eq_or_mem files with hZero | hMem
    · rw [hZero]
      exact Nat.zero_le _
    · exact hi_le_reach hTiles.isChain hMem
  · exact hEq ▸ hLe

/-
  With a cache in use a level that is not cached is empty,
  so a listing that fails part way caches nothing wrong.
-/
theorem LevelsInv.lookup {fault} {dstLevel : Nat} {result cache} (hInv : LevelsInv c base s)
    (hFirst : 1 ≤ dstLevel) (hLast : dstLevel < snapshotLevel)
    (hLookup : c.maxLTXFileInfo fault s.content s.cache dstLevel = (result, cache)) :
    LevelsInv c base { s with cache := cache } ∧ ∀ info, result = .ok info →
      (s.content dstLevel = [] → info.maxTXID = 0) ∧ (s.content dstLevel ≠ [] → info.maxTXID =
        reach maxTXID (base dstLevel) (s.content dstLevel)) := by
  unfold maxLTXFileInfo at hLookup
  cases hCache : (if c.cacheGetter then s.cache dstLevel else none) with
  | some info =>
    simp only [hCache, Prod.mk.injEq] at hLookup
    rcases hLookup with ⟨rfl, rfl⟩
    refine ⟨hInv, ?_⟩
    intro info' hOk
    rw [Except.ok.injEq] at hOk
    subst hOk
    split at hCache
    · rename_i hGetter
      rcases hInv.cached hGetter dstLevel hFirst hLast info hCache with ⟨hSome, hEnd⟩
      exact ⟨fun hNone => absurd hNone hSome, fun _ => hEnd⟩
    · simp at hCache
  | none =>
    simp only [hCache] at hLookup
    cases hList : ltxFiles s.content fault dstLevel 0 with
    | error err =>
      simp only [hList, Prod.mk.injEq] at hLookup
      rcases hLookup with ⟨rfl, rfl⟩
      exact ⟨hInv, by simp⟩
    | ok itr =>
      simp only [hList] at hLookup
      have hInitial := ltxFiles_zero_initial hList
      -- a cache that is read stays as it is
      have hKept : c.cacheGetter = true → ¬ (c.cacheSetter = true ∧
        0 < (maxInfo itr.items).maxTXID) := by
        rintro hGetter ⟨hSetter, hPos⟩
        rw [if_pos hGetter] at hCache
        have hNone := hInv.uncached hGetter hSetter dstLevel hFirst hLast hCache
        rw [hNone, prefix_nil] at hInitial
        rw [hInitial] at hPos
        exact absurd hPos (Nat.lt_irrefl 0)
      have hFilled : LevelsInv c base { s with
        cache :=
          if c.cacheSetter ∧ 0 < (maxInfo itr.items).maxTXID then
            setCache s.cache dstLevel (maxInfo itr.items)
          else s.cache } := by
        split
        · rename_i hSet
          refine { hInv with
            cached := ?_
            uncached := ?_
            unset := ?_ }
          · exact fun hGetter => absurd hSet (hKept hGetter)
          · exact fun hGetter => absurd hSet (hKept hGetter)
          · intro hUnset
            rw [hUnset] at hSet
            exact absurd hSet.1 (by simp)
        · exact hInv
      cases hErr : itr.err with
      | some err =>
        simp only [hErr, Prod.mk.injEq] at hLookup
        rcases hLookup with ⟨rfl, rfl⟩
        exact ⟨hFilled, by simp⟩
      | none =>
        simp only [hErr, Prod.mk.injEq] at hLookup
        rcases hLookup with ⟨rfl, rfl⟩
        refine ⟨hFilled, ?_⟩
        intro info hOk
        rw [Except.ok.injEq] at hOk
        rw [← hOk, ltxFiles_zero_items hList hErr]
        refine ⟨?_, ?_⟩
        · intro hNone
          rw [hNone]
          rfl
        · exact maxInfo_tiles (hInv.tiles dstLevel hLast)

end Lookup

-- Storing And Deleting

section Steps

variable {c : Compactor} {base base' : Nat → Nat} {s s' : Shared}
variable {info : FileInfo} {c' : Compactor} {dstLevel : Nat}

theorem LevelsInv.congr (hInv : LevelsInv c base s)
    (hContent : ∀ level, level < snapshotLevel → s'.content level = s.content level)
    (hLevel : ∀ level, ∀ f ∈ s'.content level, f.level = level) (hCache : s'.cache = s.cache)
    (hUploaded : s'.uploaded = s.uploaded) (hPos : s.pos ≤ s'.pos)
    (hBound : s'.pos + 1 < TXID.bound) : LevelsInv c base s' := by
  have hZero : s'.content 0 = s.content 0 := hContent 0 (by decide)
  constructor
  case tiles =>
    intro level hLess
    rw [hContent level hLess]
    exact hInv.tiles level hLess
  case level_eq => exact hLevel
  case reached =>
    rw [hZero, hUploaded]
    exact hInv.reached
  case reach_le =>
    intro level hLess f hf
    rw [hContent level hLess] at hf
    rw [hUploaded]
    exact hInv.reach_le level hLess f hf
  case link =>
    intro level hLess
    rw [hContent level (by omega), hContent (level + 1) hLess]
    exact hInv.link level hLess
  case cached =>
    intro hGetter level hFirst hLess
    rw [hCache, hContent level hLess]
    exact hInv.cached hGetter level hFirst hLess
  case uncached =>
    intro hGetter hSetter level hFirst hLess
    rw [hCache, hContent level hLess]
    exact hInv.uncached hGetter hSetter level hFirst hLess
  case unset =>
    rw [hCache]
    exact hInv.unset
  case uploaded_le =>
    rw [hUploaded]
    exact Nat.le_trans hInv.uploaded_le hPos
  case bound => exact hBound

/-
  A file goes to the end of its level. The base of a level
  can move while the level is empty.
-/
theorem LevelsInv.store (hInv : LevelsInv c base s)
    (hContent : s'.content = s.content.put info.level info)
    (hBase : ∀ level, level ≠ info.level ∨ s.content level ≠ [] → base' level = base level)
    (hLess : info.level < snapshotLevel)
    (hNext : info.minTXID = reach maxTXID (base' info.level) (s.content info.level) + 1)
    (hProper : info.minTXID ≤ info.maxTXID)
    (hSource : ∀ level, level + 1 = info.level → ∃ f ∈ s.content level, f.maxTXID = info.maxTXID)
    (hCached : c.cacheGetter = true → ∀ level, 1 ≤ level → ∀ i, s'.cache level = some i → (level =
      info.level ∧ i = info) ∨ (level ≠ info.level ∧ s.cache level = some i))
    (hUncached : c.cacheSetter = true → ∀ level, 1 ≤ level → s'.cache level = none → level ≠
      info.level ∧ s.cache level = none)
    (hUnset : c.cacheSetter = false → ∀ level, s'.cache level = none)
    (hUploaded : s.uploaded ≤ s'.uploaded ∧ info.maxTXID ≤ s'.uploaded)
    (hReached : if info.level = 0 then s'.uploaded = info.maxTXID else s'.uploaded = s.uploaded)
    (hPos : s'.uploaded ≤ s'.pos ∧ s'.pos = s.pos) : LevelsInv c base' s' := by
  have hTiles : ∀ level, level < snapshotLevel → Tiles minTXID maxTXID
    (base' level) (s.content level) := by
    intro level hLevel
    by_cases hNone : s.content level = []
    · rw [hNone]
      exact trivial
    · rw [hBase level (Or.inr hNone)]
      exact hInv.tiles level hLevel
  have hSame : s'.content info.level = s.content info.level ++ [info] := by
    rw [hContent, put_same]
    exact putInfo_tiles (hTiles info.level hLess) (by omega)
  have hOther : ∀ level, level ≠ info.level → s'.content level = s.content level := by
    intro level hNe
    rw [hContent, put_other hNe]
  constructor
  case tiles =>
    intro level hLevel
    by_cases hEq : level = info.level
    · rw [hEq, hSame, tiles_append_singleton]
      exact ⟨hTiles info.level hLess, hNext, by omega⟩
    · rw [hOther level hEq]
      exact hTiles level hLevel
  case level_eq =>
    intro level f hf
    rw [hContent] at hf
    rcases eq_or_mem_of_mem_put hf with ⟨hEq, rfl⟩ | hOld
    · exact hEq.symm
    · exact hInv.level_eq level f hOld
  case reached =>
    by_cases hZero : info.level = 0
    · rw [if_pos hZero] at hReached
      rw [hZero] at hSame
      rw [hSame, reach_append_singleton, hReached]
    rw [if_neg hZero] at hReached
    have hNe : 0 ≠ info.level := fun hEq => hZero hEq.symm
    rw [hOther 0 hNe, hBase 0 (Or.inl hNe), hReached]
    exact hInv.reached
  case reach_le =>
    intro level hLevel f hf
    rw [hContent] at hf
    rcases eq_or_mem_of_mem_put hf with ⟨_, rfl⟩ | hOld
    · exact hUploaded.2
    · exact Nat.le_trans (hInv.reach_le level hLevel f hOld) hUploaded.1
  case link =>
    intro level hLevel hSome
    by_cases hUpper : level + 1 = info.level
    · -- the new end is that of a source
      rcases hSource level hUpper with ⟨f, hf, hEq⟩
      have hNe : level ≠ info.level := by omega
      rw [hOther level hNe, hUpper, hSame, reach_append_singleton]
      exact ⟨ne_nil_of_mem hf, Or.inr ⟨f, hf, hEq⟩⟩
    rw [hOther (level + 1) hUpper] at hSome ⊢
    rcases hInv.link level hLevel hSome with ⟨hBelow, hEnds⟩
    rw [hBase level (Or.inr hBelow), hBase (level + 1) (Or.inl hUpper)]
    by_cases hLower : level = info.level
    · rw [hLower] at hBelow hEnds ⊢
      rw [hSame]
      exact ⟨by simp, hEnds.append [info]⟩
    · rw [hOther level hLower]
      exact ⟨hBelow, hEnds⟩
  case cached =>
    intro hGetter level hFirst hLevel i hSome
    rcases hCached hGetter level hFirst i hSome with ⟨rfl, rfl⟩ | ⟨hNe, hOld⟩
    · rw [hSame, reach_append_singleton]
      exact ⟨by simp, rfl⟩
    · rw [hOther level hNe, hBase level (Or.inl hNe)]
      exact hInv.cached hGetter level hFirst hLevel i hOld
  case uncached =>
    intro hGetter hSetter level hFirst hLevel hNone
    rcases hUncached hSetter level hFirst hNone with ⟨hNe, hOld⟩
    rw [hOther level hNe]
    exact hInv.uncached hGetter hSetter level hFirst hLevel hOld
  case unset => exact hUnset
  case uploaded_le => exact hPos.1
  case bound =>
    rw [hPos.2]
    exact hInv.bound

theorem EndsAt.drop {b txID : Nat} {deleted rest}
    (hTiles : Tiles minTXID maxTXID b (deleted ++ rest)) (hEnds : EndsAt b (deleted ++ rest) txID)
    (hPast : ∀ d ∈ deleted, d.maxTXID ≤ txID) : EndsAt (reach maxTXID b deleted) rest txID := by
  by_cases hNone : deleted = []
  · subst hNone
    exact hEnds
  rcases exists_hi_eq_reach maxTXID b hNone with ⟨d, hd, hEnd⟩
  have hFront := ((tiles_append b deleted rest).mp hTiles).1
  have hReach := hPast d hd
  rcases hEnds with hEq | ⟨f, hf, hEq⟩
  · have hAfter := Tiles.lt_lo hFront hd
    have hProper := hFront.lo_le_hi hd
    omega
  rcases mem_append.mp hf with hGone | hLeft
  · have hLe := hi_le_reach hFront.isChain hGone
    exact Or.inl (by omega)
  · exact Or.inr ⟨f, hLeft, hEq⟩

/- Files are deleted from the front of one level. -/
theorem LevelsInv.delete {deleted} (hInv : LevelsInv c base s)
    (hDroppable : Droppable s.content deleted) :
    ∃ base', LevelsInv c base' { s with content := s.content.delete deleted } := by
  rcases hDroppable with ⟨k, hLevel, hFront⟩
  have hLevels : ∀ level, ∀ f ∈ s.content.delete deleted level, f.level = level :=
    fun level f hf => hInv.level_eq level f (mem_delete_iff.mp hf).1
  have hOther : ∀ level, level ≠ k → s.content.delete deleted level = s.content level := by
    intro level hNe
    apply delete_other
    intro d hd hEq
    exact hNe (hEq.symm.trans (hLevel d hd))
  have hSame : (∀ level, level < snapshotLevel → s.content.delete deleted level = s.content level) →
    ∃ base', LevelsInv c base' { s with content := s.content.delete deleted } :=
    fun hAll => ⟨base, hInv.congr hAll hLevels rfl rfl (Nat.le_refl _) hInv.bound⟩
  by_cases hLess : k < snapshotLevel
  · rcases hFront hLess with ⟨hFiles, hNext⟩
    rcases hFiles with rfl | ⟨rest, hRest, hSplit⟩
    · apply hSame
      intro level _
      exact delete_other (by simp)
    have hTiles := hInv.tiles k hLess
    have hLeft := delete_front hLevel hSplit hTiles
    rw [hSplit] at hTiles
    have hEnd : reach maxTXID (base k) (s.content k) =
      reach maxTXID (reach maxTXID (base k) deleted) rest := by
      rw [hSplit, reach_append]
    have hOld : s.content k ≠ [] := by
      rw [hSplit]
      simp [hRest]
    refine ⟨update base k (reach maxTXID (base k) deleted), ?_⟩
    -- the end of every level is the same as before
    have hReach : ∀ level, reach maxTXID (update base k (reach maxTXID (base k) deleted)
      level) (s.content.delete deleted level) = reach maxTXID (base level) (s.content level) := by
      intro level
      by_cases hEq : level = k
      · rw [hEq, update_self, hLeft, hEnd]
      · rw [update_of_ne hEq, hOther level hEq]
    have hNone : ∀ level, s.content.delete deleted level = [] ↔ s.content level = [] := by
      intro level
      by_cases hEq : level = k
      · rw [hEq, hLeft]
        exact iff_of_false hRest hOld
      · rw [hOther level hEq]
    constructor
    case tiles =>
      intro level hLevelLess
      dsimp only
      by_cases hEq : level = k
      · rw [hEq, update_self, hLeft]
        exact ((tiles_append _ _ _).mp hTiles).2
      · rw [update_of_ne hEq, hOther level hEq]
        exact hInv.tiles level hLevelLess
    case level_eq => exact hLevels
    case reached =>
      rw [← hInv.reached]
      exact hReach 0
    case reach_le =>
      intro level hLevelLess f hf
      exact hInv.reach_le level hLevelLess f (mem_delete_iff.mp hf).1
    case link =>
      intro level hLevelLess hSome
      dsimp only at hSome ⊢
      rw [ne_eq, hNone] at hSome ⊢
      rw [hReach (level + 1)]
      rcases hInv.link level hLevelLess hSome with ⟨hBelow, hEnds⟩
      refine ⟨hBelow, ?_⟩
      by_cases hEq : level = k
      · subst hEq
        rw [update_self, hLeft]
        rw [hSplit] at hEnds
        apply EndsAt.drop hTiles hEnds
        intro d hd
        rcases hNext hLevelLess hSome d hd with ⟨g, hg, hLe⟩
        have hUpper := hInv.tiles (level + 1) hLevelLess
        exact Nat.le_trans hLe (hi_le_reach hUpper.isChain hg)
      · rw [update_of_ne hEq, hOther level hEq]
        exact hEnds
    case cached =>
      intro hGetter level hFirst hLevelLess i hSome
      rw [hReach level]
      rw [ne_eq, hNone]
      exact hInv.cached hGetter level hFirst hLevelLess i hSome
    case uncached =>
      intro hGetter hSetter level hFirst hLevelLess hNot
      rw [hNone]
      exact hInv.uncached hGetter hSetter level hFirst hLevelLess hNot
    case unset => exact hInv.unset
    case uploaded_le => exact hInv.uploaded_le
    case bound => exact hInv.bound
  · apply hSame
    intro level hLevelLess
    apply hOther
    omega

/- The sources of a compaction go on where it ended. -/
theorem LevelsKnow.listSources {prevMaxInfo fault itr} (hInv : LevelsInv c base s)
    (hKnows : LevelsKnow c base s (.listSources c' dstLevel prevMaxInfo))
    (hList : ltxFiles s.content fault (dstLevel - 1) (TXID.next prevMaxInfo.maxTXID) = .ok itr)
    (hSources : itr.items ≠ []) :
    LevelsKnow c base s (.openSources c' dstLevel itr.items itr.items) := by
  rcases hKnows with ⟨hTask, hZero, hEnd⟩
  refine ⟨hTask, hSources, fun f hf => mem_of_mem_ltxFiles hList hf, ?_⟩
  have hInitial := ltxFiles_initial hList
  rcases hTask with ⟨_, hFirst, hLast⟩
  rcases Nat.exists_eq_succ_of_ne_zero (Nat.ne_of_gt hFirst) with ⟨k, rfl⟩
  rw [Nat.succ_sub_one] at hInitial
  have hTiles := hInv.tiles k (by omega)
  by_cases hNone : s.content (k + 1) = []
  · refine ⟨base k, ?_, fun hSome => absurd hNone hSome⟩
    rw [hZero hNone] at hInitial
    have hAll : (s.content k).filter (fun info =>
      decide (TXID.next 0 ≤ info.minTXID)) = s.content k := by
      rw [filter_eq_self]
      intro f hf
      apply decide_eq_true
      exact Nat.zero_lt_of_lt (hTiles.lt_lo hf)
    rw [hAll] at hInitial
    exact hTiles.of_initial hInitial
  · rcases hInv.link k hLast hNone with ⟨_, hEnds⟩
    have hBound : prevMaxInfo.maxTXID + 1 < TXID.bound := by
      rcases exists_hi_eq_reach maxTXID (base (k + 1)) hNone with ⟨f, hf, hEq⟩
      have hLe := hInv.reach_le (k + 1) hLast f hf
      have hPrev := hEnd hNone
      have hUploaded := hInv.uploaded_le
      have hPos := hInv.bound
      rw [Nat.succ_eq_add_one] at hPrev
      omega
    rw [TXID.next_eq hBound, hEnd hNone] at hInitial
    exact ⟨_, (tiles_filter hTiles hEnds).1.of_initial hInitial, fun _ => rfl⟩

theorem LevelsInv.writeCompacted {sources} (hInv : LevelsInv c base s)
    (hKnows : LevelsKnow c base s (.openSources c' dstLevel sources []))
    (hLevel : info.level = dstLevel) (hMin : info.minTXID = (sourceRange sources).1)
    (hMax : info.maxTXID = (sourceRange sources).2) : ∃ base', LevelsInv c base' { s.put info with
      cache :=
        if c'.cacheSetter then setCache s.cache dstLevel info else s.cache } := by
  rcases hKnows with ⟨⟨rfl, hFirst, hLast⟩, hSome, hFiles, b, hTiles, hEnd⟩
  subst hLevel
  rw [sourceRange_tiles hTiles hSome] at hMin hMax
  rcases exists_hi_eq_reach maxTXID b hSome with ⟨f, hf, hReach⟩
  have hAfter := Tiles.lt_lo hTiles hf
  have hProper := hTiles.lo_le_hi hf
  have hUploaded := hInv.reach_le (info.level - 1) (by omega) f (hFiles f hf)
  refine ⟨fun level =>
    if level = info.level ∧ s.content level = [] then b else base level, ?_⟩
  refine hInv.store rfl ?hBase hLast ?hNext ?hProper ?hSource ?hCached ?hUncached ?hUnset ?hUploaded
    ?hReached ?hPos
  case hBase =>
    intro level hKept
    rw [if_neg]
    rintro ⟨hEq, hNone⟩
    rcases hKept with hNe | hSomeFile
    · exact hNe hEq
    · exact hSomeFile hNone
  case hNext =>
    by_cases hNone : s.content info.level = []
    · rw [if_pos ⟨rfl, hNone⟩, hNone]
      exact hMin
    · rw [if_neg (fun hBoth => hNone hBoth.2), ← hEnd hNone]
      exact hMin
  case hProper => omega
  case hSource =>
    intro level hEq
    refine ⟨f, ?_, hReach.trans hMax.symm⟩
    have hBelow := hFiles f hf
    rwa [← hEq, Nat.add_sub_cancel] at hBelow
  case hCached =>
    intro hGetter level hOne i hi
    dsimp only at hi
    split at hi
    · unfold setCache at hi
      split at hi
      · rename_i hEq
        rw [Option.some.injEq] at hi
        exact Or.inl ⟨hEq, hi.symm⟩
      · rename_i hNe
        exact Or.inr ⟨hNe, hi⟩
    · rename_i hUnset
      have hNone := hInv.unset (Bool.eq_false_iff.mpr hUnset) level
      rw [hNone] at hi
      simp at hi
  case hUncached =>
    intro hSetter level hOne hNone
    dsimp only at hNone
    rw [if_pos hSetter] at hNone
    unfold setCache at hNone
    split at hNone
    · simp at hNone
    · rename_i hNe
      exact ⟨hNe, hNone⟩
  case hUnset =>
    intro hUnset level
    dsimp only
    rw [if_neg (by simp [hUnset])]
    exact hInv.unset hUnset level
  case hUploaded =>
    refine ⟨Nat.le_refl _, ?_⟩
    rw [hMax, ← hReach]
    exact hUploaded
  case hReached =>
    rw [if_neg (by omega)]
    rfl
  case hPos => exact ⟨hInv.uploaded_le, rfl⟩

theorem World.levels (hInv : LevelsInv c base s) (hWorld : World s s') : LevelsInv c base s' := by
  cases hWorld with
  | commit hBound => exact hInv.congr (fun _ _ => rfl) hInv.level_eq rfl rfl (Nat.le_succ _) hBound
  | @upload size createdAt hNext =>
    refine hInv.store rfl ?hBase ?hLess ?hNext ?hProper ?hSource ?hCached ?hUncached ?hUnset
      ?hUploaded ?hReached ?hPos
    case hBase => exact fun _ _ => rfl
    case hLess => exact (by decide : 0 < snapshotLevel)
    case hNext =>
      rw [hInv.reached]
    case hProper => exact Nat.le_refl _
    case hSource => simp
    case hCached =>
      intro _ level hFirst i hi
      exact Or.inr ⟨Nat.ne_of_gt hFirst, hi⟩
    case hUncached =>
      intro _ level hFirst hNone
      exact ⟨Nat.ne_of_gt hFirst, hNone⟩
    case hUnset => exact hInv.unset
    case hUploaded => exact ⟨Nat.le_succ _, Nat.le_refl _⟩
    case hReached => exact rfl
    case hPos => exact ⟨hNext, rfl⟩

end Steps

end Retention

end Replicate
