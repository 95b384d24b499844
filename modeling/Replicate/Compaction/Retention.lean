import Mathlib.Data.List.Induction
import Mathlib.Data.List.Infix
import Replicate.Compaction.Compact
import Replicate.Lib.Interleaving

/-
  Retention, and the operations it runs alongside.

  `EnforceSnapshotRetention`, `EnforceRetentionByTXID` and
  `EnforceL0Retention` list a level, choose files and
  delete them. Between their calls of the replica client,
  uploads, snapshots, compactions and other retention runs
  go on, so each operation is a `Task` that makes one call
  after the other.

  The variants of these functions in `DB` and `Compactor`
  differ in the files' local modification time, which only
  `DB` consults.
-/

-- Choosing The Files To Delete

namespace Replicate

open List

namespace Retention

/-
  The newest listed file is kept: it is taken off the end
  of the files to delete.
-/
def keepLast (lastInfo : Option FileInfo) (deleted : List FileInfo) : List FileInfo :=
  if deleted ≠ [] ∧ deleted.getLast? = lastInfo then deleted.dropLast else deleted

/-
  The loop of `EnforceSnapshotRetention`: the snapshots
  before the timestamp, and the lowest TXID of the others,
  zero without any.
-/
def scanSnapshots (timestamp : Int) (items : List FileInfo) : List FileInfo × Nat :=
  items.foldl (fun (r : List FileInfo × Nat) info =>
    if info.createdAt < timestamp then (r.1 ++ [info], r.2)
    else (r.1, if r.2 = 0 ∨ info.maxTXID < r.2 then info.maxTXID else r.2))
    ([], 0)

/- The snapshots that `EnforceSnapshotRetention` deletes. -/
def expiredSnapshots (timestamp : Int) (items : List FileInfo) : List FileInfo :=
  keepLast items.getLast? (scanSnapshots timestamp items).1

/- The `minSnapshotTXID` of `EnforceSnapshotRetention`. -/
def minSnapshotTXID (timestamp : Int) (items : List FileInfo) : Nat :=
  (scanSnapshots timestamp items).2

/- The files that `EnforceRetentionByTXID` deletes. -/
def expiredByTXID (txID : Nat) (items : List FileInfo) : List FileInfo :=
  keepLast items.getLast? (items.filter (fun info => decide (info.maxTXID < txID)))

/- The `maxL1TXID` of `EnforceL0Retention`. -/
def maxL1TXID (items : List FileInfo) : Nat :=
  items.foldl (fun txID info =>
    if txID < info.maxTXID then info.maxTXID else txID)
    0

/-
  The time of an L0 file. One without a time counts with
  its local modification time, or with the threshold.
-/
def l0CreatedAt (threshold : Int) (modTime : FileInfo → Option Int) (info : FileInfo) : Int :=
  if info.createdAt = 0 then (modTime info).getD threshold else info.createdAt

/-
  The loop of `EnforceL0Retention`, which stops at the
  first file after the threshold. The flag is
  `processedAll`.
-/
def scanL0 (maxL1 : Nat) (threshold : Int) (modTime : FileInfo → Option Int) :
    List FileInfo → List FileInfo × Bool
| [] => ([], true)
| info :: items =>
  if threshold < l0CreatedAt threshold modTime info then ([], false)
  else
    let r := scanL0 maxL1 threshold modTime items
    (if info.maxTXID ≤ maxL1 then info :: r.1 else r.1, r.2)

/- The files that `EnforceL0Retention` deletes. -/
def expiredL0 (maxL1 : Nat) (threshold : Int) (modTime : FileInfo → Option Int)
    (items : List FileInfo) : List FileInfo :=
  let r := scanL0 maxL1 threshold modTime items
  if r.2 then keepLast items.getLast? r.1 else r.1

-- What Is Chosen

section Choice

variable {items : List FileInfo} {f : FileInfo}
variable {maxL1 : Nat} {threshold : Int} {modTime : FileInfo → Option Int}

theorem mem_keepLast_filter {p} (hMem : f ∈ keepLast items.getLast? (items.filter p)) :
    f ∈ items.dropLast ∧ p f = true := by
  rcases eq_nil_or_concat items with rfl | ⟨init, last, rfl⟩
  · simp [keepLast] at hMem
  rw [concat_eq_append] at hMem ⊢
  rw [dropLast_concat]
  rw [filter_append] at hMem
  have hInit : ∀ g ∈ init.filter p, g ∈ init ∧ p g = true := fun g hg => mem_filter.mp hg
  cases hLast : p last with
  | true =>
    simp [keepLast, hLast] at hMem
    exact hMem
  | false =>
    have hNone : [last].filter p = [] := by simp [hLast]
    rw [hNone, append_nil] at hMem
    unfold keepLast at hMem
    split at hMem
    · exact hInit f (mem_of_mem_dropLast hMem)
    · exact hInit f hMem

theorem scanSnapshots_append_singleton (timestamp : Int) (items : List FileInfo) (info : FileInfo) :
    scanSnapshots timestamp (items ++ [info]) = if info.createdAt < timestamp then
      ((scanSnapshots timestamp items).1 ++ [info], (scanSnapshots timestamp items).2)
      else
        ((scanSnapshots timestamp items).1,
          if (scanSnapshots timestamp items).2 = 0 ∨ info.maxTXID <
            (scanSnapshots timestamp items).2 then info.maxTXID
          else (scanSnapshots timestamp items).2) := by
  unfold scanSnapshots
  rw [foldl_append]
  rfl

theorem scanSnapshots_fst (timestamp : Int) (items : List FileInfo) :
    (scanSnapshots timestamp items).1 = items.filter
      (fun info => decide (info.createdAt < timestamp)) := by
  induction items using reverseRecOn with
  | nil => rfl
  | append_singleton items info ih =>
    rw [scanSnapshots_append_singleton, filter_append]
    split
    · rename_i hOld
      simp [hOld, ih]
    · rename_i hKept
      simp [hKept, ih]

theorem expiredSnapshots_below {timestamp : Int}
    (hSorted : items.Pairwise (fun f g => f.maxTXID < g.maxTXID))
    (hMem : f ∈ expiredSnapshots timestamp items) : ∃ g ∈ items, f.maxTXID < g.maxTXID := by
  unfold expiredSnapshots at hMem
  rw [scanSnapshots_fst] at hMem
  have hFront := (mem_keepLast_filter hMem).1
  rcases eq_nil_or_concat items with rfl | ⟨init, last, rfl⟩
  · simp at hFront
  rw [concat_eq_append] at hFront hSorted
  rw [dropLast_concat] at hFront
  refine ⟨last, by simp, ?_⟩
  exact (pairwise_append.mp hSorted).2.2 f hFront last mem_cons_self

theorem minSnapshotTXID_eq (timestamp : Int) (items : List FileInfo) :
    minSnapshotTXID timestamp items = 0 ∨ ∃ g ∈ items,
      g.maxTXID = minSnapshotTXID timestamp items := by
  unfold minSnapshotTXID
  induction items using reverseRecOn with
  | nil => exact Or.inl rfl
  | append_singleton items info ih =>
    have hOld : (scanSnapshots timestamp items).2 = 0 ∨ ∃ g ∈ items ++ [info],
      g.maxTXID = (scanSnapshots timestamp items).2 := by
      rcases ih with hZero | ⟨g, hg, hEq⟩
      · exact Or.inl hZero
      · exact Or.inr ⟨g, mem_append_left _ hg, hEq⟩
    rw [scanSnapshots_append_singleton]
    split
    · exact hOld
    dsimp only
    split
    · exact Or.inr ⟨info, by simp, rfl⟩
    · exact hOld

theorem expiredByTXID_lt {txID : Nat} (hMem : f ∈ expiredByTXID txID items) :
    f ∈ items ∧ f.maxTXID < txID := by
  rcases mem_keepLast_filter hMem with ⟨hFront, hLess⟩
  exact ⟨mem_of_mem_dropLast hFront, of_decide_eq_true hLess⟩

theorem scanL0_le (hMem : f ∈ (scanL0 maxL1 threshold modTime items).1) :
    f ∈ items ∧ f.maxTXID ≤ maxL1 := by
  induction items with
  | nil => simp [scanL0] at hMem
  | cons info items ih =>
    have hLater : f ∈ (scanL0 maxL1 threshold modTime items).1 →
      f ∈ info :: items ∧ f.maxTXID ≤ maxL1 :=
      fun hRest => ⟨mem_cons_of_mem info (ih hRest).1, (ih hRest).2⟩
    simp only [scanL0] at hMem
    split at hMem
    · simp at hMem
    dsimp only at hMem
    split at hMem
    · rename_i hLe
      rcases mem_cons.mp hMem with rfl | hRest
      · exact ⟨mem_cons_self, hLe⟩
      · exact hLater hRest
    · exact hLater hMem

theorem expiredL0_le (hMem : f ∈ expiredL0 maxL1 threshold modTime items) :
    f ∈ items ∧ f.maxTXID ≤ maxL1 := by
  unfold expiredL0 at hMem
  apply scanL0_le
  dsimp only at hMem
  split at hMem
  · unfold keepLast at hMem
    split at hMem
    · exact mem_of_mem_dropLast hMem
    · exact hMem
  · exact hMem

theorem scanL0_sublist (maxL1 : Nat) (threshold : Int) (modTime : FileInfo → Option Int)
    (items : List FileInfo) : (scanL0 maxL1 threshold modTime items).1.Sublist items := by
  induction items with
  | nil => exact Sublist.refl []
  | cons info items ih =>
    simp only [scanL0]
    split
    · exact nil_sublist _
    dsimp only
    split
    · exact ih.cons_cons info
    · exact ih.cons info

theorem scanL0_stopped (hSorted : items.Pairwise (fun f g => f.maxTXID < g.maxTXID))
    (hStop : (scanL0 maxL1 threshold modTime items).2 = false) :
    ∃ g ∈ items, ∀ f ∈ (scanL0 maxL1 threshold modTime items).1, f.maxTXID < g.maxTXID := by
  induction items with
  | nil => simp [scanL0] at hStop
  | cons info items ih =>
    rcases pairwise_cons.mp hSorted with ⟨hFirst, hRest⟩
    simp only [scanL0] at hStop ⊢
    split at hStop
    · rename_i hRecent
      rw [if_pos hRecent]
      exact ⟨info, mem_cons_self, by simp⟩
    rename_i hOld
    rw [if_neg hOld]
    rcases ih hRest hStop with ⟨g, hg, hLater⟩
    refine ⟨g, mem_cons_of_mem info hg, ?_⟩
    intro f hf
    split at hf
    · rcases mem_cons.mp hf with rfl | hRestMem
      · exact hFirst g hg
      · exact hLater f hRestMem
    · exact hLater f hf

/- The last listed file is kept. -/
theorem exists_gt_of_mem_keepLast {deleted}
    (hSorted : items.Pairwise (fun f g => f.maxTXID < g.maxTXID)) (hSub : deleted.Sublist items)
    (hMem : f ∈ keepLast items.getLast? deleted) : ∃ g ∈ items, f.maxTXID < g.maxTXID := by
  have hKept : f ∈ deleted := by
    unfold keepLast at hMem
    split at hMem
    · exact mem_of_mem_dropLast hMem
    · exact hMem
  rcases eq_nil_or_concat items with rfl | ⟨init, last, rfl⟩
  · rw [sublist_nil.mp hSub] at hKept
    simp at hKept
  rw [concat_eq_append] at hSorted hSub hMem ⊢
  have hBefore : ∀ x ∈ init, x.maxTXID < last.maxTXID := by
    intro x hx
    exact (pairwise_append.mp hSorted).2.2 x hx last (mem_singleton.mpr rfl)
  have hListed : ∀ x ∈ deleted, x ∈ init ∨ x = last := by
    intro x hx
    rcases mem_append.mp (hSub.subset hx) with hInit | hLast
    · exact Or.inl hInit
    · exact Or.inr (mem_singleton.mp hLast)
  refine ⟨last, by simp, ?_⟩
  rcases hListed f hKept with hInit | rfl
  · exact hBefore f hInit
  -- the last file itself is never chosen for deletion
  · exfalso
    have hOrder := hSorted.sublist hSub
    rcases eq_nil_or_concat deleted with rfl | ⟨front, e, rfl⟩
    · simp at hKept
    rw [concat_eq_append] at *
    rw [pairwise_append] at hOrder
    by_cases hEq : e = f
    · subst hEq
      simp [keepLast] at hMem
      have hLess := hOrder.2.2 e hMem e (by simp)
      omega
    have hFront : f ∈ front := by
      rcases mem_append.mp hKept with hIn | hLast
      · exact hIn
      · exact absurd (mem_singleton.mp hLast).symm hEq
    have hLess := hOrder.2.2 f hFront e (by simp)
    rcases hListed e (by simp) with hInit | hLast
    · have hMore := hBefore e hInit
      omega
    · exact hEq hLast

theorem expiredL0_lt (hSorted : items.Pairwise (fun f g => f.maxTXID < g.maxTXID))
    (hMem : f ∈ expiredL0 maxL1 threshold modTime items) : ∃ g ∈ items, f.maxTXID < g.maxTXID := by
  unfold expiredL0 at hMem
  dsimp only at hMem
  split at hMem
  · exact exists_gt_of_mem_keepLast hSorted (scanL0_sublist maxL1 threshold modTime items) hMem
  · rename_i hStop
    rcases scanL0_stopped hSorted (Bool.eq_false_iff.mpr hStop) with ⟨g, hg, hLater⟩
    exact ⟨g, hg, hLater f hMem⟩

theorem maxL1TXID_eq (items : List FileInfo) : maxL1TXID items = 0 ∨
    ∃ g ∈ items, maxL1TXID items = g.maxTXID := by
  apply Traversal.foldl_eq_or_mem
  intro txID info
  split
  · exact Or.inr rfl
  · exact Or.inl rfl

end Choice

-- The Shared State

/-
  The replica's files, the cached max-file infos, the
  position of the local database and the last transaction
  uploaded to level 0. The greatest TXID of any file that
  was ever stored is recorded as well.
-/
structure Shared where
  content : Content
  cache : Nat → Option FileInfo
  pos : Nat
  uploaded : Nat
  greatest : Nat

/- An empty replica. -/
def Shared.empty : Shared where
  content _ := []
  cache _ := none
  pos := 0
  uploaded := 0
  greatest := 0

/- Store a file. -/
def Shared.put (s : Shared) (info : FileInfo) : Shared :=
  { s with
    content := s.content.put info.level info
    greatest := max s.greatest info.maxTXID }

/-
  What happens besides the operations below: the database
  moves to its next position, and the replica uploads the
  next transaction. TXIDs are `uint64` values, and no run
  gets to the last of them.
-/
inductive World : Shared → Shared → Prop where
  | commit {s} (hBound : s.pos + 2 < TXID.bound) : World s { s with pos := s.pos + 1 }
  | upload {s size createdAt} (hNext : s.uploaded < s.pos) :
    World s { s.put ⟨0, s.uploaded + 1, s.uploaded + 1, size, createdAt⟩ with
      uploaded := s.uploaded + 1 }

-- Operations

/-
  An operation, at the point of its next call. `Snapshot`
  labels its file with the position it read first. Snapshot
  retention goes on with the levels that are left, and a
  deletion is the same call in both.
-/
inductive Task where
  | compact (c : Compactor) (dstLevel : Nat)
  | listSources (c : Compactor) (dstLevel : Nat) (prevMaxInfo : FileInfo)
  | openSources (c : Compactor) (dstLevel : Nat) (sources unopened : List FileInfo)
  | snapshot
  | writeSnapshot (txID : Nat)
  | l0Retention (enabled : Bool) (retention : Int)
  | listL0 (enabled : Bool) (retention : Int) (maxL1 : Nat)
  | deleteL0 (deleted : List FileInfo)
  | snapshotRetention (enabled : Bool) (retention : Int) (levels : List Nat)
  | levelRetention (enabled : Bool) (txID : Nat) (levels : List Nat)
  | deleteLevel (deleted : List FileInfo) (txID : Nat) (levels : List Nat)

/-
  The operations as they begin. Compactions are those of
  the levels 1 to 8, and L0 retention returns at once for a
  retention that is not positive.
-/
inductive Task.Starts : Task → Prop where
  | compact {c dstLevel} (hFirst : 1 ≤ dstLevel) (hLast : dstLevel < snapshotLevel)
    (hAllowed : ¬ (c.requireEncryption = true ∧ c.ageRecipients = [])) :
    Starts (.compact c dstLevel)
  | snapshot : Starts .snapshot
  | l0Retention {enabled retention} (hPos : 0 < retention) : Starts (.l0Retention enabled retention)
  | snapshotRetention {enabled retention levels} :
    Starts (.snapshotRetention enabled retention levels)

/- What follows once the files to delete are known. -/
def Task.deleteNext (enabled : Bool) (deleted : List FileInfo) (txID : Nat)
    (levels : List Nat) : Task :=
  if enabled then .deleteLevel deleted txID levels else .levelRetention enabled txID levels

/-
  One call of an operation. An operation returns when a
  call fails, which changes nothing in the replica, or when
  nothing is left to do. Only a lookup that fails at the
  end of its listing has filled the cache by then. Whether
  a source opens is left open: a file deleted from the
  replica can still be there locally.
-/
inductive Task.Call : Shared → Task → Shared → Option Task → Prop where
  | lookup {s c dstLevel fault info cache}
    (hLookup : c.maxLTXFileInfo fault s.content s.cache dstLevel = (.ok info, cache)) :
    Call s (.compact c dstLevel) { s with cache := cache } (some (.listSources c dstLevel info))
  | lookupFailed {s c dstLevel fault err cache}
    (hLookup : c.maxLTXFileInfo fault s.content s.cache dstLevel = (.error err, cache)) :
    Call s (.compact c dstLevel) { s with cache := cache } none
  | listSources {s c dstLevel prevMaxInfo fault itr}
    (hList : ltxFiles s.content fault (dstLevel - 1) (TXID.next prevMaxInfo.maxTXID) = .ok itr)
    (hSources : itr.items ≠ []) :
    Call s (.listSources c dstLevel prevMaxInfo) s
      (some (.openSources c dstLevel itr.items itr.items))
  | openSource {s c dstLevel f sources unopened} :
    Call s (.openSources c dstLevel sources (f :: unopened))
      s (some (.openSources c dstLevel sources unopened))
  | writeCompacted {s c dstLevel sources info} (hLevel : info.level = dstLevel)
    (hMin : info.minTXID = (Compactor.sourceRange sources).1)
    (hMax : info.maxTXID = (Compactor.sourceRange sources).2) :
    Call s (.openSources c dstLevel sources []) { s.put info with
      cache := if c.cacheSetter then Compactor.setCache s.cache dstLevel info else s.cache }
      none
  | readPos {s} : Call s .snapshot s (some (.writeSnapshot s.pos))
  | writeSnapshot {s txID size createdAt}
    -- the LTX header of position zero is refused
    (hPos : 1 ≤ txID) :
    Call s (.writeSnapshot txID) (s.put ⟨snapshotLevel, 1, txID, size, createdAt⟩) none
  | listL1 {s enabled retention fault itr} (hList : ltxFiles s.content fault 1 0 = .ok itr)
    (hClose : itr.err = none) (hSome : maxL1TXID itr.items ≠ 0) :
    Call s (.l0Retention enabled retention) s (some (.listL0 enabled retention
      (maxL1TXID itr.items)))
  | listL0 {s retention now modTime maxL1 fault itr}
    (hList : ltxFiles s.content fault 0 0 = .ok itr) :
    Call s (.listL0 true retention maxL1) s (some (.deleteL0
      (expiredL0 maxL1 (now - retention) modTime itr.items)))
  | deleteL0 {s deleted} : Call s (.deleteL0 deleted)
    { s with content := s.content.delete deleted } none
  | listSnapshots {s enabled retention now levels fault itr}
    (hList : ltxFiles s.content fault snapshotLevel 0 = .ok itr) :
    Call s (.snapshotRetention enabled retention levels) s
      (some (deleteNext enabled (expiredSnapshots (now - retention) itr.items)
        (minSnapshotTXID (now - retention) itr.items)
        levels))
  | listLevel {s enabled txID level levels fault itr}
    (hList : ltxFiles s.content fault level 0 = .ok itr) :
    Call s (.levelRetention enabled txID (level :: levels)) s
      (some (deleteNext enabled (expiredByTXID txID itr.items) txID levels))
  | deleteLevel {s deleted txID levels} :
    Call s (.deleteLevel deleted txID levels) { s with content := s.content.delete deleted }
      (some (.levelRetention true txID levels))
  | returns {s task} : Call s task s none

/- The replica with everything that runs on it. -/
def replicaSystem : Interleaving.System Shared Task where
  world := World
  starts := Task.Starts
  call := Task.Call

end Retention

end Replicate
