import Replicate.Restore.SegmentsV3

/-
  What the choice between the two backup formats loses.

  The choice compares the newest files of the formats, or
  for a timestamp their best snapshots. A restore applies
  other files: a plan from level 0 needs no snapshot, and a
  WAL segment of another generation is never applied.

  Main declarations:
    * `Replicate.Content.applied`, `Replicate.ContentV3.applied`
    * `Replicate.Decided`
    * `Replicate.format_choice_keeps_newest`
-/

namespace Replicate

open RestoreLevelCursor Content List

-- What A Restore Applies

/- The v0.3.x files of a replica, all of them listed. -/
structure ContentV3 where
  generations : List String
  snapshots : String → List SnapshotInfoV3
  walSegments : String → List WALSegmentInfoV3
  generation_eq : ∀ gen, ∀ snap ∈ snapshots gen, snap.generation = gen

/- The files of the plan by their times. -/
def Content.applied (content : Content) (timestamp : Int) : Option (List Int) :=
  match calcRestorePlan content.listing 0 timestamp with
  | .ok plan => some (plan.map FileInfo.createdAt)
  | .error _ => none

def Content.times (content : Content) : List Int :=
  (List.range (snapshotLevel + 1)).reverse.flatMap fun level =>
    (content level).map FileInfo.createdAt

/- The snapshot that the choice looks at for a timestamp. -/
def Content.best (content : Content) (timestamp : Int) : Option FileInfo :=
  ((content snapshotLevel).filter fun info => decide (info.createdAt < timestamp)).getLast?

namespace ContentV3

def client (v3 : ContentV3) : ClientV3 :=
  ⟨.ok v3.generations, fun gen => .ok (v3.snapshots gen), fun gen => .ok (v3.walSegments gen)⟩

/- The snapshot and the segments. A first segment that cannot be written ends the restore. -/
def applied (v3 : ContentV3) (timestamp : Int) : Option (List Int) :=
  match selectSnapshotV3 v3.client timestamp with
  | .error _ => none
  | .ok snap =>
    let kept := filterWALSegmentsV3 (v3.walSegments snap.generation) snap.index timestamp
    if kept.head?.any (fun seg => seg.offset ≠ 0) then none
    else some (snap.createdAt :: kept.map WALSegmentInfoV3.createdAt)

def times (v3 : ContentV3) : List Int :=
  v3.generations.flatMap fun gen =>
    (v3.snapshots gen).map SnapshotInfoV3.createdAt ++
      (v3.walSegments gen).map WALSegmentInfoV3.createdAt

def best (v3 : ContentV3) (timestamp : Int) : Option SnapshotInfoV3 :=
  findBestSnapshotV3 (sortSnapshotsV3ByCreatedAt (v3.generations.map v3.snapshots).flatten)
    timestamp

end ContentV3

/- The time of the newest change, if there is a restorable state. -/
def lastOf (applied : Option (List Int)) : Option Int :=
  applied.bind max?

/- The chosen format has a state, and the other one no newer change. -/
def KeepsNewest (a b : Option Int) (useV3 : Bool) : Prop :=
  if useV3 then ∃ y ∈ b, ∀ x ∈ a, x ≤ y else ∀ y ∈ b, ∃ x ∈ a, y ≤ x

theorem mem_lastOf_iff {applied} {t : Int} :
    t ∈ lastOf applied ↔ ∃ ts, applied = some ts ∧ t ∈ ts ∧ ∀ x ∈ ts, x ≤ t := by
  cases applied with
  | none => simp [lastOf]
  | some ts => simp [lastOf, max?_eq_some_iff]

theorem exists_le_lastOf {applied ts} {t : Int} (hSome : applied = some ts) (hMem : t ∈ ts) :
    ∃ x ∈ lastOf applied, t ≤ x := by
  cases hMax : ts.max? with
  | none =>
    rw [max?_eq_none_iff.mp hMax] at hMem
    cases hMem
  | some x =>
    refine ⟨x, ?_, (max?_eq_some_iff.mp hMax).2 t hMem⟩
    rw [hSome]
    exact hMax

-- What The Choice Compares

/- The later bound is the newest of the times. -/
theorem foldl_widen {ts} (hNonempty : ts ≠ []) (hPos : ∀ t ∈ ts, 0 < t) :
    (∀ t ∈ ts, t ≤ (ts.foldl widen (0, 0)).2) ∧ (ts.foldl widen (0, 0)).2 ∈ ts := by
  induction ts using reverseRecOn with
  | nil => exact absurd rfl hNonempty
  | append_singleton ts t ih =>
    have hLast := hPos t (by simp)
    have hStep : ((ts ++ [t]).foldl widen (0, 0)).2 =
        let u := (ts.foldl widen (0, 0)).2
        if u = 0 ∨ u < t then t else u := by
      rw [foldl_append]
      rfl
    rw [hStep]
    by_cases hNil : ts = []
    · subst hNil
      simp
    rcases ih hNil (fun x hx => hPos x (mem_append_left _ hx)) with ⟨hBound, hMem⟩
    have hOld := hPos _ (mem_append_left _ hMem)
    generalize (ts.foldl widen (0, 0)).2 = u at hBound hMem hOld
    dsimp only
    split <;> grind

variable {content : Content} {v3 : ContentV3} {timestamp : Int}

theorem timeBounds_listing :
    timeBounds content.listing = .ok (content.times.foldl widen (0, 0)) := by
  unfold timeBounds Content.times
  generalize ((0 : Int), (0 : Int)) = bounds
  induction (List.range (snapshotLevel + 1)).reverse generalizing bounds with
  | nil => rfl
  | cons level levels ih =>
    rw [foldlM_cons, flatMap_cons, foldl_append, foldl_map, ← ih]
    rfl

theorem timeBoundsV3_client : timeBoundsV3 v3.client = .ok (v3.times.foldl widen (0, 0)) := by
  show v3.generations.foldlM _ _ = _
  unfold ContentV3.times
  generalize ((0 : Int), (0 : Int)) = bounds
  induction v3.generations generalizing bounds with
  | nil => rfl
  | cons gen gens ih =>
    rw [foldlM_cons, flatMap_cons, foldl_append, foldl_append, foldl_map, foldl_map, ← ih]
    rfl

theorem allSnapshotsV3_client (describe : String → String) :
    allSnapshotsV3 v3.client v3.generations describe =
      .ok (sortSnapshotsV3ByCreatedAt (v3.generations.map v3.snapshots).flatten) := by
  show mapM (fun gen => pure (v3.snapshots gen)) _ >>= _ = _
  rw [mapM_pure]
  rfl

theorem selectSnapshotV3_client : selectSnapshotV3 v3.client timestamp =
    match v3.best timestamp with
    | none => .error (.sentinel .noSnapshots)
    | some snap => .ok snap := by
  have hGenerations : v3.client.generations = .ok v3.generations := rfl
  unfold selectSnapshotV3
  rw [hGenerations]
  dsimp only
  rw [allSnapshotsV3_client]
  rfl

/- The newest times of the formats. -/
def Content.updatedAt (content : Content) : Int := (content.times.foldl widen (0, 0)).2

def ContentV3.updatedAt (v3 : ContentV3) : Int := (v3.times.foldl widen (0, 0)).2

theorem shouldUseV3Restore_eq :
    shouldUseV3Restore v3.client content.listing v3.client (content.listing snapshotLevel)
      timestamp = .ok (
        if v3.updatedAt = 0 then false else if content.updatedAt = 0 then true
        else if timestamp ≠ 0 then
          match v3.best timestamp, content.best timestamp with
          | none, _ => false
          | some _, none => true
          | some snap, some info => decide (info.createdAt < snap.createdAt)
        else decide (content.updatedAt < v3.updatedAt)) := by
  have hBest : findBestV3SnapshotForTimestamp v3.client timestamp = .ok (v3.best timestamp) := by
    unfold findBestV3SnapshotForTimestamp
    show allSnapshotsV3 v3.client v3.generations _ >>= _ = _
    rw [allSnapshotsV3_client]
    rfl
  have hBestLTX : findBestLTXSnapshotForTimestamp (content.listing snapshotLevel) timestamp =
    .ok (content.best timestamp) := rfl
  unfold shouldUseV3Restore
  rw [timeBoundsV3_client, timeBounds_listing, hBest, hBestLTX]
  show (if v3.updatedAt = 0 then _ else if content.updatedAt = 0 then _ else _) = _
  split
  · rfl
  split
  · rfl
  · split
    · cases v3.best timestamp <;> cases content.best timestamp <;> rfl
    · rfl

-- What Is Applied

theorem findSnapshot_eq_best (hTime : timestamp ≠ 0) :
    findSnapshot 0 timestamp (content snapshotLevel) = content.best timestamp := by
  unfold Content.best
  induction content snapshotLevel using reverseRecOn with
  | nil => rfl
  | append_singleton items info ih =>
    rw [findSnapshot_append_singleton, ih, filter_append]
    by_cases hBefore : info.createdAt < timestamp
    · simp [Eligible, hBefore]
    · simp [Eligible, hBefore, hTime]

/- A plan has listed files only, and begins with the best snapshot. -/
theorem applied_mem_times (hSorted : content.listing.Sorted) {ts}
    (hApplied : content.applied timestamp = some ts) : (∀ t ∈ ts, t ∈ content.times) ∧
      (timestamp ≠ 0 → ∀ info ∈ content.best timestamp, info.createdAt ∈ ts) := by
  unfold Content.applied at hApplied
  split at hApplied
  · rename_i plan hPlan
    cases hApplied
    rcases calcRestorePlan_ok hSorted hPlan with ⟨itr, ext, s, hItr, hPlanned, _, rfl, _⟩
    cases hItr
    constructor
    · intro t hMem
      rcases mem_map.mp hMem with ⟨f, hf, rfl⟩
      rcases (mem_infos_of_planned hPlanned hf).1 with ⟨level, hLevel, hListed⟩
      exact mem_flatMap.mpr ⟨level, by simpa using Nat.lt_succ_of_le hLevel, mem_map_of_mem hListed⟩
    · intro hTime info hBest
      apply mem_map_of_mem
      rw [hPlanned.infos_eq, startPlan, findSnapshot_eq_best hTime, hBest]
      exact mem_cons_self
  · cases hApplied

theorem mem_exchangePass {front snap rest}
    (hMem : snap = (exchangePass front rest).1 ∨ snap ∈ (exchangePass front rest).2) :
    snap = front ∨ snap ∈ rest := by
  induction rest generalizing front with
  | nil => simpa [exchangePass] using hMem
  | cons next rest ih =>
    unfold exchangePass at hMem
    split at hMem <;> grind

theorem mem_exchangeSort {snap} {n : Nat} {snapshots} (hMem : snap ∈ exchangeSort n snapshots) :
    snap ∈ snapshots := by
  induction n generalizing snapshots with
  | zero => simpa [exchangeSort] using hMem
  | succ n ih =>
    cases snapshots with
    | nil => cases hMem
    | cons front rest =>
      rcases mem_cons.mp hMem with hFirst | hLater
      · exact mem_cons.mpr (mem_exchangePass (Or.inl hFirst))
      · exact mem_cons.mpr (mem_exchangePass (Or.inr (ih hLater)))

theorem ContentV3.best_mem {snap} (hBest : snap ∈ v3.best timestamp) :
    snap.generation ∈ v3.generations ∧ snap ∈ v3.snapshots snap.generation := by
  have hMem : snap ∈ (v3.generations.map v3.snapshots).flatten := by
    apply mem_exchangeSort
    unfold ContentV3.best findBestSnapshotV3 at hBest
    split at hBest
    · exact mem_of_getLast? hBest
    · exact mem_reverse.mp (mem_of_find?_eq_some hBest)
  rcases mem_flatten.mp hMem with ⟨_, hList, hSnap⟩
  rcases mem_map.mp hList with ⟨gen, hGen, rfl⟩
  rw [v3.generation_eq gen snap hSnap]
  exact ⟨hGen, hSnap⟩

/- A v0.3.x restore applies listed files only, the best snapshot first. -/
theorem appliedV3_mem_times {ts} (hApplied : v3.applied timestamp = some ts) :
    (∀ t ∈ ts, t ∈ v3.times) ∧ ∀ snap ∈ v3.best timestamp, snap.createdAt ∈ ts := by
  unfold ContentV3.applied at hApplied
  rw [selectSnapshotV3_client] at hApplied
  cases hBest : v3.best timestamp with
  | none => simp [hBest] at hApplied
  | some snap =>
    simp only [hBest] at hApplied
    split at hApplied
    · cases hApplied
    cases hApplied
    rcases ContentV3.best_mem hBest with ⟨hGen, hSnap⟩
    constructor
    · intro t hMem
      refine mem_flatMap.mpr ⟨snap.generation, hGen, ?_⟩
      rcases mem_cons.mp hMem with rfl | hSegment
      · exact mem_append_left _ (mem_map_of_mem hSnap)
      · rcases mem_map.mp hSegment with ⟨seg, hSeg, rfl⟩
        exact mem_append_right _ (mem_map_of_mem (mem_of_mem_filter hSeg))
    · rintro _ ⟨⟩
      exact mem_cons_self

-- The Choice

/-
  Without a timestamp, one restore applies a file that no
  file of the other format is newer than. With one, the
  format with the later best snapshot has a state, and the
  other one nothing that is newer than that snapshot.
-/
def Decided (content : Content) (v3 : ContentV3) (timestamp : Int) : Prop :=
  if timestamp = 0 then
    (∃ xs ∈ content.applied 0, ∃ x ∈ xs, ∀ y ∈ v3.times, y ≤ x) ∨
      ∃ ys ∈ v3.applied 0, ∃ y ∈ ys, ∀ x ∈ content.times, x < y
  else
    ∀ snap ∈ v3.best timestamp,
      ((∀ info ∈ content.best timestamp, info.createdAt < snap.createdAt) →
        v3.applied timestamp ≠ none ∧
          ∀ xs ∈ content.applied timestamp, ∀ x ∈ xs, x ≤ snap.createdAt) ∧
      ∀ info ∈ content.best timestamp, snap.createdAt ≤ info.createdAt →
        content.applied timestamp ≠ none ∧ ∀ ys ∈ v3.applied timestamp, ∀ y ∈ ys, y ≤ info.createdAt

theorem keepsNewest_true {a b} (hLater : ∃ ys ∈ b, ∃ y ∈ ys,
    ∀ xs ∈ a, ∀ x ∈ xs, x ≤ y) : KeepsNewest (lastOf a) (lastOf b) true := by
  rcases hLater with ⟨ys, hSome, y, hMem, hLater⟩
  rcases exists_le_lastOf hSome hMem with ⟨m, hMax, hLe⟩
  refine ⟨m, hMax, ?_⟩
  intro x hx
  rcases mem_lastOf_iff.mp hx with ⟨xs, hIs, hIn, _⟩
  exact Int.le_trans (hLater xs hIs x hIn) hLe

theorem keepsNewest_false {a b} (hLater : ∀ ys ∈ b, ∃ xs ∈ a, ∃ x ∈ xs,
    ∀ y ∈ ys, y ≤ x) : KeepsNewest (lastOf a) (lastOf b) false := by
  intro y hy
  rcases mem_lastOf_iff.mp hy with ⟨ys, hIs, hIn, _⟩
  rcases hLater ys hIs with ⟨xs, hSome, x, hMem, hLe⟩
  rcases exists_le_lastOf hSome hMem with ⟨m, hMax, hMaxLe⟩
  exact ⟨m, hMax, Int.le_trans (hLe y hIn) hMaxLe⟩

theorem format_choice_keeps_newest
    (content : Content)
    (v3 : ContentV3)
    (timestamp : Int)
    (useV3 : Bool)
    (hSorted : content.listing.Sorted)
    (hLTX : content.times ≠ [])
    (hV3 : v3.times ≠ [])
    (hDated : ∀ t ∈ content.times ++ v3.times, 0 < t)
    (hDecided : Decided content v3 timestamp)
    (hChoice :
      shouldUseV3Restore v3.client content.listing v3.client
        (content.listing snapshotLevel) timestamp =
        .ok useV3) :
    KeepsNewest (lastOf (content.applied timestamp))
      (lastOf (v3.applied timestamp)) useV3 := by
  obtain ⟨hNewest, hListed⟩ := foldl_widen hLTX (fun t ht => hDated t (mem_append_left _ ht))
  obtain ⟨hNewestV3, hListedV3⟩ :=
    foldl_widen hV3 (fun t ht => hDated t (mem_append_right _ ht))
  have hPos : 0 < content.updatedAt := hDated _ (mem_append_left _ hListed)
  have hPosV3 : 0 < v3.updatedAt := hDated _ (mem_append_right _ hListedV3)
  rw [shouldUseV3Restore_eq, if_neg (Int.ne_of_gt hPosV3), if_neg (Int.ne_of_gt hPos),
    Except.ok.injEq] at hChoice
  subst hChoice
  by_cases hTime : timestamp = 0
  · subst hTime
    rw [if_neg (not_not.mpr rfl)]
    rcases hDecided with ⟨xs, hSome, x, hMem, hLater⟩ | ⟨ys, hSome, y, hMem, hLater⟩
    · have hNot : ¬ content.updatedAt < v3.updatedAt := Int.not_lt.mpr
        (Int.le_trans (hLater _ hListedV3) (hNewest x ((applied_mem_times hSorted hSome).1 x hMem)))
      rw [decide_eq_false hNot]
      exact keepsNewest_false fun ys hys => ⟨xs, hSome, x, hMem, fun y hy =>
        hLater y ((appliedV3_mem_times hys).1 y hy)⟩
    · have hLt : content.updatedAt < v3.updatedAt :=
        Int.lt_of_lt_of_le (hLater _ hListed) (hNewestV3 y ((appliedV3_mem_times hSome).1 y hMem))
      rw [decide_eq_true hLt]
      exact keepsNewest_true ⟨ys, hSome, y, hMem, fun xs hxs x hx =>
        Int.le_of_lt (hLater x ((applied_mem_times hSorted hxs).1 x hx))⟩
  · rw [if_pos hTime]
    rw [Decided, if_neg hTime] at hDecided
    cases hBest : v3.best timestamp with
    | none =>
      apply keepsNewest_false
      intro ys hys
      rw [ContentV3.applied, selectSnapshotV3_client, hBest] at hys
      cases hys
    | some snap =>
      rcases hDecided snap hBest with ⟨hAhead, hBehind⟩
      have hTrue : (∀ info ∈ content.best timestamp, info.createdAt < snap.createdAt) →
          KeepsNewest (lastOf (content.applied timestamp)) (lastOf (v3.applied timestamp))
            true := by
        intro hLeads
        rcases hAhead hLeads with ⟨hState, hOlder⟩
        rcases Option.ne_none_iff_exists'.mp hState with ⟨ys, hys⟩
        exact keepsNewest_true ⟨ys, hys, _, (appliedV3_mem_times hys).2 snap hBest, hOlder⟩
      cases hInfo : content.best timestamp with
      | none => exact hTrue (by simp [hInfo])
      | some info =>
        by_cases hLt : info.createdAt < snap.createdAt
        · simp only [hLt, decide_true]
          exact hTrue (by simp [hInfo, hLt])
        simp only [hLt, decide_false]
        rcases hBehind info hInfo (Int.not_lt.mp hLt) with ⟨hState, hOlder⟩
        rcases Option.ne_none_iff_exists'.mp hState with ⟨xs, hxs⟩
        exact keepsNewest_false fun ys hys => ⟨xs, hxs, _,
          (applied_mem_times hSorted hxs).2 hTime info hInfo, hOlder ys hys⟩

-- An Upgraded Replica

/- One LTX file, on a level of its own, and one older v0.3.x snapshot. -/
def oneFile (level : Nat) : Content :=
  fun l => if l = level then [⟨level, 1, 1, 0, 20⟩] else []

def oneSnapshotV3 (segments : List WALSegmentInfoV3) : ContentV3 where
  generations := ["a", "b"]
  snapshots gen := if gen = "a" then [⟨"a", 0, 0, 10⟩] else []
  walSegments gen := if gen = "a" then [] else segments
  generation_eq := by
    intro gen snap hMem
    split at hMem
    · rename_i hGen
      rw [mem_singleton.mp hMem, hGen]
    · cases hMem

theorem oneFile_sorted (level : Nat) : (oneFile level).listing.Sorted := by
  intro l _ itr hItr
  cases hItr
  show (oneFile level l).Pairwise _
  unfold oneFile
  split
  · exact pairwise_singleton _ _
  · exact List.Pairwise.nil

/- The LTX snapshot is the later one. -/
theorem format_choice_keeps_newest_upgraded :
    (oneFile snapshotLevel).applied 30 = some [20] ∧
    (oneSnapshotV3 []).applied 30 = some [10] ∧
    KeepsNewest
      (lastOf ((oneFile snapshotLevel).applied 30))
      (lastOf ((oneSnapshotV3 []).applied 30)) false := by
  have hLTX : (oneFile snapshotLevel).applied 30 = some [20] := by decide
  have hV3 : (oneSnapshotV3 []).applied 30 = some [10] := by decide
  refine ⟨hLTX, hV3, format_choice_keeps_newest (oneFile snapshotLevel) (oneSnapshotV3 []) 30 false
    (oneFile_sorted _) (by decide) (by decide) (by decide) ?_ (by decide)⟩
  rintro snap ⟨⟩
  rw [hLTX, hV3]
  decide

/-
  Without a snapshot of its own, the later LTX history is
  not looked at for a timestamp. Without one, a segment
  that no restore applies makes the older format win.
-/
theorem newer_changes_lost :
    shouldUseV3Restore (oneSnapshotV3 []).client
      (oneFile 0).listing (oneSnapshotV3 []).client
      ((oneFile 0).listing snapshotLevel) 30 =
      .ok true ∧
    lastOf ((oneFile 0).applied 30) = some 20 ∧
    lastOf ((oneSnapshotV3 []).applied 30) = some 10 ∧
    (let v3 := oneSnapshotV3 [⟨"b", 0, 0, 40⟩]
    shouldUseV3Restore v3.client (oneFile 0).listing
      v3.client ((oneFile 0).listing snapshotLevel) 0 =
      .ok true ∧
    lastOf ((oneFile 0).applied 0) = some 20 ∧
    lastOf (v3.applied 0) = some 10) := by
  decide

end Replicate
