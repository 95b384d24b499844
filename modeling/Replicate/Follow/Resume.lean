import Replicate.Compaction.Levels
import Replicate.Compaction.RetentionSafety
import Replicate.Restore.Replay

/-
  Resuming follow mode on a file that exists already.

  A follower catches up through the files of levels 0 to 8.
  `Restore` looks at the newest snapshot instead, and all
  snapshots start with the first transaction. What is past
  the newest snapshot is never pruned, so a follower ahead
  of it is refused although it could go on. One behind it
  is let in even if retention has deleted what comes next.

  Main declarations:
    * `follow_resumes_exactly_iff`
    * `follow_resume_misjudges`
-/

-- Catching Up

namespace Replicate

open LevelState IntervalChain Retention

/- Levels 0 to 8 have a file for the transaction. -/
def HeldBelow (content : Content) (u : Nat) : Prop :=
  ∃ level < snapshotLevel, ∃ f ∈ content level, f.minTXID ≤ u ∧ u ≤ f.maxTXID

/- A chain of files of levels 0 to 8 leads to a TXID. -/
def CatchesUp (content : Content) (txid n : Nat) : Prop :=
  ∃ files, (∀ f ∈ files, ∃ level < snapshotLevel, f ∈ content level) ∧
    IsChain FileInfo.minTXID FileInfo.maxTXID txid files ∧
    reach FileInfo.maxTXID txid files = n

/- The greatest TXID of the files of a replica. -/
structure IsGreatestTXID (content : Content) (n : Nat) : Prop where
  le : ∀ f, content.Listed f → f.maxTXID ≤ n
  attained : ∃ f, content.Listed f ∧ f.maxTXID = n

theorem IsGreatestTXID.of_levels {content} {n : Nat} (hLe :
    ∀ level ≤ snapshotLevel, ∀ f ∈ content level, f.maxTXID ≤ n)
    (hAttained : ∃ level ≤ snapshotLevel, ∃ f ∈ content level, f.maxTXID = n) :
    IsGreatestTXID content n := by
  constructor
  · rintro f ⟨level, hLevel, hf⟩
    exact hLe level hLevel f hf
  · rcases hAttained with ⟨level, hLevel, f, hf, hEq⟩
    exact ⟨f, ⟨level, hLevel, hf⟩, hEq⟩

theorem catchesUp_iff {content} {txid n : Nat} (hGreatest : IsGreatestTXID content n)
    (hLe : txid ≤ n) : CatchesUp content txid n ↔ ∀ u, txid < u → u ≤ n → HeldBelow content u := by
  constructor
  · rintro ⟨files, hFiles, hChain, hReach⟩ u hAfter hTo
    rcases exists_mem_covering hChain hAfter (Nat.le_trans hTo (Nat.le_of_eq hReach.symm)) with
      ⟨f, hf, hRange⟩
    rcases hFiles f hf with ⟨level, hLevel, hMem⟩
    exact ⟨level, hLevel, f, hMem, hRange⟩
  · intro hHeld
    apply exists_isChain_of_covered hLe
    · rintro f ⟨level, hLevel, hMem⟩
      exact hGreatest.le f ⟨level, Nat.le_of_lt hLevel, hMem⟩
    · intro u hAfter hTo
      rcases hHeld u hAfter hTo with ⟨level, hLevel, f, hMem, hRange⟩
      exact ⟨f, ⟨level, hLevel, hMem⟩, hRange⟩

-- Resuming

section Resume

variable {D : Type} {lib : LtxLibrary D} {env : RestoreEnv D} {opt : RestoreOptions}
variable {fs : FileSystem D} {content : Content} {txid : Nat}

/-
  `Restore` is called in follow mode on an existing output
  with a saved TXID, and lists the snapshots of a replica.
-/
structure Resuming (env : RestoreEnv D) (opt : RestoreOptions)
    (fs : FileSystem D) (content : Content) (txid : Nat) : Prop where
  valid : validateOptions opt = none
  follow : opt.follow = true
  stat : env.stat = none
  output : (fs opt.outputPath).isSome
  saved : env.readTXIDFile = .ok txid
  snapshots : env.followSnapshots = ltxFiles content .none snapshotLevel 0

/- `Restore` returns whatever the follow loop returns. -/
def EntersFollow (lib : LtxLibrary D) (env : RestoreEnv D)
    (opt : RestoreOptions) (fs : FileSystem D) (txid : Nat) : Prop :=
  ∀ follow, restore lib { env with follow := follow } opt fs =
    runFollow { env with follow := follow } opt fs txid false

def AsksReRestore (lib : LtxLibrary D) (env : RestoreEnv D)
    (opt : RestoreOptions) (fs : FileSystem D) : Prop :=
  ∃ msg, restore lib env opt fs = .fail fs (.text (msg ++ "to re-restore"))

/-
  The follow loop is entered exactly when the follower can
  catch up, and the error asks for a re-restore otherwise.
-/
def ResumesExactly (lib : LtxLibrary D) (env : RestoreEnv D)
    (opt : RestoreOptions) (fs : FileSystem D) (content : Content) (txid n : Nat) : Prop :=
  (EntersFollow lib env opt fs txid ↔ CatchesUp content txid n) ∧
    (¬ CatchesUp content txid n → AsksReRestore lib env opt fs)

/-
  There is no snapshot, or one reaches the saved TXID and
  levels 0 to 8 still have everything after it that the
  snapshots have.
-/
def NothingPruned (content : Content) (txid : Nat) : Prop :=
  content snapshotLevel = [] ∨ (WithinSnapshot content txid ∧
    ∀ u, txid < u → WithinSnapshot content u → HeldBelow content u)

theorem restore_resuming (hResuming : Resuming env opt fs content txid) (hPos : 0 < txid) :
    restore lib env opt fs = match (content snapshotLevel).getLast? with
      | none => runFollow env opt fs txid false
      | some snap =>
        if txid < snap.minTXID then .fail fs (followBehind txid snap opt.outputPath)
        else if snap.maxTXID < txid then .fail fs (followAhead txid snap opt.outputPath)
        else runFollow env opt fs txid false := by
  rcases Nat.exists_eq_succ_of_ne_zero (Nat.ne_of_gt hPos) with ⟨k, rfl⟩
  have hExists : opt.follow = true ∧ env.stat = none ∧ (fs opt.outputPath).isSome :=
    ⟨hResuming.follow, hResuming.stat, hResuming.output⟩
  cases hLast : (content snapshotLevel).getLast? with
  | none | some =>
    simp only [restore, hResuming.valid, if_pos hExists,
      resumeFollow, hResuming.saved, hResuming.snapshots,
      ltxFiles_none_zero, hLast]

theorem followAhead_asks (txid : Nat) (snap : FileInfo) (path : String) : ∃ msg,
    followAhead txid snap path = .text (msg ++ "to re-restore") := by
  have hEnd : "-txid to re-restore" = "-txid " ++ "to re-restore" := by decide
  unfold followAhead
  rw [hEnd, ← String.append_assoc]
  exact ⟨_, rfl⟩

theorem Resuming.with_follow (hResuming : Resuming env opt fs content txid)
    (follow : Nat → List D → Option Err × List D) :
    Resuming { env with follow := follow } opt fs content txid :=
  ⟨hResuming.valid, hResuming.follow, hResuming.stat,
    hResuming.output, hResuming.saved, hResuming.snapshots⟩

theorem not_entersFollow {err : Err} (hResuming : Resuming env opt fs content txid)
    (hFails : ∀ env', Resuming env' opt fs content txid → restore lib env' opt fs = .fail fs err) :
    ¬ EntersFollow lib env opt fs txid := by
  intro hEnters
  have hLoop := hEnters (fun _ pages => (none, pages))
  rw [hFails _ (hResuming.with_follow _)] at hLoop
  have hErr := congrArg RestoreOutcome.err hLoop
  rcases Option.isSome_iff_exists.mp hResuming.output with ⟨pages, hPages⟩
  simp [runFollow, hPages, RestoreOutcome.fail] at hErr

theorem withinSnapshot_iff {s snap} (hInv : ReplicaInv s)
    (hLast : (s.content snapshotLevel).getLast? = some snap) (u : Nat) :
    WithinSnapshot s.content u ↔ u ≤ snap.maxTXID := by
  rcases List.getLast?_eq_some_iff.mp hLast with ⟨init, hSplit⟩
  constructor
  · rintro ⟨f, hf, hLe⟩
    have hSorted := hInv.sorted snapshotLevel
    have hMin := hInv.snapshot_min
    rw [hSplit] at hf hSorted hMin
    rcases List.mem_append.mp hf with hInit | hSelf
    · have hName := (List.pairwise_append.mp hSorted).2.2 f hInit snap List.mem_cons_self
      have hF := hMin f hf
      have hSnap := hMin snap (by simp)
      unfold NameLt at hName
      omega
    · rw [List.mem_singleton.mp hSelf] at hLe
      exact hLe
  · intro hLe
    exact ⟨snap, by rw [hSplit]; simp, hLe⟩

theorem entersFollow_iff {s} (hInv : ReplicaInv s) (hResuming : Resuming env opt fs s.content txid)
    (hPos : 0 < txid) : EntersFollow lib env opt fs txid ↔ s.content snapshotLevel = [] ∨
      WithinSnapshot s.content txid := by
  cases hLast : (s.content snapshotLevel).getLast? with
  | none =>
    have hNone := List.getLast?_eq_none_iff.mp hLast
    refine iff_of_true ?_ (Or.inl hNone)
    intro follow
    rw [restore_resuming (hResuming.with_follow follow) hPos, hLast]
  | some snap =>
    have hMem : snap ∈ s.content snapshotLevel := List.mem_of_getLast? hLast
    have hMin := hInv.snapshot_min snap hMem
    have hNotBehind : ¬ txid < snap.minTXID := by omega
    rw [withinSnapshot_iff hInv hLast]
    by_cases hAhead : snap.maxTXID < txid
    · refine iff_of_false ?_ ?_
      · apply not_entersFollow hResuming
        intro env' hResuming'
        rw [restore_resuming hResuming' hPos, hLast]
        exact (if_neg hNotBehind).trans (if_pos hAhead)
      · rintro (hNone | hLe)
        · rw [hNone] at hMem
          simp at hMem
        · omega
    · refine iff_of_true ?_ (Or.inr (by omega))
      intro follow
      rw [restore_resuming (hResuming.with_follow follow) hPos, hLast]
      exact (if_neg hNotBehind).trans (if_neg hAhead)

theorem Retention.ReplicaInv.heldBelow {s} {u : Nat} (hInv : ReplicaInv s) (hPos : 1 ≤ u)
    (hLe : u ≤ s.greatest) (hPast : ¬ WithinSnapshot s.content u) : HeldBelow s.content u := by
  have hUploaded : u ≤ s.uploaded := by
    rcases hInv.reached with hTo | ⟨f, hf, hTo⟩
    · exact Nat.le_trans hLe hTo
    · exact absurd ⟨f, hf, Nat.le_trans hLe hTo⟩ hPast
  rcases hInv.transactions u hPos hUploaded with (hWithin | ⟨f, hf, hRange⟩) | ⟨f, hf, hMin, hMax⟩
  · exact absurd hWithin hPast
  · exact ⟨1, by decide, f, hf, hRange⟩
  · exact ⟨0, by decide, f, hf, by omega, by omega⟩

theorem Retention.ReplicaInv.greatest_eq {s} {n : Nat} (hInv : ReplicaInv s)
    (hGreatest : IsGreatestTXID s.content n) : n = s.greatest := by
  rcases hGreatest.attained with ⟨f, ⟨level, hLevel, hf⟩, rfl⟩
  have hRange := hInv.range level f hf
  apply Nat.le_antisymm hRange.2.2
  rcases hInv.covered (by omega : 1 ≤ s.greatest) (Nat.le_refl _) with ⟨g, hListed, _, hTo⟩
  exact Nat.le_trans hTo (hGreatest.le g hListed)

end Resume

-- When The Check Is Right

/-
  Resuming is exact just in case nothing was pruned between
  the saved TXID and the newest snapshot that reaches it.
-/
theorem follow_resumes_exactly_iff
    {D : Type}
    (lib : LtxLibrary D)
    (x : Interleaving.State Shared Task)
    (hRun :
      Interleaving.Run replicaSystem ⟨Shared.empty, []⟩ x)
    (env : RestoreEnv D)
    (opt : RestoreOptions)
    (fs : FileSystem D)
    (txid n : Nat)
    (hPos : 0 < txid)
    (hGreatest : IsGreatestTXID x.shared.content n)
    (hReached : txid ≤ n)
    (hResuming :
      Resuming env opt fs x.shared.content txid) :
    ResumesExactly lib env opt fs x.shared.content txid n ↔
    NothingPruned x.shared.content txid := by
  have hInv : ReplicaInv x.shared := (replicaSystem_sound.run ⟨ReplicaInv.empty, by simp⟩ hRun).1
  have hEq := hInv.greatest_eq hGreatest
  have hPast : ∀ u, txid < u → u ≤ n → ¬ WithinSnapshot x.shared.content u →
    HeldBelow x.shared.content u :=
    fun u hAfter hTo => hInv.heldBelow (by omega) (by omega)
  have hCatches := catchesUp_iff hGreatest hReached
  have hEnters : EntersFollow lib env opt fs txid ↔ _ := entersFollow_iff hInv hResuming hPos
  unfold ResumesExactly NothingPruned
  rw [hEnters, hCatches]
  constructor
  · rintro ⟨hIff, _⟩
    by_cases hWithin : WithinSnapshot x.shared.content txid
    · refine Or.inr ⟨hWithin, ?_⟩
      rintro u hAfter ⟨f, hf, hLe⟩
      have hTo : u ≤ n := Nat.le_trans hLe (hGreatest.le f ⟨snapshotLevel, Nat.le_refl _, hf⟩)
      exact hIff.mp (Or.inr hWithin) u hAfter hTo
    -- then nothing is pruned, and it is refused
    have hHeld : ∀ u, txid < u → u ≤ n → HeldBelow x.shared.content u := by
      intro u hAfter hTo
      apply hPast u hAfter hTo
      rintro ⟨f, hf, hLe⟩
      exact hWithin ⟨f, hf, by omega⟩
    rcases hIff.mpr hHeld with hNone | hReaches
    · exact Or.inl hNone
    · exact absurd hReaches hWithin
  · intro hCondition
    have hHeld : ∀ u, txid < u → u ≤ n → HeldBelow x.shared.content u := by
      intro u hAfter hTo
      by_cases hWithin : WithinSnapshot x.shared.content u
      · rcases hCondition with hNone | ⟨_, hKept⟩
        · rcases hWithin with ⟨f, hf, _⟩
          rw [hNone] at hf
          simp at hf
        · exact hKept u hAfter hWithin
      · exact hPast u hAfter hTo hWithin
    refine ⟨iff_of_true ?_ hHeld, ?_⟩
    · exact hCondition.imp id And.left
    · intro hCannot
      exact absurd hHeld hCannot

def followerEnv (content : Content) (txid : Nat) : RestoreEnv Nat :=
  { calmEnv with
    readTXIDFile := .ok txid
    followSnapshots := ltxFiles content .none snapshotLevel 0 }

def followerOptions : RestoreOptions :=
  { latest with follow := true }

theorem resuming_followerEnv (content : Content) (txid : Nat) :
    Resuming (followerEnv content txid) followerOptions (fun _ => some [1]) content txid :=
  ⟨by decide, rfl, rfl, rfl, rfl, rfl⟩

/- A snapshot of the first of three uploads. -/
def aheadOfSnapshot : Shared :=
  let first := LevelState.uploadNext Shared.empty
  let second := LevelState.uploadNext (snapshotNow first)
  LevelState.uploadNext second

/-
  Three uploads, compacted one by one, and a snapshot that
  lets retention delete all but the last of them.
-/
def prunedBySnapshot : Shared :=
  let step (s : Shared) :=
    LevelState.compactNow LevelState.plainCompactor (LevelState.uploadNext s) 1
  let third := step (step (step Shared.empty))
  retainL0Now (retainNow (snapshotNow third)
    [1, 2, 3, 4, 5, 6, 7, 8])

section Misjudged

open LevelState

theorem run_aheadOfSnapshot : Run plainCompactor (fun _ => True) empty ⟨aheadOfSnapshot, none⟩ := by
  have hLenient : Lenient (fun _ : LevelState => True) := fun _ _ => trivial
  refine (Run.uploadNext hLenient (by decide)).trans ?_
  refine (Run.snapshotNow hLenient (by decide)).trans ?_
  refine (Run.uploadNext hLenient (by decide)).trans ?_
  exact Run.uploadNext hLenient (by decide)

/-
  A follower whose saved TXID is the snapshot's resumes, and
  has the two later uploads before it.
-/
theorem follow_resumes_after_snapshot :
    ResumesExactly referenceLibrary
      (followerEnv aheadOfSnapshot.content 1)
      followerOptions (fun _ => some [1])
      aheadOfSnapshot.content 1 3 := by
  have hGreatest : IsGreatestTXID aheadOfSnapshot.content 3 :=
    .of_levels (by decide) (by decide)
  refine (follow_resumes_exactly_iff referenceLibrary _
    run_aheadOfSnapshot.interleaves _ _ _ 1 3 (by decide)
    hGreatest (by decide) (resuming_followerEnv _ 1)).mpr
    (Or.inr ⟨?_, ?_⟩)
  · exact ⟨⟨snapshotLevel, 1, 1, 0, 0⟩, by decide, by decide⟩
  · rintro u hAfter ⟨f, hf, hTo⟩
    have hFirst : ∀ f ∈ aheadOfSnapshot.content snapshotLevel,
      f.maxTXID ≤ 1 := by
      decide
    have hLe := hFirst f hf
    omega

theorem run_prunedBySnapshot : Run plainCompactor (fun _ => True) empty
    ⟨prunedBySnapshot, none⟩ := by
  have hLenient : Lenient (fun _ : LevelState => True) := fun _ _ => trivial
  refine (Run.uploadNext hLenient (by decide)).trans ?_
  refine (Run.compactNow hLenient 1 (by decide)).trans ?_
  refine (Run.uploadNext hLenient (by decide)).trans ?_
  refine (Run.compactNow hLenient 1 (by decide)).trans ?_
  refine (Run.uploadNext hLenient (by decide)).trans ?_
  refine (Run.compactNow hLenient 1 (by decide)).trans ?_
  refine (Run.snapshotNow hLenient (by decide)).trans ?_
  refine (Run.retainNow (fun _ => trivial) [1, 2, 3, 4, 5, 6, 7, 8] (by decide)).trans ?_
  exact Run.retainL0Now hLenient (by decide)

/-
  A follower that has reached TXID 2 is refused although
  TXID 3 is in level 0: the only snapshot ends at TXID 1.
  One that has reached TXID 1 is let in although TXID 2 was
  pruned: a snapshot ends at TXID 3.
-/
theorem follow_resume_misjudges :
    (Interleaving.Run replicaSystem ⟨Shared.empty, []⟩
      ⟨aheadOfSnapshot, []⟩ ∧
      IsGreatestTXID aheadOfSnapshot.content 3 ∧
      CatchesUp aheadOfSnapshot.content 2 3 ∧
      AsksReRestore referenceLibrary
        (followerEnv aheadOfSnapshot.content 2)
        followerOptions (fun _ => some [1]) ∧
      ¬ EntersFollow referenceLibrary
          (followerEnv aheadOfSnapshot.content 2)
          followerOptions (fun _ => some [1]) 2) ∧
    (Interleaving.Run replicaSystem ⟨Shared.empty, []⟩
      ⟨prunedBySnapshot, []⟩ ∧
      IsGreatestTXID prunedBySnapshot.content 3 ∧
      ¬ CatchesUp prunedBySnapshot.content 1 3 ∧
      EntersFollow referenceLibrary
        (followerEnv prunedBySnapshot.content 1)
        followerOptions (fun _ => some [1]) 1) := by
  have hAhead := run_aheadOfSnapshot.interleaves
  have hPruned := run_prunedBySnapshot.interleaves
  have hAheadInv := (replicaSystem_sound.run ⟨ReplicaInv.empty, by simp [toState, empty]⟩ hAhead).1
  have hPrunedInv :=
    (replicaSystem_sound.run ⟨ReplicaInv.empty, by simp [toState, empty]⟩ hPruned).1
  have hAheadSaved := resuming_followerEnv aheadOfSnapshot.content 2
  refine ⟨⟨hAhead, .of_levels (by decide) (by decide), ?_, ?_, ?_⟩, ⟨hPruned, ?_, ?_, ?_⟩⟩
  · exact ⟨[⟨0, 3, 3, 0, 0⟩], by decide, by decide, rfl⟩
  · rcases followAhead_asks 2 ⟨snapshotLevel, 1, 1, 0, 0⟩
      followerOptions.outputPath with ⟨msg, hAsks⟩
    refine ⟨msg, ?_⟩
    rw [← hAsks]
    exact restore_resuming hAheadSaved (by decide)
  · rw [entersFollow_iff hAheadInv hAheadSaved (by decide)]
    show ¬ (aheadOfSnapshot.content snapshotLevel = [] ∨
      ∃ f ∈ aheadOfSnapshot.content snapshotLevel, 2 ≤ f.maxTXID)
    decide
  · exact .of_levels (by decide) (by decide)
  · rw [catchesUp_iff (.of_levels (by decide) (by decide)) (by decide)]
    intro hHeld
    have hSecond := hHeld 2 (by decide) (by decide)
    revert hSecond
    show ¬ ∃ level < snapshotLevel, ∃ f ∈ prunedBySnapshot.content level,
      f.minTXID ≤ 2 ∧ 2 ≤ f.maxTXID
    decide
  · rw [entersFollow_iff hPrunedInv (resuming_followerEnv prunedBySnapshot.content 1) (by decide)]
    exact Or.inr ⟨⟨snapshotLevel, 1, 3, 0, 0⟩, by decide, by decide⟩

end Misjudged

end Replicate
