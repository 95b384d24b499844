import Replicate.Compaction.Levels
import Replicate.Follow.GapFill
import Replicate.Restore.Replay

/-
  Follow mode over any schedule of polls.

  The replica changes between polls by uploads, compactions
  and retention, and a poll can fail anywhere. Only after a
  poll that succeeds the TXID is saved, and the process may
  be stopped before that. The next poll starts from the
  saved TXID, so it may find pages in the file that are
  newer.

  A poll that succeeds leaves an image of the database if
  no such pages were there, or if it gets past them. It does
  not when a gap in level 0 has to be filled by two levels:
  `fillFollowGap` returns after the first.

  Main declarations:
    * `follow_converges`
    * `follow_returns_between_levels`
    * `restore_existing_or_followed`
-/

-- Followers

namespace Replicate

open Interleaving

namespace Follow

open Retention

/- A replica, a database file and its `-txid` file. -/
structure Follower where
  replica : State Shared Task
  file : List Page
  saved : Nat

namespace Follower

variable {lib : LtxLibrary Page}

def content (x : Follower) : Content :=
  x.replica.shared.content

/-
  What `follow` makes of the answer of a poll: the TXID is
  saved, or it is not.
-/
def Saves (saved : Nat) (err : Option Err) (newTXID saved' : Nat) : Prop :=
  saved' = saved ∨ (err = none ∧ saved < newTXID ∧ saved' = newTXID)

/-
  The replica changes, or there is a poll of the replica,
  whose files are those of the history.
-/
inductive Step (H : History lib) : Follower → Follower → Prop where
  | replica {x replica} (hStep :
    Interleaving.Step replicaSystem x.replica replica) :
      Step H x { x with replica := replica }
  | poll {x env err st saved} (hServes : env.Serves H x.content)
    (hPoll : applyNewLTXFiles env lib.zero x.content x.saved x.file = (err, st))
    (hSaves : Saves x.saved err st.current saved) :
    Step H x { x with file := st.file, saved := saved }

def Run (H : History lib) : Follower → Follower → Prop :=
  Relation.ReflTransGen (Step H)

/-
  The file is an image of the saved TXID, or a gap after it
  is filled by one level.
-/
def Resumable (H : History lib) (x : Follower) : Prop :=
  IsImage H x.saved x.file ∨ Bridged x.content x.saved

-- The Invariant

/-
  The file has pages from after the saved TXID, but not from
  after the last upload.
-/
structure Inv (H : History lib) (x : Follower) : Prop where
  replica : Holds (fun s => ReplicaInv s ∧ LevelZeroInv s)
    (fun s task => TaskKnows s task ∧ LevelZeroKnows s task)
    x.replica
  file : ∃ m, x.saved ≤ m ∧ m ≤ max x.saved x.replica.shared.uploaded ∧
    m ≤ H.count ∧ Between H x.saved m x.file

section Steps

variable {H : History lib} {x y : Follower}

theorem Inv.start (hReached : Interleaving.Run replicaSystem ⟨Shared.empty, []⟩ x.replica)
    (hCount : x.saved ≤ H.count) (hImage : IsImage H x.saved x.file) : Inv H x where
  replica := levelZero_sound.run ⟨⟨ReplicaInv.empty, LevelZeroInv.empty⟩, by simp⟩ hReached
  file :=
    ⟨x.saved, Nat.le_refl _, Nat.le_max_left _ _, hCount,
      LayeredFile.Mixed.of_same H.grows hCount hImage⟩

theorem Inv.below (hInv : Inv H x) : ∀ level < snapshotLevel, ∀ f ∈ x.content level,
    f.maxTXID ≤ x.replica.shared.uploaded :=
  hInv.replica.1.2.below

theorem Inv.polled {env st} {m : Nat} (hSize :
    ∀ u, 1 ≤ u → u ≤ H.count → 0 < (H.tx u).commit) (hAfter : x.saved ≤ m) (hCount : m ≤ H.count)
    (hBetween : Between H x.saved m x.file) (hServes : env.Serves H x.content)
    (hPoll : applyNewLTXFiles env lib.zero x.content x.saved x.file = (none, st)) :
    PollInv H x.saved m st :=
  (PollInv.start hBetween hAfter hCount).steps hSize hServes (applyNewLTXFiles_trace hPoll).of_ok

theorem Inv.step (hSize : ∀ u, 1 ≤ u → u ≤ H.count → 0 < (H.tx u).commit) (hInv : Inv H x)
    (hStep : Step H x y) : Inv H y := by
  rcases hInv.file with ⟨m, hAfter, hUploaded, hCount, hFile⟩
  cases hStep with
  | replica hStep =>
    have hRely :=
      levelZero_sound.step_rely (fun s =>
        ⟨Rely.of_content_eq rfl (Nat.le_refl _) (Nat.le_refl _), LevelZeroRely.of_eq rfl rfl⟩)
        hInv.replica hStep
    have hGrows := hRely.2.uploaded_le
    refine ⟨levelZero_sound.step hInv.replica hStep, m, hAfter, ?_, hCount, hFile⟩
    dsimp only
    omega
  | @poll env err st saved hServes hPoll hSaves =>
    refine ⟨hInv.replica, ?_⟩
    rcases hSaves with rfl | ⟨rfl, hLater, rfl⟩
    · rcases (PollInv.start hFile hAfter hCount).trace hSize
        hServes hInv.below (Nat.le_max_left _ _) hUploaded
        (applyNewLTXFiles_trace hPoll) with
        ⟨m', hLe, hBelow, hCount', hBetween⟩
      exact ⟨m', Nat.le_trans hAfter hLe, hBelow, hCount', hBetween⟩
    have hPolled := Inv.polled hSize hAfter hCount hFile hServes hPoll
    have hCurrent := current_le hInv.below (applyNewLTXFiles_trace hPoll).of_ok
    refine ⟨max m st.current, Nat.le_max_right _ _, ?_, hPolled.count, hPolled.advance⟩
    dsimp only at hCurrent ⊢
    omega

theorem Inv.run (hSize : ∀ u, 1 ≤ u → u ≤ H.count → 0 < (H.tx u).commit) (hInv : Inv H x)
    (hRun : Run H x y) : Inv H y := by
  induction hRun with
  | refl => exact hInv
  | tail _ hStep ih => exact ih.step hSize hStep

theorem Step.saved_le (hStep : Step H x y) : x.saved ≤ y.saved := by
  cases hStep with
  | replica hStep => exact Nat.le_refl _
  | poll hServes hPoll hSaves =>
    rcases hSaves with rfl | ⟨_, hLater, rfl⟩
    · exact Nat.le_refl _
    · exact Nat.le_of_lt hLater

theorem Run.saved_le (hRun : Run H x y) : x.saved ≤ y.saved := by
  induction hRun with
  | refl => exact Nat.le_refl _
  | tail _ hStep ih => exact Nat.le_trans ih hStep.saved_le

theorem Inv.isImage {env st} (hSize : ∀ u, 1 ≤ u → u ≤ H.count → 0 < (H.tx u).commit)
    (hInv : Inv H x) (hResumable : Resumable H x) (hServes : env.Serves H x.content)
    (hPoll : applyNewLTXFiles env lib.zero x.content x.saved x.file = (none, st))
    (hProgress : x.saved < st.current) : IsImage H st.current st.file := by
  rcases hInv.file with ⟨m, hAfter, hUploaded, hCount, hFile⟩
  rcases hResumable with hImage | hBridged
  · have hSaved : x.saved ≤ H.count := by omega
    have hExact := LayeredFile.Mixed.of_same H.grows hSaved hImage
    have hPolled := Inv.polled hSize (Nat.le_refl _) hSaved hExact hServes hPoll
    exact hPolled.isImage hProgress (Nat.le_of_lt hProgress)
  have hPolled := Inv.polled hSize hAfter hCount hFile hServes hPoll
  rcases applyNewLTXFiles_reaches hInv.replica.1.1
    hInv.replica.1.2 hBridged hPoll with hStay | hReached
  · omega
  · exact hPolled.isImage hProgress (by omega)

end Steps

end Follower

open Follower in
/-
  Over every run the saved TXID never decreases, a poll that
  succeeds has applied only files that begin by the next
  TXID and end after the current one, and it leaves the
  image of its end in the file if it could get past what
  earlier polls had left there.
-/
theorem follow_converges
    {lib : LtxLibrary Page}
    (H : History lib)
    (hSize : ∀ u, 1 ≤ u → u ≤ H.count → 0 < (H.tx u).commit)
    (x₀ x : Follower)
    (hReached :
      Interleaving.Run replicaSystem ⟨Shared.empty, []⟩
        x₀.replica)
    (hCount : x₀.saved ≤ H.count)
    (hImage : IsImage H x₀.saved x₀.file)
    (hRun : Run H x₀ x) :
    x₀.saved ≤ x.saved ∧
    (∀ y, Step H x y → x.saved ≤ y.saved) ∧
    ∀ env st,
      env.Serves H x.content →
      applyNewLTXFiles env lib.zero x.content x.saved
        x.file = (none, st) →
      (∀ a ∈ st.applied,
        a.2.minTXID ≤ a.1 + 1 ∧ a.1 < a.2.maxTXID) ∧
      (Resumable H x → x.saved < st.current →
        IsImage H st.current st.file) := by
  have hInv := (Inv.start hReached hCount hImage).run hSize hRun
  refine ⟨hRun.saved_le, fun y hStep => hStep.saved_le, ?_⟩
  intro env st hServes hPoll
  rcases hInv.file with ⟨m, hAfter, _, hBound, hFile⟩
  refine ⟨?_, ?_⟩
  · exact (Inv.polled hSize hAfter hBound hFile hServes hPoll).applied
  · intro hResumable hProgress
    exact hInv.isImage hSize hResumable hServes hPoll hProgress

-- A Small Database

section Small

open LevelState Follower

def pageLibrary : LtxLibrary Page where
  zero := [0]
  lockPgno := 262145
  compact inputs := .ok (PageHistory.stack inputs)
  decodeDatabaseTo file := .ok (PageHistory.image [0] file)
  compact_ok _ _ hOk := (Except.ok.inj hOk).symm
  decode_ok _ _ _ hOk := (Except.ok.inj hOk).symm

/- Two pages are written, then pages 1, 2 and 1 again. -/
def fourTransactions : History pageLibrary where
  count := 4
  tx t :=
    { commit := 2
      page := fun p =>
        if (t = 1 ∧ (p = 1 ∨ p = 2)) ∨ ((t = 2 ∨ t = 4) ∧ p = 1) ∨ (t = 3 ∧ p = 2) then
          some [UInt8.ofNat t]
        else none }
  grows := by
    constructor
    · intro t _ p hOld hNew _
      cases t with
      | zero =>
        have hLe : p ≤ 2 := hNew
        have hPos : 0 < p := hOld
        dsimp only
        rw [if_pos (by omega)]
        rfl
      | succ t =>
        have hLe : p ≤ 2 := hNew
        have hMore : 2 < p := hOld
        omega
    · intro t _ p hLock
      have hLarge : p = 262145 := hLock
      exact if_neg (by omega)
  within := by
    intro t _ _ p hSome
    dsimp only at hSome ⊢
    split at hSome
    · omega
    · simp at hSome

def calmFollow : FollowEnv where
  level0Fault := .none
  gapFault _ _ := .none
  ltx info := fourTransactions.tx info.minTXID
  fault _ := .none
  rnd _ _ := 0

theorem calmFollow_serves {content} (hSingles :
    ∀ level < snapshotLevel, ∀ f ∈ content level,
      f.minTXID = f.maxTXID ∧ 1 ≤ f.minTXID ∧ f.minTXID ≤ 4) (fault : FileInfo → ApplyFault) :
    FollowEnv.Serves { calmFollow with fault := fault } fourTransactions content := by
  intro level hLevel f hf
  rcases hSingles level hLevel f hf with ⟨hSingle, hPos, hLe⟩
  rw [← hSingle]
  exact Produced.transaction hPos hLe

def firstImage : List Page := [[1], [1]]

def restoredFirst (s : Shared) : Follower where
  replica := ⟨s, []⟩
  file := firstImage
  saved := 1

theorem isImage_firstImage : IsImage fourTransactions 1 firstImage := by
  constructor
  · decide
  · decide

theorem Follower.Run.replica {lib : LtxLibrary Page} {H : History lib} {x : Follower}
    {replica : State Shared Task} (hRun : Interleaving.Run replicaSystem x.replica replica) :
    Follower.Run H x { x with replica := replica } := by
  induction hRun with
  | refl => exact Relation.ReflTransGen.refl
  | tail _ hLast ih => exact ih.tail (Step.replica hLast)

/- After two uploads a poll leaves the second image. -/
theorem follow_converges_two_uploads :
    ∃ st,
      applyNewLTXFiles calmFollow pageLibrary.zero
        (uploadNext (uploadNext Shared.empty)).content 1
        firstImage = (none, st) ∧
      st.current = 2 ∧
      IsImage fourTransactions 2 st.file := by
  have hRun : LevelState.Run plainCompactor (fun _ => True) LevelState.empty
    ⟨uploadNext (uploadNext Shared.empty), none⟩ :=
    (LevelState.Run.uploadNext (fun _ _ => trivial) (by decide)).trans
      (LevelState.Run.uploadNext (fun _ _ => trivial) (by decide))
  have hPoll : applyNewLTXFiles calmFollow pageLibrary.zero
    (uploadNext (uploadNext Shared.empty)).content 1
    firstImage = (none, ⟨[[2], [1]], 2, [(1, ⟨0, 2, 2, 0, 0⟩)]⟩) := by
    rfl
  refine ⟨_, hPoll, rfl, ?_⟩
  exact ((follow_converges fourTransactions (fun _ _ _ => Nat.zero_lt_two)
    (restoredFirst (uploadNext (uploadNext Shared.empty)))
    (restoredFirst (uploadNext (uploadNext Shared.empty)))
    hRun.interleaves (by decide) isImage_firstImage
    Relation.ReflTransGen.refl).2.2 calmFollow _
    (calmFollow_serves (by decide) _) hPoll).2
    (Or.inl isImage_firstImage) (by decide)

/-
  Two transactions are compacted to level 2 one by one, a
  third one to level 1. Then there is a snapshot.
-/
def threeUploads : Shared :=
  let step (s : Shared) := compactNow plainCompactor (uploadNext s) 1
  let first := compactNow plainCompactor (step Shared.empty) 2
  let second := compactNow plainCompactor (step first) 2
  snapshotNow (step second)

/-
  The fourth transaction is compacted to level 1. Retention
  leaves TXID 4 in level 0, 3 and 4 in level 1, and 2 in
  level 2.
-/
def splitGap : Shared :=
  retainL0Now (retainNow (compactNow plainCompactor (uploadNext threeUploads) 1)
    [1, 2, 3, 4, 5, 6, 7, 8])

/- The third file is written, but syncing it fails. -/
def interrupted : FollowEnv :=
  { calmFollow with
    fault := fun info =>
      if info.minTXID = 3 then .sync (.text "sync") else .none }

theorem run_threeUploads : LevelState.Run plainCompactor (fun _ => True)
    LevelState.empty ⟨threeUploads, none⟩ := by
  have hLenient : Lenient (fun _ : LevelState => True) := fun _ _ => trivial
  refine (LevelState.Run.uploadNext hLenient (by decide)).trans ?_
  refine (LevelState.Run.compactNow hLenient 1 (by decide)).trans ?_
  refine (LevelState.Run.compactNow hLenient 2 (by decide)).trans ?_
  refine (LevelState.Run.uploadNext hLenient (by decide)).trans ?_
  refine (LevelState.Run.compactNow hLenient 1 (by decide)).trans ?_
  refine (LevelState.Run.compactNow hLenient 2 (by decide)).trans ?_
  refine (LevelState.Run.uploadNext hLenient (by decide)).trans ?_
  refine (LevelState.Run.compactNow hLenient 1 (by decide)).trans ?_
  exact LevelState.Run.snapshotNow hLenient (by decide)

theorem run_splitGap : LevelState.Run plainCompactor (fun _ => True)
    ⟨threeUploads, none⟩ ⟨splitGap, none⟩ := by
  have hLenient : Lenient (fun _ : LevelState => True) := fun _ _ => trivial
  refine (LevelState.Run.uploadNext hLenient (by decide)).trans ?_
  refine (LevelState.Run.compactNow hLenient 1 (by decide)).trans ?_
  refine (LevelState.Run.retainNow (fun _ => trivial) [1, 2, 3, 4, 5, 6, 7, 8] (by decide)).trans ?_
  exact LevelState.Run.retainL0Now hLenient (by decide)

/-
  A poll from TXID 1 writes the second and the third
  transaction, and fails before the TXID is saved. When the
  next one finds TXID 2 in level 2 and TXID 3 in level 1, it
  returns TXID 2 without an error. The file still has the
  page of TXID 3.
-/
theorem follow_returns_between_levels :
    ∃ x : Follower,
      Interleaving.Run replicaSystem ⟨Shared.empty, []⟩
        (restoredFirst threeUploads).replica ∧
      IsImage fourTransactions 1
        (restoredFirst threeUploads).file ∧
      Follower.Run fourTransactions
        (restoredFirst threeUploads) x ∧
      x.saved = 1 ∧
      calmFollow.Serves fourTransactions x.content ∧
      (∃ st,
        applyNewLTXFiles calmFollow pageLibrary.zero
          x.content x.saved x.file = (none, st) ∧
        st.current = 2 ∧
        ¬ IsImage fourTransactions 2 st.file) := by
  have hFailed : (applyNewLTXFiles interrupted pageLibrary.zero
    threeUploads.content 1 firstImage).2.file = [[2], [3]] := by
    rfl
  have hServes : interrupted.Serves fourTransactions (restoredFirst threeUploads).content :=
    calmFollow_serves (by decide) _
  have hPoll : Follower.Run fourTransactions (restoredFirst threeUploads)
    ⟨⟨threeUploads, []⟩, [[2], [3]], 1⟩ := by
    apply Relation.ReflTransGen.single
    exact Step.poll hServes rfl (Or.inl rfl)
  refine ⟨⟨⟨splitGap, []⟩, [[2], [3]], 1⟩,
    run_threeUploads.interleaves, isImage_firstImage, ?_, rfl,
    calmFollow_serves (by decide) _, ?_⟩
  · exact hPoll.trans (Follower.Run.replica run_splitGap.interleaves)
  · refine ⟨⟨[[2], [3]], 2, [(1, ⟨2, 2, 2, 0, 0⟩)]⟩, rfl, rfl, ?_⟩
    intro hImage
    have hSecond := hImage.page 1 (by decide)
    revert hSecond
    decide

-- Restoring And Following

/- The replica when the restore plans. -/
def firstFile : Content
| 0 => [⟨0, 1, 1, 200, 10⟩]
| _ => []

theorem firstFile_listed {f} (hListed : firstFile.Listed f) : f = ⟨0, 1, 1, 200, 10⟩ := by
  rcases hListed with ⟨level, _, hMem⟩
  match level, hMem with
  | 0, hMem => simpa [firstFile] using hMem
  | _ + 1, hMem => simp [firstFile] at hMem

def firstFileReplica : ReplicaOf fourTransactions where
  content := firstFile
  wellListed := by
    constructor
    · intro level _
      match level with
      | 0 => decide
      | _ + 1 => exact List.Pairwise.nil
    · intro f hListed
      cases firstFile_listed hListed
      decide
    · simp [firstFile, snapshotLevel]
    · simp [firstFile, snapshotLevel]
  file f := fourTransactions.tx f.minTXID
  produced := by
    intro f hListed
    cases firstFile_listed hListed
    exact .transaction (by decide) (by decide)

/-
  After the restore the second file is uploaded, one poll of
  follow mode runs, and then it is cancelled.
-/
def followedEnv : RestoreEnv Page :=
  .calm firstFile.listing
    (fun f => .ok (.ok (fourTransactions.tx f.minTXID)))
    (fun txid pages => (none, (applyNewLTXFiles calmFollow
      pageLibrary.zero twoFiles txid pages).2.file))

theorem followedEnv_serves : firstFileReplica.Serves followedEnv where
  lists := by
    rintro level _ _ ⟨⟩
    exact List.prefix_refl _
  opens := by
    rintro f _ _ ⟨⟩
    rfl
  no_v3 := nofun

/-
  A restore in follow mode ends with a later state than its
  plan, and one onto an existing file fails and leaves it.
-/
theorem restore_existing_or_followed :
    ¬ (∀ env,
        firstFileReplica.Serves env →
        ∀ opt fs,
          (restore pageLibrary env opt fs).err = none →
          ∃ plan,
            calcRestorePlan env.files opt.txID
              opt.timestamp = .ok plan ∧
            (restore pageLibrary env opt fs).fs
              opt.outputPath =
              some
                (fourTransactions.replay
                  (maxTXIDOf plan))) ∧
    ¬ (∀ env,
        firstFileReplica.Serves env →
        ∀ opt fs,
          (restore pageLibrary env opt fs).err ≠ none →
          (restore pageLibrary env opt fs).renamed = false →
          (restore pageLibrary env opt fs).fs
            opt.outputPath = none) := by
  refine ⟨?_, ?_⟩
  · intro hClaim
    rcases hClaim followedEnv followedEnv_serves { latest with follow := true } (fun _ => none)
      (by decide) with ⟨plan, hPlan, hOutput⟩
    have hActual : calcRestorePlan followedEnv.files 0 0 = .ok [⟨0, 1, 1, 200, 10⟩] := by decide
    cases hActual.symm.trans hPlan
    revert hOutput
    decide
  · intro hClaim
    have hGone := hClaim followedEnv followedEnv_serves latest (fun _ => some [[1]]) (by decide)
      (by decide)
    revert hGone
    decide

end Small

end Follow

end Replicate
