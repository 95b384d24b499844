import Replicate.DB.WALCapture

/-
  No committed page is lost between the WAL and the level-0
  files, as long as checkpoints only complete after a sync.

  The check between the sync and the checkpoint does not
  close the gap between them. A transaction committed after
  it, or one that a checkpoint other than TRUNCATE copies,
  is gone from the WAL when the next sync looks. `verify`
  finds the last page of the last file still in its place
  and no unknown salts, and lets the sync go on with what
  the WAL has now.

  Main declarations:
    * `DBState.Step.inv`
    * `DBState.Run.inv`
    * `quietSync_replays`
    * `quietSync_loses_page`
-/

-- The Invariant Of Runs

namespace Replicate

open DBState PageHistory

variable {D : Type} [DecidableEq D] {F : WALFormat D} {db db' : DBState D}

omit [DecidableEq D] in
theorem DBState.Inv.fresh {q} (hValid : q.Valid F) : (DBState.fresh q).Inv F where
  valid := hValid
  follows := by simp [DBState.fresh]

omit [DecidableEq D] in
theorem DBState.Inv.of_phase {phase} (hInv : db.Inv F) :
    ({ db with phase := phase } : DBState D).Inv F :=
  ⟨hInv.valid, hInv.follows⟩

omit [DecidableEq D] in
theorem DBState.Inv.measure (hInv : db.Inv F) : (db.measure F).Inv F := by
  unfold DBState.measure
  split
  · exact hInv.of_commits rfl .refl (by simp)
  · exact hInv

omit [DecidableEq D] in
theorem DBState.Inv.execute {mode result q} (hInv : db.Inv F)
    (hSynced : db.CheckpointsSynced F (.execute result))
    (hCheckpoint : SQLite.Checkpoint mode db.sqlite result q) :
    ({ db with sqlite := q } : DBState D).Inv F where
  valid := hCheckpoint.valid hInv.valid
  follows := by
    intro file hLast
    have hUnsynced : db.unsynced F = file.unsynced F db.sqlite := by
      simp only [unsynced]
      rw [show db.l0.getLast? = some file from hLast]
    rcases hInv.follows file hLast with ⟨n, hFollows⟩
    refine ⟨n, hFollows.checkpoint hCheckpoint ?_ ?_⟩
    · rintro rfl
      exact hUnsynced.symm.trans hSynced
    · rintro rfl
      rcases hSynced with hNil | hFlag
      · exact Or.inl (hUnsynced.symm.trans hNil)
      · exact Or.inr hFlag

/- Every step of a run keeps the invariant. -/
theorem DBState.Step.inv {op : Op D} (hInv : db.Inv F) (hSynced : db.CheckpointsSynced F op)
    (hStep : Step F db op db') : db'.Inv F := by
  cases hStep with
  | commit hCommit | mark _ hCommit => exact hInv.of_commits rfl (.single hCommit) id
  | sync _ hOrder | beginFails _ hOrder => exact hInv.verifyAndSync hOrder hSynced
  | begin _ hBefore _ hOrder _ =>
    have hFromStart :=
      SyncViews.InOrder.of_commits (hBefore.trans hOrder.stat) { hOrder with stat := .refl }
    exact (hInv.verifyAndSync hFromStart hSynced).of_phase
  | measure _ => exact hInv.measure.of_phase
  | execute _ hCheckpoint => exact (hInv.execute hSynced hCheckpoint).of_phase
  | unchanged | fail => exact hInv.of_phase
  | finish _ _ _ => exact (hInv.verifyAndSync (SyncViews.inOrder_still F _) rfl).of_phase

theorem DBState.Run.inv {q} (hValid : q.Valid F)
    (hRun : Run F (CheckpointsSynced F) (DBState.fresh q) db) : db.Inv F := by
  induction hRun with
  | refl => exact Inv.fresh hValid
  | tail _ hStep ih =>
    rcases hStep with ⟨op, hSynced, hStep⟩
    exact hStep.inv ih hSynced

-- Replaying The Level-0 Files

omit [DecidableEq D] in
theorem DBState.Settled.replay (hSettled : db.Settled F) :
    (replayL0 F db.l0).commit = db.sqlite.size ∧
      ∀ p, 1 ≤ p → p ≤ (replayL0 F db.l0).commit → p ≠ F.lockPgno →
        (replayL0 F db.l0).page p = some (db.sqlite.page p) := by
  rcases hSettled with ⟨file, hLast, hCovered, hNil⟩
  have hCommit : lastCommit ((sinceFullImage F db.l0).map L0File.content) = db.sqlite.size := by
    rw [lastCommit, List.getLast?_map, getLast?_sinceFullImage, hLast]
    exact hCovered.size_eq hNil
  refine ⟨hCommit, ?_⟩
  intro p hPos hLe hLock
  have hSize : p ≤ db.sqlite.size := by
    rw [← hCommit]
    exact hLe
  have hPage : (replayL0 F db.l0).page p = latestPage F db.l0 p := if_pos hLe
  rw [hPage]
  rcases hCovered.pages p hPos hSize hLock with ⟨f, hf, _⟩ | hLatest
  · rw [hNil] at hf
    simp at hf
  · exact hLatest

/-
  In every run in which a checkpoint copies all frames only
  if level-0 files hold them, or empties the WAL after the
  flag was cleared, and in which the WAL is not started
  anew while a sync copies frames: after a sync that
  overlaps no commit and succeeds, the level-0 files from
  the last full image on replay to the database.
-/
theorem quietSync_replays
    (F : WALFormat D)
    (q : SQLite D)
    (db db' : DBState D)
    (b : Bool)
    (hValid : q.Valid F)
    (hRun :
      Run F (CheckpointsSynced F) (DBState.fresh q) db)
    (hSync : QuietSync F db (.ok b) db') :
    (replayL0 F db'.l0).commit = db'.sqlite.size ∧
    ∀ p,
      1 ≤ p → p ≤ (replayL0 F db'.l0).commit →
      p ≠ F.lockPgno →
      (replayL0 F db'.l0).page p =
        some (db'.sqlite.page p) := by
  have hInv : db.Inv F := hRun.inv hValid
  generalize hResult : (Except.ok b : Except Err Bool) = result at hSync
  cases hSync with
  | present _ _ => exact (hInv.settled .refl hResult.symm).replay
  | created _ _ hCommit => exact (hInv.settled (.single hCommit) hResult.symm).replay

-- A Commit Before A Checkpoint

namespace Gap

/- Pages of 512 bytes, and checksums that do not matter. -/
def format : WALFormat Nat where
  pageSize := 512
  lockPgno := 2097153
  walChecksum _ _ _ _ := (0, 0)

def empty : SQLite Nat where
  file := ⟨2, fun p => 10 * p⟩
  wal := ⟨none, []⟩
  mxFrame := 0
  backfilled := true
  salt1 := 0

def header (salt1 : Nat) : WALHeader :=
  ⟨⟨salt1, 0⟩, (0, 0)⟩

def noErr : SyncEnv := ⟨none, none⟩

/- A transaction that writes both pages. -/
def both : Tx Nat where
  pages := [(1, 11), (2, 21)]
  size := 2
  nonempty := by decide
  within := by decide

def one (p : Fin 2) (d : Nat) : Tx Nat where
  pages := [(p + 1, d)]
  size := 2
  nonempty := by simp
  within := by
    intro x hx
    rw [List.mem_singleton.mp hx]
    have hLt := p.isLt
    exact ⟨by simp, by simp only; omega⟩

def first : SQLite Nat := empty.restart format (header 1) both
def second : SQLite Nat :=
  first.append format (header 1) (one 1 22)

theorem empty_valid : empty.Valid format where
  empty := fun _ => rfl
  mxFrame_le := Nat.le_refl 0
  salt := by simp [empty]
  chained := by simp [empty]
  stale := by simp [empty]
  commits := by
    intro f hf
    simp [SQLite.committed, empty] at hf
  pages := by
    intro f hf
    simp [SQLite.committed, empty] at hf
  copied := fun _ => ⟨rfl, fun _ _ => rfl⟩

theorem both_fits : empty.Fits format both where
  grows := by
    intro p hLt hLe
    have hSize : empty.size = 2 := rfl
    have hEnd : both.size = 2 := rfl
    omega
  lock_free := by decide

theorem one_fits {q : SQLite Nat} (hSize : q.size = 2) (p : Fin 2) (d : Nat) :
    q.Fits format (one p d) where
  grows := by
    intro r hLt hLe
    have hEnd : (one p d).size = 2 := rfl
    omega
  lock_free := by
    intro x hx
    rw [List.mem_singleton.mp hx]
    have hLt := p.isLt
    simp only [format]
    omega

def synced : DBState Nat :=
  (({ DBState.fresh empty with sqlite := first } :
    DBState Nat).verifyAndSync format noErr (.still first)).2

/- A checkpoint up to the check of the size of the WAL. -/
def began (mode : CheckpointMode) : DBState Nat :=
  { (synced.verifyAndSync format noErr (.still first)).2 with
    phase := .synced mode (header 1) }

theorem began_reached (mode : CheckpointMode) :
    Run format (CheckpointsSynced format) (DBState.fresh empty) (began mode) := by
  have hFirst : Run format (CheckpointsSynced format) (DBState.fresh empty)
    { DBState.fresh empty with sqlite := first } :=
    .single ⟨.commit, trivial, .commit (.restart rfl rfl both_fits)⟩
  have hSynced : Run format (CheckpointsSynced format) (DBState.fresh empty) synced := hFirst.tail
    ⟨.sync (.still first), rfl, .sync rfl (SyncViews.inOrder_still _ _) (by decide)⟩
  exact hSynced.tail ⟨.begin (.still first), rfl, @Step.begin Nat _ format synced noErr
    (.still first) mode first (header 1) false rfl .refl rfl (SyncViews.inOrder_still _ _) rfl⟩

/-
  A commit comes before the size of the WAL is checked, and
  TRUNCATE empties the WAL: the flag is cleared.
-/
def truncated : DBState Nat :=
  { (({ began .truncate with sqlite := second } :
    DBState Nat).measure format) with
    sqlite := second.truncate
    phase := .executed (header 1) }

def recovered : SQLite Nat :=
  second.truncate.restart format (header 2) (one 0 13)

theorem truncated_reached :
    Run format (CheckpointsSynced format) (DBState.fresh empty)
      { truncated with phase := .idle } := by
  have hGap := (began_reached .truncate).tail
    ⟨.commit, trivial, .commit (.append rfl (one_fits rfl 1 22))⟩
  have hMeasured := hGap.tail ⟨.measure, trivial, .measure rfl⟩
  have hExecuted := hMeasured.tail ⟨.execute .truncated, Or.inr rfl, .execute rfl (.truncated rfl)⟩
  exact hExecuted.tail ⟨.fail, trivial, .fail⟩

end Gap

/- A commit that the check before TRUNCATE has noticed. -/
theorem quietSync_replays_truncated :
    (replayL0 Gap.format
      (({ Gap.truncated with phase := .idle } : DBState
          Nat).verifyAndSync Gap.format Gap.noErr
        (.still Gap.recovered)).2.l0).page 2 = some 22 := by
  have hCommit : SQLite.Commit Gap.format Gap.second.truncate Gap.recovered :=
    .restart rfl rfl (Gap.one_fits rfl 0 13)
  have hSync := @QuietSync.created Nat _ Gap.format { Gap.truncated with phase := .idle } Gap.noErr
      Gap.recovered rfl (by decide) hCommit
  have hOk : (({ Gap.truncated with phase := .idle } :
    DBState Nat).verifyAndSync Gap.format Gap.noErr (.still Gap.recovered)).1 = .ok true := rfl
  have hReplay :=
    quietSync_replays Gap.format Gap.empty _ _ true Gap.empty_valid Gap.truncated_reached hSync
  exact hReplay.2 2 (by decide) (by decide) (by decide)

namespace Gap

def measured : DBState Nat :=
  { (began .passive).measure format with
    phase := .measured .passive (header 1) }

/- A commit comes before it, and all frames are copied. -/
def executed : DBState Nat :=
  { measured with
    sqlite := second.backfill
    phase := .executed (header 1) }

def restarted : SQLite Nat :=
  second.backfill.restart format (header 2) (one 0 13)

def finished : DBState Nat :=
  { (({ executed with
    sqlite := restarted
    phase := .marked (header 1) } :
      DBState Nat).verifyAndSync format noErr (.still restarted)).2 with
    phase := .idle }

theorem finished_reached : Run format (fun _ _ => True) (DBState.fresh empty) finished := by
  have hBegan : Run format (fun _ _ => True) (DBState.fresh empty) (began .passive) := by
    refine Relation.ReflTransGen.mono ?_ _ _ (began_reached .passive)
    rintro _ _ ⟨op, _, hStep⟩
    exact ⟨op, trivial, hStep⟩
  have hMeasured := hBegan.tail ⟨_, trivial, .measure rfl⟩
  have hGap := hMeasured.tail ⟨_, trivial, .commit (.append rfl (one_fits rfl 1 22))⟩
  have hExecuted := hGap.tail ⟨_, trivial, .execute rfl .completed⟩
  have hMarked : Run format (fun _ _ => True) (DBState.fresh empty)
    { executed with sqlite := restarted, phase := .marked (header 1) } :=
    hExecuted.tail ⟨_, trivial, .mark rfl (.restart rfl rfl (one_fits rfl 0 13))⟩
  exact hMarked.tail ⟨_, trivial, .finish rfl rfl (by decide)⟩

end Gap

/-
  The level-0 files of this run have 21 as page 2, which is
  22 in the database: the commit in between is lost.
-/
theorem quietSync_loses_page :
    Gap.empty.Valid Gap.format ∧
    Run Gap.format (fun _ _ => True)
      (DBState.fresh Gap.empty) Gap.finished ∧
    ∃ db',
      QuietSync Gap.format Gap.finished (.ok false) db' ∧
      2 ≤ (replayL0 Gap.format db'.l0).commit ∧
      2 ≠ Gap.format.lockPgno ∧
      (replayL0 Gap.format db'.l0).page 2 = some 21 ∧
      db'.sqlite.page 2 = 22 := by
  refine ⟨Gap.empty_valid, Gap.finished_reached, _,
    @QuietSync.present Nat _ Gap.format Gap.finished Gap.noErr rfl (by decide), ?_⟩
  decide

end Replicate
