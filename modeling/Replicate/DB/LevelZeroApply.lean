import Replicate.DB.WALSafety

/-
  Applying level-0 files one by one.

  Who applies the level-0 files in order resizes a file to
  the commit of each and writes its pages. This gives the
  database at every file only if a file holds all pages by
  which the database has grown since the one before, even if
  it had shrunk in between.

  `verify` and `sync` look at the last file only, so a run
  goes on in the same way if the files before it are
  replaced. If the database at the last file takes their
  place, no file has a page past its size, and the next one
  must hold the new pages itself.

  Main declarations:
    * `L0Trace`
    * `L0Trace.Step`
    * `L0Trace.written`
    * `DBState.Run.traced`
    * `level0_files_apply`
-/

-- Traces

namespace Replicate

open SQLite DBState PageHistory List

variable {D : Type} {F : WALFormat D} {zero : D}

/- The file after applying level-0 files to an empty one. -/
def applyAll (zero : D) (l0 : List (L0File D)) : List D :=
  (l0.map L0File.content).foldl (applyLayer zero) []

/-
  The database at the last of the level-0 files, as applying
  them gives it, and files that have just its pages.
-/
structure L0Trace (F : WALFormat D) (zero : D) (l0 : List (L0File D)) where
  size : Nat
  page : Nat → D
  length_eq : (applyAll zero l0).length = size
  applied : ∀ p, 1 ≤ p → p ≤ size → p ≠ F.lockPgno →
    (applyAll zero l0).getD (p - 1) zero = page p
  files : List (L0File D)
  last_eq : files.getLast? = l0.getLast?
  latest_eq : ∀ p, 1 ≤ p → p ≠ F.lockPgno →
    latestPage F files p = if p ≤ size then some (page p) else none

/- With these files the run can go on. -/
def DBState.Traced (F : WALFormat D) (zero : D) (db : DBState D) : Prop :=
  ∃ T : L0Trace F zero db.l0, ({ db with l0 := T.files } : DBState D).Inv F

-- Syncing

section Sync

variable {db db' : DBState D} {new : L0File D} {p : Nat}
variable {env : SyncEnv} {v : SyncViews D} {info : SyncInfo}
variable {l0 : List (L0File D)} {T : L0Trace F zero l0} {q : SQLite D}

theorem pageMap_le {rd x} (hMem : x ∈ (F.pageMap rd).1) : x.1 ≤ (F.pageMap rd).2.2 := by
  unfold WALFormat.pageMap at hMem ⊢
  dsimp only at hMem ⊢
  split at hMem
  · simp at hMem
  · rename_i hSome
    rw [if_neg hSome]
    exact of_decide_eq_true (mem_filter.mp hMem).2

/- A file has no page past the size it names. -/
theorem sync_page_eq_none (hOk : sync F l0 env info v = .ok (some new))
    (hPast : new.content.commit < p) : new.content.page p = none := by
  rcases sync_ok hOk with ⟨off, rd, m, maxOffset, walCommit, sz, commit, _, hMap, _, hCommit,
    ⟨hNone, _⟩ | ⟨file, pages, hNew, _, hPages, _, _, hContent⟩⟩
  · simp at hNone
  cases hNew
  rw [hContent] at hPast ⊢
  split at hPages
  · have hTable := Traversal.lookup_tabulate hPages p
    rwa [if_neg] at hTable
    intro hMem
    have hRange := mem_range'_1.mp (mem_filter.mp hMem).1
    exact absurd (Nat.lt_one_add_iff.mp hRange.2) (Nat.not_le.mpr hPast)
  · have hTable := Traversal.lookup_tabulate hPages p
    rwa [if_neg] at hTable
    intro hMem
    rw [mem_insertionSort, mem_dedup, List.mem_map] at hMem
    rcases hMem with ⟨x, hx, rfl⟩
    have hLe : x.1 ≤ (F.pageMap rd).2.2 := pageMap_le (by rw [hMap]; exact hx)
    simp only [hMap] at hLe hPast
    split at hCommit
    · omega
    · omega

theorem DBState.Traced.of_inv (hTraced : db.Traced F zero) (hL0 : db'.l0 = db.l0)
    (hInv : ∀ b, b.getLast? = db.l0.getLast? → ({ db with l0 := b } : DBState D).Inv F →
      ({ db' with l0 := b } : DBState D).Inv F) : db'.Traced F zero := by
  rcases hTraced with ⟨T, hBefore⟩
  rcases db' with ⟨q, l0, off, flag, phase⟩
  subst hL0
  exact ⟨T, hInv T.files T.last_eq hBefore⟩

theorem DBState.Traced.of_commits (hTraced : db.Traced F zero) (hL0 : db'.l0 = db.l0)
    (hCommits : Commits F db.sqlite db'.sqlite)
    (hFlag : db'.syncedToWALEnd = true → db.syncedToWALEnd = true) : db'.Traced F zero :=
  hTraced.of_inv hL0 (fun _ _ hInv => hInv.of_commits rfl hCommits hFlag)

/- A file that takes a trace to another database. -/
structure L0Trace.Step (T : L0Trace F zero l0) (new : L0File D) (q : SQLite D) : Prop where
  commit_eq : new.content.commit = q.size
  past : ∀ p, q.size < p → new.content.page p = none
  pages : ∀ p, 1 ≤ p → p ≤ q.size → p ≠ F.lockPgno → new.content.page p = some (q.page p) ∨
    (new.content.page p = none ∧ p ≤ T.size ∧ T.page p = q.page p)

/- The database as a file with the label of another one. -/
def L0File.withImage (file : L0File D) (q : SQLite D) : L0File D :=
  { file with
    content := ⟨q.size, fun p => if p ≤ q.size then some (q.page p) else none⟩ }

theorem L0Trace.Step.latest_eq (hStep : T.Step new q)
    (hPos : 1 ≤ p) (hLock : p ≠ F.lockPgno) : latestPage F [new.withImage q, new] p =
      if p ≤ q.size then some (q.page p) else none := by
  split
  · rename_i hLe
    change latestPage F ([new.withImage q] ++ [new]) p = _
    rcases hStep.pages p hPos hLe hLock with hSome | ⟨hNone, _⟩
    · exact latestPage_append_some hSome
    · rw [latestPage_append_none hPos (hStep.commit_eq ▸ hLe) hLock hNone]
      simp [latestPage, sinceFullImage, topmost, L0File.withImage, hLe]
  · rename_i hBeyond
    have hNone := hStep.past p (Nat.lt_of_not_le hBeyond)
    simp only [latestPage, sinceFullImage]
    split
    · simp [topmost, hNone]
    · simp [topmost, hNone, L0File.withImage, hBeyond]

theorem applyAll_concat : applyAll zero (l0 ++ [new]) =
    applyLayer zero (applyAll zero l0) new.content := by
  simp [applyAll]

theorem L0Trace.Step.applied (hStep : T.Step new q)
    (hPos : 1 ≤ p) (hLe : p ≤ q.size) (hLock : p ≠ F.lockPgno) :
    (applyAll zero (l0 ++ [new])).getD (p - 1) zero = q.page p := by
  have hLt : p - 1 < new.content.commit := by
    rw [hStep.commit_eq]
    omega
  have hGet : (applyAll zero (l0 ++ [new])).getD (p - 1) zero =
    (new.content.page p).getD ((applyAll zero l0).getD (p - 1) zero) := by
    simp [applyAll_concat, applyLayer, hLt, Nat.sub_add_cancel hPos]
  rw [hGet]
  rcases hStep.pages p hPos hLe hLock with hSome | ⟨hNone, hOld, hEq⟩
  · rw [hSome]
    rfl
  · rw [hNone, ← hEq]
    exact T.applied p hPos hOld hLock

/- The trace with the new file. -/
def L0Trace.Step.push (hStep : T.Step new q) : L0Trace F zero (l0 ++ [new]) where
  size := q.size
  page := q.page
  length_eq := by simp [applyAll_concat, applyLayer, hStep.commit_eq]
  applied := fun _ => hStep.applied
  files := [new.withImage q, new]
  last_eq := by simp
  latest_eq := fun _ => hStep.latest_eq

variable [DecidableEq D]

/- The file that a sync writes takes the trace to the scan. -/
theorem L0Trace.written (T : L0Trace F zero db.l0)
    (hInv : ({ db with l0 := T.files } : DBState D).Inv F) (hOrder : v.InOrder F db.sqlite)
    (hCopy : v.copy.wal.header = v.scan.wal.header) (hVerified : (verify F db v).1 = .ok info)
    (hSync : sync F db.l0 env info v = .ok (some new)) : ∃ hStep : T.Step new v.scan,
      ∀ off flag phase, (⟨v.size, hStep.push.files, off, flag, phase⟩ : DBState D).Inv F := by
  have hPast := fun p => sync_page_eq_none (p := p) hSync
  have hVerify : verify F { db with l0 := T.files } v = verify F db v := by
    simp only [verify, T.last_eq]
  have hSame : sync F T.files env info v = sync F db.l0 env info v := by
    simp only [sync, T.last_eq]
  rw [← hVerify] at hVerified
  rw [← hSame] at hSync
  rcases sync_captures hInv hOrder hCopy hVerified hSync with ⟨hTracks, hCovered, hNil⟩
  have hCommit : new.content.commit = v.scan.size := hCovered.size_eq hNil
  have hStep : T.Step new v.scan := by
    refine ⟨hCommit, hCommit ▸ hPast, ?_⟩
    intro p hPos hLe hLock
    rcases hCovered.pages p hPos hLe hLock with ⟨f, hf, _⟩ | hLatest
    · rw [hNil] at hf
      simp at hf
    cases hPage : new.content.page p with
    | some d =>
      rw [latestPage_append_some hPage] at hLatest
      exact Or.inl hLatest
    | none =>
      -- an earlier file has it, so it is not a new page
      rw [latestPage_append_none hPos (hCommit ▸ hLe) hLock hPage, T.latest_eq p hPos hLock]
        at hLatest
      split at hLatest
      · rename_i hOld
        exact Or.inr ⟨rfl, hOld, Option.some.inj hLatest⟩
      · simp at hLatest
  refine ⟨hStep, ?_⟩
  intro off flag phase
  have hValid : v.scan.Valid F := hOrder.to_scan.valid hInv.valid
  refine ⟨hOrder.from_scan.valid hValid, ?_⟩
  rintro file ⟨⟩
  have hImage : new.Covered F hStep.push.files v.scan := by
    refine ⟨?_, hCovered.size_eq, hCovered.copied⟩
    intro p hPos hLe hLock
    rw [hStep.push.latest_eq p hPos hLock]
    exact Or.inr (if_pos hLe)
  have hFollows : new.Follows F hStep.push.files flag v.scan.mxFrame v.scan :=
    ⟨hValid, hTracks, Or.inl hImage⟩
  exact ⟨v.scan.mxFrame, hFollows.commits hOrder.from_scan⟩

theorem DBState.Traced.verifyAndSync (hTraced : db.Traced F zero) (hOrder : v.InOrder F db.sqlite)
    (hCopy : v.copy.wal.header = v.scan.wal.header) :
    (db.verifyAndSync F env v).2.Traced F zero := by
  have hCommits : Commits F db.sqlite v.size := hOrder.to_scan.trans hOrder.from_scan
  rcases verifyAndSync_cases F db env v with
    ⟨err, db', hEq, hL0, hSize, hFlag⟩ | ⟨info, db', hEq, _, _, hL0, hSize, hFlag⟩ |
      ⟨info, new, db', hEq, hVerified, hSync, hL0, hSize, _⟩
  · rw [hEq]
    exact hTraced.of_commits hL0 (hSize ▸ hCommits) (hFlag ▸ verify_flag)
  · rw [hEq]
    exact hTraced.of_commits hL0 (hSize ▸ hCommits) (hFlag ▸ verify_flag)
  rw [hEq]
  rcases hTraced with ⟨T, hInv⟩
  rcases T.written hInv hOrder hCopy hVerified hSync with ⟨hStep, hInv'⟩
  rcases db' with ⟨q, l0, off, flag, phase⟩
  subst hL0 hSize
  exact ⟨hStep.push, hInv' off flag phase⟩

-- Runs

theorem DBState.Step.traced {op : Op D} (hTraced : db.Traced F zero)
    (hSynced : db.CheckpointsSynced F op) (hStep : Step F db op db') : db'.Traced F zero := by
  cases hStep with
  | commit hCommit | mark _ hCommit => exact hTraced.of_commits rfl (.single hCommit) id
  | sync _ hOrder | beginFails _ hOrder => exact hTraced.verifyAndSync hOrder hSynced
  | begin _ hBefore _ hOrder _ =>
    have hFromStart :=
      SyncViews.InOrder.of_commits (hBefore.trans hOrder.stat) { hOrder with stat := .refl }
    exact (hTraced.verifyAndSync hFromStart hSynced).of_commits rfl .refl id
  | measure _ =>
    unfold DBState.measure
    split
    · exact hTraced.of_commits rfl .refl (by simp)
    · exact hTraced.of_commits rfl .refl id
  | execute _ hCheckpoint =>
    refine hTraced.of_inv rfl (fun b hLast hInv => (hInv.execute ?_ hCheckpoint).of_phase)
    have hUnsynced : ({ db with l0 := b } : DBState D).unsynced F = db.unsynced F := by
      simp only [DBState.unsynced, hLast]
    revert hSynced
    simp only [DBState.CheckpointsSynced, hUnsynced]
    exact id
  | unchanged | fail => exact hTraced.of_commits rfl .refl id
  | @finish env _ _ _ _ _ =>
    have hSync : (db.verifyAndSync F env (.still db.sqlite)).2.Traced F zero :=
      hTraced.verifyAndSync (SyncViews.inOrder_still F db.sqlite) rfl
    exact hSync.of_commits rfl .refl id

theorem DBState.Run.traced (hValid : q.Valid F)
    (hRun : Run F (CheckpointsSynced F) (DBState.fresh q) db) : db.Traced F zero := by
  induction hRun with
  | refl =>
    exact ⟨⟨0, fun _ => zero, rfl, by omega, [], rfl, fun p hPos _ => (if_neg (by omega)).symm⟩,
      Inv.fresh hValid⟩
  | tail _ hStep ih =>
    rcases hStep with ⟨op, hSynced, hStep⟩
    exact hStep.traced ih hSynced

/-
  In every run in which checkpoints complete only after a
  sync, whenever a sync writes a file, whatever is committed
  meanwhile: applying all level-0 files one by one gives the
  database as it was when the sync scanned the WAL.
-/
theorem level0_files_apply
    (F : WALFormat D)
    (zero : D)
    (q : SQLite D)
    (db : DBState D)
    (env : SyncEnv)
    (v : SyncViews D)
    (hValid : q.Valid F)
    (hRun :
      Run F (CheckpointsSynced F) (DBState.fresh q) db)
    (hOrder : v.InOrder F db.sqlite)
    (hCopy : v.copy.wal.header = v.scan.wal.header)
    (hWritten : (db.verifyAndSync F env v).1 = .ok true) :
    (applyAll zero (db.verifyAndSync F env v).2.l0).length =
      v.scan.size ∧
    ∀ p,
      1 ≤ p → p ≤ v.scan.size → p ≠ F.lockPgno →
      (applyAll zero (db.verifyAndSync F env v).2.l0).getD
        (p - 1) zero = v.scan.page p := by
  rcases (hRun.traced hValid : db.Traced F zero) with ⟨T, hInv⟩
  rcases verifyAndSync_cases F db env v with
    ⟨err, db', hEq, _⟩ | ⟨info, db', hEq, _⟩ | ⟨info, new, db', hEq, hVerified, hSync, hL0, _⟩
  · simp [hEq] at hWritten
  · simp [hEq] at hWritten
  rcases T.written hInv hOrder hCopy hVerified hSync with ⟨hStep, _⟩
  rw [hEq, hL0]
  exact ⟨hStep.push.length_eq, hStep.push.applied⟩

end Sync

/-
  After a commit in between, TRUNCATE and one more commit, a
  second file is written, and both files are applied.
-/
theorem second_file_applied :
    ∃ files,
      (({ Gap.truncated with
          sqlite := Gap.recovered
          phase := .idle } : DBState Nat).verifyAndSync
        Gap.format Gap.noErr
        (.still Gap.recovered)).2.l0 = files ∧
      files.length = 2 ∧
      applyAll 0 files = [13, 22] ∧
      (applyAll 0 files).getD 1 0 =
        Gap.recovered.page 2 := by
  have hCommit : SQLite.Commit Gap.format Gap.second.truncate
    Gap.recovered :=
    .restart rfl rfl (Gap.one_fits rfl 0 13)
  have hRun := Gap.truncated_reached.tail
    ⟨.commit, trivial, .commit hCommit⟩
  have hApplied := level0_files_apply Gap.format 0 Gap.empty _
    Gap.noErr (.still Gap.recovered) Gap.empty_valid hRun
    (SyncViews.inOrder_still _ _) rfl rfl
  exact ⟨_, rfl, by decide, by decide,
    hApplied.2 2 (by decide) (by decide) (by decide)⟩

end Replicate
