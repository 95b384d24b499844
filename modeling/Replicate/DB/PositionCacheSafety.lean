import Replicate.DB.PositionCacheInvariant

/-
  The cached position never lies in careful runs.

  Whenever no goroutine is at work nobody owes an update of
  the cache, so the invariant says that it is right. A reset
  that falls between the rename of a sync and its update of
  the cache is not careful: the position of a file that is
  gone is cached after it.

  Main declarations:
    * `Inv.along`
    * `SyncFails.leavesFiles`
    * `position_cache_truthful`
    * `reset_between_rename_and_record`
-/

-- Quiet States

namespace Replicate

namespace PositionCache

variable {D : Type} {s s' : State D} {remote : Remote D} {a : Actor} {e : Effect D} {run : Trace D}

theorem Inv.truthful (hInv : Inv s) (hQuiet : Quiet s) : Truthful s := by
  have hOwes : s.writer.owes = false := by
    rw [hQuiet.1]
    rfl
  have hNone : ¬ s.Owed := by
    rintro ⟨i, hOwed⟩
    rw [hQuiet.2 i] at hOwed
    cases hOwed
  have hTiled : Tiled s.l0 := hInv.tiled
    (State.not_unlinking (Writer.unlinking_eq_false hOwes) hNone)
  refine ⟨fun txID hCached => Or.inr ?_, hTiled.consecutive⟩
  have hKnown := hInv.known true _ (.cached hOwes hCached)
  rcases hKnown.exact_ rfl hNone with ⟨file, hLast, _, hVerify⟩
  exact ⟨file, hTiled.newest_eq hLast, hVerify⟩

theorem Inv.along (hInv : Inv s) (hRun : Run remote s run)
    (hCareful : CarefulRun s run) : ∀ x ∈ run, Inv x.2.2 := by
  induction run generalizing s with
  | nil => simp
  | cons x rest ih =>
    rcases x with ⟨a, e, s'⟩
    have hNext := hInv.step hRun.1 hCareful.1
    intro y hy
    rcases List.mem_cons.mp hy with rfl | hRest
    · exact hNext
    · exact ih hNext hRun.2 hCareful.2 y hRest

-- Failed Syncs

/- The sync has put its file in place. -/
def Writer.written : Writer → Bool
| .syncRenamed _ => true
| .syncRecorded => true
| _ => false

theorem Step.written (hStep : Step remote s a e s') (hWritten : s.writer.written = true) :
    s'.writer.written = true ∨ (s.writer = .syncRecorded ∧ s'.writer = .idle) := by
  have hReceives : ∀ answer w, ¬ Writer.Receives s.writer answer w := by
    intro answer w hReceives
    generalize s.writer = v at hReceives hWritten
    cases hReceives <;> cases hWritten
  cases hStep with
  | writer hStep hAllows =>
    generalize s.writer = v at hStep hWritten
    cases hStep <;> simp [Writer.written] at hWritten ⊢
  | worker i hStep hAllows =>
    refine Or.inl ?_
    cases e <;> exact hWritten
  | lock | scan | returnOther => exact Or.inl hWritten
  | cached _ _ hGiven | returnWriter _ _ hGiven => exact absurd hGiven (hReceives _ _)

theorem not_syncFails (hRun : Run remote s run)
    (hWritten : s.writer.written = true) : ¬ SyncFails s run := by
  induction run generalizing s with
  | nil => exact id
  | cons x rest ih =>
    rcases x with ⟨a, e, s'⟩
    have hAfter := hRun.1.written hWritten
    cases rest with
    | nil =>
      rintro ⟨_, hNot, hIdle⟩
      rcases hAfter with hStill | ⟨hRecorded, _⟩
      · rw [hIdle] at hStill
        cases hStill
      · exact hNot hRecorded
    | cons y rest =>
      rintro ⟨hSync, hFails⟩
      rcases hAfter with hStill | ⟨_, hIdle⟩
      · exact ih hRun.2 hStill hFails
      · rw [hIdle] at hSync
        cases hSync

theorem Step.leaves (hStep : Step remote s .writer e s')
    (hSync : s.writer.inSync = true ∨ s'.writer.inSync = true) :
    s'.l0 = s.l0 ∨ s'.writer.written = true := by
  cases hStep with
  | writer hStep hAllows =>
    generalize s.writer = v at hStep hSync
    cases hStep with
    | rename pos layer => exact Or.inr rfl
    | removeAll | failRemoveAll | renameFetched => rcases hSync with hSync | hSync <;> cases hSync
    | _ => exact Or.inl rfl

theorem SyncFails.leavesFiles (hRun : Run remote s run)
    (hFails : SyncFails s run) : LeavesFiles s run := by
  induction run generalizing s with
  | nil => trivial
  | cons x rest ih =>
    rcases x with ⟨a, e, s'⟩
    rcases hRun with ⟨hStep, hRest⟩
    cases rest with
    | nil =>
      rcases hFails with ⟨hSync, _, hIdle⟩
      refine ⟨?_, trivial⟩
      rintro rfl
      rcases hStep.leaves (Or.inl hSync) with hSame | hWritten
      · exact hSame
      · rw [hIdle] at hWritten
        cases hWritten
    | cons y rest =>
      rcases hFails with ⟨hSync, hLater⟩
      refine ⟨?_, ih hRest hLater⟩
      rintro rfl
      rcases hStep.leaves (Or.inr hSync) with hSame | hWritten
      · exact hSame
      · exact absurd hLater (not_syncFails hRest hWritten)

theorem run_append {front back} : Run remote s (front ++ back) ↔
    Run remote s front ∧ Run remote (final s front) back := by
  induction front generalizing s with
  | nil => simp [Run, final]
  | cons x front ih =>
    rcases x with ⟨a, e, s'⟩
    simp only [List.cons_append, Run, final, ih, and_assoc]

-- The Cache

/-
  In a careful run the cache is right and the files are
  consecutive whenever nobody is at work. In every run a
  sync that fails has changed no file.
-/
theorem position_cache_truthful
    (remote : Remote D)
    (s : State D)
    (hInit : Initial s)
    (run : Trace D)
    (hRun : Run remote s run) :
    (CarefulRun s run →
      ∀ x ∈ run, Quiet x.2.2 → Truthful x.2.2) ∧
    ∀ front call back,
      run = front ++ call ++ back →
      SyncFails (final s front) call →
      LeavesFiles (final s front) call := by
  constructor
  · intro hCareful x hx hQuiet
    exact (hInit.inv.along hRun hCareful x hx).truthful hQuiet
  · rintro front call back rfl hFails
    have hFront := (run_append.mp hRun).1
    exact hFails.leavesFiles (run_append.mp hFront).2

-- A Sync And A Reset

def emptyState : State Nat :=
  ⟨[], false, none, none, .idle, fun _ => .idle⟩

def noRemote : Remote Nat where
  delivers := fun _ _ => False
  proper := fun _ _ => False.elim
  named := fun _ _ _ => False.elim

theorem initial_emptyState : Initial emptyState where
  quiet := ⟨rfl, fun _ => rfl⟩
  uncached := rfl
  unlocked := rfl
  named := fun file hMem => by cases hMem
  tiled := ⟨0, trivial⟩

def firstFile : LocalFile Nat :=
  ⟨1, 1, .ltx 1 ⟨1, fun _ => none⟩⟩

def scanning (scan : Scan Nat) : State Nat :=
  { emptyState with writer := .syncPos, pos := some (.writer, scan) }

def renamed (l0 : List (LocalFile Nat)) (steps : List Worker) : State Nat :=
  { emptyState with
    l0 := l0
    writer := .syncRenamed 1
    workers := steps.foldl (fun f w => Function.update f 0 w) (fun _ => .idle) }

def firstRename : Trace Nat :=
  [(.writer, .none, { emptyState with writer := .syncPos }), (.pos, .none, scanning .begun),
   (.pos, .none, scanning (.entries [] (0, 0))),
   (.pos, .none, { emptyState with writer := .syncReady 0 }),
   (.writer, .createTemp, { emptyState with temp := true, writer := .syncTemp 0 }),
   (.writer, .rename firstFile, renamed [firstFile] [])]

theorem run_firstRename : Run noRemote emptyState firstRename :=
  ⟨.writer .startSync trivial, .lock .writer rfl rfl (fun _ => Or.inl rfl),
    .scan rfl .readDir, .returnWriter rfl (.zero (0, 0) rfl) (.sync 0),
    .writer (.openTemp 0) trivial, .writer (.rename 0 _) rfl, trivial⟩

def recorded (l0 : List (LocalFile Nat)) (steps : List Worker) : State Nat :=
  { renamed l0 steps with posCache := some 1, writer := .idle }

def lastSteps (l0 : List (LocalFile Nat)) (steps : List Worker) : Trace Nat :=
  [(.writer, .record 1, { recorded l0 steps with writer := .syncRecorded }),
   (.writer, .none, recorded l0 steps)]

theorem run_lastSteps (l0 : List (LocalFile Nat)) (steps : List Worker) :
    Run noRemote (renamed l0 steps) (lastSteps l0 steps) :=
  ⟨.writer (.record 1) rfl, .writer .endSync trivial, trivial⟩

def secondFile : LocalFile Nat :=
  ⟨2, 2, .ltx 2 ⟨1, fun _ => none⟩⟩

def retentionSteps : List Worker :=
  [.retention [(1, 1)], .retention [], .idle]

def secondState
    (l0 : List (LocalFile Nat))
    (steps : List Worker)
    (cache : Option Nat)
    (writer : Writer) : State Nat :=
  { renamed l0 steps with posCache := cache, writer := writer }

/-
  A second sync, which gets the cached position. Before it
  records its own, the retention removes the first file.
-/
def secondSync : Trace Nat :=
  [(.writer, .none,
    secondState [firstFile] [] (some 1) .syncPos),
   (.pos, .none,
    secondState [firstFile] [] (some 1) (.syncReady 1)),
   (.writer, .createTemp,
    { secondState [firstFile] [] (some 1) (.syncTemp 1) with
      temp := true }),
   (.writer, .rename secondFile,
    secondState [firstFile, secondFile] [] (some 1)
      (.syncRenamed 2)),
   (.worker 0, .none,
    secondState [firstFile, secondFile]
      (retentionSteps.take 1) (some 1) (.syncRenamed 2)),
   (.worker 0, .remove (1, 1),
    secondState [secondFile] (retentionSteps.take 2) (some 1)
      (.syncRenamed 2)),
   (.worker 0, .invalidate,
    secondState [secondFile] retentionSteps none
      (.syncRenamed 2)),
   (.writer, .record 2,
    secondState [secondFile] retentionSteps (some 2)
      .syncRecorded),
   (.writer, .none,
    secondState [secondFile] retentionSteps (some 2) .idle)]

theorem run_secondSync :
    Run noRemote (recorded [firstFile] []) secondSync :=
  ⟨.writer .startSync trivial, .cached rfl rfl (.sync 1),
    .writer (.openTemp 1) trivial, .writer (.rename 1 _) rfl,
    .worker 0 (.startRetention [(1, 1)] (by decide)) trivial,
    .worker 0 (.removeExpired (1, 1) [])
      List.mem_cons_self,
    .worker 0 .endRetention rfl, .writer (.record 2) rfl,
    .writer .endSync trivial, trivial⟩

/- After both syncs the position is that of the second file. -/
theorem second_sync_truthful :
    Truthful
      (secondState [secondFile] retentionSteps (some 2)
        .idle) := by
  have hRun : Run noRemote emptyState
    (firstRename ++ (lastSteps [firstFile] [] ++ secondSync)) :=
    run_append.mpr ⟨run_firstRename, run_append.mpr
      ⟨run_lastSteps [firstFile] [], run_secondSync⟩⟩
  have hFirst : ∀ file ∈ [firstFile, secondFile],
    1 ≤ file.minTXID := by
    decide
  have hRenamed : ∀ txID, Writer.syncRenamed 2 =
    .syncRenamed txID → (txID, txID) ∈ names [secondFile] := by
    rintro txID ⟨⟩
    exact List.mem_cons_self
  have hCareful : CarefulRun emptyState
    (firstRename ++ (lastSteps [firstFile] [] ++ secondSync)) :=
    ⟨trivial, trivial, trivial, trivial, trivial, trivial,
      trivial, trivial, trivial, trivial, trivial, trivial,
      trivial, hFirst, hRenamed, trivial, trivial, trivial⟩
  refine (position_cache_truthful noRemote emptyState
    initial_emptyState _ hRun).1 hCareful (.writer, .none, _)
    ?_ ⟨rfl, ?_⟩
  · have hLast :
      secondSync.getLast (List.cons_ne_nil _ _) ∈ secondSync :=
      List.getLast_mem _
    exact List.mem_append_right _
      (List.mem_append_right _ hLast)
  · intro i
    simp [renamed, retentionSteps]

def resetSteps : List Worker :=
  [.reset .begun, .reset .unlinking, .reset .done, .idle]

def resetTrace : Trace Nat :=
  [(.worker 0, .none, renamed [firstFile] (resetSteps.take 1)),
   (.worker 0, .unlink (1, 1), renamed [] (resetSteps.take 2)),
   (.worker 0, .none, renamed [] (resetSteps.take 3)),
   (.worker 0, .invalidate, renamed [] resetSteps)]

theorem run_resetTrace : Run noRemote (renamed [firstFile] []) resetTrace :=
  ⟨.worker 0 .startReset trivial, .worker 0 (.removeAll (.unlink (1, 1) (by decide)))
    (List.mem_singleton_self (1, 1)),
    .worker 0 (.removeAll (.finish (by decide) rfl rfl)) trivial,
    .worker 0 .endReset rfl, trivial⟩

/-
  The reset removes the new file and clears the cache, then
  the sync caches the position of that file.
-/
theorem reset_between_rename_and_record :
    ∃ run,
      Initial emptyState ∧
      Run noRemote emptyState run ∧
      Quiet (final emptyState run) ∧
      (final emptyState run).l0 = [] ∧
      (final emptyState run).posCache = some 1 ∧
      ¬ Truthful (final emptyState run) := by
  have hRun : Run noRemote emptyState (firstRename ++ (resetTrace ++ lastSteps [] resetSteps)) :=
    run_append.mpr ⟨run_firstRename, run_append.mpr ⟨run_resetTrace, run_lastSteps [] resetSteps⟩⟩
  have hIdle : ∀ i, (recorded [] resetSteps).workers i = .idle := by
    intro i
    simp [recorded, renamed, resetSteps]
  refine ⟨_, initial_emptyState, hRun, ⟨rfl, hIdle⟩, rfl, rfl, ?_⟩
  intro hTruthful
  rcases hTruthful.position 1 rfl with ⟨_, hZero⟩ | ⟨file, hNewest, _⟩
  · cases hZero
  · cases hNewest

end PositionCache

end Replicate
