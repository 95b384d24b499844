import Replicate.VFS.ReadStability

/-
  Time travel.

  `SetTargetTime` exchanges the index for that of an older
  plan and stops the hydrated file from being read. Polls
  are not applied while it is active. The write path and a
  hydration that is still running do not know about it: a
  write-enabled file accepts writes on top of historical
  pages and uploads them, writes can also be enabled later,
  a compactor takes a snapshot of the historical pages, and
  a hydration that completes brings back the latest state.

  Main declarations:
    * `buildIndexMap_planPage`
    * `ConnState.Travelling.step`
    * `time_travel_stable`
    * `historical_page_uploaded`
-/

-- The Pages Of A Plan

namespace Replicate

open Published VFSConn PageHistory

variable {D : Type} {lib : LtxLibrary D} {files : PageElem → Layer D}

/- The file of a name. -/
def FileInfo.elem (info : FileInfo) : PageElem :=
  ⟨info.level, info.minTXID, info.maxTXID⟩

/- The version of a page in the last file that has it. -/
def planPage (files : PageElem → Layer D) (infos : List FileInfo) (p : Nat) : Option D :=
  topmost p (infos.map (fun info => files info.elem))

/- A file has only pages from one to its commit. -/
def PagesWithin (files : PageElem → Layer D) : Prop :=
  ∀ e p, ((files e).page p).isSome → 1 ≤ p ∧ p ≤ (files e).commit

theorem Published.Holds.fetch {r : Published D} (hHolds : r.Holds files)
    {fetchErr : FileInfo → Option Err} {info : FileInfo} {file : Layer D}
    (hFetch : r.fetch fetchErr info = .ok file) : file = files info.elem :=
  hHolds _ _ (mem_of_fetch hFetch)

/- The index of a plan refers to the pages of the plan. -/
theorem buildIndexMap_planPage (hWithin : PagesWithin files) {fetch}
    (hFetch : ∀ info file, fetch info = .ok file → file = files info.elem) {infos index}
    {commit : Nat} (hBuild : buildIndexMap fetch infos = .ok (index, commit)) (p : Nat) :
    (index.lookup p).bind (fun e => (files e).page p) = planPage files infos p := by
  induction infos using List.reverseRecOn generalizing index commit with
  | nil =>
    rw [← (Prod.mk.inj (Except.ok.inj hBuild)).1]
    rfl
  | append_singleton infos info ih =>
    rcases buildIndexMap_concat hBuild with ⟨before, size, file, hBefore, hFile, rfl, _⟩
    have hInit := ih hBefore
    have hNamed := hFetch info file hFile
    unfold planPage at hInit ⊢
    rw [List.lookup_append, List.map_append, topmost_append, ← hInit,
      lookup_fetchPageIndex_of_within (by rw [hNamed]; exact hWithin _ p), hNamed]
    cases hPage : (files info.elem).page p with
    | none => simp [topmost, hPage]
    | some d =>
      have hSame : (files ⟨info.level, info.minTXID, info.maxTXID⟩).page p = some d := hPage
      simp [topmost, hPage, hSame]

-- Travelling

/- The step ends the view that was set. -/
def ConnOp.leaves : ConnOp D → Bool
| .setTargetTime _ => true
| .resetTime => true
| .close => true
| _ => false

/- The file has no writes, no compactor and no hydration under way. -/
def TravelsReadOnly (s : ConnState D) : Prop :=
  s.conn.writeEnabled = false ∧ s.conn.compactor = false ∧ s.hydration.running = false

/- The view stays, and writes are not enabled. -/
def ConnOp.StaysReadOnly (op : ConnOp D) : Prop :=
  op.leaves = false ∧ op ≠ .setWriteEnabled true

namespace ConnState

variable {s s' : ConnState D} {op : ConnOp D} {infos : List FileInfo}

/- A call of `SetTargetTime` that succeeds. -/
def SetsTime (s : ConnState D) (timestamp : Int) (infos : List FileInfo)
    (s' : ConnState D) : Prop :=
  s.phase ≠ .closed ∧ Plans s.replica timestamp (.ok infos) ∧ ∃ fetchErr,
    s.conn.setTargetTime timestamp (.ok infos) (s.replica.fetch fetchErr) = (.ok (), s'.conn) ∧
    s' = { s with conn := s'.conn }

/-
  Reads give the pages of a plan, nothing can be written,
  and nothing is uploaded.
-/
structure ShowsPlan (lib : LtxLibrary D) (files : PageElem → Layer D)
    (infos : List FileInfo) (s : ConnState D) : Prop where
  reads : ∀ i pageErr d c, s.conn.readAt lib (s.replica.fetchPage pageErr) (i + 1) = .ok (d, c) →
    planPage files infos (i + 1) = some d
  locks : ∀ vfs elock c, LockType.reserved.rank ≤ elock.rank → s.conn.lock vfs elock ≠ .ok c
  writes : ∀ fetch pgno patch c, s.conn.writeAt lib fetch pgno patch ≠ .ok c
  syncs : s.conn.syncs = false
  snapshots : ∀ fetch out, s.conn.snapshot fetch ≠ .ok out

/- What holds while the view stays. -/
structure Travelling (files : PageElem → Layer D) (infos : List FileInfo)
    (s : ConnState D) : Prop where
  holds : s.replica.Holds files
  opened : s.phase ≠ .closed
  disabled : s.conn.writeEnabled = false
  compactor : s.conn.compactor = false
  active : s.conn.targetTime.isSome
  idle : s.hydration.running = false
  hydrated : s.conn.hydrated = none
  pending : s.conn.pending = [] ∧ s.conn.pendingReplace = false
  index : ∀ p e, s.conn.index.lookup p = some e → (files e).page p = planPage files infos p
  cache : ∀ p d, s.conn.cache.lookup p = some d → planPage files infos p = some d

theorem SetsTime.rebuilds {timestamp : Int} (hSets : s.SetsTime timestamp infos s') :
    ∃ fetchErr f, s.conn.toVFSFile.rebuildIndex (s.replica.fetch fetchErr) infos = .ok f ∧
      s' = { s with
        conn :=
          { s.conn.disabled with
            toVFSFile := f
            cache := []
            targetTime := some timestamp } } := by
  rcases hSets with ⟨_, _, fetchErr, hSet, hState⟩
  rcases setTargetTime_spec timestamp (.ok infos) (s.replica.fetch fetchErr) s.conn with
    ⟨⟨err, hErr⟩, _⟩ | ⟨infos', f, hPlan, _, hFile, hEq⟩
  · rw [hSet] at hErr
    cases hErr
  rw [hSet] at hEq
  rw [← Except.ok.inj hPlan] at hFile
  rw [(Prod.mk.inj hEq).2] at hState
  exact ⟨fetchErr, f, hFile, hState⟩

theorem SetsTime.travelling (hWithin : PagesWithin files) (hHolds : s.replica.Holds files)
    {timestamp : Int} (hAllowed : TravelsReadOnly s) (hSets : s.SetsTime timestamp infos s') :
    s'.Travelling files infos := by
  rcases hSets.rebuilds with ⟨fetchErr, f, hFile, hState⟩
  unfold VFSFile.rebuildIndex at hFile
  split at hFile
  · cases hFile
  rename_i index commit hBuild
  have hPages := buildIndexMap_planPage hWithin (fun info file => hHolds.fetch) hBuild
  rw [hState, ← Except.ok.inj hFile]
  refine ⟨hHolds, hSets.1, hAllowed.1, hAllowed.2.1, rfl, hAllowed.2.2, ?_, ⟨rfl, rfl⟩, ?_, ?_⟩
  · exact hydrated_disabled s.conn
  · intro p e hLookup
    rw [← hPages p]
    have hEntry : index.lookup p = some e := hLookup
    rw [hEntry]
    rfl
  · intro p d hLookup
    cases hLookup

theorem Travelling.sees (hTravelling : s.Travelling files infos) {p : Nat} {d : D}
    (hSees : s.conn.sees lib files p = some d) : planPage files infos p = some d := by
  have hDirty : s.conn.dirtyPage p = none := by
    unfold dirtyPage
    simp [hTravelling.disabled]
  rw [sees_eq, hDirty, hTravelling.hydrated] at hSees
  have hStored : s.conn.stored lib files p = some d := hSees
  unfold stored at hStored
  split at hStored
  · rename_i d' hCache
    rw [← Option.some.inj hStored]
    exact hTravelling.cache p d' hCache
  split at hStored
  · simp [hTravelling.disabled] at hStored
  · rename_i e hIndex
    rw [← hTravelling.index p e hIndex]
    exact hStored

/- No other step ends it. -/
theorem Travelling.step (hTravelling : s.Travelling files infos) (hStays : op.StaysReadOnly)
    (hStep : Step lib (AnyHolding files) s op s') : s'.Travelling files infos := by
  have hHolds := hStep.holds hTravelling.holds
  rcases hTravelling with
    ⟨hOld, hOpen, hDisabled, hNoCompactor, hActive, hIdle, hHydrated, hPending, hIndex, hCache⟩
  -- the hydration has nothing left to do but the purge
  have hNotRunning : ∀ phase, s.hydration = phase → phase.running = true → False := by
    rintro _ rfl hBusy
    rw [hIdle] at hBusy
    cases hBusy
  cases hStep with
  | change _ =>
    exact ⟨hHolds, hOpen, hDisabled, hNoCompactor, hActive, hIdle, hHydrated, hPending, hIndex, hCache⟩
  | openFile hPhase | openNew hPhase => exact absurd hPhase hOpen
  | pollL0 | pollL1 | abandon =>
    exact ⟨hHolds, by simp, hDisabled, hNoCompactor, hActive, hIdle, hHydrated, hPending, hIndex, hCache⟩
  | apply _ =>
    unfold applyPoll
    rw [if_pos hActive]
    exact ⟨hHolds, by simp, hDisabled, hNoCompactor, hActive, hIdle, hHydrated, hPending, hIndex, hCache⟩
  | lock _ hLock =>
    rcases lock_spec hLock with ⟨_, _, _, _, _, _, rfl, _⟩
    exact ⟨hHolds, hOpen, hDisabled, hNoCompactor, hActive, hIdle, hHydrated, hPending, hIndex, hCache⟩
  | unlock _ hUnlock =>
    rw [(unlock_spec hUnlock).2]
    refine ⟨hHolds, hOpen, hDisabled, hNoCompactor, hActive, hIdle, hHydrated, ⟨rfl, rfl⟩, ?_, ?_⟩
    · dsimp only
      rw [hPending.1, hPending.2]
      exact hIndex
    · dsimp only
      rw [hPending.1, hPending.2]
      simpa [EntryList.restrict] using hCache
  | @readAt pageErr pgno d c _ _ hRead =>
    rcases readAt_cases hRead with ⟨rfl, _⟩ | ⟨e, _, _, _, hEntry, hFetch, rfl⟩
    · exact ⟨hHolds, hOpen, hDisabled, hNoCompactor, hActive, hIdle, hHydrated, hPending, hIndex, hCache⟩
    refine ⟨hHolds, hOpen, hDisabled, hNoCompactor, hActive, hIdle, hHydrated, hPending, hIndex, ?_⟩
    intro p d' hLookup
    rw [List.lookup_cons] at hLookup
    by_cases hSame : p = pgno
    · subst hSame
      rw [beq_self_eq_true] at hLookup
      rw [← Option.some.inj hLookup, ← hIndex p e hEntry]
      exact hOld.fetchPage hFetch
    · rw [beq_eq_false_iff_ne.mpr hSame] at hLookup
      exact hCache p d' hLookup
  | writeAt _ _ hWrite =>
    have hEnabled := (writeAt_spec hWrite).2.1
    rw [hDisabled] at hEnabled
    cases hEnabled
  | truncate _ hTruncate =>
    have hEnabled := (truncate_spec hTruncate).1
    rw [hDisabled] at hEnabled
    cases hEnabled
  | evict _ =>
    refine ⟨hHolds, hOpen, hDisabled, hNoCompactor, hActive, hIdle, hHydrated, hPending, hIndex, ?_⟩
    intro p d hLookup
    unfold VFSConn.evict at hLookup
    rw [EntryList.lookup_restrict] at hLookup
    split at hLookup
    · exact hCache p d hLookup
    · cases hLookup
  | sync _ hSyncs => simp [VFSConn.syncs, hDisabled] at hSyncs
  | enable => exact absurd rfl hStays.2
  | disable _ hOn =>
    rw [hDisabled] at hOn
    cases hOn
  | setTargetTime | resetTime | close => cases hStays.1
  | hydrateStart hPhase | hydrateResume hPhase | hydrateRestore hPhase | hydrateCatchUp hPhase
  | hydrateReady hPhase | complete hPhase => exact (hNotRunning _ hPhase rfl).elim
  | hydrateFail _ _ hBusy => exact (hNotRunning _ rfl hBusy).elim
  | purge _ =>
    exact ⟨hHolds, hOpen, hDisabled, hNoCompactor, hActive, rfl, hHydrated, hPending, hIndex,
      fun p d hLookup => (by cases hLookup)⟩

theorem Run.travelling (hTravelling : s.Travelling files infos) (hRun :
    Run lib (AnyHolding files) (fun _ op => op.StaysReadOnly) s s') :
    s'.Travelling files infos := by
  induction hRun with
  | refl => exact hTravelling
  | tail _ hLast ih =>
    rcases hLast with ⟨op, hStays, hStep⟩
    exact ih.step hStays hStep

theorem Travelling.shows (hTravelling : s.Travelling files infos) :
    s.ShowsPlan lib files infos := by
  have hDisabled := hTravelling.disabled
  refine ⟨?_, ?_, ?_, ?_, ?_⟩
  · intro i pageErr d c hRead
    exact hTravelling.sees (readAt_sees hTravelling.holds hRead).1
  · intro vfs elock c hHigh hLock
    have hEnabled := (lock_spec hLock).2.1 hHigh
    rw [hDisabled] at hEnabled
    cases hEnabled
  · intro fetch pgno patch c hWrite
    have hEnabled := (writeAt_spec hWrite).2.1
    rw [hDisabled] at hEnabled
    cases hEnabled
  · simp [VFSConn.syncs, hDisabled]
  · intro fetch out hSnapshot
    simp [snapshot, hTravelling.compactor] at hSnapshot

end ConnState

/-
  After any run, if a target time is set on a file without
  writes, without a compactor and without a hydration under
  way and the call succeeds, the file shows the pages of the
  call's plan, read-only, until the next call, as long as
  its writes are not enabled.
-/
theorem time_travel_stable
    (hWithin : PagesWithin files)
    {r : Published D}
    (hHolds : r.Holds files)
    {writeEnabled : Bool}
    {s s₁ s₂ : ConnState D}
    {timestamp : Int}
    {infos : List FileInfo}
    (hRun :
      ConnState.Run lib (AnyHolding files) (fun _ _ => True)
        (ConnState.start r writeEnabled) s)
    (hAllowed : TravelsReadOnly s)
    (hSets : s.SetsTime timestamp infos s₁)
    (hLater :
      ConnState.Run lib (AnyHolding files)
        (fun _ op => op.StaysReadOnly) s₁ s₂) :
    s₂.ShowsPlan lib files infos :=
  (hLater.travelling (hSets.travelling hWithin (hRun.holds hHolds) hAllowed)).shows

-- A Reader In The Past

theorem versionFiles_within : PagesWithin versionFiles := by
  intro e p hSome
  by_cases hPage : p = 1
  · subst hPage
    exact ⟨Nat.le_refl 1, Nat.le_refl 1⟩
  · simp [versionFiles, threeVersions, hPage] at hSome

def travellingState : ConnState Nat :=
  { openedConnState none with
    conn := { openedConn none with targetTime := some 50 } }

theorem travellingState_shows_plan :
    TravelsReadOnly (openedConnState none) ∧
    travellingState.ShowsPlan referenceLibrary versionFiles
      [uploadOf 1] := by
  have hAllowed : TravelsReadOnly (openedConnState none) := ⟨rfl, rfl, rfl⟩
  have hSets : (openedConnState none).SetsTime 50 [uploadOf 1] travellingState :=
    ⟨by decide, ⟨fun _ => .none, by decide⟩, fun _ => none, by rfl, rfl⟩
  exact ⟨hAllowed, time_travel_stable versionFiles_within versionFiles_holds_empty
    (openedConn_reached (versionFiles_holds_upload versionFiles_holds_empty) (Or.inl rfl))
    hAllowed hSets Relation.ReflTransGen.refl⟩

-- A Writer In The Past

def datedUpload (t : Nat) : FileInfo :=
  ⟨0, t, t, 100, 10 * t⟩

/-
  Two transactions of other processes, and one that the file
  makes of the first.
-/
def pastFiles (e : PageElem) : Layer Nat :=
  if e.maxTXID = 3 then
    ⟨1, fun p =>
      if p = 262145 then none else [(1, 101)].lookup p⟩
  else threeVersions.tx e.maxTXID

def datedReplica : Published Nat where
  objects := fun level =>
    if level = 0 then [(datedUpload 1, threeVersions.tx 1), (datedUpload 2, threeVersions.tx 2)]
    else []
  uploaded := 2

theorem datedReplica_holds : datedReplica.Holds pastFiles := by
  intro level obj hMem
  unfold datedReplica at hMem
  dsimp only at hMem
  split at hMem
  · rcases List.mem_cons.mp hMem with rfl | hRest
    · rfl
    · rw [List.mem_singleton.mp hRest]
      rfl
  · cases hMem

def writerConn : VFSConn Nat :=
  { new true with
    toVFSFile :=
      { VFSFile.new true with
        index := [(1, ⟨0, 2, 2⟩), (1, ⟨0, 1, 1⟩)]
        pos := 2
        maxTXID1 := 2
        commit := 1
        expectedTXID := 2 }
    cacheEntries := 1
    compactor := true
    pendingTXID := 3 }

def pastConn : VFSConn Nat :=
  { writerConn with
    index := [(1, ⟨0, 1, 1⟩)]
    pos := 1
    maxTXID1 := 1
    targetTime := some 15 }

def writerState (c : VFSConn Nat) : ConnState Nat :=
  ⟨datedReplica, c, .idle, .idle, none⟩

def pastReplica : Published Nat :=
  { datedReplica.append 0 (datedUpload 3, pastFiles ⟨0, 3, 3⟩) with
    uploaded := 3 }

theorem pastReplica_holds : pastReplica.Holds pastFiles := by
  intro level obj hMem
  unfold pastReplica append at hMem
  dsimp only at hMem
  split at hMem
  · rename_i hLevel
    rcases List.mem_append.mp hMem with hOld | hNew
    · exact datedReplica_holds level obj hOld
    · rw [List.mem_singleton.mp hNew]
      rfl
  · exact datedReplica_holds level obj hMem

/-
  A writer looks at the first of two transactions, takes the
  write lock, changes the page it sees, and uploads it as
  the third: the second transaction is undone.
-/
theorem historical_page_uploaded :
    ∃ s₁ s₂,
      ConnState.Run referenceLibrary (AnyHolding pastFiles)
        (fun _ _ => True)
        (ConnState.start datedReplica true)
        (writerState writerConn) ∧
      (writerState writerConn).SetsTime 15 [datedUpload 1]
        s₁ ∧
      planPage pastFiles [datedUpload 1] 1 = some 1 ∧
      ConnState.Run referenceLibrary (AnyHolding pastFiles)
        (fun _ op => op.leaves = false) s₁ s₂ ∧
      s₂.conn.targetTime = some 15 ∧
      (s₂.replica.content 0).map FileInfo.maxTXID =
        [1, 2, 3] ∧
      (s₂.replica.fetchPage (fun _ _ => none) ⟨0, 3, 3⟩ 1) =
        .ok 101 := by
  have hPlan : ConnState.Plans datedReplica 0 (.ok [datedUpload 1, datedUpload 2]) :=
    ⟨fun _ => .none, by decide⟩
  have hOpen : ConnState.Step referenceLibrary (AnyHolding pastFiles)
    (ConnState.start datedReplica true) .openFile
    (writerState writerConn) :=
    @ConnState.Step.openFile Nat referenceLibrary _
      (ConnState.start datedReplica true) (fun _ => none)
      [datedUpload 1, datedUpload 2] none writerConn smallCache rfl
      hPlan (Or.inl rfl) (by rfl) (Nat.le_refl 1)
  have hSets : (writerState writerConn).SetsTime 15 [datedUpload 1] (writerState pastConn) :=
    ⟨by decide, ⟨fun _ => .none, by decide⟩, fun _ => none, by rfl, rfl⟩
  have hLock : ConnState.Run referenceLibrary (AnyHolding pastFiles)
    (fun _ op => op.leaves = false) (writerState pastConn) _ :=
    .single ⟨.lock none .reserved, rfl, .lock (by decide) rfl⟩
  have hWrite := hLock.step (@ConnState.Step.writeAt _ _ _ _ (fun _ _ => none) 1
    (fun d => d + 100) _ (by decide) (Nat.le_refl 1) rfl) rfl
  have hUnlock := hWrite.step (@ConnState.Step.unlock _ _ _ _ .none _ (by decide) rfl) rfl
  have hSync := hUnlock.step (@ConnState.Step.sync _ _ _ _ .none ⟨[datedUpload 2], none⟩
    (datedUpload 3) (pastFiles ⟨0, 3, 3⟩) _ [] (by decide) rfl rfl rfl rfl rfl rfl
    pastReplica_holds nofun) rfl
  exact ⟨_, _, .single ⟨.openFile, trivial, hOpen⟩, hSets, by decide, hSync, rfl, by decide, rfl⟩

end Replicate
