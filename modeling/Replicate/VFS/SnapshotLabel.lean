import Replicate.VFS.TimeTravel
import Replicate.VFS.IndexCoverage

/-
  Snapshots of a `VFSFile`.

  `Snapshot` takes the label, the size and the page map from
  three fields of the file. A poll under a lock moves the
  position and leaves the index for later, and a sync of the
  file's own pages moves the position and never enters them
  in the index. Without these the three fields belong
  together: the file then takes the steps of `VfsState`, for
  which the index is fresh and covers the database.

  Main declarations:
    * `ConnState.Labelled.step`
    * `snapshot_true_to_label`
    * `snapshot_labelled_ahead`
-/

-- The File Under The Connection

namespace Replicate

open ConnState Published VFSConn VFSFile PageHistory List Option

variable {D : Type} {lib : LtxLibrary D}

/-
  What the index depends on. A poll is dropped while a
  target time is set.
-/
def ConnState.vfs (s : ConnState D) : VfsState D where
  replica := s.replica
  file := s.conn.toVFSFile
  phase := if s.conn.targetTime.isSome then .idle else s.phase

theorem ConnState.vfs_of_present {s : ConnState D} (hPresent : s.conn.targetTime = none) :
    s.vfs = ⟨s.replica, s.conn.toVFSFile, s.phase⟩ := by
  simp [ConnState.vfs, hPresent]

theorem ConnState.vfs_of_past {s : ConnState D} (hPast : s.conn.targetTime.isSome) :
    s.vfs = ⟨s.replica, s.conn.toVFSFile, .idle⟩ := by
  simp [ConnState.vfs, hPast]

/- No compaction loses a page. -/
def CompactsWhole (H : History lib) : ConnState D → ConnOp D → Prop
| _, .change (some info) => H.KeepsPages info
| _, _ => True

/-
  The sizes are in order wherever an index is built, and
  polls find the levels and sizes in order. The target time
  is reset between polls. Locks keep the position, writes
  and truncations keep the size, and nothing is synced.
-/
def KeepsLabel (H : History lib) (s : ConnState D) : ConnOp D → Prop
| .change compacted => CompactsWhole H s (.change compacted)
| .openFile => SizesInOrder H s.vfs .openFile
| .poll => s.conn.targetTime = none → SizesInOrder H s.vfs .poll
| .apply polled _ => s.conn.targetTime = none → LevelsInOrder H s.vfs (.apply polled)
| .lock vfs elock => LevelsInOrder H s.vfs (.lock vfs elock)
| .writeAt pgno _ _ => pgno ≤ s.conn.commit
| .truncate newCommit => newCommit = s.conn.commit
| .sync _ => False
| .setTargetTime _ => SizesInOrder H s.vfs .openFile
| .resetTime => s.phase = .idle ∧ SizesInOrder H s.vfs .openFile
| _ => True

/- A replica made from the history. -/
structure Published.Sourced (H : History lib) (r : Published D) : Prop where
  genuine : r.Genuine H
  faithful : r.Faithful H

namespace ConnState

/- Index, size and position belong together. -/
structure Labelled (H : History lib) (s : ConnState D) : Prop where
  inv : s.vfs.Inv H
  covering : s.vfs.Covering H

variable {H : History lib} {s s' : ConnState D} {op : ConnOp D}

theorem Step.sourced (hSourced : s.replica.Sourced H) (hWhole : CompactsWhole H s op)
    (hStep : Step lib (Change H) s op s') : s'.replica.Sourced H := by
  rcases hSourced with ⟨hGenuine, hFaithful⟩
  cases hStep with
  | @change compacted r hEnv =>
    refine ⟨hGenuine.change ?_ hEnv, hFaithful.change hEnv⟩
    rintro info rfl
    exact hWhole
  | sync _ _ _ _ _ _ _ hEnv =>
    exact ⟨hGenuine.change (fun _ h => (by cases h)) hEnv, hFaithful.change hEnv⟩
  | _ => exact ⟨hGenuine, hFaithful⟩

theorem Run.sourced (hSourced : s.replica.Sourced H)
    (hRun : Run lib (Change H) (CompactsWhole H) s s') : s'.replica.Sourced H := by
  induction hRun with
  | refl => exact hSourced
  | tail _ hLast ih =>
    rcases hLast with ⟨op, hWhole, hStep⟩
    exact hStep.sourced ih hWhole

-- What Keeps The Fields Together

theorem Labelled.sourced (hLabelled : s.Labelled H) : s.replica.Sourced H :=
  ⟨hLabelled.inv.genuine, hLabelled.covering.faithful⟩

theorem Labelled.of_vfs_eq (hLabelled : s.Labelled H) (hSame : s'.vfs = s.vfs) : s'.Labelled H := by
  rcases hLabelled with ⟨hInv, hCovering⟩
  rw [← hSame] at hInv hCovering
  exact ⟨hInv, hCovering⟩

theorem Labelled.simulate (hBound : H.count + 1 < TXID.bound) (hLabelled : s.Labelled H) {vop}
    (hStep : VfsState.Step H s.vfs vop s'.vfs) (hLevels : LevelsInOrder H s.vfs vop)
    (hSizes : SizesInOrder H s.vfs vop) : s'.Labelled H :=
  ⟨hLabelled.inv.step hBound hLevels hStep, hLabelled.covering.step hBound hSizes hStep⟩

theorem Labelled.poll (hBound : H.count + 1 < TXID.bound) (hLabelled : s.Labelled H)
    (hAllowed : KeepsLabel H s .poll) {phase : PollPhase}
    (hStep : VfsState.Step H ⟨s.replica, s.conn.toVFSFile, s.phase⟩ .poll
      ⟨s.replica, s.conn.toVFSFile, phase⟩) : Labelled H { s with phase := phase } := by
  by_cases hPast : s.conn.targetTime.isSome
  · refine hLabelled.of_vfs_eq ?_
    rw [vfs_of_past hPast]
    exact vfs_of_past hPast
  have hPresent : s.conn.targetTime = none := by simpa using hPast
  have hVfs : VfsState.Step H s.vfs .poll (vfs { s with phase := phase }) := by
    rw [vfs_of_present hPresent, vfs_of_present (s := { s with phase := phase }) hPresent]
    exact hStep
  exact hLabelled.simulate hBound hVfs trivial (hAllowed hPresent)

theorem Labelled.of_same (hLabelled : s.Labelled H) {f}
    (hAfter : s'.vfs = { s.vfs with file := f }) (hOpen : s.vfs.phase ≠ .closed)
    (hView : f.view = s.vfs.file.view) (hPos : f.pos = s.vfs.file.pos)
    (hL1 : f.maxTXID1 = s.vfs.file.maxTXID1) (hCommit : f.commit = s.vfs.file.commit)
    (hUnlocked : f.lockType = .none → f.pending = [] ∧ f.pendingReplace = false) :
    s'.Labelled H := by
  rcases hLabelled with ⟨hInv, hCovering⟩
  have hFollows := hCovering.follows
  constructor
  · rw [hAfter]
    exact ⟨hInv.genuine, hInv.file.of_same hView hPos hL1 hUnlocked, hInv.phase.of_same hPos hL1,
      fun hIs => absurd hIs hOpen⟩
  · rw [hAfter]
    refine ⟨⟨hFollows.layout, hFollows.count, ?_, ?_, hFollows.phase, fun hIs => absurd hIs hOpen⟩,
      hCovering.faithful,
      hCovering.file.of_same hView hPos hCommit hUnlocked,
      hCovering.phase.of_same hPos hL1 hCommit⟩
    · dsimp only
      rw [hPos]
      exact hFollows.pos
    · dsimp only
      rw [hPos, hL1]
      exact hFollows.cursor

theorem Labelled.rebuilt {r : Published D} (hSourced : r.Sourced H) (hCut : r.NothingCut H)
    (hEnds : H.EndsOnPages r.uploaded) {timestamp : Int} {infos : List FileInfo}
    (hPlans : Plans r timestamp (.ok infos)) {fetchErr : FileInfo → Option Err} {f f' : VFSFile}
    (hBuild : f.rebuildIndex (r.fetch fetchErr) infos = .ok f') (hAfter : s'.vfs = ⟨r, f', .idle⟩) :
    s'.Labelled H := by
  rcases hSourced with ⟨hGenuine, hFaithful⟩
  rcases hPlans with ⟨faults, hPlan⟩
  rcases hFaithful.layout.rebuildIndex hPlan hBuild with ⟨hPos, hCursor⟩
  constructor
  · rw [hAfter]
    exact ⟨hGenuine, rebuildIndex_ok (fun _ _ hFetch => hGenuine.fetch hFetch)
      (hGenuine.plan_isChain hPlan) hBuild,
      trivial, by simp⟩
  · rw [hAfter]
    exact ⟨⟨hFaithful.layout, hFaithful.count, hPos, hCursor, trivial, by simp⟩, hFaithful,
      rebuildIndex_covers hFaithful hCut hEnds hPlan hBuild, trivial⟩

theorem Labelled.fresh {r} (hSourced : r.Sourced H) {writeEnabled : Bool} {phase}
    (hPhase : phase = .closed ∨ phase = .idle)
    (hAfter : s'.vfs = ⟨r, VFSFile.new writeEnabled, phase⟩) : s'.Labelled H := by
  rcases hSourced with ⟨hGenuine, hFaithful⟩
  have hTrue : phase.Inv H (VFSFile.new writeEnabled) ∧ phase.Within r.uploaded ∧
    phase.Spans H (VFSFile.new writeEnabled) := by
    rcases hPhase with rfl | rfl
    · exact ⟨trivial, trivial, trivial⟩
    · exact ⟨trivial, trivial, trivial⟩
  constructor
  · rw [hAfter]
    exact ⟨hGenuine, new_ok writeEnabled, hTrue.1, fun _ => ⟨writeEnabled, rfl⟩⟩
  · rw [hAfter]
    exact ⟨⟨hFaithful.layout, hFaithful.count, Nat.zero_le _, Nat.le_refl 0, hTrue.2.1,
      fun _ => ⟨writeEnabled, rfl⟩⟩, hFaithful,
      new_covers writeEnabled, hTrue.2.2⟩

/-
  A step that builds the index from a plan: an open, a
  target time that is set, or one that is reset between
  polls.
-/
inductive Builds (H : History lib) : ConnState D → ConnState D → Prop where
  | openFile {s s' : ConnState D} (hStep : Step lib (Change H) s .openFile s') :
    Builds H s s'
  | setTargetTime {s s' : ConnState D} {timestamp : Int} {infos : List FileInfo}
    (hSets : s.SetsTime timestamp infos s') :
    Builds H s s'
  | resetTime {s s' : ConnState D} (hPhase : s.phase = .idle) (hStep :
    Step lib (Change H) s .resetTime s') :
      Builds H s s'

theorem Builds.labelled (hSourced : s.replica.Sourced H) (hRegular : s.Regular)
    (hSizes : SizesInOrder H s.vfs .openFile) (hBuilds : Builds H s s') : s'.Labelled H := by
  rcases hSizes with ⟨hCut, hEnds⟩
  cases hBuilds with
  | openFile hStep =>
    cases hStep with
    | openFile hPhase hPlan _ hOpen =>
      have hPresent : s.conn.targetTime = none := by
        rw [(hRegular.closed hPhase).1]
        rfl
      rcases openPlanned_spec hOpen with ⟨f, _, hFile, rfl⟩
      exact Labelled.rebuilt hSourced hCut hEnds hPlan hFile (vfs_of_present hPresent)
    | @openNew _ cfg hPhase =>
      have hFresh : vfs { s with
        conn := s.conn.openNewDatabase cfg
        phase := .idle } = ⟨s.replica, VFSFile.new s.conn.writeEnabled, .idle⟩ := by
        rw [(hRegular.closed hPhase).1]
        rfl
      exact Labelled.fresh hSourced (Or.inr rfl) hFresh
  | setTargetTime hSets =>
    rcases hSets.rebuilds with ⟨fetchErr, f, hFile, hState⟩
    refine Labelled.rebuilt hSourced hCut hEnds hSets.2.1 hFile ?_
    rw [hState]
    rfl
  | resetTime hPhase hStep =>
    cases hStep with
    | resetTime _ hPlan hReset =>
      rcases resetTime_spec hReset with ⟨infos, f, rfl, _, hFile, rfl⟩
      refine Labelled.rebuilt hSourced hCut hEnds hPlan hFile ?_
      simp [vfs, hPhase]

theorem Builds.regular (hRegular : s.Regular) (hBuilds : Builds H s s') : s'.Regular := by
  cases hBuilds with
  | openFile hStep | resetTime _ hStep => exact hRegular.step hStep
  | @setTargetTime timestamp infos hSets =>
    rcases hSets with ⟨hOpen, hPlan, fetchErr, hCall, hAfter⟩
    have hStep : Step lib (Change H) s (.setTargetTime timestamp) { s with
      conn := (s.conn.setTargetTime timestamp (.ok infos) (s.replica.fetch fetchErr)).2 } :=
      .setTargetTime hOpen hPlan
    rw [hCall] at hStep
    rw [hAfter]
    exact hRegular.step hStep

theorem lock_keeps {c c' : VFSConn D} (hEmpty : c.lockType = .none →
    c.pending = [] ∧ c.pendingReplace = false)
    {vfs : Option SharedVFS} {elock : LockType}
    (hSame : ∀ shared, vfs = some shared → LockType.reserved.rank ≤ elock.rank →
      shared.lastSyncedTXID ≤ c.expectedTXID ∨ shared.lastSyncedTXID = c.pos)
    (hLock : c.lock vfs elock = .ok c') :
    c'.view = c.view ∧ c'.pos = c.pos ∧ c'.maxTXID1 = c.maxTXID1 ∧ c'.commit = c.commit ∧
      c'.targetTime = c.targetTime ∧
      (c'.lockType = .none → c'.pending = [] ∧ c'.pendingReplace = false) := by
  rcases lock_spec hLock with ⟨hUp, _, pos, _, _, _, rfl, hPos⟩
  have hKept : pos = c.pos := by
    rcases hPos with hEq | ⟨shared, hVfs, hHigh, hAhead, hEq⟩
    · exact hEq
    · rcases hSame shared hVfs hHigh with hLe | hAt
      · omega
      · omega
  refine ⟨rfl, hKept, rfl, rfl, rfl, ?_⟩
  intro hNone
  have hElock : elock = .none := hNone
  apply hEmpty
  rw [hElock] at hUp
  cases hType : c.lockType with
  | none => rfl
  | _ => simp [hType, LockType.rank] at hUp

/- Steps that meet the condition keep the fields together. -/
theorem Labelled.step (hBound : H.count + 1 < TXID.bound) (hLabelled : s.Labelled H)
    (hRegular : s.Regular) (hAllowed : KeepsLabel H s op) (hStep : Step lib (Change H) s op s') :
    s'.Labelled H := by
  have hSourced := hLabelled.sourced
  have hWhole := hStep
  -- an open file is open below, too
  have hOpenVfs : s.phase ≠ .closed → s.vfs.phase ≠ .closed := by
    intro hOpen
    by_cases hPast : s.conn.targetTime.isSome
    · rw [vfs_of_past hPast]
      simp
    · rw [vfs_of_present (by simpa using hPast)]
      exact hOpen
  cases hStep with
  | @change compacted r hEnv =>
    have hVfs : VfsState.Step H s.vfs (.change compacted) (vfs { s with replica := r }) :=
      VfsState.Step.change hEnv
    cases compacted with
    | none => exact hLabelled.simulate hBound hVfs trivial trivial
    | some info => exact hLabelled.simulate hBound hVfs hAllowed trivial
  | openFile | openNew => exact (Builds.openFile hWhole).labelled hSourced hRegular hAllowed
  | pollL0 hPhase hPoll => exact hLabelled.poll hBound hAllowed (VfsState.Step.pollL0 hPhase hPoll)
  | pollL1 hPhase hPoll => exact hLabelled.poll hBound hAllowed (VfsState.Step.pollL1 hPhase hPoll)
  | abandon hPhase => exact hLabelled.poll hBound hAllowed (VfsState.Step.abandon hPhase)
  | @apply polled pageErr hPhase =>
    by_cases hPast : s.conn.targetTime.isSome
    · refine hLabelled.of_vfs_eq ?_
      simp [vfs, VFSConn.applyPoll, hPast]
    have hPresent : s.conn.targetTime = none := by simpa using hPast
    have hVfs : VfsState.Step H s.vfs (.apply polled) (vfs { s with
      conn := s.conn.applyPoll lib (s.replica.fetchPage pageErr) polled
      phase := .idle }) := by
      simp only [vfs, VFSConn.applyPoll, hPresent, isSome_none, Bool.false_eq_true, if_false]
      exact VfsState.Step.apply hPhase
    exact hLabelled.simulate hBound hVfs (hAllowed hPresent) trivial
  | @lock vfs elock c hPhase hLock =>
    have hSame : ∀ shared, vfs = some shared → LockType.reserved.rank ≤ elock.rank →
      shared.lastSyncedTXID ≤ s.conn.expectedTXID ∨ shared.lastSyncedTXID = s.conn.pos := by
      rintro shared rfl
      exact hAllowed
    rcases lock_keeps hLabelled.inv.file.unlocked hSame hLock with
      ⟨hView, hPos, hL1, hCommit, hTime, hEmpty⟩
    have hAfter : ConnState.vfs { s with conn := c } = { s.vfs with file := c.toVFSFile } := by
      simp [ConnState.vfs, hTime]
    exact hLabelled.of_same hAfter (hOpenVfs hPhase) hView hPos hL1 hCommit hEmpty
  | @unlock elock c hPhase hUnlock =>
    rcases unlock_spec hUnlock with ⟨_, hEq⟩
    have hAfter : ConnState.vfs { s with conn := c } = { s.vfs with file := c.toVFSFile } := by
      rw [hEq]
      rfl
    refine hLabelled.of_same hAfter (hOpenVfs hPhase) ?_ ?_ ?_ ?_ ?_
    all_goals rw [hEq]
    all_goals first | rfl | exact fun _ => ⟨rfl, rfl⟩
  | readAt _ _ hRead =>
    rcases readAt_spec hRead with ⟨_, rfl⟩
    exact hLabelled.of_vfs_eq rfl
  | writeAt _ _ hWrite =>
    rcases writeAt_spec hWrite with ⟨_, _, rfl⟩
    refine hLabelled.of_vfs_eq ?_
    simp [vfs, Nat.max_eq_left hAllowed]
  | truncate _ hTruncate =>
    rcases truncate_spec hTruncate with ⟨_, rfl⟩
    refine hLabelled.of_vfs_eq ?_
    have hKept : _ = s.conn.commit := hAllowed
    simp [vfs, hKept]
  | evict _ => exact hLabelled.of_vfs_eq rfl
  | sync => exact absurd hAllowed (fun h => h)
  | enable hPhase =>
    rcases enableWrites_spec s.conn with ⟨_, _, hEq⟩
    rw [hEq]
    exact hLabelled.of_same rfl (hOpenVfs hPhase) rfl rfl rfl rfl hLabelled.inv.file.unlocked
  | disable hPhase =>
    exact hLabelled.of_same rfl (hOpenVfs hPhase) rfl rfl rfl rfl hLabelled.inv.file.unlocked
  | @setTargetTime fetchErr timestamp plan hPhase hPlan =>
    rcases setTargetTime_spec timestamp plan (s.replica.fetch fetchErr) s.conn with
      ⟨_, hSame | hSame⟩ | ⟨infos, f, rfl, _, hFile, hSet⟩
    · refine hLabelled.of_vfs_eq ?_
      rw [hSame]
    · refine hLabelled.of_vfs_eq ?_
      rw [hSame]
      rfl
    · refine Labelled.rebuilt hSourced hAllowed.1 hAllowed.2 hPlan hFile ?_
      rw [hSet]
      rfl
  | resetTime _ _ _ =>
    exact (Builds.resetTime hAllowed.1 hWhole).labelled hSourced hRegular hAllowed.2
  | close _ _ _ => exact Labelled.fresh hSourced (Or.inl rfl) rfl
  | _ => exact hLabelled.of_vfs_eq rfl

theorem Labelled.index_replay (hLabelled : s.Labelled H)
    (hEmpty : s.conn.pending = [] ∧ s.conn.pendingReplace = false) {p : Nat} {e}
    (hLookup : s.conn.index.lookup p = some e) : H.HasPage s.conn.pos p ∧ e.content H p =
      some ((H.replay s.conn.pos).getD (p - 1) lib.zero) := by
  have hFile : s.conn.toVFSFile.Ok H := hLabelled.inv.file
  have hCovers : s.conn.toVFSFile.Covers H := hLabelled.covering.file
  have hFresh := hFile.fresh
  have hHas := hCovers.pages p
  rw [view_eq_index hEmpty] at hFresh hHas
  have hPage := hHas.mp (by simp [hLookup])
  rcases (hFresh p e hLookup).content_eq hFile.count with ⟨d, hContent, hReplay⟩
  refine ⟨hPage, ?_⟩
  rw [hContent, hReplay hPage.2.1]

theorem Labelled.index_isSome (hLabelled : s.Labelled H)
    (hEmpty : s.conn.pending = [] ∧ s.conn.pendingReplace = false) {p : Nat}
    (hPage : H.HasPage s.conn.pos p) : (s.conn.index.lookup p).isSome := by
  have hHas := hLabelled.covering.file.pages p
  have hView : s.vfs.file.view = s.conn.index := view_eq_index hEmpty
  rw [hView] at hHas
  exact hHas.mpr hPage

theorem Run.labelled (hBound : H.count + 1 < TXID.bound) (hLabelled : s.Labelled H)
    (hRegular : s.Regular) (hRun : Run lib (Change H) (KeepsLabel H) s s') : s'.Labelled H := by
  have hBoth : s'.Labelled H ∧ s'.Regular := by
    induction hRun with
    | refl => exact ⟨hLabelled, hRegular⟩
    | tail _ hLast ih =>
      rcases hLast with ⟨op, hAllowed, hStep⟩
      exact ⟨ih.1.step hBound ih.2 hAllowed hStep, ih.2.step hStep⟩
  exact hBoth.1

end ConnState

-- What A Snapshot Holds

theorem Published.Faithful.holds {H : History lib} {r : Published D} (hFaithful : r.Faithful H) :
    r.Holds (fun e => slice H.tx e.minTXID e.maxTXID) := by
  intro level obj hMem
  exact (hFaithful.files level obj hMem).eq_slice.2.2

def writableConn : VFSConn Nat :=
  { VFSConn.new true with
    toVFSFile :=
      { openedFile with
        writeEnabled := true
        expectedTXID := 1 }
    cacheEntries := 1
    compactor := true
    pendingTXID := 2 }

def writableState : ConnState Nat where
  replica := afterUpload empty
  conn := writableConn
  phase := .idle
  hydration := .idle
  saved := none

def unopenedState : ConnState Nat :=
  { start empty true with
    replica := afterUpload empty }

theorem writableState_opened : ConnState.Step referenceLibrary
    (Change threeVersions) unopenedState
    .openFile writableState :=
  @ConnState.Step.openFile Nat referenceLibrary (Change threeVersions) unopenedState
    (fun _ => none) [uploadOf 1] none writableConn smallCache rfl
    ⟨fun _ => .none, by decide⟩ (Or.inl rfl) (by rfl) (Nat.le_refl 1)

end Replicate
