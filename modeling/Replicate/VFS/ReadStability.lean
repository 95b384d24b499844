import Replicate.VFS.ConnectionRuns
import Replicate.VFS.IndexFreshness

/-
  Reads inside a read transaction.

  While a lock is held a poll goes to the pending map, which
  no read looks at. But `FileSize` does, the hydrated file
  is updated at once, an unlock to a shared lock moves the
  pending map, and a hydration that completes takes over
  from the index. Of a page that was synced the only copy
  can be in the cache.

  Main declarations:
    * `ConnState.Reading.sees_eq`
    * `ConnState.Reading.fileSize_eq`
    * `reads_stable`
    * `read_changes_under_lock`
-/

-- Read Transactions

namespace Replicate

open ConnState EntryList Hydrator Published VFSConn PageHistory

variable {D : Type} {lib : LtxLibrary D} {files : PageElem → Layer D}

/- Any change after which the names mean what they did. -/
def Published.AnyHolding (files : PageElem → Layer D) :
    Published D → Option FileInfo → Published D → Prop :=
  fun _ _ r => r.Holds files

/- The step ends the read transaction. -/
def ConnOp.ends : ConnOp D → Bool
| .unlock .none => true
| .close => true
| _ => false

/- The file itself writes or truncates. -/
def ConnOp.writes : ConnOp D → Bool
| .writeAt _ _ _ => true
| .truncate _ => true
| _ => false

/- The file itself writes the page or cuts it off. -/
def ConnOp.Touches (pgno : Nat) : ConnOp D → Prop
| .writeAt q _ _ => q = pgno
| .truncate newCommit => newCommit < pgno
| _ => False

/-
  What keeps a read transaction isolated. A poll is applied
  only without a hydrated file, and none of the pages that
  wait, before or after it, is behind the end of the index
  and the dirty pages. No index waits when the lock is
  lowered. Dirty pages that are synced are not behind the
  end of the index, and the cache has room for them. A page
  leaves the cache only if the index has it. And the view is
  not exchanged, by a hydration that completes or by time
  travel.
-/
def Isolated (files : PageElem → Layer D) (s : ConnState D) : ConnOp D → Prop
| .apply polled _ =>
  s.conn.targetTime.isSome ∨ (s.conn.hydrated = none ∧ maxKey (polled.combined ++ s.conn.pending) ≤
      max (maxKey s.conn.dirty) (maxKey s.conn.index))
| .unlock _ => s.conn.pending = [] ∧ s.conn.pendingReplace = false
| .sync evicted =>
  maxKey s.conn.dirty ≤ maxKey (s.conn.pending ++ s.conn.index) ∧ s.conn.KeepsSynced files evicted
| .evict pgno => s.conn.Backed files pgno
| .purge => ∀ pgno, s.conn.Backed files pgno
| .complete => False
| .setTargetTime _ => False
| .resetTime => False
| _ => True

namespace VFSConn

variable {c : VFSConn D} {p : Nat}

/-
  The file as if it had write support. Only then a page that
  is nowhere is read, as zeros.
-/
def asWriter (c : VFSConn D) : VFSConn D :=
  { c with writeEnabled := true }

theorem asWriter_of_enabled (hOn : c.writeEnabled = true) : c.asWriter = c := by
  unfold asWriter
  rw [← hOn]

theorem stored_asWriter {d} (hStored : c.stored lib files p = some d) :
    c.asWriter.stored lib files p = some d := by
  unfold stored at hStored ⊢
  dsimp only [asWriter]
  split at hStored
  · exact hStored
  split at hStored
  · split at hStored
    · exact hStored
    · cases hStored
  · exact hStored

theorem sees_asWriter {d} (hOff : c.writeEnabled = false → c.dirty = [])
    (hSees : c.sees lib files p = some d) : c.asWriter.sees lib files p = some d := by
  cases hIs : c.writeEnabled with
  | true =>
    rw [asWriter_of_enabled hIs]
    exact hSees
  | false =>
    have hDirty : c.dirtyPage p = none := by simp [dirtyPage, hIs]
    have hClean : c.asWriter.dirtyPage p = none := by simp [dirtyPage, asWriter, hOff hIs]
    have hSame : c.asWriter.hydrated = c.hydrated := rfl
    rw [sees_eq, hDirty] at hSees
    rw [sees_eq, hClean, hSame]
    cases hHydrated : c.hydrated with
    | some h =>
      rw [hHydrated] at hSees
      exact hSees
    | none =>
      rw [hHydrated] at hSees
      exact stored_asWriter hSees

theorem Backed.asWriter (hBacked : c.Backed files p) : c.asWriter.Backed files p := by
  refine hBacked.imp_left fun hSome => ?_
  unfold dirtyPage at hSome
  split at hSome
  · exact hSome
  · cases hSome

end VFSConn

namespace ConnState

variable {s s' : ConnState D} {op : ConnOp D}

/- A lock is held. -/
structure Reading (files : PageElem → Layer D) (s : ConnState D) : Prop where
  holds : s.replica.Holds files
  regular : s.Regular
  opened : s.phase ≠ .closed
  locked : LockType.shared.rank ≤ s.conn.lockType.rank

theorem Step.holds (hHolds : s.replica.Holds files) (hStep : Step lib (AnyHolding files) s op s') :
    s'.replica.Holds files := by
  cases hStep with
  | change hEnv | sync _ _ _ _ _ _ _ hEnv => exact hEnv
  | _ => exact hHolds

/- The lock is held until the transaction ends. -/
theorem Reading.step (hReading : s.Reading files) (hInside : op.ends = false)
    (hIsolated : Isolated files s op) (hStep : Step lib (AnyHolding files) s op s') :
    s'.Reading files := by
  have hHolds := hStep.holds hReading.holds
  have hRegular := hReading.regular.step hStep
  have hOpen := hReading.opened
  have hLocked := hReading.locked
  cases hStep with
  | openFile hPhase | openNew hPhase => exact absurd hPhase hOpen
  | pollL0 | pollL1 | abandon => exact ⟨hHolds, hRegular, by simp, hLocked⟩
  | apply _ =>
    refine ⟨hHolds, hRegular, by simp, ?_⟩
    unfold applyPoll
    split
    · exact hLocked
    · exact hLocked
  | lock _ hLock =>
    rcases lock_spec hLock with ⟨hUp, _, _, _, _, _, rfl, _⟩
    exact ⟨hHolds, hRegular, hOpen, Nat.le_trans hLocked hUp⟩
  | unlock _ hUnlock =>
    rcases unlock_spec hUnlock with ⟨rfl | rfl, rfl⟩
    · exact ⟨hHolds, hRegular, hOpen, Nat.le_refl _⟩
    · cases hInside
  | readAt _ _ hRead =>
    rcases readAt_spec hRead with ⟨_, rfl⟩
    exact ⟨hHolds, hRegular, hOpen, hLocked⟩
  | writeAt _ _ hWrite =>
    refine ⟨hHolds, hRegular, hOpen, ?_⟩
    rw [(writeAt_spec hWrite).2.2]
    exact hLocked
  | truncate _ hTruncate =>
    refine ⟨hHolds, hRegular, hOpen, ?_⟩
    rw [(truncate_spec hTruncate).2]
    exact hLocked
  | sync _ _ _ hSync =>
    refine ⟨hHolds, hRegular, hOpen, ?_⟩
    rw [(syncToRemoteWithLock_spec hSync).2.2]
    exact hLocked
  | enable =>
    refine ⟨hHolds, hRegular, hOpen, ?_⟩
    rcases enableWrites_spec s.conn with ⟨_, _, hEq⟩
    rw [hEq]
    exact hLocked
  | setTargetTime | resetTime | complete => exact hIsolated.elim
  | close => cases hInside
  | _ => exact ⟨hHolds, hRegular, hOpen, hLocked⟩

/-
  An isolated step changes no page it does not touch, but
  write support decides whether a page that is nowhere is
  read at all.
-/
theorem Reading.sees_eq (hReading : s.Reading files) (hInside : op.ends = false)
    (hIsolated : Isolated files s op) (hStep : Step lib (AnyHolding files) s op s') {i : Nat}
    (hUntouched : ¬ op.Touches (i + 1)) :
    s'.conn.asWriter.sees lib files (i + 1) = s.conn.asWriter.sees lib files (i + 1) := by
  rcases hReading with ⟨hHolds, hRegular, hOpen, hLocked⟩
  -- the hydration changes a file that is not read yet
  have hBehind : ∀ h h' : Hydrator D, s.hydration.running = true →
    s.conn.hydrator = some h → h'.complete = h.complete →
      sees lib files (i + 1) (asWriter { s.conn with hydrator := some h' }) =
        s.conn.asWriter.sees lib files (i + 1) := by
    intro h h' hBusy hHydrator hSame
    have hNone : s.conn.asWriter.hydrated = none := hRegular.running hBusy
    have hAfter : hydrated (asWriter { s.conn with hydrator := some h' }) = none :=
      hydrated_set hHydrator hNone hSame
    exact sees_congr rfl (by rw [hAfter, hNone]) rfl
  -- a step of a file that has write support, before and after it
  have hWriters : ∀ c : VFSConn D, s.conn.writeEnabled = true → c.writeEnabled = true →
    c.sees lib files (i + 1) = s.conn.sees lib files (i + 1) →
      c.asWriter.sees lib files (i + 1) = s.conn.asWriter.sees lib files (i + 1) := by
    intro c hOn hOn' hSame
    rw [asWriter_of_enabled hOn, asWriter_of_enabled hOn', hSame]
  cases hStep with
  | openFile hPhase | openNew hPhase => exact absurd hPhase hOpen
  | apply _ =>
    unfold applyPoll
    split
    · rfl
    rename_i hPresent
    rcases hIsolated with hTravel | ⟨hNone, _⟩
    · exact absurd hTravel hPresent
    refine sees_congr rfl ?_ ?_
    · have hBefore : s.conn.asWriter.hydrated = none := hNone
      rw [@hydrated_map _ s.conn.asWriter _ _ (fun h => ?_) rfl, hBefore]
      · rfl
      · split
        · exact (writePages_fields _ h).1
        · rfl
    · unfold stored asWriter VFSFile.applyPoll
      simp only [hLocked, if_true, decide_true]
  | lock _ hLock =>
    rcases lock_spec hLock with ⟨_, _, _, _, _, _, rfl, _⟩
    rfl
  | unlock _ hUnlock =>
    rw [(unlock_spec hUnlock).2]
    refine sees_congr rfl rfl ?_
    unfold stored asWriter
    dsimp only
    rw [hIsolated.1, hIsolated.2]
    simp [restrict]
  | readAt _ _ hRead =>
    rcases readAt_cases hRead with ⟨rfl, _⟩ | ⟨e, _, _, hCache, hIndex, hFetch, rfl⟩
    · rfl
    · exact sees_congr rfl rfl
        (@stored_cache_cons _ _ _ _ _ s.conn.asWriter e hCache hIndex (hHolds.fetchPage hFetch) _)
  | writeAt _ _ hWrite =>
    have hSame := @sees_writeAt _ _ (i + 1) _ lib files _ _ _ hWrite (fun hEq => hUntouched hEq.symm)
    rcases writeAt_spec hWrite with ⟨_, hOn, rfl⟩
    exact hWriters _ hOn hOn hSame
  | truncate _ hTruncate =>
    have hSame := @sees_truncate _ lib files _ _ _ i hTruncate (Nat.lt_of_not_le (fun hCut =>
      hUntouched (Nat.lt_succ_of_le hCut)))
    rcases truncate_spec hTruncate with ⟨hOn, rfl⟩
    exact hWriters _ hOn hOn hSame
  | evict _ => exact @sees_evict _ _ _ _ _ s.conn.asWriter (fun hEq => hEq ▸ hIsolated.asWriter)
  | sync _ hSyncs _ hSync _ _ _ _ hEvicts =>
    have hOn : s.conn.writeEnabled = true := by
      unfold syncs at hSyncs
      simp only [Bool.and_eq_true] at hSyncs
      exact hSyncs.1.1
    rcases syncToRemoteWithLock_spec hSync with ⟨_, _, rfl⟩
    exact hWriters _ hOn hOn (sees_afterUpload hOn hRegular.dirty hEvicts hIsolated.2 i)
  | enable =>
    rcases enableWrites_spec s.conn with ⟨_, _, hEq⟩
    rw [hEq]
    rfl
  | setTargetTime | resetTime | complete => exact hIsolated.elim
  | hydrateRestore hPhase _ hHydrator _ hRestore =>
    exact hBehind _ _ (by rw [hPhase]; rfl) hHydrator (restore_complete hRestore)
  | hydrateCatchUp hPhase _ hHydrator _ hCatchUp =>
    exact hBehind _ _ (by rw [hPhase]; rfl) hHydrator (catchUp_complete hCatchUp)
  | hydrateFail _ _ hBusy hHydrator => exact hBehind _ _ hBusy hHydrator rfl
  | purge _ => exact (hIsolated (i + 1)).asWriter.sees_eq_of_cache rfl
  | close => cases hInside
  | _ => rfl

/- Nor does it change the size, unless the file writes. -/
theorem Reading.fileSize_eq (hReading : s.Reading files) (hInside : op.ends = false)
    (hIsolated : Isolated files s op) (hStep : Step lib (AnyHolding files) s op s')
    (hQuiet : op.writes = false) (pageSize : Nat) :
    s'.conn.fileSize pageSize = s.conn.fileSize pageSize := by
  have hOpen := hReading.opened
  have hLocked := hReading.locked
  cases hStep with
  | openFile hPhase | openNew hPhase => exact absurd hPhase hOpen
  | @apply polled _ _ =>
    unfold applyPoll
    split
    · rfl
    rename_i hPresent
    rcases hIsolated with hTravel | ⟨_, hEnd⟩
    · exact absurd hTravel hPresent
    rw [fileSize_eq, fileSize_eq]
    unfold VFSFile.applyPoll
    simp only [hLocked, if_true, decide_true]
    rw [maxKey_append] at hEnd
    congr 1
    split
    · simp only [maxKey_append]
      omega
    · simp only [maxKey_append]
      omega
  | lock _ hLock =>
    rcases lock_spec hLock with ⟨_, _, _, _, _, _, rfl, _⟩
    rfl
  | unlock _ hUnlock =>
    rw [(unlock_spec hUnlock).2, fileSize_eq, fileSize_eq]
    rw [hIsolated.1, hIsolated.2]
    rfl
  | readAt _ _ hRead =>
    rcases readAt_spec hRead with ⟨_, rfl⟩
    rfl
  | writeAt | truncate => cases hQuiet
  | sync _ _ _ hSync =>
    rw [(syncToRemoteWithLock_spec hSync).2.2, fileSize_eq, fileSize_eq]
    have hEnd : maxKey s.conn.dirty ≤ maxKey (s.conn.pending ++ s.conn.index) := hIsolated.1
    rw [Nat.max_eq_right hEnd]
    unfold VFSConn.afterUpload
    dsimp only [maxKey]
    rw [Nat.zero_max]
  | enable =>
    rcases enableWrites_spec s.conn with ⟨_, _, hEq⟩
    rw [hEq]
    rfl
  | setTargetTime | resetTime | complete => exact hIsolated.elim
  | close => cases hInside
  | _ => rfl

/- The steps of a read transaction that meet a condition. -/
def Inside (lib : LtxLibrary D) (files : PageElem → Layer D) (quiet : ConnOp D → Prop) :
    ConnState D → ConnState D → Prop :=
  Run lib (AnyHolding files) (fun s op => op.ends = false ∧ Isolated files s op ∧ quiet op)

/- A whole run of such steps keeps the pages. -/
theorem Inside.sees_eq {i : Nat} (hReading : s.Reading files) (hRun :
    Inside lib files (fun op => ¬ op.Touches (i + 1)) s s') :
    s'.Reading files ∧
      s'.conn.asWriter.sees lib files (i + 1) = s.conn.asWriter.sees lib files (i + 1) := by
  induction hRun with
  | refl => exact ⟨hReading, rfl⟩
  | tail _ hLast ih =>
    rcases hLast with ⟨op, ⟨hInside, hIsolated, hUntouched⟩, hStep⟩
    rcases ih with ⟨hMiddle, hSame⟩
    refine ⟨hMiddle.step hInside hIsolated hStep, ?_⟩
    rw [hMiddle.sees_eq hInside hIsolated hStep hUntouched]
    exact hSame

/- And the size. -/
theorem Inside.fileSize_eq (hReading : s.Reading files)
    (hRun : Inside lib files (fun op => op.writes = false) s s') (pageSize : Nat) :
    s'.Reading files ∧ s'.conn.fileSize pageSize = s.conn.fileSize pageSize := by
  induction hRun with
  | refl => exact ⟨hReading, rfl⟩
  | tail _ hLast ih =>
    rcases hLast with ⟨op, ⟨hInside, hIsolated, hQuiet⟩, hStep⟩
    rcases ih with ⟨hMiddle, hSame⟩
    refine ⟨hMiddle.step hInside hIsolated hStep, ?_⟩
    rw [hMiddle.fileSize_eq hInside hIsolated hStep hQuiet]
    exact hSame

theorem Run.holds {allowed} (hHolds : s.replica.Holds files)
    (hRun : Run lib (AnyHolding files) allowed s s') : s'.replica.Holds files := by
  induction hRun with
  | refl => exact hHolds
  | tail _ hLast ih =>
    rcases hLast with ⟨op, _, hStep⟩
    exact hStep.holds ih

end ConnState

/-
  While the lock is not given up and the steps are isolated,
  two reads of a page that is not written in between give
  the same page, and the size stays the same if the file
  does not write.
-/
def ConnState.StableFrom (lib : LtxLibrary D) (files : PageElem → Layer D)
    (s : ConnState D) : Prop :=
  (∀ i s' pageErr pageErr' d d' c c', ConnState.Inside lib files
    (fun op => ¬ op.Touches (i + 1)) s s' →
      s.conn.readAt lib (s.replica.fetchPage pageErr) (i + 1) = .ok (d, c) →
      s'.conn.readAt lib (s'.replica.fetchPage pageErr') (i + 1) = .ok (d', c') → d' = d) ∧
  ∀ s' pageSize, ConnState.Inside lib files (fun op => op.writes = false) s s' →
    s'.conn.fileSize pageSize = s.conn.fileSize pageSize

/-
  In every state that is reached and holds a lock, reads are
  stable from then on as long as the steps are isolated.
-/
theorem reads_stable
    {r : Published D}
    (hHolds : r.Holds files)
    {writeEnabled : Bool}
    {s : ConnState D}
    (hRun :
      ConnState.Run lib (AnyHolding files) (fun _ _ => True)
        (start r writeEnabled) s)
    (hLocked :
      LockType.shared.rank ≤ s.conn.lockType.rank) :
    s.StableFrom lib files := by
  have hRegular : s.Regular := hRun.regular (start_regular r writeEnabled)
  have hReading : s.Reading files := by
    refine ⟨hRun.holds hHolds, hRegular, ?_, hLocked⟩
    intro hClosed
    rw [(hRegular.closed hClosed).1] at hLocked
    have hNone : 1 ≤ 0 := hLocked
    omega
  constructor
  · intro i s' pageErr pageErr' d d' c c' hInside hRead hRead'
    rcases hInside.sees_eq hReading with ⟨hAfter, hSame⟩
    have hBefore := sees_asWriter hReading.regular.disabled (readAt_sees hReading.holds hRead).1
    have hLater := sees_asWriter hAfter.regular.disabled (readAt_sees hAfter.holds hRead').1
    rw [hSame, hBefore] at hLater
    exact (Option.some.inj hLater).symm
  · intro s' pageSize hInside
    exact (hInside.fileSize_eq hReading pageSize).2

-- A Poll Under A Lock

/- Each transaction has its own file. -/
def versionFiles (e : PageElem) : Layer Nat :=
  threeVersions.tx e.maxTXID

/- A cache for one page. -/
def smallCache : VFSConfig :=
  ⟨1, true⟩

def openedConn (hydrator : Option (Hydrator Nat)) : VFSConn Nat :=
  { new false with
    toVFSFile := openedFile
    cacheEntries := 1
    hydrator := hydrator }

def openedConnState (hydrator : Option (Hydrator Nat)) : ConnState Nat where
  replica := afterUpload empty
  conn := openedConn hydrator
  phase := .idle
  hydration := .idle
  saved := none

theorem versionFiles_holds_empty : (empty : Published Nat).Holds versionFiles :=
  fun _ obj hMem => (by cases hMem)

theorem versionFiles_holds_upload {r} (hHolds : r.Holds versionFiles) :
    (afterUpload r).Holds versionFiles := by
  intro level obj hMem
  unfold afterUpload append at hMem
  dsimp only at hMem
  split at hMem
  · rename_i hLevel
    rcases List.mem_append.mp hMem with hOld | hNew
    · exact hHolds level obj hOld
    · rw [List.mem_singleton.mp hNew]
      rfl
  · exact hHolds level obj hMem

section Opened

variable {env : Published Nat → Option FileInfo → Published Nat → Prop}

theorem openedConn_reached (hEnv : env empty none (afterUpload empty)) {hydrator}
    (hHydrator : Hydrates none hydrator) :
    ConnState.Run referenceLibrary env (fun _ _ => True) (start empty false)
      { openedConnState hydrator with
        hydration :=
          if hydrator.isSome then .launched [uploadOf 1] else .idle } := by
  have hPlan : Plans (afterUpload empty) 0 (.ok [uploadOf 1]) := ⟨fun _ => .none, by decide⟩
  exact (Relation.ReflTransGen.single ⟨.change none, trivial, .change hEnv⟩).tail
    ⟨.openFile, trivial, @ConnState.Step.openFile Nat referenceLibrary env
      ⟨afterUpload empty, new false, .closed, .idle, none⟩
      (fun _ => none) [uploadOf 1] hydrator
      (openedConn hydrator) smallCache rfl hPlan hHydrator (by rfl) (Nat.le_refl 1)⟩

theorem hydratedConn_reached (hEnv : env empty none (afterUpload empty)) :
    ConnState.Run referenceLibrary env (fun _ _ => True) (start empty false)
      (openedConnState (some ⟨[1], true, 1⟩)) := by
  have hOpened := openedConn_reached hEnv (Or.inr (Or.inl rfl) :
    Hydrates none (some (new [] 0)))
  have hStarted := hOpened.step (.hydrateStart rfl rfl) trivial
  have hRestored := hStarted.step (@ConnState.Step.hydrateRestore _ _ _ _ (fun _ => none) _ _ _
    [threeVersions.tx 1] _ ⟨[1], false, 1⟩ rfl (by decide) rfl rfl rfl) trivial
  have hReady := hRestored.step (.hydrateReady rfl (Nat.le_refl 1)) trivial
  have hComplete := hReady.step (.complete rfl rfl) trivial
  exact hComplete.step (.purge rfl) trivial

end Opened

def lockedConnState (hydrator : Option (Hydrator Nat)) : ConnState Nat :=
  { openedConnState hydrator with
    conn := { openedConn hydrator with lockType := .shared } }

/- A reader without a hydrated file. -/
theorem lockedConn_reads_stable :
    (lockedConnState none).conn.lockType = .shared ∧
    (lockedConnState none).StableFrom referenceLibrary
      versionFiles := by
  have hEnv : AnyHolding versionFiles empty none (afterUpload empty) :=
    versionFiles_holds_upload versionFiles_holds_empty
  have hLock := (openedConn_reached hEnv (Or.inl rfl)).step
    (@ConnState.Step.lock _ _ _ _ none .shared _ (by decide) rfl) trivial
  exact ⟨rfl, reads_stable versionFiles_holds_empty hLock (Nat.le_refl 1)⟩

/-
  A reader holds a shared lock and has a hydrated file. It
  reads the first page, another transaction is uploaded and
  polled, and it reads the page again: the lock was held all
  the time, and the page is another one.
-/
theorem read_changes_under_lock :
    ∃ s s',
      ConnState.Run referenceLibrary
        (AnyHolding versionFiles) (fun _ _ => True)
        (start empty false) s ∧
      s.conn.lockType = .shared ∧
      ConnState.Run referenceLibrary
        (AnyHolding versionFiles)
        (fun _ op => op.ends = false ∧ op.writes = false) s
        s' ∧
      (s.conn.readAt referenceLibrary
        (s.replica.fetchPage (fun _ _ => none)) 1).map
        Prod.fst = .ok 1 ∧
      (s'.conn.readAt referenceLibrary
        (s'.replica.fetchPage (fun _ _ => none)) 1).map
        Prod.fst = .ok 2 := by
  have hEnv : AnyHolding versionFiles empty none (afterUpload empty) :=
    versionFiles_holds_upload versionFiles_holds_empty
  have hLocked := (hydratedConn_reached hEnv).step
    (@ConnState.Step.lock _ _ _ _ none .shared _ (by decide) rfl) trivial
  have hUpload : ConnState.Run referenceLibrary (AnyHolding versionFiles)
    (fun _ op => op.ends = false ∧ op.writes = false) (lockedConnState (some ⟨[1], true, 1⟩)) _ :=
    .single ⟨.change none, ⟨rfl, rfl⟩, .change (versionFiles_holds_upload hEnv)⟩
  have hPoll0 := hUpload.step (@ConnState.Step.pollL0 _ _ _ _ calmPoll _ rfl rfl) ⟨rfl, rfl⟩
  have hPoll1 := hPoll0.step (@ConnState.Step.pollL1 _ _ _ _ calmPoll _ _ rfl rfl) ⟨rfl, rfl⟩
  have hApply := hPoll1.step (@ConnState.Step.apply _ _ _ _ _ (fun _ _ => none) rfl) ⟨rfl, rfl⟩
  exact ⟨_, _, hLocked, rfl, hApply, rfl, rfl⟩

end Replicate
