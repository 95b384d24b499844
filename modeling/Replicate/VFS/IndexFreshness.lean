import Replicate.VFS.PageFreshness
import Replicate.Restore.Replay

/-
  The page index points to the newest version.

  While a lock is held a poll goes to the pending map, so
  what stays fresh is the view of the index with the
  pending map over it. A poll keeps it fresh if the level-1
  pages, which it puts over those of level 0, are not older.

  Main declarations:
    * `VFSFile.Ok.applyPoll`
    * `VfsState.Inv.step`
    * `index_newest`
    * `index_stale_after_poll`
-/

-- The File Over Time

namespace Replicate

open Published VFSFile PageHistory List Option

variable {D : Type} {lib : LtxLibrary D}

/- The index as it is once the pending map is moved. -/
def VFSFile.view (f : VFSFile) : PageMap :=
  if f.pendingReplace then f.pending else f.pending ++ f.index

/- What a poll that is going on has read. -/
def PollPhase.Inv (H : History lib) (f : VFSFile) : PollPhase → Prop
| .polledL0 polled => PollInv H f.pos polled.l0 ∧ polled.maxTXID1 = f.maxTXID1
| .polledL1 polled => PollInv H f.pos polled.l0 ∧ PollInv H f.maxTXID1 polled.l1
| _ => True

/- What holds of a file at all times. -/
structure VFSFile.Ok (H : History lib) (f : VFSFile) : Prop where
  fresh : Fresh H f.pos f.view
  l1_le : f.maxTXID1 ≤ f.pos
  count : f.pos ≤ H.count
  unlocked : f.lockType = .none → f.pending = [] ∧ f.pendingReplace = false

structure VfsState.Inv (H : History lib) (s : VfsState D) : Prop where
  genuine : s.replica.Genuine H
  file : s.file.Ok H
  phase : s.phase.Inv H s.file
  closed : s.phase = .closed → ∃ writeEnabled, s.file = new writeEnabled

section File

variable {H : History lib} {f f' : VFSFile} {elock : LockType} {vfs : Option SharedVFS}

theorem VFSFile.new_ok (writeEnabled : Bool) : (new writeEnabled).Ok H :=
  ⟨fresh_nil 0, Nat.le_refl 0, Nat.zero_le _, fun _ => ⟨rfl, rfl⟩⟩

theorem VFSFile.view_eq_index (hEmpty : f.pending = [] ∧ f.pendingReplace = false) :
    f.view = f.index := by
  simp [view, hEmpty]

theorem VFSFile.Ok.of_same (hOk : f.Ok H) (hView : f'.view = f.view) (hPos : f'.pos = f.pos)
    (hL1 : f'.maxTXID1 = f.maxTXID1)
    (hUnlocked : f'.lockType = .none → f'.pending = [] ∧ f'.pendingReplace = false) : f'.Ok H := by
  refine ⟨?_, ?_, ?_, hUnlocked⟩
  · rw [hView, hPos]
    exact hOk.fresh
  · rw [hL1, hPos]
    exact hOk.l1_le
  · rw [hPos]
    exact hOk.count

theorem VFSFile.unlock_spec (hUnlock : f.unlock elock = .ok f') :
    f'.view = f.view ∧ f'.pos = f.pos ∧ f'.maxTXID1 = f.maxTXID1 ∧ f'.commit = f.commit ∧
      f'.pending = [] ∧ f'.pendingReplace = false := by
  unfold VFSFile.unlock at hUnlock
  split at hUnlock
  · simp at hUnlock
  · rw [← Except.ok.inj hUnlock]
    exact ⟨rfl, rfl, rfl, rfl, rfl, rfl⟩

/-
  What a lock does: it can only set the position, to that of
  another file of the VFS.
-/
theorem VFSFile.lock_spec (hLock : f.lock vfs elock = .ok f') :
    f.lockType.rank ≤ elock.rank ∧ ∃ pos expectedTXID inTransaction, f' = { f with
      pos := pos
      expectedTXID := expectedTXID
      inTransaction := inTransaction
      lockType := elock } ∧
        (pos = f.pos ∨ ∃ shared, vfs = some shared ∧ LockType.reserved.rank ≤ elock.rank ∧
          f.expectedTXID < shared.lastSyncedTXID ∧
          pos = shared.lastSyncedTXID) := by
  unfold VFSFile.lock at hLock
  split at hLock
  · simp at hLock
  rename_i hUp
  refine ⟨by omega, ?_⟩
  split at hLock
  · simp at hLock
  split at hLock
  · rename_i hWrite
    split at hLock
    · rename_i shared
      split at hLock
      · simp at hLock
      split at hLock
      · rename_i hAhead
        exact ⟨_, _, _, (Except.ok.inj hLock).symm, Or.inr ⟨shared, rfl, hWrite.2.1, hAhead, rfl⟩⟩
      · exact ⟨_, _, _, (Except.ok.inj hLock).symm, Or.inl rfl⟩
    · exact ⟨_, _, _, (Except.ok.inj hLock).symm, Or.inl rfl⟩
  · exact ⟨_, _, _, (Except.ok.inj hLock).symm, Or.inl rfl⟩

theorem VFSFile.lock_keeps (hEmpty : f.lockType = .none → f.pending = [] ∧ f.pendingReplace = false)
    (hSame : ∀ shared, vfs = some shared → LockType.reserved.rank ≤ elock.rank →
      shared.lastSyncedTXID ≤ f.expectedTXID ∨ shared.lastSyncedTXID = f.pos)
    (hLock : f.lock vfs elock = .ok f') :
    f'.view = f.view ∧ f'.pos = f.pos ∧ f'.maxTXID1 = f.maxTXID1 ∧ f'.commit = f.commit ∧
      (f'.lockType = .none → f'.pending = [] ∧ f'.pendingReplace = false) := by
  rcases lock_spec hLock with ⟨hUp, pos, _, _, rfl, hPos⟩
  have hKept : pos = f.pos := by
    rcases hPos with hEq | ⟨shared, hVfs, hHigh, hAhead, hEq⟩
    · exact hEq
    · rcases hSame shared hVfs hHigh with hLe | hAt
      · omega
      · omega
  refine ⟨rfl, hKept, rfl, rfl, ?_⟩
  intro hNone
  have hElock : elock = .none := hNone
  apply hEmpty
  rw [hElock] at hUp
  cases hType : f.lockType with
  | none => rfl
  | _ => simp [hType, LockType.rank] at hUp

theorem VFSFile.view_applyPoll
    (hEmpty : f.lockType = .none → f.pending = [] ∧ f.pendingReplace = false) (polled : PolledL1) :
    (f.applyPoll polled).view = if polled.replaceIndex then
      polled.combined
      else polled.combined ++ f.view := by
  unfold view applyPoll
  by_cases hLocked : LockType.shared.rank ≤ f.lockType.rank
  · cases hReplace : polled.replaceIndex with
    | true => simp [hLocked]
    | false =>
      cases hPending : f.pendingReplace with
      | true | false => simp [hLocked]
  have hUnlocked : f.lockType = .none := by
    cases hType : f.lockType with
    | none => rfl
    | _ => simp [hType, LockType.rank] at hLocked
  rcases hEmpty hUnlocked with ⟨hNone, hPending⟩
  cases hReplace : polled.replaceIndex with
  | true => simp [hLocked, hNone]
  | false => simp [hLocked, hNone, hPending]

theorem VFSFile.applyPoll_unlocked (hEmpty : f.lockType = .none →
    f.pending = [] ∧ f.pendingReplace = false)
    (polled : PolledL1) (hUnlocked : (f.applyPoll polled).lockType = .none) :
    (f.applyPoll polled).pending = [] ∧ (f.applyPoll polled).pendingReplace = false := by
  have hType : f.lockType = .none := hUnlocked
  simp [applyPoll, hType, LockType.rank, (hEmpty hType).1]

theorem PolledL1.pos_eq_max (polled : PolledL1) : polled.pos =
    max polled.l0.maxTXID polled.l1.maxTXID := by
  unfold PolledL1.pos
  split
  · omega
  · omega

/-
  The combined pages and the view below them are fresh at
  the poll's position, if no page of level 1 was written
  after the end of the files read there.
-/
theorem VFSFile.Ok.applyPoll (hOk : f.Ok H) {polled} (hL0 : PollInv H f.pos polled.l0)
    (hL1 : PollInv H f.maxTXID1 polled.l1) (hOrder : ∀ p, (polled.l1.index.lookup p).isSome →
      ∀ t, polled.l1.maxTXID < t → t ≤ polled.pos → (H.tx t).page p = none) :
    (f.applyPoll polled).Ok H := by
  have hMax := polled.pos_eq_max
  have hEnd0 : polled.l0.maxTXID ≤ polled.pos := by omega
  have hEnd1 : polled.l1.maxTXID ≤ polled.pos := by omega
  have hEither : polled.pos = polled.l0.maxTXID ∨ polled.pos = polled.l1.maxTXID := by omega
  have hBelow := hOk.l1_le
  have hFrom0 := hL0.le
  -- a page of level 1 has no later writer
  have hUpper : ∀ p e, polled.l1.index.lookup p = some e → Newest H p polled.pos e := by
    intro p e hLookup
    refine (hL1.fresh p e hLookup).of_writer_le hEnd1 ?_
    by_contra hLater
    have hSome := isSome_page_writer (Nat.zero_lt_of_lt (Nat.lt_of_not_le hLater))
    have hNone := hOrder p (by simp [hLookup]) _ (Nat.lt_of_not_le hLater) writer_le
    rw [hNone] at hSome
    cases hSome
  -- a page outside level 1 was not written in its range
  have hQuiet : polled.l1.replace = false →
    ∀ p, polled.l1.index.lookup p = none → polled.pos = polled.l1.maxTXID →
      writer H.tx p polled.pos ≤ f.maxTXID1 := by
    intro hKept p hNone hPos
    rw [hPos]
    exact hL1.complete hKept p hNone
  have hLower : polled.l1.replace = false → ∀ p e, polled.l1.index.lookup p = none →
    polled.l0.index.lookup p = some e → Newest H p polled.pos e := by
    intro hKept p e hNone hLookup
    refine (hL0.fresh p e hLookup).of_writer_le hEnd0 ?_
    rcases hEither with hPos | hPos
    · rw [hPos]
      exact writer_le
    · have hOld := hQuiet hKept p hNone hPos
      omega
  have hCombined : Fresh H polled.pos polled.combined := by
    intro p e hLookup
    unfold PolledL1.combined at hLookup
    split at hLookup
    · exact hUpper p e hLookup
    rename_i hKept
    rw [lookup_append] at hLookup
    cases hL1Page : polled.l1.index.lookup p with
    | some e1 =>
      rw [hL1Page, some_or, some.injEq] at hLookup
      exact hLookup ▸ hUpper p e1 hL1Page
    | none =>
      rw [hL1Page, none_or] at hLookup
      exact hLower (Bool.eq_false_iff.mpr hKept) p e hL1Page hLookup
  refine ⟨?_, ?_, ?_, ?_⟩
  · rw [view_applyPoll hOk.unlocked]
    have hPos : (f.applyPoll polled).pos = polled.pos := rfl
    rw [hPos]
    split
    · exact hCombined
    rename_i hKept
    have hNoReplace : polled.l0.replace = false ∧ polled.l1.replace = false := by
      unfold PolledL1.replaceIndex at hKept
      simpa using hKept
    intro p e hLookup
    rw [lookup_append] at hLookup
    cases hPage : polled.combined.lookup p with
    | some e1 =>
      rw [hPage, some_or, some.injEq] at hLookup
      exact hLookup ▸ hCombined p e1 hPage
    | none =>
      rw [hPage, none_or] at hLookup
      unfold PolledL1.combined at hPage
      rw [if_neg (by simp [hNoReplace.2]), lookup_append, or_eq_none_iff] at hPage
      refine (hOk.fresh p e hLookup).of_writer_le (by omega) ?_
      rcases hEither with hEq | hEq
      · rw [hEq]
        exact hL0.complete hNoReplace.1 p hPage.2
      · have hOld := hQuiet hNoReplace.2 p hPage.1 hEq
        omega
  · exact hEnd1
  · have hCount0 := hL0.count
    have hCount1 := hL1.count
    have hPos : (f.applyPoll polled).pos = polled.pos := rfl
    omega
  · exact applyPoll_unlocked hOk.unlocked polled

theorem PollPhase.Inv.of_same {phase : PollPhase} (hInv : phase.Inv H f) (hPos : f'.pos = f.pos)
    (hL1 : f'.maxTXID1 = f.maxTXID1) : phase.Inv H f' := by
  cases phase with
  | closed | idle => trivial
  | polledL0 | polledL1 =>
    unfold PollPhase.Inv
    rw [hPos, hL1]
    exact hInv

theorem VFSFile.rebuildIndex_ok {fetch infos}
    (hFetch : ∀ info file, fetch info = .ok file → H.Labels info file)
    (hChain : IntervalChain.IsChain FileInfo.minTXID FileInfo.maxTXID 0 infos)
    (hOpen : f.rebuildIndex fetch infos = .ok f') : f'.Ok H := by
  unfold rebuildIndex at hOpen
  split at hOpen
  · simp at hOpen
  rename_i index commit hBuild
  rw [Except.ok.injEq, getLast_eq_reach] at hOpen
  rcases buildIndexMap_spec hFetch hChain hBuild with ⟨hFresh, hCount⟩
  have hLe := maxLevelTXID_le hChain 1
  rw [← hOpen]
  refine ⟨?_, ?_, hCount, fun _ => ⟨rfl, rfl⟩⟩
  · simpa [view] using hFresh
  · dsimp only
    split
    · exact Nat.le_refl _
    · exact hLe

end File

-- Runs

namespace VfsState

variable {H : History lib} {s s' : VfsState D}

theorem start_inv (writeEnabled : Bool) : (start writeEnabled : VfsState D).Inv H :=
  ⟨Genuine.empty, new_ok writeEnabled, trivial, fun _ => ⟨writeEnabled, rfl⟩⟩

/- Steps that meet the condition keep the invariant. -/
theorem Inv.step (hBound : H.count + 1 < TXID.bound) (hInv : s.Inv H) {op : VfsOp}
    (hAllowed : LevelsInOrder H s op) (hStep : Step H s op s') : s'.Inv H := by
  have hGenuine := hInv.genuine
  have hFile := hInv.file
  have hFetch : ∀ fetchErr info file, s.replica.fetch fetchErr info = .ok file →
    H.Labels info file :=
    fun _ _ _ hOk => hGenuine.fetch hOk
  cases hStep with
  | @change compacted r hChange =>
    refine ⟨hGenuine.change ?_ hChange, hFile, hInv.phase, hInv.closed⟩
    rintro info rfl
    exact hAllowed
  | openFile hPhase hPlan hOpen =>
    exact ⟨hGenuine, rebuildIndex_ok (hFetch _) (hGenuine.plan_isChain hPlan) hOpen,
      trivial, by simp⟩
  | openNew hPhase hPlan hNone hWrite =>
    rcases hInv.closed hPhase with ⟨writeEnabled, hNew⟩
    refine ⟨hGenuine, ?_, trivial, by simp⟩
    rw [hNew]
    exact new_ok writeEnabled
  | @pollL0 env polled hPhase hPoll =>
    unfold VFSFile.pollL0 at hPoll
    split at hPoll
    · simp at hPoll
    rename_i l0 hL0
    rw [Except.ok.injEq] at hPoll
    refine ⟨hGenuine, hFile, ?_, by simp⟩
    rw [← hPoll]
    exact ⟨pollLevel_spec hBound hGenuine hFile.count hL0, rfl⟩
  | @pollL1 env polled polled1 hPhase hPoll =>
    have hPhaseInv := hInv.phase
    rw [hPhase] at hPhaseInv
    rcases hPhaseInv with ⟨hL0, hSame⟩
    unfold PolledL0.pollL1 at hPoll
    split at hPoll
    · simp at hPoll
    rename_i l1 hL1
    rw [Except.ok.injEq] at hPoll
    refine ⟨hGenuine, hFile, ?_, by simp⟩
    rw [← hPoll]
    rw [hSame] at hL1
    exact ⟨hL0, pollLevel_spec hBound hGenuine (Nat.le_trans hFile.l1_le hFile.count) hL1⟩
  | abandon hPhase => exact ⟨hGenuine, hFile, trivial, by simp⟩
  | @apply polled hPhase =>
    have hPhaseInv := hInv.phase
    rw [hPhase] at hPhaseInv
    exact ⟨hGenuine, hFile.applyPoll hPhaseInv.1 hPhaseInv.2 hAllowed, trivial, by simp⟩
  | @lock vfs elock f hPhase hLock =>
    have hSame : ∀ shared, vfs = some shared → LockType.reserved.rank ≤ elock.rank →
      shared.lastSyncedTXID ≤ s.file.expectedTXID ∨ shared.lastSyncedTXID = s.file.pos := by
      rintro shared rfl
      exact hAllowed
    rcases lock_keeps hFile.unlocked hSame hLock with ⟨hView, hPos, hL1, _, hEmpty⟩
    exact ⟨hGenuine, hFile.of_same hView hPos hL1 hEmpty, hInv.phase.of_same hPos hL1,
      fun hClosed => absurd hClosed hPhase⟩
  | @unlock elock f hPhase hUnlock =>
    rcases unlock_spec hUnlock with ⟨hView, hPos, hL1, _, hEmpty⟩
    exact ⟨hGenuine, hFile.of_same hView hPos hL1 (fun _ => hEmpty), hInv.phase.of_same hPos hL1,
      fun hClosed => absurd hClosed hPhase⟩

theorem Run.inv (hBound : H.count + 1 < TXID.bound) (hInv : s.Inv H)
    (hRun : Run H (LevelsInOrder H) s s') : s'.Inv H := by
  induction hRun with
  | refl => exact hInv
  | tail _ hLast ih =>
    rcases hLast with ⟨op, hAllowed, hStep⟩
    exact ih.step hBound hAllowed hStep

end VfsState

/-
  The page that an element refers to, at the version that
  its file holds.
-/
def PageElem.content (H : History lib) (e : PageElem) (p : Nat) : Option D :=
  (slice H.tx e.minTXID e.maxTXID).page p

/- The transaction whose version of the page that is. -/
def PageElem.version (H : History lib) (e : PageElem) (p : Nat) : Nat :=
  writer H.tx p e.maxTXID

/- Every entry of the index is what a replay would give. -/
def VFSFile.IndexNewest (H : History lib) (f : VFSFile) : Prop :=
  ∀ p e, f.index.lookup p = some e → (∃ d, e.content H p = some d ∧
    (p ≤ sizeAt H.tx f.pos → (H.replay f.pos).getD (p - 1) lib.zero = d)) ∧
    ∀ t, 1 ≤ t → t ≤ f.pos → ((H.tx t).page p).isSome → t ≤ e.version H p

theorem Newest.content_eq {H : History lib} {p n : Nat} {e : PageElem}
    (hNewest : Newest H p n e) (hCount : n ≤ H.count) :
    ∃ d, e.content H p = some d ∧ (p ≤ sizeAt H.tx n → (H.replay n).getD (p - 1) lib.zero = d) := by
  rcases hNewest with ⟨hMin, hMax, hSome, hVersion⟩
  rcases isSome_iff_exists.mp hSome with ⟨d, hPage⟩
  refine ⟨d, hPage, ?_⟩
  intro hSize
  have hExists : p ≤ sizeAt H.tx e.maxTXID ∧ e.minTXID ≤ writer H.tx p e.maxTXID := by
    by_contra hNot
    simp [slice, hNot] at hPage
  rw [slice_page_eq hExists.1 hExists.2, hVersion] at hPage
  have hStart : 1 ≤ p := by
    by_contra hZero
    have hEq : p = 0 := by omega
    rw [hEq, H.writer_zero hMax] at hExists
    omega
  rcases Nat.exists_eq_add_of_le' hStart with ⟨i, rfl⟩
  have hReplay : (H.replay n).getD i lib.zero = ((slice H.tx 1 n).page (i + 1)).getD lib.zero :=
    replay_getD H.grows hCount (by omega)
  rw [Nat.add_sub_cancel, hReplay, slice_page_eq hSize (by omega), hPage]
  rfl

/-
  In every run in which each poll finds the level-1 pages
  no older than those of level 0, no compaction loses a
  page, and no lock moves the position: whenever no lock is
  held, every entry of the index is the newest version up
  to the file's position.
-/
theorem index_newest
    {H : History lib}
    (hBound : H.count + 1 < TXID.bound)
    {writeEnabled : Bool}
    {s : VfsState D}
    (hRun :
      VfsState.Run H (LevelsInOrder H)
        (VfsState.start writeEnabled) s)
    (hUnlocked : s.file.lockType = .none) :
    s.file.IndexNewest H := by
  have hInv : s.Inv H := hRun.inv hBound (VfsState.start_inv writeEnabled)
  intro p e hLookup
  have hNewest : Newest H p s.file.pos e := by
    apply hInv.file.fresh
    rw [view_eq_index (hInv.file.unlocked hUnlocked)]
    exact hLookup
  refine ⟨hNewest.content_eq hInv.file.count, ?_⟩
  intro t hStart hLe hSome
  unfold PageElem.version
  rw [hNewest.version]
  exact le_writer hLe hStart hSome

-- A Poll With An Older Level 1

/- One page that every transaction writes. -/
def threeVersions : History referenceLibrary where
  count := 3
  tx t := ⟨1, fun p => if p = 1 then some t else none⟩
  grows := by
    constructor
    · intro t _ p hAfter hSize _
      have hPage : p = 1 := by
        cases t with
        | zero | succ =>
          simp only [sizeAt] at hAfter hSize
          omega
      simp [hPage]
    · intro t _ p hExempt
      simp [hExempt, referenceLibrary]
  within := by
    intro t _ _ p hSome
    by_cases hPage : p = 1
    · simp [hPage]
    · simp [hPage] at hSome

def uploadOf (t : Nat) : FileInfo :=
  ⟨0, t, t, 100, 10⟩

def compactionOf (t : Nat) : FileInfo :=
  ⟨1, t, t, 100, 10⟩

def afterUpload (r : Published Nat) : Published Nat :=
  { r.append 0 (uploadOf (r.uploaded + 1), threeVersions.tx (r.uploaded + 1)) with
    uploaded := r.uploaded + 1 }

theorem afterUpload_change {r} (hCount : r.uploaded + 1 ≤ 3) :
    Change threeVersions r none (afterUpload r) :=
  .upload rfl rfl rfl hCount

def afterCompaction (r : Published Nat) (t : Nat) : Published Nat :=
  r.append 1 (compactionOf t, stack [threeVersions.tx t])

theorem afterCompaction_change {r} {t : Nat}
    (hMem : (uploadOf t, threeVersions.tx t) ∈ r.objects 0) (hNext : t = r.l1End + 1) :
    Change threeVersions r (some (compactionOf t)) (afterCompaction r t) :=
  @Change.compact _ _ _ _ [(uploadOf t, threeVersions.tx t)] _ _
    (fun _ hx => mem_singleton.mp hx ▸ hMem) (cons_ne_nil _ _)
    ⟨hNext, Nat.le_of_eq hNext.symm, trivial⟩ rfl rfl rfl rfl

def openedFile : VFSFile :=
  { new false with
    index := [(1, ⟨0, 1, 1⟩)]
    pos := 1
    maxTXID1 := 1
    commit := 1 }

def openedState : VfsState Nat where
  replica := afterUpload empty
  file := openedFile
  phase := .idle

/- No call of a poll fails. -/
def calmPoll : PollEnv where
  listFault := .none
  fetchErr := fun _ => none

theorem openedState_reached (allowed : VfsState Nat → VfsOp → Prop)
    (hChange : ∀ s, allowed s (.change none))
    (hOpen : allowed ⟨afterUpload empty, new false, .closed⟩ .openFile) :
    VfsState.Run threeVersions allowed (VfsState.start false) openedState := by
  have hPlan : calcRestorePlan (fun level =>
    ltxFiles (afterUpload empty).content .none level 0)
      0 0 = .ok [uploadOf 1] := by
    decide
  have hUploaded : VfsState.Run threeVersions allowed (VfsState.start false)
    ⟨afterUpload empty, new false, .closed⟩ :=
    .single ⟨_, hChange _, .change (afterUpload_change (by decide))⟩
  exact hUploaded.tail ⟨_, hOpen, @VfsState.Step.openFile _ _ _ _ (fun _ => .none) (fun _ => none)
    _ _ rfl hPlan rfl⟩

/- What a poll finds after the second transaction. -/
def secondPoll : PolledL1 where
  l0 := ⟨2, [(1, ⟨0, 2, 2⟩)], 1, false⟩
  l1 := ⟨1, [], 1, false⟩
  newCommit := 1

/-
  The second transaction was polled under a lock, which was
  given back afterwards.
-/
def caughtUpState : VfsState Nat where
  replica := afterUpload (afterUpload empty)
  file :=
    { openedFile with
      index := (1, ⟨0, 2, 2⟩) :: openedFile.index
      pos := 2 }
  phase := .idle

theorem caughtUpState_reached
    {allowed : VfsState Nat → VfsOp → Prop}
    (hOpened : VfsState.Run threeVersions allowed
      (VfsState.start false) openedState)
    (hFree : ∀ s, allowed s (.change none) ∧
      allowed s (.lock none .shared) ∧
      allowed s (.apply secondPoll) ∧
      allowed s (.unlock .none))
    (hPoll : ∀ s,
      s.replica = afterUpload (afterUpload empty) →
      s.file.pos = 1 → s.file.maxTXID1 = 1 →
      allowed s .poll) :
    VfsState.Run threeVersions allowed
      (VfsState.start false) caughtUpState := by
  have hUploaded := hOpened.tail ⟨_, (hFree _).1,
    .change (afterUpload_change (by decide))⟩
  have hLocked := hUploaded.tail ⟨_, (hFree _).2.1,
    @VfsState.Step.lock _ _ _ _ none .shared _ nofun rfl⟩
  have hRead := hLocked.tail ⟨_, hPoll _ rfl rfl rfl,
    @VfsState.Step.pollL0 _ _ _ _ calmPoll _ rfl rfl⟩
  have hPolled := hRead.tail ⟨_, hPoll _ rfl rfl rfl,
    @VfsState.Step.pollL1 _ _ _ _ calmPoll _ _ rfl rfl⟩
  have hApplied := hPolled.tail ⟨_, (hFree _).2.2.1,
    @VfsState.Step.apply _ _ _ _ secondPoll rfl⟩
  exact hApplied.tail ⟨_, (hFree _).2.2.2,
    @VfsState.Step.unlock _ _ _ _ .none _ nofun rfl⟩

theorem caughtUpState_newest :
    caughtUpState.file.lockType = .none ∧
    caughtUpState.file.IndexNewest threeVersions := by
  refine ⟨rfl, ?_⟩
  refine index_newest (by decide)
    (caughtUpState_reached ?_ ?_ ?_) rfl
  · exact openedState_reached _ (fun _ => trivial) trivial
  · intro s
    refine ⟨trivial, trivial, ?_, trivial⟩
    simp [LevelsInOrder, secondPoll]
  · exact fun _ _ _ _ => trivial

/-
  Two more transactions are uploaded, and the first two are
  compacted one by one.
-/
def behindReplica : Published Nat :=
  afterCompaction (afterCompaction (afterUpload (afterUpload (afterUpload empty))) 1) 2

def polledLevels : PolledL1 where
  l0 := ⟨3, [(1, ⟨0, 3, 3⟩), (1, ⟨0, 2, 2⟩)], 1, false⟩
  l1 := ⟨2, [(1, ⟨1, 2, 2⟩)], 1, false⟩
  newCommit := 1

def polledState : VfsState Nat where
  replica := behindReplica
  file := openedFile.applyPoll polledLevels
  phase := .idle

theorem polledState_reached : VfsState.Run threeVersions (fun _ _ => True)
    (VfsState.start false) polledState := by
  have hOpened := openedState_reached (fun _ _ => True) (fun _ => trivial) trivial
  have hFirst := @afterCompaction_change (afterUpload (afterUpload (afterUpload empty))) 1
    (mem_append_left _ (mem_append_left _ mem_cons_self)) rfl
  have hSecond := @afterCompaction_change
    (afterCompaction (afterUpload (afterUpload (afterUpload empty))) 1) 2
    (mem_append_left _ (mem_append_right _ mem_cons_self)) rfl
  exact ((((((hOpened.tail ⟨_, trivial, .change (afterUpload_change (by decide))⟩).tail
    ⟨_, trivial, .change (afterUpload_change (by decide))⟩).tail
    ⟨_, trivial, .change hFirst⟩).tail
    ⟨_, trivial, .change hSecond⟩).tail
    ⟨_, trivial, @VfsState.Step.pollL0 _ _ _ _ calmPoll _ rfl rfl⟩).tail
    ⟨_, trivial, @VfsState.Step.pollL1 _ _ _ _ calmPoll _ _ rfl rfl⟩).tail
    ⟨_, trivial, .apply rfl⟩

/-
  After the poll the page refers to the second transaction,
  although the file's position is the third one.
-/
theorem index_stale_after_poll :
    ∃ s,
      VfsState.Run threeVersions (fun _ _ => True)
        (VfsState.start false) s ∧
      s.file.lockType = .none ∧
      s.file.pos = 3 ∧
      s.file.index.lookup 1 = some ⟨1, 2, 2⟩ ∧
      PageElem.content threeVersions ⟨1, 2, 2⟩ 1 = some 2 ∧
      threeVersions.replay 3 = [3] ∧
      ¬ s.file.IndexNewest threeVersions := by
  refine ⟨polledState, polledState_reached, rfl, rfl, rfl, by decide, by decide, ?_⟩
  intro hNewest
  have hVersion := (hNewest 1 ⟨1, 2, 2⟩ rfl).2 3 (by decide) (by decide) (by decide)
  revert hVersion
  decide

end Replicate
