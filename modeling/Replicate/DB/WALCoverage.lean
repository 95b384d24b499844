import Replicate.DB.WALSync

/-
  How the last level-0 file relates to the WAL.

  A file tracks the WAL if its end and its salts mean what
  `verify` takes them for: while the salts are those of the
  header, its end is the end of some committed frames, and
  afterwards no frame behind its end is of its generation.

  The level-0 files cover the database if every page whose
  replayed version is out of date is in a frame that no
  file holds yet. If the WAL was emptied with such frames
  in it, this is lost, but then no frame of the last file's
  generation is left, and `verify` can tell.

  Main declarations:
    * `L0File.Follows.commits`
    * `L0File.Follows.checkpoint`
-/

-- Definitions

namespace Replicate

open SQLite WALFile PageHistory List Option

variable {D : Type}

/- The newest version of a page since the last full image. -/
def latestPage (F : WALFormat D) (l0 : List (L0File D)) (p : Nat) : Option D :=
  topmost p ((sinceFullImage F l0).map L0File.content)

namespace L0File

/- The WAL has been started anew since the file. -/
def Stale (file : L0File D) (q : SQLite D) : Prop :=
  q.wal.salts? ≠ some file.salts

/- The file ends after the first `n` frames of the WAL. -/
structure Tracks (F : WALFormat D) (file : L0File D) (n : Nat) (q : SQLite D) : Prop where
  walEnd_eq : file.walEnd = F.offset n
  salt_le : file.salts.salt1 ≤ q.salt1
  within : q.wal.salts? = some file.salts → n ≤ q.mxFrame
  ended : file.Stale q → ∀ i f, n ≤ i → q.wal.frames[i]? = some f → f.salts ≠ file.salts
  lastPage : ∀ i f, n = i + 1 → q.wal.frames[i]? = some f →
    f.salts = file.salts → file.content.page f.pgno = some f.data
  restarted : file.Stale q → q.wal.header ≠ none → 0 < q.mxFrame

/- What the files lack is in frames they do not hold. -/
structure Covered (F : WALFormat D) (l0 : List (L0File D)) (file : L0File D)
    (q : SQLite D) : Prop where
  pages : ∀ p, 1 ≤ p → p ≤ q.size → p ≠ F.lockPgno → (∃ f ∈ file.unsynced F q, f.pgno = p) ∨
    latestPage F l0 p = some (q.page p)
  size_eq : file.unsynced F q = [] → file.content.commit = q.size
  copied : q.backfilled = true → file.unsynced F q = []

/- The WAL was emptied since the file. -/
structure Gone (file : L0File D) (q : SQLite D) : Prop where
  stale : file.Stale q
  frames : ∀ f ∈ q.wal.frames, f.salts ≠ file.salts

/- The last file and the WAL, given `syncedToWALEnd`. -/
structure Follows (F : WALFormat D) (l0 : List (L0File D))
    (syncedToWALEnd : Bool) (file : L0File D) (n : Nat) (q : SQLite D) : Prop where
  valid : q.Valid F
  tracks : file.Tracks F n q
  covered : file.Covered F l0 q ∨ (syncedToWALEnd = false ∧ file.Gone q)

end L0File

-- Frames Not Held

namespace L0File

variable {F : WALFormat D} {l0 : List (L0File D)} {file : L0File D} {n : Nat} {q q' : SQLite D}
variable {h : WALHeader} {tx : Tx D}

theorem unsynced_of_stale (hStale : file.Stale q) : file.unsynced F q = q.committed :=
  if_neg hStale

theorem unsynced_of_salts_eq (hEnd : file.walEnd = F.offset n)
    (hSalts : q.wal.salts? = some file.salts) : file.unsynced F q = q.committed.drop n := by
  rw [unsynced, if_pos hSalts, hEnd, WALFormat.offset_index]

theorem salts_append : (q.append F h tx).wal.salts? = some h.salts := rfl

theorem salts_restart : (q.restart F h tx).wal.salts? = some h.salts := rfl

theorem Tracks.stale_restart (tx : Tx D) (hTracks : file.Tracks F n q)
    (hSalt : h.salts.salt1 = q.salt1 + 1) : file.Stale (q.restart F h tx) := by
  intro hEq
  have hSalts : h.salts = file.salts := some.inj hEq
  have hLe := hTracks.salt_le
  rw [← hSalts] at hLe
  omega

theorem Tracks.unsynced_append (tx : Tx D) (hTracks : file.Tracks F n q)
    (hValid : q.Valid F) (hHeader : q.wal.header = some h) :
    file.unsynced F (q.append F h tx) = file.unsynced F q ++ q.appended F h tx := by
  have hSame : (q.append F h tx).wal.salts? = q.wal.salts? := by
    rw [salts_append, salts?, hHeader]
    rfl
  have hCommitted : (q.append F h tx).committed = q.committed ++ q.appended F h tx :=
    committed_append hValid.mxFrame_le
  by_cases hSalts : q.wal.salts? = some file.salts
  · have hLe : n ≤ q.committed.length := by
      rw [committed, length_take, Nat.min_eq_left hValid.mxFrame_le]
      exact hTracks.within hSalts
    rw [unsynced_of_salts_eq hTracks.walEnd_eq hSalts,
      unsynced_of_salts_eq hTracks.walEnd_eq (hSame.trans hSalts),
      hCommitted, drop_append_of_le_length hLe]
  have hStale : file.Stale (q.append F h tx) := by
    intro hEq
    exact hSalts (hSame.symm.trans hEq)
  rw [unsynced_of_stale hSalts, unsynced_of_stale hStale, hCommitted]

theorem Tracks.unsynced_restart (tx : Tx D) (hTracks : file.Tracks F n q)
    (hSalt : h.salts.salt1 = q.salt1 + 1) :
    file.unsynced F (q.restart F h tx) = F.txFrames h.salts tx.size h.chksum tx.pages := by
  rw [unsynced_of_stale (hTracks.stale_restart tx hSalt), committed_restart]

-- Commits

theorem Tracks.append (hTracks : file.Tracks F n q) (hValid : q.Valid F)
    (hHeader : q.wal.header = some h) : file.Tracks F n (q.append F h tx) := by
  have hSame : (q.append F h tx).wal.salts? = q.wal.salts? := by
    rw [salts_append, salts?, hHeader]
    rfl
  have hSalts : q.wal.salts? = some h.salts := hSame.symm
  have hNew : ∀ f ∈ q.appended F h tx, f.salts = h.salts := by
    intro f hf
    exact (chained_txFrames tx.pages).salts_eq hf
  have hCases : ∀ (i : Nat) (f : WALFrame D),
    (q.append F h tx).wal.frames[i]? = some f → q.wal.frames[i]? = some f ∨
      (f ∈ q.appended F h tx ∧ q.mxFrame ≤ i) := by
    intro i f hGet
    exact overwrite_cases _ hValid.mxFrame_le hGet
  exact {
    walEnd_eq := hTracks.walEnd_eq
    salt_le := hTracks.salt_le
    within := by
      intro hEq
      have hLe := hTracks.within (hSame.symm.trans hEq)
      exact Nat.le_trans hLe (Nat.le_add_right _ _)
    ended := by
      intro hStale i f hLe hGet
      have hOther : h.salts ≠ file.salts := by
        intro hEq
        exact hStale (by rw [salts_append, hEq])
      rcases hCases i f hGet with hOld | ⟨hMem, _⟩
      · apply hTracks.ended _ i f hLe hOld
        intro hEq
        exact hStale (hSame.trans hEq)
      · rw [hNew f hMem]
        exact hOther
    lastPage := by
      intro i f hn hGet hEq
      rcases hCases i f hGet with hOld | ⟨hMem, hLe⟩
      · exact hTracks.lastPage i f hn hOld hEq
      -- a new frame of the file's salts is after its end
      have hLast : n ≤ q.mxFrame := by
        apply hTracks.within
        rw [hSalts, ← hNew f hMem, hEq]
      omega
    restarted := by
      intro _ _
      have hPos : 0 < tx.pages.length := length_pos_iff.mpr tx.nonempty
      exact Nat.add_pos_right _ hPos }

/-
  After a restart all frames of the file's generation must
  be before its end: it has to hold all of them.
-/
theorem Tracks.restart (hTracks : file.Tracks F n q) (hValid : q.Valid F)
    (hSynced : q.wal.salts? = some file.salts → q.mxFrame ≤ n)
    (hSalt : h.salts.salt1 = q.salt1 + 1) :
    file.Tracks F n (q.restart F h tx) := by
  have hStale := hTracks.stale_restart tx hSalt
  have hOther : h.salts ≠ file.salts := by
    intro hEq
    exact hStale (by rw [salts_restart, hEq])
  have hCases : ∀ (i : Nat) (f : WALFrame D), (q.restart F h tx).wal.frames[i]? = some f →
    q.wal.frames[i]? = some f ∨ f.salts = h.salts :=
    fun i f hGet => overwrite_salts (Nat.zero_le _) hGet
  exact {
    walEnd_eq := hTracks.walEnd_eq
    salt_le := by
      have hLe := hTracks.salt_le
      have hNow : (q.restart F h tx).salt1 = h.salts.salt1 := rfl
      omega
    within := fun hEq => absurd hEq hStale
    ended := by
      intro _ i f hLe hGet
      rcases hCases i f hGet with hOld | hNew
      · by_cases hEq : q.wal.salts? = some file.salts
        · -- behind the committed frames: an older generation
          have hBehind : q.mxFrame ≤ i := Nat.le_trans (hSynced hEq) hLe
          have hDrop : f ∈ q.wal.frames.drop q.mxFrame := by
            apply mem_of_getElem? (i := i - q.mxFrame)
            rw [getElem?_drop, Nat.add_sub_cancel' hBehind]
            exact hOld
          have hBefore := hValid.stale f hDrop
          rcases map_eq_some_iff.mp hEq with ⟨g, hHeader, hSalts⟩
          have hNow := hValid.salt g hHeader
          rw [hSalts] at hNow
          intro hSame
          rw [hSame] at hBefore
          omega
        · exact hTracks.ended hEq i f hLe hOld
      · rw [hNew]
        exact hOther
    lastPage := by
      intro i f hn hGet hEq
      rcases hCases i f hGet with hOld | hNew
      · exact hTracks.lastPage i f hn hOld hEq
      · exact absurd (hNew.symm.trans hEq) hOther
    restarted := fun _ _ => length_pos_iff.mpr tx.nonempty }

theorem le_size_of_not_mem {frames : List (WALFrame D)} {p : Nat} (hFits : q.Fits F tx)
    (hPages : ∀ r, (∃ f ∈ frames, f.pgno = r) ↔ ∃ x ∈ tx.pages, x.1 = r) (hLe : p ≤ tx.size)
    (hLock : p ≠ F.lockPgno) (hNot : ¬ ∃ f ∈ frames, f.pgno = p) : p ≤ q.size := by
  by_contra hGrown
  have hMem := hFits.grows p (Nat.lt_of_not_le hGrown) hLe hLock
  exact hNot ((hPages p).mpr hMem)

theorem getD_newestPage_of_not_mem {frames} {p : Nat} {d : D} (hNot : ¬ ∃ f ∈ frames, f.pgno = p) :
    (newestPage p frames).getD d = d := by
  have hNone : newestPage p frames = none := by
    rw [newestPage_eq_none_iff]
    intro f hf hEq
    exact hNot ⟨f, hf, hEq⟩
  rw [hNone]
  rfl

theorem Covered.append (hCovered : file.Covered F l0 q) (hTracks : file.Tracks F n q)
    (hValid : q.Valid F) (hHeader : q.wal.header = some h) (hFits : q.Fits F tx) :
    file.Covered F l0 (q.append F h tx) := by
  have hUnsynced := hTracks.unsynced_append tx hValid hHeader
  have hLe := hValid.mxFrame_le
  exact {
    pages := by
      intro p hPos hSize hLock
      rw [size_append hLe] at hSize
      rw [hUnsynced]
      by_cases hNew : ∃ f ∈ q.appended F h tx, f.pgno = p
      · rcases hNew with ⟨f, hf, hPgno⟩
        exact Or.inl ⟨f, mem_append_right _ hf, hPgno⟩
      have hOld : p ≤ q.size :=
        le_size_of_not_mem hFits (fun r => mem_txFrames_pgno) hSize hLock hNew
      rw [page_append hLe, getD_newestPage_of_not_mem hNew]
      rcases hCovered.pages p hPos hOld hLock with ⟨f, hf, hPgno⟩ | hLatest
      · exact Or.inl ⟨f, mem_append_left _ hf, hPgno⟩
      · exact Or.inr hLatest
    size_eq := by
      intro hNil
      rw [hUnsynced] at hNil
      have hNone : q.appended F h tx = [] := (append_eq_nil_iff.mp hNil).2
      exact absurd hNone (txFrames_ne_nil tx.nonempty)
    copied := fun hCopied => by
      simp [SQLite.append] at hCopied }

theorem Covered.restart (hCovered : file.Covered F l0 q) (hTracks : file.Tracks F n q)
    (hValid : q.Valid F) (hBackfilled : q.backfilled = true) (hSalt : h.salts.salt1 = q.salt1 + 1)
    (hFits : q.Fits F tx) : file.Covered F l0 (q.restart F h tx) := by
  have hUnsynced := hTracks.unsynced_restart tx hSalt
  exact {
    pages := by
      intro p hPos hSize hLock
      rw [size_restart] at hSize
      rw [hUnsynced]
      by_cases hNew : ∃ f ∈ F.txFrames h.salts tx.size h.chksum tx.pages, f.pgno = p
      · exact Or.inl hNew
      right
      have hOld : p ≤ q.size :=
        le_size_of_not_mem hFits (fun r => mem_txFrames_pgno) hSize hLock hNew
      rw [page_restart, getD_newestPage_of_not_mem hNew, (hValid.copied hBackfilled).2 p hOld]
      rcases hCovered.pages p hPos hOld hLock with ⟨f, hf, _⟩ | hLatest
      · rw [hCovered.copied hBackfilled] at hf
        simp at hf
      · exact hLatest
    size_eq := by
      intro hNil
      rw [hUnsynced] at hNil
      exact absurd hNil (txFrames_ne_nil tx.nonempty)
    copied := fun hCopied => by
      simp [SQLite.restart] at hCopied }

theorem Tracks.stale_commit (hTracks : file.Tracks F n q) (hStale : file.Stale q) {g}
    (hNext : q.wal.header = some g ∨ g.salts.salt1 = q.salt1 + 1) : g.salts ≠ file.salts := by
  intro hEq
  rcases hNext with hHeader | hSalt
  · apply hStale
    rw [salts?, hHeader, ← hEq]
    rfl
  · have hLe := hTracks.salt_le
    rw [← hEq] at hLe
    omega

theorem Gone.commit (hGone : file.Gone q) (hTracks : file.Tracks F n q) (hValid : q.Valid F)
    (hCommit : Commit F q q') : file.Gone q' := by
  rcases hCommit.frames hValid with ⟨g, hHeader, hNext, hFrames⟩
  have hOther : g.salts ≠ file.salts := hTracks.stale_commit hGone.stale hNext
  refine ⟨?_, ?_⟩
  · intro hEq
    rw [salts?, hHeader] at hEq
    exact hOther (some.inj hEq)
  · intro f hf
    rcases getElem?_of_mem hf with ⟨i, hGet⟩
    rcases hFrames i f hGet with hOld | hNew
    · exact hGone.frames f (mem_of_getElem? hOld)
    · rw [hNew]
      exact hOther

/- The frame before the file's end is not its own any more. -/
structure Overwritten (file : L0File D) (n : Nat) (q : SQLite D) : Prop where
  stale : file.Stale q
  frame : ∀ f, q.wal.frames[n - 1]? = some f → f.salts ≠ file.salts

theorem Overwritten.commit (hOver : file.Overwritten n q) (hTracks : file.Tracks F n q)
    (hValid : q.Valid F) (hCommit : Commit F q q') : file.Overwritten n q' := by
  rcases hCommit.frames hValid with ⟨g, hHeader, hNext, hFrames⟩
  have hOther : g.salts ≠ file.salts := hTracks.stale_commit hOver.stale hNext
  refine ⟨?_, ?_⟩
  · intro hEq
    rw [salts?, hHeader] at hEq
    exact hOther (some.inj hEq)
  · intro f hGet
    rcases hFrames (n - 1) f hGet with hOld | hNew
    · exact hOver.frame f hOld
    · rw [hNew]
      exact hOther

theorem Tracks.commit (hTracks : file.Tracks F n q) (hValid : q.Valid F)
    (hSynced : q.backfilled = true → q.wal.salts? = some file.salts → q.mxFrame ≤ n)
    (hCommit : Commit F q q') : file.Tracks F n q' := by
  cases hCommit with
  | append hHeader _ => exact hTracks.append hValid hHeader
  | restart hBackfilled hSalt _ => exact hTracks.restart hValid (hSynced hBackfilled) hSalt

theorem Covered.commit (hCovered : file.Covered F l0 q) (hTracks : file.Tracks F n q)
    (hValid : q.Valid F) (hCommit : Commit F q q') : file.Covered F l0 q' := by
  cases hCommit with
  | append hHeader hFits => exact hCovered.append hTracks hValid hHeader hFits
  | restart hBackfilled hSalt hFits => exact hCovered.restart hTracks hValid hBackfilled hSalt hFits

variable {synced : Bool}

theorem Follows.mxFrame_le (hFollows : file.Follows F l0 synced n q)
    (hBackfilled : q.backfilled = true) (hSalts : q.wal.salts? = some file.salts) :
    q.mxFrame ≤ n := by
  rcases hFollows.covered with hCovered | ⟨_, hGone⟩
  · have hNil := hCovered.copied hBackfilled
    rw [unsynced_of_salts_eq hFollows.tracks.walEnd_eq hSalts, drop_eq_nil_iff, committed,
      length_take,
      Nat.min_eq_left hFollows.valid.mxFrame_le] at hNil
    exact hNil
  · exact absurd hSalts hGone.stale

theorem Follows.commit (hFollows : file.Follows F l0 synced n q) (hCommit : Commit F q q') :
    file.Follows F l0 synced n q' where
  valid := hCommit.valid hFollows.valid
  tracks := hFollows.tracks.commit hFollows.valid hFollows.mxFrame_le hCommit
  covered := by
    rcases hFollows.covered with hCovered | ⟨hFlag, hGone⟩
    · exact Or.inl (hCovered.commit hFollows.tracks hFollows.valid hCommit)
    · exact Or.inr ⟨hFlag, hGone.commit hFollows.tracks hFollows.valid hCommit⟩

theorem Follows.commits (hFollows : file.Follows F l0 synced n q) (hCommits : Commits F q q') :
    file.Follows F l0 synced n q' := by
  induction hCommits with
  | refl => exact hFollows
  | tail _ hCommit ih => exact ih.commit hCommit

theorem Follows.covered_commits (hFollows : file.Follows F l0 synced n q)
    (hCovered : file.Covered F l0 q) (hCommits : Commits F q q') : file.Covered F l0 q' := by
  induction hCommits with
  | refl => exact hCovered
  | tail hBefore hCommit ih =>
    have hThen := hFollows.commits hBefore
    exact ih.commit hThen.tracks hThen.valid hCommit

theorem Follows.overwritten_commits (hFollows : file.Follows F l0 synced n q)
    (hOver : file.Overwritten n q) (hCommits : Commits F q q') : file.Overwritten n q' := by
  induction hCommits with
  | refl => exact hOver
  | tail hBefore hCommit ih =>
    have hThen := hFollows.commits hBefore
    exact ih.commit hThen.tracks hThen.valid hCommit

-- Checkpoints

theorem Tracks.of_wal_eq (hTracks : file.Tracks F n q) (hWal : q'.wal = q.wal)
    (hMx : q'.mxFrame = q.mxFrame) (hSalt : q'.salt1 = q.salt1) : file.Tracks F n q' := by
  have hStale : file.Stale q' → file.Stale q := by
    intro hNot hEq
    exact hNot (by rw [hWal]; exact hEq)
  exact {
    walEnd_eq := hTracks.walEnd_eq
    salt_le := by
      rw [hSalt]
      exact hTracks.salt_le
    within := by
      rw [hWal, hMx]
      exact hTracks.within
    ended := by
      rw [hWal]
      exact fun hNot => hTracks.ended (hStale hNot)
    lastPage := by
      rw [hWal]
      exact hTracks.lastPage
    restarted := by
      rw [hWal, hMx]
      exact fun hNot => hTracks.restarted (hStale hNot) }

theorem Covered.of_presents (hCovered : file.Covered F l0 q)
    (hUnsynced : file.unsynced F q' = file.unsynced F q)
    (hPresents : q'.size = q.size ∧ ∀ p, q'.page p = q.page p)
    (hCopied : q'.backfilled = true → file.unsynced F q' = []) : file.Covered F l0 q' where
  pages := by
    intro p hPos hSize hLock
    rw [hPresents.1] at hSize
    rw [hUnsynced, hPresents.2]
    exact hCovered.pages p hPos hSize hLock
  size_eq := by
    rw [hUnsynced, hPresents.1]
    exact hCovered.size_eq
  copied := hCopied

theorem Gone.of_wal_eq (hGone : file.Gone q) (hWal : q'.wal = q.wal) : file.Gone q' := by
  refine ⟨?_, ?_⟩
  · intro hEq
    exact hGone.stale (by rw [← hWal]; exact hEq)
  · rw [hWal]
    exact hGone.frames

/-
  A checkpoint keeps the relation if it copies all frames
  only when the file holds them, or when it empties the WAL
  and `syncedToWALEnd` is not set.
-/
theorem Follows.checkpoint {mode result} (hFollows : file.Follows F l0 synced n q)
    (hCheckpoint : Checkpoint mode q result q')
    (hCompleted : result = .completed → file.unsynced F q = [])
    (hTruncated : result = .truncated → file.unsynced F q = [] ∨ synced = false) :
    file.Follows F l0 synced n q' := by
  have hPresents := hCheckpoint.presents
  have hValid := hCheckpoint.valid hFollows.valid
  cases hCheckpoint with
  | partly hLeft hNonempty hCopied =>
    refine ⟨hValid, hFollows.tracks.of_wal_eq rfl rfl rfl, ?_⟩
    rcases hFollows.covered with hCovered | ⟨hFlag, hGone⟩
    · left
      refine hCovered.of_presents ?_ hPresents ?_
      · rfl
      · intro hBackfilled
        exact absurd (hLeft.symm.trans hBackfilled) Bool.false_ne_true
    · exact Or.inr ⟨hFlag, hGone.of_wal_eq rfl⟩
  | completed =>
    refine ⟨hValid, hFollows.tracks.of_wal_eq rfl rfl rfl, ?_⟩
    rcases hFollows.covered with hCovered | ⟨hFlag, hGone⟩
    · exact Or.inl (hCovered.of_presents rfl hPresents (fun _ => hCompleted rfl))
    · exact Or.inr ⟨hFlag, hGone.of_wal_eq rfl⟩
  | truncated _ =>
    have hStale : file.Stale q.truncate := by
      intro hEq
      simp [truncate, salts?] at hEq
    have hGone : file.Gone q.truncate := by
      refine ⟨hStale, ?_⟩
      intro f hf
      simp [truncate] at hf
    have hNone : file.unsynced F q.truncate = [] := by rfl
    refine ⟨hValid, ?_, ?_⟩
    · exact {
        walEnd_eq := hFollows.tracks.walEnd_eq
        salt_le := hFollows.tracks.salt_le
        within := fun hEq => absurd hEq hStale
        ended := by
          intro _ i f _ hGet
          simp [truncate] at hGet
        lastPage := by
          intro i f _ hGet
          simp [truncate] at hGet
        restarted := fun _ hHeader => absurd rfl hHeader }
    · rcases hFollows.covered with hCovered | ⟨hFlag, _⟩
      · rcases hTruncated rfl with hNil | hFlag
        · exact Or.inl (hCovered.of_presents (hNone.trans hNil.symm) hPresents (fun _ => hNone))
        · exact Or.inr ⟨hFlag, hGone⟩
      · exact Or.inr ⟨hFlag, hGone⟩

end L0File

end Replicate
