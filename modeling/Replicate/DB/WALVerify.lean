import Replicate.DB.WALCoverage

/-
  What `verify` and the reader of `sync` achieve, whatever
  is committed between their reads.

  `verify` allows an incremental sync only if the level-0
  files cover the database. It asks for a full image in all
  other cases, and then the reader of `sync` starts at the
  beginning of the WAL.

  Main declarations:
    * `verify_sound`
    * `verify_continues`
    * `openReader_suffices`
-/

-- What A View Tells

namespace Replicate

open SyncInfo WALFormat PageHistory List Option

variable {D : Type} {F : WALFormat D}

theorem SQLite.Valid.frame_salts {q : SQLite D} {h : WALHeader} {i : Nat} {f : WALFrame D}
    (hValid : q.Valid F) (hHeader : q.wal.header = some h) (hLt : i < q.mxFrame)
    (hGet : q.wal.frames[i]? = some f) : f.salts = h.salts := by
  apply (hValid.chained h hHeader).salts_eq
  apply mem_of_getElem? (i := i)
  rw [SQLite.committed, getElem?_take_of_lt hLt]
  exact hGet

namespace L0File

variable {l0 : List (L0File D)} {synced : Bool} {file : L0File D} {n : Nat} {q : SQLite D}

theorem Follows.covered_of_salts (hFollows : file.Follows F l0 synced n q)
    (hSalts : q.wal.salts? = some file.salts) : file.Covered F l0 q := by
  rcases hFollows.covered with hCovered | ⟨_, hGone⟩
  · exact hCovered
  · exact absurd hSalts hGone.stale

theorem Follows.covered_of_frame (hFollows : file.Follows F l0 synced n q) {i : Nat} {f}
    (hGet : q.wal.frames[i]? = some f) (hSalts : f.salts = file.salts) : file.Covered F l0 q := by
  rcases hFollows.covered with hCovered | ⟨_, hGone⟩
  · exact hCovered
  · exact absurd hSalts (hGone.frames f (mem_of_getElem? hGet))

theorem Follows.covered_of_synced (hFollows : file.Follows F l0 synced n q)
    (hSynced : synced = true) : file.Covered F l0 q := by
  rcases hFollows.covered with hCovered | ⟨hNot, _⟩
  · exact hCovered
  · exact absurd (hNot.symm.trans hSynced) Bool.false_ne_true

theorem Follows.overwritten_of_fileSize (hFollows : file.Follows F l0 synced n q)
    (hShort : F.fileSize q.wal < file.walEnd) (hPos : 0 < n) : file.Overwritten n q := by
  rw [hFollows.tracks.walEnd_eq] at hShort
  have hLength : q.wal.frames.length < n := by
    cases hHeader : q.wal.header with
    | none =>
      rw [hFollows.valid.empty hHeader]
      exact hPos
    | some h =>
      rw [fileSize_eq hHeader] at hShort
      exact offset_lt_iff.mp hShort
  refine ⟨?_, ?_⟩
  · intro hSalts
    have hWithin := hFollows.tracks.within hSalts
    have hLe := hFollows.valid.mxFrame_le
    omega
  · intro f hGet
    rw [getElem?_eq_none (by omega)] at hGet
    simp at hGet

theorem Follows.overwritten_of_frame (hFollows : file.Follows F l0 synced n q) {f : WALFrame D}
    (hPos : 0 < n) (hGet : q.wal.frames[n - 1]? = some f) (hOther : f.salts ≠ file.salts) :
    file.Overwritten n q := by
  refine ⟨?_, ?_⟩
  · intro hSalts
    have hWithin := hFollows.tracks.within hSalts
    rcases map_eq_some_iff.mp hSalts with ⟨h, hHeader, hEq⟩
    apply hOther
    rw [← hEq]
    exact hFollows.valid.frame_salts hHeader (by omega) hGet
  · intro g hGet'
    have hEq : f = g := some.inj (hGet.symm.trans hGet')
    rw [← hEq]
    exact hOther

theorem Tracks.many (hTracks : file.Tracks F n q) (hNotZero : file.walEnd ≠ walHeaderSize)
    (hNotOne : file.walEnd ≠ walHeaderSize + F.frameSize) :
    1 < n ∧ file.walEnd - F.frameSize = F.offset (n - 1) := by
  have hEnd := hTracks.walEnd_eq
  rw [hEnd, ← offset_zero (F := F)] at hNotZero
  rw [hEnd, ← offset_zero (F := F), ← offset_succ] at hNotOne
  have hZero : n ≠ 0 := fun hEq => hNotZero (by rw [hEq])
  have hOne : n ≠ 1 := fun hEq => hNotOne (by rw [hEq])
  have hSucc := offset_succ (F := F) (n - 1)
  rw [Nat.sub_add_cancel (by omega)] at hSucc
  omega

theorem Follows.overwritten_first (hFollows : file.Follows F l0 synced 1 q) {h : WALHeader}
    (hHeader : q.wal.header = some h) (hOther : h.salts ≠ file.salts) : file.Overwritten 1 q := by
  have hStale : file.Stale q := by
    intro hEq
    rw [WALFile.salts?, hHeader] at hEq
    exact hOther (some.inj hEq)
  refine ⟨hStale, ?_⟩
  intro f hGet
  have hFrames : 0 < q.mxFrame := hFollows.tracks.restarted hStale (by rw [hHeader]; simp)
  rw [hFollows.valid.frame_salts hHeader hFrames hGet]
  exact hOther

end L0File

-- Verifying

/-
  What an answer of `verify` means for the database that
  `sync` then scans: it begins at the header, or where the
  last file ends. An incremental sync needs covered files.
  A full image begins at the end of the last file only if
  the frame before it is not there any more.
-/
def SyncInfo.Sound (F : WALFormat D) (l0 : List (L0File D)) (file : L0File D)
    (n : Nat) (q : SQLite D) (info : SyncInfo) : Prop :=
  (info.offset = walHeaderSize ∨ (info.offset = F.offset n ∧ info.salts = file.salts ∧
    (info.snapshotting = true → file.Overwritten n q))) ∧
    (info.snapshotting = false → file.Covered F l0 q)

section Verify

variable {l0 : List (L0File D)} {synced : Bool} {file : L0File D} {n : Nat} {q : SQLite D}
variable {v : SyncViews D} {info : SyncInfo}
variable {off : Nat} {salts : Salts} {reason : String} {db : DBState D}

theorem SyncInfo.sound_covered
    (hOff : off = walHeaderSize ∨ (off = F.offset n ∧ salts = file.salts))
    (hCovered : file.Covered F l0 q) : Sound F l0 file n q ⟨off, salts, false, reason⟩ := by
  refine ⟨?_, fun _ => hCovered⟩
  rcases hOff with hZero | ⟨hEnd, hSalts⟩
  · exact Or.inl hZero
  · exact Or.inr ⟨hEnd, hSalts, fun hTrue => by simp at hTrue⟩

theorem SyncInfo.sound_snapshot
    (hOff : off = walHeaderSize ∨ (off = F.offset n ∧ salts = file.salts ∧ file.Overwritten n q)) :
    Sound F l0 file n q ⟨off, salts, true, reason⟩ := by
  refine ⟨?_, fun hFalse => by simp at hFalse⟩
  rcases hOff with hZero | ⟨hEnd, hSalts, hOver⟩
  · exact Or.inl hZero
  · exact Or.inr ⟨hEnd, hSalts, fun _ => hOver⟩

variable [DecidableEq D]

theorem lastPageMatch_ok {b : Bool} (hFollows : file.Follows F l0 synced n q) (hPos : 1 < n)
    (hOk : lastPageMatch F file q.wal (F.offset (n - 1)) = .ok b) :
    (b = false → file.Overwritten n q) ∧ (b = true → file.Covered F l0 q) := by
  have hNot : ¬ F.offset (n - 1) ≤ walHeaderSize := by
    rw [← offset_zero (F := F), offset_le_iff]
    omega
  rw [lastPageMatch, if_neg hNot, frameAt_offset] at hOk
  cases hGet : q.wal.frames[n - 1]? with
  | none => simp [hGet] at hOk
  | some f =>
    simp only [hGet] at hOk
    by_cases hOther : f.salts ≠ file.salts
    · rw [if_pos hOther] at hOk
      have hFalse : b = false := (Except.ok.inj hOk).symm
      exact ⟨ fun _ => hFollows.overwritten_of_frame (by omega) hGet hOther,
        fun hTrue => by simp [hFalse] at hTrue⟩
    rw [if_neg hOther] at hOk
    have hSalts : f.salts = file.salts := not_not.mp hOther
    have hPage : file.content.page f.pgno = some f.data :=
      hFollows.tracks.lastPage (n - 1) f (by omega) hGet hSalts
    have hTrue : b = true := by
      rw [← Except.ok.inj hOk]
      exact decide_eq_true hPage
    exact ⟨fun hFalse => by simp [hTrue] at hFalse, fun _ => hFollows.covered_of_frame hGet hSalts⟩

/- The part of `verify` that compares salts. -/
theorem verifySalts_sound (hHeader : file.Follows F l0 synced n v.header)
    (hLastPage : SQLite.Commits F v.header v.lastPage) (hScan : SQLite.Commits F v.lastPage v.scan)
    (hOk : verifySalts F file v = .ok info) : info.Sound F l0 file n v.scan := by
  have hEnd := hHeader.tracks.walEnd_eq
  have hAtPage := hHeader.commits hLastPage
  have hToScan : SQLite.Commits F v.header v.scan := hLastPage.trans hScan
  unfold verifySalts at hOk
  cases hGet : v.header.wal.header with
  | none => simp [hGet] at hOk
  | some hdr =>
    simp only [hGet] at hOk
    have hSalts? : v.header.wal.salts? = some hdr.salts := by
      rw [WALFile.salts?, hGet]
      rfl
    have hCovered : hdr.salts = file.salts → file.Covered F l0 v.scan := by
      intro hEq
      apply hHeader.covered_commits _ hToScan
      exact hHeader.covered_of_salts (by rw [hSalts?, hEq])
    split at hOk
    · -- the last file ends at the header
      rename_i hZero
      split at hOk
      · rename_i hEq
        cases hOk
        exact sound_covered (Or.inl hZero) (hCovered hEq)
      · cases hOk
        exact sound_snapshot (Or.inl hZero)
    split at hOk
    · -- it ends after the first frame
      rename_i hOne
      have hn : n = 1 := by
        rw [hEnd, ← offset_zero (F := F), ← offset_succ] at hOne
        exact offset_inj.mp hOne
      subst hn
      split at hOk
      · rename_i hEq
        cases hOk
        exact sound_covered (Or.inr ⟨hEnd, rfl⟩) (hCovered hEq)
      rename_i hNe
      cases hOk
      exact sound_snapshot (Or.inr ⟨hEnd, rfl,
        hHeader.overwritten_commits (hHeader.overwritten_first hGet hNe) hToScan⟩)
    split at hOk
    · simp at hOk
    rename_i hNotZero hNotOne hNotShort
    -- it ends after a frame that can be looked at
    rcases hHeader.tracks.many hNotZero hNotOne with ⟨hMany, hPrev⟩
    rw [hPrev] at hOk
    cases hMatch : lastPageMatch F file v.lastPage.wal (F.offset (n - 1)) with
    | error err => simp [hMatch] at hOk
    | ok b =>
      rcases lastPageMatch_ok hAtPage hMany hMatch with ⟨hOver, hCover⟩
      simp only [hMatch] at hOk
      cases b with
      | false =>
        cases hOk
        exact sound_snapshot (Or.inr ⟨hEnd, rfl, hAtPage.overwritten_commits (hOver rfl) hScan⟩)
      | true =>
        have hStill : file.Covered F l0 v.scan := hAtPage.covered_commits (hCover rfl) hScan
        simp only at hOk
        split at hOk
        · cases hOk
          exact sound_covered (Or.inr ⟨hEnd, rfl⟩) hStill
        split at hOk
        · simp at hOk
        · cases hOk
          exact sound_snapshot (Or.inl rfl)
        · cases hOk
          exact sound_covered (Or.inl rfl) hStill

/- An answer of `verify` is right when the WAL is scanned. -/
theorem verify_sound (hFollows : file.Follows F db.l0 db.syncedToWALEnd n q)
    (hOrder : v.InOrder F q) (hLast : db.l0.getLast? = some file)
    (hOk : (verify F db v).1 = .ok info) : info.Sound F db.l0 file n v.scan := by
  have hStat := hFollows.commits hOrder.stat
  have hHeader := hStat.commits hOrder.header
  have hFromHeader : SQLite.Commits F v.header v.scan :=
    (hOrder.lastPage.trans hOrder.salts).trans hOrder.scan
  have hToScan : SQLite.Commits F v.stat v.scan := hOrder.header.trans hFromHeader
  unfold verify at hOk
  simp only [hLast] at hOk
  split at hOk
  · rename_i hShort
    split at hOk
    · rename_i hSynced
      have hCovered : file.Covered F db.l0 v.scan :=
        hStat.covered_commits (hStat.covered_of_synced hSynced) hToScan
      split at hOk
      · simp at hOk
      · cases hOk
        exact sound_covered (Or.inl rfl) hCovered
    · simp only [Except.ok.injEq] at hOk
      subst hOk
      apply sound_snapshot
      by_cases hPos : 0 < n
      · exact Or.inr ⟨hFollows.tracks.walEnd_eq, rfl, hStat.overwritten_commits
          (hStat.overwritten_of_fileSize hShort hPos)
          hToScan⟩
      left
      have hZero : n = 0 := by omega
      rw [hFollows.tracks.walEnd_eq, hZero]
      exact offset_zero
  · exact verifySalts_sound hHeader hOrder.lastPage (hOrder.salts.trans hOrder.scan) hOk

/-
  An incremental sync goes on where the last file ends only
  if the salts were the same.
-/
theorem verify_continues (hLast : db.l0.getLast? = some file) (hOk : (verify F db v).1 = .ok info) :
    info.offset = walHeaderSize ∨ info.snapshotting = true ∨
      v.header.wal.salts? = some file.salts := by
  unfold verify at hOk
  simp only [hLast] at hOk
  split at hOk
  · split at hOk
    · simp only at hOk
      split at hOk
      · simp at hOk
      · cases hOk
        exact Or.inl rfl
    · cases hOk
      exact Or.inr (Or.inl rfl)
  · unfold verifySalts at hOk
    cases hHeader : v.header.wal.header with
    | none => simp [hHeader] at hOk
    | some hdr =>
      simp only [hHeader] at hOk
      by_cases hSame : hdr.salts = file.salts
      · right
        right
        rw [WALFile.salts?, hHeader, ← hSame]
        rfl
      simp only [if_neg hSame] at hOk
      split at hOk
      · cases hOk
        exact Or.inr (Or.inl rfl)
      split at hOk
      · cases hOk
        exact Or.inr (Or.inl rfl)
      split at hOk
      · simp at hOk
      split at hOk
      · simp at hOk
      · cases hOk
        exact Or.inr (Or.inl rfl)
      split at hOk
      · simp at hOk
      · cases hOk
        exact Or.inl rfl
      · cases hOk
        exact Or.inl rfl

end Verify

-- Reading

/-
  A reader that returns the committed frames after some
  older ones, from an offset on.
-/
structure WALReader.Reads (F : WALFormat D) (q : SQLite D) (off : Nat)
    (older : List (WALFrame D)) (rd : WALReader D) : Prop where
  committed : q.committed = older ++ rd.rest
  offset : off = F.offset older.length
  frameN : rd.frameN = older.length
  salts : q.wal.salts? = some rd.salts

section Reader

variable {l0 : List (L0File D)} {synced : Bool} {file : L0File D} {n off : Nat} {q : SQLite D}
variable {rd : WALReader D} {info : SyncInfo}

theorem SQLite.Valid.stale_salts {h} (hValid : q.Valid F) (hHeader : q.wal.header = some h) :
    ∀ f ∈ q.wal.frames.drop q.mxFrame, f.salts ≠ h.salts := by
  intro f hf hEq
  have hLt := hValid.stale f hf
  rw [hEq, hValid.salt h hHeader] at hLt
  exact Nat.lt_irrefl _ hLt

theorem newWALReader_reads (hValid : q.Valid F) (hOk : newWALReader F q.wal = .ok rd) :
    rd.Reads F q walHeaderSize [] := by
  unfold newWALReader at hOk
  cases hHeader : q.wal.header with
  | none => simp [hHeader] at hOk
  | some h =>
    simp only [hHeader] at hOk
    cases hOk
    have hRead := readFrames_append (hValid.chained h hHeader) (hValid.stale_salts hHeader)
    rw [SQLite.committed, take_append_drop] at hRead
    exact {
      committed := hRead.symm
      offset := offset_zero.symm
      frameN := rfl
      salts := by
        rw [WALFile.salts?, hHeader]
        rfl }

theorem readFrames_drop {h prev} (hValid : q.Valid F) (hHeader : q.wal.header = some h)
    (hPos : 0 < n) (hLe : n ≤ q.mxFrame) (hPrev : q.wal.frames[n - 1]? = some prev) :
    F.readFrames h.salts prev.chksum (q.wal.frames.drop n) = q.committed.drop n := by
  have hCommitted : q.committed.take (n - 1) ++ [prev] = q.committed.take n := by
    have hGet : q.committed[n - 1]? = some prev := by
      rw [SQLite.committed, getElem?_take_of_lt (by omega)]
      exact hPrev
    have hTake := take_add_one (l := q.committed) (i := n - 1)
    rw [Nat.sub_add_cancel hPos, hGet] at hTake
    exact hTake.symm
  have hChained := hValid.chained h hHeader
  rw [← take_append_drop n q.committed, chained_append, ← hCommitted,
    checksumAfter_append_singleton] at hChained
  have hSplit : q.wal.frames.drop n = q.committed.drop n ++ q.wal.frames.drop q.mxFrame := by
    have hLength : n ≤ q.committed.length := by
      rw [SQLite.committed, length_take, Nat.min_eq_left hValid.mxFrame_le]
      exact hLe
    rw [← drop_append_of_le_length hLength, SQLite.committed, take_append_drop]
  rw [hSplit]
  exact readFrames_append hChained.2 (hValid.stale_salts hHeader)

/- A reader that misses no frame that no file holds. -/
def WALReader.Suffices (F : WALFormat D) (file : L0File D) (snapshotting : Bool)
    (q : SQLite D) (off : Nat) (rd : WALReader D) : Prop :=
  ∃ older, rd.Reads F q off older ∧ (snapshotting = true → older = []) ∧
    ∀ f ∈ file.unsynced F q, f ∈ rd.rest

theorem newWALReader_suffices (snapshotting : Bool) (hValid : q.Valid F)
    (hOk : newWALReader F q.wal = .ok rd) : rd.Suffices F file snapshotting q walHeaderSize := by
  have hReads := newWALReader_reads hValid hOk
  refine ⟨[], hReads, fun _ => rfl, ?_⟩
  intro f hf
  have hMem : f ∈ q.committed := by
    unfold L0File.unsynced at hf
    split at hf
    · exact mem_of_mem_drop hf
    · exact hf
  rw [hReads.committed] at hMem
  exact hMem

theorem newWALReaderWithOffset_some {salts} (hOk :
    newWALReaderWithOffset F q.wal (F.offset n) salts = .ok (some rd)) :
    0 < n ∧ ∃ h prev, q.wal.header = some h ∧ q.wal.frames[n - 1]? = some prev ∧
      prev.salts = salts ∧
      rd = ⟨n, salts, F.readFrames salts prev.chksum (q.wal.frames.drop n)⟩ := by
  unfold newWALReaderWithOffset at hOk
  split at hOk
  · simp at hOk
  rename_i hBehind
  have hPos : 0 < n := by
    rw [← offset_zero (F := F), offset_le_iff] at hBehind
    omega
  cases hHeader : q.wal.header with
  | none => simp [hHeader] at hOk
  | some h =>
    simp only [hHeader, offset_aligned, offset_index, ne_eq, not_true_eq_false, if_false] at hOk
    cases hPrev : q.wal.frames[n - 1]? with
    | none => simp [hPrev] at hOk
    | some prev =>
      simp only [hPrev] at hOk
      split at hOk
      · simp at hOk
      · rename_i hSalts
        simp only [Except.ok.injEq, some.injEq] at hOk
        exact ⟨hPos, h, prev, rfl, rfl, not_not.mp hSalts, hOk.symm⟩

/-
  A reader from the end of the last file. If the WAL has
  been started anew, there is nothing to return.
-/
theorem newWALReaderWithOffset_suffices (hFollows : file.Follows F l0 synced n q)
    (hOk : newWALReaderWithOffset F q.wal (F.offset n) file.salts = .ok (some rd)) :
    rd.Suffices F file false q (F.offset n) ∨ (file.Stale q ∧ rd.rest = []) := by
  have hValid := hFollows.valid
  rcases newWALReaderWithOffset_some hOk with ⟨hPos, h, prev, hHeader, hPrev, hSalts, rfl⟩
  by_cases hSame : q.wal.salts? = some file.salts
  · left
    have hEq : h.salts = file.salts := by
      rw [WALFile.salts?, hHeader] at hSame
      exact some.inj hSame
    have hLe := hFollows.tracks.within hSame
    have hRest := readFrames_drop hValid hHeader hPos hLe hPrev
    rw [hEq] at hRest
    have hLength : (q.committed.take n).length = n := by
      rw [length_take, SQLite.committed, length_take, Nat.min_eq_left hValid.mxFrame_le,
        Nat.min_eq_left hLe]
    refine ⟨q.committed.take n, ?_, by simp, ?_⟩
    · exact {
        committed := by
          simp only [hRest]
          exact (take_append_drop n q.committed).symm
        offset := by rw [hLength]
        frameN := hLength.symm
        salts := hSame }
    · intro f hf
      rw [L0File.unsynced_of_salts_eq hFollows.tracks.walEnd_eq hSame] at hf
      simp only [hRest]
      exact hf
  · right
    refine ⟨hSame, ?_⟩
    apply readFrames_stale
    intro f hf
    rcases getElem?_of_mem hf with ⟨i, hGet⟩
    rw [getElem?_drop] at hGet
    exact hFollows.tracks.ended hSame (n + i) f (Nat.le_add_right n i) hGet

theorem openReader_cases (hOk : openReader F q.wal info = .ok (off, rd)) :
    (off = walHeaderSize ∧ newWALReader F q.wal = .ok rd) ∨
      (off = info.offset ∧ info.offset ≠ walHeaderSize ∧
        newWALReaderWithOffset F q.wal info.offset info.salts = .ok (some rd)) := by
  unfold openReader at hOk
  split at hOk
  · rename_i hZero
    left
    cases hNew : newWALReader F q.wal with
    | error err => simp [hNew] at hOk
    | ok rd' =>
      simp only [hNew, Except.ok.injEq, Prod.mk.injEq] at hOk
      rcases hOk with ⟨rfl, rfl⟩
      exact ⟨hZero, rfl⟩
  · rename_i hNotZero
    split at hOk
    · simp at hOk
    · rename_i rd' hOffset
      rcases hOk with ⟨rfl, rfl⟩
      exact Or.inr ⟨rfl, hNotZero, hOffset⟩
    left
    cases hNew : newWALReader F q.wal with
    | error err => simp [hNew] at hOk
    | ok rd' =>
      simp only [hNew, Except.ok.injEq, Prod.mk.injEq] at hOk
      rcases hOk with ⟨rfl, rfl⟩
      exact ⟨rfl, rfl⟩

/-
  The reader of `sync` returns at least the frames that no
  file holds. The exception is a WAL that was started anew
  after `verify` had looked at it: then it returns nothing.
-/
theorem openReader_suffices (hFollows : file.Follows F l0 synced n q)
    (hSound : info.Sound F l0 file n q) (hOk : openReader F q.wal info = .ok (off, rd)) :
    rd.Suffices F file info.snapshotting q off ∨ (info.snapshotting = false ∧
      info.offset ≠ walHeaderSize ∧ file.Stale q ∧
      rd.rest = []) := by
  rcases openReader_cases hOk with ⟨rfl, hNew⟩ | ⟨rfl, hNotZero, hOffset⟩
  · exact Or.inl (newWALReader_suffices info.snapshotting hFollows.valid hNew)
  rcases hSound.1 with hZero | ⟨hOff, hSalts, hSnap⟩
  · exact absurd hZero hNotZero
  rw [hOff, hSalts] at hOffset
  -- a full image does not find the frame before its start
  have hFlag : info.snapshotting = false := by
    rcases newWALReaderWithOffset_some hOffset with ⟨_, _, prev, _, hPrev, hSame, _⟩
    by_contra hTrue
    exact (hSnap (by simpa using hTrue)).frame prev hPrev hSame
  rw [hFlag, hOff]
  rcases newWALReaderWithOffset_suffices hFollows hOffset with hSuffices | hNothing
  · exact Or.inl hSuffices
  · rw [hOff] at hNotZero
    exact Or.inr ⟨rfl, hNotZero, hNothing⟩

end Reader

end Replicate
