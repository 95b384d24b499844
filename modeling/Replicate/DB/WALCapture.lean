import Mathlib.Data.List.Dedup
import Replicate.DB.WALVerify

/-
  What a sync of the WAL achieves, whatever is committed
  while it runs.

  A file that `sync` writes holds what the database had in
  the frames of its reader, or all of the database, at the
  time when the WAL was scanned. So afterwards the level-0
  files give the database of that time, and what has been
  committed since is in frames that no file holds.

  Main declarations:
    * `sync_captures`
    * `DBState.Inv.verifyAndSync`
    * `DBState.Inv.settled`
-/

-- Writing

namespace Replicate

open SQLite WALFormat PageHistory List Option

variable {D : Type} {F : WALFormat D}

/-
  A file that holds what some frames and, for a full image,
  the rest of the database have at one time.
-/
structure L0File.Captures (F : WALFormat D) (q : SQLite D)
    (frames : List (WALFrame D)) (snapshotting : Bool) (file : L0File D) : Prop where
  walEnd_eq : file.walEnd = F.offset q.mxFrame
  salts_eq : q.wal.salts? = some file.salts
  commit_eq : file.content.commit = q.size
  frames_ne : snapshotting = false → frames ≠ []
  page_eq : ∀ p, 1 ≤ p → p ≤ q.size → p ≠ F.lockPgno → file.content.page p = if snapshotting then
    some (q.page p)
      else newestPage p frames

section Write

variable {n off p : Nat} {q : SQLite D} {older : List (WALFrame D)} {rd : WALReader D}
variable {pages : List (Nat × D)}
variable {q' : SQLite D} {info : SyncInfo} {v : SyncViews D} {m : PageOffsets}
  {maxOffset walCommit : Nat}

theorem length_committed (hValid : q.Valid F) : q.committed.length = q.mxFrame := by
  rw [SQLite.committed, length_take, Nat.min_eq_left hValid.mxFrame_le]

theorem WALReader.Reads.frame (hReads : rd.Reads F q off older) (hValid : q.Valid F) {k : Nat} {f}
    (hGet : rd.rest[k]? = some f) :
    older.length + k < q.mxFrame ∧ q.wal.frames[older.length + k]? = some f := by
  have hCommitted : q.committed[older.length + k]? = some f := by
    rw [hReads.committed, getElem?_append_right (Nat.le_add_right _ _), Nat.add_sub_cancel_left]
    exact hGet
  have hLt : older.length + k < q.mxFrame := by
    rw [← length_committed hValid]
    exact (List.getElem?_eq_some_iff.mp hCommitted).1
  refine ⟨hLt, ?_⟩
  rw [SQLite.committed, getElem?_take_of_lt hLt] at hCommitted
  exact hCommitted

theorem WALReader.Reads.pageMap (hReads : rd.Reads F q off older)
    (hValid : q.Valid F) (hNonempty : rd.rest ≠ []) :
    F.pageMap rd = ((F.entries older.length rd.rest).filter (fun x => decide (x.1 ≤ q.size)),
      F.offset q.mxFrame, q.size) ∧ 0 < q.size := by
  have hCommits : Committed rd.rest := by
    have hAll := hValid.commits
    rw [hReads.committed] at hAll
    exact Committed.of_append hAll
  have hSize : q.size = commitOf rd.rest := by
    have hSome : q.committed ≠ [] := by
      rw [hReads.committed]
      exact append_ne_nil_of_right_ne_nil _ hNonempty
    rw [size_of_ne_nil hSome, hReads.committed, commitOf_append hNonempty]
  have hEnd : older.length + rd.rest.length = q.mxFrame := by
    rw [← length_committed hValid, hReads.committed, length_append]
  refine ⟨?_, ?_⟩
  · rw [pageMap_eq hNonempty hCommits, hSize, hReads.frameN, hEnd]
  · have hLast := getLast?_eq_some_getLast hNonempty
    have hCommit := (hCommits (rd.rest.getLast hNonempty) hLast).1
    rw [hSize, commitOf, hLast]
    exact Nat.pos_of_ne_zero hCommit

/-
  The page map of a reader leads to the newest versions,
  also in a WAL to which frames have been appended since.
-/
theorem WALReader.Reads.resolves {w} (hReads : rd.Reads F q off older) (hValid : q.Valid F)
    (hKept : ∀ i < q.mxFrame, w.frames[i]? = q.wal.frames[i]?) (hLe : p ≤ q.size) :
    match (F.pageMap rd).1.lookup p with
    | none => newestPage p rd.rest = none
    | some off =>
      ∃ d, readWALPage F w p off = .ok d ∧ newestPage p rd.rest = some d := by
  by_cases hNil : rd.rest = []
  · rw [pageMap_nil hNil, hNil]
    rfl
  rw [(hReads.pageMap hValid hNil).1]
  rw [PageOffsets.lookup_filter, if_pos hLe]
  have hEntries := @lookup_entries D F p older.length rd.rest
  cases hFound : (F.entries older.length rd.rest).lookup p with
  | none =>
    rw [hFound] at hEntries
    exact hEntries
  | some off =>
    rw [hFound] at hEntries
    rcases hEntries with ⟨k, f, hGet, rfl, hNewest⟩
    rcases hReads.frame hValid hGet with ⟨hLt, hFrame⟩
    refine ⟨f.data, ?_, hNewest⟩
    rw [readWALPage, frameAt_offset, hKept _ hLt, hFrame]

theorem writeLTXFromDB_pages (hReads : rd.Reads F q off []) (hValid : q.Valid F)
    (hFile : q'.file = q.file) (hKept : ∀ i < q.mxFrame, q'.wal.frames[i]? = q.wal.frames[i]?)
    (hOk : writeLTXFromDB F q' q.size (F.pageMap rd).1 = .ok pages) (hPos : 1 ≤ p)
    (hLe : p ≤ q.size) (hLock : p ≠ F.lockPgno) : pages.lookup p = some (q.page p) := by
  have hTable := Traversal.lookup_tabulate hOk p
  have hMem : p ∈ (range' 1 q.size).filter (fun pgno => decide (pgno ≠ F.lockPgno)) := by
    simp only [mem_filter, mem_range'_1, decide_eq_true_eq]
    exact ⟨⟨hPos, by omega⟩, hLock⟩
  rw [if_pos hMem] at hTable
  rcases hTable with ⟨d, hRead, hLookup⟩
  rw [hLookup]
  congr 1
  have hResolves := hReads.resolves (p := p) (w := q'.wal) hValid hKept hLe
  have hCommitted : q.committed = rd.rest := hReads.committed
  unfold page
  rw [hCommitted]
  cases hFound : (F.pageMap rd).1.lookup p with
  | none =>
    rw [hFound] at hResolves
    simp only [hFound] at hRead
    rw [hResolves]
    split at hRead
    · rw [← Except.ok.inj hRead, hFile]
      rfl
    · simp at hRead
  | some off =>
    rw [hFound] at hResolves
    simp only [hFound] at hRead
    rcases hResolves with ⟨d', hRead', hNewest⟩
    rw [hRead'] at hRead
    rw [hNewest, ← Except.ok.inj hRead]
    rfl

theorem writeLTXFromWAL_pages (hReads : rd.Reads F q off older) (hValid : q.Valid F)
    (hKept : ∀ i < q.mxFrame, q'.wal.frames[i]? = q.wal.frames[i]?)
    (hOk : writeLTXFromWAL F q' (F.pageMap rd).1 = .ok pages) (hLe : p ≤ q.size) :
    pages.lookup p = newestPage p rd.rest := by
  have hTable := Traversal.lookup_tabulate hOk p
  have hResolves := hReads.resolves (p := p) (w := q'.wal) hValid hKept hLe
  have hMem : (p ∈ ((F.pageMap rd).1.map Prod.fst).dedup.insertionSort (· ≤ ·)) ↔
    (F.pageMap rd).1.lookup p ≠ none := by
    rw [mem_insertionSort, mem_dedup, ne_eq, lookup_eq_none_iff]
    simp only [List.mem_map, bne_iff_ne, ne_eq, not_forall, not_not]
    constructor
    · rintro ⟨x, hx, rfl⟩
      exact ⟨x, hx, rfl⟩
    · rintro ⟨x, hx, hEq⟩
      exact ⟨x, hx, hEq.symm⟩
  cases hFound : (F.pageMap rd).1.lookup p with
  | none =>
    rw [hFound] at hResolves
    rw [if_neg (by rw [hMem, hFound]; simp)] at hTable
    rw [hTable, hResolves]
  | some off =>
    rw [hFound] at hResolves
    rw [if_pos (by rw [hMem, hFound]; simp)] at hTable
    rcases hTable with ⟨d, hRead, hLookup⟩
    rcases hResolves with ⟨d', hRead', hNewest⟩
    simp only [hFound, getD_some] at hRead
    rw [hRead'] at hRead
    rw [hLookup, hNewest, ← Except.ok.inj hRead]

/- What a successful `sync` did. -/
theorem sync_ok {l0 env result} (hOk : sync F l0 env info v = .ok result) :
    ∃ off rd m maxOffset walCommit sz commit, openReader F v.scan.wal info = .ok (off, rd) ∧
      F.pageMap rd = (m, maxOffset, walCommit) ∧
      sz = (if 0 < maxOffset then maxOffset - off else 0) ∧
      commit = (if 0 < walCommit then walCommit else v.scan.file.size) ∧
      ((result = none ∧ info.snapshotting = false ∧ sz = 0) ∨ ∃ file pages,
        result = some file ∧ (info.snapshotting = false → sz ≠ 0) ∧ (if info.snapshotting then
          writeLTXFromDB F v.copy commit m = .ok pages
          else writeLTXFromWAL F v.copy m = .ok pages) ∧
          file.walEnd = off + sz ∧
          file.salts = rd.salts ∧
          file.content = ⟨commit, fun p => pages.lookup p⟩) := by
  unfold sync at hOk
  cases hReader : openReader F v.scan.wal info with
  | error err => simp [hReader] at hOk
  | ok x =>
    rcases x with ⟨off, rd⟩
    rcases hMap : F.pageMap rd with ⟨m, maxOffset, walCommit⟩
    simp only [hReader, hMap] at hOk
    generalize hSz : (if 0 < maxOffset then maxOffset - off else 0) = sz at hOk
    generalize hCommit : (if 0 < walCommit then walCommit else v.scan.file.size) = commit at hOk
    refine ⟨off, rd, m, maxOffset, walCommit, sz, commit, rfl, hMap, hSz.symm, hCommit.symm, ?_⟩
    split at hOk
    · rename_i hSkip
      cases hOk
      exact Or.inl ⟨rfl, hSkip⟩
    rename_i hNotSkip
    right
    cases hWrite : env.writeErr with
    | some err => simp [hWrite] at hOk
    | none =>
      simp only [hWrite] at hOk
      split at hOk
      · simp at hOk
      rename_i pages hPages
      cases hOk
      refine ⟨_, pages, rfl, ?_, ?_, rfl, rfl, rfl⟩
      · intro hFalse hZero
        exact hNotSkip ⟨hFalse, hZero⟩
      · cases hSnap : info.snapshotting with
        | true | false =>
          rw [hSnap] at hPages
          exact Traversal.mapError_eq_ok_iff.mp hPages

/- A file that `sync` writes captures what its reader saw. -/
theorem WALReader.Reads.captures {file : L0File D} {sz commit : Nat}
    (hReads : rd.Reads F v.scan off older) (hOlder : info.snapshotting = true → older = [])
    (hValid : v.scan.Valid F) (hFile : v.copy.file = v.scan.file)
    (hKept : ∀ i < v.scan.mxFrame, v.copy.wal.frames[i]? = v.scan.wal.frames[i]?)
    (hMap : F.pageMap rd = (m, maxOffset, walCommit))
    (hSz : sz = if 0 < maxOffset then maxOffset - off else 0)
    (hCommit : commit = if 0 < walCommit then walCommit else v.scan.file.size)
    (hWritten : info.snapshotting = false → sz ≠ 0)
    (hPages : if info.snapshotting then writeLTXFromDB F v.copy commit m = .ok pages else
      writeLTXFromWAL F v.copy m = .ok pages) (hEnd : file.walEnd = off + sz)
    (hSalts : file.salts = rd.salts) (hContent : file.content = ⟨commit, fun p => pages.lookup p⟩) :
    file.Captures F v.scan rd.rest info.snapshotting := by
  have hFirst : (F.pageMap rd).1 = m := by rw [hMap]
  -- both with and without frames the map says where they end
  have hEnds : off + sz = F.offset v.scan.mxFrame ∧ commit = v.scan.size := by
    by_cases hNil : rd.rest = []
    · rw [pageMap_nil hNil] at hMap
      cases hMap
      have hSnap : info.snapshotting = true := by
        by_contra hNot
        exact hWritten (by simpa using hNot) hSz
      have hNone : v.scan.committed = [] := by
        rw [hReads.committed, hOlder hSnap, hNil]
        rfl
      have hMx : v.scan.mxFrame = 0 := by
        rw [← length_committed hValid, hNone]
        rfl
      rw [hSz, hCommit, hMx, hReads.offset, hOlder hSnap, size_of_nil hNone]
      exact ⟨rfl, rfl⟩
    · rcases hReads.pageMap hValid hNil with ⟨hEq, hSize⟩
      rw [hMap] at hEq
      cases hEq
      rw [hSz, hCommit, if_pos (offset_pos _), if_pos hSize]
      have hLe : off ≤ F.offset v.scan.mxFrame := by
        rw [hReads.offset, offset_le_iff, ← length_committed hValid, hReads.committed,
          length_append]
        exact Nat.le_add_right _ _
      exact ⟨Nat.add_sub_cancel' hLe, rfl⟩
  exact {
    walEnd_eq := hEnd.trans hEnds.1
    salts_eq := by
      rw [hSalts]
      exact hReads.salts
    commit_eq := by
      rw [hContent]
      exact hEnds.2
    frames_ne := by
      intro hFalse hNil
      apply hWritten hFalse
      rw [pageMap_nil hNil] at hMap
      cases hMap
      exact hSz
    page_eq := by
      intro p hPos hLe hLock
      rw [hContent]
      cases hSnap : info.snapshotting with
      | true =>
        rw [hSnap] at hPages
        have hNone := hOlder hSnap
        subst hNone
        rw [hEnds.2, ← hFirst] at hPages
        exact writeLTXFromDB_pages hReads hValid hFile hKept hPages hPos hLe hLock
      | false =>
        rw [hSnap, ← hFirst] at hPages
        exact writeLTXFromWAL_pages hReads hValid hKept hPages hLe }

theorem WALReader.Reads.rest_eq_nil (hReads : rd.Reads F q off older) (hValid : q.Valid F)
    (hMap : F.pageMap rd = (m, maxOffset, walCommit))
    (hSz : (if 0 < maxOffset then maxOffset - off else 0) = 0) : rd.rest = [] := by
  by_contra hNonempty
  have hEq := (hReads.pageMap hValid hNonempty).1
  rw [hMap] at hEq
  cases hEq
  rw [if_pos (offset_pos _), hReads.offset] at hSz
  have hLt : F.offset older.length < F.offset q.mxFrame := by
    rw [offset_lt_iff, ← length_committed hValid, hReads.committed, length_append]
    exact Nat.lt_add_of_pos_right (length_pos_iff.mpr hNonempty)
  omega

end Write

-- Replaying One More File

section Replay

variable {l0 : List (L0File D)} {file : L0File D} {p : Nat}

theorem sinceFullImage_append_singleton (l0 : List (L0File D)) (file : L0File D) :
    sinceFullImage F (l0 ++ [file]) = if file.isFullImage F then
      [file]
      else sinceFullImage F l0 ++ [file] := by
  induction l0 with
  | nil => simp [sinceFullImage]
  | cons g l0 ih =>
    rw [cons_append, sinceFullImage, sinceFullImage, any_append, ih]
    cases hFull : file.isFullImage F with
    | true => simp [hFull]
    | false =>
      cases hAny : l0.any (L0File.isFullImage F) with
      | true | false => simp [hFull]

theorem getLast?_sinceFullImage : (sinceFullImage F l0).getLast? = l0.getLast? := by
  rcases eq_nil_or_concat l0 with rfl | ⟨files, file, rfl⟩
  · rfl
  rw [concat_eq_append, sinceFullImage_append_singleton, getLast?_concat]
  split
  · rfl
  · exact getLast?_concat

theorem latestPage_append_some {d : D} (hPage : file.content.page p = some d) :
    latestPage F (l0 ++ [file]) p = some d := by
  rw [latestPage, sinceFullImage_append_singleton]
  split
  · simp [topmost, hPage]
  · rw [map_append, topmost_append]
    simp [topmost, hPage]

theorem latestPage_append_none (hPos : 1 ≤ p) (hLe : p ≤ file.content.commit)
    (hLock : p ≠ F.lockPgno) (hPage : file.content.page p = none) :
    latestPage F (l0 ++ [file]) p = latestPage F l0 p := by
  have hPartial : file.isFullImage F = false := by
    apply Bool.eq_false_of_not_eq_true
    intro hFull
    have hAt := List.all_eq_true.mp hFull p (mem_range'_1.mpr ⟨hPos, by omega⟩)
    simp [hLock, hPage] at hAt
  rw [latestPage, sinceFullImage_append_singleton, hPartial, if_neg Bool.false_ne_true, map_append,
    topmost_append]
  simp [topmost, hPage, latestPage]

end Replay

-- The New Last File

theorem newestPage_append_singleton (frames : List (WALFrame D)) (f : WALFrame D) :
    newestPage f.pgno (frames ++ [f]) = some f.data := by
  rw [newestPage_append]
  simp [newestPage, topmost, WALFrame.layer]

namespace L0File.Captures

variable {l0 : List (L0File D)} {file : L0File D} {q : SQLite D} {older frames : List (WALFrame D)}
variable {snapshotting : Bool}

theorem unsynced_eq (hCaptures : file.Captures F q frames snapshotting) (hValid : q.Valid F) :
    file.unsynced F q = [] := by
  rw [L0File.unsynced_of_salts_eq hCaptures.walEnd_eq hCaptures.salts_eq, drop_eq_nil_iff,
    length_committed hValid]

/- The frame before the end of the file is in the file. -/
theorem lastPage {i : Nat} {f} (hCaptures : file.Captures F q frames snapshotting)
    (hValid : q.Valid F) (hCommitted : q.committed = older ++ frames) (hMx : q.mxFrame = i + 1)
    (hGet : q.wal.frames[i]? = some f) : file.content.page f.pgno = some f.data := by
  have hSplit : q.committed = q.committed.take i ++ [f] := by
    have hAt : q.committed[i]? = some f := by
      rw [SQLite.committed, getElem?_take_of_lt (by omega)]
      exact hGet
    have hTake := take_add_one (l := q.committed) (i := i)
    rw [hAt, ← hMx, take_of_length_le (Nat.le_of_eq (length_committed hValid))] at hTake
    exact hTake
  have hMem : f ∈ q.committed := by
    rw [hSplit]
    simp
  have hLast : f ∈ q.committed.getLast? := by
    rw [hSplit]
    simp
  have hSize : q.size = f.commit := by
    rw [size_of_ne_nil (ne_nil_of_mem hMem), commitOf, mem_def.mp hLast]
  have hWithin : f.pgno ≤ q.size := by
    rw [hSize]
    exact (hValid.commits f hLast).2
  rcases hValid.pages f hMem with ⟨hPos, hLock⟩
  rw [hCaptures.page_eq f.pgno hPos hWithin hLock]
  cases hSnap : snapshotting with
  | true =>
    rw [if_pos rfl, page, hSplit, newestPage_append_singleton]
    rfl
  | false =>
    have hFrames := hCaptures.frames_ne hSnap
    rcases eq_nil_or_concat frames with hNil | ⟨fs, g, hConcat⟩
    · exact absurd hNil hFrames
    rw [concat_eq_append] at hConcat
    have hSame : g = f := by
      rw [hCommitted, hConcat, ← append_assoc] at hLast
      simpa using hLast
    rw [hConcat, hSame]
    exact newestPage_append_singleton fs f

theorem tracks (hCaptures : file.Captures F q frames snapshotting) (hValid : q.Valid F)
    (hCommitted : q.committed = older ++ frames) : file.Tracks F q.mxFrame q where
  walEnd_eq := hCaptures.walEnd_eq
  salt_le := by
    rcases map_eq_some_iff.mp hCaptures.salts_eq with ⟨h, hHeader, hSalts⟩
    rw [← hSalts]
    exact Nat.le_of_eq (hValid.salt h hHeader)
  within := fun _ => Nat.le_refl _
  ended := fun hStale => absurd hCaptures.salts_eq hStale
  lastPage := by
    intro i f hMx hGet _
    exact hCaptures.lastPage hValid hCommitted hMx hGet
  restarted := fun hStale => absurd hCaptures.salts_eq hStale

/- With the new file the level-0 files give the database. -/
theorem covered (hCaptures : file.Captures F q frames snapshotting)
    (hValid : q.Valid F) (hCommitted : q.committed = older ++ frames)
    (hBefore : snapshotting = false → ∀ p, 1 ≤ p → p ≤ q.size → p ≠ F.lockPgno →
      (∃ f ∈ frames, f.pgno = p) ∨ latestPage F l0 p = some (q.page p)) :
    file.Covered F (l0 ++ [file]) q where
  pages := by
    intro p hPos hLe hLock
    right
    have hPage := hCaptures.page_eq p hPos hLe hLock
    cases hSnap : snapshotting with
    | true =>
      rw [hSnap, if_pos rfl] at hPage
      exact latestPage_append_some hPage
    | false =>
      rw [hSnap, if_neg Bool.false_ne_true] at hPage
      by_cases hMem : ∃ f ∈ frames, f.pgno = p
      · -- the frames of the reader have the newest version
        have hNewest : newestPage p q.committed = newestPage p frames := by
          rw [hCommitted]
          exact newestPage_append_of_mem hMem
        cases hFound : newestPage p frames with
        | none =>
          rcases hMem with ⟨f, hf, hEq⟩
          exact absurd hEq (newestPage_eq_none_iff.mp hFound f hf)
        | some d =>
          rw [hFound] at hPage hNewest
          rw [latestPage_append_some hPage, page, hNewest]
          rfl
      · rcases hBefore hSnap p hPos hLe hLock with hIn | hLatest
        · exact absurd hIn hMem
        · have hNone : newestPage p frames = none := by
            rw [newestPage_eq_none_iff]
            intro f hf hEq
            exact hMem ⟨f, hf, hEq⟩
          rw [hNone] at hPage
          rw [latestPage_append_none hPos (by rw [hCaptures.commit_eq]; exact hLe) hLock hPage]
          exact hLatest
  size_eq := fun _ => hCaptures.commit_eq
  copied := fun _ => hCaptures.unsynced_eq hValid

end L0File.Captures

-- Syncing

/-
  What every state of a run satisfies: the database is valid
  and the last level-0 file follows it.
-/
structure DBState.Inv (F : WALFormat D) (db : DBState D) : Prop where
  valid : db.sqlite.Valid F
  follows : ∀ file, db.l0.getLast? = some file →
    ∃ n, file.Follows F db.l0 db.syncedToWALEnd n db.sqlite

/- The level-0 files give the database. -/
def DBState.Settled (F : WALFormat D) (db : DBState D) : Prop :=
  ∃ file, db.l0.getLast? = some file ∧ file.Covered F db.l0 db.sqlite ∧
    file.unsynced F db.sqlite = []

section Sync

variable {db : DBState D} {env : SyncEnv} {q : SQLite D} {v : SyncViews D} {info : SyncInfo}

theorem SyncViews.InOrder.of_commits (hBefore : Commits F q v.stat) (hOrder : v.InOrder F v.stat) :
    v.InOrder F q :=
  { hOrder with stat := hBefore }

theorem SyncViews.InOrder.to_scan (hOrder : v.InOrder F q) : Commits F q v.scan :=
  (((hOrder.stat.trans hOrder.header).trans hOrder.lastPage).trans hOrder.salts).trans hOrder.scan

theorem SyncViews.InOrder.from_scan (hOrder : v.InOrder F q) : Commits F v.scan v.size :=
  hOrder.copy.trans hOrder.size

theorem SyncViews.InOrder.kept (hOrder : v.InOrder F q)
    (hValid : v.scan.Valid F) (hCopy : v.copy.wal.header = v.scan.wal.header) :
    v.copy.file = v.scan.file ∧ ∀ i < v.scan.mxFrame,
      v.copy.wal.frames[i]? = v.scan.wal.frames[i]? := by
  refine ⟨(Commits.salt_le hOrder.copy).2, ?_⟩
  cases hHeader : v.scan.wal.header with
  | none =>
    have hNone : v.scan.mxFrame = 0 := by
      have hLe := hValid.mxFrame_le
      rw [hValid.empty hHeader] at hLe
      exact Nat.le_zero.mp hLe
    intro i hi
    omega
  | some h => exact (Commits.prefix_of_header_eq hValid hHeader hOrder.copy (hCopy.trans hHeader)).2

theorem L0File.Follows.of_flag {l0 : List (L0File D)} {file : L0File D}
    {n : Nat} {b b' : Bool} (hFollows : file.Follows F l0 b n q) (hFlag : b' = true → b = true) :
    file.Follows F l0 b' n q := by
  refine ⟨hFollows.valid, hFollows.tracks, ?_⟩
  rcases hFollows.covered with hCovered | ⟨hFalse, hGone⟩
  · exact Or.inl hCovered
  right
  refine ⟨?_, hGone⟩
  cases b' with
  | false => rfl
  | true =>
    rw [hFlag rfl] at hFalse
    exact absurd hFalse.symm Bool.false_ne_true

theorem DBState.Inv.of_commits {db' : DBState D} (hInv : db.Inv F) (hL0 : db'.l0 = db.l0)
    (hCommits : Commits F db.sqlite db'.sqlite)
    (hFlag : db'.syncedToWALEnd = true → db.syncedToWALEnd = true) : db'.Inv F where
  valid := hCommits.valid hInv.valid
  follows := by
    intro file hLast
    rw [hL0] at hLast ⊢
    rcases hInv.follows file hLast with ⟨n, hFollows⟩
    exact ⟨n, (hFollows.commits hCommits).of_flag hFlag⟩

variable [DecidableEq D]

/- A file that `sync` writes follows the scanned WAL. -/
theorem sync_captures {new : L0File D} (hInv : db.Inv F) (hOrder : v.InOrder F db.sqlite)
    (hCopy : v.copy.wal.header = v.scan.wal.header) (hVerified : (verify F db v).1 = .ok info)
    (hOk : sync F db.l0 env info v = .ok (some new)) :
    new.Tracks F v.scan.mxFrame v.scan ∧ new.Covered F (db.l0 ++ [new]) v.scan ∧
      new.unsynced F v.scan = [] := by
  have hValid : v.scan.Valid F := hOrder.to_scan.valid hInv.valid
  rcases hOrder.kept hValid hCopy with ⟨hFile, hKept⟩
  rcases sync_ok hOk with ⟨off, rd, m, maxOffset, walCommit, sz, commit, hReader,
    hMap, hSz, hCommit, ⟨hNone, _⟩ | ⟨file, pages, hSome, hWritten, hPages, hEnd, hSalts, hContent⟩⟩
  · simp at hNone
  cases hSome
  -- the reader, and what is known of pages without frames
  have hReads : ∃ older, rd.Reads F v.scan off older ∧ (info.snapshotting = true → older = []) ∧
    (info.snapshotting = false → ∀ p, 1 ≤ p → p ≤ v.scan.size →
      p ≠ F.lockPgno → (∃ f ∈ rd.rest, f.pgno = p) ∨
        latestPage F db.l0 p = some (v.scan.page p)) := by
    cases hLast : db.l0.getLast? with
    | none =>
      simp only [verify, hLast] at hVerified
      cases hVerified
      rcases openReader_cases hReader with ⟨rfl, hNew⟩ | ⟨_, hNotZero, _⟩
      · exact ⟨[], newWALReader_reads hValid hNew, fun _ => rfl, by simp⟩
      · exact absurd rfl hNotZero
    | some file =>
      rcases hInv.follows file hLast with ⟨n, hFollows⟩
      have hSound := verify_sound hFollows hOrder hLast hVerified
      rcases openReader_suffices (hFollows.commits hOrder.to_scan) hSound hReader
        with ⟨older, hReads, hOlder, hHeld⟩ | ⟨hFlag, _, _, hNil⟩
      · refine ⟨older, hReads, hOlder, ?_⟩
        intro hFlag p hPos hLe hLock
        rcases (hSound.2 hFlag).pages p hPos hLe hLock with ⟨f, hf, hEq⟩ | hLatest
        · exact Or.inl ⟨f, hHeld f hf, hEq⟩
        · exact Or.inr hLatest
      -- nothing is read, so nothing is written
      exfalso
      apply hWritten hFlag
      rw [pageMap_nil hNil] at hMap
      cases hMap
      exact hSz
  rcases hReads with ⟨older, hReads, hOlder, hBefore⟩
  have hCaptures :=
    hReads.captures hOlder hValid hFile hKept hMap hSz hCommit hWritten hPages hEnd hSalts hContent
  exact ⟨hCaptures.tracks hValid hReads.committed,
    hCaptures.covered hValid hReads.committed hBefore,
    hCaptures.unsynced_eq hValid⟩

theorem verify_flag (hSet : (verify F db v).2 = true) : db.syncedToWALEnd = true := by
  unfold verify at hSet
  cases hLast : db.l0.getLast? with
  | none =>
    simp only [hLast] at hSet
    exact hSet
  | some file =>
    simp only [hLast] at hSet
    split at hSet
    · split at hSet
      · simp at hSet
      · exact hSet
    · exact hSet

theorem verifyAndSync_cases (F : WALFormat D) (db : DBState D) (env : SyncEnv) (v : SyncViews D) :
    (∃ err db', db.verifyAndSync F env v = (.error err, db') ∧
      db'.l0 = db.l0 ∧ db'.sqlite = v.size ∧
      db'.syncedToWALEnd = (verify F db v).2) ∨
      (∃ info db', db.verifyAndSync F env v = (.ok false, db') ∧ (verify F db v).1 = .ok info ∧
        sync F db.l0 env info v = .ok none ∧
        db'.l0 = db.l0 ∧ db'.sqlite = v.size ∧
        db'.syncedToWALEnd = (verify F db v).2) ∨
      ∃ info new db', db.verifyAndSync F env v = (.ok true, db') ∧ (verify F db v).1 = .ok info ∧
        sync F db.l0 env info v = .ok (some new) ∧
        db'.l0 = db.l0 ++ [new] ∧ db'.sqlite = v.size ∧
        db'.lastSyncedWALOffset = new.walEnd := by
  rcases hVerify : verify F db v with ⟨verified, flag⟩
  unfold DBState.verifyAndSync
  simp only [hVerify]
  cases verified with
  | error err => exact Or.inl ⟨_, _, rfl, rfl, rfl, rfl⟩
  | ok info =>
    simp only
    cases hSync : sync F db.l0 env info v with
    | error err => exact Or.inl ⟨_, _, rfl, rfl, rfl, rfl⟩
    | ok result =>
      cases result with
      | none => exact Or.inr (Or.inl ⟨info, _, rfl, rfl, hSync, rfl, rfl, rfl⟩)
      | some new => exact Or.inr (Or.inr ⟨info, new, _, rfl, rfl, hSync, rfl, rfl, rfl⟩)

/- A sync keeps the invariant, whatever overlaps with it. -/
theorem DBState.Inv.verifyAndSync (hInv : db.Inv F) (hOrder : v.InOrder F db.sqlite)
    (hCopy : v.copy.wal.header = v.scan.wal.header) : (db.verifyAndSync F env v).2.Inv F := by
  have hCommits : Commits F db.sqlite v.size := hOrder.to_scan.trans hOrder.from_scan
  rcases verifyAndSync_cases F db env v with
    ⟨err, db', hEq, hL0, hSize, hFlag⟩ | ⟨info, db', hEq, _, _, hL0, hSize, hFlag⟩ |
      ⟨info, new, db', hEq, hVerified, hSync, hL0, hSize, _⟩
  · rw [hEq]
    apply hInv.of_commits hL0 (by rw [hSize]; exact hCommits)
    rw [hFlag]
    exact verify_flag
  · rw [hEq]
    apply hInv.of_commits hL0 (by rw [hSize]; exact hCommits)
    rw [hFlag]
    exact verify_flag
  rw [hEq]
  rcases sync_captures hInv hOrder hCopy hVerified hSync with ⟨hTracks, hCovered, _⟩
  have hValid : v.scan.Valid F := hOrder.to_scan.valid hInv.valid
  refine ⟨?_, ?_⟩
  · rw [hSize]
    exact hCommits.valid hInv.valid
  · intro file hLast
    rw [hL0, getLast?_concat] at hLast
    cases hLast
    have hFollows : new.Follows F (db.l0 ++ [new]) db'.syncedToWALEnd v.scan.mxFrame v.scan :=
      ⟨hValid, hTracks, Or.inl hCovered⟩
    rw [hL0, hSize]
    exact ⟨v.scan.mxFrame, hFollows.commits hOrder.from_scan⟩

/-
  A sync that nothing overlaps with and that succeeds makes
  the level-0 files give the database.
-/
theorem DBState.Inv.settled {b : Bool} (hInv : db.Inv F) (hBefore : Commits F db.sqlite q)
    (hOk : (db.verifyAndSync F env (.still q)).1 = .ok b) :
    (db.verifyAndSync F env (.still q)).2.Settled F := by
  have hOrder : (SyncViews.still q).InOrder F db.sqlite :=
    SyncViews.InOrder.of_commits hBefore (SyncViews.inOrder_still F q)
  rcases verifyAndSync_cases F db env (.still q) with
    ⟨err, db', hEq, _⟩ | ⟨info, db', hEq, hVerified, hSync, hL0, hSize, _⟩ |
      ⟨info, new, db', hEq, hVerified, hSync, hL0, hSize, _⟩
  · rw [hEq] at hOk
    simp at hOk
  · rw [hEq]
    rcases sync_ok hSync with ⟨off, rd, m, maxOffset, walCommit, sz, commit, hReader,
      hMap, hSz, _, ⟨_, hFlag, hZero⟩ | ⟨_, _, hSome, _⟩⟩
    · cases hLast : db.l0.getLast? with
      | none =>
        simp only [verify, hLast] at hVerified
        cases hVerified
        simp at hFlag
      | some file =>
        rcases hInv.follows file hLast with ⟨n, hFollows⟩
        have hNow := hFollows.commits hOrder.to_scan
        have hSound := verify_sound hFollows hOrder hLast hVerified
        refine ⟨file, by rw [hL0]; exact hLast, ?_, ?_⟩
        · rw [hL0, hSize]
          exact hSound.2 hFlag
        · rw [hSize]
          rcases openReader_suffices hNow hSound hReader with
            ⟨older, hReads, _, hHeld⟩ | ⟨_, hNotZero, hStale, _⟩
          · have hNil : rd.rest = [] := hReads.rest_eq_nil hNow.valid hMap (hSz.symm.trans hZero)
            apply eq_nil_iff_forall_not_mem.mpr
            intro f hf
            have hMem := hHeld f hf
            rw [hNil] at hMem
            simp at hMem
          -- the salts cannot have changed in between
          rcases verify_continues hLast hVerified with hStart | hSnap | hSalts
          · exact absurd hStart hNotZero
          · rw [hFlag] at hSnap
            exact absurd hSnap Bool.false_ne_true
          · exact absurd hSalts hStale
    · simp at hSome
  · rw [hEq]
    rcases sync_captures hInv hOrder rfl hVerified hSync with ⟨_, hCovered, hNil⟩
    refine ⟨new, by rw [hL0]; exact getLast?_concat, ?_, ?_⟩
    · rw [hL0, hSize]
      exact hCovered
    · rw [hSize]
      exact hNil

end Sync

end Replicate
