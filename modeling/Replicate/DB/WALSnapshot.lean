import Replicate.DB.WALCapture

/-
  What a snapshotting sync writes.

  If `verify` asks for a snapshot, the file that `sync`
  writes should hold the whole database: the database file
  overlaid with all valid and committed frames of the WAL.
  The files here are arbitrary. In particular the last local
  file may come from the replica, after the database and its
  WAL were rolled back to an earlier copy.

  `sync` uses the reader of the incremental case. So if the
  frame before the end of the last file has the salts of
  that file, then the scan begins there, and earlier frames
  are not seen.

  Main declarations:
    * `sync_snapshot`
    * `openReader_scans`
    * `snapshot_sync_whole_iff`
    * `snapshot_sync_misses_frames`
-/

-- Committed Frames

namespace Replicate

open WALFormat PageHistory
open List hiding format

variable {D : Type} {F : WALFormat D}

namespace WALFormat

variable {fs : List (WALFrame D)}

/- The frames up to the last commit. -/
def committedPart : List (WALFrame D) → List (WALFrame D)
| [] => []
| f :: fs =>
  match committedPart fs with
  | [] => if f.commit ≠ 0 then [f] else []
  | g :: gs => f :: g :: gs

theorem committedPart_spec (fs : List (WALFrame D)) :
    (∃ tail, fs = committedPart fs ++ tail ∧ ∀ f ∈ tail, f.commit = 0) ∧
    ∀ f ∈ (committedPart fs).getLast?, f.commit ≠ 0 := by
  induction fs with
  | nil => exact ⟨⟨[], rfl, nofun⟩, nofun⟩
  | cons f fs ih =>
    rcases ih with ⟨⟨tail, hSplit, hTail⟩, hLast⟩
    rw [committedPart]
    cases hPart : committedPart fs with
    | nil =>
      rw [hPart, nil_append] at hSplit
      dsimp only
      split
      · rename_i hCommit
        refine ⟨⟨fs, rfl, hSplit ▸ hTail⟩, ?_⟩
        intro g hg
        cases hg
        exact hCommit
      rename_i hOpen
      refine ⟨⟨f :: fs, rfl, ?_⟩, nofun⟩
      intro g hg
      rcases mem_cons.mp hg with rfl | hLater
      · exact not_not.mp hOpen
      · exact (hSplit ▸ hTail) g hLater
    | cons g gs =>
      rw [hPart] at hSplit hLast
      refine ⟨⟨tail, ?_, hTail⟩, ?_⟩
      · exact congrArg (f :: ·) hSplit
      · rw [getLast?_cons_cons]
        exact hLast

/-
  The committed frames that the page map shows. It is empty
  if all their pages are beyond the last size.
-/
def mapped (fs : List (WALFrame D)) : List (WALFrame D) :=
  if ∀ f ∈ committedPart fs, commitOf (committedPart fs) < f.pgno then [] else committedPart fs

theorem committedPart_drop (fs : List (WALFrame D)) (n : Nat) :
    committedPart (fs.drop n) = (committedPart fs).drop n := by
  induction fs generalizing n with
  | nil => simp [committedPart]
  | cons f fs ih =>
    cases n with
    | zero => rfl
    | succ n =>
      rw [drop_succ_cons, ih, committedPart]
      cases committedPart fs with
      | nil =>
        dsimp only
        split
        · exact drop_nil.trans drop_nil.symm
        · exact drop_nil.trans drop_nil.symm
      | cons g gs => rfl

theorem commitOf_drop {n : Nat} (hSome : fs.drop n ≠ []) : commitOf (fs.drop n) = commitOf fs := by
  unfold commitOf
  rw [getLast?_drop, if_neg (fun hLe => hSome (drop_eq_nil_iff.mpr hLe))]

theorem filter_entries_eq_nil_iff {i c : Nat} :
    (F.entries i fs).filter (fun x => decide (x.1 ≤ c)) = [] ↔ ∀ f ∈ fs, c < f.pgno := by
  induction fs generalizing i with
  | nil => simp [entries]
  | cons f fs ih =>
    rw [entries, filter_append, append_eq_nil_iff, ih, forall_mem_cons, and_comm]
    simp

theorem pageMap_mapped (rd : WALReader D) :
    (F.pageMap rd).2.2 = commitOf (mapped rd.rest) ∧ (F.pageMap rd).1 =
      (F.entries rd.frameN (mapped rd.rest)).filter (fun x =>
        decide (x.1 ≤ commitOf (mapped rd.rest))) := by
  rcases committedPart_spec rd.rest with ⟨⟨tail, hSplit, hTail⟩, hLast⟩
  have hMap : F.pageMap rd = F.pageMap ⟨rd.frameN, rd.salts, committedPart rd.rest⟩ := by
    have hOpen := @pageMap_append_open D F rd.frameN rd.salts (committedPart rd.rest) tail hTail
    rw [← hSplit] at hOpen
    exact hOpen
  rw [hMap, mapped]
  by_cases hNil : committedPart rd.rest = []
  · rw [pageMap_nil hNil, hNil]
    exact ⟨rfl, rfl⟩
  unfold pageMap
  rw [pageMapLoop_eq hNil hLast]
  simp only [append_nil, filter_entries_eq_nil_iff]
  split
  · exact ⟨rfl, rfl⟩
  · exact ⟨rfl, rfl⟩

theorem commitOf_mapped_pos_iff : 0 < commitOf (mapped fs) ↔ mapped fs ≠ [] := by
  constructor
  · intro hPos hNil
    rw [hNil] at hPos
    exact absurd hPos (Nat.lt_irrefl 0)
  · intro hSome
    have hPart : mapped fs = committedPart fs := by
      unfold mapped at hSome ⊢
      split
      · rename_i hBeyond
        rw [if_pos hBeyond] at hSome
        exact absurd rfl hSome
      · rfl
    rw [hPart] at hSome ⊢
    have hLast := getLast?_eq_some_getLast hSome
    rw [commitOf, hLast]
    exact Nat.pos_of_ne_zero ((committedPart_spec fs).2 _ hLast)

/- A scan that goes on after a valid frame. -/
theorem readFrames_drop_valid {salts c prev} {n : Nat} (hPrev : fs[n]? = some prev)
    (hValid : n < (F.readFrames salts c fs).length) : prev.salts = salts ∧
      F.readFrames salts prev.chksum (fs.drop (n + 1)) =
        (F.readFrames salts c fs).drop (n + 1) := by
  induction fs generalizing n c with
  | nil => cases hPrev
  | cons f fs ih =>
    rw [readFrames] at hValid ⊢
    split at hValid
    · exact absurd hValid (Nat.not_lt_zero _)
    rename_i hSalts
    split at hValid
    · exact absurd hValid (Nat.not_lt_zero _)
    rename_i hSum
    rw [if_neg hSalts, if_neg hSum]
    cases n with
    | zero =>
      cases hPrev
      exact ⟨not_not.mp hSalts, rfl⟩
    | succ n => exact ih hPrev (Nat.lt_of_succ_lt_succ hValid)

theorem readFrames_isPrefix (salts : Salts) (c : Checksum) (fs : List (WALFrame D)) :
    F.readFrames salts c fs <+: fs := by
  induction fs generalizing c with
  | nil => exact prefix_rfl
  | cons f fs ih =>
    rw [readFrames]
    split
    · exact nil_prefix
    · split
      · exact nil_prefix
      · exact prefix_cons_inj f |>.mpr (ih f.chksum)

end WALFormat

-- Images

variable {rd : WALReader D} {w : WALFile D}
variable {f : L0File D} {q : SQLite D} {info : SyncInfo} {off : Nat}

/- A database file overlaid with frames. -/
def imageSize (file : DBFile D) (fs : List (WALFrame D)) : Nat :=
  match fs with
  | [] => file.size
  | f :: fs => WALFormat.commitOf (f :: fs)

def imagePage (file : DBFile D) (fs : List (WALFrame D)) (p : Nat) : D :=
  (newestPage p fs).getD (file.page p)

/- The valid frames of a WAL, from its start. -/
def validFrames (F : WALFormat D) (w : WALFile D) : List (WALFrame D) :=
  match w.header with
  | none => []
  | some h => F.readFrames h.salts h.chksum w.frames

/- The file has this size and exactly these pages. -/
structure L0File.HoldsImage (F : WALFormat D) (db : DBFile D)
    (fs : List (WALFrame D)) (f : L0File D) : Prop where
  commit : f.content.commit = imageSize db fs
  pages : ∀ p, 1 ≤ p → p ≤ f.content.commit → p ≠ F.lockPgno →
    f.content.page p = some (imagePage db fs p)

/- All valid and committed frames over the database file. -/
def HoldsWholeDatabase (F : WALFormat D) (q : SQLite D) (f : L0File D) : Prop :=
  f.HoldsImage F q.file (WALFormat.committedPart (validFrames F q.wal))

/- Two overlays are the same database. -/
structure SameImage (F : WALFormat D) (db : DBFile D) (xs ys : List (WALFrame D)) : Prop where
  size : imageSize db xs = imageSize db ys
  pages : ∀ p, 1 ≤ p → p ≤ imageSize db ys → p ≠ F.lockPgno → imagePage db xs p = imagePage db ys p

theorem L0File.HoldsImage.iff_sameImage {db xs ys} (hHolds : f.HoldsImage F db xs) :
    f.HoldsImage F db ys ↔ SameImage F db xs ys := by
  constructor
  · intro hOther
    refine ⟨hHolds.commit.symm.trans hOther.commit, ?_⟩
    intro p hPos hLe hLock
    rw [← hOther.commit] at hLe
    have hPage := hHolds.pages p hPos hLe hLock
    rw [hOther.pages p hPos hLe hLock] at hPage
    exact (Option.some.inj hPage).symm
  · intro hSame
    have hCommit := hHolds.commit.trans hSame.size
    refine ⟨hCommit, ?_⟩
    intro p hPos hLe hLock
    rw [hHolds.pages p hPos hLe hLock, hSame.pages p hPos (hCommit ▸ hLe) hLock]

-- Writing

/- A reader of consecutive frames of the file. -/
def WALReader.Aligned (w : WALFile D) (rd : WALReader D) : Prop :=
  ∀ k f, rd.rest[k]? = some f → w.frames[rd.frameN + k]? = some f

/- The page that `writeLTXFromDB` takes. -/
theorem writeLTXFromDB_image {commit p : Nat} {pages} (hAligned : rd.Aligned q.wal)
    (hCommit : WALFormat.mapped rd.rest ≠ [] → commit = WALFormat.commitOf (WALFormat.mapped
      rd.rest)) (hOk : writeLTXFromDB F q commit (F.pageMap rd).1 = .ok pages) (hPos : 1 ≤ p)
    (hLe : p ≤ commit) (hLock : p ≠ F.lockPgno) :
    pages.lookup p = some (imagePage q.file (WALFormat.mapped rd.rest) p) := by
  have hTable := Traversal.lookup_tabulate hOk p
  have hMem : p ∈ (range' 1 commit).filter (fun pgno => decide (pgno ≠ F.lockPgno)) := by
    simp only [mem_filter, mem_range'_1, decide_eq_true_eq]
    exact ⟨⟨hPos, by omega⟩, hLock⟩
  rw [if_pos hMem] at hTable
  rcases hTable with ⟨d, hRead, hLookup⟩
  rw [hLookup]
  congr 1
  have hEntries : (F.pageMap rd).1.lookup p = (F.entries rd.frameN
    (WALFormat.mapped rd.rest)).lookup p := by
    rw [(WALFormat.pageMap_mapped rd).2]
    by_cases hNil : WALFormat.mapped rd.rest = []
    · rw [hNil]
      rfl
    · rw [PageOffsets.lookup_filter, if_pos (hCommit hNil ▸ hLe)]
  have hFrames : ∀ k f, (WALFormat.mapped rd.rest)[k]? = some f →
    q.wal.frames[rd.frameN + k]? = some f := by
    intro k f hGet
    apply hAligned
    unfold WALFormat.mapped at hGet
    split at hGet
    · simp at hGet
    rcases (WALFormat.committedPart_spec rd.rest).1 with ⟨tail, hSplit, _⟩
    rw [hSplit, getElem?_append_left]
    · exact hGet
    · exact (List.getElem?_eq_some_iff.mp hGet).1
  have hResolves := @lookup_entries D F p rd.frameN (WALFormat.mapped rd.rest)
  rw [hEntries] at hRead
  unfold imagePage
  cases hFound : (F.entries rd.frameN (WALFormat.mapped rd.rest)).lookup p with
  | none =>
    rw [hFound] at hResolves hRead
    dsimp only at hResolves hRead
    rw [hResolves]
    split at hRead
    · exact (Except.ok.inj hRead).symm
    · cases hRead
  | some off =>
    rw [hFound] at hResolves hRead
    dsimp only at hResolves hRead
    rcases hResolves with ⟨k, f, hGet, rfl, hNewest⟩
    unfold readWALPage at hRead
    rw [frameAt_offset, hFrames k f hGet] at hRead
    rw [hNewest]
    exact (Except.ok.inj hRead).symm

/- A snapshot holds what the scan of the WAL has shown. -/
theorem sync_snapshot {l0 env scan} (hSnap : info.snapshotting = true)
    (hScan : ∀ off rd, openReader F q.wal info = .ok (off, rd) → rd.rest = scan ∧ rd.Aligned q.wal)
    (hSync : sync F l0 env info (.still q) = .ok (some f)) :
    f.HoldsImage F q.file (WALFormat.mapped scan) := by
  rcases sync_ok hSync with
    ⟨off, rd, m, maxOffset, walCommit, sz, commit, hReader, hMap, hSz, hCommit, hResult⟩
  rcases hResult with ⟨hNone, _⟩ | ⟨file, pages, hSome, hRest⟩
  · cases hNone
  cases hSome
  rcases hRest with ⟨_, hPages, _, _, hContent⟩
  rcases hScan off rd hReader with ⟨rfl, hAligned⟩
  rw [hSnap, if_pos rfl] at hPages
  have hShown : walCommit = WALFormat.commitOf (WALFormat.mapped rd.rest) := by
    rw [← (WALFormat.pageMap_mapped (F := F) rd).1, hMap]
  have hSize : commit = imageSize q.file (WALFormat.mapped rd.rest) := by
    rw [hCommit, hShown]
    by_cases hNil : WALFormat.mapped rd.rest = []
    · rw [hNil]
      rfl
    rw [if_pos (WALFormat.commitOf_mapped_pos_iff.mpr hNil)]
    cases hCons : WALFormat.mapped rd.rest with
    | nil => exact absurd hCons hNil
    | cons g gs => rfl
  have hCommitOf : WALFormat.mapped rd.rest ≠ [] → commit =
    WALFormat.commitOf (WALFormat.mapped rd.rest) := by
    intro hNil
    rw [hCommit, hShown, if_pos (WALFormat.commitOf_mapped_pos_iff.mpr hNil)]
  have hFirst : (F.pageMap rd).1 = m := by rw [hMap]
  rw [← hFirst] at hPages
  refine ⟨?_, ?_⟩
  · rw [hContent]
    exact hSize
  · intro p hPos hLe hLock
    rw [hContent] at hLe ⊢
    exact writeLTXFromDB_image hAligned hCommitOf hPages hPos hLe hLock

-- Where The Scan Begins

theorem aligned_readFrames (w : WALFile D) (salts : Salts) (c : Checksum) (n : Nat) :
    WALReader.Aligned w ⟨n, salts, F.readFrames salts c (w.frames.drop n)⟩ := by
  intro k f hGet
  rcases WALFormat.readFrames_isPrefix (F := F) salts c (w.frames.drop n) with ⟨tail, hSplit⟩
  rw [← getElem?_drop, ← hSplit, getElem?_append_left]
  · exact hGet
  · exact (List.getElem?_eq_some_iff.mp hGet).1

theorem newWALReader_scans (hOk : newWALReader F w = .ok rd) :
    rd.rest = validFrames F w ∧ rd.Aligned w := by
  unfold newWALReader at hOk
  unfold validFrames
  cases hHeader : w.header with
  | none =>
    rw [hHeader] at hOk
    cases hOk
  | some h =>
    rw [hHeader] at hOk
    cases hOk
    exact ⟨rfl, aligned_readFrames w h.salts h.chksum 0⟩

/- A reader from an offset looks at the frame before it. -/
theorem newWALReaderWithOffset_cases {salts result}
    (hOk : newWALReaderWithOffset F w off salts = .ok result) :
    ∃ n, off = F.offset (n + 1) ∧ result = match w.frames[n]? with
      | none => none
      | some prev =>
        if prev.salts ≠ salts then none
        else some ⟨n + 1, salts, F.readFrames salts prev.chksum (w.frames.drop (n + 1))⟩ := by
  unfold newWALReaderWithOffset at hOk
  split at hOk
  · cases hOk
  rename_i hBehind
  cases hHeader : w.header with
  | none =>
    rw [hHeader] at hOk
    cases hOk
  | some h =>
    rw [hHeader] at hOk
    dsimp only at hOk
    split at hOk
    · cases hOk
    rename_i hAligned
    have hDiv := Nat.div_add_mod' (off - walHeaderSize) F.frameSize
    cases hIndex : (off - walHeaderSize) / F.frameSize with
    | zero =>
      rw [hIndex] at hDiv
      omega
    | succ n =>
      rw [hIndex] at hDiv hOk
      refine ⟨n, ?_, ?_⟩
      · unfold offset
        omega
      · rw [Nat.add_sub_cancel] at hOk
        cases hPrev : w.frames[n]? with
        | none =>
          rw [hPrev] at hOk
          exact (Except.ok.inj hOk).symm
        | some prev =>
          rw [hPrev] at hOk
          dsimp only at hOk ⊢
          split at hOk
          · rename_i hOther
            rw [if_pos hOther]
            exact (Except.ok.inj hOk).symm
          · rename_i hSame
            rw [if_neg hSame]
            exact (Except.ok.inj hOk).symm

theorem openReader_header (hOffset : info.offset = walHeaderSize)
    (hOk : openReader F w info = .ok (off, rd)) : rd.rest = validFrames F w ∧ rd.Aligned w := by
  unfold openReader at hOk
  rw [if_pos hOffset] at hOk
  cases hNew : newWALReader F w with
  | error err =>
    rw [hNew] at hOk
    cases hOk
  | ok rd' =>
    rw [hNew] at hOk
    cases hOk
    exact newWALReader_scans hNew

section Scan

variable [DecidableEq D] {h : WALHeader} {info : SyncInfo} {off : Nat} {rd : WALReader D}

/-
  How many frames end with the last local file, if the last
  one of them has the salts of the file. Past the first
  frame, a page that the file holds as well does not lead to
  a scan from there.
-/
def resumeIndex (F : WALFormat D) (file : L0File D)
    (w : WALFile D) : Option Nat :=
  if walHeaderSize + F.frameSize ≤ file.walEnd ∧
      file.walEnd ≤ F.fileSize w then
    match F.frameAt w (file.walEnd - F.frameSize) with
    | none => none
    | some prev =>
      if prev.salts = file.salts ∧ (file.walEnd = walHeaderSize + F.frameSize ∨
        file.content.page prev.pgno ≠ some prev.data) then
        some ((file.walEnd - walHeaderSize) / F.frameSize)
      else none
  else none

/- The frames after the first `n` that continue them. -/
def continuedFrames (F : WALFormat D) (w : WALFile D)
    (n : Nat) : List (WALFrame D) :=
  match w.frames[n - 1]? with
  | none => []
  | some prev => F.readFrames prev.salts prev.chksum (w.frames.drop n)

/- The frames that a snapshotting sync looks at. -/
def resumedFrames (F : WALFormat D) (file : L0File D)
    (w : WALFile D) : List (WALFrame D) :=
  match resumeIndex F file w with
  | none => validFrames F w
  | some n => continuedFrames F w n

def scannedFrames (F : WALFormat D) (l0 : List (L0File D)) (w : WALFile D) : List (WALFrame D) :=
  match l0.getLast? with
  | none => validFrames F w
  | some file => resumedFrames F file w

/-
  From the end of the last file the scan is resumed, unless
  the frame before it is missing or has other salts.
-/
theorem openReader_resumes {w file} (hHeader : w.header = some h)
    (hOffset : info.offset = file.walEnd) (hSalts : info.salts = file.salts)
    (hPast : file.walEnd ≠ walHeaderSize)
    (hDiffers : ∀ prev, file.walEnd ≤ F.fileSize w → F.frameAt w (file.walEnd - F.frameSize) = some
      prev → prev.salts = file.salts → file.walEnd = walHeaderSize + F.frameSize ∨ file.content.page
      prev.pgno ≠ some prev.data) (hOk : openReader F w info = .ok (off, rd)) :
    rd.rest = resumedFrames F file w ∧ rd.Aligned w := by
  unfold openReader at hOk
  rw [hOffset, hSalts, if_neg hPast] at hOk
  cases hReader : newWALReaderWithOffset F w file.walEnd file.salts with
  | error err =>
    rw [hReader] at hOk
    cases hOk
  | ok result =>
    rcases newWALReaderWithOffset_cases hReader with ⟨n, hEnd, hResult⟩
    have hBehind : walHeaderSize + F.frameSize ≤ file.walEnd := by
      rw [hEnd, offset, Nat.succ_mul]
      omega
    have hBefore : F.frameAt w (file.walEnd - F.frameSize) = w.frames[n]? := by
      rw [hEnd, offset_succ, Nat.add_sub_cancel, frameAt_offset]
    have hIndex : (file.walEnd - walHeaderSize) / F.frameSize = n + 1 := by rw [hEnd, offset_index]
    -- the same frame decides where the reader begins
    have hResumes : resumedFrames F file w = (result.map WALReader.rest).getD (validFrames F w) ∧
      ∀ rd', result = some rd' → rd'.Aligned w := by
      unfold resumedFrames resumeIndex
      rw [hBefore] at hDiffers ⊢
      rw [hIndex, hResult]
      cases hPrev : w.frames[n]? with
      | none =>
        dsimp only
        rw [ite_self]
        refine ⟨rfl, ?_⟩
        rintro rd' ⟨⟩
      | some prev =>
        have hWithin : file.walEnd ≤ F.fileSize w := by
          rw [fileSize_eq hHeader, hEnd, offset_le_iff]
          exact (List.getElem?_eq_some_iff.mp hPrev).1
        rw [if_pos ⟨hBehind, hWithin⟩]
        dsimp only
        by_cases hSame : prev.salts = file.salts
        · have hFound := hDiffers prev hWithin hPrev hSame
          rw [if_pos ⟨hSame, hFound⟩, if_neg (not_not.mpr hSame)]
          refine ⟨?_, ?_⟩
          · dsimp only [continuedFrames]
            rw [Nat.add_sub_cancel, hPrev]
            dsimp only
            rw [hSame]
            rfl
          rintro rd' ⟨rfl⟩
          exact aligned_readFrames w _ _ (n + 1)
        · rw [if_neg (fun hBoth => hSame hBoth.1), if_pos hSame]
          refine ⟨rfl, ?_⟩
          rintro rd' ⟨⟩
    rw [hReader] at hOk
    rw [hResumes.1]
    cases result with
    | some rd' =>
      cases hOk
      exact ⟨rfl, hResumes.2 rd rfl⟩
    | none =>
      dsimp only at hOk
      cases hNew : newWALReader F w with
      | error err =>
        rw [hNew] at hOk
        cases hOk
      | ok rd' =>
        rw [hNew] at hOk
        cases hOk
        exact newWALReader_scans hNew

/- The same for the part of `verify` that looks at salts. -/
theorem verifySalts_scans {q file} (hHeader : q.wal.header = some h)
    (hVerify : verifySalts F file (.still q) = .ok info) (hSnap : info.snapshotting = true)
    (hOk : openReader F q.wal info = .ok (off, rd)) :
    rd.rest = resumedFrames F file q.wal ∧ rd.Aligned q.wal := by
  unfold verifySalts at hVerify
  dsimp only [SyncViews.still] at hVerify
  rw [hHeader] at hVerify
  dsimp only at hVerify
  have hPos := frameSize_pos (F := F)
  by_cases hStart : file.walEnd = walHeaderSize
  · rw [if_pos hStart] at hVerify
    have hNone : resumeIndex F file q.wal = none := by
      unfold resumeIndex
      rw [if_neg (fun hBoth => by omega)]
    unfold resumedFrames
    rw [hNone]
    apply openReader_header ?_ hOk
    split at hVerify
    · cases hVerify
      exact hStart
    · cases hVerify
      exact hStart
  rw [if_neg hStart] at hVerify
  by_cases hFirst : file.walEnd = walHeaderSize + F.frameSize
  · rw [if_pos hFirst] at hVerify
    split at hVerify
    · cases hVerify
      cases hSnap
    · cases hVerify
      exact openReader_resumes hHeader rfl rfl hStart (fun _ _ _ _ => Or.inl hFirst) hOk
  rw [if_neg hFirst] at hVerify
  split at hVerify
  · cases hVerify
  rename_i hFar
  have hBehind : ¬ file.walEnd - F.frameSize ≤ walHeaderSize := by omega
  unfold lastPageMatch at hVerify
  rw [if_neg hBehind] at hVerify
  cases hPrev : F.frameAt q.wal (file.walEnd - F.frameSize) with
  | none =>
    rw [hPrev] at hVerify
    cases hVerify
  | some prev =>
    rw [hPrev] at hVerify
    dsimp only at hVerify
    by_cases hSame : prev.salts ≠ file.salts
    · rw [if_pos hSame] at hVerify
      cases hVerify
      refine openReader_resumes hHeader rfl rfl hStart ?_ hOk
      intro prev' _ hPrev' hSalts
      rw [hPrev] at hPrev'
      cases hPrev'
      exact absurd hSalts hSame
    rw [if_neg hSame] at hVerify
    by_cases hPage : file.content.page prev.pgno = some prev.data
    · rw [decide_eq_true hPage] at hVerify
      dsimp only at hVerify
      have hNone : resumeIndex F file q.wal = none := by
        unfold resumeIndex
        rw [hPrev]
        dsimp only
        split
        · apply if_neg
          rintro ⟨_, hEq | hOther⟩
          · exact hFirst hEq
          · exact hOther hPage
        · rfl
      unfold resumedFrames
      rw [hNone]
      apply openReader_header ?_ hOk
      split at hVerify
      · cases hVerify
        cases hSnap
      cases hFull : detectFullCheckpoint q.wal h.salts file.salts with
      | error err =>
        rw [hFull] at hVerify
        cases hVerify
      | ok found =>
        rw [hFull] at hVerify
        cases found with
        | true | false =>
          cases hVerify
          rfl
    · rw [decide_eq_false hPage] at hVerify
      cases hVerify
      refine openReader_resumes hHeader rfl rfl hStart ?_ hOk
      intro prev' _ hPrev' _
      rw [hPrev] at hPrev'
      cases hPrev'
      exact Or.inr hPage

/- The scan after a `verify` that asks for a snapshot. -/
theorem openReader_scans {db q} (hHeader : q.wal.header = some h)
    (hVerify : (verify F db (.still q)).1 = .ok info) (hSnap : info.snapshotting = true)
    (hOk : openReader F q.wal info = .ok (off, rd)) :
    rd.rest = scannedFrames F db.l0 q.wal ∧ rd.Aligned q.wal := by
  unfold verify at hVerify
  unfold scannedFrames
  cases hLast : db.l0.getLast? with
  | none =>
    rw [hLast] at hVerify
    cases hVerify
    exact openReader_header rfl hOk
  | some file =>
    rw [hLast] at hVerify
    dsimp only at hVerify ⊢
    split at hVerify
    · rename_i hShort
      -- a WAL that is too short has no frame before the end
      split at hVerify
      · dsimp only [SyncViews.still] at hVerify
        rw [hHeader] at hVerify
        cases hVerify
        cases hSnap
      cases hVerify
      refine openReader_resumes hHeader rfl rfl ?_ ?_ hOk
      · intro hStart
        rw [hStart] at hShort
        dsimp only [SyncViews.still] at hShort
        rw [fileSize_eq hHeader, ← offset_zero (F := F), offset_lt_iff] at hShort
        exact Nat.not_lt_zero _ hShort
      · intro prev hWithin
        exact absurd hShort (Nat.not_lt.mpr hWithin)
    · exact verifySalts_scans hHeader hVerify hSnap hOk

end Scan

-- The Whole Database

/-
  Every frame before index `n` is superseded by a later one,
  or has the page of the database file. If there is nothing
  to see after `n`, the database file has the right size.
-/
structure SkipsOldFrames (F : WALFormat D) (db : DBFile D)
    (committed : List (WALFrame D)) (n : Nat) : Prop where
  size : (∀ f ∈ committed.drop n, WALFormat.commitOf committed < f.pgno) →
    db.size = imageSize db committed
  pages : ∀ k f, k < n → committed[k]? = some f → 1 ≤ f.pgno →
    f.pgno ≤ imageSize db committed → f.pgno ≠ F.lockPgno →
      (∃ g ∈ committed.drop (k + 1), g.pgno = f.pgno) ∨ f.data = db.page f.pgno

/-
  The frames of an earlier WAL that are read instead: each
  page has one newest version in both, or none other than
  that of the database file.
-/
structure RepeatsFrames (F : WALFormat D) (db : DBFile D)
    (old committed : List (WALFrame D)) : Prop where
  size : imageSize db old = imageSize db committed
  pages : ∀ p, 1 ≤ p → p ≤ imageSize db committed → p ≠ F.lockPgno →
    newestPage p old = newestPage p committed ∨
      ∀ d, newestPage p old = some d ∨ newestPage p committed = some d → d = db.page p

/-
  What a snapshotting sync needs to see the whole database.
  It skips frames if it resumes, which must be old. If it
  resumes past the valid frames, in those of an earlier WAL,
  then these must repeat the valid ones.
-/
def SnapshotCovers [DecidableEq D] (F : WALFormat D)
    (l0 : List (L0File D)) (q : SQLite D) : Prop :=
  match l0.getLast?.bind (fun file => resumeIndex F file q.wal) with
  | none => SkipsOldFrames F q.file (WALFormat.committedPart (validFrames F q.wal)) 0
  | some n =>
    if n ≤ (validFrames F q.wal).length then
      SkipsOldFrames F q.file (WALFormat.committedPart (validFrames F q.wal)) n
    else
      RepeatsFrames F q.file (WALFormat.mapped (continuedFrames F q.wal n))
        (WALFormat.committedPart (validFrames F q.wal))

theorem sameImage_iff_repeatsFrames {db : DBFile D} {xs ys : List (WALFrame D)} :
    SameImage F db xs ys ↔ RepeatsFrames F db xs ys := by
  have hPage : ∀ p, imagePage db xs p = imagePage db ys p ↔
    (newestPage p xs = newestPage p ys ∨
      ∀ d, newestPage p xs = some d ∨ newestPage p ys = some d → d = db.page p) := by
    intro p
    unfold imagePage
    cases newestPage p xs <;> cases newestPage p ys <;> grind
  constructor
  · rintro ⟨hSize, hPages⟩
    exact ⟨hSize, fun p hPos hLe hLock => (hPage p).mp (hPages p hPos hLe hLock)⟩
  · rintro ⟨hSize, hPages⟩
    exact ⟨hSize, fun p hPos hLe hLock => (hPage p).mpr (hPages p hPos hLe hLock)⟩

/- The frame that has the newest version of a page. -/
theorem newestPage_eq_some {p : Nat} {d : D} {fs : List (WALFrame D)}
    (hNewest : newestPage p fs = some d) : ∃ k f, fs[k]? = some f ∧ f.pgno = p ∧ f.data = d ∧
      ∀ g ∈ fs.drop (k + 1), g.pgno ≠ p := by
  induction fs with
  | nil => cases hNewest
  | cons f fs ih =>
    rw [newestPage_cons] at hNewest
    cases hLater : newestPage p fs with
    | some d' =>
      rw [hLater] at hNewest ih
      rcases ih hNewest with ⟨k, g, hGet, hRest⟩
      exact ⟨k + 1, g, hGet, hRest⟩
    | none =>
      rw [hLater] at hNewest
      dsimp only [Option.or] at hNewest
      split at hNewest
      · rename_i hPage
        exact ⟨0, f, rfl, hPage.symm, Option.some.inj hNewest, newestPage_eq_none_iff.mp hLater⟩
      · cases hNewest

/- A scan from `n` on sees the same database exactly then. -/
theorem sameImage_drop_iff {db : DBFile D} {fs : List (WALFrame D)} {n : Nat} :
    SameImage F db (WALFormat.mapped (fs.drop n)) (WALFormat.committedPart fs) ↔
      SkipsOldFrames F db (WALFormat.committedPart fs) n := by
  unfold WALFormat.mapped
  rw [WALFormat.committedPart_drop]
  generalize WALFormat.committedPart fs = ys
  have hBeyond : (∀ f ∈ ys.drop n, WALFormat.commitOf (ys.drop n) < f.pgno) ↔
    ∀ f ∈ ys.drop n, WALFormat.commitOf ys < f.pgno := by
    refine forall₂_congr fun f hMem => ?_
    rw [WALFormat.commitOf_drop (ne_nil_of_mem hMem)]
  have hImageSize : ∀ zs : List (WALFrame D), zs ≠ [] → imageSize db zs =
    WALFormat.commitOf zs := by
    intro zs hSome
    cases zs with
    | nil => exact absurd rfl hSome
    | cons z zs => rfl
  have hSplit : ∀ p, newestPage p ys = (newestPage p (ys.drop n)).or (newestPage p (ys.take n)) := by
    intro p
    rw [← newestPage_append, take_append_drop]
  simp only [hBeyond]
  -- a page that is not in the frames from `n` on is read
  -- from the database file
  have hSkipped : ∀ p, newestPage p (ys.drop n) = none → imagePage db
    (if ∀ f ∈ ys.drop n, WALFormat.commitOf ys < f.pgno then [] else ys.drop n) p = db.page p := by
    intro p hNone
    unfold imagePage
    split
    · rfl
    · rw [hNone]
      rfl
  constructor
  · intro hSame
    refine ⟨?_, ?_⟩
    · intro hPast
      have hSize := hSame.size
      rw [if_pos hPast] at hSize
      exact hSize
    · intro k f hBefore hGet hPos hLe hLock
      by_contra hNot
      rw [not_or] at hNot
      rcases hNot with ⟨hLast, hOther⟩
      have hLater : newestPage f.pgno (ys.drop (k + 1)) = none :=
        newestPage_eq_none_iff.mpr (fun g hMem hPage => hLast ⟨g, hMem, hPage⟩)
      have hNone : newestPage f.pgno (ys.drop n) = none := by
        refine newestPage_eq_none_iff.mpr (fun g hMem hPage => hLast ⟨g, ?_, hPage⟩)
        exact (drop_subset_drop_left ys hBefore) hMem
      have hPage := hSame.pages f.pgno hPos hLe hLock
      rw [hSkipped _ hNone] at hPage
      have hLt := (List.getElem?_eq_some_iff.mp hGet).1
      have hNewest : newestPage f.pgno ys = some f.data := by
        rw [← take_append_drop k ys, newestPage_append, drop_eq_getElem_cons hLt,
          (List.getElem?_eq_some_iff.mp hGet).2, newestPage_cons, hLater, if_pos rfl]
        rfl
      unfold imagePage at hPage
      rw [hNewest] at hPage
      exact hOther hPage.symm
  · intro hSkips
    refine ⟨?_, ?_⟩
    · split
      · rename_i hPast
        exact hSkips.size hPast
      · rename_i hSeen
        have hSome : ys.drop n ≠ [] := by
          intro hNil
          rw [hNil] at hSeen
          exact hSeen nofun
        rw [hImageSize _ hSome, WALFormat.commitOf_drop hSome, hImageSize]
        intro hNil
        rw [hNil, drop_nil] at hSome
        exact hSome rfl
    · intro p hPos hLe hLock
      cases hNewest : newestPage p (ys.drop n) with
      | some d =>
        rcases newestPage_eq_some hNewest with ⟨k, f, hGet, rfl, rfl, _⟩
        have hMem := mem_of_getElem? hGet
        have hFound : imagePage db ys f.pgno = f.data := by
          unfold imagePage
          rw [hSplit, hNewest]
          rfl
        rw [hFound, if_neg, imagePage, hNewest]
        · rfl
        · intro hPast
          rw [hImageSize ys (ne_nil_of_mem (mem_of_mem_drop hMem))] at hLe
          exact absurd hLe (Nat.not_le.mpr (hPast f hMem))
      | none =>
        rw [hSkipped p hNewest]
        unfold imagePage
        cases hOlder : newestPage p ys with
        | none => rfl
        | some d =>
          rcases newestPage_eq_some hOlder with ⟨k, f, hGet, rfl, rfl, hLast⟩
          have hBefore : k < n := by
            by_contra hAfter
            have hMem : f ∈ ys.drop n := by
              refine mem_of_getElem? (i := k - n) ?_
              rw [getElem?_drop, Nat.add_sub_cancel' (Nat.not_lt.mp hAfter)]
              exact hGet
            exact newestPage_eq_none_iff.mp hNewest f hMem rfl
          rcases hSkips.pages k f hBefore hGet hPos hLe hLock with ⟨g, hMem, hPage⟩ | hSame
          · exact absurd hPage (hLast g hMem)
          · exact hSame.symm

/- A scan that resumes within the valid frames. -/
theorem continuedFrames_valid {w : WALFile D} {h : WALHeader} (hHeader : w.header = some h) {n : Nat}
    (hPos : 0 < n) (hWithin : n ≤ (validFrames F w).length) :
    continuedFrames F w n = (validFrames F w).drop n := by
  rcases Nat.exists_eq_succ_of_ne_zero (Nat.ne_of_gt hPos) with ⟨k, rfl⟩
  unfold continuedFrames
  unfold validFrames at hWithin ⊢
  rw [hHeader] at hWithin ⊢
  dsimp only [Nat.succ_eq_add_one] at hWithin ⊢
  rw [Nat.add_sub_cancel]
  have hLe := (WALFormat.readFrames_isPrefix (F := F) h.salts h.chksum w.frames).length_le
  have hPrev := getElem?_eq_getElem (l := w.frames) (show k < w.frames.length by omega)
  rw [hPrev]
  rcases WALFormat.readFrames_drop_valid hPrev hWithin with ⟨hSalts, hDrop⟩
  dsimp only
  rw [hSalts]
  exact hDrop

theorem resumeIndex_pos [DecidableEq D] {file : L0File D} {w : WALFile D} {n : Nat}
    (hIndex : resumeIndex F file w = some n) : 0 < n := by
  unfold resumeIndex at hIndex
  split at hIndex
  · rename_i hEnd
    split at hIndex
    · cases hIndex
    · split at hIndex
      · cases hIndex
        exact Nat.div_pos (by omega) frameSize_pos
      · cases hIndex
  · cases hIndex

theorem sameImage_scanned_iff [DecidableEq D] {l0 : List (L0File D)} {q : SQLite D}
    {h : WALHeader} (hHeader : q.wal.header = some h) :
    SameImage F q.file (WALFormat.mapped (scannedFrames F l0 q.wal))
      (WALFormat.committedPart (validFrames F q.wal)) ↔ SnapshotCovers F l0 q := by
  have hStart := @sameImage_drop_iff D F q.file (validFrames F q.wal) 0
  unfold SnapshotCovers scannedFrames resumedFrames
  cases l0.getLast? with
  | none => exact hStart
  | some file =>
    dsimp only [Option.bind_some]
    cases hIndex : resumeIndex F file q.wal with
    | none => exact hStart
    | some n =>
      dsimp only
      split
      · rename_i hWithin
        rw [continuedFrames_valid hHeader (resumeIndex_pos hIndex) hWithin]
        exact sameImage_drop_iff
      · exact sameImage_iff_repeatsFrames

/-
  A snapshotting sync writes the whole database exactly if
  the frames that it skips are old.
-/
theorem snapshot_sync_whole_iff
    [DecidableEq D]
    (F : WALFormat D)
    (db : DBState D)
    (env : SyncEnv)
    (q : SQLite D)
    (h : WALHeader)
    (info : SyncInfo)
    (f : L0File D)
    (hHeader : q.wal.header = some h)
    (hVerify : (verify F db (.still q)).1 = .ok info)
    (hSnap : info.snapshotting = true)
    (hSync :
      sync F db.l0 env info (.still q) = .ok (some f)) :
    HoldsWholeDatabase F q f ↔
    SnapshotCovers F db.l0 q := by
  have hHolds : f.HoldsImage F q.file (WALFormat.mapped (scannedFrames F db.l0 q.wal)) := by
    apply sync_snapshot hSnap ?_ hSync
    intro off rd hOk
    exact openReader_scans hHeader hVerify hSnap hOk
  exact hHolds.iff_sameImage.trans (sameImage_scanned_iff hHeader)

namespace RolledBack

/- Two transactions that are in the WAL only. -/
def format : WALFormat Nat where
  pageSize := 512
  lockPgno := 9
  walChecksum _ _ _ _ := (0, 0)

def salts : Salts := ⟨1, 1⟩

def database : SQLite Nat where
  file := ⟨2, fun _ => 0⟩
  wal := ⟨some ⟨salts, (0, 0)⟩, [⟨2, 2, salts, (0, 0), 20⟩, ⟨1, 2, salts, (0, 0), 10⟩]⟩
  mxFrame := 2
  backfilled := false
  salt1 := 1

/-
  A file of the time before the rollback. It ends where the
  second frame ends, which then had another page.
-/
def fetched : L0File Nat where
  txid := 3
  content := ⟨2, fun p => if p = 1 then some 99 else none⟩
  walOffset := 568
  walSize := 536
  salts := salts

def state (l0 : List (L0File Nat)) : DBState Nat where
  sqlite := database
  l0 := l0
  lastSyncedWALOffset := 0
  syncedToWALEnd := false
  phase := .idle

def noErr : SyncEnv := ⟨none, none⟩

end RolledBack

open RolledBack in
/- The first sync holds both transactions. -/
theorem snapshot_sync_whole_first :
    ∃ f,
      sync format [] noErr ⟨32, ⟨0, 0⟩, true, ""⟩
        (.still database) = .ok (some f) ∧
      HoldsWholeDatabase format database f := by
  refine ⟨_, rfl, ?_⟩
  refine (snapshot_sync_whole_iff format (state []) noErr database
    ⟨salts, (0, 0)⟩ ⟨32, ⟨0, 0⟩, true, ""⟩ _ rfl rfl rfl
    rfl).mpr ?_
  -- nothing is skipped, and the last frame is within its size
  refine ⟨fun hPast => ?_, fun _ _ hBefore => absurd hBefore (Nat.not_lt_zero _)⟩
  exact absurd (hPast ⟨1, 2, salts, (0, 0), 10⟩ (mem_of_getElem? (i := 1) rfl)) (by decide)

open RolledBack in
/- With the fetched file a sync loses both of them. -/
theorem snapshot_sync_misses_frames :
    ∃ info f,
      (verify format (state [fetched])
        (.still database)).1 = .ok info ∧
      info.snapshotting = true ∧
      sync format [fetched] noErr info (.still database) =
        .ok (some f) ∧
      f.content.page 1 = some 0 ∧
      f.content.page 2 = some 0 ∧
      ¬ HoldsWholeDatabase format database f := by
  refine ⟨_, _, rfl, rfl, rfl, rfl, rfl, ?_⟩
  intro hWhole
  have hPage := hWhole.pages 2 (by decide) (by decide) (by decide)
  cases hPage

end Replicate
