import Replicate.LTX.FileInfo
import Replicate.Lib.PageHistory

/-
  WAL files and the `WALReader`.

  A WAL file is its header, if it has one, and the frames
  that follow, those of earlier generations included. Of a
  header only the salts and the checksum are kept, and only
  whole frames. A salt is a number without a bound: SQLite
  increments the first one at every restart, and that it
  wraps around after 2^32 of them is left out.

  The checksum of a frame is computed by `WALChecksum` from
  the checksum before it, the first eight bytes of the
  frame's header (its page number and its commit) and its
  data. Nothing depends on how, so it is a parameter.

  Main declarations:
    * `WALFormat.readFrames_append`
    * `WALFormat.pageMap_eq`
-/

-- Files

namespace Replicate

open PageHistory List

variable {D : Type}

structure Salts where
  salt1 : Nat
  salt2 : Nat
  deriving DecidableEq, Repr

abbrev Checksum := UInt32 × UInt32

structure WALHeader where
  salts : Salts
  chksum : Checksum
  deriving DecidableEq

/-
  A frame: one page. Its commit is the size of the database
  after the transaction if the frame ends one, else zero.
-/
structure WALFrame (D : Type) where
  pgno : Nat
  commit : Nat
  salts : Salts
  chksum : Checksum
  data : D

/- A file without a header is empty. -/
structure WALFile (D : Type) where
  header : Option WALHeader
  frames : List (WALFrame D)

/- What the layout of a WAL and its pages depend on. -/
structure WALFormat (D : Type) where
  pageSize : Nat
  lockPgno : Nat
  walChecksum : Checksum → Nat → Nat → D → Checksum

def walHeaderSize : Nat := 32

def walFrameHeaderSize : Nat := 24

/- The salts in the header, if there is one. -/
def WALFile.salts? (w : WALFile D) : Option Salts :=
  w.header.map WALHeader.salts

/- One frame as an update of a single page. -/
def WALFrame.layer (f : WALFrame D) : Layer D where
  commit := f.commit
  page p := if p = f.pgno then some f.data else none

/- The newest version of a page in some frames. -/
def newestPage (p : Nat) (frames : List (WALFrame D)) : Option D :=
  topmost p (frames.map WALFrame.layer)

/- The error of a read past the end. -/
def Err.eof : Err := .text "EOF"

namespace WALFormat

variable (F : WALFormat D)

def frameSize : Nat :=
  F.pageSize + walFrameHeaderSize

/- Where a frame begins. -/
def offset (i : Nat) : Nat :=
  walHeaderSize + i * F.frameSize

def fileSize (w : WALFile D) : Nat :=
  match w.header with
  | none => 0
  | some _ => F.offset w.frames.length

/- `readWALFileAt` for the frame at an offset. -/
def frameAt (w : WALFile D) (off : Nat) : Option (WALFrame D) :=
  w.frames[(off - walHeaderSize) / F.frameSize]?

-- The Reader

/-
  The frames that successive calls of `ReadFrame` return:
  the first frame of other salts or with a wrong checksum
  is the end.
-/
def readFrames (salts : Salts) : Checksum → List (WALFrame D) → List (WALFrame D)
| _, [] => []
| c, f :: fs =>
  if f.salts ≠ salts then []
  else if F.walChecksum c f.pgno f.commit f.data ≠ f.chksum then []
  else f :: readFrames salts f.chksum fs

end WALFormat

/-
  A reader: the number of the next frame, the salts it
  accepts and the frames it is going to return. The file is
  bounded by its size when the reader was opened.
-/
structure WALReader (D : Type) where
  frameN : Nat
  salts : Salts
  rest : List (WALFrame D)

def newWALReader (F : WALFormat D) (w : WALFile D) : Except Err (WALReader D) :=
  match w.header with
  | none => .error .eof
  | some h => .ok ⟨0, h.salts, F.readFrames h.salts h.chksum w.frames⟩

/-
  `NewWALReaderWithOffset`. A `PrevFrameMismatchError` is
  the answer `none`.
-/
def newWALReaderWithOffset (F : WALFormat D) (w : WALFile D) (off : Nat)
    (salts : Salts) : Except Err (Option (WALReader D)) :=
  if off ≤ walHeaderSize then
    .error (.text ("offset (" ++ toString off ++ ") must be greater than the wal header size (" ++
      toString walHeaderSize ++ ")"))
  else
    match w.header with
    | none => .error (.wrap "read header" .eof)
    | some _ =>
      if (off - walHeaderSize) % F.frameSize ≠ 0 then
        .error (.text ("unaligned wal offset " ++ toString off ++
          " for page size " ++ toString F.pageSize))
      else
        let frameN := (off - walHeaderSize) / F.frameSize
        match w.frames[frameN - 1]? with
        | none => .ok none
        | some prev =>
          if prev.salts ≠ salts then .ok none
          else .ok (some ⟨frameN, salts, F.readFrames salts prev.chksum (w.frames.drop frameN)⟩)

/-
  A map from page numbers to offsets. The first entry of a
  page counts, so a new entry goes in front.
-/
abbrev PageOffsets := List (Nat × Nat)

namespace WALFormat

variable (F : WALFormat D)

/-
  The loop of `PageMap`: `txMap` has the pages since the
  last commit and `m` those before it.
-/
def pageMapLoop : Nat → PageOffsets → PageOffsets → Nat → List (WALFrame D) → PageOffsets × Nat
| _, _, m, commit, [] => (m, commit)
| i, txMap, m, commit, f :: fs =>
  if f.commit ≠ 0 then pageMapLoop (i + 1) [] ((f.pgno, F.offset i) :: txMap ++ m) f.commit fs
  else pageMapLoop (i + 1) ((f.pgno, F.offset i) :: txMap) m commit fs

end WALFormat

/- The highest offset in a map. -/
def PageOffsets.highest (m : PageOffsets) : Nat :=
  m.foldl (fun highest x =>
    if highest = 0 ∨ highest < x.2 then x.2 else highest)
    0

/-
  `WALReader.PageMap`: the offsets of the newest version of
  each page, the end of the last frame and the database
  size.
-/
def WALFormat.pageMap (F : WALFormat D) (rd : WALReader D) : PageOffsets × Nat × Nat :=
  let (m, commit) := F.pageMapLoop rd.frameN [] [] 0 rd.rest
  let m := m.filter (fun x => decide (x.1 ≤ commit))
  if m = [] then ([], 0, 0) else (m, PageOffsets.highest m + F.frameSize, commit)

def frameSaltsUntil (last : Salts) : List (WALFrame D) → List Salts
| [] => []
| f :: fs => if f.salts = last then [f.salts] else f.salts :: frameSaltsUntil last fs

-- Offsets

namespace WALFormat

variable {F : WALFormat D}

theorem frameSize_pos : 0 < F.frameSize := by
  unfold frameSize walFrameHeaderSize
  omega

@[simp] theorem offset_zero : F.offset 0 = walHeaderSize := by
  simp [offset]

theorem offset_succ (i : Nat) : F.offset (i + 1) = F.offset i + F.frameSize := by
  simp only [offset, Nat.succ_mul, Nat.add_assoc]

theorem offset_pos (i : Nat) : 0 < F.offset i := by
  unfold offset walHeaderSize
  omega

theorem offset_lt_iff {i j : Nat} : F.offset i < F.offset j ↔ i < j := by
  unfold offset
  rw [Nat.add_lt_add_iff_left]
  exact Nat.mul_lt_mul_right frameSize_pos

theorem offset_le_iff {i j : Nat} : F.offset i ≤ F.offset j ↔ i ≤ j := by
  rw [← Nat.not_lt, offset_lt_iff, Nat.not_lt]

theorem offset_inj {i j : Nat} : F.offset i = F.offset j ↔ i = j := by
  rw [Nat.le_antisymm_iff, offset_le_iff, offset_le_iff, ← Nat.le_antisymm_iff]

theorem offset_index (i : Nat) : (F.offset i - walHeaderSize) / F.frameSize = i := by
  rw [offset, Nat.add_sub_cancel_left, Nat.mul_div_cancel i frameSize_pos]

theorem offset_aligned (i : Nat) : (F.offset i - walHeaderSize) % F.frameSize = 0 := by
  rw [offset, Nat.add_sub_cancel_left]
  exact Nat.mul_mod_left i F.frameSize

theorem frameAt_offset (w : WALFile D) (i : Nat) : F.frameAt w (F.offset i) = w.frames[i]? := by
  rw [frameAt, offset_index]

theorem fileSize_eq {w h} (hHeader : w.header = some h) :
    F.fileSize w = F.offset w.frames.length := by
  simp [fileSize, hHeader]

end WALFormat

-- Newest Pages

theorem newestPage_append (p : Nat) (older newer : List (WALFrame D)) :
    newestPage p (older ++ newer) = (newestPage p newer).or (newestPage p older) := by
  rw [newestPage, map_append, topmost_append]
  rfl

theorem newestPage_cons (p : Nat) (f : WALFrame D) (frames : List (WALFrame D)) :
    newestPage p (f :: frames) = (newestPage p frames).or
      (if p = f.pgno then some f.data else none) :=
  rfl

theorem newestPage_eq_none_iff {p : Nat} {frames : List (WALFrame D)} :
    newestPage p frames = none ↔ ∀ f ∈ frames, f.pgno ≠ p := by
  rw [newestPage, topmost_eq_none_iff]
  simp only [mem_map, forall_exists_index, and_imp, forall_apply_eq_imp_iff₂, WALFrame.layer,
    ite_eq_right_iff, reduceCtorEq, imp_false]
  constructor
  · intro hNone f hf hEq
    exact hNone f hf hEq.symm
  · intro hNone f hf hEq
    exact hNone f hf hEq.symm

theorem newestPage_append_of_mem {p : Nat} {older newer : List (WALFrame D)}
    (hMem : ∃ f ∈ newer, f.pgno = p) : newestPage p (older ++ newer) = newestPage p newer := by
  rw [newestPage_append]
  cases hNewer : newestPage p newer with
  | some d => rfl
  | none =>
    rcases hMem with ⟨f, hf, hPgno⟩
    exact absurd hPgno (newestPage_eq_none_iff.mp hNewer f hf)

-- Frames Of One Generation

namespace WALFormat

variable {F : WALFormat D} {i commit : Nat} {txMap m : PageOffsets} {fs : List (WALFrame D)}

/- Frames of one generation, with their checksums. -/
def Chained (F : WALFormat D) (salts : Salts) : Checksum → List (WALFrame D) → Prop
| _, [] => True
| c, f :: fs =>
  f.salts = salts ∧ f.chksum = F.walChecksum c f.pgno f.commit f.data ∧ Chained F salts f.chksum fs

/- The checksum after some frames. -/
def checksumAfter : Checksum → List (WALFrame D) → Checksum
| c, [] => c
| _, f :: fs => checksumAfter f.chksum fs

theorem checksumAfter_append_singleton (c : Checksum) (fs : List (WALFrame D)) (f : WALFrame D) :
    checksumAfter c (fs ++ [f]) = f.chksum := by
  induction fs generalizing c with
  | nil => rfl
  | cons g fs ih => exact ih g.chksum

variable {salts : Salts} {c : Checksum} {xs ys : List (WALFrame D)}

theorem chained_append : Chained F salts c (xs ++ ys) ↔ Chained F salts c xs ∧
    Chained F salts (checksumAfter c xs) ys := by
  induction xs generalizing c with
  | nil => simp [Chained, checksumAfter]
  | cons f xs ih => simp only [cons_append, Chained, checksumAfter, ih, and_assoc]

theorem Chained.salts_eq (hChained : Chained F salts c xs) {f} (hMem : f ∈ xs) :
    f.salts = salts := by
  induction xs generalizing c with
  | nil => simp at hMem
  | cons g xs ih =>
    rcases hChained with ⟨hSalts, _, hRest⟩
    rcases mem_cons.mp hMem with rfl | hTail
    · exact hSalts
    · exact ih hRest hTail

/- A reader returns all frames of its generation. -/
theorem readFrames_append (hChained : Chained F salts c xs) (hStale : ∀ f ∈ ys, f.salts ≠ salts) :
    F.readFrames salts c (xs ++ ys) = xs := by
  induction xs generalizing c with
  | nil =>
    cases ys with
    | nil => rfl
    | cons f ys =>
      have hOther : f.salts ≠ salts := hStale f mem_cons_self
      rw [nil_append, readFrames, if_pos hOther]
  | cons f xs ih =>
    rcases hChained with ⟨hSalts, hSum, hRest⟩
    rw [cons_append, readFrames, if_neg (not_not.mpr hSalts),
      if_neg (not_not.mpr hSum.symm), ih hRest]

theorem readFrames_stale (hStale : ∀ f ∈ ys, f.salts ≠ salts) : F.readFrames salts c ys = [] :=
  have hNil : Chained F salts c [] := trivial
  readFrames_append hNil hStale

-- The Page Map

/- The offsets of frames, the newest first. -/
def entries (F : WALFormat D) : Nat → List (WALFrame D) → PageOffsets
| _, [] => []
| i, f :: fs => entries F (i + 1) fs ++ [(f.pgno, F.offset i)]

/- Frames that end with a commit. -/
def Committed (fs : List (WALFrame D)) : Prop :=
  ∀ f ∈ fs.getLast?, f.commit ≠ 0 ∧ f.pgno ≤ f.commit

/- The database size that the last frame names. -/
def commitOf (fs : List (WALFrame D)) : Nat :=
  match fs.getLast? with
  | none => 0
  | some f => f.commit

theorem Committed.of_append (hCommitted : Committed (xs ++ ys)) : Committed ys := by
  intro f hf
  apply hCommitted f
  rw [getLast?_append, Option.mem_def.mp hf]
  rfl

theorem commitOf_append (hNonempty : ys ≠ []) : commitOf (xs ++ ys) = commitOf ys := by
  unfold commitOf
  rw [getLast?_append, getLast?_eq_some_getLast hNonempty]
  rfl

theorem entries_append_singleton (i : Nat) (fs : List (WALFrame D)) (f : WALFrame D) :
    F.entries i (fs ++ [f]) = (f.pgno, F.offset (i + fs.length)) :: F.entries i fs := by
  induction fs generalizing i with
  | nil => rfl
  | cons g fs ih =>
    rw [cons_append, entries, ih, entries, cons_append, length_cons]
    congr 3
    omega

theorem pageMapLoop_eq (hNonempty : fs ≠ []) (hCommits : ∀ f ∈ fs.getLast?, f.commit ≠ 0) :
    F.pageMapLoop i txMap m commit fs = (F.entries i fs ++ txMap ++ m, commitOf fs) := by
  induction fs generalizing i txMap m commit with
  | nil => exact absurd rfl hNonempty
  | cons f fs ih =>
    cases fs with
    | nil =>
      have hCommit : f.commit ≠ 0 := hCommits f rfl
      rw [pageMapLoop, if_pos hCommit]
      rfl
    | cons g fs =>
      have hTail : ∀ x ∈ (g :: fs).getLast?, x.commit ≠ 0 := by exact hCommits
      have hLast : commitOf (f :: g :: fs) = commitOf (g :: fs) :=
        @commitOf_append D [f] (g :: fs) (cons_ne_nil g fs)
      rw [hLast, pageMapLoop, entries]
      split
      · rw [ih (cons_ne_nil g fs) hTail]
        simp
      · rw [ih (cons_ne_nil g fs) hTail]
        simp

theorem pageMapLoop_append_open {tail} (hOpen : ∀ f ∈ tail, f.commit = 0) :
    F.pageMapLoop i txMap m commit (fs ++ tail) = F.pageMapLoop i txMap m commit fs := by
  induction fs generalizing i txMap m commit with
  | nil =>
    rw [nil_append, pageMapLoop]
    induction tail generalizing i txMap with
    | nil => rfl
    | cons f tail ih =>
      have hZero : f.commit = 0 := hOpen f mem_cons_self
      rw [pageMapLoop, if_neg (not_not.mpr hZero)]
      exact ih (fun g hg => hOpen g (mem_cons_of_mem f hg))
  | cons f fs ih =>
    rw [cons_append, pageMapLoop, pageMapLoop]
    split
    · exact ih
    · exact ih

theorem offset_le_of_mem_entries {x} (hMem : x ∈ F.entries i fs) :
    x.2 ≤ F.offset (i + fs.length) := by
  induction fs generalizing i with
  | nil => simp [entries] at hMem
  | cons f fs ih =>
    rcases mem_append.mp hMem with hLater | hHead
    · have hLe := ih hLater
      rw [show i + 1 + fs.length = i + (fs.length + 1) by
        omega] at hLe
      exact hLe
    · rw [mem_singleton.mp hHead]
      exact offset_le_iff.mpr (by omega)

end WALFormat

theorem PageOffsets.lookup_filter (m : PageOffsets) (p commit : Nat) :
    (m.filter (fun x => decide (x.1 ≤ commit))).lookup p =
      if p ≤ commit then m.lookup p else none := by
  induction m with
  | nil => simp
  | cons x m ih =>
    by_cases hKept : x.1 ≤ commit
    · rw [filter_cons, if_pos (decide_eq_true hKept), lookup_cons, lookup_cons, ih]
      by_cases hEq : p = x.1
      · simp [hEq, hKept]
      · simp [beq_eq_false_iff_ne.mpr hEq]
    have hDropped : ¬ decide (x.1 ≤ commit) = true := fun hTrue => hKept (of_decide_eq_true hTrue)
    rw [filter_cons, if_neg hDropped, lookup_cons, ih]
    by_cases hEq : p = x.1
    · simp [hEq, hKept]
    · simp [beq_eq_false_iff_ne.mpr hEq]

theorem PageOffsets.highest_cons {x} {m : PageOffsets} (hPos : 0 < x.2) (hLe : ∀ y ∈ m, y.2 ≤ x.2) :
    PageOffsets.highest (x :: m) = x.2 := by
  have hStay : m.foldl (fun highest y =>
    if highest = 0 ∨ highest < y.2 then y.2
    else highest) x.2 = x.2 := by
    induction m with
    | nil => rfl
    | cons y m ih =>
      have hNot : ¬ (x.2 = 0 ∨ x.2 < y.2) := by
        have hBelow := hLe y mem_cons_self
        omega
      rw [foldl_cons, if_neg hNot]
      exact ih (fun z hz => hLe z (mem_cons_of_mem y hz))
  exact hStay

namespace WALFormat

variable {F : WALFormat D} {rd : WALReader D}

theorem pageMap_nil (hRest : rd.rest = []) : F.pageMap rd = ([], 0, 0) := by
  simp [pageMap, hRest, pageMapLoop]

/- The page map of committed frames ends where they do. -/
theorem pageMap_eq (hNonempty : rd.rest ≠ []) (hCommitted : Committed rd.rest) :
    F.pageMap rd = ((F.entries rd.frameN rd.rest).filter (fun x => decide (x.1 ≤ commitOf rd.rest)),
      F.offset (rd.frameN + rd.rest.length),
      commitOf rd.rest) := by
  unfold pageMap
  rw [pageMapLoop_eq hNonempty (fun f hf => (hCommitted f hf).1)]
  simp only [append_nil]
  rcases eq_nil_or_concat rd.rest with hNil | ⟨fs, f, hSplit⟩
  · exact absurd hNil hNonempty
  rw [concat_eq_append] at hSplit
  rw [hSplit] at hCommitted ⊢
  have hCommit : commitOf (fs ++ [f]) = f.commit := by simp [commitOf]
  have hWithin : f.pgno ≤ f.commit := (hCommitted f (by simp)).2
  -- the last frame is the first entry and is kept
  rw [hCommit, entries_append_singleton, filter_cons_of_pos
    (p := fun x : Nat × Nat => decide (x.1 ≤ f.commit))
    (decide_eq_true hWithin),
    if_neg (cons_ne_nil _ _),
    PageOffsets.highest_cons (offset_pos _)]
  · rw [length_append, length_singleton, ← Nat.add_assoc, offset_succ]
  · intro y hy
    exact offset_le_of_mem_entries (mem_filter.mp hy).1

theorem pageMap_append_open {i : Nat} {salts fs tail} (hOpen : ∀ f ∈ tail, f.commit = 0) :
    F.pageMap ⟨i, salts, fs ++ tail⟩ = F.pageMap ⟨i, salts, fs⟩ := by
  unfold pageMap
  rw [pageMapLoop_append_open hOpen]

/-
  What an entry of the map points to: the frame with the
  newest version of the page.
-/
theorem lookup_entries {p i : Nat} {fs} : match (F.entries i fs).lookup p with
    | none => newestPage p fs = none
    | some off =>
      ∃ k f, fs[k]? = some f ∧ off = F.offset (i + k) ∧ newestPage p fs = some f.data := by
  induction fs generalizing i with
  | nil => rfl
  | cons f fs ih =>
    rw [entries, lookup_append, newestPage_cons]
    cases hLater : (F.entries (i + 1) fs).lookup p with
    | some off =>
      have hTail := ih (i := i + 1)
      rw [hLater] at hTail
      rcases hTail with ⟨k, g, hGet, hOff, hNewest⟩
      refine ⟨k + 1, g, hGet, ?_, ?_⟩
      · rw [hOff]
        congr 1
        omega
      · rw [hNewest]
        rfl
    | none =>
      have hTail := ih (i := i + 1)
      rw [hLater] at hTail
      simp only [hTail, Option.none_or]
      by_cases hPgno : p = f.pgno
      · subst hPgno
        simp only [lookup_cons, beq_self_eq_true, if_true]
        exact ⟨0, f, rfl, rfl, rfl⟩
      · have hBeq : (p == f.pgno) = false := beq_eq_false_iff_ne.mpr hPgno
        simp [lookup_cons, hBeq, hPgno]

end WALFormat

end Replicate
