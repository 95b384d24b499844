import Mathlib.Logic.Relation
import Replicate.DB.WAL

/-
  What is assumed of SQLite: its database file, its WAL and
  how commits and checkpoints change them.

  A commit appends the frames of a transaction to the WAL,
  over stale frames if there are any. If every frame of the
  WAL has been copied into the database file, it may start
  the WAL anew instead, with new salts. Whether it does
  depends on the readers, which are not modelled, so either
  can happen. A checkpoint copies frames into the database
  file: some of them, or all, and with TRUNCATE it may then
  empty the WAL. Transactions that are written in part or
  rolled back are left out.

  Main declarations:
    * `SQLite.Commit.valid`
    * `SQLite.Checkpoint.valid`
    * `SQLite.Commits.prefix_of_header_eq`
-/

-- States

namespace Replicate

open WALFormat PageHistory List Option

variable {D : Type}

/- A database file and its size in pages. -/
structure DBFile (D : Type) where
  size : Nat
  page : Nat → D

/-
  A database. The WAL index knows how many frames of the
  WAL are committed, whether all of them are copied into
  the database file, and the first salt used last.
-/
structure SQLite (D : Type) where
  file : DBFile D
  wal : WALFile D
  mxFrame : Nat
  backfilled : Bool
  salt1 : Nat

namespace SQLite

/- The committed frames. -/
def committed (q : SQLite D) : List (WALFrame D) :=
  q.wal.frames.take q.mxFrame

/- The size of the database that SQLite presents. -/
def size (q : SQLite D) : Nat :=
  match q.committed with
  | [] => q.file.size
  | f :: fs => commitOf (f :: fs)

/-
  The page that SQLite presents: the database file overlaid
  with the committed frames.
-/
def page (q : SQLite D) (p : Nat) : D :=
  (newestPage p q.committed).getD (q.file.page p)

end SQLite

-- Commits

/- The pages that a transaction writes, in this order. -/
structure Tx (D : Type) where
  pages : List (Nat × D)
  size : Nat
  nonempty : pages ≠ []
  within : ∀ x ∈ pages, 1 ≤ x.1 ∧ x.1 ≤ size

/- The frames of a transaction; the last one commits. -/
def WALFormat.txFrames (F : WALFormat D) (salts : Salts) (size : Nat) :
    Checksum → List (Nat × D) → List (WALFrame D)
| _, [] => []
| c, x :: xs =>
  let commit := if xs.isEmpty then size else 0
  let chksum := F.walChecksum c x.1 commit x.2
  ⟨x.1, commit, salts, chksum, x.2⟩ :: txFrames F salts size chksum xs

/- Write frames from a position on over what is there. -/
def overwrite (frames : List (WALFrame D)) (i : Nat)
    (new : List (WALFrame D)) : List (WALFrame D) :=
  frames.take i ++ new ++ frames.drop (i + new.length)

namespace SQLite

/-
  A transaction writes every page by which it grows the
  database, except for the lock page, which none writes.
-/
structure Fits (F : WALFormat D) (q : SQLite D) (tx : Tx D) : Prop where
  grows : ∀ p, q.size < p → p ≤ tx.size → p ≠ F.lockPgno → ∃ x ∈ tx.pages, x.1 = p
  lock_free : ∀ x ∈ tx.pages, x.1 ≠ F.lockPgno

/- The frames that a commit appends. -/
def appended (F : WALFormat D) (q : SQLite D) (h : WALHeader) (tx : Tx D) : List (WALFrame D) :=
  F.txFrames h.salts tx.size (checksumAfter h.chksum q.committed) tx.pages

/- Commit by appending to the WAL. -/
def append (F : WALFormat D) (q : SQLite D) (h : WALHeader) (tx : Tx D) : SQLite D :=
  { q with
    wal := ⟨some h, overwrite q.wal.frames q.mxFrame (q.appended F h tx)⟩,
    mxFrame := q.mxFrame + tx.pages.length,
    backfilled := false }

/- Commit by starting the WAL anew. -/
def restart (F : WALFormat D) (q : SQLite D) (h : WALHeader) (tx : Tx D) : SQLite D :=
  { q with
    wal := ⟨some h, overwrite q.wal.frames 0 (F.txFrames h.salts tx.size h.chksum tx.pages)⟩,
    mxFrame := tx.pages.length,
    backfilled := false,
    salt1 := h.salts.salt1 }

/- A commit of some transaction. -/
inductive Commit (F : WALFormat D) : SQLite D → SQLite D → Prop where
  | append {q h tx} (hHeader : q.wal.header = some h) (hFits : q.Fits F tx) :
    Commit F q (q.append F h tx)
  | restart {q h tx} (hBackfilled : q.backfilled = true) (hSalt : h.salts.salt1 = q.salt1 + 1)
    (hFits : q.Fits F tx) :
    Commit F q (q.restart F h tx)

/- Any number of commits. -/
def Commits (F : WALFormat D) : SQLite D → SQLite D → Prop :=
  Relation.ReflTransGen (Commit F)

end SQLite

-- Checkpoints

/- The modes of `PRAGMA wal_checkpoint`. -/
inductive CheckpointMode where
  | passive
  | full
  | restart
  | truncate
  deriving DecidableEq, Repr

/- How far a checkpoint got. -/
inductive CheckpointResult where
  | partly
  | completed
  | truncated
  deriving DecidableEq, Repr

namespace SQLite

/- Some pages of the file replaced by frames. -/
structure Copied (frames : List (WALFrame D)) (file file' : DBFile D) : Prop where
  size_le : file.size ≤ file'.size
  page_eq : ∀ p, file'.page p = file.page p ∨ ∃ f ∈ frames, f.pgno = p ∧ file'.page p = f.data

/- Copy all committed frames into the database file. -/
def backfill (q : SQLite D) : SQLite D :=
  { q with
    file := ⟨q.size, q.page⟩,
    backfilled := true }

/- Copy all committed frames and empty the WAL. -/
def truncate (q : SQLite D) : SQLite D :=
  { q.backfill with
    wal := ⟨none, []⟩,
    mxFrame := 0 }

/- A checkpoint in some mode. -/
inductive Checkpoint (mode : CheckpointMode) : SQLite D → CheckpointResult → SQLite D → Prop where
  | partly {q file} (hLeft : q.backfilled = false) (hNonempty : q.committed ≠ [])
    (hCopied : Copied q.committed q.file file) :
    Checkpoint mode q .partly { q with file := file }
  | completed {q} : Checkpoint mode q .completed q.backfill
  | truncated {q} (hMode : mode = .truncate) : Checkpoint mode q .truncated q.truncate

/-
  What holds of every database: committed frames belong to
  the generation of the header and end with a commit, and
  the frames after them belong to earlier generations.
-/
structure Valid (F : WALFormat D) (q : SQLite D) : Prop where
  empty : q.wal.header = none → q.wal.frames = []
  mxFrame_le : q.mxFrame ≤ q.wal.frames.length
  salt : ∀ h, q.wal.header = some h → h.salts.salt1 = q.salt1
  chained : ∀ h, q.wal.header = some h → F.Chained h.salts h.chksum q.committed
  stale : ∀ f ∈ q.wal.frames.drop q.mxFrame, f.salts.salt1 < q.salt1
  commits : Committed q.committed
  pages : ∀ f ∈ q.committed, 1 ≤ f.pgno ∧ f.pgno ≠ F.lockPgno
  copied : q.backfilled = true → q.file.size = q.size ∧ ∀ p ≤ q.size, q.file.page p = q.page p

-- Frames Of A Transaction

end SQLite

section TxFrames

variable {F : WALFormat D} {salts : Salts} {size : Nat} {c : Checksum}

@[simp] theorem length_txFrames (xs : List (Nat × D)) :
    (F.txFrames salts size c xs).length = xs.length := by
  induction xs generalizing c with
  | nil => rfl
  | cons x xs ih => simp [WALFormat.txFrames, ih]

theorem chained_txFrames (xs : List (Nat × D)) :
    F.Chained salts c (F.txFrames salts size c xs) := by
  induction xs generalizing c with
  | nil => trivial
  | cons x xs ih => exact ⟨rfl, rfl, ih⟩

theorem txFrames_ne_nil {xs} (hNonempty : xs ≠ []) : F.txFrames salts size c xs ≠ [] := by
  rw [← length_pos_iff, length_txFrames, length_pos_iff]
  exact hNonempty

theorem mem_txFrames_pgno {xs} {p : Nat} :
    (∃ f ∈ F.txFrames salts size c xs, f.pgno = p) ↔ ∃ x ∈ xs, x.1 = p := by
  induction xs generalizing c with
  | nil => simp [WALFormat.txFrames]
  | cons x xs ih => simp only [WALFormat.txFrames, mem_cons, exists_eq_or_imp, ih]

theorem getLast_txFrames {xs} (hNonempty : xs ≠ []) :
    ∃ f ∈ (F.txFrames salts size c xs).getLast?, f.commit = size ∧ ∃ x ∈ xs, f.pgno = x.1 := by
  induction xs generalizing c with
  | nil => exact absurd rfl hNonempty
  | cons x xs ih =>
    cases xs with
    | nil => exact ⟨_, rfl, rfl, x, by simp, rfl⟩
    | cons y ys =>
      rcases ih (c := F.walChecksum c x.1 0 x.2) (cons_ne_nil y ys) with
        ⟨f, hLast, hCommit, z, hz, hPgno⟩
      refine ⟨f, ?_, hCommit, z, mem_cons_of_mem x hz, hPgno⟩
      rw [WALFormat.txFrames]
      simp only [isEmpty_cons, if_false, Bool.false_eq_true]
      rw [getLast?_cons, mem_def.mp hLast]
      rfl

end TxFrames

section Commit

variable {F : WALFormat D} {tx : Tx D} {salts : Salts} {c : Checksum}

theorem commitOf_txFrames : commitOf (F.txFrames salts tx.size c tx.pages) = tx.size := by
  rcases @getLast_txFrames D F salts tx.size c tx.pages tx.nonempty with ⟨f, hLast, hCommit, _⟩
  rw [commitOf, mem_def.mp hLast]
  exact hCommit

theorem txFrames_pages {f} (hFree : ∀ x ∈ tx.pages, x.1 ≠ F.lockPgno)
    (hMem : f ∈ F.txFrames salts tx.size c tx.pages) : 1 ≤ f.pgno ∧ f.pgno ≠ F.lockPgno := by
  rcases mem_txFrames_pgno.mp ⟨f, hMem, rfl⟩ with ⟨x, hx, hPgno⟩
  rw [← hPgno]
  exact ⟨(tx.within x hx).1, hFree x hx⟩

theorem committed_txFrames : Committed (F.txFrames salts tx.size c tx.pages) := by
  intro f hf
  rcases @getLast_txFrames D F salts tx.size c tx.pages
    tx.nonempty with ⟨g, hLast, hCommit, x, hx, hPgno⟩
  have hEq : g = f := mem_unique hLast hf
  subst hEq
  rcases tx.within x hx with ⟨hPos, hLe⟩
  rw [hCommit, hPgno]
  exact ⟨by omega, hLe⟩

end Commit

-- Overwritten Frames

section Overwrite

variable {frames : List (WALFrame D)} {i : Nat} (new : List (WALFrame D))

theorem take_overwrite (hLe : i ≤ frames.length) :
    (overwrite frames i new).take (i + new.length) = frames.take i ++ new := by
  have hLength : (frames.take i ++ new).length = i + new.length := by simp [hLe]
  rw [overwrite, ← hLength, take_left]

theorem drop_overwrite (hLe : i ≤ frames.length) : (overwrite frames i new).drop (i + new.length) =
    frames.drop (i + new.length) := by
  have hLength : (frames.take i ++ new).length = i + new.length := by simp [hLe]
  rw [overwrite, ← hLength, drop_left]

theorem length_overwrite (hLe : i ≤ frames.length) :
    i + new.length ≤ (overwrite frames i new).length := by
  simp [overwrite, hLe]

theorem overwrite_cases {k : Nat} {f} (hLe : i ≤ frames.length)
    (hGet : (overwrite frames i new)[k]? = some f) : frames[k]? = some f ∨ (f ∈ new ∧ i ≤ k) := by
  by_cases hOld : k < i
  · left
    rw [overwrite, append_assoc, getElem?_append_left (by simp; omega),
      getElem?_take_of_lt hOld] at hGet
    exact hGet
  by_cases hNew : k < i + new.length
  · right
    rw [overwrite, append_assoc, getElem?_append_right (by simp; omega),
      getElem?_append_left (by simp; omega)] at hGet
    exact ⟨mem_of_getElem? hGet, Nat.le_of_not_lt hOld⟩
  left
  rw [overwrite, getElem?_append_right (by simp; omega), getElem?_drop] at hGet
  rw [← hGet]
  congr 1
  simp only [length_append, length_take, Nat.min_eq_left hLe]
  omega

theorem overwrite_salts {F : WALFormat D} {k : Nat} {f salts size c xs} (hLe : i ≤ frames.length)
    (hGet : (overwrite frames i (F.txFrames salts size c xs))[k]? = some f) :
    frames[k]? = some f ∨ f.salts = salts := by
  rcases overwrite_cases _ hLe hGet with hOld | ⟨hMem, _⟩
  · exact Or.inl hOld
  · exact Or.inr ((chained_txFrames xs).salts_eq hMem)

theorem getElem?_overwrite_of_lt {k : Nat} (hLe : i ≤ frames.length) (hLt : k < i) :
    (overwrite frames i new)[k]? = frames[k]? := by
  rw [overwrite, append_assoc, getElem?_append_left (by simp; omega), getElem?_take_of_lt hLt]

end Overwrite

-- What Commits Change

namespace SQLite

section Commit

variable {F : WALFormat D} {q q' : SQLite D} {h : WALHeader} {tx : Tx D}

theorem size_of_nil (hNil : q.committed = []) : q.size = q.file.size := by
  simp [size, hNil]

theorem size_of_ne_nil (hNonempty : q.committed ≠ []) : q.size = commitOf q.committed := by
  unfold size
  split
  · rename_i hNil
    exact absurd hNil hNonempty
  · rename_i hCons
    rw [hCons]

theorem length_appended : (q.appended F h tx).length = tx.pages.length :=
  length_txFrames tx.pages

theorem committed_append (hLe : q.mxFrame ≤ q.wal.frames.length) :
    (q.append F h tx).committed = q.committed ++ q.appended F h tx := by
  unfold append committed
  rw [← length_appended (F := F) (q := q) (h := h)]
  exact take_overwrite _ hLe

theorem committed_restart : (q.restart F h tx).committed =
    F.txFrames h.salts tx.size h.chksum tx.pages := by
  have hTake :=
    take_overwrite (F.txFrames h.salts tx.size h.chksum tx.pages) (Nat.zero_le q.wal.frames.length)
  rw [Nat.zero_add, length_txFrames] at hTake
  exact hTake

theorem size_append (hLe : q.mxFrame ≤ q.wal.frames.length) : (q.append F h tx).size = tx.size := by
  have hNonempty : q.appended F h tx ≠ [] := txFrames_ne_nil tx.nonempty
  rw [size_of_ne_nil, committed_append hLe, commitOf_append hNonempty]
  · exact commitOf_txFrames
  · rw [committed_append hLe]
    exact append_ne_nil_of_right_ne_nil _ hNonempty

theorem size_restart : (q.restart F h tx).size = tx.size := by
  rw [size_of_ne_nil, committed_restart]
  · exact commitOf_txFrames
  · rw [committed_restart]
    exact txFrames_ne_nil tx.nonempty

theorem page_append (hLe : q.mxFrame ≤ q.wal.frames.length) (p : Nat) : (q.append F h tx).page p =
    (newestPage p (q.appended F h tx)).getD (q.page p) := by
  unfold page
  rw [committed_append hLe, newestPage_append]
  cases newestPage p (q.appended F h tx) with
  | none | some => rfl

theorem page_restart (p : Nat) : (q.restart F h tx).page p = (newestPage p
    (F.txFrames h.salts tx.size h.chksum tx.pages)).getD
    (q.file.page p) := by
  unfold page
  rw [committed_restart]
  rfl

theorem Valid.salt_le (hValid : q.Valid F) {f} (hMem : f ∈ q.wal.frames) :
    f.salts.salt1 ≤ q.salt1 := by
  cases hHeader : q.wal.header with
  | none =>
    rw [hValid.empty hHeader] at hMem
    simp at hMem
  | some h =>
    rw [← take_append_drop q.mxFrame q.wal.frames] at hMem
    rcases mem_append.mp hMem with hIn | hStale
    · have hSalts : f.salts = h.salts := (hValid.chained h hHeader).salts_eq hIn
      rw [hSalts]
      exact Nat.le_of_eq (hValid.salt h hHeader)
    · exact Nat.le_of_lt (hValid.stale f hStale)

theorem Valid.append (hValid : q.Valid F) (hHeader : q.wal.header = some h) (hFits : q.Fits F tx) :
    (q.append F h tx).Valid F := by
  have hLe := hValid.mxFrame_le
  have hLength := length_overwrite (q.appended F h tx) hLe
  have hDrop := drop_overwrite (q.appended F h tx) hLe
  rw [length_appended] at hLength hDrop
  exact {
    empty := fun hNone => by
      simp [SQLite.append] at hNone
    mxFrame_le := hLength
    salt := by
      rintro _ ⟨⟩
      exact hValid.salt h hHeader
    chained := by
      rintro _ ⟨⟩
      rw [committed_append hLe]
      exact chained_append.mpr ⟨hValid.chained h hHeader, chained_txFrames tx.pages⟩
    stale := by
      intro f hf
      have hOld : f ∈ q.wal.frames.drop (q.mxFrame + tx.pages.length) := by
        rw [← hDrop]
        exact hf
      rw [← drop_drop] at hOld
      exact hValid.stale f (mem_of_mem_drop hOld)
    commits := by
      have hNonempty : q.appended F h tx ≠ [] := txFrames_ne_nil tx.nonempty
      rw [committed_append hLe]
      intro f hf
      rw [getLast?_append_of_ne_nil _ hNonempty] at hf
      exact committed_txFrames f hf
    pages := by
      intro f hf
      rw [committed_append hLe] at hf
      rcases mem_append.mp hf with hOld | hNew
      · exact hValid.pages f hOld
      · exact txFrames_pages hFits.lock_free hNew
    copied := fun hCopied => by
      simp [SQLite.append] at hCopied }

theorem Valid.restart (hValid : q.Valid F) (hSalt : h.salts.salt1 = q.salt1 + 1)
    (hFits : q.Fits F tx) : (q.restart F h tx).Valid F := by
  have hLe : 0 ≤ q.wal.frames.length := Nat.zero_le _
  have hLength := length_overwrite (F.txFrames h.salts tx.size h.chksum tx.pages) hLe
  have hDrop := drop_overwrite (F.txFrames h.salts tx.size h.chksum tx.pages) hLe
  rw [Nat.zero_add, length_txFrames] at hLength hDrop
  exact {
    empty := fun hNone => by
      simp [SQLite.restart] at hNone
    mxFrame_le := hLength
    salt := by
      rintro _ ⟨⟩
      rfl
    chained := by
      rintro _ ⟨⟩
      rw [committed_restart]
      exact chained_txFrames tx.pages
    stale := by
      intro f hf
      have hOld : f ∈ q.wal.frames.drop tx.pages.length := by
        rw [← hDrop]
        exact hf
      have hBefore : f.salts.salt1 ≤ q.salt1 := hValid.salt_le (mem_of_mem_drop hOld)
      have hNow : (q.restart F h tx).salt1 = h.salts.salt1 := rfl
      omega
    commits := by
      rw [committed_restart]
      exact committed_txFrames
    pages := by
      intro f hf
      rw [committed_restart] at hf
      exact txFrames_pages hFits.lock_free hf
    copied := fun hCopied => by
      simp [SQLite.restart] at hCopied }

/- A commit keeps the database valid. -/
theorem Commit.valid (hValid : q.Valid F) (hCommit : Commit F q q') : q'.Valid F := by
  cases hCommit with
  | append hHeader hFits => exact hValid.append hHeader hFits
  | restart _ hSalt hFits => exact hValid.restart hSalt hFits

theorem Commits.valid (hValid : q.Valid F) (hCommits : Commits F q q') : q'.Valid F := by
  induction hCommits with
  | refl => exact hValid
  | tail _ hCommit ih => exact hCommit.valid ih

/-
  A commit leaves frames as they are or puts frames of the
  current salts in their place. These are the salts from
  before or new ones.
-/
theorem Commit.frames (hValid : q.Valid F) (hCommit : Commit F q q') :
    ∃ g : WALHeader, q'.wal.header = some g ∧ (q.wal.header = some g ∨
      g.salts.salt1 = q.salt1 + 1) ∧ ∀ (i : Nat) (f : WALFrame D), q'.wal.frames[i]? = some f →
          q.wal.frames[i]? = some f ∨ f.salts = g.salts := by
  cases hCommit with
  | @append g tx hHeader _ =>
    exact ⟨g, rfl, Or.inl hHeader, fun i f hGet => overwrite_salts hValid.mxFrame_le hGet⟩
  | @restart g tx _ hSalt _ =>
    exact ⟨g, rfl, Or.inr hSalt, fun i f hGet => overwrite_salts (Nat.zero_le _) hGet⟩

theorem Commits.salt_le (hCommits : Commits F q q') : q.salt1 ≤ q'.salt1 ∧ q'.file = q.file := by
  induction hCommits with
  | refl => exact ⟨Nat.le_refl _, rfl⟩
  | tail _ hCommit ih =>
    cases hCommit with
    | append _ _ => exact ih
    | restart _ hSalt _ =>
      refine ⟨?_, ih.2⟩
      have hLe := ih.1
      simp only [SQLite.restart, hSalt]
      omega

/-
  If the header is still the same, all that happened to the
  WAL is that frames were appended.
-/
theorem Commits.prefix_of_header_eq (hValid : q.Valid F)
    (hHeader : q.wal.header = some h) (hCommits : Commits F q q') (hSame : q'.wal.header = some h) :
    q.committed <+: q'.committed ∧ ∀ i < q.mxFrame, q'.wal.frames[i]? = q.wal.frames[i]? := by
  have hAll : q'.wal.header = some h → q.mxFrame ≤ q'.mxFrame ∧ q.committed <+: q'.committed ∧
    ∀ i < q.mxFrame, q'.wal.frames[i]? = q.wal.frames[i]? := by
    clear hSame
    induction hCommits with
    | refl =>
      exact fun _ => ⟨Nat.le_refl _, prefix_rfl, fun _ _ => rfl⟩
    | @tail r r' hBefore hCommit ih =>
      intro hSame
      have hValidR : r.Valid F := Commits.valid hValid hBefore
      have hLe := hValidR.mxFrame_le
      cases hCommit with
      | @append g tx hHeaderR _ =>
        have hEq : g = h := some.inj hSame
        subst hEq
        rcases ih hHeaderR with ⟨hMx, hPrefix, hFrames⟩
        refine ⟨Nat.le_trans hMx (Nat.le_add_right _ _), ?_, ?_⟩
        · rw [committed_append hLe]
          exact hPrefix.trans (prefix_append _ _)
        · intro i hi
          have hStay := getElem?_overwrite_of_lt (r.appended F g tx) hLe (Nat.lt_of_lt_of_le hi hMx)
          exact hStay.trans (hFrames i hi)
      | @restart g tx _ hSalt _ =>
        -- a restart leaves a larger first salt
        have hEq : g = h := some.inj hSame
        subst hEq
        have hOld : g.salts.salt1 = q.salt1 := hValid.salt g hHeader
        have hGrown := (Commits.salt_le hBefore).1
        omega
  exact (hAll hSame).2

end Commit

-- What Checkpoints Change

section Checkpoint

variable {F : WALFormat D} {q q' : SQLite D} {mode : CheckpointMode} {result : CheckpointResult}

theorem size_backfill : q.backfill.size = q.size := by
  have hCommitted : q.backfill.committed = q.committed := rfl
  by_cases hNil : q.committed = []
  · rw [size_of_nil (hCommitted.trans hNil)]
    rfl
  · rw [size_of_ne_nil (by rw [hCommitted]; exact hNil), size_of_ne_nil hNil, hCommitted]

theorem page_backfill (p : Nat) : q.backfill.page p = q.page p := by
  have hCommitted : q.backfill.committed = q.committed := rfl
  unfold page
  rw [hCommitted]
  cases hNewest : newestPage p q.committed with
  | none => simp [backfill, page, hNewest]
  | some d => rfl

theorem size_truncate : q.truncate.size = q.size := rfl

theorem page_truncate (p : Nat) : q.truncate.page p = q.page p := rfl

theorem Copied.page {file} (hCopied : Copied q.committed q.file file) (p : Nat) :
    ({ q with file := file } : SQLite D).page p = q.page p := by
  have hCommitted : ({ q with file := file } : SQLite D).committed = q.committed := rfl
  unfold SQLite.page
  rw [hCommitted]
  cases hNewest : newestPage p q.committed with
  | some d => rfl
  | none =>
    rcases hCopied.page_eq p with hSame | ⟨f, hf, hPgno, _⟩
    · exact hSame
    · exact absurd hPgno (newestPage_eq_none_iff.mp hNewest f hf)

theorem Checkpoint.presents (hCheckpoint : Checkpoint mode q result q') :
    q'.size = q.size ∧ ∀ p, q'.page p = q.page p := by
  cases hCheckpoint with
  | partly _ hNonempty hCopied =>
    refine ⟨?_, hCopied.page⟩
    rw [size_of_ne_nil hNonempty]
    exact size_of_ne_nil hNonempty
  | completed => exact ⟨size_backfill, page_backfill⟩
  | truncated _ => exact ⟨size_truncate, page_truncate⟩

theorem Valid.backfill (hValid : q.Valid F) : q.backfill.Valid F where
  empty := hValid.empty
  mxFrame_le := hValid.mxFrame_le
  salt := hValid.salt
  chained := hValid.chained
  stale := hValid.stale
  commits := hValid.commits
  pages := hValid.pages
  copied := by
    intro _
    rw [size_backfill]
    refine ⟨rfl, ?_⟩
    intro p _
    rw [page_backfill]
    rfl

/- A checkpoint keeps the database valid. -/
theorem Checkpoint.valid (hValid : q.Valid F) (hCheckpoint : Checkpoint mode q result q') :
    q'.Valid F := by
  cases hCheckpoint with
  | partly hLeft _ _ =>
    exact {
      empty := hValid.empty
      mxFrame_le := hValid.mxFrame_le
      salt := hValid.salt
      chained := hValid.chained
      stale := hValid.stale
      commits := hValid.commits
      pages := hValid.pages
      copied := fun hCopied => by simp [hLeft] at hCopied }
  | completed => exact hValid.backfill
  | truncated _ =>
    exact {
      empty := fun _ => rfl
      mxFrame_le := Nat.le_refl 0
      salt := by simp [truncate]
      chained := by simp [truncate]
      stale := by simp [truncate]
      commits := by
        intro f hf
        simp [truncate, committed] at hf
      pages := by
        intro f hf
        simp [truncate, committed] at hf
      copied := fun _ => ⟨rfl, fun _ _ => rfl⟩ }

end Checkpoint

end SQLite

end Replicate
