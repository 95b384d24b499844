import Mathlib.Data.List.Sort
import Replicate.DB.SQLite
import Replicate.Lib.Traversal

/-
  Copying the WAL into local level-0 files, and checkpoints.

  `verify` and `sync` read the database several times, and
  the application can commit between these reads. So each
  of them gets the database as it is at the time of every
  read; the scan of one reader counts as one read. A file
  is written or it is not: what a failed write leaves
  behind is left out, and so are a local level-0 file that
  cannot be read back and the wrap-around of TXIDs.
-/

-- States

namespace Replicate

open SQLite PageHistory

variable {D : Type}

/- A local level-0 file with what its header says. -/
structure L0File (D : Type) where
  txid : Nat
  content : Layer D
  walOffset : Nat
  walSize : Nat
  salts : Salts

/- Where the frames of a file end in the WAL. -/
def L0File.walEnd (f : L0File D) : Nat :=
  f.walOffset + f.walSize

/- How far `checkpoint` got; `hdr` is the header it read. -/
inductive Phase where
  | idle
  | synced (mode : CheckpointMode) (hdr : WALHeader)
  | measured (mode : CheckpointMode) (hdr : WALHeader)
  | executed (hdr : WALHeader)
  | marked (hdr : WALHeader)
  deriving DecidableEq

/- A `DB` together with the database it watches. -/
structure DBState (D : Type) where
  sqlite : SQLite D
  l0 : List (L0File D)
  lastSyncedWALOffset : Nat
  syncedToWALEnd : Bool
  phase : Phase

/- The database at each time a sync reads it. -/
structure SyncViews (D : Type) where
  stat : SQLite D
  header : SQLite D
  lastPage : SQLite D
  salts : SQLite D
  scan : SQLite D
  copy : SQLite D
  size : SQLite D

namespace SyncViews

/- No commit overlaps with the sync. -/
def still (q : SQLite D) : SyncViews D :=
  ⟨q, q, q, q, q, q, q⟩

/- Between the reads there are only commits. -/
structure InOrder (F : WALFormat D) (q : SQLite D) (v : SyncViews D) : Prop where
  stat : Commits F q v.stat
  header : Commits F v.stat v.header
  lastPage : Commits F v.header v.lastPage
  salts : Commits F v.lastPage v.salts
  scan : Commits F v.salts v.scan
  copy : Commits F v.scan v.copy
  size : Commits F v.copy v.size

theorem inOrder_still (F : WALFormat D) (q : SQLite D) : (still q).InOrder F q :=
  ⟨.refl, .refl, .refl, .refl, .refl, .refl, .refl⟩

end SyncViews

/- The calls of a sync that can fail for other reasons. -/
structure SyncEnv where
  writeErr : Option Err
  statErr : Option Err

-- Verifying

structure SyncInfo where
  offset : Nat
  salts : Salts
  snapshotting : Bool
  reason : String
  deriving DecidableEq, Repr

section Verify

variable [DecidableEq D] (F : WALFormat D)

/-
  `lastPageMatch`: the page of the frame before the last
  file's end is in the file.
-/
def lastPageMatch (file : L0File D) (w : WALFile D) (prevWALOffset : Nat) : Except Err Bool :=
  if prevWALOffset ≤ walHeaderSize then .ok false
  else
    match F.frameAt w prevWALOffset with
    | none => .error (.wrap "cannot read last synced wal page" .eof)
    | some f =>
      if f.salts ≠ file.salts then .ok false
      else .ok (decide (file.content.page f.pgno = some f.data))

omit [DecidableEq D] in
/- `detectFullCheckpoint`, given the salts that are known. -/
def detectFullCheckpoint (w : WALFile D) (current last : Salts) : Except Err Bool :=
  match w.header with
  | none => .error (.wrap "new wal reader" .eof)
  | some _ => .ok ((frameSaltsUntil last w.frames).any (fun s => decide (s ≠ current ∧ s ≠ last)))

/-
  The part of `verify` after the WAL has been found to be
  at least as long as what was synced.
-/
def verifySalts (file : L0File D) (v : SyncViews D) : Except Err SyncInfo :=
  match v.header.wal.header with
  | none => .error (.wrap "cannot read wal header" .eof)
  | some hdr =>
    let continued : SyncInfo := ⟨file.walEnd, file.salts, false, ""⟩
    let reset : SyncInfo := ⟨file.walEnd, file.salts, true, "wal header salt reset, snapshotting"⟩
    if file.walEnd = walHeaderSize then .ok (if hdr.salts = file.salts then continued else reset)
    else if file.walEnd = walHeaderSize + F.frameSize then
      .ok (if hdr.salts = file.salts then continued else reset)
    else if file.walEnd < walHeaderSize + F.frameSize then
      .error (.text ("prev WAL offset is less than the header size: " ++
        toString ((file.walEnd : Int) - F.frameSize)))
    else
      match lastPageMatch F file v.lastPage.wal (file.walEnd - F.frameSize) with
      | .error err => .error (.wrap "last page match" err)
      | .ok false =>
        .ok ⟨file.walEnd, file.salts, true, "last page does not exist in last ltx file, " ++
          "wal overwritten by another process"⟩
      | .ok true =>
        if hdr.salts = file.salts then .ok continued
        else
          match detectFullCheckpoint v.salts.wal hdr.salts file.salts with
          | .error err => .error (.wrap "detect full checkpoint" err)
          | .ok true =>
            .ok ⟨walHeaderSize, hdr.salts, true,
              "full or restart checkpoint detected, " ++ "snapshotting"⟩
          | .ok false => .ok ⟨walHeaderSize, hdr.salts, false, ""⟩

/- `verify`, which may clear `syncedToWALEnd`. -/
def verify (db : DBState D) (v : SyncViews D) : Except Err SyncInfo × Bool :=
  match db.l0.getLast? with
  | none => (.ok ⟨walHeaderSize, ⟨0, 0⟩, true, ""⟩, db.syncedToWALEnd)
  | some file =>
    if F.fileSize v.stat.wal < file.walEnd then
      if db.syncedToWALEnd then
        (match v.header.wal.header with
          | none => .error (.wrap ("read wal header after expected " ++ "truncation") .eof)
          | some hdr => .ok ⟨walHeaderSize, hdr.salts, false, ""⟩,
          false)
      else
        (.ok ⟨file.walEnd, file.salts, true,
          "wal truncated past last sync position, " ++ "snapshotting"⟩,
          db.syncedToWALEnd)
    else (verifySalts F file v, db.syncedToWALEnd)

end Verify

-- Syncing

section Sync

variable (F : WALFormat D)

/- The reader of `sync` and the offset it starts from. -/
def openReader (w : WALFile D) (info : SyncInfo) : Except Err (Nat × WALReader D) :=
  if info.offset = walHeaderSize then
    match newWALReader F w with
    | .error err => .error (.wrap "new wal reader" err)
    | .ok rd => .ok (info.offset, rd)
  else
    match newWALReaderWithOffset F w info.offset info.salts with
    | .error err => .error (.wrap "new wal reader with offset" err)
    | .ok (some rd) => .ok (info.offset, rd)
    | .ok none =>
      match newWALReader F w with
      | .error _ => .error (.text "new wal reader, after reset")
      | .ok rd => .ok (walHeaderSize, rd)

/- The page at an offset of the WAL. -/
def readWALPage (w : WALFile D) (pgno off : Nat) : Except Err D :=
  match F.frameAt w off with
  | none => .error (.wrap ("read page " ++ toString pgno ++ " @ " ++ toString off) .eof)
  | some f => .ok f.data

/- `writeLTXFromDB`: all pages except for the lock page. -/
def writeLTXFromDB (q : SQLite D) (commit : Nat)
    (pageMap : PageOffsets) : Except Err (List (Nat × D)) :=
  Traversal.tabulate (fun pgno =>
    match pageMap.lookup pgno with
    | some off => readWALPage F q.wal pgno off
    | none =>
      if pgno ≤ q.file.size then .ok (q.file.page pgno)
      else .error (.wrap ("read database page " ++ toString pgno) .eof))
    ((List.range' 1 commit).filter (fun pgno => decide (pgno ≠ F.lockPgno)))

/- `writeLTXFromWAL`: the pages of the page map. -/
def writeLTXFromWAL (q : SQLite D) (pageMap : PageOffsets) : Except Err (List (Nat × D)) :=
  Traversal.tabulate (fun pgno => readWALPage F q.wal pgno ((pageMap.lookup pgno).getD 0))
    ((pageMap.map Prod.fst).dedup.insertionSort (· ≤ ·))

/-
  `sync`: the new file, if there is something to write. It
  cannot end before its start, as the source asserts, since
  the reader begins there.
-/
def sync (l0 : List (L0File D)) (env : SyncEnv) (info : SyncInfo)
    (v : SyncViews D) : Except Err (Option (L0File D)) :=
  match openReader F v.scan.wal info with
  | .error err => .error err
  | .ok (offset, rd) =>
    let (pageMap, maxOffset, walCommit) := F.pageMap rd
    let commit :=
      if 0 < walCommit then walCommit else v.scan.file.size
    let sz := if 0 < maxOffset then maxOffset - offset else 0
    if info.snapshotting = false ∧ sz = 0 then .ok none
    else
      match env.writeErr with
      | some err => .error err
      | none =>
        match (if info.snapshotting then
          (writeLTXFromDB F v.copy commit pageMap).mapError (.wrap "write ltx from db")
          else
            (writeLTXFromWAL F v.copy pageMap).mapError (.wrap "write ltx from wal")) with
        | .error err => .error err
        | .ok pages =>
          .ok (some
            { txid :=
              match l0.getLast? with
              | none => 1
              | some file => file.txid + 1
              content := ⟨commit, fun p => pages.lookup p⟩
              walOffset := offset
              walSize := sz
              salts := rd.salts })

end Sync

namespace DBState

variable [DecidableEq D]

/-
  `verifyAndSync`: the error or whether a file was written.
  The commits between the reads have changed the database.
-/
def verifyAndSync (F : WALFormat D) (db : DBState D) (env : SyncEnv)
    (v : SyncViews D) : Except Err Bool × DBState D :=
  let (verified, syncedToWALEnd) := verify F db v
  let db' : DBState D := { db with
    sqlite := v.size
    syncedToWALEnd := syncedToWALEnd }
  match verified with
  | .error err => (.error (.wrap "cannot verify wal state" err), db')
  | .ok info =>
    match sync F db.l0 env info v with
    | .error err => (.error (.wrap "sync" err), db')
    | .ok none => (.ok false, db')
    | .ok (some file) =>
      (.ok true, { db' with
        l0 := db.l0 ++ [file]
        lastSyncedWALOffset := file.walEnd
        syncedToWALEnd :=
          match env.statErr with
          | some _ => false
          | none => decide (file.walEnd = F.fileSize v.size.wal) })

omit [DecidableEq D] in
/-
  The check before the checkpoint is executed: the WAL may
  have grown since the sync.
-/
def measure (F : WALFormat D) (db : DBState D) : DBState D :=
  if db.lastSyncedWALOffset ≠ F.fileSize db.sqlite.wal then { db with syncedToWALEnd := false }
  else db

-- Runs

/- What happens in a step. -/
inductive Op (D : Type) where
  | commit
  | sync (v : SyncViews D)
  | begin (v : SyncViews D)
  | measure
  | execute (result : CheckpointResult)
  | mark
  | finish
  | fail

/-
  The steps. A `Sync` writes to an empty WAL first; this
  write is among the commits before its first read. The
  mutex of the `DB` is held from `begin` until the state is
  idle again, but commits are possible all the time: only
  `finish` holds SQLite's write lock while it syncs.
-/
inductive Step (F : WALFormat D) : DBState D → Op D → DBState D → Prop where
  | commit {db q} (hCommit : Commit F db.sqlite q) : Step F db .commit { db with sqlite := q }
  | sync {db env v} (hIdle : db.phase = .idle) (hOrder : v.InOrder F db.sqlite)
    (hExists : walHeaderSize ≤ F.fileSize v.stat.wal) :
    Step F db (.sync v) (db.verifyAndSync F env v).2
  | begin {db env v mode q hdr synced} (hIdle : db.phase = .idle)
    (hBefore : Commits F db.sqlite q) (hHeader : q.wal.header = some hdr) (hOrder : v.InOrder F q)
    (hOk : (db.verifyAndSync F env v).1 = .ok synced) :
    Step F db (.begin v) { (db.verifyAndSync F env v).2 with
      phase := .synced mode hdr }
  | beginFails {db env v err} (hIdle : db.phase = .idle) (hOrder : v.InOrder F db.sqlite)
    (hError : (db.verifyAndSync F env v).1 = .error err) :
    Step F db (.begin v) (db.verifyAndSync F env v).2
  | measure {db mode hdr} (hPhase : db.phase = .synced mode hdr) :
    Step F db .measure { db.measure F with phase := .measured mode hdr }
  | execute {db mode hdr result q} (hPhase : db.phase = .measured mode hdr)
    (hCheckpoint : Checkpoint mode db.sqlite result q) :
    Step F db (.execute result) { db with
      sqlite := q
      phase := .executed hdr }
  | mark {db hdr q} (hPhase : db.phase = .executed hdr) (hCommit : Commit F db.sqlite q) :
    Step F db .mark { db with
      sqlite := q
      phase := .marked hdr }
  | unchanged {db hdr} (hPhase : db.phase = .marked hdr) (hSame : db.sqlite.wal.header = some hdr) :
    Step F db .finish { db with phase := .idle }
  | finish {db env hdr other} (hPhase : db.phase = .marked hdr)
    (hHeader : db.sqlite.wal.header = some other) (hChanged : other ≠ hdr) :
    Step F db .finish { (db.verifyAndSync F env (.still db.sqlite)).2 with
      phase := .idle }
  | fail {db} : Step F db .fail { db with phase := .idle }

/- A database that no level-0 file has been made of yet. -/
def fresh (q : SQLite D) : DBState D :=
  ⟨q, [], 0, false, .idle⟩

/- A run whose steps all meet a condition. -/
def Run (F : WALFormat D) (allowed : DBState D → Op D → Prop) : DBState D → DBState D → Prop :=
  Relation.ReflTransGen (fun db db' => ∃ op, allowed db op ∧ Step F db op db')

/-
  A `Sync` that overlaps no commit and starts no checkpoint.
  Its own write to an empty WAL comes first.
-/
inductive QuietSync (F : WALFormat D) : DBState D → Except Err Bool → DBState D → Prop where
  | present {db env} (hIdle : db.phase = .idle)
    (hExists : walHeaderSize ≤ F.fileSize db.sqlite.wal) :
    QuietSync F db (db.verifyAndSync F env (.still db.sqlite)).1
      (db.verifyAndSync F env (.still db.sqlite)).2
  | created {db env q} (hIdle : db.phase = .idle)
    (hMissing : F.fileSize db.sqlite.wal < walHeaderSize) (hCommit : Commit F db.sqlite q) :
    QuietSync F db (db.verifyAndSync F env (.still q)).1 (db.verifyAndSync F env (.still q)).2

end DBState

-- Replay

/- A file with all pages except for the lock page. -/
def L0File.isFullImage (F : WALFormat D) (file : L0File D) : Bool :=
  (List.range' 1 file.content.commit).all (fun p =>
    decide (p = F.lockPgno) || (file.content.page p).isSome)

/- The files from the last full image on. -/
def sinceFullImage (F : WALFormat D) : List (L0File D) → List (L0File D)
| [] => []
| file :: files =>
  if files.any (L0File.isFullImage F) then sinceFullImage F files else file :: files

/- What the files from the last full image on give. -/
def replayL0 (F : WALFormat D) (files : List (L0File D)) : Layer D :=
  stack ((sinceFullImage F files).map L0File.content)

/-
  The committed frames of the WAL that no file holds: those
  after the last file's end, or all of them if the WAL has
  been started anew since.
-/
def L0File.unsynced (F : WALFormat D) (file : L0File D) (q : SQLite D) : List (WALFrame D) :=
  if q.wal.salts? = some file.salts then
    q.committed.drop ((file.walEnd - walHeaderSize) / F.frameSize)
  else q.committed

def DBState.unsynced (F : WALFormat D) (db : DBState D) : List (WALFrame D) :=
  match db.l0.getLast? with
  | none => db.sqlite.committed
  | some file => file.unsynced F db.sqlite

/-
  A checkpoint copies all frames into the database file only
  if level-0 files hold them, or it empties the WAL and it
  is known that they may not. And the WAL is not started
  anew while a sync copies the frames it has found.
-/
def DBState.CheckpointsSynced (F : WALFormat D) (db : DBState D) : DBState.Op D → Prop
| .sync v => v.copy.wal.header = v.scan.wal.header
| .begin v => v.copy.wal.header = v.scan.wal.header
| .execute .completed => db.unsynced F = []
| .execute .truncated => db.unsynced F = [] ∨ db.syncedToWALEnd = false
| _ => True

end Replicate
