import Replicate.DB.Agreement

/-
  The cached position of a DB and the goroutines that
  change the level-0 directory.

  `DB.sync` and `checkDatabaseBehindReplica` run under
  `db.mu`, so one of them at most is under way: it is the
  writer. The deletions of the retention, of the compactor
  and of `ResetLocalState` take no lock: they are workers,
  and any number of them can be under way. `DB.Pos` holds
  the mutex of the position while it reads the directory.

  A step is one file operation, or one update of the cache
  under its mutex. What a step does to the directory and
  the cache is its effect.
-/

-- The Directory

namespace Replicate

namespace PositionCache

open IntervalChain

variable {D : Type}

/- The name of a level-0 file is its range of TXIDs. -/
def nameOf (file : LocalFile D) : Nat × Nat :=
  (file.minTXID, file.maxTXID)

def names (l0 : List (LocalFile D)) : List (Nat × Nat) :=
  l0.map nameOf

/- The directory after a file is removed. -/
def without (name : Nat × Nat) (l0 : List (LocalFile D)) : List (LocalFile D) :=
  l0.filter (fun file => nameOf file != name)

/- The directory after a rename, which replaces. -/
def placed (file : LocalFile D) (l0 : List (LocalFile D)) : List (LocalFile D) :=
  without (nameOf file) l0 ++ [file]

/- Each file begins where another one has ended. -/
def Consecutive (l0 : List (LocalFile D)) : Prop :=
  ∃ c files, List.Perm files l0 ∧ Tiles LocalFile.minTXID LocalFile.maxTXID c files

-- Goroutines

/-
  `os.RemoveAll`: nothing is removed yet, some of the files
  may be, or it has returned.
-/
inductive RemoveAll where
  | begun
  | unlinking
  | done
  deriving DecidableEq, Repr

/-
  A goroutine that deletes local files. `retention` is the
  loop of `EnforceL0RetentionByTime`, with the files left.
  `deletion` is a loop of the compactor which calls
  `deleteLocalLTXFile`, and `deleted` the same between the
  removal of a file and the update of the cache.
-/
inductive Worker where
  | idle
  | retention (targets : List (Nat × Nat))
  | deletion (targets : List (Nat × Nat))
  | deleted (targets : List (Nat × Nat))
  | reset (phase : RemoveAll)
  deriving DecidableEq, Repr

/-
  The goroutine that holds `db.mu`. A sync writes the file
  one past the position that it has got. After `syncFailed`
  and `behindFailed` only the temporary file is left to be
  removed, and `syncUnknown` is after a failed rename.
-/
inductive Writer where
  | idle
  | syncPos
  | syncReady (pos : Nat)
  | syncTemp (pos : Nat)
  | syncFailed
  | syncUnknown
  | syncRenamed (txID : Nat)
  | syncRecorded
  | behindPos
  | behindRemove (info : FileInfo) (phase : RemoveAll)
  | behindFetch (info : FileInfo)
  | behindTemp (info : FileInfo)
  | behindFailed
  | behindRenamed
  deriving DecidableEq, Repr

/- Who has called `Pos`. -/
inductive Caller where
  | writer
  | other
  deriving DecidableEq, Repr

/-
  A call of `Pos` that holds the mutex: before it reads the
  directory, with the entries left and the best one so far,
  or with the content of the file that it has opened.
-/
inductive Scan (D : Type) where
  | begun
  | entries (todo : List (Nat × Nat)) (best : Nat × Nat)
  | opened (data : Bytes D)

structure State (D : Type) where
  l0 : List (LocalFile D)
  temp : Bool
  posCache : Option Nat
  pos : Option (Caller × Scan D)
  writer : Writer
  workers : Nat → Worker

/-
  What the replica delivers for one of its level-0 files,
  which is named after the TXIDs in its header.
-/
structure Remote (D : Type) where
  delivers : FileInfo → Bytes D → Prop
  proper : ∀ info data, delivers info data → 0 < info.minTXID ∧ info.minTXID ≤ info.maxTXID
  named : ∀ info data txID, delivers info data → data.verify = .ok txID → txID = info.maxTXID

-- Effects

/-
  What a step does. `remove` is an `os.Remove`, `unlink` one
  deletion of an `os.RemoveAll`. `record` sets the cached
  position and `invalidate` clears it. `abandon` does
  nothing: an `os.RemoveAll` fails that has removed a file.
-/
inductive Effect (D : Type) where
  | none
  | remove (name : Nat × Nat)
  | unlink (name : Nat × Nat)
  | createTemp
  | removeTemp
  | rename (file : LocalFile D)
  | invalidate
  | record (txID : Nat)
  | abandon

/- The cache is updated under its mutex. -/
def State.Allows (s : State D) : Effect D → Prop
| .remove name => name ∈ names s.l0
| .unlink name => name ∈ names s.l0
| .rename _ => s.temp = true
| .invalidate => s.pos = none
| .record _ => s.pos = none
| _ => True

def State.apply (s : State D) : Effect D → State D
| .none => s
| .remove name => { s with l0 := without name s.l0 }
| .unlink name => { s with l0 := without name s.l0 }
| .createTemp => { s with temp := true }
| .removeTemp => { s with temp := false }
| .rename file => { s with l0 := placed file s.l0, temp := false }
| .invalidate => { s with posCache := none }
| .record txID => { s with posCache := some txID }
| .abandon => s

-- Deletions

/-
  One operation of `os.RemoveAll` on the level-0 directory.
  The directory itself can be removed only when nothing is
  in it. The answer `none` is an error.
-/
inductive RemoveAll.Step (s : State D) : RemoveAll → Effect D → Option RemoveAll → Prop where
  | unlink {phase} (name : Nat × Nat) (hOpen : phase ≠ .done) :
    RemoveAll.Step s phase (.unlink name) (some .unlinking)
  | unlinkTemp {phase} (hOpen : phase ≠ .done) : RemoveAll.Step s phase .removeTemp (some phase)
  | finish {phase} (hOpen : phase ≠ .done) (hEmpty : s.l0 = []) (hTemp : s.temp = false) :
    RemoveAll.Step s phase .none (some .done)
  | fail : RemoveAll.Step s .begun .none none
  | abandon : RemoveAll.Step s .unlinking .abandon none

/-
  One step of a worker. The targets come from a listing of
  the replica and can be any files. A removal that fails is
  logged, and the loop goes on.
-/
inductive Worker.Step (s : State D) : Worker → Effect D → Worker → Prop where
  | startRetention (targets : List (Nat × Nat)) (hSome : targets ≠ []) :
    Worker.Step s .idle .none (.retention targets)
  | removeExpired (name : Nat × Nat) (targets : List (Nat × Nat)) :
    Worker.Step s (.retention (name :: targets)) (.remove name) (.retention targets)
  | keepExpired (name : Nat × Nat) (targets : List (Nat × Nat)) :
    Worker.Step s (.retention (name :: targets)) .none (.retention targets)
  | endRetention : Worker.Step s (.retention []) .invalidate .idle
  | startDeletion (targets : List (Nat × Nat)) : Worker.Step s .idle .none (.deletion targets)
  | removeLocal (name : Nat × Nat) (targets : List (Nat × Nat)) :
    Worker.Step s (.deletion (name :: targets)) (.remove name) (.deleted targets)
  | missingLocal (name : Nat × Nat) (targets : List (Nat × Nat)) (hMissing : name ∉ names s.l0) :
    Worker.Step s (.deletion (name :: targets)) .none (.deleted targets)
  | failLocal (name : Nat × Nat) (targets : List (Nat × Nat)) :
    Worker.Step s (.deletion (name :: targets)) .none (.deletion targets)
  | invalidateLocal (targets : List (Nat × Nat)) :
    Worker.Step s (.deleted targets) .invalidate (.deletion targets)
  | endDeletion : Worker.Step s (.deletion []) .none .idle
  | startReset : Worker.Step s .idle .none (.reset .begun)
  | removeAll {phase phase' e} (hStep : RemoveAll.Step s phase e (some phase')) :
    Worker.Step s (.reset phase) e (.reset phase')
  | failReset {phase e} (hStep : RemoveAll.Step s phase e none) :
    Worker.Step s (.reset phase) e .idle
  | endReset : Worker.Step s (.reset .done) .invalidate .idle

-- Writes

/-
  One step of the writer. From `syncReady` on come `Stat`,
  the WAL reader, its page map and the temporary file, each
  of which can fail, and with nothing to write `sync` stops
  too. The encoder's position is that of the new file.
-/
inductive Writer.Step (remote : Remote D) (s : State D) : Writer → Effect D → Writer → Prop where
  | startSync : Writer.Step remote s .idle .none .syncPos
  | stopSync (pos : Nat) : Writer.Step remote s (.syncReady pos) .none .idle
  | openTemp (pos : Nat) : Writer.Step remote s (.syncReady pos) .createTemp (.syncTemp pos)
  | failWrite (pos : Nat) : Writer.Step remote s (.syncTemp pos) .none .syncFailed
  | rename (pos : Nat) (layer : PageHistory.Layer D) : Writer.Step remote s (.syncTemp pos)
    (.rename ⟨pos + 1, pos + 1, .ltx (pos + 1) layer⟩)
    (.syncRenamed (pos + 1))
  | failRename (pos : Nat) : Writer.Step remote s (.syncTemp pos) .none .syncUnknown
  | invalidate : Writer.Step remote s .syncUnknown .invalidate .syncFailed
  | cleanUp : Writer.Step remote s .syncFailed .removeTemp .idle
  | failCleanUp : Writer.Step remote s .syncFailed .none .idle
  | record (txID : Nat) : Writer.Step remote s (.syncRenamed txID) (.record txID) .syncRecorded
  | endSync : Writer.Step remote s .syncRecorded .none .idle
  | startBehind : Writer.Step remote s .idle .none .behindPos
  | removeAll (info : FileInfo) {phase phase' e} (hStep : RemoveAll.Step s phase e (some phase')) :
    Writer.Step remote s (.behindRemove info phase) e (.behindRemove info phase')
  | failRemoveAll (info : FileInfo) {phase e} (hStep : RemoveAll.Step s phase e none) :
    Writer.Step remote s (.behindRemove info phase) e .idle
  | invalidateRemoved (info : FileInfo) :
    Writer.Step remote s (.behindRemove info .done) .invalidate (.behindFetch info)
  | failFetch (info : FileInfo) : Writer.Step remote s (.behindFetch info) .none .idle
  | createTemp (info : FileInfo) :
    Writer.Step remote s (.behindFetch info) .createTemp (.behindTemp info)
  | failCopy (info : FileInfo) : Writer.Step remote s (.behindTemp info) .none .behindFailed
  | renameFetched (info : FileInfo) (data : Bytes D) (hDelivers : remote.delivers info data) :
    Writer.Step remote s (.behindTemp info)
      (.rename ⟨info.minTXID, info.maxTXID, data⟩) .behindRenamed
  | cleanUpFetch : Writer.Step remote s .behindFailed .removeTemp .idle
  | failCleanUpFetch : Writer.Step remote s .behindFailed .none .idle
  | invalidateFetched : Writer.Step remote s .behindRenamed .invalidate .idle

-- Reading The Position

/-
  One operation of `Pos` under the mutex: the listing, the
  `Info` of an entry, which finds whether it is still
  there, and the opening of the best one.
-/
inductive Scan.Step (l0 : List (LocalFile D)) : Scan D → Scan D → Prop where
  | readDir : Scan.Step l0 .begun (.entries (names l0) (0, 0))
  | found (name best : Nat × Nat) (todo : List (Nat × Nat)) (hFound : name ∈ names l0) :
    Scan.Step l0 (.entries (name :: todo) best)
      (.entries todo (if best.2 < name.2 then name else best))
  | missing (name best : Nat × Nat) (todo : List (Nat × Nat)) (hMissing : name ∉ names l0) :
    Scan.Step l0 (.entries (name :: todo) best) (.entries todo best)
  | openFile (file : LocalFile D) (hMem : file ∈ l0) (hSome : file.minTXID ≠ 0) :
    Scan.Step l0 (.entries [] (nameOf file)) (.opened file.data)

/-
  What `Pos` returns, and the position that it caches. Only
  the position of a file is cached.
-/
inductive Scan.Returns : Scan D → Option Nat → Option Nat → Prop where
  | zero (best : Nat × Nat) (hNone : best.1 = 0) : Scan.Returns (.entries [] best) (some 0) none
  | position (data : Bytes D) (txID : Nat) (hVerify : data.verify = .ok txID) :
    Scan.Returns (.opened data) (some txID) (some txID)
  | fail (scan : Scan D) : Scan.Returns scan none none

/-
  How the writer goes on with an answer of `Pos`, which is
  `none` for an error. The check does nothing when the
  replica cannot be listed, is empty or not ahead.
-/
inductive Writer.Receives : Writer → Option Nat → Writer → Prop where
  | sync (txID : Nat) : Writer.Receives .syncPos (some txID) (.syncReady txID)
  | failSync : Writer.Receives .syncPos none .idle
  | ahead (txID : Nat) : Writer.Receives .behindPos (some txID) .idle
  | behind (txID : Nat) (info : FileInfo) (hBehind : txID < info.maxTXID) :
    Writer.Receives .behindPos (some txID) (.behindRemove info .begun)
  | failBehind : Writer.Receives .behindPos none .idle

-- Runs

inductive Actor where
  | writer
  | worker (i : Nat)
  | pos
  deriving DecidableEq, Repr

/- One step of one goroutine. -/
inductive Step (remote : Remote D) (s : State D) : Actor → Effect D → State D → Prop where
  | writer {e w} (hStep : Writer.Step remote s s.writer e w) (hAllows : s.Allows e) :
    Step remote s .writer e { s.apply e with writer := w }
  | worker (i : Nat) {e w} (hStep : Worker.Step s (s.workers i) e w) (hAllows : s.Allows e) :
    Step remote s (.worker i) e { s.apply e with workers := Function.update s.workers i w }
  | cached {txID w} (hFree : s.pos = none) (hCached : s.posCache = some txID)
    (hReceives : Writer.Receives s.writer (some txID) w) :
    Step remote s .pos .none { s with writer := w }
  | lock (caller : Caller) (hFree : s.pos = none) (hNone : s.posCache = none)
    (hCaller : caller = .writer → s.writer = .syncPos ∨ s.writer = .behindPos) :
    Step remote s .pos .none { s with pos := some (caller, .begun) }
  | scan {caller scan scan'} (hScan : s.pos = some (caller, scan))
    (hStep : Scan.Step s.l0 scan scan') :
    Step remote s .pos .none { s with pos := some (caller, scan') }
  | returnOther {scan answer cache} (hScan : s.pos = some (.other, scan))
    (hReturns : Scan.Returns scan answer cache) :
    Step remote s .pos .none { s with pos := none, posCache := cache.or s.posCache }
  | returnWriter {scan answer cache w} (hScan : s.pos = some (.writer, scan))
    (hReturns : Scan.Returns scan answer cache) (hReceives : Writer.Receives s.writer answer w) :
    Step remote s .pos .none { s with pos := none, posCache := cache.or s.posCache, writer := w }

/- The steps of a run, with the state after each. -/
abbrev Trace (D : Type) :=
  List (Actor × Effect D × State D)

def Run (remote : Remote D) : State D → Trace D → Prop
| _, [] => True
| s, (a, e, s') :: rest => Step remote s a e s' ∧ Run remote s' rest

/- The state at the end of a run. -/
def final : State D → Trace D → State D
| s, [] => s
| _, (_, _, s') :: rest => final s' rest

-- What Is To Hold

/- No goroutine is at work on the directory. -/
def Quiet (s : State D) : Prop :=
  s.writer = .idle ∧ ∀ i, s.workers i = .idle

/-
  A cached position is the one that is decoded from the
  newest file, or zero without a file, and the files are
  consecutive.
-/
structure Truthful (s : State D) : Prop where
  position : ∀ txID, s.posCache = some txID → (s.l0 = [] ∧ txID = 0) ∨
    ∃ file, newest s.l0 = some file ∧ file.data.verify = .ok txID
  consecutive : Consecutive s.l0

def Writer.inSync : Writer → Bool
| .syncPos => true
| .syncReady _ => true
| .syncTemp _ => true
| .syncFailed => true
| .syncUnknown => true
| .syncRenamed _ => true
| .syncRecorded => true
| _ => false

/-
  The sync under way ends with the last of the steps, and
  does not return that it has written a file.
-/
def SyncFails : State D → Trace D → Prop
| _, [] => False
| s, [(_, _, s')] => s.writer.inSync = true ∧ s.writer ≠ .syncRecorded ∧ s'.writer = .idle
| _, (_, _, s') :: rest => s'.writer.inSync = true ∧ SyncFails s' rest

/- No step of the writer changes the directory. -/
def LeavesFiles : State D → Trace D → Prop
| _, [] => True
| s, (a, _, s') :: rest => (a = .writer → s'.l0 = s.l0) ∧ LeavesFiles s' rest

/- A file that can be decoded has the number in its name. -/
def Named (l0 : List (LocalFile D)) : Prop :=
  ∀ file ∈ l0, ∀ txID, file.data.verify = .ok txID → txID = file.maxTXID

/- The files tile a range, in the order of the list. -/
def Tiled (l0 : List (LocalFile D)) : Prop :=
  ∃ c, Tiles LocalFile.minTXID LocalFile.maxTXID c l0

/-
  A process starts with the files that an earlier one has
  left, and with an empty cache.
-/
structure Initial (s : State D) : Prop where
  quiet : Quiet s
  uncached : s.posCache = none
  unlocked : s.pos = none
  named : Named s.l0
  tiled : Tiled s.l0

-- Careful Steps

/-
  A file is removed only when no file before it is there.
  While a sync has renamed its file but not yet recorded
  the position, the cache is cleared only if that file is
  there. And `os.RemoveAll` does not fail once it has
  removed a file.
-/
def Careful (s : State D) : Effect D → Prop
| .remove name => ∀ file ∈ s.l0, name.1 ≤ file.minTXID
| .invalidate => ∀ txID, s.writer = .syncRenamed txID → (txID, txID) ∈ names s.l0
| .abandon => False
| _ => True

def CarefulRun : State D → Trace D → Prop
| _, [] => True
| s, (_, e, s') :: rest => Careful s e ∧ CarefulRun s' rest

end PositionCache

end Replicate
