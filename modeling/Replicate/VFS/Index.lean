import Mathlib.Logic.Relation
import Replicate.LTX.Library
import Replicate.Restore.PlannerCorrectness

/-
  The page index of a `VFSFile` and the replica it follows.

  Opening the file builds the index from a restore plan. A
  poll reads the new files of level 0, then those of level
  1, and then applies what it read at once, to the index or,
  while a lock is held, to a pending map. Between these
  parts the replica may change, and the file may be locked
  and unlocked.

  Of a page's element only the file is kept, not the place
  inside it. Maps are lists of entries in which the first
  entry of a page counts, so copying a map over another one
  puts it in front.
-/

-- Page Maps

namespace Replicate

open PageHistory

variable {D : Type} {lib : LtxLibrary D}

/- The file of an `ltx.PageIndexElem`. -/
structure PageElem where
  level : Nat
  minTXID : Nat
  maxTXID : Nat
  deriving DecidableEq, Repr

/- A map from page numbers to elements. -/
abbrev PageMap := List (Nat × PageElem)

/- `FetchPageIndex`: the pages of a file. -/
def fetchPageIndex (info : FileInfo) (file : Layer D) : PageMap :=
  (List.range file.commit).filterMap (fun i =>
    if (file.page (i + 1)).isSome then some (i + 1, ⟨info.level, info.minTXID, info.maxTXID⟩)
    else none)

-- The Replica

/- The files of a replica, in the order of their names. -/
structure Published (D : Type) where
  objects : Nat → List (FileInfo × Layer D)
  uploaded : Nat

namespace Published

def empty : Published D where
  objects := fun _ => []
  uploaded := 0

def content (r : Published D) : Content :=
  fun level => (r.objects level).map Prod.fst

/- Append a file to a level. -/
def append (r : Published D) (level : Nat) (obj : FileInfo × Layer D) : Published D :=
  { r with
    objects := fun l =>
      if l = level then r.objects l ++ [obj] else r.objects l }

/- The end of level 1. -/
def l1End (r : Published D) : Nat :=
  IntervalChain.reach FileInfo.maxTXID 0 (r.content 1)

/- Read a file, if it is still there. -/
def fetch (r : Published D) (fetchErr : FileInfo → Option Err)
    (info : FileInfo) : Except Err (Layer D) :=
  match fetchErr info with
  | some err => .error (.wrap "fetch page index" err)
  | none =>
    match (r.objects info.level).find? (fun obj => decide (obj.1 = info)) with
    | some obj => .ok obj.2
    | none => .error (.wrap "fetch page index" (.sentinel .notExist))

/-
  What happens to the replica: the next transaction is
  uploaded, transactions that follow level 1 are compacted
  into it, or compacted files of level 0 are deleted. The
  label is the compacted file, if there is one.
-/
inductive Change (H : History lib) : Published D → Option FileInfo → Published D → Prop where
  | upload {r info} (hLevel : info.level = 0) (hMin : info.minTXID = r.uploaded + 1)
    (hMax : info.maxTXID = r.uploaded + 1) (hCount : r.uploaded + 1 ≤ H.count) :
    Change H r none { r.append 0 (info, H.tx (r.uploaded + 1)) with
      uploaded := r.uploaded + 1 }
  | compact {r inputs info out} (hInputs : ∀ x ∈ inputs, x ∈ r.objects 0)
    (hNonempty : inputs ≠ [])
    (hTiles : IntervalChain.Tiles FileInfo.minTXID FileInfo.maxTXID r.l1End (inputs.map Prod.fst))
    (hCompact : lib.compact (inputs.map Prod.snd) = .ok out) (hLevel : info.level = 1)
    (hMin : info.minTXID = (Compactor.sourceRange (inputs.map Prod.fst)).1)
    (hMax : info.maxTXID = (Compactor.sourceRange (inputs.map Prod.fst)).2) :
    Change H r (some info) (r.append 1 (info, out))
  | retain {r} (gone : FileInfo → Bool) (hGone :
    ∀ info, gone info = true → info.maxTXID ≤ r.l1End) :
      Change H r none { r with
        objects := fun l =>
          if l = 0 then (r.objects l).filter (fun obj => !gone obj.1) else r.objects l }

end Published

-- The File

/- The lock types of `sqlite3vfs`, in ascending order. -/
inductive LockType where
  | none
  | shared
  | reserved
  | pending
  | exclusive
  deriving DecidableEq, Repr

def LockType.rank : LockType → Nat
| .none => 0
| .shared => 1
| .reserved => 2
| .pending => 3
| .exclusive => 4

/- The fields of a `VFSFile` that its index depends on. -/
structure VFSFile where
  index : PageMap
  pending : PageMap
  pendingReplace : Bool
  pos : Nat
  maxTXID1 : Nat
  commit : Nat
  lockType : LockType
  writeEnabled : Bool
  inTransaction : Bool
  expectedTXID : Nat
  deriving DecidableEq, Repr

/- The `VFS` of a file: what its other files did. -/
structure SharedVFS where
  writtenByOther : Bool
  lastSyncedTXID : Nat

namespace VFSFile

/- `Lock` of a file without dirty pages. -/
def lock (vfs : Option SharedVFS) (elock : LockType) (f : VFSFile) : Except Err VFSFile :=
  if elock.rank < f.lockType.rank then .error (.text "invalid lock downgrade")
  else if LockType.reserved.rank ≤ elock.rank ∧ f.writeEnabled = false then
    .error (.text "attempt to write a readonly database")
  else if f.writeEnabled ∧ LockType.reserved.rank ≤ elock.rank ∧ f.inTransaction = false then
    match vfs with
    | some shared =>
      if shared.writtenByOther then .error (.text "database is locked")
      else if f.expectedTXID < shared.lastSyncedTXID then
        .ok { f with
          expectedTXID := shared.lastSyncedTXID
          pos := shared.lastSyncedTXID
          inTransaction := true
          lockType := elock }
      else
        .ok { f with
          inTransaction := true
          lockType := elock }
    | none => .ok { f with inTransaction := true, lockType := elock }
  else .ok { f with lockType := elock }

/- `Unlock`, which moves the pending map to the index. -/
def unlock (elock : LockType) (f : VFSFile) : Except Err VFSFile :=
  if elock ≠ .shared ∧ elock ≠ .none then .error (.text "invalid unlock target")
  else
    .ok { f with
      inTransaction := false
      lockType := elock
      index := if f.pendingReplace then f.pending else f.pending ++ f.index
      pending := []
      pendingReplace := false }

end VFSFile

-- Polling

/- The answers of the calls that polling a level makes. -/
structure PollEnv where
  listFault : ListFault
  fetchErr : FileInfo → Option Err

/- What polling a level returns. -/
structure LevelPoll where
  maxTXID : Nat
  index : PageMap
  commit : Nat
  replace : Bool
  deriving DecidableEq, Repr

/- The step of the loop for one file. -/
def LevelPoll.add (st : LevelPoll) (info : FileInfo) (file : Layer D) : LevelPoll :=
  let shrinks := decide (file.commit < st.commit)
  ⟨info.maxTXID, fetchPageIndex info file ++ (if shrinks then [] else st.index),
    file.commit, st.replace || shrinks⟩

/- The loop of `pollLevel` over the listed files. -/
def pollItems (fetch : FileInfo → Except Err (Layer D)) (level : Nat) :
    List FileInfo → LevelPoll → Except Err LevelPoll
| [], st => .ok st
| info :: items, st =>
  if info.minTXID ≠ TXID.next st.maxTXID then
    if level = 0 ∧ TXID.next st.maxTXID < info.minTXID then .ok st
    else .error (.text "non-contiguous ltx file")
  else
    match fetch info with
    | .error err => .error err
    | .ok file => pollItems fetch level items (st.add info file)

/-
  `pollLevel`. An error that ends the listing early is not
  looked at.
-/
def pollLevel (r : Published D) (env : PollEnv) (level prevMaxTXID baseCommit : Nat) :
    Except Err LevelPoll :=
  match ltxFiles r.content env.listFault level (TXID.next prevMaxTXID) with
  | .error err => .error (.wrap "ltx files" err)
  | .ok itr => pollItems (r.fetch env.fetchErr) level itr.items ⟨prevMaxTXID, [], baseCommit, false⟩

/- A poll once level 0 is read. -/
structure PolledL0 where
  l0 : LevelPoll
  maxTXID1 : Nat
  baseCommit : Nat
  newCommit : Nat
  deriving DecidableEq, Repr

/- A poll once level 1 is read as well. -/
structure PolledL1 where
  l0 : LevelPoll
  l1 : LevelPoll
  newCommit : Nat
  deriving DecidableEq, Repr

/- The part of `pollReplicaClient` that reads level 0. -/
def VFSFile.pollL0 (f : VFSFile) (r : Published D) (env : PollEnv) : Except Err PolledL0 :=
  match pollLevel r env 0 f.pos f.commit with
  | .error err => .error (.wrap "poll L0" err)
  | .ok l0 =>
    .ok ⟨l0, f.maxTXID1, if l0.replace ∨ l0.index ≠ [] then l0.commit else f.commit,
      if l0.replace then l0.commit else max f.commit l0.commit⟩

/- The part that reads level 1. -/
def PolledL0.pollL1 (s : PolledL0) (r : Published D) (env : PollEnv) : Except Err PolledL1 :=
  match pollLevel r env 1 s.maxTXID1 s.baseCommit with
  | .error err => .error (.wrap "poll L1" err)
  | .ok l1 => .ok ⟨s.l0, l1, if l1.replace then l1.commit else max s.newCommit l1.commit⟩

namespace PolledL1

/- The pages of level 1 are put over those of level 0. -/
def combined (s : PolledL1) : PageMap :=
  if s.l1.replace then s.l1.index else s.l1.index ++ s.l0.index

def replaceIndex (s : PolledL1) : Bool :=
  s.l0.replace || s.l1.replace

/- The position after the poll. -/
def pos (s : PolledL1) : Nat :=
  if s.l1.maxTXID < s.l0.maxTXID then s.l0.maxTXID else s.l1.maxTXID

end PolledL1

/- The end of `pollReplicaClient`, under the file's lock. -/
def VFSFile.applyPoll (f : VFSFile) (s : PolledL1) : VFSFile :=
  let locked := decide (LockType.shared.rank ≤ f.lockType.rank)
  { f with
    index :=
      if locked then f.index
      else if s.replaceIndex then s.combined
      else s.combined ++ f.index
    pending :=
      if locked then
        if s.replaceIndex then s.combined else s.combined ++ f.pending
      else f.pending
    pendingReplace := if locked then f.pendingReplace || s.replaceIndex else false
    commit :=
      if s.replaceIndex then s.newCommit
      else if s.combined ≠ [] ∧ f.commit < s.newCommit then s.newCommit
      else f.commit
    pos := s.pos
    maxTXID1 := s.l1.maxTXID }

-- Opening

/- The loop of `buildIndexMap`: the index and the commit. -/
def buildIndexMap (fetch : FileInfo → Except Err (Layer D)) (infos : List FileInfo) :
    Except Err (PageMap × Nat) :=
  infos.foldlM (fun (s : PageMap × Nat) info =>
    match fetch info with
    | .error err => .error err
    | .ok file => .ok (fetchPageIndex info file ++ s.1, file.commit))
    ([], 0)

def maxLevelTXID (infos : List FileInfo) (level : Nat) : Nat :=
  infos.foldl (fun txID info =>
    if info.level = level ∧ txID < info.maxTXID then info.maxTXID else txID)
    0

namespace VFSFile

/- `rebuildIndex` for a plan. -/
def rebuildIndex (f : VFSFile) (fetch : FileInfo → Except Err (Layer D))
    (infos : List FileInfo) : Except Err VFSFile :=
  match buildIndexMap fetch infos with
  | .error err => .error err
  | .ok (index, commit) =>
    let pos := (infos.getLast?.map FileInfo.maxTXID).getD 0
    .ok { f with
      index := index
      pending := []
      pendingReplace := false
      commit := commit
      pos := pos
      maxTXID1 := if maxLevelTXID infos 1 = 0 then pos else maxLevelTXID infos 1 }

/- `Open`, once there is a plan. -/
def openPlanned (f : VFSFile) (fetch : FileInfo → Except Err (Layer D))
    (infos : List FileInfo) : Except Err VFSFile :=
  let pos := (infos.getLast?.map FileInfo.maxTXID).getD 0
  rebuildIndex { f with
    expectedTXID := if f.writeEnabled then pos else f.expectedTXID }
    fetch infos

def openNewDatabase (f : VFSFile) : VFSFile :=
  { f with
    index := []
    pending := []
    pos := 0
    commit := 0
    expectedTXID := 0 }

/- A file before it is opened. -/
def new (writeEnabled : Bool) : VFSFile where
  index := []
  pending := []
  pendingReplace := false
  pos := 0
  maxTXID1 := 0
  commit := 0
  lockType := .none
  writeEnabled := writeEnabled
  inTransaction := false
  expectedTXID := 0

end VFSFile

-- Runs

/- How far a poll has come. -/
inductive PollPhase where
  | closed
  | idle
  | polledL0 (s : PolledL0)
  | polledL1 (s : PolledL1)
  deriving DecidableEq, Repr

/- The replica, the file and the poll that is going on. -/
structure VfsState (D : Type) where
  replica : Published D
  file : VFSFile
  phase : PollPhase

/- The kinds of steps. -/
inductive VfsOp where
  | change (compacted : Option FileInfo)
  | openFile
  | poll
  | apply (polled : PolledL1)
  | lock (vfs : Option SharedVFS) (elock : LockType)
  | unlock (elock : LockType)

namespace VfsState

def start (writeEnabled : Bool) : VfsState D where
  replica := Published.empty
  file := VFSFile.new writeEnabled
  phase := .closed

/-
  A step of the replica or of the file. A poll or an open
  that fails changes nothing but its phase.
-/
inductive Step (H : History lib) : VfsState D → VfsOp → VfsState D → Prop where
  | change {s compacted r} (hChange : Published.Change H s.replica compacted r) :
    Step H s (.change compacted) { s with replica := r }
  | openFile {s} {faults : Nat → ListFault} {fetchErr infos f} (hPhase : s.phase = .closed)
    (hPlan : calcRestorePlan (fun level =>
      ltxFiles s.replica.content (faults level) level 0)
        0 0 = .ok infos)
    (hOpen : s.file.openPlanned (s.replica.fetch fetchErr) infos = .ok f) :
    Step H s .openFile { s with file := f, phase := .idle }
  | openNew {s} {faults : Nat → ListFault} {err} (hPhase : s.phase = .closed)
    (hPlan : calcRestorePlan (fun level =>
      ltxFiles s.replica.content (faults level) level 0)
        0 0 = .error err)
    (hNone : err.is .txNotAvailable = true)
    (hWrite : s.file.writeEnabled = true) :
    Step H s .openFile { s with
      file := s.file.openNewDatabase
      phase := .idle }
  | pollL0 {s env polled} (hPhase : s.phase = .idle)
    (hPoll : s.file.pollL0 s.replica env = .ok polled) :
    Step H s .poll { s with phase := .polledL0 polled }
  | pollL1 {s env polled polled1} (hPhase : s.phase = .polledL0 polled)
    (hPoll : polled.pollL1 s.replica env = .ok polled1) :
    Step H s .poll { s with phase := .polledL1 polled1 }
  | abandon {s} (hPhase : s.phase ≠ .closed) : Step H s .poll { s with phase := .idle }
  | apply {s polled} (hPhase : s.phase = .polledL1 polled) :
    Step H s (.apply polled) { s with
      file := s.file.applyPoll polled
      phase := .idle }
  | lock {s vfs elock f} (hPhase : s.phase ≠ .closed) (hLock : s.file.lock vfs elock = .ok f) :
    Step H s (.lock vfs elock) { s with file := f }
  | unlock {s elock f} (hPhase : s.phase ≠ .closed) (hUnlock : s.file.unlock elock = .ok f) :
    Step H s (.unlock elock) { s with file := f }

/-
  A run in which every step meets a condition on the state
  before it.
-/
def Run (H : History lib) (allowed : VfsState D → VfsOp → Prop) : VfsState D → VfsState D → Prop :=
  Relation.ReflTransGen (fun s s' => ∃ op, allowed s op ∧ Step H s op s')

end VfsState

/-
  No transaction of the range of a compacted file writes a
  page that is cut off before the range ends.
-/
def History.KeepsPages (H : History lib) (info : FileInfo) : Prop :=
  ∀ t, info.minTXID ≤ t → t ≤ info.maxTXID → ∀ p,
    ((H.tx t).page p).isSome → p ≤ sizeAt H.tx info.maxTXID

/-
  When a poll is applied, no page of the level-1 files it
  read is written by a transaction between their end and
  the poll's position. A lock does not take over another
  position from a file of the same VFS.
-/
def LevelsInOrder (H : History lib) (s : VfsState D) : VfsOp → Prop
| .change (some info) => H.KeepsPages info
| .apply polled =>
  ∀ p, (polled.l1.index.lookup p).isSome →
    ∀ t, polled.l1.maxTXID < t → t ≤ polled.pos → (H.tx t).page p = none
| .lock (some shared) elock =>
  LockType.reserved.rank ≤ elock.rank → shared.lastSyncedTXID ≤ s.file.expectedTXID ∨
    shared.lastSyncedTXID = s.file.pos
| _ => True

end Replicate
