import Replicate.DB.Init
import Replicate.LTX.Library
import Replicate.Compaction.Retention
import Mathlib.Logic.Relation

/-
  Runs of a database with its replica: syncs of the WAL to
  level-0 files, uploads of these files, compactions, L0
  retention, restarts and resets of the local state.

  A sync of the database appends one transaction. Which
  pages it holds is not modelled here: the state records as
  its lineage the transactions that the local numbering
  counts, and a sync continues it after the transaction of
  the local position. The image of the local database at
  its position is the replay of the lineage. The state also
  records from which level-0 files the compacted files were
  made.

  The cache of the compactor is left out, as it only repeats
  what the destination lists, and so is what a merge stores
  that fails part way.
-/

-- States

namespace Replicate

open PageHistory

variable {D : Type} {lib : LtxLibrary D}

/- The content of a file, decrypted if it is sealed. -/
def Bytes.decoded : Bytes D → Option (Layer D)
| .ltx _ layer => some layer
| .sealed plaintext => plaintext.decoded
| .damaged => none

/-
  A database with its replica. `replicaPos` is the position
  that the replica keeps, zero if it is unknown.
-/
structure SyncState (lib : LtxLibrary D) where
  db : LocalState D
  replica : Replica D
  replicaPos : Nat
  lineage : History lib
  compacted : List (Nat × Layer D)

/- The local level-0 file of a name. -/
def LocalState.file (db : LocalState D) (minTXID maxTXID : Nat) : Option (LocalFile D) :=
  db.l0.find? (fun file => file.minTXID == minTXID && file.maxTXID == maxTXID)

/- Store an object on the replica. -/
def Replica.put (r : Replica D) (level : Nat) (obj : Stored D) : Replica D :=
  { r with
    objects := fun l =>
      if l = level then putBy Stored.info obj (r.objects l) else r.objects l }

/- Delete objects of level 0. -/
def Replica.deleteL0 (r : Replica D) (gone : FileInfo → Bool) : Replica D :=
  { r with
    objects := fun l =>
      if l = 0 then (r.objects l).filter (fun obj => !gone obj.info) else r.objects l }

/- What the replica stores for some bytes. -/
def Replica.encrypted (r : Replica D) (data : Bytes D) : Bytes D :=
  if r.ageRecipients = [] then data else .sealed data

-- Syncing The Database

/-
  The end of `DB.sync`: the new file takes its place and
  its position is cached.
-/
def LocalState.write (db : LocalState D) (txID : Nat) (layer : Layer D) : LocalState D :=
  { db with
    l0 :=
      db.l0.filter (fun file => !(file.minTXID == txID && file.maxTXID == txID)) ++
        [⟨txID, txID, .ltx txID layer⟩],
    posCache := some txID }

/- No transactions yet. -/
def History.empty (lib : LtxLibrary D) : History lib where
  count := 0
  tx _ := ⟨0, fun _ => none⟩
  grows := ⟨by simp, by simp⟩
  within := by simp

/- `lineage'` continues `lineage` with one transaction. -/
def History.Continues (lineage lineage' : History lib) (txID : Nat) : Prop :=
  lineage'.count = txID + 1 ∧ ∀ t, 1 ≤ t → t ≤ txID → lineage'.tx t = lineage.tx t

-- Syncing The Replica

/-
  The answers of the calls that an upload makes. A write
  that fails may have stored the object all the same.
-/
structure UploadEnv where
  listFault : ListFault
  openLocal : Nat → Option Err
  writeErr : Nat → Option Err
  storedAnyway : Nat → Bool
  size : Nat → Int
  createdAt : Nat → Int

/- `Replica.uploadLTXFile` for one transaction. -/
def Replica.uploadLTXFile (r : Replica D) (env : UploadEnv) (db : LocalState D)
    (txID : Nat) : Option Err × Replica D :=
  match env.openLocal txID with
  | some err => (some (.wrap "open" err), r)
  | none =>
    match db.file txID txID with
    | none => (some (.wrap "open" (.sentinel .notExist)), r)
    | some file =>
      if r.requireEncryption ∧ r.ageRecipients = [] then
        (some (.wrap "write ltx file" (.sentinel .encryptionRequired)), r)
      else
        let stored :=
          r.put 0 ⟨⟨0, txID, txID, env.size txID, env.createdAt txID⟩, r.encrypted file.data⟩
        match env.writeErr txID with
        | none => (none, stored)
        | some err =>
          (some (.wrap "write ltx file" err), if env.storedAnyway txID then stored else r)

/-
  The loop of `Replica.Sync`: some number of uploads after
  the replica's position.
-/
def Replica.uploadFrom (env : UploadEnv) (db : LocalState D) :
    Nat → Nat → Replica D → Option Err × Nat × Replica D
| 0, pos, r => (none, pos, r)
| n + 1, pos, r =>
  match r.uploadLTXFile env db (pos + 1) with
  | (some err, r') => (some err, pos, r')
  | (none, r') => uploadFrom env db n (pos + 1) r'

def Replica.calcPos (r : Replica D) (fault : ListFault) : Except Err Nat :=
  match r.maxLTXFileInfo fault 0 with
  | .error err => .error (.wrap "max ltx file" err)
  | .ok info => .ok info.maxTXID

/- A `SyncStatus`. -/
structure SyncStatus where
  localTXID : Nat
  remoteTXID : Nat
  inSync : Bool
  deriving DecidableEq, Repr

namespace SyncState

/- The replica's position when `Sync` begins. -/
def knownPos (s : SyncState lib) (fault : ListFault) : Except Err Nat :=
  if s.replicaPos = 0 then
    match s.replica.calcPos fault with
    | .error err => .error (.wrap "calc pos" err)
    | .ok pos => .ok pos
  else .ok s.replicaPos

/- The end of a failed `Sync`, which clears the position. -/
def syncFailed (s : SyncState lib) (err : Err) : Option Err × SyncState lib :=
  (some err, { s with replicaPos := 0 })

/- `Replica.Sync`. -/
def replicaSync (env : UploadEnv) (s : SyncState lib) : Option Err × SyncState lib :=
  match s.knownPos env.listFault with
  | .error err => s.syncFailed err
  | .ok rpos =>
    match s.db.pos with
    | .error err => s.syncFailed (.wrap "cannot determine current position" err)
    | .ok dpos =>
      if dpos = 0 then s.syncFailed (.text "no position, waiting for data")
      else
        match Replica.uploadFrom env s.db.withPos (dpos - rpos) rpos s.replica with
        | (some err, _, r) =>
          syncFailed { s with
            db := s.db.withPos
            replica := r } err
        | (none, pos, r) =>
          (none, { s with
            db := s.db.withPos
            replica := r
            replicaPos := pos })

def syncStatus (s : SyncState lib) (fault : ListFault) : Except Err SyncStatus :=
  match s.db.pos with
  | .error err => .error (.wrap "local position" err)
  | .ok localPos =>
    match s.replica.calcPos fault with
    | .error err => .error (.wrap "remote position" err)
    | .ok remotePos => .ok ⟨localPos, remotePos, decide (0 < localPos ∧ localPos = remotePos)⟩

/- The image of the local database at its position. -/
def localImage (s : SyncState lib) (pos : Nat) : List D :=
  s.lineage.replay pos

-- Compaction

end SyncState

/- The answers of the calls that a compaction makes. -/
structure LevelEnv where
  openErr : FileInfo → Option Err
  decrypt : FileInfo → Option Err
  writeErr : Option Err
  storedAnyway : Bool
  size : Int
  createdAt : Int

namespace SyncState

/- The files of the source level that are not compacted. -/
def sources (s : SyncState lib) (dstLevel : Nat) : List (Stored D) :=
  (s.replica.objects (dstLevel - 1)).filter (fun obj =>
    decide (TXID.next (Compactor.maxInfo (s.replica.content dstLevel)).maxTXID ≤ obj.info.minTXID))

/- Open a source: a local level-0 file comes first. -/
def openSource (s : SyncState lib) (env : LevelEnv) (level : Nat)
    (info : FileInfo) : Except Err (Bytes D) :=
  match (if level = 0 then
    s.db.file info.minTXID info.maxTXID
    else
      none) with
  | some file => .ok file.data
  | none =>
    s.replica.openLTXFile (env.openErr info) (env.decrypt info) level info.minTXID info.maxTXID

/- Open a source and decode it. -/
def readSource (s : SyncState lib) (env : LevelEnv) (level : Nat)
    (obj : Stored D) : Except Err (Layer D) :=
  match s.openSource env level obj.info with
  | .error err => .error (.wrap "open ltx file" err)
  | .ok (.ltx _ layer) => .ok layer
  | .ok _ => .error (.text "invalid LTX file")

/- The state once a compacted file is stored. -/
def storeCompacted (s : SyncState lib) (env : LevelEnv) (dstLevel : Nat)
    (inputs : List (Stored D)) (layers : List (Layer D)) (out : Layer D) : SyncState lib :=
  let range := Compactor.sourceRange (inputs.map Stored.info)
  { s with
    replica :=
      s.replica.put dstLevel ⟨⟨dstLevel, range.1, range.2, env.size, env.createdAt⟩,
        s.replica.encrypted (.ltx range.2 out)⟩
    compacted :=
      if dstLevel = 1 then s.compacted ++ (inputs.zip layers).map (fun x => (x.1.info.maxTXID, x.2))
      else s.compacted }

/- `Compactor.Compact` on decoded files. -/
def compact (env : LevelEnv) (dstLevel : Nat) (s : SyncState lib) : Option Err × SyncState lib :=
  if s.replica.requireEncryption ∧ s.replica.ageRecipients = [] then
    (some (.sentinel .encryptionRequired), s)
  else if s.sources dstLevel = [] then (some (.sentinel .noCompaction), s)
  else
    match (s.sources dstLevel).mapM (s.readSource env (dstLevel - 1)) with
    | .error err => (some err, s)
    | .ok layers =>
      match lib.compact layers with
      | .error err => (some err, s)
      | .ok out =>
        let stored := s.storeCompacted env dstLevel (s.sources dstLevel) layers out
        match env.writeErr with
        | none => (none, stored)
        | some err => (some (.wrap "write ltx file" err), if env.storedAnyway then stored else s)

-- L0 Retention

end SyncState

/-
  The answers of the calls that L0 retention makes. A
  deletion that fails may have removed some objects, and
  local files that cannot be removed are only logged.
-/
structure RetentionEnv where
  l1Fault : ListFault
  l0Fault : ListFault
  threshold : Int
  modTime : FileInfo → Option Int
  retentionEnabled : Bool
  deleteErr : Option Err
  removed : FileInfo → Bool
  localRemoved : FileInfo → Bool

/- Remove the local copies of level-0 files. -/
def LocalState.removeL0 (db : LocalState D) (gone : List FileInfo) : LocalState D :=
  { db with
    l0 := db.l0.filter (fun file =>
      !gone.any (fun info => info.minTXID == file.minTXID && info.maxTXID == file.maxTXID)),
    posCache := none }

namespace SyncState

/- The files that L0 retention deletes, if it gets there. -/
def expiredL0 (s : SyncState lib) (env : RetentionEnv) : Except Err (List FileInfo) :=
  match ltxFiles s.replica.content env.l1Fault 1 0 with
  | .error err => .error (.wrap "fetch l1 files" err)
  | .ok l1 =>
    match l1.err with
    | some err => .error (.wrap "close l1 iterator" err)
    | none =>
      let maxL1 := Retention.maxL1TXID l1.items
      if maxL1 = 0 then .ok []
      else
        match ltxFiles s.replica.content env.l0Fault 0 0 with
        | .error err => .error (.wrap "fetch l0 files" err)
        | .ok l0 => .ok (Retention.expiredL0 maxL1 env.threshold env.modTime l0.items)

/- `DB.EnforceL0RetentionByTime`. -/
def enforceL0Retention (env : RetentionEnv) (s : SyncState lib) : Option Err × SyncState lib :=
  match s.expiredL0 env with
  | .error err => (some err, s)
  | .ok deleted =>
    if deleted = [] then (none, s)
    else if env.retentionEnabled then
      match env.deleteErr with
      | some err =>
        (some (.wrap "remove expired l0 files" err), { s with
          replica := s.replica.deleteL0 (fun info =>
            decide (info ∈ deleted) && env.removed info) })
      | none =>
        (none, { s with
          replica := s.replica.deleteL0 (fun info =>
            decide (info ∈ deleted))
          db := s.db.removeL0 (deleted.filter env.localRemoved) })
    else
      (none, { s with
        db := s.db.removeL0 (deleted.filter env.localRemoved) })

end SyncState

def LocalState.resetLocalState (removeErr : Option Err)
    (left : Nat → Nat → Bool) (db : LocalState D) : Option Err × LocalState D :=
  match removeErr with
  | some err => (some (.wrap "remove ltx directory" err), db.keepOnly left)
  | none => (none, db.clear)

-- Runs

namespace SyncState

/-
  The operations of a run. `write` stands for every call of
  `DB.sync` that writes a file, from `DB.Sync` or from a
  checkpoint, and `writeFailed` for one whose rename fails.
  `close` keeps the handle, a restart does not.
-/
inductive Op (lib : LtxLibrary D) where
  | init (env : InitEnv)
  | write (lineage : History lib)
  | writeFailed
  | replicaSync (env : UploadEnv)
  | compact (env : LevelEnv) (dstLevel : Nat)
  | retention (env : RetentionEnv)
  | close
  | restart
  | reset (removeErr : Option Err) (left : Nat → Nat → Bool)

/-
  One operation. A sync needs a descriptor and a position.
  There are fewer than `2 ^ 64` transactions.
-/
inductive Step : SyncState lib → Op lib → SyncState lib → Prop where
  | init (s : SyncState lib) (env : InitEnv) : Step s (.init env)
    { s with db := (s.db.init env s.replica).2 }
  | write {s lineage txID} (hReady : s.db.conn = .ready) (hPos : s.db.pos = .ok txID)
    (hRoom : txID + 2 < TXID.bound) (hNext : s.lineage.Continues lineage txID) :
    Step s (.write lineage) { s with
      db := s.db.write (TXID.next txID) (lineage.tx (TXID.next txID))
      lineage := lineage }
  | writeFailed (s : SyncState lib) : Step s .writeFailed
    { s with db := { s.db with posCache := none } }
  | replicaSync (s : SyncState lib) (env : UploadEnv) :
    Step s (.replicaSync env) (s.replicaSync env).2
  | compact (s : SyncState lib) (env : LevelEnv) {dstLevel} (hLevel : 1 ≤ dstLevel)
    (hBelow : dstLevel < snapshotLevel) :
    Step s (.compact env dstLevel) (s.compact env dstLevel).2
  | retention (s : SyncState lib) (env : RetentionEnv) :
    Step s (.retention env) (s.enforceL0Retention env).2
  | close (s : SyncState lib) : Step s .close { s with db := { s.db with conn := .closed } }
  | restart (s : SyncState lib) : Step s .restart { s with
    db := { s.db with conn := .closed, posCache := none }
    replicaPos := 0 }
  | reset (s : SyncState lib) (removeErr : Option Err) (left : Nat → Nat → Bool) :
    Step s (.reset removeErr left) { s with
      db := (s.db.resetLocalState removeErr left).2 }

/-
  A reset meets no open database, or an empty level 0 on
  the replica. Then the next TXIDs are taken from the
  replica before anything is numbered anew.
-/
def ResetMeetsNoData (s : SyncState lib) : Op lib → Prop
| .reset removeErr _ => s.replica.objects 0 = [] ∨ (s.db.conn ≠ .ready ∧ removeErr = none)
| _ => True

/-
  A run in which every step meets a condition on the state
  before it.
-/
def Run (allowed : SyncState lib → Op lib → Prop) : SyncState lib → SyncState lib → Prop :=
  Relation.ReflTransGen (fun s s' => ∃ op, allowed s op ∧ Step s op s')

/- A new database with an empty replica. -/
def fresh (lib : LtxLibrary D) (ageRecipients ageIdentities : List String)
    (requireEncryption : Bool) : SyncState lib where
  db := ⟨.closed, [], none⟩
  replica := ⟨fun _ => [], ageRecipients, ageIdentities, requireEncryption⟩
  replicaPos := 0
  lineage := History.empty lib
  compacted := []

end SyncState

end Replicate
