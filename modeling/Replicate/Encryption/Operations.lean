import Replicate.Encryption.Sealing
import Mathlib.Logic.Relation

/-
  The operations of a database that write to its replica.

  Three paths lead to the client: the uploads of
  `Replica.Sync`, which the shutdown sync repeats, the
  snapshots of the database, and the compactor. The first
  two go through `Replica.WriteLTXFile`. The compactor has
  its own copy of the settings, which `DB.Open` makes
  together with the client, so that it cannot write before.

  An operation is a list of attempts, each with its own
  result and its calls of the client. Only the shutdown sync
  makes more than one.
-/

-- Compaction With A Client That May Fail

namespace Replicate

namespace Compactor

/- The upload of `Compact` and its answer. -/
def wrote (result : Except Err FileInfo) : Except Err FileInfo :=
  match result with
  | .error err => .error (.wrap "write ltx file" err)
  | .ok info => .ok info

/- The cache after the upload. -/
def cached (c : Compactor) (cache : Nat → Option FileInfo) (dstLevel : Nat)
    (result : Except Err FileInfo) :
    Nat → Option FileInfo :=
  match result with
  | .error _ => cache
  | .ok info => if c.cacheSetter then setCache cache dstLevel info else cache

/- `Compact` again, with the call that it hands over. -/
inductive HandsOver (c : Compactor) (env : CompactEnv) (s : CompactorState) (dstLevel : Nat) :
    Except Err FileInfo → CompactorState → List ClientCall → Prop where
  | encryptionRequired (hRequired : c.requireEncryption = true) (hNone : c.ageRecipients = []) :
    HandsOver c env s dstLevel (.error (.sentinel .encryptionRequired)) s []
  | notOpened {err} (hAllowed : ¬ (c.requireEncryption = true ∧ c.ageRecipients = []))
    (hOpen : c.openSources env s dstLevel = .error err) :
    HandsOver c env s dstLevel (.error err) { s with
      cache := (c.lookup env s dstLevel).2 } []
  | handed {rdrs received ended stored result s'}
    (hAllowed : ¬ (c.requireEncryption = true ∧ c.ageRecipients = []))
    (hOpen : c.openSources env s dstLevel = .ok rdrs)
    (hPipe : Pipe.Delivers (c.producer env rdrs) received ended)
    (hClient : (ClientCall.mk dstLevel (sourceRange rdrs).1 (sourceRange rdrs).2
      (env.merge rdrs).chunks.flatten received ended
      stored).Writes env.createdAt s result s') :
    HandsOver c env s dstLevel (wrote result) { s' with
      cache := c.cached (c.lookup env s dstLevel).2 dstLevel result }
      [⟨dstLevel, (sourceRange rdrs).1, (sourceRange rdrs).2,
        (env.merge rdrs).chunks.flatten, received, ended,
        stored⟩]

end Compactor

-- Syncing The Replica

/- A local level-0 file, and the answers of its upload. -/
structure Upload where
  txID : Nat
  file : Except Err (ByteReader UInt8 Err)
  env : SealEnv

namespace AgeConfig

/- The loop of `Replica.Sync` over the files to upload. -/
inductive Uploads (cfg : AgeConfig) : CompactorState → List Upload → Except Err Unit →
    CompactorState → List ClientCall → Prop where
  | done {s} : Uploads cfg s [] (.ok ()) s []
  | missing {s u rest err} (hFile : u.file = .error err) :
    Uploads cfg s (u :: rest) (.error err) s []
  | failed {s s' u rest rd err calls} (hFile : u.file = .ok rd)
    (hWrite : cfg.WritesLTXFile u.env s 0 u.txID u.txID rd (.error err) s' calls) :
    Uploads cfg s (u :: rest) (.error (.wrap "write ltx file" err)) s' calls
  | next {s s' s'' u rest rd info result calls later} (hFile : u.file = .ok rd)
    (hWrite : cfg.WritesLTXFile u.env s 0 u.txID u.txID rd (.ok info) s' calls)
    (hRest : Uploads cfg s' rest result s'' later) :
    Uploads cfg s (u :: rest) result s'' (calls ++ later)

/-
  `Replica.Sync`. The positions can fail before the loop, or
  select the files, which ones does not matter here.
-/
inductive Syncs (cfg : AgeConfig) (s : CompactorState) :
    Except Err (List Upload) → Except Err Unit → CompactorState → List ClientCall → Prop where
  | failed {err} : Syncs cfg s (.error err) (.error err) s []
  | looped {uploads result s' calls} (hUploads : cfg.Uploads s uploads result s' calls) :
    Syncs cfg s (.ok uploads) result s' calls

end AgeConfig

/- The result of an attempt, and what it handed over. -/
structure Attempt where
  result : Except Err Unit
  calls : List ClientCall

/-
  `syncReplicaWithRetry`: syncs until one succeeds, time is
  up or a signal interrupts it.
-/
inductive AgeConfig.Retries (cfg : AgeConfig) :
    CompactorState → List (Except Err (List Upload)) → Except Err Unit → CompactorState →
      List Attempt → Prop where
  | stopped {s err} : Retries cfg s [] (.error err) s []
  | synced {s s' selected calls} (hSync : cfg.Syncs s selected (.ok ()) s' calls) :
    Retries cfg s [selected] (.ok ()) s' [⟨.ok (), calls⟩]
  | retried {s s' s'' selected rest err result calls attempts}
    (hSync : cfg.Syncs s selected (.error err) s' calls)
    (hRest : Retries cfg s' rest result s'' attempts) :
    Retries cfg s (selected :: rest) result s'' (⟨.error err, calls⟩ :: attempts)

-- The Database

/-
  The compactor has a client after `DB.Open`. The objects
  and the cached infos are those of the replica.
-/
structure SealedDB where
  compactor : Option Compactor
  store : CompactorState

namespace SealedDB

inductive Op where
  | open
  | sync
  | replicaSync (selected : Except Err (List Upload))
  | shutdownSync (tries : List (Except Err (List Upload)))
  | snapshot (txID : Nat) (rd : Except Err (ByteReader UInt8 Err)) (env : SealEnv)
  | compact (dstLevel : Nat) (env : CompactEnv)

/- The settings that `DB.Open` copies. -/
def copied (cfg : AgeConfig) : Compactor where
  cacheGetter := true
  cacheSetter := true
  localFileOpener := true
  ageRecipients := cfg.ageRecipients
  ageIdentities := cfg.ageIdentities
  requireEncryption := cfg.requireEncryption

/- Only whether there is an error. -/
def outcome (result : Except Err FileInfo) : Except Err Unit :=
  result.map (fun _ => ())

/-
  Compacting into level 1 ends with the retention of level
  0, which may delete objects there.
-/
def Retains (dstLevel : Nat) (s s' : CompactorState) : Prop :=
  s' = s ∨ dstLevel = 1 ∧ ∀ level, (s'.objects level).Sublist (s.objects level)

/- A snapshot is cached as the newest of its level. -/
def snapshotCached (s : CompactorState) (result : Except Err FileInfo) : CompactorState :=
  match result with
  | .error _ => s
  | .ok info => { s with cache := Compactor.setCache s.cache 9 info }

/-
  The operations. `DB.Open` fails only before it copies the
  settings, and `DB.Sync` writes no more than local files.
-/
inductive Step (cfg : AgeConfig) :
    SealedDB → Op → Except Err Unit → List Attempt → SealedDB → Prop where
  | opened {db} : Step cfg db .open (.ok ()) []
    { db with compactor := some (copied cfg) }
  | notOpened {db err} : Step cfg db .open (.error err) [] db
  | syncRefused {db} (hRequired : cfg.requireEncryption = true) (hNone : cfg.ageRecipients = []) :
    Step cfg db .sync (.error (.sentinel .encryptionRequired)) [] db
  | synced {db result} (hAllowed :
    ¬ (cfg.requireEncryption = true ∧ cfg.ageRecipients = [])) :
      Step cfg db .sync result [] db
  | replicaSync {db selected result s' calls} (hSync : cfg.Syncs db.store selected result s' calls) :
    Step cfg db (.replicaSync selected) result [⟨result, calls⟩] { db with store := s' }
  | shutdownSync {db tries result s' attempts}
    (hRetries : cfg.Retries db.store tries result s' attempts) :
    Step cfg db (.shutdownSync tries) result attempts { db with store := s' }
  | snapshotNotRead {db txID env err} :
    Step cfg db (.snapshot txID (.error err) env) (.error err) [] db
  | snapshot {db txID rd env result s' calls}
    (hWrite : cfg.WritesLTXFile env db.store 9 1 txID rd result s' calls) :
    Step cfg db (.snapshot txID (.ok rd) env) (outcome result) [⟨outcome result, calls⟩]
      { db with store := snapshotCached s' result }
  | compactFailed {db c dstLevel env err s' calls} (hOpen : db.compactor = some c)
    (hHands : c.HandsOver env db.store dstLevel (.error err) s' calls) :
    Step cfg db (.compact dstLevel env) (.error err) [⟨.error err, calls⟩] { db with store := s' }
  | compacted {db c dstLevel env info s' s'' calls} (hOpen : db.compactor = some c)
    (hHands : c.HandsOver env db.store dstLevel (.ok info) s' calls)
    (hRetains : Retains dstLevel s' s'') :
    Step cfg db (.compact dstLevel env) (.ok ()) [⟨.ok (), calls⟩] { db with store := s'' }

/- The age writers of these uploads write ciphertexts. -/
def Sealing (age : AgeLibrary) (cfg : AgeConfig) (selected : Except Err (List Upload)) : Prop :=
  ∀ uploads, selected = .ok uploads → ∀ u ∈ uploads, ∀ rd ew, u.file = .ok rd →
    u.env.encrypt = .ok ew → ew.Seals age cfg.ageRecipients rd.pieces

/- The age writers of the operation write ciphertexts. -/
def Op.Honest (age : AgeLibrary) (cfg : AgeConfig) : Op → Prop
| .open => True
| .sync => True
| .replicaSync selected => Sealing age cfg selected
| .shutdownSync tries => ∀ selected ∈ tries, Sealing age cfg selected
| .snapshot _ opened env =>
  ∀ rd ew, opened = .ok rd → env.encrypt = .ok ew → ew.Seals age cfg.ageRecipients rd.pieces
| .compact _ env =>
  ∀ rdrs ew, env.encrypt = .ok ew → ew.Seals age cfg.ageRecipients (env.merge rdrs).chunks

/- The operation returns `ErrEncryptionRequired`, wrapped or not. -/
def IsRefusal (result : Except Err Unit) : Prop :=
  ∃ err, result = .error err ∧ err.is .encryptionRequired = true

/-
  A sync without recipients: its first file is refused,
  unless an earlier call fails or there is none to upload.
-/
def RefusesSync (result : Except Err Unit) : Except Err (List Upload) → Prop
| .error err => result = .error err
| .ok [] => result = .ok ()
| .ok (u :: _) =>
  match u.file with
  | .error err => result = .error err
  | .ok _ => IsRefusal result

/-
  What an operation without recipients returns. A sync may
  have nothing to write, a file may not be readable, and all
  else is refused. This holds for every try of the shutdown,
  which succeeds only if one has nothing to write.
-/
def Op.Refused (result : Except Err Unit) (attempts : List Attempt) : Op → Prop
| .open => True
| .sync => IsRefusal result
| .replicaSync selected => RefusesSync result selected
| .shutdownSync tries =>
  List.Forall₂ (fun selected attempt => RefusesSync attempt.result selected) tries attempts ∧
    (result = .ok () → .ok [] ∈ tries)
| .snapshot _ (.error err) _ => result = .error err
| .snapshot _ (.ok _) _ => IsRefusal result
| .compact _ _ => IsRefusal result

/- Any sequence of operations on a fresh database. -/
def Run (age : AgeLibrary) (cfg : AgeConfig) : SealedDB → SealedDB → Prop :=
  Relation.ReflTransGen fun db db' =>
    ∃ op result attempts, op.Honest age cfg ∧ Step cfg db op result attempts db'

end SealedDB

end Replicate
