import Replicate.LTX.Library
import Replicate.Restore.FormatV3
import Replicate.Restore.PlannerLoop

/-
  `Replica.Restore`: plan, open, merge into a temporary
  file and rename it to the output path.

  A file of the file system is the list of its pages. The
  answers of all calls that the function makes are fields
  of `RestoreEnv`. Following a replica after the restore,
  and what a v0.3.x restore downloads, are answers too.
-/

-- Options, Environment And Outcome

namespace Replicate

open PageHistory

inductive IntegrityCheckMode where
  | none
  | quick
  | full
  | other (mode : Int)
  deriving DecidableEq, Repr

/- The options that `Restore` reads. -/
structure RestoreOptions where
  outputPath : String
  txID : Nat
  timestamp : Int
  follow : Bool
  integrityCheck : IntegrityCheckMode
  deriving DecidableEq, Repr

/- Files by path; a file is the list of its pages. -/
abbrev FileSystem (D : Type) := String → Option (List D)

namespace FileSystem

variable {D : Type}

def write (fs : FileSystem D) (path : String) (pages : List D) : FileSystem D :=
  fun q => if q = path then some pages else fs q

def remove (fs : FileSystem D) (path : String) : FileSystem D :=
  fun q => if q = path then none else fs q

end FileSystem

/- An open source: its content, or how reading it fails. -/
abbrev Reader (D : Type) := Except Err (Layer D)

/- The answers of the v0.3.x calls. -/
structure RestoreEnvV3 (D : Type) where
  bounds : ClientV3
  files : Listing
  choice : ClientV3
  snapshots : Except Err FileIterator
  restore : ClientV3
  mkdir : Option Err
  download : Option Err
  apply : Except Err (List D)
  rename : Option Err

/- The answers of the calls that `Restore` makes. -/
structure RestoreEnv (D : Type) where
  stat : Option Err
  readTXIDFile : Except Err Nat
  followSnapshots : Except Err FileIterator
  v3 : Option (RestoreEnvV3 D)
  files : Listing
  openLTXFile : FileInfo → Except Err (Reader D)
  mkdir : Option Err
  create : Option Err
  partialPages : List D
  sync : Option Err
  close : Option Err
  rename : Option Err
  integrity : Option Err
  canceled : Bool
  writeTXIDFile : Option Err
  follow : Nat → List D → Option Err × List D

/-
  The returned error, the file system afterwards, and
  whether the output was renamed into place.
-/
structure RestoreOutcome (D : Type) where
  err : Option Err
  fs : FileSystem D
  renamed : Bool

namespace RestoreOutcome

variable {D : Type}

/- Return an error without touching the output path. -/
def fail (fs : FileSystem D) (err : Err) : RestoreOutcome D :=
  ⟨some err, fs, false⟩

end RestoreOutcome

-- Checks Before The Plan

/- The validation of the options. -/
def validateOptions (opt : RestoreOptions) : Option Err :=
  if opt.outputPath = "" then some (.text "output path required")
  else if opt.txID ≠ 0 ∧ opt.timestamp ≠ 0 then
    some (.text "cannot specify index & timestamp to restore")
  else if opt.follow ∧ opt.txID ≠ 0 then some (.text "cannot use follow mode with -txid")
  else if opt.follow ∧ opt.timestamp ≠ 0 then some (.text "cannot use follow mode with -timestamp")
  else
    match opt.integrityCheck with
    | .other mode => some (.text ("unsupported integrity check mode: " ++ toString mode))
    | _ => none

section

variable {D : Type}

/- The follow loop on an existing file. -/
def runFollow (env : RestoreEnv D) (opt : RestoreOptions) (fs : FileSystem D)
    (txid : Nat) (renamed : Bool) : RestoreOutcome D :=
  match fs opt.outputPath with
  | none => ⟨some (.wrap "open database for follow" (.sentinel .notExist)), fs, renamed⟩
  | some pages =>
    let out := env.follow txid pages
    ⟨out.1, fs.write opt.outputPath out.2, renamed⟩

/- The messages of a follower that cannot catch up. -/
def followBehind (txid : Nat) (snap : FileInfo) (path : String) : Err :=
  .text ("cannot resume follow mode: saved TXID " ++ TXID.format txid ++
    " is behind the earliest snapshot (min TXID " ++
    TXID.format snap.minTXID ++
    "); replica history has been pruned -- delete " ++
    path ++ " and " ++ path ++ "-txid to re-restore")

def followAhead (txid : Nat) (snap : FileInfo) (path : String) : Err :=
  .text ("cannot resume follow mode: saved TXID " ++ TXID.format txid ++
    " is ahead of latest snapshot (max TXID " ++
    TXID.format snap.maxTXID ++ "); delete " ++
    path ++ " and " ++ path ++ "-txid to re-restore")

/- Resume following a file that exists already. -/
def resumeFollow (env : RestoreEnv D) (opt : RestoreOptions)
    (fs : FileSystem D) : RestoreOutcome D :=
  match env.readTXIDFile with
  | .error err => .fail fs (.wrap "read txid file for crash recovery" err)
  | .ok 0 =>
    .fail fs (.text ("cannot resume follow mode: database exists but " ++
      "no -txid file found; delete the database to " ++
      "re-restore: " ++ opt.outputPath))
  | .ok txid =>
    match env.followSnapshots with
    | .error err => .fail fs (.wrap "cannot validate saved TXID for crash recovery" err)
    | .ok itr =>
      match itr.err with
      | some err => .fail fs (.wrap ("iterate snapshots for crash recovery " ++ "validation") err)
      | none =>
        match itr.items.getLast? with
        | none => runFollow env opt fs txid false
        | some snap =>
          if txid < snap.minTXID then .fail fs (followBehind txid snap opt.outputPath)
          else if snap.maxTXID < txid then .fail fs (followAhead txid snap opt.outputPath)
          else runFollow env opt fs txid false

/-
  The integrity check of the renamed output. A failed check
  removes it, unless the check was cancelled.
-/
def checkRestored (env : RestoreEnv D) (opt : RestoreOptions)
    (fs : FileSystem D) : RestoreOutcome D :=
  if opt.integrityCheck = .none then ⟨none, fs, true⟩
  else
    match env.integrity with
    | none => ⟨none, fs, true⟩
    | some err =>
      ⟨some (.wrap "post-restore integrity check" err), if env.canceled then
        fs
        else
          ((fs.remove opt.outputPath).remove (opt.outputPath ++ "-shm")).remove
            (opt.outputPath ++ "-wal"),
        true⟩

/-
  The v0.3.x snapshot to restore. Without any generation or
  snapshot, or none old enough, there is none.
-/
def selectSnapshotV3 (client : ClientV3) (timestamp : Int) : Except Err SnapshotInfoV3 :=
  match client.generations with
  | .error err => .error (.wrap "list generations" err)
  | .ok generations =>
    match allSnapshotsV3 client generations (fun gen => "list snapshots for generation " ++ gen)
      with
    | .error err => .error err
    | .ok all =>
      match findBestSnapshotV3 all timestamp with
      | none => .error (.sentinel .noSnapshots)
      | some snap => .ok snap

/-
  The pages that `RestoreV3` renames to the output path,
  after the checks of the options and of the output path
  that `Restore` has made already.
-/
def buildV3 (env : RestoreEnvV3 D) (timestamp : Int) : Except Err (List D) := do
  let snap ← selectSnapshotV3 env.restore timestamp
  match env.restore.walSegments snap.generation with
  | .error err => .error (.wrap "list WAL segments" err)
  | .ok _ =>
    match env.mkdir with
    | some err => .error (.wrap "create parent directory" err)
    | none =>
      match env.download with
      | some err => .error (.wrap "download snapshot" err)
      | none =>
        match env.apply with
        | .error err => .error (.wrap "apply WAL segments" err)
        | .ok pages =>
          match env.rename with
          | some err => .error (.wrap "rename to output path" err)
          | none => .ok pages

/- `RestoreV3`. Its temporary file is always removed. -/
def restoreV3 (env : RestoreEnv D) (v3 : RestoreEnvV3 D) (opt : RestoreOptions)
    (fs : FileSystem D) : RestoreOutcome D :=
  let clean := fs.remove (opt.outputPath ++ ".tmp")
  match buildV3 v3 opt.timestamp with
  | .error err => .fail clean err
  | .ok pages => checkRestored env opt (clean.write opt.outputPath pages)

-- The LTX Restore

/- `ltx.HeaderSize`, the size of an LTX file's header. -/
def ltxHeaderSize : Int := 100

/- Check the size of a planned file and open it. -/
def openPlanned (env : RestoreEnv D) (info : FileInfo) : Except Err (Reader D) :=
  if info.size < ltxHeaderSize then
    .error (.text ("invalid ltx file: level=" ++ toString info.level ++
      " min=" ++ TXID.format info.minTXID ++
      " max=" ++ TXID.format info.maxTXID ++
      " has size " ++ toString info.size ++
      " bytes (minimum " ++ toString ltxHeaderSize ++ ")"))
  else
    match env.openLTXFile info with
    | .error err => .error (.wrap "open ltx file" err)
    | .ok rd => .ok rd

/- Read an open source to its end. -/
def readSource (rd : Reader D) : Except Err (Layer D) := rd

/-
  Merge the sources and decode the result. An error of the
  merge reaches the decoder through the pipe, which is
  closed with that error.
-/
def decodeDatabase (lib : LtxLibrary D) (rdrs : List (Reader D)) : Except Err (List D) := do
  let files ← rdrs.mapM readSource
  let merged ← lib.compact files
  lib.decodeDatabaseTo merged

/-
  The steps before the temporary file is filled: plan, open
  the planned files and create the temporary file.
-/
def prepareRestore (env : RestoreEnv D) (opt : RestoreOptions) :
    Except Err (List FileInfo × List (Reader D)) := do
  let infos ← (calcRestorePlan env.files opt.txID opt.timestamp).mapError
    (Err.wrap "cannot calc restore plan")
  let rdrs ← infos.mapM (openPlanned env)
  if rdrs.isEmpty then .error (.text "no matching backup files available")
  else
    failOn "create parent directory" env.mkdir
    failOn "create temp database path" env.create
    return (infos, rdrs)

/-
  The part of the restore that ends with the rename: the
  last TXID of the plan, or the error, and the file system.
-/
def restoreLTX (lib : LtxLibrary D) (env : RestoreEnv D) (opt : RestoreOptions)
    (fs : FileSystem D) :
    Except Err Nat × FileSystem D :=
  let tmp := opt.outputPath ++ ".tmp"
  match prepareRestore env opt with
  | .error err => (.error err, fs)
  | .ok (infos, rdrs) =>
    match decodeDatabase lib rdrs with
    | .error err => (.error (.wrap "decode database" err), fs.write tmp env.partialPages)
    | .ok pages =>
      match (env.sync.or env.close).or env.rename with
      | some err => (.error err, fs.write tmp pages)
      | none =>
        (.ok (maxTXIDOf infos), ((fs.write tmp pages).remove tmp).write opt.outputPath pages)

/- Whether to restore from the v0.3.x format. -/
def chooseV3 (env : RestoreEnv D) (opt : RestoreOptions) : Except Err (Option (RestoreEnvV3 D)) :=
  if opt.txID = 0 ∧ opt.follow = false then
    match env.v3 with
    | none => .ok none
    | some v3 =>
      match shouldUseV3Restore v3.bounds v3.files v3.choice v3.snapshots opt.timestamp with
      | .error err => .error err
      | .ok true => .ok (some v3)
      | .ok false => .ok none
  else .ok none

def restore (lib : LtxLibrary D) (env : RestoreEnv D) (opt : RestoreOptions)
    (fs : FileSystem D) : RestoreOutcome D :=
  match validateOptions opt with
  | some err => .fail fs err
  | none =>
    if opt.follow = true ∧ env.stat = none ∧ (fs opt.outputPath).isSome then resumeFollow env opt fs
    else
      match env.stat with
      | some err => .fail fs err
      | none =>
        if (fs opt.outputPath).isSome then
          .fail fs (.text ("cannot restore, output path already " ++ "exists: " ++ opt.outputPath))
        else
          match chooseV3 env opt with
          | .error err => .fail fs err
          | .ok (some v3) => restoreV3 env v3 opt fs
          | .ok none =>
            match restoreLTX lib env opt fs with
            | (.error err, fs) => .fail fs err
            | (.ok maxTXID, fs) =>
              let out := checkRestored env opt fs
              if out.err = none ∧ opt.follow = true then
                match env.writeTXIDFile with
                | some err => ⟨some (.wrap "write initial txid file" err), out.fs, true⟩
                | none => runFollow env opt out.fs maxTXID true
              else out

end

end Replicate
