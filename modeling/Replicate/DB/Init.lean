import Replicate.Compaction.Compact
import Replicate.Lib.PageHistory

/-
  `DB.init` and its check that the local state is not
  behind the replica.

  A local state is the connection and the level-0 files
  with the cached position. The check compares the local
  position with the end of the replica's level 0. If the
  local one is less, it replaces the level-0 files by a
  copy of the replica's newest one.

  The bytes of a file are an LTX file with the TXID of its
  header, a sealed file, or neither. The answers of the
  operating system, SQLite and the replica client are the
  fields of `InitEnv`.

  Main declarations:
    * `next_txid_unused_iff`
    * `next_txid_reused`
-/

-- Files

namespace Replicate

open Compactor TXID PageHistory

variable {D : Type}

/-
  The bytes of a file as an LTX decoder sees them: a valid
  LTX file, an age ciphertext, or anything else.
-/
inductive Bytes (D : Type) where
  | ltx (maxTXID : Nat) (layer : Layer D)
  | sealed (plaintext : Bytes D)
  | damaged

/-
  `Decoder.Verify` and then `PostApplyPos`, which is the
  header's greatest TXID.
-/
def Bytes.verify : Bytes D → Except Err Nat
| .ltx maxTXID _ => .ok maxTXID
| .sealed _ => .error (.text "invalid LTX file")
| .damaged => .error (.text "invalid LTX file")

/- A file of the local level-0 directory. -/
structure LocalFile (D : Type) where
  minTXID : Nat
  maxTXID : Nat
  data : Bytes D

/- An object of the replica. -/
structure Stored (D : Type) where
  info : FileInfo
  data : Bytes D

/- The replica: what it stores and its age configuration. -/
structure Replica (D : Type) where
  objects : Nat → List (Stored D)
  ageRecipients : List String
  ageIdentities : List String
  requireEncryption : Bool

/- The metadata of the objects, level by level. -/
def Replica.content (r : Replica D) : Content :=
  fun level => (r.objects level).map Stored.info

-- The Local State

/-
  The connection of a DB. It is stuck when `init` opened
  the database and failed before it opened the descriptor:
  the cleanup is not yet deferred there, so the database
  handle stays set and the next `init` returns at once.
-/
inductive Conn where
  | closed
  | stuck
  | ready
  deriving DecidableEq, Repr

/- The fields of a DB that count for its numbering. -/
structure LocalState (D : Type) where
  conn : Conn
  l0 : List (LocalFile D)
  posCache : Option Nat

/-
  `DB.MaxLTX`: the file whose name the scan returns, the
  first one with the greatest end.
-/
def newest (files : List (LocalFile D)) : Option (LocalFile D) :=
  files.foldl (fun best file =>
    if (best.elim 0 LocalFile.maxTXID) < file.maxTXID then some file else best)
    none

/- `DB.Pos`. A zero position means no replication yet. -/
def LocalState.pos (db : LocalState D) : Except Err Nat :=
  match db.posCache with
  | some txID => .ok txID
  | none =>
    match newest db.l0 with
    | none => .ok 0
    | some file =>
      if file.minTXID = 0 then .ok 0
      else
        match file.data.verify with
        | .ok txID => .ok txID
        | .error _ => .error (.wrap "verify" (.sentinel .ltxCorrupted))

/-
  The state after a call of `Pos`, which caches the
  position that it read from a file.
-/
def LocalState.withPos (db : LocalState D) : LocalState D :=
  match newest db.l0, db.pos with
  | some file, .ok txID => if file.minTXID = 0 then db else { db with posCache := some txID }
  | _, _ => db

/- Clear the level-0 directory and the cached position. -/
def LocalState.clear (db : LocalState D) : LocalState D :=
  { db with l0 := [], posCache := none }

-- Reading The Replica

namespace Replica

def maxLTXFileInfo (r : Replica D) (fault : ListFault) (level : Nat) : Except Err FileInfo :=
  match ltxFiles r.content fault level 0 with
  | .error err => .error err
  | .ok itr =>
    match itr.err with
    | some err => .error err
    | none => .ok (maxInfo itr.items)

/- The stored object of a name. -/
def object (r : Replica D) (level minTXID maxTXID : Nat) : Option (Stored D) :=
  (r.objects level).find? (fun obj => obj.info.minTXID == minTXID && obj.info.maxTXID == maxTXID)

/-
  `Replica.OpenLTXFile`: what reading the object delivers.
  Only with identities is the object looked at, and only a
  sealed one is decrypted.
-/
def openLTXFile (r : Replica D) (openErr decryptErr : Option Err)
    (level minTXID maxTXID : Nat) : Except Err (Bytes D) :=
  match openErr with
  | some err => .error err
  | none =>
    match r.object level minTXID maxTXID with
    | none => .error (.sentinel .notExist)
    | some obj =>
      if r.ageIdentities = [] then .ok obj.data
      else
        match obj.data with
        | .sealed plaintext =>
          match decryptErr with
          | some err => .error (.wrap "age decrypt" err)
          | none => .ok plaintext
        | data => .ok data

end Replica

-- Initialisation

/-
  A failed `os.RemoveAll` leaves some of the files. The
  cached position is not dropped then.
-/
def LocalState.keepOnly (left : Nat → Nat → Bool) (db : LocalState D) : LocalState D :=
  { db with
    l0 := db.l0.filter (fun file => left file.minTXID file.maxTXID) }

/- What `os.Stat` says of the database file. -/
inductive DatabaseFile where
  | missing
  | failed (err : Err)
  | found
  deriving DecidableEq, Repr

/- The answers of the calls that `init` makes. -/
structure InitEnv where
  stat : DatabaseFile
  statDir : Option Err
  openPragma : Option Err
  setPersistWAL : Option Err
  openFile : Option Err
  journalMode : Except Err String
  readLock : Option Err
  pageSize : Except Err Int
  mkdirMeta : Option Err
  ensureWALExists : Option Err
  listFault : ListFault
  removeL0 : Option Err
  leftL0 : Nat → Nat → Bool
  mkdirL0 : Option Err
  openRemote : Option Err
  decrypt : Option Err
  createTmp : Option Err
  copy : Option Err
  syncTmp : Option Err
  closeTmp : Option Err
  rename : Option Err
  start : Option Err

/- The steps from the copy of an object to its rename. -/
def InitEnv.writeL0 (env : InitEnv) : Except Err Unit := do
  failOn "create temp L0 file" env.createTmp
  failOn "copy L0 file" env.copy
  failOn "sync L0 file" env.syncTmp
  failOn "close L0 file" env.closeTmp
  failOn "rename L0 file" env.rename

/-
  The rest of the check once the local state is found to
  be behind: clear the level, then fetch the newest file.
-/
def fetchBaseline (env : InitEnv) (r : Replica D) (info : FileInfo)
    (db : LocalState D) : Option Err × LocalState D :=
  match env.removeL0 with
  | some err => (some (.wrap "remove L0 directory" err), db.keepOnly env.leftL0)
  | none =>
    match env.mkdirL0 with
    | some err => (some (.wrap "recreate L0 directory" err), db.clear)
    | none =>
      match r.openLTXFile env.openRemote env.decrypt 0 info.minTXID info.maxTXID with
      | .error err => (some (.wrap "open remote L0 file" err), db.clear)
      | .ok data =>
        match env.writeL0 with
        | .error err => (some err, db.clear)
        | .ok () =>
          (none, { db with
            l0 := [⟨info.minTXID, info.maxTXID, data⟩],
            posCache := none })

def checkDatabaseBehindReplica (env : InitEnv) (r : Replica D)
    (db : LocalState D) : Option Err × LocalState D :=
  match db.pos with
  | .error err => (some (.wrap "get database position" err), db)
  | .ok dbPos =>
    match r.maxLTXFileInfo env.listFault 0 with
    | .error err => (some (.wrap "get replica position" err), db.withPos)
    | .ok info =>
      if info.maxTXID = 0 then (none, db.withPos)
      else if info.maxTXID ≤ dbPos then (none, db.withPos)
      else fetchBaseline env r info db.withPos

/- The steps of `init` after its cleanup is deferred. -/
def InitEnv.prepare (env : InitEnv) : Except Err Unit := do
  match env.journalMode with
  | .error err => .error err
  | .ok mode =>
    if mode ≠ "wal" then .error (.text s!"enable wal failed, mode={mode}")
  failOn "acquire read lock" env.readLock
  match env.pageSize with
  | .error err => .error (.wrap "read page size" err)
  | .ok size =>
    if size ≤ 0 then .error (.text s!"invalid db page size: {size}")
  match env.mkdirMeta with
  | some err => .error err
  | none => .ok ()
  failOn "ensure wal exists" env.ensureWALExists

/-
  `DB.init` for a DB with a replica: the error, if there is
  one, and the local state after it.
-/
def LocalState.init (env : InitEnv) (r : Replica D)
    (db : LocalState D) : Option Err × LocalState D :=
  if db.conn ≠ .closed then (none, db)
  else if r.requireEncryption ∧ r.ageRecipients = [] then (some (.sentinel .encryptionRequired), db)
  else
    match env.stat with
    | .missing => (none, db)
    | .failed err => (some err, db)
    | .found =>
      match env.statDir.or env.openPragma with
      | some err => (some err, db)
      | none =>
        match env.setPersistWAL with
        | some err => (some (.wrap "set PERSIST_WAL" err), { db with conn := .stuck })
        | none =>
          match env.openFile with
          | some err => (some (.wrap "open db file descriptor" err), { db with conn := .stuck })
          | none =>
            match env.prepare with
            | .error err => (some err, db)
            | .ok () =>
              match checkDatabaseBehindReplica env r db with
              | (some err, db') => (some (.wrap "check database behind replica" err), db')
              | (none, db') =>
                match env.start with
                | some err => (some (.wrap "start replica" err), db')
                | none =>
                  (none, { db' with
                    conn := .ready })

-- What A Successful Initialisation Leaves

/- The end of the replica's level 0. -/
def Replica.l0Max (r : Replica D) : Nat :=
  (maxInfo (r.content 0)).maxTXID

/- The newest object of the replica's level 0. -/
def Replica.newestL0 (r : Replica D) : Option (Stored D) :=
  r.object 0 (maxInfo (r.content 0)).minTXID (maxInfo (r.content 0)).maxTXID

/- Whether the bytes are a ciphertext. -/
def Bytes.isSealed : Bytes D → Bool
| .sealed _ => true
| _ => false

/-
  The level-0 objects are as this program uploads them: an
  LTX file that ends at the TXID of its name, sealed or
  not.
-/
def Replica.UploadedL0 (r : Replica D) : Prop :=
  ∀ obj ∈ r.objects 0, 1 ≤ obj.info.minTXID ∧ ∃ layer, obj.data = .ltx obj.info.maxTXID layer ∨
    obj.data = .sealed (.ltx obj.info.maxTXID layer)

section Success

variable {env : InitEnv} {r : Replica D} {db db' : LocalState D}
variable {level : Nat} {info : FileInfo} {minTXID maxTXID : Nat}

@[simp] theorem LocalState.pos_withPos (db : LocalState D) : db.withPos.pos = db.pos := by
  unfold withPos
  split
  · rename_i file txID hNewest hPos
    split
    · rfl
    · rw [hPos]
      rfl
  · rfl

@[simp] theorem LocalState.pos_conn (db : LocalState D) (conn : Conn) :
    LocalState.pos { db with conn := conn } = db.pos := rfl

theorem Replica.maxLTXFileInfo_ok {fault} (hInfo : r.maxLTXFileInfo fault level = .ok info) :
    info = maxInfo (r.content level) := by
  unfold maxLTXFileInfo ltxFiles at hInfo
  cases fault with
  | none => simpa using hInfo.symm
  | call | read => simp at hInfo

theorem fetchBaseline_ok (hFetch : fetchBaseline env r info db = (none, db')) :
    ∃ data, r.openLTXFile env.openRemote env.decrypt 0 info.minTXID info.maxTXID = .ok data ∧
      db' = { db with
        l0 := [⟨info.minTXID, info.maxTXID, data⟩],
        posCache := none } := by
  unfold fetchBaseline at hFetch
  split at hFetch
  · simp at hFetch
  split at hFetch
  · simp at hFetch
  split at hFetch
  · simp at hFetch
  · rename_i data hOpen
    split at hFetch
    · simp at hFetch
    · rw [Prod.mk.injEq] at hFetch
      exact ⟨data, hOpen, hFetch.2.symm⟩

/-
  The check passes when the local position is not behind,
  or when the newest file could be fetched.
-/
theorem checkDatabaseBehindReplica_ok (hCheck : checkDatabaseBehindReplica env r db = (none, db')) :
    ∃ dbPos, db.pos = .ok dbPos ∧ (r.l0Max ≤ dbPos ∧ db' = db.withPos ∨
      dbPos < r.l0Max ∧ fetchBaseline env r (maxInfo (r.content 0)) db.withPos = (none, db')) := by
  unfold checkDatabaseBehindReplica at hCheck
  cases hPos : db.pos with
  | error err => simp [hPos] at hCheck
  | ok dbPos =>
    refine ⟨dbPos, rfl, ?_⟩
    simp only [hPos] at hCheck
    cases hInfo : r.maxLTXFileInfo env.listFault 0 with
    | error err => simp [hInfo] at hCheck
    | ok info =>
      simp only [hInfo] at hCheck
      rcases Replica.maxLTXFileInfo_ok hInfo with rfl
      unfold Replica.l0Max
      split at hCheck
      · rename_i hZero
        rw [Prod.mk.injEq] at hCheck
        exact Or.inl ⟨by omega, hCheck.2.symm⟩
      split at hCheck
      · rename_i hLe
        rw [Prod.mk.injEq] at hCheck
        exact Or.inl ⟨hLe, hCheck.2.symm⟩
      · rename_i hBehind
        exact Or.inr ⟨by omega, hCheck⟩

/-
  Initialising an existing database succeeds at once on an
  open connection, and otherwise only past the check.
-/
theorem LocalState.init_ok (hFound : env.stat = .found) (hInit : db.init env r = (none, db')) :
    (db.conn ≠ .closed ∧ db' = db) ∨ (db.conn = .closed ∧
      ∃ db₁, checkDatabaseBehindReplica env r db = (none, db₁) ∧
        db' = { db₁ with conn := .ready }) := by
  unfold LocalState.init at hInit
  by_cases hOpen : db.conn = .closed
  · refine Or.inr ⟨hOpen, ?_⟩
    rw [if_neg (by simp [hOpen])] at hInit
    split at hInit
    · simp at hInit
    simp only [hFound] at hInit
    split at hInit
    · simp at hInit
    split at hInit
    · simp at hInit
    split at hInit
    · simp at hInit
    · split at hInit
      · simp at hInit
      · split at hInit
        · simp at hInit
        · rename_i db₁ hCheck
          split at hInit
          · simp at hInit
          · rw [Prod.mk.injEq] at hInit
            exact ⟨db₁, hCheck, hInit.2.symm⟩
  · rw [if_pos hOpen, Prod.mk.injEq] at hInit
    exact Or.inl ⟨hOpen, hInit.2.symm⟩

/-
  Without identities the bytes are delivered as they are
  stored, with identities in plaintext.
-/
theorem Replica.openLTXFile_ok {openErr decryptErr data}
    (hOpen : r.openLTXFile openErr decryptErr level minTXID maxTXID = .ok data) :
    ∃ obj, r.object level minTXID maxTXID = some obj ∧ (obj.data = data ∧
      (r.ageIdentities = [] ∨ data.isSealed = false) ∨
        r.ageIdentities ≠ [] ∧ obj.data = .sealed data) := by
  unfold openLTXFile at hOpen
  cases openErr with
  | some err => simp at hOpen
  | none =>
    cases hObj : r.object level minTXID maxTXID with
    | none => simp [hObj] at hOpen
    | some obj =>
      refine ⟨obj, rfl, ?_⟩
      simp only [hObj] at hOpen
      split at hOpen
      · rename_i hKeyless
        rw [Except.ok.injEq] at hOpen
        exact Or.inl ⟨hOpen, Or.inl hKeyless⟩
      rename_i hKeys
      cases hData : obj.data with
      | sealed plaintext =>
        simp only [hData] at hOpen
        split at hOpen
        · simp at hOpen
        · rw [Except.ok.injEq] at hOpen
          exact Or.inr ⟨hKeys, by rw [hOpen]⟩
      | ltx | damaged =>
        simp only [hData, Except.ok.injEq] at hOpen
        exact Or.inl ⟨hOpen, Or.inr (by rw [← hOpen]; rfl)⟩

theorem Replica.object_spec {obj} (hObj : r.object level minTXID maxTXID = some obj) :
    obj ∈ r.objects level ∧ obj.info.minTXID = minTXID ∧ obj.info.maxTXID = maxTXID := by
  have hName := List.find?_some hObj
  simp only [Bool.and_eq_true, beq_iff_eq] at hName
  exact ⟨List.mem_of_find?_eq_some hObj, hName⟩

/-
  The position after a fetch is the end of the fetched
  file, unless that is a ciphertext copied as it is.
-/
theorem pos_fetched (hUploaded : r.UploadedL0) (hMax : 0 < r.l0Max) (hFetch :
    fetchBaseline env r (maxInfo (r.content 0)) db = (none, db')) :
    if r.ageIdentities = [] ∧ ∃ obj, r.newestL0 = some obj ∧ obj.data.isSealed = true then
      ∀ txID, db'.pos ≠ .ok txID
    else db'.pos = .ok r.l0Max := by
  rcases fetchBaseline_ok hFetch with ⟨data, hOpen, rfl⟩
  rcases Replica.openLTXFile_ok hOpen with ⟨obj, hObj, hData⟩
  rcases Replica.object_spec hObj with ⟨hMem, hMin, hEnd⟩
  rcases hUploaded obj hMem with ⟨hPos, layer, hLayer⟩
  have hNewest : r.newestL0 = some obj := hObj
  have hNonzero : (maxInfo (r.content 0)).minTXID ≠ 0 := by omega
  have hTop : 0 < (maxInfo (r.content 0)).maxTXID := hMax
  rw [hEnd] at hLayer
  simp only [hNewest, Option.some.injEq, exists_eq_left']
  rcases hData with ⟨hSame, hKeyless⟩ | ⟨hKeys, hSealed⟩
  · rcases hLayer with hPlain | hSealed
    · rw [hSame] at hPlain
      simp [LocalState.pos, newest, hTop, hNonzero, hPlain,
        Bytes.isSealed, Bytes.verify, hSame, Replica.l0Max]
    · rw [hSame] at hSealed
      have hKeys : r.ageIdentities = [] := by
        rcases hKeyless with hNil | hOpenly
        · exact hNil
        · simp [hSealed, Bytes.isSealed] at hOpenly
      simp [LocalState.pos, newest, hTop, hNonzero, hSealed,
        Bytes.isSealed, Bytes.verify, hSame, hKeys]
  · rw [hSealed] at hLayer
    rcases hLayer with hPlain | hInner
    · cases hPlain
    · rw [Bytes.sealed.injEq] at hInner
      simp [LocalState.pos, newest, hTop, hNonzero, hInner, Bytes.verify, hKeys, Replica.l0Max]

end Success

-- The Next TXID

/- No file of the replica ends after the TXID. -/
def Replica.EndsBy (r : Replica D) (txID : Nat) : Prop :=
  ∀ level ≤ snapshotLevel, ∀ f ∈ r.content level, f.maxTXID ≤ txID

/-
  The newest level-0 object is sealed, and the replica has
  no identity to open it with.
-/
def Replica.NewestUnreadable (r : Replica D) : Prop :=
  r.ageIdentities = [] ∧ ∃ obj, r.newestL0 = some obj ∧ obj.data.isSealed = true

theorem Replica.endsBy_iff {r : Replica D} {txID : Nat} (hBound : txID + 1 < bound) :
    (∀ level ≤ snapshotLevel, ∀ f ∈ r.content level, f.maxTXID < next txID) ↔ r.EndsBy txID := by
  rw [next_eq hBound]
  constructor
  · intro hAll level hLevel f hf
    exact Nat.le_of_lt_succ (hAll level hLevel f hf)
  · intro hAll level hLevel f hf
    exact Nat.lt_succ_of_le (hAll level hLevel f hf)

/-
  After an initialisation that returns no error, the next
  sync numbers its transaction past everything on the
  replica exactly when no file of any level ends after both
  the local position and the replica's level 0, and a file
  that had to be fetched could be read.
-/
theorem next_txid_unused_iff
    {env : InitEnv}
    {r : Replica D}
    {db db' : LocalState D}
    (hUploaded : r.UploadedL0)
    (hFound : env.stat = .found)
    (hBound : ∀ txID, db.pos = .ok txID → txID + 1 < bound)
    (hTop : r.l0Max + 1 < bound)
    (hInit : db.init env r = (none, db')) :
    (∃ txID,
      db'.pos = .ok txID ∧
      ∀ level ≤ snapshotLevel, ∀ f ∈ r.content level,
        f.maxTXID < next txID) ↔
    ∃ txID,
      db.pos = .ok txID ∧
      if db.conn = .closed then
        r.EndsBy (max txID r.l0Max) ∧
        (txID < r.l0Max → ¬ r.NewestUnreadable)
      else r.EndsBy txID := by
  rcases LocalState.init_ok hFound hInit with ⟨hOpen, rfl⟩ | ⟨hClosed, db₁, hCheck, rfl⟩
  · simp only [if_neg hOpen]
    constructor
    · rintro ⟨txID, hPos, hAll⟩
      exact ⟨txID, hPos, (Replica.endsBy_iff (hBound txID hPos)).mp hAll⟩
    · rintro ⟨txID, hPos, hEnds⟩
      exact ⟨txID, hPos, (Replica.endsBy_iff (hBound txID hPos)).mpr hEnds⟩
  rcases checkDatabaseBehindReplica_ok hCheck with ⟨dbPos, hPos, hCases⟩
  simp only [if_pos hClosed, LocalState.pos_conn, hPos, Except.ok.injEq, exists_eq_left']
  rcases hCases with ⟨hAhead, rfl⟩ | ⟨hBehind, hFetch⟩
  · rw [Nat.max_eq_left hAhead]
    simp only [LocalState.pos_withPos, hPos, Except.ok.injEq, exists_eq_left',
      Replica.endsBy_iff (hBound dbPos hPos)]
    exact ⟨fun hEnds => ⟨hEnds, by omega⟩, And.left⟩
  rw [Nat.max_eq_right (Nat.le_of_lt hBehind)]
  have hFetched := pos_fetched hUploaded (by omega) hFetch
  split at hFetched
  · rename_i hUnreadable
    constructor
    · rintro ⟨txID, hTxID, _⟩
      exact absurd hTxID (hFetched txID)
    · rintro ⟨_, hReadable⟩
      exact absurd hUnreadable (hReadable hBehind)
  · rename_i hReadable
    simp only [hFetched, Except.ok.injEq, exists_eq_left', Replica.endsBy_iff hTop]
    exact ⟨fun hEnds => ⟨hEnds, fun _ => hReadable⟩, And.left⟩

def calmInit : InitEnv where
  stat := .found
  statDir := none
  openPragma := none
  setPersistWAL := none
  openFile := none
  journalMode := .ok "wal"
  readLock := none
  pageSize := .ok 4096
  mkdirMeta := none
  ensureWALExists := none
  listFault := .none
  removeL0 := none
  leftL0 := fun _ _ => true
  mkdirL0 := none
  openRemote := none
  decrypt := none
  createTmp := none
  copy := none
  syncTmp := none
  closeTmp := none
  rename := none
  start := none

def lostState : LocalState Nat where
  conn := .closed
  l0 := []
  posCache := none

def onePage : Layer Nat where
  commit := 1
  page p := if p = 1 then some 0 else none

def fifthUpload (data : Bytes Nat) : Nat → List (Stored Nat)
| 0 => [⟨⟨0, 5, 5, 1, 1⟩, data⟩]
| _ => []

/- With plain objects the numbering continues with 6. -/
theorem next_txid_after_fetch :
    ∃ db' : LocalState Nat,
      lostState.init calmInit
        ⟨fifthUpload (.ltx 5 onePage), [], [], false⟩ =
        (none, db') ∧
      ∃ txID,
        db'.pos = .ok txID ∧
        ∀ level ≤ snapshotLevel,
          ∀ f ∈ Replica.content ⟨fifthUpload (.ltx 5 onePage), [], [], false⟩ level,
            f.maxTXID < next txID := by
  refine ⟨_, rfl, (@next_txid_unused_iff Nat calmInit _ lostState _
    ?_ rfl ?_ ?_ rfl).mpr ⟨0, rfl, ?_⟩⟩
  · intro obj hMem
    rcases List.mem_singleton.mp hMem with rfl
    exact ⟨by decide, onePage, Or.inl rfl⟩
  · intro txID hPos
    rcases Except.ok.inj hPos with rfl
    decide
  · decide
  · rw [if_pos (by rfl)]
    refine ⟨?_, ?_⟩
    · intro level _ f hf
      cases level with
      | zero =>
        rcases List.mem_singleton.mp hf with rfl
        decide
      | succ n => simp [Replica.content, fifthUpload] at hf
    · rintro _ ⟨_, obj, hObj, hSealed⟩
      rcases Option.some.inj hObj with rfl
      simp [Bytes.isSealed] at hSealed

/-
  Level 0 ends at 5 while a snapshot is labelled with the
  eighth transaction, whose file was not uploaded before
  the local state was lost.
-/
def snapshotAhead : Replica Nat where
  objects level :=
    if level = snapshotLevel then [⟨⟨9, 1, 8, 1, 1⟩, .ltx 8 onePage⟩]
    else fifthUpload (.ltx 5 onePage) level
  ageRecipients := []
  ageIdentities := []
  requireEncryption := false

def sealedOnly : Replica Nat where
  objects := fifthUpload (.sealed (.ltx 5 onePage))
  ageRecipients := ["age1"]
  ageIdentities := []
  requireEncryption := true

/-
  Both initialisations return no error. After the first one
  the next TXID is 6, and a file ends at 8. After the second
  one there is no position at all.
-/
theorem next_txid_reused :
    (∃ db',
      lostState.init calmInit snapshotAhead = (none, db') ∧
      db'.pos = .ok 5 ∧
      ∃ f ∈ snapshotAhead.content snapshotLevel,
        next 5 < f.maxTXID) ∧
    ∃ db',
      lostState.init calmInit sealedOnly = (none, db') ∧
      ∀ txID, db'.pos ≠ .ok txID := by
  refine ⟨⟨_, rfl, rfl, ?_⟩, ⟨_, rfl, ?_⟩⟩
  · exact ⟨⟨9, 1, 8, 1, 1⟩, List.mem_singleton.mpr rfl, by decide⟩
  · intro txID hPos
    cases hPos

end Replicate
