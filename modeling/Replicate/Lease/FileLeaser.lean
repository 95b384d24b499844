import Replicate.Lease.Leaser
import Mathlib.Logic.Function.Basic

/-
  The file leaser.

  The lease is a lock file that the clients read, create,
  replace by renaming a temporary file, and remove. The ETag
  of a lease is the hash of the contents of the file, which
  the leaser computes itself when it reads the file. A file
  system has no conditional rename or remove: a call compares
  the ETag in one step, and changes the file in a later one.
  Between the two steps the other clients go on.

  A client is a process that makes one call after the other.
  The clock is the same for all of them.
-/

-- The Lock File

namespace Replicate

open Function

variable {ι τ : Type}

/- A lease, or what was created and is not written yet. -/
inductive LockContent where
  | torn
  | lease (r : LeaseRecord)
  deriving DecidableEq, Repr

/-
  The file behind the lock path. An open file stays the same
  when the path gets another one. Who created it is not
  stored; the clients do not see it.
-/
structure LockFile (ι : Type) where
  inode : Nat
  content : LockContent
  author : ι
  deriving DecidableEq, Repr

/- How far a call is. -/
inductive FileCall (τ : Type) where
  | idle
  -- `AcquireLease` has read the lock file.
  | read (existing : Option (LeaseRecord × τ))
  -- It may write this generation over this file.
  | checked (generation : Int) (etag : Option τ)
  -- `RenewLease` has found its own name in the lock file.
  | renewing (lease : LeaseRecord) (etag : τ)
  -- `writeLease`, called from one of the two.
  | writing (renewal : Bool) (lease : LeaseRecord) (etag : Option τ)
  -- It has created the file and not written the record.
  | created (inode : Nat) (renewal : Bool) (lease : LeaseRecord)
  -- It has found the ETag, and the temporary file is there.
  | confirmed (renewal : Bool) (lease : LeaseRecord) (etag : τ)
  -- It has not found it.
  | refused (renewal : Bool)
  -- `ReleaseLease` has found the ETag.
  | removing (etag : τ)
  | returned (result : Except LeaseErr (Option (Lease τ)))

/- The client can make another call. -/
def FileCall.free : FileCall τ → Bool
| .idle => true
| .returned _ => true
| _ => false

/- The clock, the lock path, the clients, and the events. -/
structure FileState (ι τ : Type) where
  now : Int
  file : Option (LockFile ι)
  inodes : Nat
  calls : ι → FileCall τ
  log : List (LeaseEvent ι)

-- Calls

/-
  `readLease`. A lease that lasts longer than any client may
  ask for is not believed. The zero time is long past.
-/
def Leaser.readLease (l : Leaser) (contentETag : LockContent → τ) (now : Int) :
    Option LockContent → Except LeaseErr (LeaseRecord × τ)
| none => .error .notExist
| some .torn => .error (.wrap "decode lease" (.text "unexpected end of JSON input"))
| some (.lease r) =>
  if r.expiresAt - now > l.maxLeaseTTL then .error (.leaseCorrupt r.expiresAt (now + l.maxLeaseTTL))
  else .ok (r, contentETag (.lease r))

namespace FileCall

/- `AcquireLease` up to its check. -/
def startAcquire (l : Leaser) (contentETag : LockContent → τ) (now : Int)
    (content : Option LockContent) : FileCall τ :=
  if l.ttl > l.maxLeaseTTL then .returned (.error (.ttlExceedsMax l.ttl l.maxLeaseTTL))
  else
    match l.readLease contentETag now content with
    | .ok existing => .read (some existing)
    | .error .notExist => .read none
    | .error err => .returned (.error (.wrap "read existing lease" err))

/- `AcquireLease` after its check. -/
def afterCheck (now : Int) (existing : Option (LeaseRecord × τ)) : FileCall τ :=
  match acquireCheck now existing with
  | .ok (generation, etag) => .checked generation etag
  | .error err => .returned (.error err)

/- `RenewLease` up to the record that it writes. -/
def startRenew (l : Leaser) (contentETag : LockContent → τ) (now : Int)
    (content : Option LockContent) (lease : Option (Lease τ)) : FileCall τ :=
  match requireLease lease with
  | .error err => .returned (.error err)
  | .ok (r, etag) =>
    if l.ttl > l.maxLeaseTTL then .returned (.error (.ttlExceedsMax l.ttl l.maxLeaseTTL))
    else
      match l.readLease contentETag now content with
      | .error .notExist => .returned (.error .leaseNotHeld)
      | .error err => .returned (.error (.wrap "read existing lease" err))
      | .ok (existing, _) =>
        if existing.owner = l.owner then .renewing r etag else .returned (.error .leaseNotHeld)

/- `ReleaseLease` up to the removal. -/
def startRelease [DecidableEq τ] (l : Leaser) (contentETag : LockContent → τ)
    (now : Int) (content : Option LockContent) (lease : Option (Lease τ)) : FileCall τ :=
  match requireLease lease with
  | .error err => .returned (.error err)
  | .ok (_, etag) =>
    match l.readLease contentETag now content with
    | .error .notExist => .returned (.error .leaseAlreadyReleased)
    | .error err => .returned (.error (.wrap "read lease" err))
    | .ok (_, current) =>
      if current = etag then .removing etag else .returned (.error .leaseNotHeld)

/- `writeLease` compares the contents with the ETag. -/
def afterConfirm [DecidableEq τ] (contentETag : LockContent → τ)
    (content : Option LockContent) (renewal : Bool) (lease : LeaseRecord) (etag : τ) : FileCall τ :=
  match content with
  | none => .refused renewal
  | some c => if contentETag c = etag then .confirmed renewal lease etag else .refused renewal

/-
  What the two callers make of the refusal. `AcquireLease`
  reads the file again, to name the owner.
-/
def afterRefusal (l : Leaser) (contentETag : LockContent → τ) (now : Int)
    (content : Option LockContent) (renewal : Bool) : FileCall τ :=
  if renewal then .returned (.error .leaseNotHeld)
  else
    match l.readLease contentETag now content with
    | .ok (current, _) => .returned (.error (.leaseExists current.owner (some current.expiresAt)))
    | .error _ => .returned (.error (.leaseExists "" none))

end FileCall

-- Steps

namespace FileState

/- What a reader of the lock path finds. -/
def content (s : FileState ι τ) : Option LockContent :=
  s.file.map LockFile.content

/- The lease that a client was given. -/
def Given (contentETag : LockContent → τ) (s : FileState ι τ) (i : ι) (lease : Lease τ) : Prop :=
  .granted i lease.record ∈ s.log ∧ lease.etag = some (contentETag (.lease lease.record))

variable [DecidableEq ι]

/- One client moves on. -/
def set (s : FileState ι τ) (i : ι) (c : FileCall τ) : FileState ι τ :=
  { s with calls := update s.calls i c }

/- The lock file is created, empty. -/
def afterCreate (s : FileState ι τ) (i : ι) (renewal : Bool)
    (lease : LeaseRecord) : FileState ι τ where
  now := s.now
  file := some ⟨s.inodes + 1, .torn, i⟩
  inodes := s.inodes + 1
  calls := update s.calls i (.created (s.inodes + 1) renewal lease)
  log := s.log

/- A write goes to the file that was created. -/
def writeInode (file : Option (LockFile ι)) (inode : Nat)
    (lease : LeaseRecord) : Option (LockFile ι) :=
  file.map fun f =>
    if f.inode = inode then { f with content := .lease lease }
    else f

/- The record is written, and the call returns it. -/
def afterWrite (contentETag : LockContent → τ) (s : FileState ι τ) (i : ι)
    (inode : Nat) (lease : LeaseRecord) : FileState ι τ where
  now := s.now
  file := writeInode s.file inode lease
  inodes := s.inodes
  calls := update s.calls i (.returned (.ok (some ⟨lease, some (contentETag (.lease lease))⟩)))
  log := .granted i lease :: .wrote i lease :: s.log

/- The record is written, and closing the file fails. -/
def afterCloseFailed (s : FileState ι τ) (i : ι) (inode : Nat)
    (lease : LeaseRecord) (err : LeaseErr) : FileState ι τ where
  now := s.now
  file := writeInode s.file inode lease
  inodes := s.inodes
  calls := update s.calls i (.returned (.error (.wrap "close lease" err)))
  log := .wrote i lease :: s.log

/- The write fails, and the lock path is removed. -/
def afterWriteFailed (s : FileState ι τ) (i : ι) (err : LeaseErr) : FileState ι τ where
  now := s.now
  file := none
  inodes := s.inodes
  calls := update s.calls i (.returned (.error (.wrap "write lease" err)))
  log := s.log

/- The temporary file becomes the lock file. -/
def afterRename (contentETag : LockContent → τ) (s : FileState ι τ) (i : ι)
    (lease : LeaseRecord) : FileState ι τ where
  now := s.now
  file := some ⟨s.inodes + 1, .lease lease, i⟩
  inodes := s.inodes + 1
  calls := update s.calls i (.returned (.ok (some ⟨lease, some (contentETag (.lease lease))⟩)))
  log := .granted i lease :: .wrote i lease :: s.log

/- The lock file is removed. -/
def afterRemove (s : FileState ι τ) (i : ι) (author : ι) : FileState ι τ where
  now := s.now
  file := none
  inodes := s.inodes
  calls := update s.calls i (.returned (.ok none))
  log := .released i :: .deleted i author :: s.log

end FileState

/- What the clients do. -/
inductive FileOp (ι τ : Type) where
  | tick (now : Int)
  | acquire (i : ι)
  | renew (i : ι) (lease : Option (Lease τ))
  | release (i : ι) (lease : Option (Lease τ))
  | check (i : ι)
  | prepare (i : ι)
  | create (i : ι)
  | write (i : ι)
  | closeFailed (i : ι) (err : LeaseErr)
  | writeFailed (i : ι) (err : LeaseErr)
  | confirm (i : ι)
  | rename (i : ι)
  | reject (i : ι)
  | remove (i : ι)
  | fail (i : ι) (err : LeaseErr)

namespace FileState

variable [DecidableEq ι] [DecidableEq τ]

/-
  One step. A client renews and releases the leases that it
  was given. Any other file operation that fails ends the
  call with an error and changes nothing.
-/
inductive Step (contentETag : LockContent → τ) (leasers : ι → Leaser) :
    FileState ι τ → FileOp ι τ → FileState ι τ → Prop where
  | tick {s now} (hLater : s.now ≤ now) :
    Step contentETag leasers s (.tick now) { s with now := now }
  | acquire {s i} (hFree : (s.calls i).free = true) :
    Step contentETag leasers s (.acquire i) (s.set i
      (.startAcquire (leasers i) contentETag s.now s.content))
  | renew {s i lease} (hFree : (s.calls i).free = true)
    (hGiven : ∀ l, lease = some l → s.Given contentETag i l) :
    Step contentETag leasers s (.renew i lease) (s.set i
      (.startRenew (leasers i) contentETag s.now s.content lease))
  | release {s i lease} (hFree : (s.calls i).free = true)
    (hGiven : ∀ l, lease = some l → s.Given contentETag i l) :
    Step contentETag leasers s (.release i lease) (s.set i
      (.startRelease (leasers i) contentETag s.now s.content lease))
  | check {s i existing} (hCall : s.calls i = .read existing) :
    Step contentETag leasers s (.check i) (s.set i (.afterCheck s.now existing))
  | prepareAcquire {s i generation etag} (hCall : s.calls i = .checked generation etag) :
    Step contentETag leasers s (.prepare i) (s.set i (.writing false
      ((leasers i).newLease s.now generation) etag))
  | prepareRenew {s i r etag} (hCall : s.calls i = .renewing r etag) :
    Step contentETag leasers s (.prepare i) (s.set i (.writing true
      ((leasers i).newLease s.now r.generation)
      (some etag)))
  | create {s i renewal lease} (hCall : s.calls i = .writing renewal lease none)
    (hFile : s.file = none) :
    Step contentETag leasers s (.create i) (s.afterCreate i renewal lease)
  | createRefused {s i renewal lease} (hCall : s.calls i = .writing renewal lease none)
    (hFile : s.file ≠ none) :
    Step contentETag leasers s (.create i) (s.set i (.refused renewal))
  | write {s i inode renewal lease} (hCall : s.calls i = .created inode renewal lease) :
    Step contentETag leasers s (.write i) (s.afterWrite contentETag i inode lease)
  | closeFailed {s i inode renewal lease err} (hCall : s.calls i = .created inode renewal lease) :
    Step contentETag leasers s (.closeFailed i err) (s.afterCloseFailed i inode lease err)
  | writeFailed {s i inode renewal lease err} (hCall : s.calls i = .created inode renewal lease) :
    Step contentETag leasers s (.writeFailed i err) (s.afterWriteFailed i err)
  | confirm {s i renewal lease etag} (hCall : s.calls i = .writing renewal lease (some etag)) :
    Step contentETag leasers s (.confirm i) (s.set i
      (.afterConfirm contentETag s.content renewal lease etag))
  | rename {s i renewal lease etag} (hCall : s.calls i = .confirmed renewal lease etag) :
    Step contentETag leasers s (.rename i) (s.afterRename contentETag i lease)
  | reject {s i renewal} (hCall : s.calls i = .refused renewal) :
    Step contentETag leasers s (.reject i) (s.set i
      (.afterRefusal (leasers i) contentETag s.now s.content renewal))
  | remove {s i etag f} (hCall : s.calls i = .removing etag) (hFile : s.file = some f) :
    Step contentETag leasers s (.remove i) (s.afterRemove i f.author)
  | removeMissing {s i etag} (hCall : s.calls i = .removing etag) (hFile : s.file = none) :
    Step contentETag leasers s (.remove i) (s.set i (.returned (.error .leaseAlreadyReleased)))
  | fail {s i err} (hCall :
    ∀ inode renewal lease, s.calls i ≠ .created inode renewal lease) :
      Step contentETag leasers s (.fail i err) (s.set i (.returned (.error err)))

/- The steps of a run, all of which are allowed. -/
def Run (contentETag : LockContent → τ) (leasers : ι → Leaser)
    (allowed : FileState ι τ → FileOp ι τ → Prop) :
    FileState ι τ → FileState ι τ → Prop :=
  Relation.ReflTransGen fun s s' => ∃ op, allowed s op ∧ Step contentETag leasers s op s'

omit [DecidableEq ι] [DecidableEq τ] in
/- There is no lock file yet. -/
def initial (ι τ : Type) (now : Int) : FileState ι τ where
  now := now
  file := none
  inodes := 0
  calls := fun _ => .idle
  log := []

omit [DecidableEq ι] [DecidableEq τ] in
/-
  When a call renames or removes, the contents still have
  the ETag that it has found before.
-/
def Unchanged (contentETag : LockContent → τ) (s : FileState ι τ) : FileOp ι τ → Prop
| .rename i =>
  ∀ renewal lease etag, s.calls i = .confirmed renewal lease etag →
    ∃ f, s.file = some f ∧ contentETag f.content = etag
| .remove i =>
  ∀ etag, s.calls i = .removing etag → ∀ f, s.file = some f → contentETag f.content = etag
| _ => True

end FileState

end Replicate
