import Replicate.Lease.Leaser
import Mathlib.Logic.Function.Basic

/-
  The S3 leaser.

  Every call of a client is a sequence of requests to the
  storage: `AcquireLease` reads the lock object, checks it
  and puts its own record under the condition that nothing
  has changed; `RenewLease` puts and `ReleaseLease` deletes
  under the condition that the object is still the one that
  the lease names. A request takes effect when the storage
  executes it. The client may never see the answer, or see
  an error, and go on; the request may still be executed
  later. A client can have any number of calls under way.

  The storage compares ETags atomically and gives every
  write a new one.
-/

-- Calls And Requests

namespace Replicate

variable {ι : Type}

/- How far a call is. -/
inductive S3Call where
  -- It has not started.
  | idle
  -- `AcquireLease` has read the lock object.
  | read (existing : Option (LeaseRecord × Nat))
  -- It may write this generation over this object.
  | checked (generation : Int) (etag : Option Nat)
  -- `PutObject` is under way, from one of the two callers.
  | putting (renewal : Bool) (lease : LeaseRecord) (etag : Option Nat)
  -- It took effect.
  | written (lease : LeaseRecord) (etag : Nat)
  -- Its condition failed.
  | refused (renewal : Bool)
  -- `DeleteObject` is under way.
  | deleting (etag : Nat)
  -- It took effect.
  | deleted
  -- The call has returned.
  | done (result : Except LeaseErr (Option (Lease Nat)))

/-
  The lock object. Who wrote it is not stored anywhere; the
  clients do not see it.
-/
structure LockObject (ι : Type) where
  record : LeaseRecord
  etag : Nat
  author : ι

/- The clock, the storage, the calls, and the events. -/
structure S3State (ι : Type) where
  now : Int
  object : Option (LockObject ι)
  etags : Nat
  calls : ι × Nat → S3Call
  log : List (LeaseEvent ι)

/- `AcquireLease` after its check. -/
def S3Call.afterCheck (now : Int) (existing : Option (LeaseRecord × Nat)) : S3Call :=
  match acquireCheck now existing with
  | .ok (generation, etag) => .checked generation etag
  | .error err => .done (.error err)

/- `RenewLease` up to its request. -/
def S3Call.startRenew (l : Leaser) (now : Int) (lease : Option (Lease Nat)) : S3Call :=
  match requireLease lease with
  | .ok (r, etag) => .putting true (l.newLease now r.generation) (some etag)
  | .error err => .done (.error err)

/- `ReleaseLease` up to its request. -/
def S3Call.startRelease (lease : Option (Lease Nat)) : S3Call :=
  match requireLease lease with
  | .ok (_, etag) => .deleting etag
  | .error err => .done (.error err)

/- `If-None-Match: *` without an ETag, else `If-Match`. -/
def LockObject.accepts (object : Option (LockObject ι)) (etag : Option Nat) : Bool :=
  match etag, object with
  | none, none => true
  | some t, some o => t == o.etag
  | _, _ => false

/-
  What a client makes of a refused put. `AcquireLease` reads
  the lock object again, to name the owner.
-/
def LockObject.refusal (object : Option (LockObject ι)) (renewal reread : Bool) : LeaseErr :=
  match renewal, reread, object with
  | true, _, _ => .leaseNotHeld
  | false, true, some o => .leaseExists o.record.owner (some o.record.expiresAt)
  | false, _, _ => .leaseExists "" none

/- The answer to a delete that has no effect. -/
def LockObject.undeleted (object : Option (LockObject ι)) : LeaseErr :=
  match object with
  | none => .leaseAlreadyReleased
  | some _ => .leaseNotHeld

/- A call that has neither written nor been granted. -/
def S3Call.Silent (c : S3Call) : Prop :=
  (∀ r etag, c ≠ .written r etag) ∧ ∀ lease, c ≠ .done (.ok (some lease))

theorem S3Call.silent_afterCheck (now : Int) (existing : Option (LeaseRecord × Nat)) :
    (S3Call.afterCheck now existing).Silent := by
  unfold S3Call.afterCheck
  split <;> exact ⟨nofun, nofun⟩

theorem S3Call.silent_startRenew (l : Leaser) (now : Int) (lease : Option (Lease Nat)) :
    (S3Call.startRenew l now lease).Silent := by
  unfold S3Call.startRenew
  split <;> exact ⟨nofun, nofun⟩

theorem S3Call.silent_startRelease (lease : Option (Lease Nat)) :
    (S3Call.startRelease lease).Silent := by
  unfold S3Call.startRelease
  split <;> exact ⟨nofun, nofun⟩

-- Steps

namespace S3State

/- A client was given a lease by one of its calls. -/
def Given (s : S3State ι) (i : ι) (lease : Lease Nat) : Prop :=
  ∃ n, s.calls (i, n) = .done (.ok (some lease))

variable [DecidableEq ι]

/- One call moves on. -/
def set (s : S3State ι) (k : ι × Nat) (c : S3Call) : S3State ι :=
  { s with calls := Function.update s.calls k c }

/- A put takes effect. -/
def afterPut (s : S3State ι) (k : ι × Nat) (lease : LeaseRecord) : S3State ι where
  now := s.now
  object := some ⟨lease, s.etags + 1, k.1⟩
  etags := s.etags + 1
  calls := Function.update s.calls k (.written lease (s.etags + 1))
  log := .wrote k.1 lease :: s.log

/- A put reports success. -/
def afterAnswer (s : S3State ι) (k : ι × Nat) (lease : LeaseRecord) (etag : Nat) : S3State ι where
  now := s.now
  object := s.object
  etags := s.etags
  calls := Function.update s.calls k (.done (.ok (some ⟨lease, some etag⟩)))
  log := .granted k.1 lease :: s.log

/- A delete takes effect. -/
def afterDelete (s : S3State ι) (k : ι × Nat) (author : ι) : S3State ι where
  now := s.now
  object := none
  etags := s.etags
  calls := Function.update s.calls k .deleted
  log := .deleted k.1 author :: s.log

/- A delete reports success. -/
def afterConfirm (s : S3State ι) (k : ι × Nat) : S3State ι where
  now := s.now
  object := s.object
  etags := s.etags
  calls := Function.update s.calls k (.done (.ok none))
  log := .released k.1 :: s.log

end S3State

/- What the clients and the storage do. -/
inductive S3Op (ι : Type) where
  | tick (now : Int)
  | get (k : ι × Nat)
  | getFailed (k : ι × Nat) (err : LeaseErr)
  | check (k : ι × Nat)
  | prepare (k : ι × Nat)
  | renew (k : ι × Nat) (lease : Option (Lease Nat))
  | put (k : ι × Nat)
  | answer (k : ι × Nat)
  | reject (k : ι × Nat) (reread : Bool)
  | release (k : ι × Nat) (lease : Option (Lease Nat))
  | delete (k : ι × Nat)
  | confirm (k : ι × Nat)

namespace S3State

variable [DecidableEq ι]

/-
  One step. A client renews and releases the leases that it
  was given. A request whose answer does not arrive stays as
  it is.
-/
inductive Step (leasers : ι → Leaser) : S3State ι → S3Op ι → S3State ι → Prop where
  | tick {s now} (hLater : s.now ≤ now) : Step leasers s (.tick now) { s with now := now }
  | get {s k} (hCall : s.calls k = .idle) : Step leasers s (.get k) (s.set k
    (.read (s.object.map fun o => (o.record, o.etag))))
  | getFailed {s k err} (hCall : s.calls k = .idle) :
    Step leasers s (.getFailed k err) (s.set k (.done (.error (.wrap "read existing lease" err))))
  | check {s k existing} (hCall : s.calls k = .read existing) :
    Step leasers s (.check k) (s.set k (.afterCheck s.now existing))
  | prepare {s k generation etag} (hCall : s.calls k = .checked generation etag) :
    Step leasers s (.prepare k) (s.set k (.putting false
      ((leasers k.1).newLease s.now generation) etag))
  | renew {s k lease} (hCall : s.calls k = .idle) (hGiven : ∀ l, lease = some l → s.Given k.1 l) :
    Step leasers s (.renew k lease) (s.set k (.startRenew (leasers k.1) s.now lease))
  | put {s k renewal lease etag} (hCall : s.calls k = .putting renewal lease etag)
    (hAccepts : LockObject.accepts s.object etag = true) :
    Step leasers s (.put k) (s.afterPut k lease)
  | putRefused {s k renewal lease etag} (hCall : s.calls k = .putting renewal lease etag)
    (hAccepts : LockObject.accepts s.object etag = false) :
    Step leasers s (.put k) (s.set k (.refused renewal))
  | answer {s k lease etag} (hCall : s.calls k = .written lease etag) :
    Step leasers s (.answer k) (s.afterAnswer k lease etag)
  | reject {s k renewal reread} (hCall : s.calls k = .refused renewal) :
    Step leasers s (.reject k reread) (s.set k (.done (.error
      (LockObject.refusal s.object renewal reread))))
  | release {s k lease} (hCall : s.calls k = .idle) (hGiven : ∀ l, lease = some l → s.Given k.1 l) :
    Step leasers s (.release k lease) (s.set k (.startRelease lease))
  | delete {s k etag o} (hCall : s.calls k = .deleting etag) (hObject : s.object = some o)
    (hMatches : o.etag = etag) :
    Step leasers s (.delete k) (s.afterDelete k o.author)
  | deleteRefused {s k etag} (hCall : s.calls k = .deleting etag)
    (hOther : ∀ o, s.object = some o → o.etag ≠ etag) :
    Step leasers s (.delete k) (s.set k (.done (.error (LockObject.undeleted s.object))))
  | confirm {s k} (hCall : s.calls k = .deleted) : Step leasers s (.confirm k) (s.afterConfirm k)

/- The steps of a run, all of which are allowed. -/
def Run (leasers : ι → Leaser) (allowed : S3State ι → S3Op ι → Prop) :
    S3State ι → S3State ι → Prop :=
  Relation.ReflTransGen fun s s' => ∃ op, allowed s op ∧ Step leasers s op s'

omit [DecidableEq ι] in
/- No lease has been taken yet. -/
def initial (ι : Type) (now : Int) : S3State ι where
  now := now
  object := none
  etags := 0
  calls := fun _ => .idle
  log := []

end S3State

end Replicate
