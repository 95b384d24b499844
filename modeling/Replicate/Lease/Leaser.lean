import Replicate.Lib.TimedLock
import Mathlib.Algebra.Group.Int.Defs
import Mathlib.Algebra.Group.Nat.Defs
import Mathlib.Data.Int.Order.Basic

/-
  Leases, and what the leasers have in common.

  A lease is a record in one shared place, with the owner
  and the time at which it expires. A leaser acquires it if
  there is none or if the one there has expired, renews the
  one it was given, and gives it back. Both leasers write a
  record only over the one that they have seen, which they
  recognise by its ETag.
-/

-- Leases

namespace Replicate

/- What is stored of a lease. Times are nanoseconds. -/
structure LeaseRecord where
  generation : Int
  expiresAt : Int
  owner : String
  deriving DecidableEq, Repr

/- A lease with its ETag, which is `none` if it is empty. -/
structure Lease (τ : Type) where
  record : LeaseRecord
  etag : Option τ
  deriving DecidableEq, Repr

/- `time.Now().After(l.ExpiresAt)`. -/
def LeaseRecord.isExpired (r : LeaseRecord) (now : Int) : Bool :=
  decide (r.expiresAt < now)

/-
  The errors of the leasers. An empty `LeaseExistsError` has
  no owner and no time.
-/
inductive LeaseErr where
  | leaseRequired
  | leaseETagRequired
  | leaseAlreadyReleased
  | leaseNotHeld
  | leaseExists (owner : String) (expiresAt : Option Int)
  | ttlExceedsMax (ttl maxTTL : Int)
  | leaseCorrupt (expiresAt limit : Int)
  | notExist
  | text (msg : String)
  | wrap (msg : String) (err : LeaseErr)
  deriving DecidableEq, Repr

/- The configuration of a leaser. -/
structure Leaser where
  ttl : Int
  maxTTL : Int
  owner : String
  deriving DecidableEq, Repr

/- Thirty seconds. -/
def DefaultLeaseMaxTTL : Int := 30 * 10 ^ 9

namespace Leaser

variable {τ : Type}

/- The ceiling on the lifetime of a lease. -/
def maxLeaseTTL (l : Leaser) : Int :=
  if l.maxTTL ≤ 0 then DefaultLeaseMaxTTL else l.maxTTL

/- The record that a leaser writes at a time. -/
def newLease (l : Leaser) (now : Int) (generation : Int) : LeaseRecord where
  generation := generation
  expiresAt := now + l.ttl
  owner := l.owner

end Leaser

def twoLeasers : Bool → Leaser
| false => ⟨10, 0, "a"⟩
| true => ⟨10, 0, "b"⟩

/- `existing.Generation + 1`, which is an `int64`. -/
def nextGeneration (existing : LeaseRecord) : Int :=
  Int.bmod (existing.generation + 1) (2 ^ 64)

theorem nextGeneration_eq {r} (hPos : 1 ≤ r.generation) (hBound : r.generation + 1 < 2 ^ 63) :
    nextGeneration r = r.generation + 1 := by
  apply Int.bmod_eq_of_le_mul_two
  · omega
  · omega

/-
  The check of `AcquireLease` on what it has read: the
  generation to write and the ETag to write over.
-/
def acquireCheck {τ : Type} (now : Int) : Option (LeaseRecord × τ) →
    Except LeaseErr (Int × Option τ)
| none => .ok (1, none)
| some (r, etag) =>
  if r.isExpired now then .ok (nextGeneration r, some etag)
  else .error (.leaseExists r.owner (some r.expiresAt))

/- The first checks of `RenewLease` and `ReleaseLease`. -/
def requireLease {τ : Type} : Option (Lease τ) → Except LeaseErr (LeaseRecord × τ)
| none => .error .leaseRequired
| some ⟨_, none⟩ => .error .leaseETagRequired
| some ⟨r, some etag⟩ => .ok (r, etag)

-- What Has Happened To A Lease

/-
  A record was written, its writer was told, a release
  deleted the record that `author` had written, and the
  client that released it was told.
-/
inductive LeaseEvent (ι : Type) where
  | wrote (i : ι) (r : LeaseRecord)
  | granted (i : ι) (r : LeaseRecord)
  | deleted (i author : ι)
  | released (i : ι)
  deriving DecidableEq, Repr

variable {ι : Type}

/- The release of the client itself takes effect. -/
def LeaseEvent.Deletes (i : ι) (e : LeaseEvent ι) : Prop :=
  ∃ author, e = .deleted i author

/- The release of the client itself reports success. -/
def LeaseEvent.Reports (i : ι) (e : LeaseEvent ι) : Prop :=
  e = .released i

/-
  The newest event comes first. A client has the leases it
  was granted since the last event that ended them.
-/
def HeldLease (ends : LeaseEvent ι → Prop) (i : ι) (r : LeaseRecord) : List (LeaseEvent ι) → Prop
| [] => False
| e :: log => e = .granted i r ∨ ¬ ends e ∧ HeldLease ends i r log

/- A client holds the lease until the time it was given. -/
def HoldsLease (ends : LeaseEvent ι → Prop) (log : List (LeaseEvent ι))
    (now : Int) (i : ι) : Prop :=
  ∃ r, HeldLease ends i r log ∧ now ≤ r.expiresAt

/- The writes, as generations with their writers. -/
def LeaseEvent.issued : LeaseEvent ι → Option (ι × Int)
| .wrote i r => some (i, r.generation)
| _ => none

/- The generations in the order in which they were written. -/
def issuedGenerations (log : List (LeaseEvent ι)) : List (ι × Int) :=
  log.filterMap LeaseEvent.issued

theorem HeldLease.of_cons {ends} {i : ι} {r e log} (hHeld : HeldLease ends i r (e :: log))
    (hNot : e ≠ .granted i r) : ¬ ends e ∧ HeldLease ends i r log := by
  rcases hHeld with hGrant | hOld
  · exact absurd hGrant hNot
  · exact hOld

end Replicate
