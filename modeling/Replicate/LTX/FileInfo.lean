import Mathlib.Algebra.Group.Nat.Defs
import Mathlib.Tactic.Common

/-
  Transaction IDs, LTX file metadata and errors.

  An `ltx.TXID` is a natural number below `TXID.bound`, and
  zero stands for "no transaction". Of a `time.Time` only
  its order and its zero value are used, so a time is an
  integer with zero as the zero time.
-/

-- Transaction IDs

namespace Replicate

namespace TXID

/- TXIDs are `uint64` values in the source. -/
def bound : Nat := 2 ^ 64

/- The source's `txid + 1`, with its wrap-around. -/
def next (t : Nat) : Nat :=
  (t + 1) % bound

/- `TXID.String()`: sixteen hexadecimal digits. -/
def format (t : Nat) : String :=
  String.leftpad 16 '0' (String.ofList (Nat.toDigits 16 t))

theorem next_le (t : Nat) : next t ≤ t + 1 :=
  Nat.mod_le _ _

theorem next_eq {t : Nat} (hBound : t + 1 < bound) : next t = t + 1 :=
  Nat.mod_eq_of_lt hBound

end TXID

-- Errors

/- The sentinel errors that callers test with `errors.Is`. -/
inductive Sentinel where
  | txNotAvailable
  | noSnapshots
  | notExist
  | noCompaction
  | encryptionRequired
  | ltxCorrupted
  | ltxMissing
  | checksumMismatch
  | canceled
  | conflict
  deriving DecidableEq, Repr

/-
  An error value: a sentinel, a plain message, or a message
  wrapped around another error with the `%w` verb.
-/
inductive Err where
  | sentinel (s : Sentinel)
  | text (msg : String)
  | wrap (msg : String) (err : Err)
  deriving DecidableEq, Repr

namespace Err

/- `errors.Is`: the target occurs on the unwrap chain. -/
def is : Err → Sentinel → Bool
| sentinel s, target => s == target
| text _, _ => false
| wrap _ err, target => err.is target

@[simp] theorem is_sentinel (s target : Sentinel) : (sentinel s).is target = (s == target) := rfl

@[simp] theorem is_text (msg : String) (target : Sentinel) : (text msg).is target = false := rfl

@[simp] theorem is_wrap (msg : String) (err : Err) (target : Sentinel) :
    (wrap msg err).is target = err.is target := rfl

end Err

/- Fail with a wrapped error, if there is one. -/
def failOn (msg : String) (err : Option Err) : Except Err Unit :=
  match err with
  | some err => .error (.wrap msg err)
  | none => .ok ()

-- LTX File Metadata

/- An `ltx.FileInfo`. -/
structure FileInfo where
  level : Nat
  minTXID : Nat
  maxTXID : Nat
  size : Int
  createdAt : Int
  deriving DecidableEq, Repr

/-
  An `ltx.FileIterator`: the items `Next` delivers, and the
  error that `Err` and `Close` report once it is exhausted.
-/
structure FileIterator where
  items : List FileInfo
  err : Option Err
  deriving DecidableEq, Repr

/- `SnapshotLevel`, the level that holds full snapshots. -/
def snapshotLevel : Nat := 9

end Replicate
