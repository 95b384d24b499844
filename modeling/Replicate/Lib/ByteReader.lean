import Mathlib.Algebra.GroupWithZero.Nat
import Mathlib.Data.List.Basic
import Mathlib.Tactic.Common

/-
  Readers that return their content piece by piece.

  A call may return less than what fits into the buffer, or
  nothing at all, and the end may come together with the
  last piece or in a call of its own. A reader is given by
  the pieces it has, which a small buffer splits further,
  and by how it ends.

  Main declarations:
    * `ByteReader.read`
    * `ByteReader.readAll`
    * `ByteReader.readFull`
    * `ByteReader.read_cases`
    * `ByteReader.readFull_eq`
-/

-- Readers

/- The end is `none` for end of file. -/
structure ByteReader (B E : Type) where
  pieces : List (List B)
  stop : Option E
  together : Bool

namespace ByteReader

open List

variable {B E : Type}

/- Everything that is left to read. -/
def content (r : ByteReader B E) : List B :=
  r.pieces.flatten

/- A bound on the calls that are left. -/
def weight (r : ByteReader B E) : Nat :=
  (r.pieces.map fun piece => piece.length + 1).sum

/- What a call returned: the bytes, and the end if it came. -/
structure Answer (B E : Type) where
  bytes : List B
  ended : Option (Option E)
  rest : ByteReader B E

/- One call with room for some bytes. -/
def read (r : ByteReader B E) (room : Nat) : Answer B E :=
  match r.pieces with
  | [] => ⟨[], some r.stop, r⟩
  | piece :: pieces =>
    if piece.length ≤ room then
      ⟨piece, if pieces.isEmpty && r.together then some r.stop else none,
        { r with pieces := pieces }⟩
    else ⟨piece.take room, none, { r with pieces := piece.drop room :: pieces }⟩

/- Read up to the end. -/
def readAll (r : ByteReader B E) : Except E (List B) :=
  match r.stop with
  | none => .ok r.content
  | some err => .error err

theorem stop_of_readAll_error {r : ByteReader B E} {err : E} (hAll : r.readAll = .error err) :
    r.stop = some err := by
  unfold readAll at hAll
  cases hStop : r.stop with
  | none =>
    rw [hStop] at hAll
    cases hAll
  | some err' =>
    rw [hStop] at hAll
    cases hAll
    rfl

theorem stop_of_readAll_ok {r : ByteReader B E} {bs : List B} (hAll : r.readAll = .ok bs) :
    r.stop = none ∧ bs = r.content := by
  unfold readAll at hAll
  cases hStop : r.stop with
  | none =>
    rw [hStop] at hAll
    cases hAll
    exact ⟨rfl, rfl⟩
  | some err =>
    rw [hStop] at hAll
    cases hAll

/- A call returns a part, and the end only after the rest. -/
theorem read_cases (r : ByteReader B E) (room : Nat) :
    (r.read room).bytes ++ (r.read room).rest.content = r.content ∧
      (r.read room).rest.stop = r.stop ∧
      (r.read room).bytes.length ≤ room ∧
      ∀ result, (r.read room).ended = some result →
        result = r.stop ∧ (r.read room).rest.content = [] := by
  unfold read content
  cases hPieces : r.pieces with
  | nil =>
    refine ⟨by simp [hPieces], rfl, Nat.zero_le _, ?_⟩
    intro result hEnded
    cases hEnded
    simp [hPieces]
  | cons piece pieces =>
    dsimp only
    split
    · rename_i hFits
      refine ⟨by simp, rfl, hFits, ?_⟩
      intro result hEnded
      split at hEnded
      · rename_i hLast
        have hNil : pieces = [] := by
          simp only [Bool.and_eq_true, List.isEmpty_iff] at hLast
          exact hLast.1
        cases hEnded
        simp [hNil]
      · cases hEnded
    · refine ⟨?_, rfl, ?_, nofun⟩
      · simp [← append_assoc]
      · exact length_take_le _ _

theorem weight_read_lt {r : ByteReader B E} {room : Nat} (hRoom : 0 < room)
    (hGoesOn : (r.read room).ended = none) : (r.read room).rest.weight < r.weight := by
  unfold read at hGoesOn ⊢
  unfold weight
  cases hPieces : r.pieces with
  | nil => simp [hPieces] at hGoesOn
  | cons piece pieces =>
    dsimp only
    split
    · simp
    · simp only [map_cons, sum_cons, length_drop]
      omega

-- Reading A Number Of Bytes

/- Call after call, until the buffer is full or no more. -/
def fill : Nat → List (List B) → List B × List (List B)
| _, [] => ([], [])
| n, piece :: pieces =>
  if piece.length < n then
    (piece ++ (fill (n - piece.length) pieces).1, (fill (n - piece.length) pieces).2)
  else (piece.take n, piece.drop n :: pieces)

theorem fill_eq (n : Nat) (pieces : List (List B)) : (fill n pieces).1 = pieces.flatten.take n ∧
    (fill n pieces).2.flatten = pieces.flatten.drop n := by
  induction pieces generalizing n with
  | nil => simp [fill]
  | cons piece pieces ih =>
    unfold fill
    split
    · rename_i hShort
      rcases ih (n - piece.length) with ⟨hTake, hDrop⟩
      have hLe : piece.length ≤ n := Nat.le_of_lt hShort
      refine ⟨?_, ?_⟩
      · rw [hTake, flatten_cons, take_append, take_of_length_le hLe]
      · rw [hDrop, flatten_cons, drop_append, drop_of_length_le hLe, nil_append]
    rename_i hLong
    have hLe : n ≤ piece.length := Nat.not_lt.mp hLong
    refine ⟨?_, ?_⟩
    · rw [flatten_cons, take_append_of_le_length hLe]
    · rw [flatten_cons, flatten_cons, drop_append_of_le_length hLe]

/- The bytes, as many as there are, and what is left. -/
def readFull (r : ByteReader B E) (n : Nat) : List B × ByteReader B E :=
  ((fill n r.pieces).1, { r with pieces := (fill n r.pieces).2 })

theorem readFull_eq (r : ByteReader B E) (n : Nat) : (r.readFull n).1 = r.content.take n ∧
    (r.readFull n).2.content = r.content.drop n ∧
    (r.readFull n).2.stop = r.stop :=
  ⟨(fill_eq n r.pieces).1, (fill_eq n r.pieces).2, rfl⟩

/- Put bytes back in front, as one more piece. -/
def prepend (bs : List B) (r : ByteReader B E) : ByteReader B E :=
  { r with pieces := bs :: r.pieces }

@[simp] theorem content_prepend (bs : List B) (r : ByteReader B E) :
    (prepend bs r).content = bs ++ r.content := rfl

@[simp] theorem stop_prepend (bs : List B) (r : ByteReader B E) :
    (prepend bs r).stop = r.stop := rfl

end ByteReader
