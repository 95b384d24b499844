import Replicate.Lib.HexDigits
import Replicate.LTX.FileInfo

/-
  The file names of v0.3.x snapshots and WAL segments.

  An index and an offset are written with at least eight
  hexadecimal digits, and read with exactly eight. From 2^32
  on a name is written that is not read back, and that sorts
  before names of smaller positions.

  Main declarations:
    * `Replicate.parseSnapshotFilenameV3`
    * `Replicate.parseWALSegmentFilenameV3`
    * `Replicate.v3_names_faithful_iff`
-/

open HexDigits

namespace Replicate

-- Formatting And Parsing

/- The verb `%08x`: the width includes the sign. -/
def formatHex8 (n : Int) : List Char :=
  if n < 0 then '-' :: (Nat.toDigits 16 n.natAbs).leftpad 7 '0'
  else (Nat.toDigits 16 n.natAbs).leftpad 8 '0'

def snapshotSuffixV3 : List Char := ".snapshot.lz4".toList

def walSuffixV3 : List Char := ".wal.lz4".toList

def formatSnapshotFilenameV3 (index : Int) : List Char :=
  formatHex8 index ++ snapshotSuffixV3

def formatWALSegmentFilenameV3 (index offset : Int) : List Char :=
  formatHex8 index ++ '_' :: (formatHex8 offset ++ walSuffixV3)

/- The group `([0-9a-f]{8})` at the front, and the rest. -/
def matchHex8 (name : List Char) : Option (List Char × List Char) :=
  if (name.take 8).length = 8 ∧ (name.take 8).all chars.contains then
    some (name.take 8, name.drop 8)
  else none

-- eight digits are in the range of `strconv.ParseInt`
def parseSnapshotFilenameV3 (name : List Char) : Except Err Int :=
  match matchHex8 name with
  | some (index, rest) => if rest = snapshotSuffixV3 then .ok (value index) else invalid
  | none => invalid
where
  invalid : Except Err Int :=
    .error (.text ("invalid v0.3.x snapshot filename: " ++ (String.ofList name).quote))

def parseWALSegmentFilenameV3 (name : List Char) : Except Err (Int × Int) :=
  match matchHex8 name with
  | some (index, '_' :: rest) =>
    match matchHex8 rest with
    | some (offset, rest') =>
      if rest' = walSuffixV3 then .ok (value index, value offset) else invalid
    | none => invalid
  | _ => invalid
where
  invalid : Except Err (Int × Int) :=
    .error (.text ("invalid v0.3.x WAL segment filename: " ++ (String.ofList name).quote))

-- What Is Read

/- What eight digits can hold. -/
def FitsV3 (n : Int) : Prop :=
  0 ≤ n ∧ n < 4294967296

instance (n : Int) : Decidable (FitsV3 n) :=
  inferInstanceAs (Decidable (_ ∧ _))

variable {n m i o : Int} {name digits rest : List Char}

theorem formatHex8_eq (hFits : FitsV3 n) : formatHex8 n = fixed 8 n.toNat := by
  rcases Int.eq_ofNat_of_zero_le hFits.1 with ⟨k, rfl⟩
  have hLt : k < 16 ^ 8 := Int.ofNat_lt.mp hFits.2
  rw [formatHex8, if_neg (Int.not_lt.mpr hFits.1)]
  exact leftpad_toDigits hLt

theorem toNat_lt (hFits : FitsV3 n) : n.toNat < 16 ^ 8 :=
  (Int.toNat_lt hFits.1).mpr hFits.2

theorem length_formatHex8 (hFits : FitsV3 n) : (formatHex8 n).length = 8 := by
  rw [formatHex8_eq hFits, length_fixed]

theorem matchHex8_formatHex8 (hFits : FitsV3 n) (rest : List Char) :
    matchHex8 (formatHex8 n ++ rest) = some (formatHex8 n, rest) := by
  have hLength := length_formatHex8 hFits
  have hDigits : (formatHex8 n).all chars.contains := by
    rw [List.all_eq_true, formatHex8_eq hFits]
    exact fun _ hMem => List.contains_iff_mem.mpr (mem_fixed hMem)
  rw [matchHex8, List.take_left' hLength, List.drop_left' hLength, if_pos ⟨hLength, hDigits⟩]

theorem value_formatHex8 (hFits : FitsV3 n) : (value (formatHex8 n) : Int) = n := by
  rw [formatHex8_eq hFits, value_fixed (toNat_lt hFits)]
  exact Int.toNat_of_nonneg hFits.1

/- A group that matches is how its value is written. -/
theorem matchHex8_eq_some (hMatch : matchHex8 name = some (digits, rest)) :
    FitsV3 (value digits) ∧ formatHex8 (value digits) ++ rest = name := by
  unfold matchHex8 at hMatch
  split at hMatch
  · rename_i hDigits
    cases hMatch
    have hChars : ∀ c ∈ name.take 8, c ∈ chars := fun c hMem =>
      List.contains_iff_mem.mp (List.all_eq_true.mp hDigits.2 c hMem)
    rcases fixed_value hChars with ⟨hFixed, hBound⟩
    rw [hDigits.1] at hFixed hBound
    have hFits : FitsV3 (value (name.take 8)) := ⟨Int.natCast_nonneg _, Int.ofNat_lt.mpr hBound⟩
    refine ⟨hFits, ?_⟩
    rw [formatHex8_eq hFits, Int.toNat_natCast, hFixed]
    exact List.take_append_drop 8 name
  · cases hMatch

theorem parseSnapshotFilenameV3_eq_ok (hParse : parseSnapshotFilenameV3 name = .ok i) :
    FitsV3 i ∧ formatSnapshotFilenameV3 i = name := by
  unfold parseSnapshotFilenameV3 at hParse
  split at hParse
  · rename_i index rest hMatch
    split at hParse
    · rename_i hRest
      cases hParse
      rw [formatSnapshotFilenameV3, ← hRest]
      exact matchHex8_eq_some hMatch
    · cases hParse
  · cases hParse

theorem parseWALSegmentFilenameV3_eq_ok (hParse : parseWALSegmentFilenameV3 name = .ok (i, o)) :
    FitsV3 i ∧ FitsV3 o ∧ formatWALSegmentFilenameV3 i o = name := by
  unfold parseWALSegmentFilenameV3 at hParse
  split at hParse
  · rename_i index rest hMatch
    rcases matchHex8_eq_some hMatch with ⟨hIndex, hName⟩
    split at hParse
    · rename_i offset rest' hMatch'
      rcases matchHex8_eq_some hMatch' with ⟨hOffset, hName'⟩
      split at hParse
      · rename_i hRest
        cases hParse
        rw [formatWALSegmentFilenameV3, ← hRest, hName']
        exact ⟨hIndex, hOffset, hName⟩
      · cases hParse
    · cases hParse
  · cases hParse

-- What Is Written

theorem parseSnapshotFilenameV3_format (hIndex : FitsV3 i) :
    parseSnapshotFilenameV3 (formatSnapshotFilenameV3 i) = .ok i := by
  rw [parseSnapshotFilenameV3, formatSnapshotFilenameV3, matchHex8_formatHex8 hIndex]
  simp only [if_true, value_formatHex8 hIndex]

theorem parseWALSegmentFilenameV3_format (hIndex : FitsV3 i) (hOffset : FitsV3 o) :
    parseWALSegmentFilenameV3 (formatWALSegmentFilenameV3 i o) = .ok (i, o) := by
  rw [parseWALSegmentFilenameV3, formatWALSegmentFilenameV3, matchHex8_formatHex8 hIndex]
  simp only [matchHex8_formatHex8 hOffset, if_true, value_formatHex8 hIndex,
    value_formatHex8 hOffset]

/- Names compare as what they begin with, and then the rest. -/
theorem formatHex8_append_lt_iff (hn : FitsV3 n) (hm : FitsV3 m) (as bs : List Char) :
    formatHex8 n ++ as < formatHex8 m ++ bs ↔ n < m ∨ n = m ∧ as < bs := by
  have hEq : formatHex8 n = formatHex8 m ↔ n = m :=
    ⟨fun hEq => by rw [← value_formatHex8 hn, hEq, value_formatHex8 hm], congrArg _⟩
  have hLt : formatHex8 n < formatHex8 m ↔ n < m := by
    rw [formatHex8_eq hn, formatHex8_eq hm, fixed_lt_fixed_iff (toNat_lt hn) (toNat_lt hm)]
    have hnNonneg := hn.1
    omega
  rw [append_lt_append_iff (by rw [length_formatHex8 hn, length_formatHex8 hm]), hLt, hEq]

-- Faithful Names

structure RoundTripsV3 (p : Int × Int) : Prop where
  snapshot : parseSnapshotFilenameV3 (formatSnapshotFilenameV3 p.1) = .ok p.1
  segment : parseWALSegmentFilenameV3 (formatWALSegmentFilenameV3 p.1 p.2) = .ok p

/- The names of two positions are read back, and sort as they do. -/
structure FaithfulV3 (p q : Int × Int) : Prop where
  left : RoundTripsV3 p
  right : RoundTripsV3 q
  snapshots : formatSnapshotFilenameV3 p.1 < formatSnapshotFilenameV3 q.1 ↔ p.1 < q.1
  segments : formatWALSegmentFilenameV3 p.1 p.2 < formatWALSegmentFilenameV3 q.1 q.2 ↔
    p.1 < q.1 ∨ p.1 = q.1 ∧ p.2 < q.2

theorem roundTripsV3_iff (p : Int × Int) : RoundTripsV3 p ↔ FitsV3 p.1 ∧ FitsV3 p.2 := by
  constructor
  · intro hTrips
    rcases parseWALSegmentFilenameV3_eq_ok hTrips.segment with ⟨hIndex, hOffset, _⟩
    exact ⟨hIndex, hOffset⟩
  · rintro ⟨hIndex, hOffset⟩
    exact ⟨parseSnapshotFilenameV3_format hIndex, parseWALSegmentFilenameV3_format hIndex hOffset⟩

/-
  The names of two positions are faithful exactly when every
  index and offset fits eight digits, and every name that is
  read is the one that is written.
-/
theorem v3_names_faithful_iff
    (p q : Int × Int)
    (name : List Char) :
    (FaithfulV3 p q ↔
      (FitsV3 p.1 ∧ FitsV3 p.2) ∧ FitsV3 q.1 ∧ FitsV3 q.2) ∧
    (∀ i,
      parseSnapshotFilenameV3 name = .ok i →
      formatSnapshotFilenameV3 i = name) ∧
    (∀ i o,
      parseWALSegmentFilenameV3 name = .ok (i, o) →
      formatWALSegmentFilenameV3 i o = name) := by
  refine ⟨?_, fun _ hParse => (parseSnapshotFilenameV3_eq_ok hParse).2,
    fun _ _ hParse => (parseWALSegmentFilenameV3_eq_ok hParse).2.2⟩
  constructor
  · intro hFaithful
    exact ⟨(roundTripsV3_iff _).mp hFaithful.left, (roundTripsV3_iff _).mp hFaithful.right⟩
  · rintro ⟨hLeft, hRight⟩
    refine ⟨(roundTripsV3_iff _).mpr hLeft, (roundTripsV3_iff _).mpr hRight, ?_, ?_⟩
    · rw [formatSnapshotFilenameV3, formatSnapshotFilenameV3,
        formatHex8_append_lt_iff hLeft.1 hRight.1]
      simp only [List.lt_irrefl, and_false, or_false]
    · rw [formatWALSegmentFilenameV3, formatWALSegmentFilenameV3,
        formatHex8_append_lt_iff hLeft.1 hRight.1, List.cons_lt_cons_iff,
        formatHex8_append_lt_iff hLeft.2 hRight.2]
      simp only [List.lt_irrefl, Char.lt_irrefl, false_or, true_and, and_false, or_false]

/-
  At 2^32 the names have nine digits. They are not read, and
  the name of the index before is the larger one.
-/
theorem v3_name_not_read :
    formatWALSegmentFilenameV3 0 4294967296 =
      "00000000_100000000.wal.lz4".toList ∧
    (∀ p,
      parseWALSegmentFilenameV3
        (formatWALSegmentFilenameV3 0 4294967296) ≠ .ok p) ∧
    (∀ i,
      parseSnapshotFilenameV3
        (formatSnapshotFilenameV3 4294967296) ≠ .ok i) ∧
    formatSnapshotFilenameV3 4294967296 <
      formatSnapshotFilenameV3 4294967295 := by
  have hSegment : formatWALSegmentFilenameV3 0 4294967296 =
    "00000000_100000000.wal.lz4".toList := by
    decide +kernel
  have hSnapshot : formatSnapshotFilenameV3 4294967296 = "100000000.snapshot.lz4".toList := by
    decide +kernel
  refine ⟨hSegment, ?_, ?_, ?_⟩
  · rw [hSegment]
    exact nofun
  · rw [hSnapshot]
    exact nofun
  · decide +kernel

end Replicate
