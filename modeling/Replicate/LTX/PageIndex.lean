import Mathlib.Tactic.Common
import Replicate.LTX.FileInfo
import Replicate.Lib.LittleEndian

/-
  Fetching the page index from the end of an LTX file.

  A file ends with the index block, the block's length in
  eight big-endian bytes, and the trailer. The first request
  reads the last 32 KiB of the size in the listing. If the
  block is longer, a second request starts at the block.

  The length is data of the remote object. It is used as an
  offset without a check, so an object that is too short or
  that holds a length near the end of the 64-bit range stops
  the process. `none` is that panic.

  Main declarations:
    * `fetchPageIndexData`
    * `PageIndexFile`
    * `fetchPageIndexData_wellFormed`
    * `fetchPageIndexData_ne_panic_iff`
    * `page_index_fetched`
    * `empty_object_panics`
-/

namespace Replicate

open List Option

-- Model

def trailerSize : Int := 16

def defaultEstimatedPageIndexSize : Int := 32 * 1024

/- The signed 64-bit value of an integer. -/
def int64 (n : Int) : Int := n.bmod (2 ^ 64)

def bigEndianUint64 (b : List UInt8) : Nat :=
  LittleEndian.value (b.take 8).reverse

/- The reader of a request: its bytes, and the error that ends it early. -/
structure RangeReader where
  bytes : List UInt8
  err : Option Err
  deriving DecidableEq, Repr

def RangeReader.readAll (f : RangeReader) : Except Err (List UInt8) :=
  match f.err with
  | some err => .error err
  | none => .ok f.bytes

/- `b[off:]`, which panics outside of the slice. -/
def sliceFrom (b : List UInt8) (off : Int) : Option (List UInt8) :=
  if 0 ≤ off ∧ off ≤ b.length then some (b.drop off.toNat) else none

/- `client.OpenLTXFile` of one file from an offset to the end. -/
def openFrom (client : Int → Except Err RangeReader) (off : Int) : Except Err RangeReader :=
  (client off).mapError (Err.wrap "open ltx file")

/- `fetchPageIndexData` once the end of the file has been read. Without a result it panics. -/
def indexFromTail (client : Int → Except Err RangeReader) (info : FileInfo) (b : List UInt8) :
    Option (Except Err RangeReader) :=
  (sliceFrom b (b.length - trailerSize - 8)).bind fun field =>
    let size := int64 (bigEndianUint64 field)
    let off := int64 (b.length - size - trailerSize - 8)
    if 0 < off then (sliceFrom b off).map fun rest => .ok ⟨rest, none⟩
    else some (openFrom client (int64 (info.size - trailerSize - 8 - size)))

def fetchPageIndexData (client : Int → Except Err RangeReader) (info : FileInfo) :
    Option (Except Err RangeReader) :=
  let offset := int64 (info.size - defaultEstimatedPageIndexSize)
  match openFrom client (if offset < 0 then 0 else offset) with
  | .error err => some (.error err)
  | .ok f =>
    match f.readAll with
    | .error err => some (.error (.wrap "read ltx page index" err))
    | .ok b => indexFromTail client info b

/-
  The client yields the object's bytes from an offset on. A
  request past the end may also fail.
-/
structure Yields (client : Int → Except Err RangeReader) (obj : List UInt8) : Prop where
  within : ∀ k : Int, 0 ≤ k → k ≤ obj.length → client k = .ok ⟨obj.drop k.toNat, none⟩
  beyond : ∀ k r, 0 ≤ k → client k = .ok r → r = ⟨obj.drop k.toNat, none⟩

/- A complete LTX file, split at its index block. -/
structure PageIndexFile where
  pages : List UInt8
  index : List UInt8
  trailer : List UInt8
  length_trailer : trailer.length = 16

namespace PageIndexFile

/- From the start of the index block to the end. -/
def indexData (file : PageIndexFile) : List UInt8 :=
  file.index ++ ((LittleEndian.bytes 8 file.index.length).reverse ++ file.trailer)

def bytes (file : PageIndexFile) : List UInt8 :=
  file.pages ++ file.indexData

theorem length_bytes (file : PageIndexFile) :
    file.bytes.length = file.pages.length + file.index.length + 24 := by
  simp [bytes, indexData, file.length_trailer, Nat.add_assoc]

@[simp] theorem drop_pages (file : PageIndexFile) :
    file.bytes.drop file.pages.length = file.indexData :=
  drop_left

/- The length field of a file tells the length of its block. -/
theorem uint64_field (file : PageIndexFile) (hLength : file.bytes.length < 2 ^ 63) :
    bigEndianUint64 (file.bytes.drop (file.bytes.length - 24)) = file.index.length := by
  have hField : file.bytes.drop (file.bytes.length - 24) =
    (LittleEndian.bytes 8 file.index.length).reverse ++ file.trailer := by
    rw [length_bytes, Nat.add_sub_cancel, bytes, indexData, ← append_assoc,
      ← length_append, drop_left]
  rw [length_bytes] at hLength
  rw [hField, bigEndianUint64, take_left' (by simp), reverse_reverse]
  apply LittleEndian.value_bytes_of_lt
  omega

end PageIndexFile

-- Well-Formed Files

variable {b : List UInt8} {client : Int → Except Err RangeReader} {obj : List UInt8} {k : Int}
  {info : FileInfo}

theorem int64_eq {n : Int} (hLow : -2 ^ 63 ≤ n) (hHigh : n < 2 ^ 63) : int64 n = n := by
  apply Int.bmod_eq_of_le <;> omega

theorem estimatedSize_eq : defaultEstimatedPageIndexSize = 32768 := by
  norm_num [defaultEstimatedPageIndexSize]

theorem sliceFrom_eq {off : Int} (hLow : 0 ≤ off) (hHigh : off ≤ b.length) :
    sliceFrom b off = some (b.drop off.toNat) :=
  if_pos ⟨hLow, hHigh⟩

theorem openFrom_within (hYields : Yields client obj) (hLow : 0 ≤ k) (hHigh : k ≤ obj.length) :
    openFrom client k = .ok ⟨obj.drop k.toNat, none⟩ := by
  rw [openFrom, hYields.within k hLow hHigh]
  rfl

/- The first request fails, or it reads the end of the object. -/
theorem fetchPageIndexData_cases (hYields : Yields client obj)
    (hk : k = max 0 (int64 (info.size - defaultEstimatedPageIndexSize))) :
    (∃ err, client k = .error err) ∧ fetchPageIndexData client info ≠ none ∨
    (∀ err, client k ≠ .error err) ∧
      fetchPageIndexData client info = indexFromTail client info (obj.drop k.toNat) := by
  have hMax : (if int64 (info.size - defaultEstimatedPageIndexSize) < 0 then 0
    else int64 (info.size - defaultEstimatedPageIndexSize)) = k := by
    split <;> omega
  simp only [fetchPageIndexData, hMax, openFrom]
  cases hOpen : client k with
  | error err => simp [Except.mapError]
  | ok f =>
    obtain rfl := hYields.beyond k f (by omega) hOpen
    simp [Except.mapError, RangeReader.readAll]

/- The length field of an object is read from any of its ends that holds it. -/
theorem sliceFrom_field {k : Nat} (hLong : 24 ≤ (obj.drop k).length) :
    sliceFrom (obj.drop k) ((obj.drop k).length - trailerSize - 8) =
      some (obj.drop (obj.length - 24)) := by
  have hTail : (obj.drop k).length = obj.length - k := length_drop
  rw [sliceFrom_eq (by simp only [trailerSize]; omega) (by simp only [trailerSize]; omega),
    drop_drop]
  congr 2
  simp only [trailerSize]
  omega

theorem indexFromTail_eq {field} {n : Nat}
    (hField : sliceFrom b (b.length - trailerSize - 8) = some field)
    (hn : bigEndianUint64 field = n) : indexFromTail client info b =
      if 0 < int64 (b.length - int64 n - trailerSize - 8) then
        (sliceFrom b (int64 (b.length - int64 n - trailerSize - 8))).map fun rest =>
          .ok ⟨rest, none⟩
      else some (openFrom client (int64 (info.size - trailerSize - 8 - int64 n))) := by
  subst hn
  rw [indexFromTail, hField, bind_some]

/-
  The one-request path cuts the block out of what was
  fetched, the two-request path asks for it. Both give the
  file from the block on.
-/
theorem PageIndexFile.indexFromTail_bytes (file : PageIndexFile) {k : Nat}
    (hYields : Yields client file.bytes) (hLength : file.bytes.length < 2 ^ 63)
    (hSize : info.size = file.bytes.length) (hk : k ≤ file.pages.length + file.index.length) :
    indexFromTail client info (file.bytes.drop k) = some (.ok ⟨file.indexData, none⟩) := by
  have hParts := file.length_bytes
  have hTail : (file.bytes.drop k).length = file.bytes.length - k := length_drop
  have hIndex : int64 (file.index.length : Int) = file.index.length := by apply int64_eq <;> omega
  have hOff : int64 ((file.bytes.drop k).length - file.index.length - trailerSize - 8) =
    (file.pages.length : Int) - k := by
    rw [int64_eq] <;> simp only [trailerSize] <;> omega
  have hSecond : int64 (info.size - trailerSize - 8 - file.index.length) = file.pages.length := by
    rw [int64_eq] <;> simp only [trailerSize] <;> omega
  have hField := @sliceFrom_field file.bytes k (by omega)
  rw [indexFromTail_eq hField (file.uint64_field hLength), hIndex, hOff, hSecond]
  split
  · have hPages : k + ((file.pages.length : Int) - k).toNat = file.pages.length := by omega
    rw [sliceFrom_eq (by omega) (by omega), drop_drop, map_some, hPages, file.drop_pages]
  · rw [openFrom_within hYields (Int.natCast_nonneg _) (by omega), Int.toNat_natCast,
      file.drop_pages]

theorem fetchPageIndexData_wellFormed (file : PageIndexFile) (hYields : Yields client file.bytes)
    (hLength : file.bytes.length < 2 ^ 63) (hSize : info.size = file.bytes.length) :
    fetchPageIndexData client info = some (.ok ⟨file.indexData, none⟩) := by
  have hParts := file.length_bytes
  have hFirst : int64 (info.size - defaultEstimatedPageIndexSize) = info.size - 32768 := by
    rw [estimatedSize_eq]
    apply int64_eq <;> omega
  have hStart : (max 0 (info.size - 32768)).toNat ≤ file.pages.length + file.index.length := by
    omega
  rcases fetchPageIndexData_cases hYields rfl with ⟨⟨err, hErr⟩, -⟩ | ⟨-, hEq⟩
  · rw [hFirst, hYields.within _ (by omega) (by omega)] at hErr
    contradiction
  · rw [hEq, hFirst]
    exact file.indexFromTail_bytes hYields hLength hSize hStart

-- Other Objects

/-
  The object is long enough for its length field, and the
  length is not one of those whose negative value puts the
  block's start past the end.
-/
def LengthInRange (tail : List UInt8) (field : Nat) : Prop :=
  24 ≤ tail.length ∧ (field ≤ tail.length - 24 + 2 ^ 63 ∨ 2 ^ 64 - 24 ≤ field)

theorem sliceFrom_ne_none_iff {off : Int} : sliceFrom b off ≠ none ↔ 0 ≤ off ∧ off ≤ b.length := by
  simp [sliceFrom]

/- The computed start, with a length that is negative as an `int`, is at most the slice's length. -/
theorem start_le_iff {len n : Nat} (hLen : 24 ≤ len) (hLong : len < 2 ^ 63) (hn : n < 2 ^ 64) :
    (0 < int64 (len - int64 n - trailerSize - 8) → int64 (len - int64 n - trailerSize - 8) ≤ len) ↔
    n ≤ len - 24 + 2 ^ 63 ∨ 2 ^ 64 - 24 ≤ n := by
  simp only [int64, trailerSize, Int.bmod_def]
  omega

theorem bigEndianUint64_lt (b : List UInt8) : bigEndianUint64 b < 2 ^ 64 := by
  have hShort : (b.take 8).length ≤ 8 := length_take_le 8 b
  have hDigits := Nat.ofDigits_lt_base_pow_length (b := 256)
    (l := ((b.take 8).reverse.map UInt8.toNat)) (by decide) (by
      intro d hd
      obtain ⟨byte, -, rfl⟩ := List.mem_map.mp hd
      exact byte.toNat_lt)
  calc bigEndianUint64 b < 256 ^ (b.take 8).length := by
        simpa [bigEndianUint64, LittleEndian.value] using hDigits
    _ ≤ 256 ^ 8 := Nat.pow_le_pow_right (by decide) hShort
    _ = 2 ^ 64 := by decide

theorem fetchPageIndexData_ne_panic_iff (hYields : Yields client obj)
    (hLength : obj.length < 2 ^ 63)
    (hk : k = max 0 (int64 (info.size - defaultEstimatedPageIndexSize))) :
    fetchPageIndexData client info ≠ none ↔ (∃ err, client k = .error err) ∨
      LengthInRange (obj.drop k.toNat) (bigEndianUint64 (obj.drop (obj.length - 24))) := by
  rcases fetchPageIndexData_cases hYields hk with ⟨hErr, hFetch⟩ | ⟨hOpen, hEq⟩
  · exact iff_of_true hFetch (.inl hErr)
  have hTail : (obj.drop k.toNat).length = obj.length - k.toNat := length_drop
  rw [hEq, or_iff_right (fun ⟨err, hErr⟩ => hOpen err hErr), LengthInRange]
  by_cases hLong : 24 ≤ (obj.drop k.toNat).length
  · rw [indexFromTail_eq (sliceFrom_field hLong) rfl,
      ← start_le_iff hLong (by omega) (bigEndianUint64_lt _)]
    split
    · next hPos =>
      rw [Ne, map_eq_none_iff, ← Ne, sliceFrom_ne_none_iff]
      simp only [hPos, hLong, forall_true_left, true_and, hPos.le]
    · next hPos =>
      simp only [hPos, hLong, false_imp_iff, ne_eq, reduceCtorEq, not_false_eq_true, and_true]
  · have hNone : sliceFrom (obj.drop k.toNat)
      ((obj.drop k.toNat).length - trailerSize - 8) = none := by
      apply if_neg
      simp only [trailerSize]
      omega
    simp only [indexFromTail, hNone, bind_none, ne_eq, not_true_eq_false, hLong, false_and]

-- Fetching The Index

theorem page_index_fetched
    (client : Int → Except Err RangeReader)
    (obj : List UInt8)
    (info : FileInfo)
    (hYields : Yields client obj)
    (hLength : obj.length < 2 ^ 63) :
    (∀ file : PageIndexFile,
      obj = file.bytes → info.size = obj.length →
      fetchPageIndexData client info =
        some (.ok ⟨file.indexData, none⟩)) ∧
    (fetchPageIndexData client info ≠ none ↔
      (∃ err,
        client
          (max 0
            (int64
              (info.size -
                defaultEstimatedPageIndexSize))) =
          .error err) ∨
      LengthInRange
        (obj.drop
          (max 0
            (int64
              (info.size -
                defaultEstimatedPageIndexSize))).toNat)
        (bigEndianUint64
          (obj.drop (obj.length - 24)))) := by
  refine ⟨?_, fetchPageIndexData_ne_panic_iff hYields hLength rfl⟩
  rintro file rfl hSize
  exact fetchPageIndexData_wellFormed file hYields hLength hSize

def objectClient (obj : List UInt8) (k : Int) : Except Err RangeReader :=
  if k < 0 then .error (.text "negative offset") else .ok ⟨obj.drop k.toNat, none⟩

theorem objectClient_yields (obj : List UInt8) : Yields (objectClient obj) obj where
  within k hLow _ := if_neg (by omega)
  beyond k r hLow hOpen := by
    rw [objectClient, if_neg (by omega)] at hOpen
    exact (Except.ok.inj hOpen).symm

/- An index that is longer than what is asked for first. -/
def longIndexFile : PageIndexFile :=
  ⟨[1, 2, 3], replicate 40000 5, replicate 16 7, rfl⟩

/- It is fetched with a second request. -/
theorem page_index_fetched_longIndexFile :
    defaultEstimatedPageIndexSize <
      longIndexFile.index.length ∧
    fetchPageIndexData (objectClient longIndexFile.bytes)
      ⟨0, 1, 1, 40027, 0⟩ =
      some (.ok ⟨longIndexFile.indexData, none⟩) := by
  have hIndex : longIndexFile.index.length = 40000 :=
    length_replicate
  have hPages : longIndexFile.pages.length = 3 := rfl
  have hBytes := longIndexFile.length_bytes
  rw [hPages, hIndex] at hBytes
  refine ⟨by rw [hIndex]; decide, ?_⟩
  refine (page_index_fetched _ longIndexFile.bytes
    ⟨0, 1, 1, 40027, 0⟩ (objectClient_yields _)
    (by rw [hBytes]; decide)).1 longIndexFile rfl ?_
  rw [hBytes]
  rfl

/- The object is empty, as after an upload that was cut off. -/
theorem empty_object_panics :
    Yields (objectClient []) [] ∧
    fetchPageIndexData (objectClient []) ⟨0, 1, 1, 0, 0⟩ =
      none :=
  ⟨objectClient_yields [], by decide⟩

end Replicate
