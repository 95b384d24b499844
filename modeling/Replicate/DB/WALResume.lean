import Replicate.DB.WALPageMap

/-
  Readers of a WAL file that begin inside of it.

  `NewWALReaderWithOffset` does not read the frames before
  the offset. It takes the checksum that is stored in the
  last one of them and goes on from there. If that frame is
  valid, it is the checksum that a reader from the start
  would have there.

  A panic is an error here: `misaligned` is the assertion
  of `WALChecksum`, and `divideByZero` an integer division.

  Main declarations:
    * `WALBytes.newReaderWithOffset_maps`
    * `WALBytes.isLongestRun_take`
-/

-- Definitions

namespace Replicate

open ByteOrder List

namespace WALBytes

/- The assertion of `WALChecksum`. -/
def misaligned : Err :=
  .text "misaligned checksum byte slice"

def divideByZero : Err :=
  .text "integer divide by zero"

namespace Reader

/-
  The checksum after a frame: that of its bytes, or the one
  that is stored in it.
-/
def nextChksum (r : Reader) (verifyChecksum : Bool) (hdr data : List UInt8) : Checksum :=
  if verifyChecksum then r.bo.walChecksum (r.bo.walChecksum r.chksum (hdr.take 8)) data
  else chksumAt hdr 16

/-
  `readFrame`, which checks the checksum or else takes over
  the one that is stored in the frame.
-/
def readFrameWith (r : Reader) (verifyChecksum : Bool) (hdrFile dataFile : List UInt8) :
    Except Err (Nat × Nat) × Reader :=
  let offset := walHeaderSize + r.frameN * r.frameSize
  let hdr := readAt hdrFile offset walFrameHeaderSize
  let data := readAt dataFile (offset + walFrameHeaderSize) r.pageSize
  if r.beyondBound offset r.frameSize then (.error .eof, r)
  else if hdr.length ≠ walFrameHeaderSize then (.error .eof, r)
  else if data.length ≠ r.pageSize then (.error .eof, r)
  else if r.salts ≠ saltsAt hdr 8 then (.error .eof, r)
  else if verifyChecksum ∧ data.length % 8 ≠ 0 then (.error misaligned, r)
  else
    let chksum := r.nextChksum verifyChecksum hdr data
    if chksum ≠ chksumAt hdr 16 then (.error .eof, { r with chksum := chksum })
    else
      (.ok (bigEndian.uint32 hdr, bigEndian.uint32 (hdr.drop 4)), { r with
        chksum := chksum
        frameN := r.frameN + 1 })

theorem readFrameWith_true (r : Reader) (hdrFile dataFile : List UInt8) :
    r.readFrameWith true hdrFile dataFile = r.readFrame hdrFile dataFile := by
  unfold readFrameWith readFrame nextChksum misaligned
  simp

/-
  The loop of `FrameSaltsUntil`, from an offset. Fuel
  stands for the rounds.
-/
def frameSaltsLoop (file : List UInt8) (last : Salts) (r : Reader) :
    Nat → Nat → List Salts → Option (List Salts)
| 0, _, _ => none
| fuel + 1, offset, m =>
  let hdr := readAt file offset walFrameHeaderSize
  if r.beyondBound offset r.frameSize then some m
  else if hdr.length ≠ walFrameHeaderSize then some m
  else if saltsAt hdr 8 = last then some (saltsAt hdr 8 :: m)
  else frameSaltsLoop file last r fuel (offset + r.frameSize) (saltsAt hdr 8 :: m)

def frameSaltsUntil (file : List UInt8) (last : Salts) (fuel : Nat)
    (r : Reader) : Option (List Salts) :=
  r.frameSaltsLoop file last fuel walHeaderSize []

/- `PageMap` ends with a result, if no context is done. -/
def Maps (content : List UInt8) (r : Reader) (result : PageOffsets × Nat × Nat) : Prop :=
  ∃ enough, ∀ fuel, enough ≤ fuel →
    r.pageMap (fun _ => content) (fun _ => none) fuel = some (.ok result)

end Reader

/- `NewWALReaderWithOffset`. -/
def newReaderWithOffset (file : List UInt8) (off : Nat) (salts : Salts) : Except Err Reader :=
  if off ≤ walHeaderSize then
    .error (.text ("offset (" ++ toString off ++ ") must be greater than the wal header size (" ++
      toString walHeaderSize ++ ")"))
  else
    match newReader file with
    | .error err => .error (.wrap "read header" err)
    | .ok r =>
      if r.frameSize = 0 then .error divideByZero
      else if (off - walHeaderSize) % r.frameSize ≠ 0 then
        .error (.text ("unaligned wal offset " ++ toString off ++
          " for page size " ++ toString r.pageSize))
      else
        let r' := { r with
          salts := salts
          frameN := (off - walHeaderSize) / r.frameSize - 1 }
        match r'.readFrameWith false file file with
        | (.error err, _) => .error (.wrap "prev frame mismatch" err)
        | (.ok _, r'') => .ok r''

/- Where a frame begins. -/
def frameOffset (r : Reader) (k : Nat) : Nat :=
  walHeaderSize + k * (r.pageSize + walFrameHeaderSize)

/- The page map of the frames from `k` on, before `l`. -/
def pieceMap (content : List UInt8) (r : Reader) (k l : Nat) : PageOffsets × Nat × Nat :=
  (format r.bo r.pageSize).pageMap ⟨k, r.salts, (range' k (l - k)).map (frame content r.pageSize)⟩

-- Readers Inside The File

variable {content : List UInt8} {r : Reader} {k l n : Nat}

/- The reader before some frame of the longest run. -/
def resumed (content : List UInt8) (r : Reader) (k : Nat) : Reader :=
  { r with
    frameN := k
    chksum := cumulative content r k }

theorem resumed_zero (hAt : Reader.At content r 0) : resumed content r 0 = r := by
  unfold resumed
  rw [cumulative, ← hAt.frameN]

theorem at_resumed (hAt : Reader.At content r 0) (k : Nat) :
    Reader.At content (resumed content r k) k :=
  ⟨hAt.size, hAt.nonempty, rfl, hAt.page⟩

theorem resumed_maps (hAt : Reader.At content r 0) (hRun : IsLongestRun content r n) (hLe : k ≤ n) :
    (resumed content r k).Maps content (pieceMap content r k n) := by
  have hRest : Reader.rest content (resumed content r k) =
    (range' k (n - k)).map (frame content r.pageSize) :=
    readFrames_drop hAt.size hRun hLe
  refine ⟨n + 1, fun fuel hFuel => ?_⟩
  have hEnough : (Reader.rest content (resumed content r k)).length < fuel := by
    rw [hRest, length_map, length_range']
    omega
  have hMap := (at_resumed hAt k).pageMap_eq_frames (fun _ => []) (fun _ => none) hEnough
  have hCalm : ∀ m, Reader.polled (fun _ => none) k m = none := by
    intro m
    exact findSome?_eq_none_iff.mpr (fun _ _ => rfl)
  simp only [append_nil, hCalm, hRest] at hMap
  exact hMap

/- A valid frame is read, and its checksum taken over. -/
theorem readFrameWith_false (hAt : Reader.At content r 0) (hValid : ValidFrame content r k) :
    ({ r with frameN := k } : Reader).readFrameWith false content content = (.ok
      ((frame content r.pageSize k).pgno, (frame content r.pageSize k).commit),
      resumed content r (k + 1)) := by
  have hComplete := hValid.complete
  rw [hAt.size, Nat.succ_mul] at hComplete
  have hSize : ({ r with frameN := k } : Reader).frameSize = r.pageSize + walFrameHeaderSize :=
    hAt.frameSize_eq
  have hHeaderLength : (frameHeader content r.pageSize k).length = walFrameHeaderSize :=
    length_readAt (by omega)
  have hDataLength : (frameData content r.pageSize k).length = r.pageSize :=
    length_readAt (by omega)
  have hInside : ¬ ({ r with frameN := k } : Reader).beyondBound
    (walHeaderSize + k * (r.pageSize + walFrameHeaderSize))
    (r.pageSize + walFrameHeaderSize) = true := by
    unfold Reader.beyondBound
    rw [decide_eq_true_eq, hAt.size]
    omega
  have hSalts : ¬ r.salts ≠ saltsAt (frameHeader content r.pageSize k) 8 :=
    not_not.mpr hValid.salts.symm
  have hSum : chksumAt (frameHeader content r.pageSize k) 16 = cumulative content r (k + 1) :=
    hValid.chksum
  unfold Reader.readFrameWith
  rw [hSize]
  rw [if_neg hInside]
  change (if (frameHeader content r.pageSize k).length ≠ _ then _ else _) = _
  rw [if_neg (not_not.mpr hHeaderLength)]
  change (if (frameData content r.pageSize k).length ≠ _ then _ else _) = _
  rw [if_neg (not_not.mpr hDataLength)]
  change (if r.salts ≠ saltsAt (frameHeader content r.pageSize k) 8 then _ else _) = _
  rw [if_neg hSalts, if_neg (by simp)]
  simp only [Reader.nextChksum, Bool.false_eq_true, if_false, ne_eq, not_true_eq_false]
  unfold resumed
  rw [← hSum]
  rfl

theorem newReaderWithOffset_eq (hOpen : newReader content = .ok r)
    (hPage : IsPageSize r.pageSize) (hRun : IsLongestRun content r n) (hPos : 1 ≤ k) (hLe : k ≤ n) :
    newReaderWithOffset content (frameOffset r k) r.salts = .ok (resumed content r k) := by
  have hAt := Reader.at_of_newReader hOpen hPage
  have hFrame : 0 < r.pageSize + walFrameHeaderSize := by
    unfold walFrameHeaderSize
    omega
  have hInside : ¬ frameOffset r k ≤ walHeaderSize := by
    have hMul : 0 < k * (r.pageSize + walFrameHeaderSize) := Nat.mul_pos hPos hFrame
    unfold frameOffset
    omega
  have hBytes : frameOffset r k - walHeaderSize = k * (r.pageSize + walFrameHeaderSize) := by
    unfold frameOffset
    omega
  have hRead := readFrameWith_false hAt (hRun.valid (k - 1) (by omega))
  rw [Nat.sub_add_cancel hPos] at hRead
  unfold newReaderWithOffset
  rw [if_neg hInside, hOpen]
  dsimp only
  rw [hAt.frameSize_eq, if_neg (Nat.ne_of_gt hFrame), hBytes,
    Nat.mul_mod_left, if_neg (not_not.mpr rfl),
    Nat.mul_div_cancel k hFrame, hRead]

-- Cut Files

/- A header that is accepted. -/
structure IsHeader (hdr : List UInt8) (r : Reader) : Prop where
  length : ¬ hdr.length < walHeaderSize
  order : byteOrder (bigEndian.uint32 hdr) = some r.bo
  checked : r.bo.walChecksum (0, 0) (hdr.take 24) = chksumAt hdr 24
  version : bigEndian.uint32 (hdr.drop 4) = 3007000
  pageSize : r.pageSize = bigEndian.uint32 (hdr.drop 8)
  salts : r.salts = saltsAt hdr 16
  chksum : r.chksum = chksumAt hdr 24
  frameN : r.frameN = 0

theorem newReader_ok_iff : newReader content = .ok r ↔ IsHeader (readAt content 0 walHeaderSize) r ∧
    r.size = content.length := by
  constructor
  · intro hOpen
    unfold newReader at hOpen
    dsimp only at hOpen
    split at hOpen
    · cases hOpen
    rename_i hLength
    split at hOpen
    · cases hOpen
    rename_i bo hOrder
    split at hOpen
    · cases hOpen
    rename_i hSum
    split at hOpen
    · cases hOpen
    · rename_i hVersion
      cases hOpen
      exact ⟨⟨hLength, hOrder, not_not.mp hSum, not_not.mp hVersion, rfl, rfl, rfl, rfl⟩, rfl⟩
  · rintro ⟨hHeader, hSize⟩
    unfold newReader
    rw [if_neg hHeader.length, hHeader.order]
    dsimp only
    rw [if_neg (not_not.mpr hHeader.checked), if_neg (not_not.mpr hHeader.version),
      ← hHeader.pageSize, ← hHeader.salts, ← hHeader.chksum,
      ← hHeader.frameN, ← hSize]

theorem newReader_take (hOpen : newReader content = .ok r) {size : Nat}
    (hHeader : walHeaderSize ≤ size) (hSize : size ≤ content.length) :
    newReader (content.take size) = .ok { r with size := size } := by
  have hRead : readAt (content.take size) 0 walHeaderSize = readAt content 0 walHeaderSize := by
    unfold readAt
    rw [drop_zero, drop_zero, take_take, Nat.min_eq_left hHeader]
  have hAccepted := (newReader_ok_iff.mp hOpen).1
  apply newReader_ok_iff.mpr
  rw [hRead]
  refine ⟨⟨hAccepted.length, hAccepted.order,
    hAccepted.checked, hAccepted.version, hAccepted.pageSize,
    hAccepted.salts, hAccepted.chksum, hAccepted.frameN⟩, ?_⟩
  rw [length_take, Nat.min_eq_left hSize]

theorem readAt_take {off m size : Nat} (hWithin : off + m ≤ size) :
    readAt (content.take size) off m = readAt content off m := by
  unfold readAt
  rw [drop_take, take_take, Nat.min_eq_left (by omega)]

theorem frameOffset_succ_le (hLt : k < l) :
    frameOffset r k + walFrameHeaderSize + r.pageSize ≤ frameOffset r l := by
  have hMul : (k + 1) * (r.pageSize + walFrameHeaderSize) ≤ l * (r.pageSize + walFrameHeaderSize) :=
    Nat.mul_le_mul_right _ hLt
  rw [Nat.succ_mul] at hMul
  unfold frameOffset
  omega

theorem frameHeader_take (hLt : k < l) : frameHeader (content.take (frameOffset r l)) r.pageSize k =
    frameHeader content r.pageSize k := by
  have hInside := @frameOffset_succ_le r k l hLt
  apply readAt_take
  unfold frameOffset at *
  omega

theorem frameData_take (hLt : k < l) : frameData (content.take (frameOffset r l)) r.pageSize k =
    frameData content r.pageSize k :=
  readAt_take (frameOffset_succ_le hLt)

theorem frame_take (hLt : k < l) : frame (content.take (frameOffset r l)) r.pageSize k =
    frame content r.pageSize k := by
  unfold frame
  rw [frameHeader_take hLt, frameData_take hLt]

theorem cumulative_take {size : Nat} (hLe : k ≤ l) :
    cumulative (content.take (frameOffset r l)) { r with size := size } k =
      cumulative content r k := by
  induction k with
  | zero => rfl
  | succ k ih =>
    rw [cumulative, cumulative, ih (by omega)]
    rw [frameHeader_take hLe, frameData_take hLe]

/- The valid frames of a file that is cut after some. -/
theorem isLongestRun_take (hRun : IsLongestRun content r n) (hLe : l ≤ n) :
    IsLongestRun (content.take (frameOffset r l)) { r with size := frameOffset r l } l := by
  constructor
  · intro k hk
    have hValid := hRun.valid k (by omega)
    refine ⟨?_, ?_, ?_⟩
    · exact Nat.add_le_add_left (Nat.mul_le_mul_right _ hk) _
    · show (frame _ r.pageSize k).salts = r.salts
      rw [frame_take hk]
      exact hValid.salts
    · show (frame _ r.pageSize k).chksum = _
      rw [frame_take hk, cumulative_take hk]
      exact hValid.chksum
  · intro hValid
    have hComplete := hValid.complete
    unfold frameOffset walFrameHeaderSize at hComplete
    dsimp only at hComplete
    rw [Nat.succ_mul] at hComplete
    omega

theorem pieceMap_take {m : Nat} (hLe : m ≤ l) : pieceMap (content.take (frameOffset r l))
    { r with size := frameOffset r l } k m = pieceMap content r k m := by
  have hFrames : (range' k (m - k)).map (frame (content.take (frameOffset r l)) r.pageSize) =
    (range' k (m - k)).map (frame content r.pageSize) := by
    apply map_congr_left
    intro i hi
    rw [mem_range'_1] at hi
    exact frame_take (by omega)
  unfold pieceMap
  rw [hFrames]

end WALBytes

end Replicate
