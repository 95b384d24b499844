import Replicate.DB.WAL
import Replicate.Lib.LittleEndian

/-
  The bytes of a WAL file and how `WALReader` reads them.

  The reader is bounded by the size of the file when it was
  opened. SQLite may append to the file at any time, so each
  read sees the file with some more bytes after it.

  The reader here works on bytes, and the one of the WAL
  model on frames. A file of bytes has a header and frames,
  as `WALBytes.frames` decodes them, and reading it is
  reading those.

  Main declarations:
    * `WALBytes.Reader.At.pageMap_eq_frames`
-/

-- Checksums

namespace Replicate

open LittleEndian List

inductive ByteOrder where
  | littleEndian
  | bigEndian
  deriving DecidableEq, Repr

namespace ByteOrder

/- `Uint32`: the number of the first four bytes. -/
def uint32 (bo : ByteOrder) (b : List UInt8) : Nat :=
  match bo with
  | littleEndian => value (b.take 4)
  | bigEndian => value (b.take 4).reverse

/- `WALChecksum`, over units of eight bytes. -/
def walChecksum (bo : ByteOrder) : Checksum → List UInt8 → Checksum
| s, a0 :: a1 :: a2 :: a3 :: a4 :: a5 :: a6 :: a7 :: b =>
  let s0 := s.1 + (UInt32.ofNat (bo.uint32 [a0, a1, a2, a3]) + s.2)
  let s1 := s.2 + (UInt32.ofNat (bo.uint32 [a4, a5, a6, a7]) + s0)
  walChecksum bo (s0, s1) b
| s, _ => s

end ByteOrder

/- Four bytes of a number, the highest first. -/
def bigEndianBytes (n : Nat) : List UInt8 :=
  (bytes 4 n).reverse

theorem bigEndianBytes_uint32 {b} (hLength : 4 ≤ b.length) :
    bigEndianBytes (ByteOrder.bigEndian.uint32 b) = b.take 4 := by
  have hFour : ((b.take 4).reverse).length = 4 := by
    rw [length_reverse, length_take]
    omega
  have hBytes := bytes_value (b.take 4).reverse
  rw [hFour] at hBytes
  unfold bigEndianBytes ByteOrder.uint32
  rw [hBytes, reverse_reverse]

-- The Reader

namespace WALBytes

/- `ReadAt`: fewer bytes than asked for at the end. -/
def readAt (file : List UInt8) (off n : Nat) : List UInt8 :=
  (file.drop off).take n

/- Two words of a header, as salts or as a checksum. -/
def saltsAt (hdr : List UInt8) (i : Nat) : Salts where
  salt1 := ByteOrder.bigEndian.uint32 (hdr.drop i)
  salt2 := ByteOrder.bigEndian.uint32 (hdr.drop (i + 4))

def chksumAt (hdr : List UInt8) (i : Nat) : Checksum :=
  (UInt32.ofNat (ByteOrder.bigEndian.uint32 (hdr.drop i)), UInt32.ofNat
    (ByteOrder.bigEndian.uint32 (hdr.drop (i + 4))))

/-
  A `WALReader`. Its size is the bound captured when it was
  opened, or zero without a bound.
-/
structure Reader where
  size : Nat
  frameN : Nat
  bo : ByteOrder
  pageSize : Nat
  salts : Salts
  chksum : Checksum
  deriving DecidableEq

/- The byte order of the checksums, by the magic number. -/
def byteOrder (magic : Nat) : Option ByteOrder :=
  if magic = 0x377f0682 then some .littleEndian
  else if magic = 0x377f0683 then some .bigEndian
  else none

/- `NewWALReader` and its `readHeader`. -/
def newReader (file : List UInt8) : Except Err Reader :=
  let hdr := readAt file 0 walHeaderSize
  let magic := ByteOrder.bigEndian.uint32 hdr
  let version := ByteOrder.bigEndian.uint32 (hdr.drop 4)
  if hdr.length < walHeaderSize then .error .eof
  else
    match byteOrder magic with
    | none => .error (.text ("invalid wal header magic: " ++ String.ofList (Nat.toDigits 16 magic)))
    | some bo =>
      if bo.walChecksum (0, 0) (hdr.take 24) ≠ chksumAt hdr 24 then .error .eof
      else if version ≠ 3007000 then
        .error (.text ("unsupported wal version: " ++ toString version))
      else
        .ok
          { size := file.length
            frameN := 0
            bo := bo
            pageSize := ByteOrder.bigEndian.uint32 (hdr.drop 8)
            salts := saltsAt hdr 16
            chksum := chksumAt hdr 24 }

namespace Reader

/- `Offset`: where the last read frame begins. -/
def offset (r : Reader) : Nat :=
  if r.frameN = 0 then 0 else walHeaderSize + (r.frameN - 1) * (walFrameHeaderSize + r.pageSize)

def beyondBound (r : Reader) (off n : Nat) : Bool :=
  decide (0 < r.size ∧ r.size < off + n)

/- The frame size is computed in 32 bits. -/
def frameSize (r : Reader) : Nat :=
  (r.pageSize + walFrameHeaderSize) % 2 ^ 32

/-
  `ReadFrame`, given the file at the time of its two reads.
  The checksum of the reader is changed even if it does not
  match.
-/
def readFrame (r : Reader) (hdrFile dataFile : List UInt8) : Except Err (Nat × Nat) × Reader :=
  let offset := walHeaderSize + r.frameN * r.frameSize
  let hdr := readAt hdrFile offset walFrameHeaderSize
  let data := readAt dataFile (offset + walFrameHeaderSize) r.pageSize
  if r.beyondBound offset r.frameSize then (.error .eof, r)
  else if hdr.length ≠ walFrameHeaderSize then (.error .eof, r)
  else if data.length ≠ r.pageSize then (.error .eof, r)
  else if r.salts ≠ saltsAt hdr 8 then (.error .eof, r)
  else if data.length % 8 ≠ 0 then
    -- the assertion of `WALChecksum`
    (.error (.text "misaligned checksum byte slice"), r)
  else
    let chksum := r.bo.walChecksum (r.bo.walChecksum r.chksum (hdr.take 8)) data
    if chksum ≠ chksumAt hdr 16 then (.error .eof, { r with chksum := chksum })
    else
      (.ok (ByteOrder.bigEndian.uint32 hdr, ByteOrder.bigEndian.uint32 (hdr.drop 4)), { r with
        chksum := chksum
        frameN := r.frameN + 1 })

/-
  The loop of `PageMap`. The file may be longer at every
  read, and the context may be done at every round. Fuel
  stands for the rounds.
-/
def pageMapLoop (file : Nat → List UInt8) (done : Nat → Option Err) :
    Nat → Reader → PageOffsets → PageOffsets → Nat → Option (Except Err (PageOffsets × Nat))
| 0, _, _, _, _ => none
| fuel + 1, r, txMap, m, commit =>
  match done r.frameN with
  | some err => some (.error err)
  | none =>
    match r.readFrame (file (2 * r.frameN)) (file (2 * r.frameN + 1)) with
    | (.error err, _) => if err = .eof then some (.ok (m, commit)) else some (.error err)
    | (.ok (pgno, fcommit), r') =>
      if fcommit ≠ 0 then pageMapLoop file done fuel r' [] ((pgno, r'.offset) :: txMap ++ m) fcommit
      else pageMapLoop file done fuel r' ((pgno, r'.offset) :: txMap) m commit

/- `PageMap`: the map, its end and the database size. -/
def pageMap (file : Nat → List UInt8) (done : Nat → Option Err) (fuel : Nat) (r : Reader) :
    Option (Except Err (PageOffsets × Nat × Nat)) :=
  match pageMapLoop file done fuel r [] [] 0 with
  | none => none
  | some (.error err) => some (.error err)
  | some (.ok (m, commit)) =>
    let m := m.filter (fun x => decide (x.1 ≤ commit))
    if m = [] then some (.ok ([], 0, 0))
    else some (.ok (m, PageOffsets.highest m + (walFrameHeaderSize + r.pageSize), commit))

end Reader

-- Frames

/- The header and the data of a frame in a file. -/
def frameHeader (file : List UInt8) (pageSize k : Nat) : List UInt8 :=
  readAt file (walHeaderSize + k * (pageSize + walFrameHeaderSize)) walFrameHeaderSize

def frameData (file : List UInt8) (pageSize k : Nat) : List UInt8 :=
  readAt file (walHeaderSize + k * (pageSize + walFrameHeaderSize) + walFrameHeaderSize) pageSize

def frame (file : List UInt8) (pageSize k : Nat) : WALFrame (List UInt8) :=
  let hdr := frameHeader file pageSize k
  { pgno := ByteOrder.bigEndian.uint32 hdr
    commit := ByteOrder.bigEndian.uint32 (hdr.drop 4)
    salts := saltsAt hdr 8
    chksum := chksumAt hdr 16
    data := frameData file pageSize k }

/- How many frames the file has in full. -/
def frameCount (file : List UInt8) (pageSize : Nat) : Nat :=
  (file.length - walHeaderSize) / (pageSize + walFrameHeaderSize)

def frames (file : List UInt8) (pageSize : Nat) : List (WALFrame (List UInt8)) :=
  (List.range (frameCount file pageSize)).map (frame file pageSize)

/- The format with the checksum of the bytes. -/
def format (bo : ByteOrder) (pageSize : Nat) : WALFormat (List UInt8) where
  pageSize := pageSize
  lockPgno := 0x40000000 / pageSize + 1
  walChecksum c pgno commit data :=
    bo.walChecksum (bo.walChecksum c (bigEndianBytes pgno ++ bigEndianBytes commit)) data

/- A page size that SQLite can write. -/
def IsPageSize (n : Nat) : Prop :=
  ∃ e, 9 ≤ e ∧ e ≤ 16 ∧ n = 2 ^ e

theorem IsPageSize.bounds {n : Nat} (hSize : IsPageSize n) : 512 ≤ n ∧ n ≤ 65536 ∧ n % 8 = 0 := by
  rcases hSize with ⟨e, hLow, hHigh, rfl⟩
  have hPow : 2 ^ e = 512 * 2 ^ (e - 9) := by
    rw [show (512 : Nat) = 2 ^ 9 from rfl, ← Nat.pow_add]
    congr 1
    omega
  have hTop : 2 ^ e ≤ 2 ^ 16 := Nat.pow_le_pow_right (by omega) hHigh
  have hOne : 1 ≤ 2 ^ (e - 9) := Nat.one_le_two_pow
  omega

variable {content : List UInt8} {pageSize k : Nat}

theorem lt_frameCount_iff : k < frameCount content pageSize ↔ walHeaderSize +
    (k + 1) * (pageSize + walFrameHeaderSize) ≤ content.length := by
  have hPos : 0 < pageSize + walFrameHeaderSize := by
    unfold walFrameHeaderSize
    omega
  unfold frameCount
  rw [← Nat.succ_le_iff, Nat.le_div_iff_mul_le hPos]
  have hMul : 0 < (k + 1) * (pageSize + walFrameHeaderSize) := Nat.mul_pos (Nat.succ_pos k) hPos
  change (k + 1) * _ ≤ _ ↔ _
  omega

theorem drop_frames (hFrame : k < frameCount content pageSize) :
    (frames content pageSize).drop k = frame content pageSize k ::
      (frames content pageSize).drop (k + 1) := by
  have hLength : k < (frames content pageSize).length := by
    rw [frames, length_map, length_range]
    exact hFrame
  rw [drop_eq_getElem_cons hLength]
  congr 1
  simp [frames]

theorem readAt_append {off n : Nat} (hWithin : off + n ≤ content.length) (more : List UInt8) :
    readAt (content ++ more) off n = readAt content off n := by
  unfold readAt
  rw [drop_append_of_le_length (by omega), take_append_of_le_length]
  rw [length_drop]
  omega

theorem length_readAt {off n : Nat} (hWithin : off + n ≤ content.length) :
    (readAt content off n).length = n := by
  unfold readAt
  rw [length_take, length_drop]
  omega

theorem walChecksum_frame (hLength : (frameHeader content pageSize k).length = walFrameHeaderSize)
    (bo : ByteOrder) (c : Checksum) :
    (format bo pageSize).walChecksum c (frame content pageSize k).pgno
      (frame content pageSize k).commit
      (frame content pageSize k).data =
      bo.walChecksum (bo.walChecksum c ((frameHeader content pageSize k).take 8))
        (frameData content pageSize k) := by
  unfold walFrameHeaderSize at hLength
  unfold format frame
  dsimp only
  rw [bigEndianBytes_uint32 (by omega), bigEndianBytes_uint32 (by rw [length_drop]; omega),
    show (8 : Nat) = 4 + 4 from rfl, take_add]

-- Reading Frames

namespace Reader

/- A reader of the file, before some frame of it. -/
structure At (content : List UInt8) (r : Reader) (i : Nat) : Prop where
  size : r.size = content.length
  nonempty : walHeaderSize ≤ content.length
  frameN : r.frameN = i
  page : IsPageSize r.pageSize

variable {r : Reader} {i : Nat}

theorem At.frameSize_eq (hAt : At content r i) : r.frameSize = r.pageSize + walFrameHeaderSize := by
  have hPage := hAt.page.bounds
  unfold frameSize walFrameHeaderSize
  omega

theorem At.readFrame_end (hAt : At content r i) (hEnd : frameCount content r.pageSize ≤ i)
    (hdrFile dataFile : List UInt8) : r.readFrame hdrFile dataFile = (.error .eof, r) := by
  have hBeyond : ¬ i < frameCount content r.pageSize := Nat.not_lt.mpr hEnd
  rw [lt_frameCount_iff, Nat.succ_mul] at hBeyond
  have hNonempty := hAt.nonempty
  unfold walHeaderSize at hNonempty
  unfold readFrame
  rw [if_pos]
  unfold beyondBound
  rw [decide_eq_true_eq, hAt.size, hAt.frameSize_eq, hAt.frameN]
  omega

/-
  A complete frame is read as it was when the reader was
  opened, and accepted if its salts and checksum are right.
-/
theorem At.readFrame_eq (hAt : At content r i)
    (hFrame : i < frameCount content r.pageSize) (more more' : List UInt8) :
    r.readFrame (content ++ more) (content ++ more') = let f := frame content r.pageSize i
      let chksum := (format r.bo r.pageSize).walChecksum r.chksum f.pgno f.commit f.data
      if r.salts ≠ f.salts then (.error .eof, r)
      else if chksum ≠ f.chksum then (.error .eof, { r with chksum := chksum })
      else
        (.ok (f.pgno, f.commit), { r with
          chksum := chksum
          frameN := i + 1 }) := by
  have hWithin := lt_frameCount_iff.mp hFrame
  rw [Nat.succ_mul] at hWithin
  have hHeader : readAt (content ++ more) (walHeaderSize + i * (r.pageSize + walFrameHeaderSize))
    walFrameHeaderSize = frameHeader content r.pageSize i :=
    readAt_append (by omega) more
  have hData : readAt (content ++ more') (walHeaderSize + i * (r.pageSize + walFrameHeaderSize) +
    walFrameHeaderSize) r.pageSize = frameData content r.pageSize i :=
    readAt_append (by omega) more'
  have hHeaderLength : (frameHeader content r.pageSize i).length = walFrameHeaderSize :=
    length_readAt (by omega)
  have hDataLength : (frameData content r.pageSize i).length = r.pageSize :=
    length_readAt (by omega)
  have hAligned : ¬ (frameData content r.pageSize i).length % 8 ≠ 0 := by
    have hPage := hAt.page.bounds
    omega
  have hInside : ¬ r.beyondBound (walHeaderSize + i * (r.pageSize + walFrameHeaderSize))
    (r.pageSize + walFrameHeaderSize) = true := by
    unfold beyondBound
    rw [decide_eq_true_eq, hAt.size]
    omega
  unfold readFrame
  rw [hAt.frameSize_eq, hAt.frameN]
  dsimp only
  rw [hHeader, hData, if_neg hInside, if_neg (not_not.mpr hHeaderLength),
    if_neg (not_not.mpr hDataLength), if_neg hAligned]
  simp only [walChecksum_frame hHeaderLength]
  rfl

-- The Page Map Of The Frames

/- The first error of the context in some rounds. -/
def polled (done : Nat → Option Err) (i n : Nat) : Option Err :=
  (range' i n).findSome? done

/- The frames that the reader is going to return. -/
def rest (content : List UInt8) (r : Reader) : List (WALFrame (List UInt8)) :=
  (format r.bo r.pageSize).readFrames r.salts r.chksum ((frames content r.pageSize).drop r.frameN)

/- The reader after a frame that it accepts. -/
def next (r : Reader) (c : Checksum) : Reader :=
  { r with
    chksum := c
    frameN := r.frameN + 1 }

theorem offset_next (r : Reader) (c : Checksum) : (r.next c).offset =
    (format r.bo r.pageSize).offset r.frameN := by
  unfold next offset WALFormat.offset WALFormat.frameSize format
  rw [if_neg (Nat.succ_ne_zero _), Nat.add_sub_cancel, Nat.add_comm r.pageSize]

theorem At.next (hAt : At content r i) (c : Checksum) : At content (r.next c) (i + 1) :=
  ⟨hAt.size, hAt.nonempty, congrArg (· + 1) hAt.frameN, hAt.page⟩

/- A read is the end, or the next frame of the file. -/
theorem At.readFrame_cases (hAt : At content r i) (more more' : List UInt8) :
    (rest content r = [] ∧ ∃ r', r.readFrame (content ++ more)
      (content ++ more') = (.error .eof, r')) ∨
    ∃ f c, r.readFrame (content ++ more) (content ++ more') = (.ok (f.pgno, f.commit), r.next c) ∧
      rest content r = f :: rest content (r.next c) := by
  by_cases hFrame : i < frameCount content r.pageSize
  · rw [hAt.readFrame_eq hFrame, rest, hAt.frameN, drop_frames hFrame, WALFormat.readFrames]
    by_cases hSalts : r.salts ≠ (frame content r.pageSize i).salts
    · rw [if_pos hSalts, if_pos hSalts.symm]
      exact Or.inl ⟨rfl, r, rfl⟩
    rw [if_neg hSalts, if_neg (fun hNe => hSalts hNe.symm)]
    by_cases hSum : (format r.bo r.pageSize).walChecksum r.chksum (frame content r.pageSize i).pgno
      (frame content r.pageSize i).commit
      (frame content r.pageSize i).data ≠ (frame content r.pageSize i).chksum
    · rw [if_pos hSum, if_pos hSum]
      exact Or.inl ⟨rfl, _, rfl⟩
    rw [if_neg hSum, if_neg hSum, not_not.mp hSum]
    refine Or.inr ⟨frame content r.pageSize i, (frame content r.pageSize i).chksum, ?_, ?_⟩
    · rw [Reader.next, hAt.frameN]
    · rw [rest, Reader.next, hAt.frameN]
  · have hEnd := Nat.not_lt.mp hFrame
    refine Or.inl ⟨?_, r, hAt.readFrame_end hEnd _ _⟩
    rw [rest, hAt.frameN, drop_eq_nil_of_le]
    · rfl
    · rw [frames, length_map, length_range]
      exact hEnd

theorem At.pageMapLoop_eq (hAt : At content r i) (appended : Nat → List UInt8)
    (done : Nat → Option Err) {fuel commit : Nat} {txMap m}
    (hFuel : (rest content r).length < fuel) :
    pageMapLoop (fun k => content ++ appended k) done fuel r txMap m commit =
      some (match polled done i ((rest content r).length + 1) with
        | some err => .error err
        | none =>
          .ok ((format r.bo r.pageSize).pageMapLoop i txMap m commit (rest content r))) := by
  -- on the rounds: each one reads the next frame
  induction fuel generalizing r i txMap m commit with
  | zero => exact absurd hFuel (Nat.not_lt_zero _)
  | succ fuel ih =>
    rw [pageMapLoop, hAt.frameN]
    unfold polled
    rw [range'_succ, findSome?_cons]
    cases done i with
    | some err => rfl
    | none =>
      rcases hAt.readFrame_cases (appended (2 * i)) (appended (2 * i + 1)) with
        ⟨hNil, r', hRead⟩ | ⟨f, c, hRead, hTail⟩
      · rw [hRead, hNil]
        rfl
      rw [hRead, hTail, WALFormat.pageMapLoop]
      rw [hTail, length_cons] at hFuel
      dsimp only
      rw [offset_next, hAt.frameN]
      have hLess := Nat.lt_of_succ_lt_succ hFuel
      split
      · rw [ih (hAt.next c) hLess]
        rfl
      · rw [ih (hAt.next c) hLess]
        rfl

/- `PageMap` is that of the frames, whatever is appended. -/
theorem At.pageMap_eq_frames (hAt : At content r i) (appended : Nat → List UInt8)
    (done : Nat → Option Err) {fuel : Nat} (hFuel : (rest content r).length < fuel) :
    pageMap (fun k => content ++ appended k) done fuel r = some (match
      polled done i ((rest content r).length + 1) with
        | some err => .error err
        | none =>
          .ok ((format r.bo r.pageSize).pageMap ⟨i, r.salts, rest content r⟩)) := by
  unfold pageMap WALFormat.pageMap
  rw [hAt.pageMapLoop_eq appended done hFuel]
  cases polled done i ((rest content r).length + 1) with
  | some err => rfl
  | none =>
    dsimp only
    split
    · rfl
    · rw [Nat.add_comm walFrameHeaderSize]
      rfl

theorem at_of_newReader (hOpen : newReader content = .ok r) (hPage : IsPageSize r.pageSize) :
    At content r 0 := by
  unfold newReader at hOpen
  dsimp only at hOpen
  split at hOpen
  · cases hOpen
  rename_i hLength
  unfold readAt at hLength
  rw [drop_zero, length_take] at hLength
  split at hOpen
  · cases hOpen
  split at hOpen
  · cases hOpen
  split at hOpen
  · cases hOpen
  · cases hOpen
    exact ⟨rfl, by omega, rfl, hPage⟩

end Reader

end WALBytes

end Replicate
