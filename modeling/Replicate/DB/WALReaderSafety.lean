import Replicate.DB.WALResume

/-
  The reader on any bytes.

  The page size comes from the header and is not checked.
  The frame size is a sum in 32 bits, so it is zero for one
  page size. Then `NewWALReaderWithOffset` divides by zero
  and `FrameSaltsUntil` stays where it is. And `WALChecksum`
  asserts that pages are a multiple of eight bytes. With all
  other page sizes every call returns, whatever the bytes.

  Main declarations:
    * `wal_reader_safe_iff`
    * `wal_reader_panics`
-/

-- Definitions

namespace Replicate

namespace WALBytes

/- Whether an error stands for a panic. -/
def isPanic : Err → Bool
| .wrap _ err => isPanic err
| err => decide (err = misaligned ∨ err = divideByZero)

namespace Reader

/- The readers of a file, after any number of reads. -/
inductive Reached (content : List UInt8) : Reader → Prop where
  | opened {r} (hOpen : newReader content = .ok r) : Reached content r
  | offset {off salts r} (hOff : walHeaderSize < off)
    (hOpen : newReaderWithOffset content off salts = .ok r) :
    Reached content r
  | read {r} (hReached : Reached content r) : Reached content (r.readFrame content content).2

/- `ReadFrame` would have the bytes of a frame. -/
def Readable (content : List UInt8) (r : Reader) (k : Nat) : Prop :=
  r.beyondBound (walHeaderSize + k * r.frameSize) r.frameSize = false ∧
    (readAt content (walHeaderSize + k * r.frameSize)
      walFrameHeaderSize).length = walFrameHeaderSize ∧
    (readAt content (walHeaderSize + k * r.frameSize + walFrameHeaderSize)
      r.pageSize).length = r.pageSize

/- The salts of a frame. -/
def frameSalts (content : List UInt8) (r : Reader) (k : Nat) : Salts :=
  saltsAt (readAt content (walHeaderSize + k * r.frameSize) walFrameHeaderSize) 8

end Reader

/- Every call on a file returns, with a result or an error. -/
structure SafeOn (content : List UInt8) : Prop where
  newReader : ∀ err, newReader content = .error err → isPanic err = false
  newReaderWithOffset : ∀ off salts err, walHeaderSize < off →
    newReaderWithOffset content off salts = .error err → isPanic err = false
  readFrame : ∀ r err, Reader.Reached content r →
    (r.readFrame content content).1 = .error err → isPanic err = false
  pageMap : ∀ r, Reader.Reached content r → ∃ result enough,
    (∀ err, result = .error err → isPanic err = false) ∧
      ∀ fuel, enough ≤ fuel → r.pageMap (fun _ => content) (fun _ => none) fuel = some result
  frameSaltsUntil : ∀ r last, Reader.Reached content r → ∃ result enough, ∀ fuel, enough ≤ fuel →
    r.frameSaltsUntil content last fuel = some result

/-
  The frame size is not zero. If the page size is not a
  multiple of eight, no frame gets to the checksum: not the
  first one after the header, and none after a frame.
-/
structure Harmless (content : List UInt8) (r : Reader) : Prop where
  frameSize : r.frameSize ≠ 0
  first : r.pageSize % 8 ≠ 0 → r.Readable content 0 → r.frameSalts content 0 ≠ r.salts
  next : r.pageSize % 8 ≠ 0 → ∀ k, r.Readable content k →
    r.Readable content (k + 1) → r.frameSalts content (k + 1) ≠ r.frameSalts content k

-- One Read

variable {content : List UInt8} {r rd : Reader} {k off : Nat} {salts : Salts}

theorem isPanic_eof : isPanic .eof = false := by
  decide

/- What one read does. -/
theorem Reader.readFrameWith_cases (content : List UInt8) (r : Reader) (verifyChecksum : Bool) :
    (∃ chksum, r.readFrameWith verifyChecksum content content =
      (.error .eof, { r with chksum := chksum })) ∨
    (verifyChecksum = true ∧ r.pageSize % 8 ≠ 0 ∧ r.Readable content r.frameN ∧
      r.frameSalts content r.frameN = r.salts ∧
      r.readFrameWith verifyChecksum content content = (.error misaligned, r)) ∨
    ((verifyChecksum = true → r.pageSize % 8 = 0) ∧ r.Readable content r.frameN ∧
      r.frameSalts content r.frameN = r.salts ∧
      ∃ page chksum, r.readFrameWith verifyChecksum content content = (.ok page, { r with
        chksum := chksum
        frameN := r.frameN + 1 })) := by
  unfold Reader.readFrameWith Reader.Readable Reader.frameSalts
  dsimp only
  split
  · exact Or.inl ⟨r.chksum, rfl⟩
  rename_i hInside
  rw [Bool.not_eq_true] at hInside
  split
  · exact Or.inl ⟨r.chksum, rfl⟩
  rename_i hHeader
  split
  · exact Or.inl ⟨r.chksum, rfl⟩
  rename_i hData
  split
  · exact Or.inl ⟨r.chksum, rfl⟩
  rename_i hSalts
  have hReadable := And.intro hInside (And.intro (not_not.mp hHeader) (not_not.mp hData))
  have hSame := (not_not.mp hSalts).symm
  have hLength := not_not.mp hData
  split
  · rename_i hMisaligned
    rw [hLength] at hMisaligned
    exact Or.inr (Or.inl ⟨hMisaligned.1, hMisaligned.2, hReadable, hSame, rfl⟩)
  rename_i hAligned
  rw [hLength] at hAligned
  split
  · exact Or.inl ⟨_, rfl⟩
  refine Or.inr (Or.inr ⟨?_, hReadable, hSame, _, _, rfl⟩)
  intro hVerify
  by_contra hOdd
  exact hAligned ⟨hVerify, hOdd⟩

theorem Reader.readFrame_misaligned (hOdd : r.pageSize % 8 ≠ 0)
    (hReadable : r.Readable content r.frameN) (hSalts : r.frameSalts content r.frameN = r.salts) :
    r.readFrame content content = (.error misaligned, r) := by
  rcases hReadable with ⟨hInside, hHeader, hData⟩
  unfold Reader.frameSalts at hSalts
  rw [← Reader.readFrameWith_true]
  unfold Reader.readFrameWith
  rw [if_neg (by simp [hInside]), if_neg (not_not.mpr hHeader), if_neg (not_not.mpr hData),
    if_neg (not_not.mpr hSalts.symm), if_pos]
  rw [hData]
  exact ⟨rfl, hOdd⟩

theorem Reader.readFrameWith_unverified (hReadable : r.Readable content r.frameN)
    (hSalts : r.frameSalts content r.frameN = r.salts) :
    ∃ page chksum, r.readFrameWith false content content = (.ok page, { r with
      chksum := chksum
      frameN := r.frameN + 1 }) := by
  rcases hReadable with ⟨hInside, hHeader, hData⟩
  unfold Reader.frameSalts at hSalts
  unfold Reader.readFrameWith Reader.nextChksum
  rw [if_neg (by simp [hInside]), if_neg (not_not.mpr hHeader), if_neg (not_not.mpr hData),
    if_neg (not_not.mpr hSalts.symm), if_neg (by simp),
    if_neg (by simp), if_neg (by simp)]
  exact ⟨_, _, rfl⟩

theorem Reader.Readable.lt (hReadable : r.Readable content k) (hSize : 0 < r.size)
    (hFrame : r.frameSize ≠ 0) : k < r.size := by
  have hInside := hReadable.1
  unfold Reader.beyondBound at hInside
  rw [decide_eq_false_iff_not] at hInside
  have hMul : k ≤ k * r.frameSize := Nat.le_mul_of_pos_right k (Nat.pos_of_ne_zero hFrame)
  omega

-- Readers Of A File

/-
  A reader of the file that was opened as `r`. If pages are
  misaligned it is before the first frame, or after a frame
  with its salts that it was opened at.
-/
structure Reader.Of (content : List UInt8) (r rd : Reader) : Prop where
  size : rd.size = r.size
  pageSize : rd.pageSize = r.pageSize
  place : r.pageSize % 8 ≠ 0 → (rd.frameN = 0 ∧ rd.salts = r.salts) ∨
    ∃ k, rd.frameN = k + 1 ∧ r.Readable content k ∧ rd.salts = r.frameSalts content k

theorem Reader.Of.frameSize (hOf : Reader.Of content r rd) : rd.frameSize = r.frameSize := by
  unfold Reader.frameSize
  rw [hOf.pageSize]

theorem Reader.Of.readable_iff (hOf : Reader.Of content r rd) :
    rd.Readable content k ↔ r.Readable content k := by
  unfold Reader.Readable Reader.beyondBound
  rw [hOf.frameSize, hOf.pageSize, hOf.size]

theorem Reader.Of.frameSalts (hOf : Reader.Of content r rd) (k : Nat) :
    rd.frameSalts content k = r.frameSalts content k := by
  unfold Reader.frameSalts
  rw [hOf.frameSize]

theorem size_pos (hOpen : newReader content = .ok r) : 0 < r.size := by
  rcases newReader_ok_iff.mp hOpen with ⟨hHeader, hSize⟩
  have hLength := hHeader.length
  unfold readAt walHeaderSize at hLength
  rw [List.drop_zero, List.length_take] at hLength
  omega

theorem newReaderWithOffset_ok (hOpen : newReader content = .ok r)
    (hOffset : newReaderWithOffset content off salts = .ok rd) :
    ∃ k chksum, r.Readable content k ∧ r.frameSalts content k = salts ∧ rd = { r with
      salts := salts
      chksum := chksum
      frameN := k + 1 } := by
  unfold newReaderWithOffset at hOffset
  split at hOffset
  · cases hOffset
  rw [hOpen] at hOffset
  dsimp only at hOffset
  split at hOffset
  · cases hOffset
  split at hOffset
  · cases hOffset
  split at hOffset
  · cases hOffset
  rename_i page r' hRead
  cases hOffset
  rcases Reader.readFrameWith_cases content { r with
    salts := salts
    frameN := (off - walHeaderSize) / r.frameSize - 1 } false with
    ⟨chksum, hEof⟩ | ⟨hVerify, _⟩ | ⟨_, hReadable, hSalts, page', chksum, hOk⟩
  · rw [hEof] at hRead
    simp at hRead
  · simp at hVerify
  · rw [hOk, Prod.mk.injEq] at hRead
    exact ⟨_, chksum, hReadable, hSalts, hRead.2.symm⟩

theorem Reader.Of.read (hOf : Reader.Of content r rd) :
    Reader.Of content r (rd.readFrame content content).2 := by
  rw [← Reader.readFrameWith_true]
  rcases Reader.readFrameWith_cases content rd true with
    ⟨chksum, hEof⟩ | ⟨_, _, _, _, hPanic⟩ | ⟨hAligned, _, _, page, chksum, hOk⟩
  · rw [hEof]
    exact ⟨hOf.size, hOf.pageSize, hOf.place⟩
  · rw [hPanic]
    exact hOf
  rw [hOk]
  refine ⟨hOf.size, hOf.pageSize, fun hOdd => ?_⟩
  rw [← hOf.pageSize] at hOdd
  exact absurd (hAligned rfl) hOdd

theorem Reader.Reached.of (hOpen : newReader content = .ok r)
    (hReached : Reader.Reached content rd) :
    Reader.Of content r rd := by
  induction hReached with
  | opened hSame =>
    rw [hOpen] at hSame
    cases hSame
    exact ⟨rfl, rfl, fun _ => Or.inl ⟨(newReader_ok_iff.mp hOpen).1.frameN, rfl⟩⟩
  | offset hOff hOffset =>
    rcases newReaderWithOffset_ok hOpen hOffset with ⟨k, chksum, hReadable, hSalts, rfl⟩
    exact ⟨rfl, rfl, fun _ => Or.inr ⟨k, rfl, hReadable, hSalts.symm⟩⟩
  | read hReached ih => exact ih.read

theorem Harmless.read_cases (hHarmless : Harmless content r) (hOf : Reader.Of content r rd) :
    (∃ rd', rd.readFrame content content = (.error .eof, rd')) ∨
    (r.Readable content rd.frameN ∧ ∃ page rd', rd.readFrame content content = (.ok page, rd') ∧
      rd'.frameN = rd.frameN + 1 ∧
      Reader.Of content r rd') := by
  have hNext := hOf.read
  rw [← Reader.readFrameWith_true] at hNext ⊢
  rcases Reader.readFrameWith_cases content rd true with
    ⟨chksum, hEof⟩ | ⟨_, hOdd, hReadable, hSalts, _⟩ | ⟨_, hReadable, _, page, chksum, hOk⟩
  · exact Or.inl ⟨_, hEof⟩
  · rw [hOf.readable_iff] at hReadable
    rw [hOf.frameSalts] at hSalts
    rw [hOf.pageSize] at hOdd
    rcases hOf.place hOdd with ⟨hZero, hHeader⟩ | ⟨k, hSucc, hBefore, hSame⟩
    · rw [hZero] at hReadable hSalts
      exact absurd (hSalts.trans hHeader) (hHarmless.first hOdd hReadable)
    · rw [hSucc] at hReadable hSalts
      exact absurd (hSalts.trans hSame) (hHarmless.next hOdd k hBefore hReadable)
  · rw [hOk] at hNext
    rw [hOf.readable_iff] at hReadable
    exact Or.inr ⟨hReadable, page, _, hOk, rfl, hNext⟩

-- Loops

/- The loop of `PageMap` ends: each round has a new frame. -/
theorem Harmless.pageMapLoop_ends (hHarmless : Harmless content r)
    (hSize : 0 < r.size) (hOf : Reader.Of content r rd) (txMap m : PageOffsets) (commit : Nat) :
    ∃ result, ∀ fuel, r.size - rd.frameN < fuel →
      rd.pageMapLoop (fun _ => content) (fun _ => none) fuel
        txMap m commit = some (.ok result) := by
  induction hLeft : r.size - rd.frameN using Nat.strongRecOn generalizing rd txMap m commit with
  | ind left ih =>
    rcases hHarmless.read_cases hOf with
      ⟨rd', hEof⟩ | ⟨hReadable, ⟨pgno, fcommit⟩, rd', hOk, hNext, hOf'⟩
    · refine ⟨(m, commit), fun fuel hFuel => ?_⟩
      cases fuel with
      | zero => exact absurd hFuel (Nat.not_lt_zero _)
      | succ fuel =>
        rw [Reader.pageMapLoop, hEof]
        rfl
    have hInside := hReadable.lt hSize hHarmless.frameSize
    have hLess : r.size - rd'.frameN < left := by omega
    by_cases hCommit : fcommit ≠ 0
    · rcases ih _ hLess hOf' [] ((pgno, rd'.offset) :: txMap ++ m) fcommit rfl
        with ⟨result, hEnds⟩
      refine ⟨result, fun fuel hFuel => ?_⟩
      cases fuel with
      | zero => exact absurd hFuel (Nat.not_lt_zero _)
      | succ fuel =>
        rw [Reader.pageMapLoop, hOk]
        dsimp only
        rw [if_pos hCommit]
        exact hEnds fuel (by omega)
    · rcases ih _ hLess hOf' ((pgno, rd'.offset) :: txMap) m commit rfl with ⟨result, hEnds⟩
      refine ⟨result, fun fuel hFuel => ?_⟩
      cases fuel with
      | zero => exact absurd hFuel (Nat.not_lt_zero _)
      | succ fuel =>
        rw [Reader.pageMapLoop, hOk]
        dsimp only
        rw [if_neg hCommit]
        exact hEnds fuel (by omega)

/- So does that of `FrameSaltsUntil`. -/
theorem Harmless.frameSaltsLoop_ends (hHarmless : Harmless content r) (hSize : 0 < r.size)
    (hOf : Reader.Of content r rd) (last : Salts) (offset : Nat) (m : List Salts) :
    ∃ result, ∀ fuel, r.size - offset < fuel →
      rd.frameSaltsLoop content last fuel offset m = some result := by
  induction hLeft : r.size - offset using Nat.strongRecOn generalizing offset m with
  | ind left ih =>
    have hStep := hHarmless.frameSize
    rw [← hOf.frameSize] at hStep
    by_cases hBeyond : rd.beyondBound offset rd.frameSize = true
    · refine ⟨m, fun fuel hFuel => ?_⟩
      cases fuel with
      | zero => exact absurd hFuel (Nat.not_lt_zero _)
      | succ fuel => rw [Reader.frameSaltsLoop, if_pos hBeyond]
    have hInside := hBeyond
    unfold Reader.beyondBound at hInside
    rw [decide_eq_true_eq, hOf.size] at hInside
    rcases ih (r.size - (offset + rd.frameSize)) (by omega) (offset + rd.frameSize)
      (saltsAt (readAt content offset walFrameHeaderSize) 8 :: m) rfl with ⟨result, hEnds⟩
    by_cases hHeader : (readAt content offset walFrameHeaderSize).length ≠ walFrameHeaderSize
    · refine ⟨m, fun fuel hFuel => ?_⟩
      cases fuel with
      | zero => exact absurd hFuel (Nat.not_lt_zero _)
      | succ fuel => rw [Reader.frameSaltsLoop, if_neg hBeyond, if_pos hHeader]
    by_cases hLast : saltsAt (readAt content offset walFrameHeaderSize) 8 = last
    · refine ⟨saltsAt (readAt content offset walFrameHeaderSize) 8 :: m, fun fuel hFuel => ?_⟩
      cases fuel with
      | zero => exact absurd hFuel (Nat.not_lt_zero _)
      | succ fuel => rw [Reader.frameSaltsLoop, if_neg hBeyond, if_neg hHeader, if_pos hLast]
    refine ⟨result, fun fuel hFuel => ?_⟩
    cases fuel with
    | zero => exact absurd hFuel (Nat.not_lt_zero _)
    | succ fuel =>
      rw [Reader.frameSaltsLoop, if_neg hBeyond, if_neg hHeader, if_neg hLast]
      exact hEnds fuel (by omega)

-- All Calls

theorem newReaderWithOffset_calm {err : Err} (hOpen : newReader content = .ok r)
    (hFrame : r.frameSize ≠ 0) (hOff : walHeaderSize < off)
    (hOffset : newReaderWithOffset content off salts = .error err) : isPanic err = false := by
  unfold newReaderWithOffset at hOffset
  rw [if_neg (Nat.not_le.mpr hOff), hOpen] at hOffset
  dsimp only at hOffset
  rw [if_neg hFrame] at hOffset
  split at hOffset
  · cases hOffset
    unfold isPanic misaligned divideByZero
    rw [decide_eq_false_iff_not]
    simp only [Err.text.injEq]
    rintro (hSame | hSame)
    · have hHead := congrArg (fun s => s.toList.head?) hSame
      simp at hHead
    · have hHead := congrArg (fun s => s.toList.head?) hSame
      simp at hHead
  · split at hOffset
    · rename_i hRead
      cases hOffset
      rcases Reader.readFrameWith_cases content { r with
        salts := salts
        frameN :=
          (off - walHeaderSize) / r.frameSize - 1 }
          false with
        ⟨chksum, hEof⟩ | ⟨hVerify, _⟩ | ⟨_, _, _, page, chksum, hOk⟩
      · rw [hEof, Prod.mk.injEq, Except.error.injEq] at hRead
        rw [isPanic, ← hRead.1]
        exact isPanic_eof
      · simp at hVerify
      · rw [hOk] at hRead
        simp at hRead
    · cases hOffset

theorem Harmless.safeOn (hOpen : newReader content = .ok r) (hHarmless : Harmless content r) :
    SafeOn content := by
  have hSize := size_pos hOpen
  constructor
  case newReader =>
    intro err hError
    rw [hOpen] at hError
    cases hError
  case newReaderWithOffset =>
    intro off salts err hOff hOffset
    exact newReaderWithOffset_calm hOpen hHarmless.frameSize hOff hOffset
  case readFrame =>
    intro rd err hReached hError
    rcases hHarmless.read_cases (hReached.of hOpen) with ⟨rd', hEof⟩ | ⟨_, page, rd', hOk, _⟩
    · rw [hEof] at hError
      cases hError
      exact isPanic_eof
    · rw [hOk] at hError
      cases hError
  case pageMap =>
    intro rd hReached
    rcases hHarmless.pageMapLoop_ends hSize (hReached.of hOpen) [] [] 0 with ⟨⟨m, commit⟩, hEnds⟩
    have hMap : ∃ result, ∀ fuel, r.size - rd.frameN < fuel →
      rd.pageMap (fun _ => content) (fun _ => none) fuel = some (.ok result) := by
      by_cases hNone : m.filter (fun x => decide (x.1 ≤ commit)) = []
      · refine ⟨([], 0, 0), fun fuel hFuel => ?_⟩
        unfold Reader.pageMap
        rw [hEnds fuel hFuel]
        exact if_pos hNone
      refine ⟨(m.filter (fun x => decide (x.1 ≤ commit)), PageOffsets.highest
        (m.filter (fun x => decide (x.1 ≤ commit))) + (walFrameHeaderSize + rd.pageSize),
        commit), fun fuel hFuel => ?_⟩
      unfold Reader.pageMap
      rw [hEnds fuel hFuel]
      exact if_neg hNone
    rcases hMap with ⟨result, hResult⟩
    exact ⟨.ok result, r.size - rd.frameN + 1, by simp, fun fuel hFuel => hResult fuel (by omega)⟩
  case frameSaltsUntil =>
    intro rd last hReached
    rcases hHarmless.frameSaltsLoop_ends hSize (hReached.of hOpen) last walHeaderSize [] with
      ⟨result, hEnds⟩
    exact ⟨result, r.size - walHeaderSize + 1, fun fuel hFuel => hEnds fuel (by omega)⟩

theorem newReaderWithOffset_readable (hOpen : newReader content = .ok r) (hFrame : r.frameSize ≠ 0)
    (hReadable : r.Readable content k) :
    ∃ rd, Reader.Reached content rd ∧ rd.frameN = k + 1 ∧ rd.salts = r.frameSalts content k ∧
      Reader.Of content r rd := by
  have hPos := Nat.pos_of_ne_zero hFrame
  have hOff : walHeaderSize < walHeaderSize + (k + 1) * r.frameSize := by
    have hMul : 0 < (k + 1) * r.frameSize := Nat.mul_pos (Nat.succ_pos k) hPos
    omega
  have hRead := @Reader.readFrameWith_unverified content { r with
    salts := r.frameSalts content k
    frameN := k } hReadable rfl
  have hOffset : ∃ rd, newReaderWithOffset content (walHeaderSize + (k + 1) * r.frameSize)
    (r.frameSalts content k) = .ok rd ∧ rd.frameN = k + 1 ∧ rd.salts = r.frameSalts content k := by
    unfold newReaderWithOffset
    rw [if_neg (Nat.not_le.mpr hOff), hOpen]
    dsimp only
    rw [if_neg hFrame, Nat.add_sub_cancel_left, Nat.mul_mod_left, if_neg (not_not.mpr rfl),
      Nat.mul_div_cancel _ hPos, Nat.add_sub_cancel]
    rcases hRead with ⟨page, chksum, hOk⟩
    rw [hOk]
    exact ⟨_, rfl, rfl, rfl⟩
  rcases hOffset with ⟨rd, hOk, hFrameN, hSalts⟩
  have hReached := Reader.Reached.offset hOff hOk
  exact ⟨rd, hReached, hFrameN, hSalts, hReached.of hOpen⟩

/- A call that panics on any other file. -/
theorem harmless_of_safeOn (hOpen : newReader content = .ok r) (hSafe : SafeOn content) :
    Harmless content r := by
  have hFrame : r.frameSize ≠ 0 := by
    intro hZero
    have hPanic : newReaderWithOffset content (walHeaderSize + 1)
      r.salts = .error divideByZero := by
      unfold newReaderWithOffset
      rw [if_neg (by omega), hOpen]
      exact if_pos hZero
    have hCalm := hSafe.newReaderWithOffset _ _ _ (Nat.lt_succ_self walHeaderSize) hPanic
    simp [isPanic, divideByZero] at hCalm
  -- a read that gets to the assertion
  have hNever : ∀ rd, Reader.Reached content rd → rd.pageSize % 8 ≠ 0 →
    rd.Readable content rd.frameN → rd.frameSalts content rd.frameN ≠ rd.salts := by
    intro rd hReached hOdd hReadable hSalts
    have hRead := Reader.readFrame_misaligned hOdd hReadable hSalts
    have hCalm := hSafe.readFrame rd misaligned hReached (congrArg Prod.fst hRead)
    cases hCalm
  refine ⟨hFrame, ?_, ?_⟩
  · intro hOdd hReadable
    have hZero := (newReader_ok_iff.mp hOpen).1.frameN
    rw [← hZero] at hReadable ⊢
    exact hNever r (.opened hOpen) hOdd hReadable
  · intro hOdd k hBefore hReadable
    rcases newReaderWithOffset_readable hOpen hFrame
      hBefore with ⟨rd, hReached, hFrameN, hSalts, hOf⟩
    rw [← hSalts, ← hOf.frameSalts, ← hFrameN]
    rw [← hOf.readable_iff, ← hFrameN] at hReadable
    rw [← hOf.pageSize] at hOdd
    exact hNever rd hReached hOdd hReadable

end WALBytes

/-
  All calls on a file with an accepted header return exactly
  if its frame size is not zero and no misaligned frame gets
  to the checksum.
-/
theorem wal_reader_safe_iff
    (content : List UInt8)
    (r : WALBytes.Reader)
    (hOpen : WALBytes.newReader content = .ok r) :
    WALBytes.SafeOn content ↔ WALBytes.Harmless content r :=
  ⟨fun hSafe => WALBytes.harmless_of_safeOn hOpen hSafe, fun hHarmless => hHarmless.safeOn hOpen⟩

/- A page size of SQLite is harmless. -/
theorem tornWAL_safe : WALBytes.SafeOn tornWAL := by
  refine (wal_reader_safe_iff tornWAL tornReader newReader_tornWAL).mpr ⟨by decide, ?_, ?_⟩
  · exact fun hOdd => absurd rfl hOdd
  · exact fun hOdd => absurd rfl hOdd

/- The frame size of this header is zero, in 32 bits. -/
def zeroStepWAL : List UInt8 :=
  [55, 127, 6, 130, 0, 45, 226, 24, 255, 255, 255, 232, 0, 0, 0, 0, 0, 0, 0, 1, 0, 0, 0, 2,
   167, 199, 3, 17, 74, 158, 218, 181] ++ List.replicate 24 0

def zeroStepReader : WALBytes.Reader where
  size := 56
  frameN := 0
  bo := .littleEndian
  pageSize := 4294967272
  salts := ⟨1, 2⟩
  chksum := (2814837521, 1251924661)

def oddPageWAL : List UInt8 :=
  [55, 127, 6, 130, 0, 45, 226, 24, 0, 0, 0, 12, 0, 0, 0, 0, 0, 0, 0, 1, 0, 0, 0, 2,
   237, 199, 3, 19, 179, 158, 218, 184,
   0, 0, 0, 1, 0, 0, 0, 1,
   0, 0, 0, 1, 0, 0, 0, 2] ++ List.replicate 20 0

def oddPageReader : WALBytes.Reader where
  size := 68
  frameN := 0
  bo := .littleEndian
  pageSize := 12
  salts := ⟨1, 2⟩
  chksum := (3989242643, 3013532344)

theorem frameSaltsLoop_zeroStep (fuel : Nat) (m : List Salts) :
    zeroStepReader.frameSaltsLoop zeroStepWAL ⟨1, 1⟩ fuel walHeaderSize m = none := by
  induction fuel generalizing m with
  | zero => rfl
  | succ fuel ih => exact ih _

/-
  `NewWALReaderWithOffset` divides by zero at any offset,
  `FrameSaltsUntil` does not end, and `ReadFrame` gets to
  the assertion.
-/
theorem wal_reader_panics :
    WALBytes.newReader zeroStepWAL = .ok zeroStepReader ∧
    (∀ off salts,
      walHeaderSize < off →
      WALBytes.newReaderWithOffset zeroStepWAL off salts =
        .error WALBytes.divideByZero) ∧
    (∀ fuel,
      zeroStepReader.frameSaltsUntil zeroStepWAL ⟨1, 1⟩
        fuel = none) ∧
    WALBytes.newReader oddPageWAL = .ok oddPageReader ∧
    (oddPageReader.readFrame oddPageWAL oddPageWAL).1 =
      .error WALBytes.misaligned := by
  have hOpen : WALBytes.newReader zeroStepWAL = .ok zeroStepReader := by decide +kernel
  refine ⟨hOpen, ?_, ?_, by decide +kernel, by decide +kernel⟩
  · intro off salts hOff
    unfold WALBytes.newReaderWithOffset
    rw [if_neg (Nat.not_le.mpr hOff), hOpen]
    exact if_pos (by decide)
  · intro fuel
    exact frameSaltsLoop_zeroStep fuel []

end Replicate
