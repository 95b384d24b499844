import Replicate.DB.WALResume

/-
  The WAL range in the header of a snapshot.

  `SnapshotReader` takes the end of the range from the page
  map, which counts frames up to the last commit. It takes
  the beginning from the reader, which has read all valid
  frames. So two or more frames after the last commit make
  the size negative, and the encoder refuses the header.
  Without any commit the range ends past the header of the
  WAL, and is written.

  Main declarations:
    * `snapshot_header_range_iff`
    * `snapshot_header_past_commits`
-/

-- The Header

namespace Replicate

open WALFormat
open List hiding format

namespace WALBytes

/-
  The reader after `PageMap`: all frames up to the first
  error have been read. Fuel stands for the rounds.
-/
def Reader.drained (file : Nat → List UInt8) : Nat → Reader → Option Reader
| 0, _ => none
| fuel + 1, r =>
  match r.readFrame (file (2 * r.frameN)) (file (2 * r.frameN + 1)) with
  | (.error _, r') => some r'
  | (.ok _, r') => drained file fuel r'

end WALBytes

/- What `ltx.Header` has in a snapshot. -/
structure SnapshotHeader where
  pageSize : Nat
  commit : Nat
  minTXID : Nat
  maxTXID : Nat
  timestamp : Int
  walOffset : Int
  walSize : Int
  walSalts : Salts

/- What `SnapshotReader` has read before its goroutine. -/
structure SnapshotStart where
  pageSize : Nat
  commit : Nat
  txid : Nat
  timestamp : Int

/-
  The checks of `EncodeHeader`, which the ltx library makes.
  It refuses a negative size, and writes a header whose
  page size, TXIDs and range are in order. A range that
  begins at 0 is left open here.
-/
structure HeaderEncoder where
  validate : SnapshotHeader → Option Err
  negative : ∀ h, h.walSize < 0 → ∃ err, validate h = some err
  written : ∀ h, WALBytes.IsPageSize h.pageSize →
    1 ≤ h.minTXID → h.minTXID ≤ h.maxTXID →
    0 < h.walOffset → 0 ≤ h.walSize → validate h = none

def HeaderEncoder.encodeHeader (enc : HeaderEncoder)
    (h : SnapshotHeader) : Except Err SnapshotHeader :=
  match enc.validate h with
  | some err => .error (.wrap "encode ltx snapshot header" err)
  | none => .ok h

/-
  The header that the goroutine of `SnapshotReader` encodes,
  given the WAL when it is opened and what is appended to it
  before each read.
-/
def snapshotHeader (enc : HeaderEncoder) (db : SnapshotStart)
    (content : List UInt8) (appended : Nat → List UInt8)
    (done : Nat → Option Err) (fuel : Nat) :
    Option (Except Err SnapshotHeader) :=
  match WALBytes.newReader content with
  | .error err => some (.error (.wrap "new wal reader" err))
  | .ok r =>
    match r.pageMap (fun k => content ++ appended k) done fuel,
      r.drained (fun k => content ++ appended k) fuel with
    | some (.error err), _ => some (.error (.wrap "page map" err))
    | some (.ok (_, maxOffset, walCommit)), some rd =>
      some (enc.encodeHeader
        { pageSize := db.pageSize
          commit := if 0 < walCommit then walCommit else db.commit
          minTXID := 1
          maxTXID := db.txid
          timestamp := db.timestamp
          walOffset := rd.offset
          walSize := if 0 < maxOffset then (maxOffset : Int) - rd.offset else 0
          walSalts := rd.salts })
    | _, _ => none

/-
  The range has a size, and ends with the last committed
  frame, which is frame `t`. Without one it ends with the
  header of the WAL, or is not there.
-/
structure NamesRange (r : WALBytes.Reader) (t : Nat) (h : SnapshotHeader) : Prop where
  size : 0 ≤ h.walSize
  ends : 0 < t → h.walOffset + h.walSize = (WALBytes.frameOffset r t : Nat)
  none : t = 0 → h.walOffset + h.walSize = (walHeaderSize : Nat) ∨ h.walOffset + h.walSize = 0

/-
  At most one of the `n` valid frames is after the last
  commit, which names its own page. Or no page is named by
  it, and there is exactly one frame after it.
-/
def SmallTail (content : List UInt8) (r : WALBytes.Reader) (n t : Nat) : Prop :=
  n ≤ t + 1 ∧ (0 < t → (WALBytes.frame content r.pageSize (t - 1)).pgno ≤
    (WALBytes.frame content r.pageSize (t - 1)).commit ∨
      (n = t + 1 ∧ ∀ k, k < t → (WALBytes.frame content r.pageSize (t - 1)).commit <
        (WALBytes.frame content r.pageSize k).pgno))

-- The Reader After The Page Map

namespace WALBytes

variable {content : List UInt8} {r : Reader} {i n t : Nat}

theorem Reader.readFrame_error {hdrFile dataFile} {err : Err} {r'}
    (hRead : r.readFrame hdrFile dataFile = (.error err, r')) :
    r'.frameN = r.frameN ∧ r'.pageSize = r.pageSize ∧ r'.salts = r.salts := by
  unfold Reader.readFrame at hRead
  dsimp only at hRead
  split at hRead
  · cases hRead
    exact ⟨rfl, rfl, rfl⟩
  split at hRead
  · cases hRead
    exact ⟨rfl, rfl, rfl⟩
  split at hRead
  · cases hRead
    exact ⟨rfl, rfl, rfl⟩
  split at hRead
  · cases hRead
    exact ⟨rfl, rfl, rfl⟩
  split at hRead
  · cases hRead
    exact ⟨rfl, rfl, rfl⟩
  split at hRead
  · cases hRead
    exact ⟨rfl, rfl, rfl⟩
  · cases hRead

theorem Reader.At.drained (hAt : Reader.At content r i) (appended : Nat → List UInt8) {fuel : Nat}
    (hFuel : (Reader.rest content r).length < fuel) :
    ∃ rd, r.drained (fun k => content ++ appended k) fuel = some rd ∧
      rd.frameN = i + (Reader.rest content r).length ∧
      rd.pageSize = r.pageSize ∧ rd.salts = r.salts := by
  induction fuel generalizing r i with
  | zero => exact absurd hFuel (Nat.not_lt_zero _)
  | succ fuel ih =>
    rw [Reader.drained]
    rcases hAt.readFrame_cases (appended (2 * r.frameN)) (appended (2 * r.frameN + 1)) with
      ⟨hNil, r', hRead⟩ | ⟨f, c, hRead, hTail⟩
    · have hStays := Reader.readFrame_error hRead
      rw [hRead, hNil]
      exact ⟨r', rfl, hStays.1.trans hAt.frameN, hStays.2⟩
    rw [hTail, length_cons] at hFuel ⊢
    rw [hRead]
    rcases ih (hAt.next c) (Nat.lt_of_succ_lt_succ hFuel) with ⟨rd, hDrained, hFrameN, hSame⟩
    refine ⟨rd, hDrained, ?_, hSame⟩
    omega

end WALBytes

-- The End Of The Page Map

theorem PageOffsets.highest_mem {m : PageOffsets} (hSome : m ≠ []) :
    ∃ x ∈ m, PageOffsets.highest m = x.2 := by
  have hFold : ∀ (xs : PageOffsets) (acc : Nat), xs.foldl (fun highest x =>
    if highest = 0 ∨ highest < x.2 then x.2
    else highest) acc = acc ∨ ∃ x ∈ xs, xs.foldl (fun highest x =>
        if highest = 0 ∨ highest < x.2 then x.2
        else highest) acc = x.2 := by
    intro xs
    induction xs with
    | nil => exact fun _ => Or.inl rfl
    | cons x xs ih =>
      intro acc
      rw [foldl_cons]
      rcases ih (if acc = 0 ∨ acc < x.2 then x.2 else acc) with hSame | ⟨y, hy, hEq⟩
      · rw [hSame]
        split
        · exact Or.inr ⟨x, mem_cons_self, rfl⟩
        · exact Or.inl rfl
      · exact Or.inr ⟨y, mem_cons_of_mem x hy, hEq⟩
  cases m with
  | nil => exact absurd rfl hSome
  | cons x m =>
    unfold PageOffsets.highest
    rcases hFold m x.2 with hSame | ⟨y, hy, hEq⟩
    · exact ⟨x, mem_cons_self, hSame⟩
    · exact ⟨y, mem_cons_of_mem x hy, hEq⟩

theorem WALFormat.mem_entries_iff {D : Type} {F : WALFormat D} {i : Nat}
    {fs : List (WALFrame D)} {x : Nat × Nat} :
    x ∈ F.entries i fs ↔ ∃ k f, fs[k]? = some f ∧ x = (f.pgno, F.offset (i + k)) := by
  induction fs generalizing i with
  | nil => simp [entries]
  | cons f fs ih =>
    rw [entries, mem_append, ih, mem_singleton]
    constructor
    · rintro (⟨k, g, hGet, rfl⟩ | rfl)
      · refine ⟨k + 1, g, hGet, ?_⟩
        rw [Nat.add_assoc, Nat.add_comm 1 k]
      · exact ⟨0, f, rfl, rfl⟩
    · rintro ⟨k, g, hGet, rfl⟩
      cases k with
      | zero =>
        cases hGet
        exact Or.inr rfl
      | succ k =>
        refine Or.inl ⟨k, g, hGet, ?_⟩
        rw [Nat.add_assoc, Nat.add_comm 1 k]

namespace WALBytes

variable {content : List UInt8} {r : Reader} {n t : Nat}

theorem frameOffset_lt {k l : Nat} (hLt : k < l) : frameOffset r k < frameOffset r l := by
  have hLe := @frameOffset_succ_le r k l hLt
  unfold walFrameHeaderSize at hLe
  omega

/-
  If the last commit does not name its own page, then the
  map ends before it, or is empty.
-/
theorem maxOffset_unnamed (salts : Salts) (hCut : IsCommittedCut content r n t) (hPos : 0 < t)
    (hBeyond : (frame content r.pageSize (t - 1)).commit < (frame content r.pageSize (t - 1)).pgno)
    :
    (((format r.bo r.pageSize).pageMap ⟨0, salts, (List.range n).map
      (frame content r.pageSize)⟩).2.1 = 0 ∧
      ∀ k, k < t → (frame content r.pageSize (t - 1)).commit < (frame content r.pageSize k).pgno) ∨
    (0 < ((format r.bo r.pageSize).pageMap ⟨0, salts, (List.range n).map
      (frame content r.pageSize)⟩).2.1 ∧
      ((format r.bo r.pageSize).pageMap ⟨0, salts, (List.range n).map
        (frame content r.pageSize)⟩).2.1 <
        frameOffset r t ∧
      ∃ k, k < t ∧ (frame content r.pageSize k).pgno ≤
        (frame content r.pageSize (t - 1)).commit) := by
  have hLast : ((List.range t).map (frame content r.pageSize)).getLast? =
    some (frame content r.pageSize (t - 1)) := by
    rcases Nat.exists_eq_succ_of_ne_zero (Nat.ne_of_gt hPos) with ⟨u, rfl⟩
    rw [range_succ, map_append, map_singleton, getLast?_concat]
    rfl
  have hLoop := @pageMapLoop_eq (List UInt8) (format r.bo r.pageSize) 0 0 [] []
    ((List.range t).map (frame content r.pageSize))
    (by
      rw [ne_eq, map_eq_nil_iff, range_eq_nil]
      omega)
    (by
      intro f hf
      rw [hLast] at hf
      cases hf
      exact hCut.commits hPos)
  have hSize : commitOf ((List.range t).map (frame content r.pageSize)) =
    (frame content r.pageSize (t - 1)).commit := by
    rw [commitOf, hLast]
  rw [hSize, append_nil, append_nil] at hLoop
  -- an entry of the map is a frame before the last one
  have hEntry : ∀ x ∈ ((format r.bo r.pageSize).entries 0 ((List.range t).map
    (frame content r.pageSize))).filter (fun x =>
        decide (x.1 ≤ (frame content r.pageSize (t - 1)).commit)),
        ∃ k, k + 1 < t ∧ x.2 = frameOffset r k ∧ (frame content r.pageSize k).pgno ≤
          (frame content r.pageSize (t - 1)).commit := by
    intro x hx
    rw [mem_filter, decide_eq_true_eq, mem_entries_iff] at hx
    rcases hx with ⟨⟨k, f, hGet, rfl⟩, hLe⟩
    rw [getElem?_map, Option.map_eq_some_iff] at hGet
    rcases hGet with ⟨j, hj, rfl⟩
    rw [List.getElem?_eq_some_iff] at hj
    rcases hj with ⟨hLt, hEq⟩
    rw [length_range] at hLt
    rw [getElem_range] at hEq
    subst hEq
    have hOther : k ≠ t - 1 := by
      intro hSame
      rw [hSame] at hLe
      omega
    refine ⟨k, by omega, ?_, hLe⟩
    rw [Nat.zero_add]
    rfl
  rw [map_range_split hCut.le, pageMap_append_open hCut.rest_open]
  unfold pageMap
  rw [hLoop]
  dsimp only
  split
  · rename_i hNone
    refine Or.inl ⟨rfl, fun k hk => ?_⟩
    rw [filter_eq_nil_iff] at hNone
    have hOut := hNone ((frame content r.pageSize k).pgno, (format r.bo r.pageSize).offset (0 + k))
      (mem_entries_iff.mpr ⟨k, frame content r.pageSize k, by
        rw [getElem?_map, getElem?_range hk]
        rfl, rfl⟩)
    rw [decide_eq_true_eq] at hOut
    exact Nat.not_le.mp hOut
  · rename_i hSome
    rcases PageOffsets.highest_mem hSome with ⟨x, hx, hHigh⟩
    rcases hEntry x hx with ⟨k, hk, hOff, hLe⟩
    have hBefore := @frameOffset_succ_le r k (k + 1) (Nat.lt_succ_self k)
    have hAfter := @frameOffset_lt r (k + 1) t hk
    refine Or.inr ⟨?_, ?_, k, by omega, hLe⟩
    · dsimp only
      rw [hHigh, hOff]
      unfold frameOffset walHeaderSize
      omega
    · dsimp only
      rw [hHigh, hOff]
      unfold frameSize format
      dsimp only
      omega

/- Where the last frame begins that was read. -/
def lastOffset (r : Reader) (n : Nat) : Nat :=
  if n = 0 then 0 else frameOffset r (n - 1)

/-
  The header that is handed to the encoder, in terms of the
  valid frames.
-/
structure Computed (db : SnapshotStart) (content : List UInt8)
    (r : Reader) (n : Nat) (h : SnapshotHeader) : Prop where
  pageSize : h.pageSize = db.pageSize
  minTXID : h.minTXID = 1
  maxTXID : h.maxTXID = db.txid
  walOffset : h.walOffset = (lastOffset r n : Nat)
  walSize : h.walSize =
    if 0 < ((format r.bo r.pageSize).pageMap ⟨0, r.salts,
      (List.range n).map (frame content r.pageSize)⟩).2.1 then
        (((format r.bo r.pageSize).pageMap ⟨0, r.salts,
          (List.range n).map (frame content r.pageSize)⟩).2.1 : Int) - (lastOffset r n : Nat)
    else 0

theorem snapshotHeader_eq (enc : HeaderEncoder) (db : SnapshotStart)
    (hOpen : newReader content = .ok r)
    (hPage : IsPageSize r.pageSize) (hRun : IsLongestRun content r n) (appended : Nat → List UInt8)
    {fuel : Nat} (hFuel : n < fuel) :
    ∃ h, snapshotHeader enc db content appended (fun _ => none) fuel = some (enc.encodeHeader h) ∧
      Computed db content r n h := by
  have hAt := Reader.at_of_newReader hOpen hPage
  have hRest := rest_eq_of_isLongestRun hAt hRun
  have hLength : (Reader.rest content r).length = n := by
    rw [hRest, length_map, length_range]
  have hCalm : Reader.polled (fun _ => none) 0 (n + 1) = none := by
    exact findSome?_eq_none_iff.mpr (fun _ _ => rfl)
  have hMap := @Reader.At.pageMap_eq_frames content r 0 hAt appended (fun _ => none) fuel (by omega)
  rw [hLength, hCalm, hRest] at hMap
  rcases @Reader.At.drained content r 0 hAt appended fuel
    (by omega) with ⟨rd, hDrained, hFrameN, hSame, _⟩
  rw [hLength, Nat.zero_add] at hFrameN
  have hOffset : rd.offset = lastOffset r n := by
    unfold Reader.offset lastOffset frameOffset
    rw [hFrameN, hSame, Nat.add_comm r.pageSize]
  rcases hMapped : (format r.bo r.pageSize).pageMap ⟨0, r.salts,
    (List.range n).map (frame content r.pageSize)⟩ with ⟨m, maxOffset, walCommit⟩
  rw [hMapped] at hMap
  unfold snapshotHeader
  rw [hOpen]
  dsimp only
  rw [hMap, hDrained]
  refine ⟨_, rfl, rfl, rfl, rfl, ?_, ?_⟩
  · dsimp only
    rw [hOffset]
  · rw [hMapped]
    dsimp only
    rw [hOffset]

/-
  The header names the range up to the last committed frame
  exactly if there is a small tail after it.
-/
theorem Computed.namesRange_iff {db : SnapshotStart} {h : SnapshotHeader}
    (hComputed : Computed db content r n h) (hCut : IsCommittedCut content r n t) :
    NamesRange r t h ↔ SmallTail content r n t := by
  have hOffset := hComputed.walOffset
  have hSize := hComputed.walSize
  have hLe := hCut.le
  have hBegin : ∀ k, walHeaderSize ≤ frameOffset r k := fun k => Nat.le_add_right _ _
  have hOrder : ∀ k l, k < l → frameOffset r k < frameOffset r l :=
    fun k l hLt => frameOffset_lt hLt
  by_cases hNone : t = 0
  · -- there is no commit, so the map is empty
    subst hNone
    have hEmpty := (isPageMap_pageMap r.salts hCut (by omega)).none rfl
    rw [hEmpty, if_neg (Nat.lt_irrefl 0)] at hSize
    have hSum : NamesRange r 0 h ↔ lastOffset r n = walHeaderSize ∨ lastOffset r n = 0 := by
      constructor
      · intro hNames
        have hEnd := hNames.none rfl
        omega
      · intro hEnd
        exact ⟨by omega, by omega, fun _ => by omega⟩
    rw [hSum]
    unfold SmallTail lastOffset
    by_cases hZero : n = 0
    · simp [hZero]
    rw [if_neg hZero]
    by_cases hOne : n = 1
    · subst hOne
      simp [frameOffset]
    have hFar := hOrder 0 (n - 1) (by omega)
    have hFirst := hBegin 0
    have hHeaderSize : 0 < walHeaderSize := by decide
    constructor
    · intro hEnd
      omega
    · intro hTail
      omega
  · have hPos : 0 < t := by omega
    have hLast : lastOffset r n = frameOffset r (n - 1) := by
      unfold lastOffset
      rw [if_neg (by omega)]
    have hHeaderSize : 0 < walHeaderSize := by decide
    by_cases hNamed : (frame content r.pageSize (t - 1)).pgno ≤
      (frame content r.pageSize (t - 1)).commit
    · have hEnd := (isPageMap_pageMap r.salts hCut (fun _ => hNamed)).ends hPos
      change _ = frameOffset r t at hEnd
      have hSome := hBegin t
      rw [hEnd, if_pos (by omega)] at hSize
      have hTail : SmallTail content r n t ↔ n ≤ t + 1 :=
        ⟨And.left, fun hSmall => ⟨hSmall, fun _ => Or.inl hNamed⟩⟩
      rw [hTail]
      constructor
      · intro hNames
        have hNonneg := hNames.size
        by_contra hLong
        have hFar := hOrder t (n - 1) (by omega)
        omega
      · intro hSmall
        have hNear : frameOffset r (n - 1) ≤ frameOffset r t := by
          by_cases hSame : n - 1 = t
          · rw [hSame]
          · exact Nat.le_of_lt (hOrder (n - 1) t (by omega))
        exact ⟨by omega, fun _ => by omega, by omega⟩
    · rcases maxOffset_unnamed r.salts hCut hPos (Nat.not_le.mp hNamed) with
        ⟨hZero, hAll⟩ | ⟨hSome, hBefore, k, hk, hPage'⟩
      · rw [hZero, if_neg (Nat.lt_irrefl 0)] at hSize
        constructor
        · intro hNames
          have hEnd := hNames.ends hPos
          have hEq : n = t + 1 := by
            by_contra hOther
            rcases Nat.lt_or_gt_of_ne (show n - 1 ≠ t by omega) with hLt | hGt
            · have hFar := hOrder (n - 1) t hLt
              omega
            · have hFar := hOrder t (n - 1) hGt
              omega
          exact ⟨by omega, fun _ => Or.inr ⟨hEq, hAll⟩⟩
        · rintro ⟨_, hTail⟩
          rcases hTail hPos with hName | ⟨hEq, _⟩
          · exact absurd hName hNamed
          · have hSame : n - 1 = t := by omega
            rw [hSame] at hLast
            exact ⟨by omega, fun _ => by omega, by omega⟩
      · rw [if_pos hSome] at hSize
        constructor
        · intro hNames
          have hEnd := hNames.ends hPos
          omega
        · rintro ⟨_, hTail⟩
          rcases hTail hPos with hName | ⟨_, hAll⟩
          · exact absurd hName hNamed
          · exact absurd hPage' (Nat.not_le.mpr (hAll k hk))

end WALBytes

/-
  The header that is written names the range up to the last
  committed frame exactly if there is a small tail after it.
  Then the encoder writes it, if there is a valid frame.
-/
theorem snapshot_header_range_iff
    (enc : HeaderEncoder)
    (db : SnapshotStart)
    (hSize : WALBytes.IsPageSize db.pageSize)
    (hTXID : 1 ≤ db.txid)
    (content : List UInt8)
    (r : WALBytes.Reader)
    (hOpen : WALBytes.newReader content = .ok r)
    (hPage : WALBytes.IsPageSize r.pageSize)
    (n t : Nat)
    (hRun : WALBytes.IsLongestRun content r n)
    (hCut : WALBytes.IsCommittedCut content r n t)
    (appended : Nat → List UInt8)
    (fuel : Nat)
    (hFuel : n < fuel) :
    ∃ res,
      snapshotHeader enc db content appended (fun _ => none)
        fuel = some res ∧
      (∀ h,
        res = .ok h →
        0 ≤ h.walSize ∧
        (NamesRange r t h ↔ SmallTail content r n t)) ∧
      (0 < n →
        ((∃ h, res = .ok h ∧ NamesRange r t h) ↔
          SmallTail content r n t)) := by
  rcases WALBytes.snapshotHeader_eq enc db hOpen hPage hRun appended hFuel with
    ⟨h, hHeader, hComputed⟩
  have hNames := hComputed.namesRange_iff hCut
  have hWritten : ∀ h', enc.encodeHeader h = .ok h' → h' = h ∧ 0 ≤ h.walSize := by
    intro h' hEq
    unfold HeaderEncoder.encodeHeader at hEq
    split at hEq
    · cases hEq
    · rename_i hValid
      cases hEq
      refine ⟨rfl, ?_⟩
      by_contra hNegative
      rcases enc.negative h (by omega) with ⟨err, hErr⟩
      rw [hErr] at hValid
      cases hValid
  refine ⟨_, hHeader, ?_, ?_⟩
  · intro h' hEq
    rcases hWritten h' hEq with ⟨rfl, hNonneg⟩
    exact ⟨hNonneg, hNames⟩
  · intro hSome
    constructor
    · rintro ⟨h', hEq, hRange⟩
      rcases hWritten h' hEq with ⟨rfl, _⟩
      exact hNames.mp hRange
    · intro hTail
      have hRange := hNames.mpr hTail
      have hPos : 0 < h.walOffset := by
        rw [hComputed.walOffset]
        unfold WALBytes.lastOffset WALBytes.frameOffset walHeaderSize
        rw [if_neg (Nat.ne_of_gt hSome)]
        omega
      have hValid := enc.written h (hComputed.pageSize ▸ hSize) (hComputed.minTXID ▸ Nat.le_refl 1)
        (by rw [hComputed.minTXID, hComputed.maxTXID]; exact hTXID) hPos hRange.size
      refine ⟨h, ?_, hRange⟩
      unfold HeaderEncoder.encodeHeader
      rw [hValid]

/- An encoder that checks the range only. -/
def rangeEncoder : HeaderEncoder where
  validate h :=
    if h.walSize < 0 then
      some (.text s!"wal size cannot be negative: {h.walSize}")
    else none
  negative h hNegative := ⟨_, if_pos hNegative⟩
  written h _ _ _ _ hNonneg := if_neg (by omega)

/- One committed frame, and the range ends with it. -/
theorem tornWAL_snapshot_header :
    ∃ h,
      snapshotHeader rangeEncoder ⟨512, 1, 1, 0⟩ tornWAL
        (fun _ => []) (fun _ => none) 2 = some (.ok h) ∧
      NamesRange tornReader 1 h := by
  have hCut : WALBytes.IsCommittedCut tornWAL tornReader 1 1 :=
    ⟨Nat.le_refl 1, fun _ => by decide +kernel, by omega⟩
  rcases snapshot_header_range_iff rangeEncoder ⟨512, 1, 1, 0⟩ isPageSize_tornReader
    (Nat.le_refl 1) tornWAL tornReader newReader_tornWAL isPageSize_tornReader 1 1
    isLongestRun_tornWAL hCut (fun _ => []) 2 (by decide) with ⟨res, hHeader, _, hIff⟩
  have hTail : SmallTail tornWAL tornReader 1 1 :=
    ⟨by decide, fun _ => Or.inl (by decide +kernel)⟩
  rcases (hIff (by decide)).mpr hTail with ⟨h, rfl, hNames⟩
  exact ⟨h, hHeader, hNames⟩

/- Two frames of a transaction that is still open. -/
def openTxWAL : List UInt8 :=
  [55, 127, 6, 130, 0, 45, 226, 24, 0, 0, 2, 0, 0, 0, 0, 0, 0, 0, 0, 1, 0, 0, 0, 2,
   213, 203, 3, 19, 143, 164, 218, 184] ++
    ([0, 0, 0, 1, 0, 0, 0, 0, 0, 0, 0, 1, 0, 0, 0, 2, 180, 99, 122, 206, 17, 177, 60, 221] ++
    (replicate 512 0 ++
    ([0, 0, 0, 1, 0, 0, 0, 0, 0, 0, 0, 1, 0, 0, 0, 2, 34, 83, 43, 7, 9, 149, 148, 167] ++
    replicate 512 0)))

def openTxReader : WALBytes.Reader :=
  { tornReader with size := 1104 }

theorem isLongestRun_openTxWAL : WALBytes.IsLongestRun openTxWAL openTxReader 2 := by
  have hComplete : ∀ k, k < 2 → walHeaderSize + (k + 1) *
    (openTxReader.pageSize + walFrameHeaderSize) ≤ openTxReader.size := by
    decide
  have hSalts : ∀ k, k < 2 → (WALBytes.frame openTxWAL openTxReader.pageSize
    k).salts = openTxReader.salts := by
    decide +kernel
  have hChksum : ∀ k, k < 2 → (WALBytes.frame openTxWAL openTxReader.pageSize k).chksum =
    WALBytes.cumulative openTxWAL openTxReader (k + 1) := by
    decide +kernel
  refine ⟨fun k hk => ⟨hComplete k hk, hSalts k hk, hChksum k hk⟩, ?_⟩
  intro hValid
  exact absurd hValid.complete (by decide)

/-
  The encoder writes a header whose range ends with the
  first uncommitted frame.
-/
theorem snapshot_header_past_commits :
    WALBytes.newReader openTxWAL = .ok openTxReader ∧
    WALBytes.IsPageSize openTxReader.pageSize ∧
    WALBytes.IsLongestRun openTxWAL openTxReader 2 ∧
    WALBytes.IsCommittedCut openTxWAL openTxReader 2 0 ∧
    ∃ h,
      snapshotHeader rangeEncoder ⟨512, 1, 1, 0⟩ openTxWAL
        (fun _ => []) (fun _ => none) 3 = some (.ok h) ∧
      h.walOffset = 568 ∧
      h.walSize = 0 ∧
      ¬ NamesRange openTxReader 0 h := by
  have hOpen : WALBytes.newReader openTxWAL = .ok openTxReader := by decide +kernel
  have hNone : ∀ k, k < 2 → (WALBytes.frame openTxWAL openTxReader.pageSize k).commit = 0 := by
    decide +kernel
  have hCut : WALBytes.IsCommittedCut openTxWAL openTxReader 2 0 :=
    ⟨by decide, nofun, fun k _ hTo => hNone k hTo⟩
  rcases WALBytes.snapshotHeader_eq rangeEncoder ⟨512, 1, 1, 0⟩ hOpen isPageSize_tornReader
    isLongestRun_openTxWAL (fun _ => []) (by decide : 2 < 3) with ⟨h, hHeader, hComputed⟩
  have hOffset : h.walOffset = 568 := hComputed.walOffset
  have hEmpty := (WALBytes.isPageMap_pageMap openTxReader.salts hCut (by omega)).none rfl
  have hSize : h.walSize = 0 := by
    rw [hComputed.walSize, hEmpty, if_neg (Nat.lt_irrefl 0)]
  have hWritten : rangeEncoder.encodeHeader h = .ok h := by
    unfold HeaderEncoder.encodeHeader rangeEncoder
    dsimp only
    rw [if_neg (by omega)]
  refine ⟨hOpen, isPageSize_tornReader, isLongestRun_openTxWAL, hCut, h, hWritten ▸ hHeader, hOffset,
    hSize, ?_⟩
  intro hNames
  have hEnd := hNames.none rfl
  unfold walHeaderSize at hEnd
  omega

end Replicate
