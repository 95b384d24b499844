import Replicate.DB.WALBytes
import Mathlib.Order.Nat

/-
  What `PageMap` returns, from the bytes of the WAL.

  The valid frames are the longest run of complete frames
  with the salts of the header and the right cumulative
  checksum. Of these the ones up to the last commit count:
  the map has the last frame of every page among them, apart
  from pages beyond the size that the last one names.

  Main declarations:
    * `WALBytes.rest_eq_of_isLongestRun`
    * `WALBytes.isPageMap_pageMap`
    * `wal_pageMap_exact`
-/

-- Valid And Committed Frames

namespace Replicate

open WALFormat List

namespace WALBytes

/- The checksum over the header and the first frames. -/
def cumulative (content : List UInt8) (r : Reader) : Nat → Checksum
| 0 => r.chksum
| k + 1 =>
  r.bo.walChecksum (r.bo.walChecksum (cumulative content r k)
    ((frameHeader content r.pageSize k).take 8))
    (frameData content r.pageSize k)

/- A frame inside the bound, of the header's generation. -/
structure ValidFrame (content : List UInt8) (r : Reader) (k : Nat) : Prop where
  complete : walHeaderSize + (k + 1) * (r.pageSize + walFrameHeaderSize) ≤ r.size
  salts : (frame content r.pageSize k).salts = r.salts
  chksum : (frame content r.pageSize k).chksum = cumulative content r (k + 1)

/- The valid frames are the first `n`. -/
structure IsLongestRun (content : List UInt8) (r : Reader) (n : Nat) : Prop where
  valid : ∀ k, k < n → ValidFrame content r k
  stops : ¬ ValidFrame content r n

/- The last commit among the first `n` is before `t`. -/
structure IsCommittedCut (content : List UInt8) (r : Reader) (n t : Nat) : Prop where
  le : t ≤ n
  commits : 0 < t → (frame content r.pageSize (t - 1)).commit ≠ 0
  rest : ∀ k, t ≤ k → k < n → (frame content r.pageSize k).commit = 0

/- The results of `PageMap` for the first `t` frames. -/
structure IsPageMap (content : List UInt8) (r : Reader) (t : Nat)
    (result : PageOffsets × Nat × Nat) : Prop where
  none : t = 0 → result = ([], 0, 0)
  commit : 0 < t → result.2.2 = (frame content r.pageSize (t - 1)).commit
  ends : 0 < t → result.2.1 = walHeaderSize + t * (r.pageSize + walFrameHeaderSize)
  pages : 0 < t → ∀ p off, result.1.lookup p = some off ↔ p ≤ result.2.2 ∧
    ∃ k, k < t ∧ (frame content r.pageSize k).pgno = p ∧ off =
      walHeaderSize + k * (r.pageSize + walFrameHeaderSize) ∧
      ∀ j, k < j → j < t → (frame content r.pageSize j).pgno ≠ p

variable {content : List UInt8} {r : Reader}

theorem exists_isLongestRun (content : List UInt8) (r : Reader) :
    ∃ n, IsLongestRun content r n := by
  classical
  have hStops : ∃ n, ¬ ValidFrame content r n := by
    refine ⟨r.size, fun hValid => ?_⟩
    have hComplete := hValid.complete
    have hSize : r.size + 1 ≤ (r.size + 1) * (r.pageSize + walFrameHeaderSize) := by
      apply Nat.le_mul_of_pos_right
      unfold walFrameHeaderSize
      omega
    omega
  refine ⟨Nat.find hStops, ?_, Nat.find_spec hStops⟩
  intro k hk
  exact not_not.mp (Nat.find_min hStops hk)

theorem exists_isCommittedCut (content : List UInt8) (r : Reader) (n : Nat) :
    ∃ t, IsCommittedCut content r n t := by
  induction n with
  | zero => exact ⟨0, ⟨Nat.le_refl 0, by omega, by omega⟩⟩
  | succ n ih =>
    by_cases hZero : (frame content r.pageSize n).commit = 0
    · rcases ih with ⟨t, hCut⟩
      refine ⟨t, ?_, hCut.commits, ?_⟩
      · exact Nat.le_succ_of_le hCut.le
      · intro k hk hLt
        by_cases hLast : k = n
        · rw [hLast]
          exact hZero
        · exact hCut.rest k hk (by omega)
    · exact ⟨n + 1, Nat.le_refl _, fun _ => hZero, by omega⟩

-- The Frames That Are Read

theorem ValidFrame.walChecksum_eq {k : Nat} (hSize : r.size = content.length)
    (hValid : ValidFrame content r k) :
    (format r.bo r.pageSize).walChecksum (cumulative content r k) (frame content r.pageSize k).pgno
      (frame content r.pageSize k).commit
      (frame content r.pageSize k).data =
      (frame content r.pageSize k).chksum := by
  have hComplete := hValid.complete
  rw [hSize, Nat.succ_mul] at hComplete
  rw [walChecksum_frame, hValid.chksum, cumulative]
  exact length_readAt (by omega)

/- Reading returns the longest run. -/
theorem readFrames_drop {i n : Nat} (hSize : r.size = content.length)
    (hRun : IsLongestRun content r n) (hLe : i ≤ n) :
    (format r.bo r.pageSize).readFrames r.salts (cumulative content r i)
      ((frames content r.pageSize).drop i) =
      (range' i (n - i)).map (frame content r.pageSize) := by
  -- on the number of valid frames that are left
  induction hLeft : n - i generalizing i with
  | zero =>
    have hEnd : i = n := by omega
    subst hEnd
    by_cases hFrame : i < frameCount content r.pageSize
    · have hComplete := lt_frameCount_iff.mp hFrame
      rw [drop_frames hFrame, readFrames]
      by_cases hSalts : (frame content r.pageSize i).salts ≠ r.salts
      · rw [if_pos hSalts]
        rfl
      rw [if_neg hSalts, if_pos]
      · rfl
      · intro hSum
        apply hRun.stops
        refine ⟨hSize ▸ hComplete, not_not.mp hSalts, ?_⟩
        rw [← hSum, walChecksum_frame, cumulative]
        rw [Nat.succ_mul] at hComplete
        exact length_readAt (by omega)
    · rw [drop_eq_nil_of_le]
      · rfl
      · rw [frames, length_map, length_range]
        exact Nat.not_lt.mp hFrame
  | succ left ih =>
    have hValid := hRun.valid i (by omega)
    have hFrame : i < frameCount content r.pageSize :=
      lt_frameCount_iff.mpr (hSize ▸ hValid.complete)
    have hSum := hValid.walChecksum_eq hSize
    rw [drop_frames hFrame, readFrames, if_neg (not_not.mpr hValid.salts),
      if_neg (not_not.mpr hSum), hValid.chksum,
      ih (by omega) (by omega), range'_succ]
    rfl

theorem rest_eq_of_isLongestRun {n : Nat} (hAt : Reader.At content r 0)
    (hRun : IsLongestRun content r n) :
    Reader.rest content r = (List.range n).map (frame content r.pageSize) := by
  have hDrop := readFrames_drop hAt.size hRun (Nat.zero_le n)
  rw [Reader.rest, hAt.frameN, range_eq_range']
  exact hDrop

-- The Map

/- The newest entry of a page is its last frame. -/
theorem lookup_entries_iff {t p off : Nat} : ((format r.bo r.pageSize).entries 0
    ((List.range t).map (frame content r.pageSize))).lookup p =
    some off ↔
      ∃ k, k < t ∧ (frame content r.pageSize k).pgno = p ∧ off = (format r.bo r.pageSize).offset k ∧
        ∀ j, k < j → j < t → (frame content r.pageSize j).pgno ≠ p := by
  induction t with
  | zero => simp [entries]
  | succ t ih =>
    rw [range_succ, map_append, map_singleton, entries_append_singleton, lookup_cons,
      length_map, length_range, Nat.zero_add]
    by_cases hEq : p = (frame content r.pageSize t).pgno
    · rw [hEq, beq_self_eq_true]
      constructor
      · intro hOff
        refine ⟨t, Nat.lt_succ_self t, rfl, ?_, by omega⟩
        exact (Option.some.inj hOff).symm
      · rintro ⟨k, hk, _, hOff, hLast⟩
        have hSame : k = t := by
          by_contra hNe
          exact hLast t (by omega) (Nat.lt_succ_self t) rfl
        rw [hOff, hSame]
    · rw [beq_eq_false_iff_ne.mpr hEq, ih]
      constructor
      · rintro ⟨k, hk, hPgno, hOff, hLast⟩
        refine ⟨k, Nat.lt_succ_of_lt hk, hPgno, hOff, ?_⟩
        intro j hkj hj
        by_cases hNew : j = t
        · rw [hNew]
          exact fun hSame => hEq hSame.symm
        · exact hLast j hkj (by omega)
      · rintro ⟨k, hk, hPgno, hOff, hLast⟩
        have hOld : k ≠ t := by
          intro hNew
          rw [hNew] at hPgno
          exact hEq hPgno.symm
        refine ⟨k, by omega, hPgno, hOff, ?_⟩
        intro j hkj hj
        exact hLast j hkj (Nat.lt_succ_of_lt hj)

theorem map_range_split {n t : Nat} (hLe : t ≤ n) : (List.range n).map (frame content r.pageSize) =
    (List.range t).map (frame content r.pageSize) ++
      (range' t (n - t)).map (frame content r.pageSize) := by
  have hRange : range' 0 t ++ range' (0 + t) (n - t) = range' 0 (t + (n - t)) := range'_append_1
  rw [Nat.zero_add, Nat.add_sub_cancel' hLe] at hRange
  rw [← map_append, range_eq_range', range_eq_range', hRange]

theorem IsCommittedCut.rest_open {n t : Nat} (hCut : IsCommittedCut content r n t) :
    ∀ f ∈ (range' t (n - t)).map (frame content r.pageSize), f.commit = 0 := by
  intro f hf
  rcases mem_map.mp hf with ⟨k, hk, rfl⟩
  rw [mem_range'_1] at hk
  exact hCut.rest k hk.1 (by have := hCut.le; omega)

/- The page map of the valid frames. -/
theorem isPageMap_pageMap {n t : Nat} (salts : Salts) (hCut : IsCommittedCut content r n t)
    (hWithin : 0 < t → (frame content r.pageSize (t - 1)).pgno ≤
      (frame content r.pageSize (t - 1)).commit) :
    IsPageMap content r t ((format r.bo r.pageSize).pageMap ⟨0, salts,
      (List.range n).map (frame content r.pageSize)⟩) := by
  rw [map_range_split hCut.le, pageMap_append_open hCut.rest_open]
  cases t with
  | zero => exact ⟨fun _ => rfl, by omega, by omega, by omega⟩
  | succ t =>
    have hLast : ((List.range (t + 1)).map (frame content r.pageSize)).getLast? =
      some (frame content r.pageSize t) := by
      rw [range_succ, map_append, map_singleton, getLast?_concat]
    have hCommitted : Committed ((List.range (t + 1)).map (frame content r.pageSize)) := by
      intro f hf
      rw [hLast] at hf
      cases hf
      exact ⟨hCut.commits t.succ_pos, hWithin t.succ_pos⟩
    have hSize : commitOf ((List.range (t + 1)).map (frame content r.pageSize)) =
      (frame content r.pageSize t).commit := by
      rw [commitOf, hLast]
    rw [pageMap_eq (by simp) hCommitted, hSize]
    refine ⟨fun hZero => absurd hZero t.succ_ne_zero, fun _ => rfl, ?_, ?_⟩
    · intro _
      rw [length_map, length_range, Nat.zero_add]
      rfl
    · intro _ p off
      rw [PageOffsets.lookup_filter]
      by_cases hPage : p ≤ (frame content r.pageSize t).commit
      · rw [if_pos hPage, lookup_entries_iff]
        exact ⟨fun hSome => ⟨hPage, hSome⟩, And.right⟩
      · rw [if_neg hPage]
        exact ⟨fun hSome => (by cases hSome), fun hSome => absurd hSome.1 hPage⟩

end WALBytes

/-
  `PageMap` ends, and returns the map of the valid and
  committed frames, or the error of a context that is done
  before. Neither depends on what is appended to the file.
-/
theorem wal_pageMap_exact
    (content : List UInt8)
    (r : WALBytes.Reader)
    (hOpen : WALBytes.newReader content = .ok r)
    (hPage : WALBytes.IsPageSize r.pageSize) :
    (∃ n t,
      WALBytes.IsLongestRun content r n ∧
      WALBytes.IsCommittedCut content r n t) ∧
    ∀ n t,
      WALBytes.IsLongestRun content r n →
      WALBytes.IsCommittedCut content r n t →
      (0 < t →
        (WALBytes.frame content r.pageSize (t - 1)).pgno ≤
          (WALBytes.frame content r.pageSize
            (t - 1)).commit) →
      ∃ result,
        WALBytes.IsPageMap content r t result ∧
        ∀ (appended : Nat → List UInt8)
          (done : Nat → Option Err),
        ∃ enough, ∀ fuel, enough ≤ fuel →
          r.pageMap (fun k => content ++ appended k) done
            fuel = some (match
              WALBytes.Reader.polled done 0 (n + 1) with
              | some err => .error err
              | none => .ok result) := by
  have hAt := WALBytes.Reader.at_of_newReader hOpen hPage
  refine ⟨?_, ?_⟩
  · rcases WALBytes.exists_isLongestRun content r with ⟨n, hRun⟩
    rcases WALBytes.exists_isCommittedCut content r n with ⟨t, hCut⟩
    exact ⟨n, t, hRun, hCut⟩
  · intro n t hRun hCut hWithin
    have hRest := WALBytes.rest_eq_of_isLongestRun hAt hRun
    refine ⟨_, WALBytes.isPageMap_pageMap r.salts hCut hWithin, ?_⟩
    intro appended done
    refine ⟨n + 1, fun fuel hFuel => ?_⟩
    have hLength : (WALBytes.Reader.rest content r).length = n := by
      rw [hRest, length_map, length_range]
    have hMap := @WALBytes.Reader.At.pageMap_eq_frames content r 0 hAt appended done fuel (by omega)
    rw [hLength, hRest] at hMap
    exact hMap

def tornWAL : List UInt8 :=
  [55, 127, 6, 130, 0, 45, 226, 24, 0, 0, 2, 0, 0, 0, 0, 0, 0, 0, 0, 1, 0, 0, 0, 2,
   213, 203, 3, 19, 143, 164, 218, 184,
   0, 0, 0, 1, 0, 0, 0, 1,
   0, 0, 0, 1, 0, 0, 0, 2,
   121, 99, 122, 206, 243, 177, 60, 221] ++ (replicate 512 0 ++ [0, 0, 0, 2])

def tornReader : WALBytes.Reader where
  size := 572
  frameN := 0
  bo := .littleEndian
  pageSize := 512
  salts := ⟨1, 2⟩
  chksum := (3586851603, 2409945784)

theorem newReader_tornWAL : WALBytes.newReader tornWAL = .ok tornReader := by
  decide +kernel

theorem isPageSize_tornReader : WALBytes.IsPageSize tornReader.pageSize :=
  ⟨9, by decide, by decide, rfl⟩

theorem isLongestRun_tornWAL : WALBytes.IsLongestRun tornWAL tornReader 1 := by
  refine ⟨?_, ?_⟩
  · intro k hk
    have hZero : k = 0 := by omega
    subst hZero
    exact ⟨by decide, by decide +kernel, by decide +kernel⟩
  · intro hValid
    exact absurd hValid.complete (by decide)

/- The frame is mapped, and the torn one is not. -/
theorem tornWAL_pageMap :
    ∃ result,
      WALBytes.IsPageMap tornWAL tornReader 1 result ∧
      ∀ (appended : Nat → List UInt8)
        (done : Nat → Option Err),
      ∃ enough, ∀ fuel, enough ≤ fuel →
        tornReader.pageMap (fun k => tornWAL ++ appended k)
          done fuel = some
            (match WALBytes.Reader.polled done 0 2 with
            | some err => .error err
            | none => .ok result) := by
  have hCut : WALBytes.IsCommittedCut tornWAL tornReader 1 1 :=
    ⟨Nat.le_refl 1, fun _ => by decide +kernel, by omega⟩
  refine (wal_pageMap_exact tornWAL tornReader newReader_tornWAL isPageSize_tornReader).2 1 1
    isLongestRun_tornWAL hCut ?_
  intro _
  decide +kernel

end Replicate
