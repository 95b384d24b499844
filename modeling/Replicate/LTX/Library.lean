import Replicate.Lib.PageHistory
import Replicate.Compaction.Compact

/-
  The contents of LTX files, what is assumed of the LTX
  library, and the files a replica can hold.

  The decoded content of an LTX file is a layer: some pages
  and a commit size. A history numbers the transactions of
  a database. Every file that this program uploads for a
  history is an L0 file, the result of a compaction, or a
  full image, and its content is the slice of the history
  that its label names.

  Main declarations:
    * `Produced.eq_slice`
-/

-- The LTX Library

namespace Replicate

open FileInfo IntervalChain PageHistory List

/-
  What `Restore` and `Compact` use of the LTX library. The
  compactor keeps the version of the last input containing
  a page, takes the last input's commit and drops pages
  above it. Decoding writes the pages in order and a zero
  page for the lock page, which no LTX file contains.
-/
structure LtxLibrary (D : Type) where
  zero : D
  lockPgno : Nat
  compact : List (Layer D) → Except Err (Layer D)
  decodeDatabaseTo : Layer D → Except Err (List D)
  compact_ok : ∀ inputs out, compact inputs = .ok out → out = stack inputs
  decode_ok : ∀ file img, file.page lockPgno = none →
    decodeDatabaseTo file = .ok img → img = image zero file

/-
  The transactions of a database. Each holds all pages of
  the range by which it grows the database except the lock
  page, and only pages of the database.
-/
structure History {D : Type} (lib : LtxLibrary D) where
  count : Nat
  tx : Nat → Layer D
  grows : Grows (fun p => p = lib.lockPgno) tx count
  within : ∀ t, 1 ≤ t → t ≤ count → ∀ p, ((tx t).page p).isSome → 1 ≤ p ∧ p ≤ (tx t).commit

variable {D : Type} {lib : LtxLibrary D}

/- The database after the first transactions. -/
def History.replay (H : History lib) (m : Nat) : List D :=
  PageHistory.replay lib.zero H.tx m

/- A full image of the database after a transaction. -/
def History.fullImage (H : History lib) (t : Nat) : Layer D where
  commit := sizeAt H.tx t
  page p :=
    if 1 ≤ p ∧ p ≤ sizeAt H.tx t ∧ p ≠ lib.lockPgno then some ((H.replay t).getD (p - 1) lib.zero)
    else none

/-
  The files of a replica with their labels: L0 files, full
  images, and compactions of files that follow one another.
-/
inductive Produced (H : History lib) : Nat → Nat → Layer D → Prop where
  | transaction {t} (hPos : 1 ≤ t) (hLe : t ≤ H.count) : Produced H t t (H.tx t)
  | snapshot {t} (hPos : 1 ≤ t) (hLe : t ≤ H.count) : Produced H 1 t (H.fullImage t)
  | compaction {inputs out start} (hInputs : ∀ x ∈ inputs, Produced H x.1.minTXID x.1.maxTXID x.2)
    (hNonempty : inputs ≠ []) (hChain : IntervalChain.IsChain (fun x : FileInfo × Layer D => x.1.minTXID)
      (fun x => x.1.maxTXID) start inputs)
    (hCompact : lib.compact (inputs.map Prod.snd) = .ok out) :
    Produced H (Compactor.sourceRange (inputs.map Prod.fst)).1
      (Compactor.sourceRange (inputs.map Prod.fst)).2 out

-- Labels Of Compacted Files

namespace Compactor

variable {items : List FileInfo}

theorem sourceRange_append_singleton (items : List FileInfo) (info : FileInfo) :
    sourceRange (items ++ [info]) = (if (sourceRange items).1 = 0 ∨
      info.minTXID < (sourceRange items).1 then
      info.minTXID
        else
          (sourceRange items).1,
        if (sourceRange items).2 = 0 ∨ (sourceRange items).2 < info.maxTXID then info.maxTXID
        else (sourceRange items).2) := by
  unfold sourceRange
  rw [foldl_append]
  rfl

theorem sourceRange_min (hPos : ∀ x ∈ items, 1 ≤ x.minTXID) (hNonempty : items ≠ []) :
    (∀ x ∈ items, (sourceRange items).1 ≤ x.minTXID) ∧
      ∃ x ∈ items, x.minTXID = (sourceRange items).1 := by
  induction items using reverseRecOn with
  | nil => exact absurd rfl hNonempty
  | append_singleton items info ih =>
    rw [sourceRange_append_singleton]
    rcases eq_nil_or_concat items with rfl | ⟨init, last, hInit⟩
    · simp [sourceRange]
    have hItems : items ≠ [] := by
      rw [hInit]
      simp
    rcases ih (fun x hx => hPos x (mem_append_left _ hx)) hItems with ⟨hLeast, x₀, hx₀, hEq⟩
    have hPos₀ : 1 ≤ x₀.minTXID := hPos x₀ (mem_append_left _ hx₀)
    have hNonzero : ¬ (sourceRange items).1 = 0 := by omega
    split
    · rename_i hLess
      refine ⟨?_, info, by simp, rfl⟩
      intro x hx
      rcases mem_append.mp hx with hOld | hLast
      · have hOldLe := hLeast x hOld
        omega
      · exact Nat.le_of_eq (by rw [mem_singleton.mp hLast])
    · rename_i hNotLess
      refine ⟨?_, x₀, mem_append_left _ hx₀, hEq⟩
      intro x hx
      rcases mem_append.mp hx with hOld | hLast
      · exact hLeast x hOld
      · rw [mem_singleton.mp hLast]
        omega

theorem sourceRange_max (hNonempty : items ≠ []) :
    (∀ x ∈ items, x.maxTXID ≤ (sourceRange items).2) ∧
      ∃ x ∈ items, x.maxTXID = (sourceRange items).2 := by
  induction items using reverseRecOn with
  | nil => exact absurd rfl hNonempty
  | append_singleton items info ih =>
    rw [sourceRange_append_singleton]
    rcases eq_nil_or_concat items with rfl | ⟨init, last, hInit⟩
    · simp [sourceRange]
    rcases ih (by rw [hInit]; simp) with ⟨hGreatest, x₀, hx₀, hEq⟩
    dsimp only
    split
    · refine ⟨?_, info, by simp, rfl⟩
      intro x hx
      rcases mem_append.mp hx with hOld | hLast
      · have hOldLe := hGreatest x hOld
        omega
      · exact Nat.le_of_eq (by rw [mem_singleton.mp hLast])
    refine ⟨?_, x₀, mem_append_left _ hx₀, hEq⟩
    intro x hx
    rcases mem_append.mp hx with hOld | hLast
    · exact hGreatest x hOld
    · rw [mem_singleton.mp hLast]
      omega

theorem sourceRange_reach {start : Nat} (hChain : IntervalChain.IsChain minTXID maxTXID start items)
    (hNonempty : items ≠ []) : (sourceRange items).2 = reach maxTXID start items := by
  rcases sourceRange_max hNonempty with ⟨hGreatest, x, hx, hEq⟩
  apply Nat.le_antisymm
  · rw [← hEq]
    exact hi_le_reach hChain hx
  · rcases exists_hi_eq_reach maxTXID
      start hNonempty with ⟨last, hLast, hEnd⟩
    rw [← hEnd]
    exact hGreatest last hLast

theorem sourceRange_tiles {start : Nat} (hTiles : Tiles minTXID maxTXID start items)
    (hNonempty : items ≠ []) : sourceRange items = (start + 1, reach maxTXID start items) := by
  have hAfter : ∀ x ∈ items, start < x.minTXID := fun x hx => hTiles.lt_lo hx
  rcases sourceRange_min (fun x hx => Nat.zero_lt_of_lt (hAfter x hx))
    hNonempty with ⟨hLeast, x, hx, hEq⟩
  have hFirst : (sourceRange items).1 = start + 1 := by
    have hX := hAfter x hx
    cases items with
    | nil => exact absurd rfl hNonempty
    | cons y ys =>
      have hY := hLeast y mem_cons_self
      have hStart : y.minTXID = start + 1 := hTiles.1
      omega
  rw [← hFirst, ← sourceRange_reach hTiles.isChain hNonempty]

end Compactor

-- Contents Of Labelled Files

namespace History

variable (H : History lib) {t p : Nat}

theorem one_le_writer (hLe : t ≤ H.count) (hPage : 1 ≤ p) (hSize : p ≤ sizeAt H.tx t)
    (hLock : p ≠ lib.lockPgno) : 1 ≤ writer H.tx p t := by
  by_contra hNever
  have hZero : p ≤ sizeAt H.tx 0 :=
    le_sizeAt_of_writer_le H.grows hLock hLe hSize (by omega) (Nat.zero_le t)
  simp only [sizeAt] at hZero
  omega

theorem writer_zero (hLe : t ≤ H.count) : writer H.tx 0 t = 0 := by
  by_contra hWritten
  have hPos : 0 < writer H.tx 0 t := by omega
  have hWriter : writer H.tx 0 t ≤ t := writer_le
  have hWithin := H.within (writer H.tx 0 t) hPos (by omega) 0 (isSome_page_writer hPos)
  omega

theorem tx_eq_slice (hPos : 1 ≤ t) (hLe : t ≤ H.count) : H.tx t = slice H.tx t t := by
  rcases Nat.exists_eq_succ_of_ne_zero (Nat.ne_of_gt hPos) with ⟨u, rfl⟩
  have hPage : (H.tx (u + 1)).page = (slice H.tx (u + 1) (u + 1)).page := by
    funext p
    cases hSome : (H.tx (u + 1)).page p with
    | none =>
      have hWriter : writer H.tx p (u + 1) < u + 1 := by
        have hOld : writer H.tx p u ≤ u := writer_le
        simp only [writer, hSome, Option.isSome_none]
        simp
        omega
      rw [slice_page_eq_none hWriter]
    | some d =>
      have hSize := (H.within (u + 1) hPos hLe p (by simp [hSome])).2
      have hWriter : writer H.tx p (u + 1) = u + 1 := by simp [writer, hSome]
      rw [slice_page_eq hSize (Nat.le_of_eq hWriter.symm), hWriter, hSome]
  calc
    H.tx (u + 1) = ⟨(H.tx (u + 1)).commit, (H.tx (u + 1)).page⟩ := rfl
    _ = slice H.tx (u + 1) (u + 1) := by
      rw [hPage]
      rfl

theorem fullImage_eq_slice (hLe : t ≤ H.count) : H.fullImage t = slice H.tx 1 t := by
  unfold fullImage
  have hPage : ∀ p, (if 1 ≤ p ∧ p ≤ sizeAt H.tx t ∧ p ≠ lib.lockPgno then
    some ((H.replay t).getD (p - 1) lib.zero)
      else none) =
      (slice H.tx 1 t).page p := by
    intro p
    split
    · rename_i hExists
      rcases hExists with ⟨hPos, hSize, hLock⟩
      have hWriter := H.one_le_writer hLe hPos hSize hLock
      have hReplay : (H.replay t).getD (p - 1) lib.zero =
        ((slice H.tx 1 t).page (p - 1 + 1)).getD lib.zero :=
        replay_getD H.grows hLe (by omega)
      rw [hReplay, Nat.sub_add_cancel hPos, slice_page_eq hSize hWriter]
      rcases Option.isSome_iff_exists.mp (isSome_page_writer hWriter) with ⟨d, hd⟩
      rw [hd]
      rfl
    · rename_i hMissing
      symm
      by_cases hSize : p ≤ sizeAt H.tx t
      · apply slice_page_eq_none
        by_cases hPos : 1 ≤ p
        · have hLock : p = lib.lockPgno := by
            by_contra hOther
            exact hMissing ⟨hPos, hSize, hOther⟩
          rw [writer_exempt H.grows hLe hLock]
          exact Nat.one_pos
        · rw [Nat.lt_one_iff.mp (Nat.lt_of_not_le hPos), H.writer_zero hLe]
          exact Nat.one_pos
      · simp [slice, hSize]
  calc
    _ = Layer.mk (sizeAt H.tx t) (slice H.tx 1 t).page := by
      congr 1
      funext p
      exact hPage p
    _ = slice H.tx 1 t := rfl

end History

namespace Produced

variable {H : History lib} {a b : Nat} {file : Layer D}

/-
  Every file of a replica is the slice of the history that
  its label names, however often it was compacted.
-/
theorem eq_slice (hFile : Produced H a b file) : 1 ≤ a ∧ b ≤ H.count ∧ file = slice H.tx a b := by
  induction hFile with
  | transaction hPos hLe => exact ⟨hPos, hLe, H.tx_eq_slice hPos hLe⟩
  | snapshot hPos hLe => exact ⟨Nat.le_refl 1, hLe, H.fullImage_eq_slice hLe⟩
  | @compaction inputs out start _ hNonempty hChain hCompact ih =>
    have hInfos : IntervalChain.IsChain minTXID
      maxTXID start (inputs.map Prod.fst) :=
      (IntervalChain.isChain_map Prod.fst start inputs).mpr hChain
    have hInfosNonempty : inputs.map Prod.fst ≠ [] := by simpa using hNonempty
    have hPos : ∀ x ∈ inputs.map Prod.fst, 1 ≤ x.minTXID := by
      intro x hx
      rcases mem_map.mp hx with ⟨y, hy, rfl⟩
      exact (ih y hy).1
    rcases Compactor.sourceRange_min hPos hInfosNonempty with ⟨hLeast, x₀, hx₀, hMin⟩
    rcases mem_map.mp hx₀ with ⟨y₀, hy₀, rfl⟩
    have hEnd : (Compactor.sourceRange (inputs.map Prod.fst)).2 =
      reach (fun x : FileInfo × Layer D => x.1.maxTXID) start inputs := by
      rw [Compactor.sourceRange_reach hInfos hInfosNonempty, reach_map]
    have hBound : reach (fun x : FileInfo × Layer D => x.1.maxTXID)
      start inputs ≤ H.count := by
      rcases eq_nil_or_concat inputs with hNil | ⟨init, last, hConcat⟩
      · exact absurd hNil hNonempty
      · rw [concat_eq_append] at hConcat
        rw [hConcat, reach_append_singleton]
        exact (ih last (by rw [hConcat]; simp)).2.1
    refine ⟨?_, ?_, ?_⟩
    · rw [← hMin]
      exact (ih y₀ hy₀).1
    · rw [hEnd]
      exact hBound
    · rw [lib.compact_ok _ _ hCompact, hEnd]
      exact stack_slices H.grows hChain hBound (fun x hx => (ih x hx).2.2)
        (by rw [← hMin]; exact (ih y₀ hy₀).1)
        (fun x hx => hLeast x.1 (mem_map_of_mem hx))
        ⟨y₀, hy₀, hMin⟩

/-
  A file belongs to every history that agrees with its own
  up to the end of its label.
-/
theorem of_agree {H' : History lib} {n : Nat} (hAgree : ∀ t, 1 ≤ t → t ≤ n → H'.tx t = H.tx t)
    (hCount : n ≤ H'.count) (hFile : Produced H a b file) (hLe : b ≤ n) : Produced H' a b file := by
  induction hFile with
  | @transaction t hPos _ =>
    rw [← hAgree t hPos hLe]
    exact Produced.transaction hPos (by omega)
  | @snapshot t hPos _ =>
    have hUpTo : ∀ u, 1 ≤ u → u ≤ t → H'.tx u = H.tx u :=
      fun u hFirst hTo => hAgree u hFirst (by omega)
    have hImage : H.fullImage t = H'.fullImage t := by
      unfold History.fullImage History.replay
      rw [sizeAt_congr hUpTo, replay_congr hUpTo]
    rw [hImage]
    exact Produced.snapshot hPos (by omega)
  | @compaction inputs out start _ hNonempty hChain hCompact ih =>
    refine Produced.compaction ?_ hNonempty hChain hCompact
    intro x hx
    have hMax := (Compactor.sourceRange_max (by simpa using hNonempty)).1 x.1 (mem_map_of_mem hx)
    exact ih x hx (by omega)

end Produced

end Replicate
