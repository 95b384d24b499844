import Mathlib.Data.List.GetD
import Mathlib.Data.List.Induction
import Replicate.Lib.IntervalChain

/-
  Histories of page updates.

  A layer is a set of pages together with the size, in
  pages, of the file after it. A history assigns a layer to
  every step from 1 on. Replaying a history applies its
  layers one by one. A slice keeps, for a range of steps,
  the last version of every page that still exists at the
  end of the range.

  Stacking layers keeps the topmost version of every page
  and drops pages above the last size. The main fact is
  that stacking a chain of slices gives a slice again, no
  matter how the ranges overlap: an older range that is
  applied late only repeats versions that are current at
  its own end.

  Main declarations:
    * `PageHistory.writer`
    * `PageHistory.slice`
    * `PageHistory.stack`
    * `PageHistory.topmost_append`
    * `PageHistory.replay`
    * `PageHistory.stack_slices`
    * `PageHistory.image_slice_one`
-/

-- Layers And Histories

namespace PageHistory

open IntervalChain Option
open List hiding IsChain

variable {D : Type}

/- Some pages of a file and its size after the update. -/
structure Layer (D : Type) where
  commit : Nat
  page : Nat → Option D

/- The size of the file after a number of steps. -/
def sizeAt (H : Nat → Layer D) : Nat → Nat
| 0 => 0
| t + 1 => (H (t + 1)).commit

/-
  The last step, up to a given one, that wrote the page.
  Zero means that no step did.
-/
def writer (H : Nat → Layer D) (p : Nat) : Nat → Nat
| 0 => 0
| t + 1 => if ((H (t + 1)).page p).isSome then t + 1 else writer H p t

/-
  Every step up to the given one writes all pages by which
  it grows the file, except for exempt pages, which no step
  ever writes.
-/
structure Grows (exempt : Nat → Prop) (H : Nat → Layer D) (n : Nat) : Prop where
  grow : ∀ t < n, ∀ p, sizeAt H t < p → p ≤ sizeAt H (t + 1) →
    ¬ exempt p → ((H (t + 1)).page p).isSome
  exempt_free : ∀ t < n, ∀ p, exempt p → (H (t + 1)).page p = none

section Writer

variable {H : Nat → Layer D} {p a b c t : Nat}

theorem writer_le : writer H p b ≤ b := by
  induction b with
  | zero => exact Nat.le_refl 0
  | succ b ih =>
    unfold writer
    split
    · exact Nat.le_refl _
    · exact Nat.le_succ_of_le ih

theorem isSome_page_writer (hPos : 0 < writer H p b) : ((H (writer H p b)).page p).isSome := by
  induction b with
  | zero => simp [writer] at hPos
  | succ b ih =>
    unfold writer at hPos ⊢
    split
    · rename_i hSome
      exact hSome
    · rename_i hNone
      rw [if_neg hNone] at hPos
      exact ih hPos

theorem le_writer (hLe : t ≤ b) (hPos : 0 < t) (hSome : ((H t).page p).isSome) :
    t ≤ writer H p b := by
  induction b with
  | zero => omega
  | succ b ih =>
    unfold writer
    split
    · exact hLe
    rename_i hNone
    rcases Nat.lt_or_eq_of_le hLe with hLt | rfl
    · exact ih (Nat.le_of_lt_succ hLt)
    · exact absurd hSome hNone

theorem writer_mono (hLe : b ≤ c) : writer H p b ≤ writer H p c := by
  by_cases hPos : 0 < writer H p b
  · exact le_writer (Nat.le_trans writer_le hLe) hPos (isSome_page_writer hPos)
  · omega

theorem writer_eq_of_le (hWriter : writer H p b ≤ c) (hLe : c ≤ b) :
    writer H p c = writer H p b := by
  apply Nat.le_antisymm (writer_mono hLe)
  by_cases hPos : 0 < writer H p b
  · exact le_writer hWriter hPos (isSome_page_writer hPos)
  · omega

theorem writer_exempt {exempt} {n : Nat} (hGrows : Grows exempt H n) (hLe : b ≤ n)
    (hExempt : exempt p) : writer H p b = 0 := by
  induction b with
  | zero => rfl
  | succ b ih =>
    unfold writer
    rw [hGrows.exempt_free b (by omega) p hExempt]
    exact ih (by omega)

/-
  A page that exists at the end and was not written since
  an earlier step existed at that step already: growing the
  file again would have written it.
-/
theorem le_sizeAt_of_writer_le {exempt} {n : Nat} (hGrows : Grows exempt H n) (hNot : ¬ exempt p)
    (hBound : b ≤ n) (hSize : p ≤ sizeAt H b) (hWriter : writer H p b ≤ c) (hLe : c ≤ b) :
    p ≤ sizeAt H c := by
  induction b with
  | zero =>
    rw [Nat.le_zero.mp hLe]
    exact hSize
  | succ b ih =>
    rcases Nat.lt_or_eq_of_le hLe with hLt | rfl
    · have hUnwritten : ¬ ((H (b + 1)).page p).isSome := by
        intro hSome
        have hLast : b + 1 ≤ writer H p (b + 1) := le_writer (Nat.le_refl _) (Nat.succ_pos b) hSome
        omega
      have hPrev : p ≤ sizeAt H b := by
        by_contra hGrew
        exact hUnwritten (hGrows.grow b (by omega) p (by omega) hSize hNot)
      rw [writer, if_neg hUnwritten] at hWriter
      exact ih (by omega) hPrev hWriter (by omega)
    · exact hSize

end Writer

-- Slices And Stacks

/- The last version of each page in a range of steps. -/
def slice (H : Nat → Layer D) (a b : Nat) : Layer D where
  commit := sizeAt H b
  page p :=
    if p ≤ sizeAt H b ∧ a ≤ writer H p b then (H (writer H p b)).page p else none

/- The version of a page in the last layer that has it. -/
def topmost (p : Nat) : List (Layer D) → Option D
| [] => none
| l :: ls => (topmost p ls).or (l.page p)

/- The size after the last layer. -/
def lastCommit (layers : List (Layer D)) : Nat :=
  match layers.getLast? with
  | none => 0
  | some l => l.commit

/-
  Merge layers: the topmost version of every page, the
  size of the last layer, and no page above it.
-/
def stack (layers : List (Layer D)) : Layer D where
  commit := lastCommit layers
  page p :=
    if p ≤ lastCommit layers then topmost p layers else none

theorem topmost_eq_none_iff {p : Nat} {layers : List (Layer D)} :
    topmost p layers = none ↔ ∀ l ∈ layers, l.page p = none := by
  induction layers with
  | nil => simp [topmost]
  | cons l ls ih =>
    simp only [topmost, or_eq_none_iff, ih, mem_cons, forall_eq_or_imp]
    exact And.comm

/- Layers put on top decide first. -/
theorem topmost_append (p : Nat) (below above : List (Layer D)) :
    topmost p (below ++ above) = (topmost p above).or (topmost p below) := by
  induction below with
  | nil => simp [topmost]
  | cons l ls ih => rw [cons_append, topmost, topmost, ih, Option.or_assoc]

theorem exists_of_topmost_eq_some {p : Nat} {layers : List (Layer D)} {d : D}
    (hTop : topmost p layers = some d) :
    ∃ below l above, layers = below ++ l :: above ∧ l.page p = some d ∧
      ∀ l' ∈ above, l'.page p = none := by
  induction layers with
  | nil => simp [topmost] at hTop
  | cons l ls ih =>
    cases hRest : topmost p ls with
    | some e =>
      simp only [topmost, hRest, some_or] at hTop
      rw [hTop] at hRest
      rcases ih hRest with ⟨below, l', above, rfl, hPage, hAbove⟩
      exact ⟨l :: below, l', above, rfl, hPage, hAbove⟩
    | none =>
      simp only [topmost, hRest, none_or] at hTop
      exact ⟨[], l, ls, rfl, hTop, topmost_eq_none_iff.mp hRest⟩

section Slices

variable {α : Type} {lo hi : α → Nat} {layer : α → Layer D} {exempt : Nat → Prop}
variable {H : Nat → Layer D} {n a p : Nat} {c : Nat} {xs : List α}

theorem slice_page_eq_none {b : Nat} (hWriter : writer H p b < a) :
    (slice H a b).page p = none := by
  simp [slice, Nat.not_le.mpr hWriter]

theorem slice_page_eq {b : Nat} (hSize : p ≤ sizeAt H b) (hWriter : a ≤ writer H p b) :
    (slice H a b).page p = (H (writer H p b)).page p := by
  simp [slice, hSize, hWriter]

theorem lastCommit_append_singleton (layers : List (Layer D)) (l : Layer D) :
    lastCommit (layers ++ [l]) = l.commit := by
  simp [lastCommit]

theorem lastCommit_slices (hNonempty : xs ≠ [])
    (hSlices : ∀ x ∈ xs, layer x = slice H (lo x) (hi x)) :
    lastCommit (xs.map layer) = sizeAt H (reach hi c xs) := by
  rcases eq_nil_or_concat xs with rfl | ⟨ys, y, rfl⟩
  · exact absurd rfl hNonempty
  rw [concat_eq_append] at hSlices ⊢
  rw [map_append, map_singleton, lastCommit_append_singleton, reach_append_singleton,
    hSlices y (by simp)]
  rfl

/-
  The topmost version in a chain of slices is the last
  version in the whole range. The last writer lies in some
  slice, which has the page; any slice above it that also
  has the page ends later, so it agrees on the last writer.
-/
theorem topmost_slices (hGrows : Grows exempt H n) (hChain : IsChain lo hi c xs)
    (hBound : reach hi c xs ≤ n) (hSlices : ∀ x ∈ xs, layer x = slice H (lo x) (hi x))
    (hPos : 0 < a) (hLeast : ∀ x ∈ xs, a ≤ lo x) (hMin : ∃ x ∈ xs, lo x = a)
    (hSize : p ≤ sizeAt H (reach hi c xs)) :
    topmost p (xs.map layer) = (slice H a (reach hi c xs)).page p := by
  generalize hEnd : reach hi c xs = b at hBound hSize ⊢
  have hHi : ∀ x ∈ xs, hi x ≤ b := by
    intro x hx
    rw [← hEnd]
    exact hi_le_reach hChain hx
  by_cases hWriter : a ≤ writer H p b
  · have hNot : ¬ exempt p := by
      intro hExempt
      rw [writer_exempt hGrows hBound hExempt] at hWriter
      omega
    -- every slice that reaches the last writer has it
    have hAgree : ∀ x ∈ xs, writer H p b ≤ hi x →
      writer H p (hi x) = writer H p b ∧ p ≤ sizeAt H (hi x) := by
      intro x hx hReach
      exact ⟨writer_eq_of_le hReach (hHi x hx),
        le_sizeAt_of_writer_le hGrows hNot hBound hSize hReach (hHi x hx)⟩
    rw [slice_page_eq hSize hWriter]
    rcases hMin with ⟨x₀, hx₀, rfl⟩
    rcases exists_mem_covering_of_mem hChain
      hx₀ hWriter (by rw [hEnd]; exact writer_le) with
      ⟨x, hx, hLoX, hHiX⟩
    have hPageX : ((layer x).page p).isSome := by
      rcases hAgree x hx hHiX with ⟨hSame, hAlive⟩
      rw [hSlices x hx, slice_page_eq hAlive (by rw [hSame]; exact hLoX), hSame]
      exact isSome_page_writer (by omega)
    cases hTop : topmost p (xs.map layer) with
    | none =>
      have hNone := topmost_eq_none_iff.mp hTop (layer x) (List.mem_map_of_mem hx)
      rw [hNone] at hPageX
      simp at hPageX
    | some d =>
      rcases exists_of_topmost_eq_some hTop with ⟨below, l, above, hSplit, hPage, hAbove⟩
      rcases map_eq_append_iff.mp hSplit with ⟨ys, zs, rfl, rfl, hRest⟩
      rcases map_eq_cons_iff.mp hRest with ⟨y, zs, rfl, rfl, rfl⟩
      have hy : y ∈ ys ++ y :: zs := by simp
      -- x is not above y, so y reaches the last writer
      have hHiY : writer H p b ≤ hi y := by
        rcases mem_append.mp hx with hBefore | hAfter
        · exact Nat.le_trans hHiX (Nat.le_of_lt (hi_lt_of_before hChain hBefore))
        rcases mem_cons.mp hAfter with rfl | hTail
        · exact hHiX
        · have hNone := hAbove (layer x) (List.mem_map_of_mem hTail)
          rw [hNone] at hPageX
          simp at hPageX
      rcases hAgree y hy hHiY with ⟨hSame, hAlive⟩
      rw [hSlices y hy] at hPage
      by_cases hLoY : lo y ≤ writer H p (hi y)
      · rw [slice_page_eq hAlive hLoY, hSame] at hPage
        exact hPage.symm
      · rw [slice_page_eq_none (Nat.lt_of_not_le hLoY)] at hPage
        simp at hPage
  · rw [slice_page_eq_none (Nat.lt_of_not_le hWriter), topmost_eq_none_iff]
    intro l hl
    rcases List.mem_map.mp hl with ⟨x, hx, rfl⟩
    rw [hSlices x hx]
    apply slice_page_eq_none
    have hMono : writer H p (hi x) ≤ writer H p b := writer_mono (hHi x hx)
    have hLo := hLeast x hx
    omega

/- Stacking a chain of slices gives the slice of its range. -/
theorem stack_slices (hGrows : Grows exempt H n) (hChain : IsChain lo hi c xs)
    (hBound : reach hi c xs ≤ n) (hSlices : ∀ x ∈ xs, layer x = slice H (lo x) (hi x))
    (hPos : 0 < a) (hLeast : ∀ x ∈ xs, a ≤ lo x) (hMin : ∃ x ∈ xs, lo x = a) :
    stack (xs.map layer) = slice H a (reach hi c xs) := by
  have hNonempty : xs ≠ [] := by
    rintro rfl
    rcases hMin with ⟨x, hx, _⟩
    simp at hx
  have hCommit := lastCommit_slices (c := c) hNonempty hSlices
  unfold stack
  rw [hCommit]
  congr 1
  funext p
  by_cases hSize : p ≤ sizeAt H (reach hi c xs)
  · rw [if_pos hSize]
    exact topmost_slices hGrows hChain hBound hSlices hPos hLeast hMin hSize
  · rw [if_neg hSize]
    simp [hSize]

end Slices

-- Replay

section Replay

variable (zero : D)

/- Apply a layer to the pages of a file. -/
def applyLayer (img : List D) (l : Layer D) : List D :=
  (List.range l.commit).map (fun i => (l.page (i + 1)).getD (img.getD i zero))

/- The file after applying the first steps one by one. -/
def replay (H : Nat → Layer D) : Nat → List D
| 0 => []
| t + 1 => applyLayer zero (replay H t) (H (t + 1))

/- The pages of a layer written out as a file. -/
def image (l : Layer D) : List D :=
  (List.range l.commit).map (fun i => (l.page (i + 1)).getD zero)

variable {zero} {exempt : Nat → Prop} {H : Nat → Layer D} {n : Nat}

theorem length_replay (t : Nat) : (replay zero H t).length = sizeAt H t := by
  cases t with
  | zero => rfl
  | succ t => simp [replay, applyLayer, sizeAt]

theorem sizeAt_congr {K} {t : Nat} (hAgree : ∀ u, 1 ≤ u → u ≤ t → K u = H u) :
    sizeAt K t = sizeAt H t := by
  cases t with
  | zero => rfl
  | succ t => rw [sizeAt, sizeAt, hAgree (t + 1) (by omega) (Nat.le_refl _)]

theorem replay_congr {K} {t : Nat} (hAgree : ∀ u, 1 ≤ u → u ≤ t → K u = H u) :
    replay zero K t = replay zero H t := by
  induction t with
  | zero => rfl
  | succ t ih =>
    unfold replay
    rw [hAgree (t + 1) (by omega) (Nat.le_refl _), ih (fun u hPos hLe => hAgree u hPos (by omega))]

/- A replayed page is the version of its last writer. -/
theorem replay_getD (hGrows : Grows exempt H n) {t i : Nat} (hLe : t ≤ n) (hSize : i < sizeAt H t) :
    (replay zero H t).getD i zero = ((slice H 1 t).page (i + 1)).getD zero := by
  induction t with
  | zero => simp [sizeAt] at hSize
  | succ t ih =>
    have hCommit : i < (H (t + 1)).commit := hSize
    have hStep : (replay zero H (t + 1)).getD i zero = ((H (t + 1)).page (i + 1)).getD
      ((replay zero H t).getD i zero) := by
      simp [replay, applyLayer, hCommit]
    rw [hStep]
    cases hPage : (H (t + 1)).page (i + 1) with
    | some d =>
      have hWriter : writer H (i + 1) (t + 1) = t + 1 := by simp [writer, hPage]
      rw [slice_page_eq (a := 1) (p := i + 1) hSize (by omega), hWriter, hPage]
      rfl
    | none =>
      have hWriter : writer H (i + 1) (t + 1) = writer H (i + 1) t := by simp [writer, hPage]
      by_cases hOld : i < sizeAt H t
      · rw [getD_none, ih (by omega) hOld]
        congr 1
        by_cases hPos : 1 ≤ writer H (i + 1) t
        · rw [slice_page_eq hOld hPos,
            slice_page_eq (a := 1) (p := i + 1) hSize (by omega), hWriter]
        · rw [slice_page_eq_none (a := 1) (by omega), slice_page_eq_none (a := 1) (by omega)]
      -- an exempt page of the growth range: zero
      have hExempt : exempt (i + 1) := by
        by_contra hNot
        have hSome := hGrows.grow t (by omega) (i + 1) (by omega) hSize hNot
        rw [hPage] at hSome
        simp at hSome
      have hShort : (replay zero H t).length ≤ i := by
        rw [length_replay]
        omega
      have hNever := writer_exempt hGrows hLe hExempt
      rw [getD_none, slice_page_eq_none (a := 1) (by omega), getD_none]
      exact getD_eq_default _ _ hShort

/- The slice from the first step on, written out, is replay. -/
theorem image_slice_one (hGrows : Grows exempt H n) {t : Nat} (hLe : t ≤ n) :
    image zero (slice H 1 t) = replay zero H t := by
  apply ext_getElem
  · simp [image, length_replay, slice]
  · intro i hImage hReplay
    rw [length_replay] at hReplay
    have hPage : (replay zero H t).getD i zero = ((slice H 1 t).page (i + 1)).getD zero :=
      replay_getD hGrows hLe hReplay
    rw [getD_eq_getElem _ _ (by
      rw [length_replay]; exact hReplay)] at hPage
    rw [hPage]
    simp [image]

end Replay

end PageHistory
