import Replicate.Lib.PagedFile
import Replicate.Lib.PageHistory

/-
  Slices of a history written into a file, page by page.

  A file starts as the state after some step `t`. Slices
  are written into it, each one from where the file is or
  from before that, and writing a slice can be interrupted.
  Then the file is a mix: pages that no step since `t` has
  written are as they were, and nothing is known of the
  others. Slices that are written completely put the others
  right, up to the end of the last one. So the file is a
  state of the history again as soon as the slices have got
  past all that was interrupted.

  What a page shows is its value under a view, so that a
  writer may change parts of a page that do not count.

  Main declarations:
    * `LayeredFile.Mixed`
    * `LayeredFile.Mixed.writeAll`
    * `LayeredFile.Written`
    * `LayeredFile.Written.slice`
    * `LayeredFile.Mixed.advance`
    * `LayeredFile.Mixed.same_replay`
-/

-- Writing A Layer

namespace LayeredFile

open PagedFile PageHistory List

variable {D V : Type}

/- The pages of a layer, in ascending order. -/
def pages (l : Layer D) : List (Nat × D) :=
  (List.range l.commit).filterMap (fun i => (l.page (i + 1)).map (fun d => (i + 1, d)))

theorem mem_pages {l : Layer D} {e : Nat × D} : e ∈ pages l ↔
    1 ≤ e.1 ∧ e.1 ≤ l.commit ∧ l.page e.1 = some e.2 := by
  unfold pages
  simp only [mem_filterMap, mem_range, Option.map_eq_some_iff]
  constructor
  · rintro ⟨i, hLt, d, hPage, rfl⟩
    exact ⟨Nat.le_add_left 1 i, hLt, hPage⟩
  · rintro ⟨hPos, hLe, hPage⟩
    refine ⟨e.1 - 1, by omega, e.2, ?_, ?_⟩
    · rw [Nat.sub_add_cancel hPos]
      exact hPage
    · rw [Nat.sub_add_cancel hPos]

/- Write some pages, which are numbered from one. -/
def writeAll (zero : D) (writes : List (Nat × D)) (file : List D) : List D :=
  writes.foldl (fun file e => writePage zero (e.1 - 1) e.2 file) file

theorem writeAll_cases (zero : D) {writes} (hPages : ∀ e ∈ writes, 1 ≤ e.1) (file : List D)
    {p : Nat} (hPos : 1 ≤ p) :
    (∃ e ∈ writes, e.1 = p ∧ (writeAll zero writes file).getD (p - 1) zero = e.2) ∨
    ((∀ e ∈ writes, e.1 ≠ p) ∧ (writeAll zero writes file).getD (p - 1) zero =
      file.getD (p - 1) zero) := by
  induction writes generalizing file with
  | nil => exact Or.inr ⟨by simp, rfl⟩
  | cons e writes ih =>
    rcases ih (fun x hx => hPages x (mem_cons_of_mem e hx)) (writePage zero (e.1 - 1) e.2 file) with
      ⟨x, hx, hPage, hValue⟩ | ⟨hNone, hValue⟩
    · exact Or.inl ⟨x, mem_cons_of_mem e hx, hPage, hValue⟩
    rw [getD_writePage] at hValue
    have hFirst := hPages e mem_cons_self
    by_cases hSame : e.1 = p
    · rw [if_pos (by omega)] at hValue
      exact Or.inl ⟨e, mem_cons_self, hSame, hValue⟩
    rw [if_neg (by omega)] at hValue
    refine Or.inr ⟨?_, hValue⟩
    intro x hx
    rcases mem_cons.mp hx with rfl | hTail
    · exact hSame
    · exact hNone x hTail

-- Mixed Files

/- The last version of a page. -/
def version (zero : D) (H : Nat → Layer D) (p m : Nat) : D :=
  ((H (writer H p m)).page p).getD zero

/- Two files have the same length and show the same. -/
structure Same (zero : D) (view : Nat → D → V) (file img : List D) : Prop where
  length : file.length = img.length
  page : ∀ i < file.length, view (i + 1) (file.getD i zero) = view (i + 1) (img.getD i zero)

/-
  Pages that no step after `t`, up to `m`, has written show
  the version of step `t`, and exempt pages show zero.
-/
structure Mixed (zero : D) (view : Nat → D → V) (exempt : Nat → Prop)
    (H : Nat → Layer D) (t m : Nat) (file : List D) : Prop where
  exempt_zero : ∀ p, 1 ≤ p → exempt p → view p (file.getD (p - 1) zero) = view p zero
  kept : ∀ p, 1 ≤ p → ¬ exempt p → p ≤ sizeAt H m → writer H p m ≤ t →
    view p (file.getD (p - 1) zero) = view p (version zero H p m)

/- Pages that a step after `t` has written show step `c`. -/
def Written (zero : D) (view : Nat → D → V) (exempt : Nat → Prop)
    (H : Nat → Layer D) (t c : Nat) (file : List D) : Prop :=
  ∀ p, 1 ≤ p → ¬ exempt p → p ≤ sizeAt H c → t < writer H p c →
    view p (file.getD (p - 1) zero) = view p (version zero H p c)

section Slices

variable {zero : D} {view : Nat → D → V} {exempt : Nat → Prop} {H : Nat → Layer D}
variable {n t m a b c p : Nat} {file : List D}

theorem replay_version (hGrows : Grows exempt H n) (hLe : t ≤ n) (hPos : 1 ≤ p)
    (hSize : p ≤ sizeAt H t) (hNot : ¬ exempt p) :
    (replay zero H t).getD (p - 1) zero = version zero H p t := by
  have hWriter : 1 ≤ writer H p t := by
    by_contra hNever
    have hZero : p ≤ sizeAt H 0 :=
      le_sizeAt_of_writer_le hGrows hNot hLe hSize (by omega) (Nat.zero_le t)
    simp only [sizeAt] at hZero
    omega
  have hPage := @replay_getD D zero exempt H n hGrows t (p - 1) hLe (by omega)
  rw [Nat.sub_add_cancel hPos, slice_page_eq hSize hWriter] at hPage
  exact hPage

theorem replay_exempt (hGrows : Grows exempt H n) (hLe : t ≤ n) (hPos : 1 ≤ p)
    (hExempt : exempt p) :
    (replay zero H t).getD (p - 1) zero = zero := by
  by_cases hSize : p ≤ sizeAt H t
  · have hPage := @replay_getD D zero exempt H n hGrows t (p - 1) hLe (by omega)
    have hNever := writer_exempt hGrows hLe hExempt
    rw [Nat.sub_add_cancel hPos, slice_page_eq_none (a := 1) (by omega)] at hPage
    exact hPage
  · apply getD_eq_default
    rw [length_replay]
    omega

theorem Mixed.of_same (hGrows : Grows exempt H n) (hLe : t ≤ n)
    (hSame : Same zero view file (replay zero H t)) : Mixed zero view exempt H t t file := by
  have hPage : ∀ p, 1 ≤ p → p ≤ sizeAt H t → view p (file.getD (p - 1) zero) =
    view p ((replay zero H t).getD (p - 1) zero) := by
    intro p hPos hSize
    have hLength := hSame.length
    rw [length_replay] at hLength
    have hView := hSame.page (p - 1) (by omega)
    rwa [Nat.sub_add_cancel hPos] at hView
  constructor
  · intro p hPos hExempt
    by_cases hSize : p ≤ sizeAt H t
    · rw [hPage p hPos hSize, replay_exempt hGrows hLe hPos hExempt]
    have hOut : file.getD (p - 1) zero = zero := by
      apply getD_eq_default
      rw [hSame.length, length_replay]
      omega
    rw [hOut]
  · intro p hPos hNot hSize _
    rw [hPage p hPos hSize, replay_version hGrows hLe hPos hSize hNot]

theorem Mixed.mono {m' : Nat} (hGrows : Grows exempt H n)
    (hMixed : Mixed zero view exempt H t m file) (hFrom : t ≤ m) (hLe : m ≤ m') (hBound : m' ≤ n) :
    Mixed zero view exempt H t m' file := by
  refine ⟨hMixed.exempt_zero, ?_⟩
  intro p hPos hNot hSize hWriter
  have hSame : writer H p m = writer H p m' := writer_eq_of_le (by omega) hLe
  have hOld : p ≤ sizeAt H m := le_sizeAt_of_writer_le hGrows hNot hBound hSize (by omega) hLe
  have hKept := hMixed.kept p hPos hNot hOld (by omega)
  unfold version at hKept ⊢
  rwa [hSame] at hKept

theorem slice_page_cases (zero : D) {d : D} (hPage : (slice H a b).page p = some d) :
    p ≤ sizeAt H b ∧ a ≤ writer H p b ∧ version zero H p b = d := by
  unfold slice at hPage
  dsimp only at hPage
  split at hPage
  · rename_i hIn
    refine ⟨hIn.1, hIn.2, ?_⟩
    unfold version
    rw [hPage]
    rfl
  · simp at hPage

/-
  A page of a slice is written, perhaps only in part. If
  the page did not count as written, it shows the same.
-/
theorem Mixed.write {d d' : D} (hGrows : Grows exempt H n)
    (hMixed : Mixed zero view exempt H t m file) (hStart : 1 ≤ a) (hFrom : t ≤ b) (hLe : b ≤ m)
    (hBound : m ≤ n) (hPos : 1 ≤ p) (hPage : (slice H a b).page p = some d)
    (hShows : view p (file.getD (p - 1) zero) = view p d → view p d' = view p d) :
    Mixed zero view exempt H t m (writePage zero (p - 1) d' file) := by
  rcases slice_page_cases zero hPage with ⟨_, hWriter, hVersion⟩
  constructor
  · intro q hQ hExempt
    rw [getD_writePage]
    split
    · -- a slice has no exempt page
      have hEq : q = p := by omega
      rw [hEq] at hExempt
      have hNever := writer_exempt hGrows (Nat.le_trans hLe hBound) hExempt
      omega
    · exact hMixed.exempt_zero q hQ hExempt
  · intro q hQ hNot hSize hOld
    rw [getD_writePage]
    split
    · have hEq : q = p := by omega
      subst hEq
      have hSame : writer H q b = writer H q m := writer_eq_of_le (by omega) hLe
      have hCurrent : version zero H q m = d := by
        rw [← hVersion]
        unfold version
        rw [hSame]
      have hKept := hMixed.kept q hQ hNot hSize hOld
      rw [hCurrent] at hKept ⊢
      exact hShows hKept
    · exact hMixed.kept q hQ hNot hSize hOld

/- The writes show pages of the layer. -/
def Shows (view : Nat → D → V) (l : Layer D) (writes : List (Nat × D)) : Prop :=
  ∀ e ∈ writes, 1 ≤ e.1 ∧ ∃ d, l.page e.1 = some d ∧ view e.1 e.2 = view e.1 d

theorem Mixed.writeAll {writes} (hGrows : Grows exempt H n)
    (hMixed : Mixed zero view exempt H t m file) (hStart : 1 ≤ a) (hFrom : t ≤ b) (hLe : b ≤ m)
    (hBound : m ≤ n) (hShows : Shows view (slice H a b) writes) :
    Mixed zero view exempt H t m (LayeredFile.writeAll zero writes file) := by
  induction writes generalizing file with
  | nil => exact hMixed
  | cons e writes ih =>
    rcases hShows e mem_cons_self with ⟨hPos, d, hPage, hView⟩
    apply ih
    · exact hMixed.write hGrows hStart hFrom hLe hBound hPos hPage (fun _ => hView)
    · exact fun x hx => hShows x (mem_cons_of_mem e hx)

theorem Mixed.resize (hGrows : Grows exempt H n)
    (hMixed : Mixed zero view exempt H t m file) (hFrom : t ≤ b) (hLe : b ≤ m) (hBound : m ≤ n) :
    Mixed zero view exempt H t m (resize zero (sizeAt H b) file) := by
  constructor
  · intro p hPos hExempt
    rw [getD_resize]
    split
    · exact hMixed.exempt_zero p hPos hExempt
    · rfl
  · intro p hPos hNot hSize hWriter
    have hAlive : p ≤ sizeAt H b := le_sizeAt_of_writer_le hGrows hNot hBound hSize (by omega) hLe
    rw [getD_resize, if_pos (by omega)]
    exact hMixed.kept p hPos hNot hSize hWriter

-- Complete Slices

theorem Written.start : Written zero view exempt H t t file := by
  intro p _ _ _ hWriter
  have hLe : writer H p t ≤ t := writer_le
  omega

/-
  A slice that begins where the file is, or before, and is
  written completely takes the file to its end.
-/
theorem Written.slice {writes} (hGrows : Grows exempt H n)
    (hWritten : Written zero view exempt H t c file) (hNext : a ≤ c + 1) (hLater : c < b)
    (hBound : b ≤ n) (hShows : Shows view (slice H a b) writes)
    (hAll : ∀ p d, 1 ≤ p → (slice H a b).page p = some d → ∃ e ∈ writes, e.1 = p) :
    Written zero view exempt H t b (resize zero (sizeAt H b)
      (LayeredFile.writeAll zero writes file)) := by
  intro p hPos hNot hSize hWriter
  rw [getD_resize, if_pos (by omega)]
  have hPages : ∀ e ∈ writes, 1 ≤ e.1 := fun e he => (hShows e he).1
  rcases writeAll_cases zero hPages file hPos with ⟨e, he, rfl, hValue⟩ | ⟨hNone, hValue⟩
  · rcases hShows e he with ⟨_, d, hPage, hView⟩
    have hVersion := (slice_page_cases zero hPage).2.2
    rw [hValue, hView, hVersion]
  -- the page is older than the slice
  have hOld : writer H p b < a := by
    by_contra hIn
    have hWriterPos : 0 < writer H p b := by omega
    rcases Option.isSome_iff_exists.mp (isSome_page_writer hWriterPos) with ⟨d, hd⟩
    rcases hAll p d hPos (by
      rw [slice_page_eq hSize (by omega)]
      exact hd) with ⟨e, he, hEq⟩
    exact hNone e he hEq
  have hSame : writer H p c = writer H p b := writer_eq_of_le (by omega) (by omega)
  have hAlive : p ≤ sizeAt H c :=
    le_sizeAt_of_writer_le hGrows hNot hBound hSize (by omega) (by omega)
  have hShown := hWritten p hPos hNot hAlive (by omega)
  unfold version at hShown ⊢
  rw [hSame] at hShown
  rw [hValue, hShown]

/- The file then counts as one from that end. -/
theorem Mixed.advance (hGrows : Grows exempt H n) (hMixed : Mixed zero view exempt H t m file)
    (hWritten : Written zero view exempt H t c file) (hLe : c ≤ m) (hBound : m ≤ n) :
    Mixed zero view exempt H c m file := by
  refine ⟨hMixed.exempt_zero, ?_⟩
  intro p hPos hNot hSize hWriter
  by_cases hOld : writer H p m ≤ t
  · exact hMixed.kept p hPos hNot hSize hOld
  have hSame : writer H p c = writer H p m := writer_eq_of_le hWriter hLe
  have hAlive : p ≤ sizeAt H c := le_sizeAt_of_writer_le hGrows hNot hBound hSize hWriter hLe
  have hShown := hWritten p hPos hNot hAlive (by omega)
  unfold version at hShown ⊢
  rwa [hSame] at hShown

/- Past all interruptions the file is a state again. -/
theorem Mixed.same_replay (hGrows : Grows exempt H n) (hMixed : Mixed zero view exempt H c c file)
    (hBound : c ≤ n) (hLength : file.length = sizeAt H c) :
    Same zero view file (replay zero H c) := by
  refine ⟨by rw [hLength, length_replay], ?_⟩
  intro i hi
  have hSize : i + 1 ≤ sizeAt H c := by omega
  by_cases hExempt : exempt (i + 1)
  · have hZero := hMixed.exempt_zero (i + 1) (by omega) hExempt
    have hReplay := @replay_exempt D zero exempt H n c (i + 1) hGrows hBound (by omega) hExempt
    rw [Nat.add_sub_cancel] at hZero hReplay
    rw [hZero, hReplay]
  have hReplay := @replay_version D zero exempt H n c (i + 1)
    hGrows hBound (by omega) hSize hExempt
  rw [Nat.add_sub_cancel] at hReplay
  rw [hReplay]
  exact hMixed.kept (i + 1) (by omega) hExempt hSize writer_le

end Slices

end LayeredFile
