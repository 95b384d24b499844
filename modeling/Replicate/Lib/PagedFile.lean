import Mathlib.Data.List.GetD
import Mathlib.Tactic.Common

/-
  Files that are read and written page by page.

  A file is the list of its pages. Writing behind the end
  fills the gap with zero pages, as the file system does,
  and resizing cuts the file off or fills it up.

  Main declarations:
    * `PagedFile.writePage` and `PagedFile.getD_writePage`
    * `PagedFile.resize` and `PagedFile.getD_resize`
    * `PagedFile.ext_getD`
-/

-- Writing And Resizing

namespace PagedFile

open List

variable {D : Type} (zero : D)

/- Write one page, of which the first has number zero. -/
def writePage (i : Nat) (d : D) (file : List D) : List D :=
  if i < file.length then file.set i d else file ++ replicate (i - file.length) zero ++ [d]

/- Cut a file off, or fill it up with zero pages. -/
def resize (n : Nat) (file : List D) : List D :=
  file.take n ++ replicate (n - file.length) zero

theorem length_writePage (i : Nat) (d : D) (file : List D) :
    (writePage zero i d file).length = max file.length (i + 1) := by
  unfold writePage
  split
  · rw [length_set]
    omega
  · simp only [length_append, length_replicate, length_singleton]
    omega

theorem getD_writePage (i j : Nat) (d : D) (file : List D) : (writePage zero i d file).getD j zero =
    if j = i then d else file.getD j zero := by
  unfold writePage
  split
  · rename_i hIn
    simp only [getD_eq_getElem?_getD]
    by_cases hEq : j = i
    · subst hEq
      simp [hIn]
    · rw [getElem?_set_ne (Ne.symm hEq), if_neg hEq]
  rename_i hOut
  simp only [getD_eq_getElem?_getD]
  by_cases hOld : j < file.length
  · have hNe : j ≠ i := by omega
    rw [if_neg hNe, append_assoc, getElem?_append_left hOld]
  rw [append_assoc, getElem?_append_right (by omega)]
  by_cases hGap : j - file.length < i - file.length
  · have hNe : j ≠ i := by omega
    rw [if_neg hNe, getElem?_append_left (by simpa using hGap)]
    simp [hGap, hOld]
  rw [getElem?_append_right (by simpa using hGap)]
  by_cases hEq : j = i
  · subst hEq
    simp
  · have hPast : ¬ j - file.length - (i - file.length) < 1 := by omega
    simp [hEq, hOld, hPast]

theorem length_resize (n : Nat) (file : List D) : (resize zero n file).length = n := by
  unfold resize
  simp only [length_append, length_take, length_replicate]
  omega

theorem getD_resize (n j : Nat) (file : List D) : (resize zero n file).getD j zero =
    if j < n then file.getD j zero else zero := by
  unfold resize
  simp only [getD_eq_getElem?_getD]
  by_cases hIn : j < (file.take n).length
  · rw [getElem?_append_left hIn]
    rw [length_take] at hIn
    have hLt : j < n := by omega
    rw [if_pos hLt, getElem?_take_of_lt hLt]
  rw [getElem?_append_right (by omega)]
  rw [length_take] at hIn
  by_cases hLt : j < n
  · have hOut : ¬ j < file.length := by omega
    rw [getElem?_eq_none (by omega : file.length ≤ j)]
    simp
  rw [if_neg hLt, getElem?_eq_none]
  · rfl
  · simp only [length_replicate, length_take]
    omega

/- Files of one length with the same pages are the same. -/
theorem ext_getD {file file' : List D} (hLength : file.length = file'.length)
    (hPages : ∀ i < file.length, file.getD i zero = file'.getD i zero) : file = file' := by
  apply ext_getElem hLength
  intro i hIn hIn'
  have hEq := hPages i hIn
  rw [getD_eq_getElem _ _ hIn, getD_eq_getElem _ _ hIn'] at hEq
  exact hEq

end PagedFile
