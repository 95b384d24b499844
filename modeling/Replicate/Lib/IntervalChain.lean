import Mathlib.Data.List.Basic
import Mathlib.Tactic.Common

/-
  Chains of closed intervals of natural numbers.

  Items of an arbitrary type carry a lower and an upper
  end. A chain from a start point is a list of items in
  which every item begins at most one past the end reached
  so far and ends strictly later. The items of a tiling
  begin exactly there. A point is stuck for a family of
  items when no item of the family extends it.

  Main declarations:
    * `IntervalChain.IsChain`
    * `IntervalChain.reach`
    * `IntervalChain.Tiles`
    * `IntervalChain.tiles_filter`
    * `IntervalChain.Stuck`
    * `IntervalChain.reach_le_of_stuck`
    * `IntervalChain.le_of_stuck_of_covered`
-/

-- Chains

namespace IntervalChain

open List

variable {α : Type} {lo hi : α → Nat}
variable {xs : List α} {c : Nat} {x : α} {family : α → Prop} {n b : Nat}
variable {β : Type} {t : Nat} {ys : List α} {g : Nat}

/-
  Every item begins at most one past the end reached so
  far and ends strictly later.
-/
def IsChain (lo hi : α → Nat) : Nat → List α → Prop
| _, [] => True
| c, x :: xs => lo x ≤ c + 1 ∧ c < hi x ∧ IsChain lo hi (hi x) xs

instance decidableIsChain (lo hi : α → Nat) : (c : Nat) → (xs : List α) →
  Decidable (IsChain lo hi c xs)
| _, [] => isTrue trivial
| c, x :: xs =>
  have : Decidable (IsChain lo hi (hi x) xs) := decidableIsChain lo hi (hi x) xs
  inferInstanceAs (Decidable (lo x ≤ c + 1 ∧ c < hi x ∧ IsChain lo hi (hi x) xs))

/- The end reached by a chain from a start point. -/
def reach (hi : α → Nat) : Nat → List α → Nat
| c, [] => c
| _, x :: xs => reach hi (hi x) xs

@[simp] theorem reach_nil (c : Nat) : reach hi c [] = c := rfl

@[simp] theorem reach_cons (c : Nat) (x : α) (xs : List α) :
    reach hi c (x :: xs) = reach hi (hi x) xs := rfl

@[simp] theorem isChain_nil (c : Nat) : IsChain lo hi c [] := trivial

@[simp] theorem isChain_cons (c : Nat) (x : α) (xs : List α) :
    IsChain lo hi c (x :: xs) ↔ lo x ≤ c + 1 ∧ c < hi x ∧ IsChain lo hi (hi x) xs := Iff.rfl

@[simp] theorem reach_append_singleton (c : Nat) (xs : List α) (x : α) :
    reach hi c (xs ++ [x]) = hi x := by
  induction xs generalizing c with
  | nil => rfl
  | cons y ys ih => exact ih (hi y)

theorem reach_append (c : Nat) (xs ys : List α) :
    reach hi c (xs ++ ys) = reach hi (reach hi c xs) ys := by
  induction xs generalizing c with
  | nil => rfl
  | cons x xs ih => exact ih (hi x)

theorem exists_hi_eq_reach (hi : α → Nat) (c : Nat) (hNonempty : xs ≠ []) :
    ∃ x ∈ xs, hi x = reach hi c xs := by
  rcases eq_nil_or_concat xs with rfl | ⟨init, last, rfl⟩
  · exact absurd rfl hNonempty
  · rw [concat_eq_append]
    exact ⟨last, by simp, by simp⟩

theorem isChain_append (c : Nat) (xs ys : List α) : IsChain lo hi c (xs ++ ys) ↔
    IsChain lo hi c xs ∧ IsChain lo hi (reach hi c xs) ys := by
  induction xs generalizing c with
  | nil => simp
  | cons x xs ih => simp only [cons_append, isChain_cons, reach_cons, ih (hi x), and_assoc]

theorem isChain_append_singleton (c : Nat) (xs : List α) (x : α) :
    IsChain lo hi c (xs ++ [x]) ↔ IsChain lo hi c xs ∧
      lo x ≤ reach hi c xs + 1 ∧ reach hi c xs < hi x := by
  rw [isChain_append]
  simp

theorem reach_map (f : β → α) (c : Nat) (xs : List β) :
    reach hi c (xs.map f) = reach (fun x => hi (f x)) c xs := by
  induction xs generalizing c with
  | nil => rfl
  | cons x xs ih => exact ih (hi (f x))

theorem isChain_map (f : β → α) (c : Nat) (xs : List β) : IsChain lo hi c (xs.map f) ↔
    IsChain (fun x => lo (f x)) (fun x => hi (f x)) c xs := by
  induction xs generalizing c with
  | nil => simp
  | cons x xs ih => simp only [map_cons, isChain_cons, ih (hi (f x))]

theorem le_reach (hChain : IsChain lo hi c xs) : c ≤ reach hi c xs := by
  induction xs generalizing c with
  | nil => exact Nat.le_refl c
  | cons x xs ih =>
    obtain ⟨_, hLt, hRest⟩ := hChain
    exact Nat.le_trans (Nat.le_of_lt hLt) (ih hRest)

theorem hi_le_reach (hChain : IsChain lo hi c xs) (hMem : x ∈ xs) : hi x ≤ reach hi c xs := by
  induction xs generalizing c with
  | nil => simp at hMem
  | cons y ys ih =>
    obtain ⟨_, _, hRest⟩ := hChain
    rcases mem_cons.mp hMem with rfl | hTail
    · exact le_reach hRest
    · exact ih hRest hTail

theorem exists_mem_covering (hChain : IsChain lo hi c xs) (hAfter : c < t)
    (hReach : t ≤ reach hi c xs) : ∃ x ∈ xs, lo x ≤ t ∧ t ≤ hi x := by
  induction xs generalizing c with
  | nil =>
    simp only [reach_nil] at hReach
    omega
  | cons y ys ih =>
    obtain ⟨hLo, hLt, hRest⟩ := hChain
    by_cases hHead : t ≤ hi y
    · exact ⟨y, mem_cons_self, by omega, hHead⟩
    · rcases ih hRest (by omega) hReach with ⟨x, hMem, hCover⟩
      exact ⟨x, mem_cons_of_mem y hMem, hCover⟩

theorem hi_lt_of_before {y : α} (hChain : IsChain lo hi c (xs ++ y :: ys)) (hMem : x ∈ xs) :
    hi x < hi y := by
  rw [isChain_append] at hChain
  rcases hChain with ⟨hInit, _, hLt, _⟩
  exact Nat.lt_of_le_of_lt (hi_le_reach hInit hMem) hLt

theorem exists_mem_covering_of_mem (hChain : IsChain lo hi c xs) (hMem : x ∈ xs) (hLo : lo x ≤ t)
    (hReach : t ≤ reach hi c xs) : ∃ y ∈ xs, lo y ≤ t ∧ t ≤ hi y := by
  induction xs generalizing c with
  | nil => simp at hMem
  | cons y ys ih =>
    rcases hChain with ⟨_, _, hRest⟩
    rcases mem_cons.mp hMem with rfl | hTail
    · by_cases hHi : t ≤ hi x
      · exact ⟨x, mem_cons_self, hLo, hHi⟩
      · rcases exists_mem_covering hRest (by omega) hReach with ⟨z, hz, hCover⟩
        exact ⟨z, mem_cons_of_mem x hz, hCover⟩
    · rcases ih hRest hTail hReach with ⟨z, hz, hCover⟩
      exact ⟨z, mem_cons_of_mem y hz, hCover⟩

theorem exists_isChain_of_covered (hLe : c ≤ n) (hEnd : ∀ x, family x → hi x ≤ n)
    (hCovered : ∀ t, c < t → t ≤ n → ∃ x, family x ∧ lo x ≤ t ∧ t ≤ hi x) :
    ∃ xs, (∀ x ∈ xs, family x) ∧ IsChain lo hi c xs ∧ reach hi c xs = n := by
  -- on the distance that is left
  induction hLeft : n - c using Nat.strongRecOn generalizing c with
  | ind left ih =>
    by_cases hDone : c = n
    · exact ⟨[], by simp, trivial, hDone⟩
    rcases hCovered (c + 1) (by omega) (by omega) with ⟨x, hx, hLo, hHi⟩
    have hxEnd := hEnd x hx
    rcases ih (n - hi x) (by omega) hxEnd (fun t hAfter hTo => hCovered t (by omega) hTo)
      rfl with ⟨xs, hFamily, hChain, hReach⟩
    refine ⟨x :: xs, ?_, ⟨hLo, hHi, hChain⟩, hReach⟩
    intro y hy
    rcases mem_cons.mp hy with rfl | hTail
    · exact hx
    · exact hFamily y hTail

-- Tilings

/-
  Every item begins exactly one past the end reached so far
  and ends strictly later.
-/
def Tiles (lo hi : α → Nat) : Nat → List α → Prop
| _, [] => True
| c, x :: xs => lo x = c + 1 ∧ c < hi x ∧ Tiles lo hi (hi x) xs

theorem Tiles.isChain (hTiles : Tiles lo hi c xs) : IsChain lo hi c xs := by
  induction xs generalizing c with
  | nil => trivial
  | cons x xs ih =>
    rcases hTiles with ⟨hLo, hLt, hRest⟩
    exact ⟨Nat.le_of_eq hLo, hLt, ih hRest⟩

theorem tiles_append (c : Nat) (xs ys : List α) : Tiles lo hi c (xs ++ ys) ↔
    Tiles lo hi c xs ∧ Tiles lo hi (reach hi c xs) ys := by
  induction xs generalizing c with
  | nil => simp [Tiles]
  | cons x xs ih => simp only [cons_append, Tiles, reach_cons, ih (hi x), and_assoc]

theorem tiles_append_singleton (c : Nat) (xs : List α) (x : α) :
    Tiles lo hi c (xs ++ [x]) ↔ Tiles lo hi c xs ∧ lo x = reach hi c xs + 1 ∧
      reach hi c xs < hi x := by
  rw [tiles_append]
  simp [Tiles]

theorem Tiles.of_initial (hTiles : Tiles lo hi c ys) (hInitial : xs <+: ys) : Tiles lo hi c xs := by
  rcases hInitial with ⟨rest, rfl⟩
  exact ((tiles_append c xs rest).mp hTiles).1

theorem Tiles.lt_lo (hTiles : Tiles lo hi c xs) (hMem : x ∈ xs) : c < lo x := by
  induction xs generalizing c with
  | nil => simp at hMem
  | cons y ys ih =>
    rcases hTiles with ⟨hLo, hLt, hRest⟩
    rcases mem_cons.mp hMem with rfl | hTail
    · omega
    · exact Nat.lt_trans hLt (ih hRest hTail)

theorem Tiles.lo_le_hi (hTiles : Tiles lo hi c xs) (hMem : x ∈ xs) : lo x ≤ hi x := by
  induction xs generalizing c with
  | nil => simp at hMem
  | cons y ys ih =>
    rcases hTiles with ⟨hLo, hLt, hRest⟩
    rcases mem_cons.mp hMem with rfl | hTail
    · omega
    · exact ih hRest hTail

theorem Tiles.apart (hTiles : Tiles lo hi c xs) :
    xs.Pairwise (fun x y => lo x ≤ hi x ∧ hi x < lo y) := by
  induction xs generalizing c with
  | nil => exact List.Pairwise.nil
  | cons y ys ih =>
    rcases hTiles with ⟨hLo, hLt, hRest⟩
    refine pairwise_cons.mpr ⟨?_, ih hRest⟩
    intro x hMem
    exact ⟨by omega, hRest.lt_lo hMem⟩

theorem Tiles.pairwise (hTiles : Tiles lo hi c xs) : xs.Pairwise (fun x y => lo x ≤ lo y) := by
  refine hTiles.apart.imp ?_
  rintro x y ⟨hProper, hNext⟩
  omega

theorem Tiles.before_lo (hTiles : Tiles lo hi c xs) (hMem : x ∈ xs) (hLo : lo x = b + 1) :
    b = c ∨ ∃ y ∈ xs, hi y = b := by
  induction xs generalizing c with
  | nil => simp at hMem
  | cons y ys ih =>
    rcases hTiles with ⟨hFirst, _, hRest⟩
    rcases mem_cons.mp hMem with rfl | hTail
    · exact Or.inl (by omega)
    · rcases ih hRest hTail with rfl | ⟨z, hz, hEnd⟩
      · exact Or.inr ⟨y, mem_cons_self, rfl⟩
      · exact Or.inr ⟨z, mem_cons_of_mem y hz, hEnd⟩

/-
  The items of a tiling from one of its ends on are a
  tiling again, up to the same end.
-/
theorem tiles_filter (hTiles : Tiles lo hi c xs) (hEnd : b = c ∨ ∃ x ∈ xs, hi x = b) :
    Tiles lo hi b (xs.filter (fun x => decide (b + 1 ≤ lo x))) ∧ reach hi b
      (xs.filter (fun x => decide (b + 1 ≤ lo x))) = reach hi c xs := by
  induction xs generalizing c with
  | nil =>
    rcases hEnd with rfl | ⟨x, hMem, _⟩
    · exact ⟨trivial, rfl⟩
    · simp at hMem
  | cons y ys ih =>
    rcases hTiles with ⟨hLo, hLt, hRest⟩
    by_cases hStart : b = c
    · subst hStart
      have hWhole : Tiles lo hi b (y :: ys) := ⟨hLo, hLt, hRest⟩
      have hAll : (y :: ys).filter (fun x => decide (b + 1 ≤ lo x)) = y :: ys := by
        rw [filter_eq_self]
        intro x hMem
        exact decide_eq_true (hWhole.lt_lo hMem)
      rw [hAll]
      exact ⟨hWhole, rfl⟩
    · have hLater : b = hi y ∨ ∃ x ∈ ys, hi x = b := by
        rcases hEnd with hEq | ⟨x, hMem, hEq⟩
        · exact absurd hEq hStart
        · rcases mem_cons.mp hMem with rfl | hTail
          · exact Or.inl hEq.symm
          · exact Or.inr ⟨x, hTail, hEq⟩
      have hPast : lo y ≤ b := by
        rcases hLater with hEq | ⟨x, hTail, hEq⟩
        · omega
        · have hAfter := Tiles.lt_lo hRest hTail
          have hWide := hRest.lo_le_hi hTail
          omega
      rw [filter_cons_of_neg (by simp; omega)]
      exact ih hRest hLater

theorem Tiles.filter_hi_initial (hTiles : Tiles lo hi c xs) (t : Nat) :
    xs.filter (fun x => decide (hi x < t)) <+: xs := by
  induction xs generalizing c with
  | nil => exact prefix_rfl
  | cons x xs ih =>
    rcases hTiles with ⟨_, _, hRest⟩
    by_cases hBelow : hi x < t
    · rw [filter_cons_of_pos (by simp [hBelow])]
      exact (prefix_cons_inj x).mpr (ih hRest)
    have hNone : (x :: xs).filter (fun x => decide (hi x < t)) = [] := by
      rw [filter_eq_nil_iff]
      intro y hy hTrue
      have hLess := of_decide_eq_true hTrue
      rcases mem_cons.mp hy with rfl | hTail
      · exact hBelow hLess
      · have hAfter := Tiles.lt_lo hRest hTail
        have hWide := hRest.lo_le_hi hTail
        omega
    rw [hNone]
    exact nil_prefix

theorem Tiles.filter_hi_past (hTiles : Tiles lo hi c xs) (t : Nat) :
    ∃ b, Tiles lo hi b (xs.filter (fun x => decide (t < hi x))) ∧
      reach hi b (xs.filter (fun x => decide (t < hi x))) = reach hi c xs := by
  induction xs generalizing c with
  | nil => exact ⟨c, trivial, rfl⟩
  | cons x xs ih =>
    by_cases hPast : t < hi x
    · have hAll : (x :: xs).filter (fun x => decide (t < hi x)) = x :: xs := by
        rw [filter_eq_self]
        intro y hy
        apply decide_eq_true
        rcases mem_cons.mp hy with rfl | hTail
        · exact hPast
        · have hAfter := Tiles.lt_lo hTiles.2.2 hTail
          have hWide := hTiles.2.2.lo_le_hi hTail
          omega
      rw [hAll]
      exact ⟨c, hTiles, rfl⟩
    · rw [filter_cons_of_neg (by simpa using hPast)]
      exact ih hTiles.2.2

theorem Tiles.filter_lo_from (hTiles : Tiles lo hi c xs) (t : Nat) :
    ∃ b, Tiles lo hi b (xs.filter (fun x => decide (t ≤ lo x))) ∧
      reach hi b (xs.filter (fun x => decide (t ≤ lo x))) = reach hi c xs := by
  induction xs generalizing c with
  | nil => exact ⟨c, trivial, rfl⟩
  | cons x xs ih =>
    by_cases hFrom : t ≤ lo x
    · have hAll : (x :: xs).filter (fun x => decide (t ≤ lo x)) = x :: xs := by
        rw [filter_eq_self]
        intro y hy
        apply decide_eq_true
        rcases mem_cons.mp hy with rfl | hTail
        · exact hFrom
        · have hAfter := Tiles.lt_lo hTiles.2.2 hTail
          have hWide := hTiles.lo_le_hi mem_cons_self
          omega
      rw [hAll]
      exact ⟨c, hTiles, rfl⟩
    · rw [filter_cons_of_neg (by simpa using hFrom)]
      exact ih hTiles.2.2

/-
  Points in ascending order that leave none out between two
  bounds are a tiling.
-/
theorem tiles_of_points (hSorted : xs.Pairwise (fun x y => lo x < lo y))
    (hPoint : ∀ x ∈ xs, lo x = hi x) (hWithin : ∀ x ∈ xs, b < lo x ∧ lo x ≤ n)
    (hAll : ∀ t, b < t → t ≤ n → ∃ x ∈ xs, lo x = t) : Tiles lo hi b xs := by
  induction xs generalizing b with
  | nil => trivial
  | cons y ys ih =>
    rcases pairwise_cons.mp hSorted with ⟨hFirst, hRest⟩
    have hY := hWithin y mem_cons_self
    have hEq := hPoint y mem_cons_self
    have hLo : lo y = b + 1 := by
      rcases hAll (b + 1) (by omega) (by omega) with ⟨x, hMem, hx⟩
      rcases mem_cons.mp hMem with rfl | hTail
      · exact hx
      · have hLt := hFirst x hTail
        omega
    refine ⟨hLo, by omega, ih hRest ?_ ?_ ?_⟩
    · intro x hMem
      exact hPoint x (mem_cons_of_mem y hMem)
    · intro x hMem
      have hLt := hFirst x hMem
      have hx := hWithin x (mem_cons_of_mem y hMem)
      omega
    · intro t hAfter hTo
      rcases hAll t (by omega) hTo with ⟨x, hMem, hx⟩
      rcases mem_cons.mp hMem with rfl | hTail
      · omega
      · exact ⟨x, hTail, hx⟩

-- Stuck Points

/- No item of the family extends the point. -/
def Stuck (lo hi : α → Nat) (family : α → Prop) (c : Nat) : Prop :=
  ∀ x, family x → lo x ≤ c + 1 → hi x ≤ c

/-
  No chain of the family that starts at or before a stuck
  point gets past it. This is the exchange argument behind
  every greedy construction: whatever items another chain
  picks, its ends stay below a point nothing extends.
-/
theorem reach_le_of_stuck (hStuck : Stuck lo hi family g) (hStart : c ≤ g)
    (hChain : IsChain lo hi c xs) (hFamily : ∀ x ∈ xs, family x) : reach hi c xs ≤ g := by
  induction xs generalizing c with
  | nil => exact hStart
  | cons x xs ih =>
    obtain ⟨hLo, _, hRest⟩ := hChain
    have hEnd : hi x ≤ g := hStuck x (hFamily x mem_cons_self) (by omega)
    exact ih hEnd hRest (fun y hy => hFamily y (mem_cons_of_mem x hy))

/-
  A stuck point lies past every point up to which the
  family covers everything after it.
-/
theorem le_of_stuck_of_covered (hStuck : Stuck lo hi family g)
    (hCovered : ∀ t, g < t → t ≤ n → ∃ x, family x ∧ lo x ≤ t ∧ t ≤ hi x) : n ≤ g := by
  by_contra hShort
  rcases hCovered (g + 1) (by omega) (by omega) with ⟨x, hMem, hLo, hHi⟩
  have hEnd : hi x ≤ g := hStuck x hMem hLo
  omega

end IntervalChain
