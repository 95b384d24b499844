import Mathlib.Data.List.Forall2
import Mathlib.Tactic.Common

/-
  Computations that stop at the first error, and traversals
  of a list by them.

  Main declarations:
    * `Traversal.bind_eq_ok_iff`
    * `Traversal.mapM_eq_ok_iff`
    * `Traversal.exists_of_mapM_eq_error`
    * `Traversal.exists_of_mem_result`
    * `Traversal.exists_result_of_mem`
    * `Traversal.tabulate` and `Traversal.lookup_tabulate`
    * `Traversal.mapM_eq_error_iff`
    * `Traversal.foldl_eq_or_mem`
    * `Traversal.le_foldl`
-/

-- Success

namespace Traversal

open List

variable {ε α β : Type} {f : α → Except ε β} {xs : List α} {ys : List β} {x : Except ε α} {e : ε}
variable {g : α → Except ε β} {y : β} {step : β → α → β}

/- A sequence succeeds exactly when both its parts do. -/
theorem bind_eq_ok_iff : (x >>= g) = .ok y ↔ ∃ a, x = .ok a ∧ g a = .ok y := by
  cases x with
  | error | ok => simp [bind, Except.bind]

theorem mapError_eq_ok_iff {g : ε → ε} {a : α} : x.mapError g = .ok a ↔ x = .ok a := by
  cases x with
  | error | ok => simp [Except.mapError]

/- A traversal succeeds exactly when every element does. -/
theorem mapM_eq_ok_iff : xs.mapM f = .ok ys ↔ Forall₂ (fun x y => f x = .ok y) xs ys := by
  induction xs generalizing ys with
  | nil =>
    simp only [mapM_nil, pure, Except.pure, Except.ok.injEq]
    constructor
    · rintro rfl
      exact .nil
    · rintro ⟨⟩
      rfl
  | cons x xs ih =>
    rw [mapM_cons]
    constructor
    · intro hOk
      cases hHead : f x with
      | error e => simp [hHead, bind, Except.bind] at hOk
      | ok z =>
        cases hTail : xs.mapM f with
        | error e => simp [hHead, hTail, bind, Except.bind] at hOk
        | ok zs =>
          simp only [hHead, hTail, bind, Except.bind, pure, Except.pure, Except.ok.injEq] at hOk
          subst hOk
          exact .cons hHead (ih.mp hTail)
    · rintro ⟨⟩
      rename_i z zs hHead hTail
      rw [hHead, ih.mpr hTail]
      rfl

/- Every result comes from an element. -/
theorem exists_of_mem_result (hOk : xs.mapM f = .ok ys) (hMem : y ∈ ys) :
    ∃ x ∈ xs, f x = .ok y := by
  rw [mapM_eq_ok_iff] at hOk
  induction hOk with
  | nil => simp at hMem
  | cons hHead _ ih =>
    rcases mem_cons.mp hMem with rfl | hTail
    · exact ⟨_, mem_cons_self, hHead⟩
    · rcases ih hTail with ⟨x, hx, hEq⟩
      exact ⟨x, mem_cons_of_mem _ hx, hEq⟩

/- Every element has its result. -/
theorem exists_result_of_mem {x : α} (hOk : xs.mapM f = .ok ys) (hMem : x ∈ xs) :
    ∃ y ∈ ys, f x = .ok y := by
  rw [mapM_eq_ok_iff] at hOk
  induction hOk with
  | nil => simp at hMem
  | cons hHead _ ih =>
    rcases mem_cons.mp hMem with rfl | hTail
    · exact ⟨_, mem_cons_self, hHead⟩
    · rcases ih hTail with ⟨y, hy, hEq⟩
      exact ⟨y, mem_cons_of_mem _ hy, hEq⟩

/- The table of a computation over some keys. -/
def tabulate (f : α → Except ε β) (keys : List α) : Except ε (List (α × β)) :=
  keys.mapM (fun k => (f k).map (fun b => (k, b)))

/- A finished table has the result of each key. -/
theorem lookup_tabulate [DecidableEq α] {table} (hOk : tabulate f xs = .ok table) (k : α) :
    if k ∈ xs then ∃ b, f k = .ok b ∧ table.lookup k = some b else table.lookup k = none := by
  rw [tabulate, mapM_eq_ok_iff] at hOk
  induction hOk with
  | nil => simp
  | @cons x y xs table hHead _ ih =>
    rcases y with ⟨x', b⟩
    have hEntry : f x = .ok b ∧ x = x' := by
      cases hx : f x with
      | error e => simp [hx, Except.map] at hHead
      | ok c =>
        simp only [hx, Except.map, Except.ok.injEq, Prod.mk.injEq] at hHead
        exact ⟨by rw [hHead.2], hHead.1⟩
    rcases hEntry with ⟨hValue, rfl⟩
    by_cases hKey : k = x
    · subst hKey
      simp [hValue]
    · have hBeq : (k == x) = false := beq_eq_false_iff_ne.mpr hKey
      simpa [lookup_cons, hBeq, hKey] using ih

-- Failure

/- A failed traversal reports the error of some element. -/
theorem exists_of_mapM_eq_error (hError : xs.mapM f = .error e) : ∃ x ∈ xs, f x = .error e := by
  induction xs with
  | nil => simp [pure, Except.pure] at hError
  | cons x xs ih =>
    rw [mapM_cons] at hError
    cases hHead : f x with
    | error err =>
      simp only [hHead, bind, Except.bind, Except.error.injEq] at hError
      subst hError
      exact ⟨x, mem_cons_self, hHead⟩
    | ok y =>
      cases hTail : xs.mapM f with
      | error err =>
        simp only [hHead, hTail, bind, Except.bind, Except.error.injEq] at hError
        subst hError
        rcases ih hTail with ⟨z, hz, hEq⟩
        exact ⟨z, mem_cons_of_mem x hz, hEq⟩
      | ok ys => simp [hHead, hTail, bind, Except.bind, pure, Except.pure] at hError

/- The error of a failed computation. -/
def errorOf (x : Except ε α) : Option ε :=
  match x with
  | .error e => some e
  | .ok _ => none

@[simp] theorem errorOf_error (e : ε) : errorOf (.error e : Except ε α) = some e := rfl

@[simp] theorem errorOf_ok (a : α) : errorOf (.ok a : Except ε α) = none := rfl

theorem bind_eq_error_iff :
    (x >>= g) = .error e ↔ x = .error e ∨ ∃ a, x = .ok a ∧ g a = .error e := by
  cases x with
  | error | ok => simp [bind, Except.bind]

/- A traversal fails with the first error it meets. -/
theorem mapM_eq_error_iff : xs.mapM f = .error e ↔
    xs.findSome? (fun x => errorOf (f x)) = some e := by
  induction xs with
  | nil => simp [pure, Except.pure]
  | cons x xs ih =>
    rw [mapM_cons, bind_eq_error_iff, findSome?_cons]
    cases hHead : f x with
    | error e' => simp [errorOf]
    | ok y =>
      simp only [errorOf, reduceCtorEq, false_or, Except.ok.injEq, exists_eq_left']
      rw [bind_eq_error_iff, ih]
      simp [pure, Except.pure, errorOf]

-- Selecting Folds

/-
  A fold that at each item keeps what it has or takes the
  item's value ends with its start or with an item's value.
-/
theorem foldl_eq_or_mem {value : α → β} (hStep : ∀ b a, step b a = b ∨ step b a = value a) (b : β)
    (xs : List α) : xs.foldl step b = b ∨ ∃ a ∈ xs, xs.foldl step b = value a := by
  induction xs generalizing b with
  | nil => exact Or.inl rfl
  | cons x xs ih =>
    rw [foldl_cons]
    rcases ih (step b x) with hKept | ⟨a, ha, hTaken⟩
    · rw [hKept]
      rcases hStep b x with hSame | hValue
      · exact Or.inl hSame
      · exact Or.inr ⟨x, mem_cons_self, hValue⟩
    · exact Or.inr ⟨a, mem_cons_of_mem x ha, hTaken⟩

/-
  A fold that never falls back in a measure, and reaches at
  each item at least the item's own, ends above them all.
-/
theorem le_foldl {measure : β → Nat} {own : α → Nat} (hKeep : ∀ b a, measure b ≤ measure (step b a))
    (hReach : ∀ b a, own a ≤ measure (step b a)) (b : β) (xs : List α) :
    measure b ≤ measure (xs.foldl step b) ∧ ∀ a ∈ xs, own a ≤ measure (xs.foldl step b) := by
  induction xs generalizing b with
  | nil => exact ⟨Nat.le_refl _, by simp⟩
  | cons x xs ih =>
    rcases ih (step b x) with ⟨hStart, hItems⟩
    refine ⟨Nat.le_trans (hKeep b x) hStart, ?_⟩
    intro a ha
    rcases mem_cons.mp ha with rfl | hLater
    · exact Nat.le_trans (hReach b a) hStart
    · exact hItems a hLater

end Traversal
