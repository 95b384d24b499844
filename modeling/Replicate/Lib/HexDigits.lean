import Mathlib.Algebra.Group.Nat.Defs
import Mathlib.Data.List.Induction
import Mathlib.Tactic.Common

/-
  Numbers written with a fixed number of hexadecimal digits,
  the most significant first.

  Main declarations:
    * `HexDigits.fixed`
    * `HexDigits.value`
    * `HexDigits.leftpad_toDigits`
    * `HexDigits.fixed_value`
    * `HexDigits.fixed_lt_fixed_iff`
-/

namespace HexDigits

open List

def chars : List Char := "0123456789abcdef".toList

/- The last `w` digits of a number. -/
def fixed : Nat → Nat → List Char
| 0, _ => []
| w + 1, n => fixed w (n / 16) ++ [(n % 16).digitChar]

def value (digits : List Char) : Nat :=
  digits.foldl (fun n c => 16 * n + chars.idxOf c) 0

theorem value_append_singleton (digits : List Char) (c : Char) :
    value (digits ++ [c]) = 16 * value digits + chars.idxOf c := by
  simp [value]

theorem digitChar_mem_chars : ∀ d < 16, d.digitChar ∈ chars ∧ chars.idxOf d.digitChar = d := by
  decide

theorem exists_digitChar {c : Char} (hMem : c ∈ chars) : ∃ d < 16, d.digitChar = c := by
  have hChars : chars = (List.range 16).map Nat.digitChar := by decide
  rw [hChars] at hMem
  rcases mem_map.mp hMem with ⟨d, hLt, hEq⟩
  exact ⟨d, mem_range.mp hLt, hEq⟩

theorem digitChar_lt_iff : ∀ d < 16, ∀ e < 16, d.digitChar < e.digitChar ↔ d < e := by
  decide

-- Reading Back

variable {w m n : Nat} {digits : List Char}

theorem div_lt_pow (hLt : n < 16 ^ (w + 1)) : n / 16 < 16 ^ w :=
  Nat.div_lt_of_lt_mul (by rwa [← Nat.pow_succ'])

theorem length_fixed (w n : Nat) : (fixed w n).length = w := by
  induction w generalizing n with
  | zero => rfl
  | succ w ih => simp [fixed, ih]

theorem mem_fixed {c : Char} (hMem : c ∈ fixed w n) : c ∈ chars := by
  induction w generalizing n with
  | zero => cases hMem
  | succ w ih =>
    rcases mem_append.mp hMem with hInit | hLast
    · exact ih hInit
    · rw [mem_singleton.mp hLast]
      exact (digitChar_mem_chars _ (Nat.mod_lt n (by decide))).1

theorem value_fixed (hLt : n < 16 ^ w) : value (fixed w n) = n := by
  induction w generalizing n with
  | zero =>
    rw [Nat.pow_zero] at hLt
    exact (Nat.lt_one_iff.mp hLt).symm
  | succ w ih =>
    rw [fixed, value_append_singleton, ih (div_lt_pow hLt),
      (digitChar_mem_chars _ (Nat.mod_lt n (by decide))).2]
    exact Nat.div_add_mod n 16

theorem fixed_value (hDigits : ∀ c ∈ digits, c ∈ chars) :
    fixed digits.length (value digits) = digits ∧ value digits < 16 ^ digits.length := by
  induction digits using reverseRecOn with
  | nil => exact ⟨rfl, Nat.one_pos⟩
  | append_singleton digits c ih =>
    rcases ih (fun c hMem => hDigits c (mem_append_left _ hMem)) with ⟨hFixed, hBound⟩
    rcases exists_digitChar (hDigits c (mem_append_right _ mem_cons_self)) with
      ⟨d, hLt, rfl⟩
    have hIdx := (digitChar_mem_chars d hLt).2
    have hDiv : (16 * value digits + d) / 16 = value digits := by omega
    have hMod : (16 * value digits + d) % 16 = d := by omega
    rw [length_append, length_singleton, value_append_singleton, hIdx, fixed, hDiv, hMod,
      hFixed, Nat.pow_succ]
    exact ⟨rfl, by omega⟩

-- Padding

/- Padding with zeros gives the digits of the fixed width. -/
theorem leftpad_toDigits (hLt : n < 16 ^ (w + 1)) :
    (Nat.toDigits 16 n).leftpad (w + 1) '0' = fixed (w + 1) n := by
  induction w generalizing n with
  | zero =>
    have hLt : n < 16 := hLt
    rw [Nat.toDigits_of_lt_base hLt, fixed, Nat.mod_eq_of_lt hLt]
    rfl
  | succ w ih =>
    rw [fixed, Nat.toDigits_eq_if (by decide)]
    split
    · rename_i hLt
      have hZero := @ih 0 (Nat.pow_pos (by decide))
      rw [Nat.toDigits_zero] at hZero
      rw [Nat.div_eq_of_lt hLt, Nat.mod_eq_of_lt hLt, ← hZero]
      simp [leftpad, replicate_succ']
    · rw [← ih (div_lt_pow hLt)]
      simp [leftpad]

-- Order

theorem append_lt_append_iff {xs ys as bs : List Char} (hLength : xs.length = ys.length) :
    xs ++ as < ys ++ bs ↔ xs < ys ∨ xs = ys ∧ as < bs := by
  induction xs generalizing ys with
  | nil =>
    rw [length_eq_zero_iff.mp hLength.symm]
    simp
  | cons x xs ih =>
    cases ys with
    | nil => cases hLength
    | cons y ys =>
      simp only [cons_append, cons_lt_cons_iff, ih (Nat.succ.inj hLength), List.cons.injEq]
      tauto

theorem fixed_lt_fixed_iff (hm : m < 16 ^ w) (hn : n < 16 ^ w) : fixed w m < fixed w n ↔ m < n := by
  induction w generalizing m n with
  | zero =>
    rw [Nat.pow_zero] at hm hn
    simp only [fixed, not_lt_nil, false_iff]
    omega
  | succ w ih =>
    have hmDiv := div_lt_pow hm
    have hnDiv := div_lt_pow hn
    have hInj : fixed w (m / 16) = fixed w (n / 16) ↔ m / 16 = n / 16 :=
      ⟨fun hEq => by rw [← value_fixed hmDiv, hEq, value_fixed hnDiv], congrArg _⟩
    rw [fixed, fixed, append_lt_append_iff (by simp only [length_fixed]), ih hmDiv hnDiv, hInj,
      cons_lt_cons_iff, digitChar_lt_iff _ (Nat.mod_lt m (by decide)) _
      (Nat.mod_lt n (by decide))]
    simp only [not_lt_nil, and_false, or_false]
    omega

end HexDigits
