import Mathlib.Tactic.Common

/-
  Maps as lists of entries.

  The first entry of a key counts, so putting a list in
  front of another one copies its entries over the other's.

  Main declarations:
    * `EntryList.restrict` and `EntryList.lookup_restrict`
    * `EntryList.isSome_lookup_iff`
    * `EntryList.maxKey` and `EntryList.maxKey_le_iff`
-/

-- Keys

namespace EntryList

variable {κ α : Type}

/- The keys of a list of entries. -/
def keys (m : List (κ × α)) : List κ :=
  m.map Prod.fst

/- The entries whose key passes a test. -/
def restrict (keep : κ → Bool) (m : List (κ × α)) : List (κ × α) :=
  m.filter (fun e => keep e.1)

variable [BEq κ] [LawfulBEq κ]

/- Dropping entries drops whole keys. -/
theorem lookup_restrict (keep : κ → Bool) (m : List (κ × α)) (k : κ) :
    (restrict keep m).lookup k = if keep k then m.lookup k else none := by
  unfold restrict
  induction m with
  | nil => simp
  | cons e m ih =>
    rcases e with ⟨k', a⟩
    by_cases hKey : k = k'
    · subst hKey
      cases hKeep : keep k with
      | true => simp [hKeep]
      | false => simpa [hKeep] using ih
    · have hBeq : (k == k') = false := beq_eq_false_iff_ne.mpr hKey
      cases hKeep : keep k' with
      | true | false => simpa [hKeep, List.lookup_cons, hBeq]

/- The keys are those that have an entry. -/
theorem isSome_lookup_iff {m : List (κ × α)} {k : κ} : (m.lookup k).isSome ↔ k ∈ keys m := by
  unfold keys
  induction m with
  | nil => simp
  | cons e m ih =>
    rcases e with ⟨k', a⟩
    by_cases hKey : k = k'
    · subst hKey
      simp
    · have hBeq : (k == k') = false := beq_eq_false_iff_ne.mpr hKey
      simp [List.lookup_cons, hBeq, hKey, ih]

theorem mem_keys_of_lookup_eq_some {m : List (κ × α)} {k : κ} {a : α}
    (hLookup : m.lookup k = some a) : k ∈ keys m :=
  isSome_lookup_iff.mp (by simp [hLookup])

theorem lookup_filterMap_keys (f : κ → Option α) (ks : List κ) (k : κ) :
    (ks.filterMap (fun k => (f k).map (k, ·))).lookup k = if ks.contains k then f k else none := by
  induction ks with
  | nil => rfl
  | cons k' ks ih =>
    by_cases hKey : k = k'
    · subst hKey
      cases hValue : f k with
      | none => simp [hValue, ih]
      | some a => simp [hValue]
    have hBeq : (k == k') = false := beq_eq_false_iff_ne.mpr hKey
    cases hValue : f k' with
    | none => simpa [hValue, hBeq] using ih
    | some a => simpa [hValue, List.lookup_cons, hBeq] using ih

omit [LawfulBEq κ] in
theorem lookup_map_values {β : Type} (f : α → β) (m : List (κ × α)) (k : κ) :
    (m.map fun e => (e.1, f e.2)).lookup k = (m.lookup k).map f := by
  induction m with
  | nil => rfl
  | cons e m ih =>
    rw [List.map_cons, List.lookup_cons, List.lookup_cons]
    cases k == e.1 with
    | true => rfl
    | false => exact ih

-- The Greatest Key

/- The greatest key, or zero. -/
def maxKey : List (Nat × α) → Nat
| [] => 0
| e :: m => max e.1 (maxKey m)

theorem maxKey_append (m m' : List (Nat × α)) : maxKey (m ++ m') = max (maxKey m) (maxKey m') := by
  induction m with
  | nil => simp [maxKey]
  | cons e m ih =>
    simp only [List.cons_append, maxKey, ih]
    omega

theorem maxKey_le_iff {m : List (Nat × α)} {n : Nat} : maxKey m ≤ n ↔ ∀ k ∈ keys m, k ≤ n := by
  unfold keys
  induction m with
  | nil => simp [maxKey]
  | cons e m ih =>
    simp only [maxKey, List.map_cons, List.mem_cons, forall_eq_or_imp]
    rw [← ih]
    omega

theorem maxKey_map_values {β : Type} (f : α → β) (m : List (Nat × α)) :
    maxKey (m.map fun e => (e.1, f e.2)) = maxKey m := by
  induction m with
  | nil => rfl
  | cons e m ih => exact congrArg (max e.1) ih

theorem le_maxKey {m : List (Nat × α)} {k : Nat} (hMem : k ∈ keys m) : k ≤ maxKey m :=
  maxKey_le_iff.mp (Nat.le_refl _) k hMem

end EntryList
