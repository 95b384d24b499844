import Mathlib.Logic.Relation
import Mathlib.Data.List.Pairwise
import Mathlib.Order.Lattice
import Mathlib.Tactic.Common

/-
  Locks that expire.

  A timed lock has at most one owner, and the time up to
  which it is his. The parties rely on grants, each of which
  is good up to a time of its own. The lock is safe as long
  as it stands behind every grant that is still good: its
  owner is the party that relies on it, and his time is not
  earlier than that of the grant. Then no two parties can
  rely on the lock at the same time.

  The second part is about fencing tokens: numbers handed
  out with a lock, such that a new owner gets a number above
  all the numbers that others got before him.

  Main declarations:
    * `TimedLock.Step`
    * `TimedLock.Safe.step`
    * `TimedLock.Safe.exclusive`
    * `Fencing.Below.issue`
    * `Fencing.Increasing.ne`
-/

-- Timed Locks

namespace TimedLock

variable {ι τ : Type} [LinearOrder τ]

/- The lock at a time, and what the parties rely on. -/
structure State (ι τ : Type) where
  now : τ
  owner : Option (ι × τ)
  grants : ι → τ → Prop

/- At most one new grant, and any of the old ones. -/
def Issues (s : State ι τ) (i : ι) (e : τ) (grants : ι → τ → Prop) : Prop :=
  ∀ j e', grants j e' → s.grants j e' ∨ j = i ∧ e' = e

/- Some of the old grants. -/
def Keeps (s : State ι τ) (grants : ι → τ → Prop) : Prop :=
  ∀ j e, grants j e → s.grants j e

/- What may happen to a timed lock. -/
inductive Step : State ι τ → State ι τ → Prop where
  | tick {s now} (hLater : s.now ≤ now) : Step s ⟨now, s.owner, s.grants⟩
  | take {s i e grants} (hExpired :
    ∀ j e', s.owner = some (j, e') → e' < s.now) (hIssues : Issues s i e grants) :
      Step s ⟨s.now, some (i, e), grants⟩
  | extend {s i e e' grants} (hOwner : s.owner = some (i, e)) (hLonger : e ≤ e')
    (hIssues : Issues s i e' grants) :
    Step s ⟨s.now, some (i, e'), grants⟩
  | drop {s i e grants} (hOwner : s.owner = some (i, e)) (hKeeps : Keeps s grants)
    (hOver : ∀ e', grants i e' → e' < s.now) :
    Step s ⟨s.now, none, grants⟩
  | forget {s grants} (hKeeps : Keeps s grants) : Step s ⟨s.now, s.owner, grants⟩

/- The lock stands behind every grant that is still good. -/
def Safe (s : State ι τ) : Prop :=
  ∀ i e, s.grants i e → s.now ≤ e → ∃ e', s.owner = some (i, e') ∧ e ≤ e'

/- While a grant is good, nobody else has one. -/
theorem Safe.exclusive {s} (hSafe : Safe s) {i j : ι} {e e' : τ} (hLeft : s.grants i e)
    (hLeftGood : s.now ≤ e) (hRight : s.grants j e') (hRightGood : s.now ≤ e') : i = j := by
  rcases hSafe i e hLeft hLeftGood with ⟨x, hOwner, _⟩
  rcases hSafe j e' hRight hRightGood with ⟨y, hOther, _⟩
  have hSame := Option.some.inj (hOwner.symm.trans hOther)
  exact congrArg Prod.fst hSame

/- What any step of the lock keeps. -/
theorem Safe.step {s s' : State ι τ} (hSafe : Safe s) (hStep : Step s s') : Safe s' := by
  cases hStep with
  | tick hLater =>
    intro i e hGrant hGood
    exact hSafe i e hGrant (le_trans hLater hGood)
  | @take i e grants hExpired hIssues =>
    intro j e' hGrant hGood
    rcases hIssues j e' hGrant with hOld | hNew
    · -- An old grant that is still good has an owner.
      rcases hSafe j e' hOld hGood with ⟨x, hOwner, hLe⟩
      have hPast := hExpired j x hOwner
      exact absurd (le_trans hGood hLe) (not_le_of_gt hPast)
    · rcases hNew with ⟨rfl, rfl⟩
      exact ⟨e', rfl, le_refl e'⟩
  | @extend i e e' grants hOwner hLonger hIssues =>
    intro j x hGrant hGood
    rcases hIssues j x hGrant with hOld | hNew
    · rcases hSafe j x hOld hGood with ⟨y, hOther, hLe⟩
      have hSame := Option.some.inj (hOwner.symm.trans hOther)
      rcases Prod.mk.inj hSame with ⟨rfl, rfl⟩
      exact ⟨e', rfl, le_trans hLe hLonger⟩
    · rcases hNew with ⟨rfl, rfl⟩
      exact ⟨x, rfl, le_refl x⟩
  | @drop i e grants hOwner hKeeps hOver =>
    intro j x hGrant hGood
    rcases hSafe j x (hKeeps j x hGrant) hGood with ⟨y, hOther, _⟩
    have hSame := Option.some.inj (hOwner.symm.trans hOther)
    rcases Prod.mk.inj hSame with ⟨rfl, rfl⟩
    exact absurd hGood (not_le_of_gt (hOver x hGrant))
  | forget hKeeps =>
    intro i e hGrant hGood
    exact hSafe i e (hKeeps i e hGrant) hGood

end TimedLock

-- Fencing Tokens

namespace Fencing

variable {ι τ : Type} [LinearOrder τ] {issued : List (ι × τ)} {owner : ι} {token : τ}

/-
  The tokens handed out, the newest first. One that goes to
  another party is greater than those before it.
-/
def Increasing (issued : List (ι × τ)) : Prop :=
  issued.Pairwise fun newer older => older.1 ≠ newer.1 → older.2 < newer.2

/- The token of the owner is the greatest, and only his. -/
def Below (issued : List (ι × τ)) (owner : ι) (token : τ) : Prop :=
  ∀ entry ∈ issued, entry.2 < token ∨ entry.2 = token ∧ entry.1 = owner

/- Different parties have different tokens. -/
theorem Increasing.ne (hIncreasing : Increasing issued) {x y} (hx : x ∈ issued) (hy : y ∈ issued)
    (hNe : x.1 ≠ y.1) : x.2 ≠ y.2 := by
  let R : ι × τ → ι × τ → Prop := fun a b => a.1 ≠ b.1 → a.2 ≠ b.2
  have hSymm : Std.Symm R := ⟨fun a b hab hNe => (hab hNe.symm).symm⟩
  have hPairs : issued.Pairwise R := by
    refine List.Pairwise.imp ?_ hIncreasing
    intro a b hab hDiffer
    exact (ne_of_lt (hab hDiffer.symm)).symm
  have hSelf : ∀ a ∈ issued, R a a := fun a _ hNe => absurd rfl hNe
  exact hPairs.forall_of_forall hSelf hx hy hNe

/- A token that is above what the others have. -/
theorem Increasing.issue (hIncreasing : Increasing issued) (hBelow : Below issued owner token) :
    Increasing ((owner, token) :: issued) := by
  refine List.Pairwise.cons ?_ hIncreasing
  intro entry hEntry hNe
  rcases hBelow entry hEntry with hLt | hSame
  · exact hLt
  · exact absurd hSame.2 hNe

/- It is the greatest from then on. -/
theorem Below.issue (hBelow : Below issued owner token) :
    Below ((owner, token) :: issued) owner token := by
  intro entry hEntry
  rcases List.mem_cons.mp hEntry with hNew | hOld
  · subst hNew
    exact Or.inr ⟨rfl, rfl⟩
  · exact hBelow entry hOld

theorem Below.raise {other : ι} {token' : τ} (hBelow : Below issued owner token)
    (hLt : token < token') : Below issued other token' := by
  intro entry hEntry
  rcases hBelow entry hEntry with hOld | hSame
  · exact Or.inl (lt_trans hOld hLt)
  · exact Or.inl (hSame.1 ▸ hLt)

end Fencing
