import Replicate.Compaction.LevelZero
import Replicate.Follow.PollInvariant

/-
  How far a poll gets.

  Level 0 is without gaps, so there can only be a gap before
  the first listed file. `fillFollowGap` uses the first of
  the levels above that has a next file, and no other, so a
  gap that is filled by two levels stays open. Otherwise the
  poll ends at the last upload, or where it began.

  Main declarations:
    * `fillFollowGap_bridged`
    * `applyNewLTXFiles_reaches`
-/

-- One Level

namespace Replicate

open TXID

namespace Follow

open IntervalChain

/- The level has a file that can be applied after `t`. -/
def Extends (content : Content) (level t : Nat) : Prop :=
  ∃ f ∈ content level, f.minTXID ≤ t + 1 ∧ t < f.maxTXID

/- The files have all transactions between two TXIDs. -/
def Covers (files : List FileInfo) (t gapMinTXID : Nat) : Prop :=
  ∀ u, t < u → u < gapMinTXID → ∃ f ∈ files, f.minTXID ≤ u ∧ u ≤ f.maxTXID

section Level

variable {env : FollowEnv} {zero : Page} {gapMinTXID : Nat} {items : List FileInfo}
variable {st st' : PollState} {r : GapEnd}

theorem gapLoop_none (hNone : ∀ f ∈ items, ¬ (f.minTXID ≤ st.current + 1 ∧ st.current < f.maxTXID))
    (hLoop : gapLoop env zero gapMinTXID items st = (r, st')) :
    st' = st ∧ (r = .stopped ∨ r = .exhausted) := by
  induction items with
  | nil =>
    rw [gapLoop, Prod.mk.injEq] at hLoop
    exact ⟨hLoop.2.symm, Or.inr hLoop.1.symm⟩
  | cons info items ih =>
    have hFirst := hNone info List.mem_cons_self
    have hNext := next_le st.current
    rw [gapLoop] at hLoop
    split at hLoop
    · rw [Prod.mk.injEq] at hLoop
      exact ⟨hLoop.2.symm, Or.inl hLoop.1.symm⟩
    · rw [if_pos (by omega)] at hLoop
      exact ih (fun f hf => hNone f (List.mem_cons_of_mem info hf)) hLoop

/-
  A level that has all transactions of the gap takes the
  loop to its end, unless files are missing in the listing.
-/
theorem gapLoop_covers {rest} (hBound : gapMinTXID < bound)
    (hSorted : (items ++ rest).Pairwise (fun f g => f.minTXID ≤ g.minTXID))
    (hCovers : Covers (items ++ rest) st.current gapMinTXID)
    (hLoop : gapLoop env zero gapMinTXID items st = (r, st')) :
    r.isFailed = true ∨ gapMinTXID ≤ st'.current + 1 ∨ (r = .exhausted ∧ rest ≠ []) := by
  induction items generalizing st with
  | nil =>
    rw [gapLoop, Prod.mk.injEq] at hLoop
    rcases hLoop with ⟨rfl, rfl⟩
    by_cases hOpen : st.current + 1 < gapMinTXID
    · rcases hCovers (st.current + 1) (by omega) hOpen with ⟨f, hf, _⟩
      exact Or.inr (Or.inr ⟨rfl, List.ne_nil_of_mem hf⟩)
    · exact Or.inr (Or.inl (by omega))
  | cons info items ih =>
    rcases List.pairwise_cons.mp hSorted with ⟨hFirst, hLater⟩
    -- what the file does not have is in the other files
    have hOthers : ∀ c, info.maxTXID ≤ c → st.current ≤ c →
      Covers (items ++ rest) c gapMinTXID := by
      intro c hPast hLe u hAfter hBefore
      rcases hCovers u (by omega) hBefore with ⟨f, hf, hMin, hMax⟩
      rcases List.mem_cons.mp hf with rfl | hTail
      · omega
      · exact ⟨f, hTail, hMin, hMax⟩
    rw [gapLoop] at hLoop
    split at hLoop
    · rename_i hGap
      rw [Prod.mk.injEq] at hLoop
      rcases hLoop with ⟨rfl, rfl⟩
      refine Or.inr (Or.inl ?_)
      by_contra hOpen
      have hNext : next st.current = st.current + 1 := next_eq (by omega)
      rcases hCovers (st.current + 1) (by omega) (by omega) with ⟨f, hf, hMin, _⟩
      rcases List.mem_cons.mp hf with rfl | hTail
      · omega
      · have hOrder := hFirst f hTail
        omega
    · split at hLoop
      · rename_i hCovered
        exact ih hLater (hOthers _ hCovered (Nat.le_refl _)) hLoop
      · split at hLoop
        · rw [Prod.mk.injEq] at hLoop
          rcases hLoop with ⟨rfl, rfl⟩
          exact Or.inl rfl
        · rename_i mid hApply
          have hEnd := (PollState.apply_ok hApply).2.1
          have hNext := next_le mid.current
          split at hLoop
          · rw [Prod.mk.injEq] at hLoop
            rcases hLoop with ⟨rfl, rfl⟩
            exact Or.inr (Or.inl (by omega))
          · exact ih hLater (hOthers _ (by omega) (by omega)) hLoop

end Level

-- All Levels

/-
  The first of the levels that has a next file has all
  transactions of the gap.
-/
def BridgedBy (content : Content) (t gapMinTXID : Nat) : List Nat → Prop
| [] => True
| level :: levels =>
  (Extends content level t → Covers (content level) t gapMinTXID) ∧
  (¬ Extends content level t → BridgedBy content t gapMinTXID levels)

/-
  A gap after `t` in front of the first file of level 0 is
  filled by one level.
-/
def Bridged (content : Content) (t : Nat) : Prop :=
  ∀ info, ((content 0).filter (fun f => decide (t + 1 ≤ f.minTXID))).head? = some info →
    t + 1 < info.minTXID → BridgedBy content t info.minTXID gapLevels

section Fill

variable {env : FollowEnv} {zero : Page} {content : Content} {st st' : PollState}

/- The gap is closed, or nothing has happened. -/
theorem fillFollowGap_bridged {gapMinTXID : Nat} {levels} (hBound : gapMinTXID < bound)
    (hSorted : ∀ level, (content level).Pairwise (fun f g => f.minTXID ≤ g.minTXID))
    (hOpen : st.current + 1 < gapMinTXID)
    (hBridged : BridgedBy content st.current gapMinTXID levels)
    (hFill : fillFollowGap env zero content st.current gapMinTXID levels st = (none, st')) :
    st' = st ∨ gapMinTXID ≤ st'.current + 1 := by
  induction levels with
  | nil =>
    rw [fillFollowGap, Prod.mk.injEq] at hFill
    exact Or.inl hFill.2.symm
  | cons level levels ih =>
    rw [fillFollowGap] at hFill
    split at hFill
    · simp at hFill
    rename_i itr hList
    have hInitial := ltxFiles_zero_initial hList
    cases hGap : gapLoop env zero gapMinTXID itr.items st with
    | mk r mid =>
      rw [hGap] at hFill
      by_cases hExtends : Extends content level st.current
      · -- this level closes the gap
        rcases hInitial with ⟨rest, hWhole⟩
        have hOrder := hSorted level
        have hCovers := hBridged.1 hExtends
        rw [← hWhole] at hOrder hCovers
        have hReach := gapLoop_covers hBound hOrder hCovers hGap
        cases r with
        | failed err => simp at hFill
        | bridged =>
          rw [Prod.mk.injEq] at hFill
          rw [← hFill.2]
          simpa [GapEnd.isFailed] using Or.inr hReach
        | stopped =>
          have hClosed : gapMinTXID ≤ mid.current + 1 := by simpa [GapEnd.isFailed] using hReach
          dsimp only at hFill
          rw [if_pos (by omega), Prod.mk.injEq] at hFill
          rw [← hFill.2]
          exact Or.inr hClosed
        | exhausted =>
          cases hErr : itr.err with
          | some err =>
            rw [hErr] at hFill
            simp at hFill
          | none =>
            have hAll := ltxFiles_zero_items hList hErr
            have hNil : rest = [] := by
              rw [← hWhole] at hAll
              exact List.self_eq_append_right.mp hAll
            have hClosed : gapMinTXID ≤ mid.current + 1 := by
              simpa [GapEnd.isFailed, hNil] using hReach
            rw [hErr] at hFill
            dsimp only at hFill
            rw [if_pos (by omega), Prod.mk.injEq] at hFill
            rw [← hFill.2]
            exact Or.inr hClosed
      · -- this level has nothing
        rcases gapLoop_none (fun f hf hNext =>
          hExtends ⟨f, hInitial.sublist.subset hf, hNext⟩)
            hGap with ⟨rfl, hEnd⟩
        have hRest := hBridged.2 hExtends
        have hStay : ¬ mid.current < mid.current := Nat.lt_irrefl _
        rcases hEnd with rfl | rfl
        · dsimp only at hFill
          rw [if_neg hStay] at hFill
          exact ih hRest hFill
        dsimp only at hFill
        split at hFill
        · simp at hFill
        · rw [if_neg hStay] at hFill
          exact ih hRest hFill

end Fill

-- Level 0

section LevelZero

variable {env : FollowEnv} {zero : Page} {content : Content} {st st' : PollState}

/- Files without a gap are all applied, or skipped. -/
theorem level0Loop_reach {b : Nat} {items answer}
    (hTiles : Tiles FileInfo.minTXID FileInfo.maxTXID b items)
    (hFiles : ∀ f ∈ items, f.maxTXID + 1 < bound) (hCurrent : st.current + 1 < bound)
    (hNext : b ≤ st.current) (hLoop : level0Loop env zero content items st = (answer, st')) :
    isError answer = true ∨ (answer = none ∧ st'.current =
      max st.current (reach FileInfo.maxTXID b items)) := by
  induction items generalizing b st with
  | nil =>
    rcases hLoop with ⟨rfl, rfl⟩
    exact Or.inr ⟨rfl, (Nat.max_eq_left hNext).symm⟩
  | cons info items ih =>
    rcases hTiles with ⟨hMin, hWide, hRest⟩
    have hBound := hFiles info List.mem_cons_self
    have hOthers : ∀ f ∈ items, f.maxTXID + 1 < bound :=
      fun f hf => hFiles f (List.mem_cons_of_mem info hf)
    have hNoGap : ¬ next st.current < info.minTXID := by
      rw [next_eq hCurrent]
      omega
    rw [level0Loop] at hLoop
    rw [if_neg hNoGap] at hLoop
    dsimp only at hLoop
    rw [reach_cons]
    split at hLoop
    · rename_i hSeen
      exact ih hRest hOthers hCurrent hSeen hLoop
    rename_i hNew
    split at hLoop
    · rw [Prod.mk.injEq] at hLoop
      rcases hLoop with ⟨rfl, rfl⟩
      exact Or.inl rfl
    rename_i mid hApply
    have hEnd := (PollState.apply_ok hApply).2.1
    rcases ih hRest hOthers (by omega) (by omega) hLoop with hError | ⟨hAnswer, hFinal⟩
    · exact Or.inl hError
    · refine Or.inr ⟨hAnswer, ?_⟩
      have hAfter := le_reach hRest.isChain
      omega

theorem level0Loop_bridged {mid info items} (hGap : next st.current < info.minTXID)
    (hFill : fillFollowGap env zero content st.current info.minTXID gapLevels st = (none, mid))
    (hClosed : ¬ next mid.current < info.minTXID) : level0Loop env zero content (info :: items) st =
      level0Loop env zero content (info :: items) mid := by
  rw [level0Loop, if_pos hGap, hFill]
  rw [level0Loop, if_neg hClosed]

end LevelZero

-- A Whole Poll

section Poll

open Retention

variable {env : FollowEnv} {zero : Page} {s : Shared} {t : Nat}

theorem uploaded_le_of_none_listed (hInv : LevelZeroInv s)
    (hNone : (s.content 0).filter (fun f => decide (t + 1 ≤ f.minTXID)) = []) : s.uploaded ≤ t := by
  by_cases hEmpty : s.content 0 = []
  · rw [hInv.kept hEmpty]
    exact Nat.zero_le t
  rcases hInv.tiles with ⟨base, _, hReach⟩
  rcases exists_hi_eq_reach FileInfo.maxTXID base hEmpty with ⟨f, hf, hEnd⟩
  have hSingle := hInv.single f hf
  have hOld := List.filter_eq_nil_iff.mp hNone f hf
  rw [decide_eq_true_eq] at hOld
  omega

theorem eq_of_uploaded_le {st st'} (hInv : LevelZeroInv s) (hUploaded : s.uploaded ≤ st.current)
    (hSteps : Relation.ReflTransGen (AppliesFile env zero s.content none) st st') : st' = st := by
  rcases Relation.ReflTransGen.cases_head hSteps with
    rfl | ⟨_, ⟨level, hLevel, info, hInfo, _, hLater, _⟩, _⟩
  · rfl
  · have hBelow := hInv.below level hLevel info hInfo
    omega

/-
  A poll that fails nowhere gets to the last upload, if a
  gap is filled by one level, or it stays where it is.
-/
theorem applyNewLTXFiles_reaches {file st} (hReplica : ReplicaInv s) (hInv : LevelZeroInv s)
    (hBridged : Bridged s.content t)
    (hPoll : applyNewLTXFiles env zero s.content t file = (none, st)) :
    st.current = t ∨ s.uploaded ≤ st.current := by
  have hPos := hReplica.bound
  have hUploaded := hReplica.uploaded_le
  by_cases hAhead : s.uploaded ≤ t
  · rw [eq_of_uploaded_le hInv hAhead (applyNewLTXFiles_trace hPoll).of_ok]
    exact Or.inl rfl
  have hNext : next t = t + 1 := next_eq (by omega)
  have hSorted : ∀ level, (s.content level).Pairwise (fun f g => f.minTXID ≤ g.minTXID) := by
    intro level
    refine (hReplica.sorted level).imp ?_
    intro f g hName
    unfold NameLt at hName
    omega
  unfold applyNewLTXFiles at hPoll
  rw [hNext] at hPoll
  dsimp only at hPoll
  split at hPoll
  · simp at hPoll
  rename_i itr hList
  have hInitial := ltxFiles_initial hList
  rcases hInv.tiles with ⟨base, hTiles, hReach⟩
  rcases hTiles.filter_lo_from (t + 1) with ⟨b, hListed, hEnd⟩
  have hItems := hListed.of_initial hInitial
  have hFiles : ∀ f ∈ itr.items, f.maxTXID + 1 < bound := by
    intro f hf
    have hBelow := hInv.below 0 (by decide) f (mem_of_mem_ltxFiles hList hf)
    omega
  cases hFirst : itr.items with
  | nil =>
    rw [hFirst, level0Loop] at hPoll
    cases hErr : itr.err with
    | some err =>
      rw [hErr] at hPoll
      simp at hPoll
    | none =>
      have hNone := ltxFiles_items hList hErr
      rw [hFirst] at hNone
      exact absurd (uploaded_le_of_none_listed hInv hNone.symm) hAhead
  | cons info items =>
    rw [hFirst] at hInitial hItems hFiles hPoll
    -- from a state without a gap before the first file
    have hFinish : ∀ mid : PollState, mid.current + 1 < bound → b ≤ mid.current →
      level0Loop env zero s.content (info :: items) ⟨file, t, []⟩ =
        level0Loop env zero s.content (info :: items) mid →
      s.uploaded ≤ st.current := by
      intro mid hBound hStart hSame
      rw [hSame] at hPoll
      cases hLoop : level0Loop env zero s.content (info :: items) mid with
      | mk answer last =>
        rw [hLoop] at hPoll
        rcases level0Loop_reach hItems hFiles hBound hStart hLoop with hError | ⟨rfl, hLast⟩
        · cases answer with
          | none => simp [isError] at hError
          | some err =>
            rw [Prod.mk.injEq] at hPoll
            rw [hPoll.1] at hError
            simp [isError] at hError
        dsimp only at hPoll
        cases hErr : itr.err with
        | some err =>
          rw [hErr] at hPoll
          simp at hPoll
        | none =>
          have hAll := ltxFiles_items hList hErr
          rw [hErr] at hPoll
          rw [if_neg (by simp), Prod.mk.injEq] at hPoll
          rw [← hAll, hFirst] at hEnd
          rw [← hPoll.2, hLast, hEnd, hReach]
          exact Nat.le_max_right _ _
    have hHead : ((s.content 0).filter
      (fun f => decide (t + 1 ≤ f.minTXID))).head? = some info := by
      rcases hInitial with ⟨rest, hWhole⟩
      rw [← hWhole]
      rfl
    have hBegin : info.minTXID = b + 1 := hItems.1
    have hWide : b < info.maxTXID := hItems.2.1
    by_cases hGap : t + 1 < info.minTXID
    · have hBehind : next t < info.minTXID := by
        rw [hNext]
        exact hGap
      have hLimit := hFiles info List.mem_cons_self
      cases hFill : fillFollowGap env zero s.content t info.minTXID gapLevels ⟨file, t, []⟩ with
      | mk err mid =>
        cases err with
        | some err =>
          rw [level0Loop] at hPoll
          rw [if_pos hBehind, hFill] at hPoll
          simp at hPoll
        | none =>
          have hMid := current_le hInv.below (fillFollowGap_trace gapLevels_lt hFill).of_ok
          dsimp only at hMid
          have hSmall : info.minTXID < bound := by
            have hProper := hItems.lo_le_hi List.mem_cons_self
            omega
          have hBy := hBridged info hHead hGap
          rcases @fillFollowGap_bridged env zero s.content ⟨file, t, []⟩ mid info.minTXID
            gapLevels hSmall hSorted hGap hBy hFill
            with rfl | hClosed
          · rw [level0Loop] at hPoll
            rw [if_pos hBehind, hFill] at hPoll
            dsimp only at hPoll
            rw [if_neg (by omega), if_pos hBehind, Prod.mk.injEq] at hPoll
            rw [← hPoll.2]
            exact Or.inl rfl
          refine Or.inr (hFinish mid (by omega) (by omega) ?_)
          apply level0Loop_bridged hBehind hFill
          rw [next_eq (by omega)]
          omega
    · exact Or.inr (hFinish ⟨file, t, []⟩ (by dsimp only; omega) (by dsimp only; omega) rfl)

end Poll

end Follow

end Replicate
