import Replicate.Lib.Traversal
import Replicate.Restore.Planner
import Mathlib.Algebra.GroupWithZero.Nat

/-
  Termination and error paths of the planner's main loop.

  A round never increases the weight of the cursors (files
  not evaluated yet, plus candidates held) and consumes one
  candidate, so the loop ends and `calcRestorePlan` is a
  total function. Its errors come from listing a level,
  from reading a listing, or from the planner itself.

  Main declarations:
    * `planLoop_isSome`
    * `planLoop_error`
    * `calcRestorePlan`
    * `calcRestorePlanFuel_eq`
-/

-- Weights

namespace Replicate

open Traversal RestoreLevelCursor List Option

namespace RestoreLevelCursor

/- Files not evaluated yet, plus the candidate held. -/
def weight (c : RestoreLevelCursor) : Nat :=
  c.unread.length + c.candidate.toList.length

theorem length_offer (candidate : Option FileInfo) (info : FileInfo) :
    (offer candidate info).toList.length = 1 := by
  cases candidate with
  | none => rfl
  | some best =>
    simp only [offer]
    split <;> rfl

theorem length_dropStale_le (currentMax : Nat) (candidate : Option FileInfo) :
    (dropStale currentMax candidate).toList.length ≤ candidate.toList.length := by
  cases candidate with
  | none => simp [dropStale]
  | some best =>
    simp only [dropStale]
    split <;> simp

theorem weight_refreshLoop_le {currentMax txID : Nat} {timestamp : Int} {err files candidate c}
    (hLoop : refreshLoop currentMax txID timestamp err files candidate = .ok c) :
    c.weight ≤ files.length + candidate.toList.length := by
  induction files generalizing candidate with
  | nil =>
    cases err with
    | some e => simp [refreshLoop] at hLoop
    | none =>
      simp only [refreshLoop, Except.ok.injEq] at hLoop
      subst hLoop
      simp [weight, unread]
  | cons info rest ih =>
    simp only [refreshLoop] at hLoop
    split at hLoop
    · simp only [Except.ok.injEq] at hLoop
      subst hLoop
      simp [weight, unread]
    split at hLoop
    · have hRest := ih hLoop
      simp only [length_cons]
      omega
    split at hLoop
    · have hRest := ih hLoop
      simp only [length_cons]
      omega
    · have hRest := ih hLoop
      rw [length_offer] at hRest
      simp only [length_cons]
      omega

theorem weight_refresh_le {c c' : RestoreLevelCursor} {currentMax txID : Nat} {timestamp : Int}
    (hRefresh : c.refresh currentMax txID timestamp = .ok c') : c'.weight ≤ c.weight := by
  unfold refresh at hRefresh
  split at hRefresh
  · simp only [Except.ok.injEq] at hRefresh
    exact Nat.le_of_eq (by rw [hRefresh])
  have hLoop := weight_refreshLoop_le hRefresh
  have hStale := length_dropStale_le currentMax c.candidate
  unfold weight
  unfold weight at hLoop
  omega

end RestoreLevelCursor

variable {currentMax txID : Nat} {timestamp : Int} {cursors : List RestoreLevelCursor} {i : Nat}
  {c : RestoreLevelCursor} {fuel : Nat} {s : PlanState} {files : Listing}
variable {best : Option (Nat × FileInfo)} {info : FileInfo} {e : Err}

/- The weight of all cursors. -/
def cursorsWeight (cursors : List RestoreLevelCursor) : Nat :=
  (cursors.map weight).sum

theorem cursorsWeight_refreshAll_le {cursors' : List RestoreLevelCursor}
    (hRefresh : refreshAll currentMax txID timestamp cursors = .ok cursors') :
    cursorsWeight cursors' ≤ cursorsWeight cursors := by
  unfold refreshAll at hRefresh
  rw [mapM_eq_ok_iff] at hRefresh
  induction hRefresh with
  | nil => exact Nat.le_refl _
  | cons hHead _ ih =>
    have hWeight := weight_refresh_le hHead
    simp only [cursorsWeight, map_cons, sum_cons] at ih ⊢
    omega

-- Selecting The Next Cursor

theorem selectNext_eq_some {j : Nat} (hSelect : selectNext cursors i best = some (j, info)) :
    best = some (j, info) ∨ ∃ k c, j = i + k ∧ cursors[k]? = some c ∧ c.candidate = some info := by
  induction cursors generalizing i best with
  | nil => exact Or.inl hSelect
  | cons c cs ih =>
    rcases ih hSelect with hBest | ⟨k, d, hj, hGet, hCand⟩
    · split at hBest
      · exact Or.inl hBest
      · rename_i hCandidate
        simp only [some.injEq, Prod.mk.injEq] at hBest
        exact Or.inr ⟨0, c, by omega, rfl, by rw [hCandidate, hBest.2]⟩
      · rename_i hCandidate
        split at hBest
        · simp only [some.injEq, Prod.mk.injEq] at hBest
          exact Or.inr ⟨0, c, by omega, rfl, by rw [hCandidate, hBest.2]⟩
        · exact Or.inl hBest
    · exact Or.inr ⟨k + 1, d, by omega, hGet, hCand⟩

theorem candidate_eq_none_of_selectNext_eq_none (hSelect : selectNext cursors i best = none) :
    best = none ∧ ∀ c ∈ cursors, c.candidate = none := by
  induction cursors generalizing i best with
  | nil => exact ⟨hSelect, by simp⟩
  | cons c cs ih =>
    obtain ⟨hBest, hRest⟩ := ih hSelect
    split at hBest
    · rename_i hCandidate
      refine ⟨hBest, ?_⟩
      intro d hd
      rcases mem_cons.mp hd with rfl | hTail
      · exact hCandidate
      · exact hRest d hTail
    · simp at hBest
    · split at hBest <;> simp at hBest

theorem mem_clearCandidate (hMem : c ∈ clearCandidate i cursors) :
    ∃ d ∈ cursors, c = d ∨ c = { d with candidate := none } := by
  induction cursors generalizing i with
  | nil => cases i <;> simp [clearCandidate] at hMem
  | cons d ds ih =>
    cases i with
    | zero =>
      rcases mem_cons.mp hMem with rfl | hTail
      · exact ⟨d, mem_cons_self, Or.inr rfl⟩
      · exact ⟨c, mem_cons_of_mem d hTail, Or.inl rfl⟩
    | succ i =>
      rcases mem_cons.mp hMem with rfl | hTail
      · exact ⟨c, mem_cons_self, Or.inl rfl⟩
      · rcases ih hTail with ⟨e, he, hEq⟩
        exact ⟨e, mem_cons_of_mem d he, hEq⟩

theorem mem_clearCandidate_of_mem (hMem : c ∈ cursors) :
    c ∈ clearCandidate i cursors ∨ (cursors[i]? = some c ∧
      { c with candidate := none } ∈ clearCandidate i cursors) := by
  induction cursors generalizing i with
  | nil => simp at hMem
  | cons d ds ih =>
    cases i with
    | zero =>
      rcases mem_cons.mp hMem with rfl | hTail
      · exact Or.inr ⟨rfl, mem_cons_self⟩
      · exact Or.inl (mem_cons_of_mem _ hTail)
    | succ i =>
      rcases mem_cons.mp hMem with rfl | hTail
      · exact Or.inl mem_cons_self
      · rcases ih (i := i) hTail with hKept | ⟨hGet, hClr⟩
        · exact Or.inl (mem_cons_of_mem d hKept)
        · exact Or.inr ⟨hGet, mem_cons_of_mem d hClr⟩

theorem cursorsWeight_clearCandidate (hGet : cursors[i]? = some c) (hCand : c.candidate = some info)
    :
    cursorsWeight (clearCandidate i cursors) + 1 = cursorsWeight cursors := by
  induction cursors generalizing i with
  | nil => simp at hGet
  | cons d ds ih =>
    cases i with
    | zero =>
      simp only [getElem?_cons_zero, some.injEq] at hGet
      subst hGet
      simp [clearCandidate, cursorsWeight, weight, unread, hCand]
      omega
    | succ i =>
      have hTail := ih (by simpa using hGet)
      simp only [clearCandidate, cursorsWeight, map_cons, sum_cons] at hTail ⊢
      omega

-- Termination

/- The loop ends when its fuel exceeds the cursors' weight. -/
theorem planLoop_isSome (hFuel : cursorsWeight s.cursors < fuel) :
    (planLoop txID timestamp fuel s).isSome := by
  induction fuel generalizing s with
  | zero => omega
  | succ fuel ih =>
    simp only [planLoop]
    cases hRefresh : refreshAll s.currentMax txID timestamp s.cursors with
    | error e => rfl
    | ok cursors =>
      have hWeight := cursorsWeight_refreshAll_le hRefresh
      cases hSelect : selectNext cursors 0 none with
      | none => simp only [hSelect, isSome_some]
      | some chosen =>
        obtain ⟨i, info⟩ := chosen
        simp only [hSelect]
        rcases selectNext_eq_some hSelect with hNone | ⟨k, c, hi, hGet, hCand⟩
        · simp at hNone
        rw [Nat.zero_add] at hi
        subst hi
        have hClear := cursorsWeight_clearCandidate hGet hCand
        have hNext : cursorsWeight (clearCandidate i cursors) < fuel := by omega
        split
        · exact ih hNext
        · split
          · rfl
          · exact ih hNext

theorem planLoop_mono {more : Nat} {r} (hLe : fuel ≤ more)
    (hRun : planLoop txID timestamp fuel s = some r) : planLoop txID timestamp more s = some r := by
  induction fuel generalizing more s with
  | zero => simp [planLoop] at hRun
  | succ fuel ih =>
    obtain ⟨more, rfl⟩ : ∃ m, more = m + 1 := ⟨more - 1, by omega⟩
    have hLe' : fuel ≤ more := by omega
    simp only [planLoop] at hRun ⊢
    cases hRefresh : refreshAll s.currentMax txID timestamp s.cursors with
    | error e => simpa [hRefresh] using hRun
    | ok cursors =>
      simp only [hRefresh] at hRun ⊢
      cases hSelect : selectNext cursors 0 none with
      | none => simpa [hSelect] using hRun
      | some chosen =>
        obtain ⟨i, info⟩ := chosen
        simp only [hSelect] at hRun ⊢
        split at hRun
        · rename_i hOld
          rw [if_pos hOld]
          exact ih hLe' hRun
        rename_i hOld
        rw [if_neg hOld]
        split at hRun
        · rename_i hTarget
          rw [if_pos hTarget]
          exact hRun
        · rename_i hTarget
          rw [if_neg hTarget]
          exact ih hLe' hRun

-- Read Errors

theorem refresh_err :
    (∀ e, c.refresh currentMax txID timestamp = .error e → c.itr.err = some e) ∧
    (∀ c', c.refresh currentMax txID timestamp = .ok c' → c'.itr.err = c.itr.err) := by
  have hLoop : ∀ (files : List FileInfo) (candidate : Option FileInfo),
    (∀ e, refreshLoop currentMax txID timestamp c.itr.err files candidate = .error e →
      c.itr.err = some e) ∧
    (∀ c', refreshLoop currentMax txID timestamp c.itr.err files candidate = .ok c' →
      c'.itr.err = c.itr.err) := by
    intro files
    induction files with
    | nil =>
      intro candidate
      cases hErr : c.itr.err with
      | none | some =>
        simp only [refreshLoop]
        grind
    | cons info rest ih =>
      intro candidate
      simp only [refreshLoop]
      split
      · grind
      split
      · exact ih candidate
      · split
        · exact ih candidate
        · exact ih (offer candidate info)
  unfold refresh
  split
  · grind
  · exact hLoop _ _

/- A failed loop reports the read error of some cursor. -/
theorem planLoop_error (hRun : planLoop txID timestamp fuel s = some (.error e)) :
    ∃ c ∈ s.cursors, c.itr.err = some e := by
  induction fuel generalizing s with
  | zero => simp [planLoop] at hRun
  | succ fuel ih =>
    simp only [planLoop] at hRun
    cases hRefresh : refreshAll s.currentMax txID timestamp s.cursors with
    | error err =>
      simp only [hRefresh, some.injEq, Except.error.injEq] at hRun
      subst hRun
      rcases exists_of_mapM_eq_error hRefresh with ⟨c, hc, hErr⟩
      exact ⟨c, hc, refresh_err.1 _ hErr⟩
    | ok cursors =>
      simp only [hRefresh] at hRun
      -- a cursor of the next round has its error from
      -- a cursor of this one
      have hBack : ∀ i, (∃ c ∈ clearCandidate i cursors, c.itr.err = some e) →
        ∃ c ∈ s.cursors, c.itr.err = some e := by
        rintro i ⟨c, hc, hErr⟩
        rcases mem_clearCandidate hc with ⟨d, hd, hEq⟩
        have hErrD : d.itr.err = some e := by
          rcases hEq with rfl | rfl
          · exact hErr
          · exact hErr
        rcases exists_of_mem_result hRefresh hd with ⟨b, hb, hRef⟩
        exact ⟨b, hb, by
          rw [← refresh_err.2 _ hRef, hErrD]⟩
      cases hSelect : selectNext cursors 0 none with
      | none => simp [hSelect] at hRun
      | some chosen =>
        obtain ⟨i, info⟩ := chosen
        simp only [hSelect] at hRun
        split at hRun
        · exact hBack i (ih hRun)
        · split at hRun
          · simp at hRun
          · exact hBack i (ih hRun)

theorem refresh_done {c'} (hDone : c.done = true → c.itr.err = none)
    (hRefresh : c.refresh currentMax txID timestamp = .ok c') :
    c'.done = true → c'.itr.err = none := by
  have hLoop : ∀ (files : List FileInfo) (candidate : Option FileInfo),
    refreshLoop currentMax txID timestamp c.itr.err files candidate = .ok c' →
      c'.done = true → c'.itr.err = none := by
    intro files
    induction files with
    | nil =>
      intro candidate hEnd _
      unfold refreshLoop at hEnd
      split at hEnd
      · cases hEnd
      · rename_i hErr
        rw [← Except.ok.inj hEnd]
        exact hErr
    | cons info rest ih =>
      intro candidate hNext hIs
      unfold refreshLoop at hNext
      split at hNext
      · rw [← Except.ok.inj hNext] at hIs
        cases hIs
      split at hNext
      · exact ih _ hNext hIs
      · split at hNext
        · exact ih _ hNext hIs
        · exact ih _ hNext hIs
  unfold refresh at hRefresh
  split at hRefresh
  · rw [← Except.ok.inj hRefresh]
    exact hDone
  · exact hLoop _ _ hRefresh

/- The loop keeps the iterators' errors. -/
theorem planLoop_errs {s'} (hDone : ∀ c ∈ s.cursors, c.done = true → c.itr.err = none)
    (hRun : planLoop txID timestamp fuel s = some (.ok s')) :
    (∀ c ∈ s'.cursors, c.done = true → c.itr.err = none) ∧ ∀ c ∈ s.cursors,
      ∃ c' ∈ s'.cursors, c'.itr.err = c.itr.err := by
  induction fuel generalizing s with
  | zero => simp [planLoop] at hRun
  | succ fuel ih =>
    simp only [planLoop] at hRun
    cases hRefresh : refreshAll s.currentMax txID timestamp s.cursors with
    | error err => simp [hRefresh] at hRun
    | ok cursors =>
      simp only [hRefresh] at hRun
      have hNext : ∀ c ∈ cursors, c.done = true → c.itr.err = none := by
        intro c' hc'
        rcases exists_of_mem_result hRefresh hc' with ⟨c, hc, hRef⟩
        exact refresh_done (hDone c hc) hRef
      have hKept : ∀ c ∈ s.cursors, ∃ c' ∈ cursors, c'.itr.err = c.itr.err := by
        intro c hc
        rcases exists_result_of_mem hRefresh hc with ⟨c', hc', hRef⟩
        exact ⟨c', hc', refresh_err.2 c' hRef⟩
      -- clearing a candidate changes neither
      have hCleared : ∀ i, (∀ c ∈ clearCandidate i cursors, c.done = true → c.itr.err = none) ∧
        ∀ c ∈ cursors, ∃ c' ∈ clearCandidate i cursors, c'.itr.err = c.itr.err := by
        intro i
        constructor
        · intro c hc
          rcases mem_clearCandidate hc with ⟨d, hd, rfl | rfl⟩
          · exact hNext c hd
          · exact hNext d hd
        · intro c hc
          rcases mem_clearCandidate_of_mem (i := i) hc with hIn | ⟨_, hIn⟩
          · exact ⟨c, hIn, rfl⟩
          · exact ⟨_, hIn, rfl⟩
      cases hSelect : selectNext cursors 0 none with
      | none =>
        simp only [hSelect, some.injEq, Except.ok.injEq] at hRun
        rw [← hRun]
        exact ⟨hNext, hKept⟩
      | some best =>
        rcases best with ⟨i, info⟩
        simp only [hSelect] at hRun
        rcases hCleared i with ⟨hClear, hAll⟩
        have hThrough : ∀ {t : PlanState}, (∀ c ∈ cursors,
          ∃ c' ∈ t.cursors, c'.itr.err = c.itr.err) →
            ∀ c ∈ s.cursors, ∃ c' ∈ t.cursors, c'.itr.err = c.itr.err := by
          intro t hTo c hc
          rcases hKept c hc with ⟨d, hd, hErr⟩
          rcases hTo d hd with ⟨e, he, hEq⟩
          exact ⟨e, he, hEq.trans hErr⟩
        have hAgain : ∀ {t : PlanState}, t.cursors = clearCandidate i cursors →
          planLoop txID timestamp fuel t = some (.ok s') →
          (∀ c ∈ s'.cursors, c.done = true → c.itr.err = none) ∧
          ∀ c ∈ s.cursors, ∃ c' ∈ s'.cursors, c'.itr.err = c.itr.err := by
          intro t hEq hLoop
          rw [← hEq] at hClear hAll
          rcases ih hClear hLoop with ⟨hEnd, hOn⟩
          refine ⟨hEnd, hThrough ?_⟩
          intro c hc
          rcases hAll c hc with ⟨d, hd, hErr⟩
          rcases hOn d hd with ⟨e, he, hSame⟩
          exact ⟨e, he, hSame.trans hErr⟩
        split at hRun
        · exact hAgain rfl hRun
        split at hRun
        · simp only [some.injEq, Except.ok.injEq] at hRun
          rw [← hRun]
          exact ⟨hClear, hThrough hAll⟩
        · exact hAgain rfl hRun

-- CalcRestorePlan

theorem mem_openCursors_iff (hOpen : openCursors files = .ok cursors) (c : RestoreLevelCursor) :
    c ∈ cursors ↔ ∃ level < snapshotLevel, ∃ itr, files level = .ok itr ∧ c = ofIterator itr := by
  have hStep : ∀ level c, (do
    let itr ← files level
    return ofIterator itr : Except Err _) = .ok c ↔
      ∃ itr, files level = .ok itr ∧ c = ofIterator itr := by
    intro level c
    cases hLevel : files level with
    | error e => simp [bind, Except.bind]
    | ok itr => simp [bind, Except.bind, pure, Except.pure, eq_comm]
  constructor
  · intro hMem
    rcases exists_of_mem_result hOpen hMem with ⟨level, hLevel, hEq⟩
    exact ⟨level, by simpa using hLevel, (hStep level c).mp hEq⟩
  · rintro ⟨level, hLevel, hItr⟩
    rcases exists_result_of_mem hOpen (x := level) (by simpa using hLevel) with ⟨d, hd, hEq⟩
    have hSame := ((hStep level c).mpr hItr).symm.trans hEq
    rw [Except.ok.inj hSame]
    exact hd

theorem exists_itr_of_openCursors (hOpen : openCursors files = .ok cursors) {level : Nat}
    (hLevel : level < snapshotLevel) : ∃ itr, files level = .ok itr := by
  have hMem : level ∈ (List.range snapshotLevel).reverse := by simpa using hLevel
  rcases exists_result_of_mem hOpen hMem with ⟨c, _, hEq⟩
  rw [bind_eq_ok_iff] at hEq
  rcases hEq with ⟨itr, hItr, _⟩
  exact ⟨itr, hItr⟩

theorem openCursors_error (hOpen : openCursors files = .error e) :
    ∃ level < snapshotLevel, files level = .error e := by
  rcases exists_of_mapM_eq_error hOpen with ⟨level, hLevel, hEq⟩
  refine ⟨level, by simpa using hLevel, ?_⟩
  cases hList : files level with
  | error err => simpa [hList, bind, Except.bind] using hEq
  | ok itr => simp [hList, bind, Except.bind, pure, Except.pure] at hEq

/- Rounds that suffice for the files listed. -/
def planFuel (files : Listing) : Nat :=
  match openCursors files with
  | .error _ => 0
  | .ok cursors => cursorsWeight cursors + 1

theorem calcRestorePlanFuel_isSome (files : Listing) (txID : Nat) (timestamp : Int) :
    (calcRestorePlanFuel (planFuel files) files txID timestamp).isSome := by
  unfold calcRestorePlanFuel planFuel
  split
  · rfl
  cases files snapshotLevel with
  | error e => rfl
  | ok itr =>
    cases hErr : itr.err with
    | some e => simp [hErr]
    | none =>
      simp only [hErr]
      split
      · rfl
      cases openCursors files with
      | error e => rfl
      | ok cursors =>
        dsimp only
        generalize hState : PlanState.mk _ _ _ = s
        have hSome : (planLoop txID timestamp (cursorsWeight cursors + 1) s).isSome := by
          apply planLoop_isSome
          rw [← hState]
          exact Nat.lt_succ_self _
        obtain ⟨out, hOut⟩ := isSome_iff_exists.mp hSome
        rw [hOut]
        cases out with
        | error | ok => rfl

def calcRestorePlan (files : Listing) (txID : Nat) (timestamp : Int) : Except Err (List FileInfo) :=
  (calcRestorePlanFuel (planFuel files) files txID timestamp).get
    (calcRestorePlanFuel_isSome files txID timestamp)

/- The function ends with this value, given enough rounds. -/
theorem calcRestorePlanFuel_eq (files : Listing) (txID : Nat) (timestamp : Int)
    (hFuel : planFuel files ≤ fuel) : calcRestorePlanFuel fuel files txID timestamp =
      some (calcRestorePlan files txID timestamp) := by
  have hRun : calcRestorePlanFuel (planFuel files) files txID timestamp =
    some (calcRestorePlan files txID timestamp) := by
    simp [calcRestorePlan]
  generalize calcRestorePlan files txID timestamp = r at hRun
  unfold calcRestorePlanFuel at hRun ⊢
  split
  · rename_i hBoth
    rwa [if_pos hBoth] at hRun
  rename_i hBoth
  rw [if_neg hBoth] at hRun
  cases hSnap : files snapshotLevel with
  | error e => simpa [hSnap] using hRun
  | ok itr =>
    simp only [hSnap] at hRun ⊢
    cases hErr : itr.err with
    | some e => simpa [hErr] using hRun
    | none =>
      simp only [hErr] at hRun ⊢
      split
      · rename_i hDone
        rwa [if_pos hDone] at hRun
      rename_i hDone
      rw [if_neg hDone] at hRun
      cases hOpen : openCursors files with
      | error e => simpa [hOpen] using hRun
      | ok cursors =>
        simp only [hOpen] at hRun ⊢
        generalize hState : PlanState.mk _ _ _ = s at hRun ⊢
        cases hLoop : planLoop txID timestamp (planFuel files) s with
        | none => simp [hLoop] at hRun
        | some out =>
          rw [planLoop_mono hFuel hLoop]
          rwa [hLoop] at hRun

end Replicate
