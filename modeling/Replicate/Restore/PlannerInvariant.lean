import Replicate.Lib.IntervalChain
import Replicate.Restore.PlannerLoop

/-
  The invariant of the planner's main loop.

  The files the cursors walk form a family. `LoopInv` says
  that an eligible file of the family that could still
  advance the plan is unread in some cursor, or no better
  than the candidate of some cursor. Hence skipping a file,
  or keeping only one candidate per level, never loses an
  extension of the plan.

  Main declarations:
    * `LoopInv`
    * `LoopInv.refreshAll`
    * `LoopInv.clearCandidate`
    * `planLoop_spec`
-/

-- Candidates

namespace Replicate

open FileInfo RestoreLevelCursor List Option

theorem le_of_restoreCandidateBetter {curr next}
    (hBetter : restoreCandidateBetter curr next = true) :
    curr.maxTXID ≤ next.maxTXID := by
  unfold restoreCandidateBetter at hBetter
  split at hBetter
  · exact Nat.le_of_lt (by simpa using hBetter)
  · rename_i hSame
    exact Nat.le_of_eq (not_not.mp hSame).symm

theorem le_of_not_restoreCandidateBetter {curr next}
    (hWorse : ¬ restoreCandidateBetter curr next = true) : next.maxTXID ≤ curr.maxTXID := by
  unfold restoreCandidateBetter at hWorse
  split at hWorse
  · exact Nat.le_of_not_lt (by simpa using hWorse)
  · rename_i hSame
    exact Nat.le_of_eq (not_not.mp hSame)

namespace RestoreLevelCursor

theorem offer_eq_some (candidate : Option FileInfo) (info : FileInfo) :
    ∃ g, offer candidate info = some g ∧ info.maxTXID ≤ g.maxTXID ∧
      (∀ best, candidate = some best → best.maxTXID ≤ g.maxTXID) ∧
      (g = info ∨ candidate = some g) := by
  cases candidate with
  | none => exact ⟨info, rfl, Nat.le_refl _, by simp, Or.inl rfl⟩
  | some best =>
    by_cases hBetter : restoreCandidateBetter best info
    · refine ⟨info, by simp [offer, hBetter], Nat.le_refl _, ?_, Or.inl rfl⟩
      intro b hb
      rw [← some.inj hb]
      exact le_of_restoreCandidateBetter hBetter
    refine ⟨best, by simp [offer, hBetter], le_of_not_restoreCandidateBetter hBetter, ?_,
      Or.inr rfl⟩
    intro b hb
    exact Nat.le_of_eq (by rw [some.inj hb])

theorem dropStale_eq_some {currentMax : Nat} {candidate g}
    (hDrop : dropStale currentMax candidate = some g) : candidate = some g := by
  cases candidate with
  | none => simp [dropStale] at hDrop
  | some best =>
    simp only [dropStale] at hDrop
    split at hDrop
    · simp at hDrop
    · exact hDrop

theorem le_of_dropStale_eq_none {currentMax : Nat} {best}
    (hDrop : dropStale currentMax (some best) = none) : best.maxTXID ≤ currentMax := by
  simp only [dropStale] at hDrop
  split at hDrop
  · rename_i hLe
    exact hLe
  · simp at hDrop

-- One Cursor

/-
  The cursor walks files of the family in the order of
  their first TXID, and its candidate extends the plan
  contiguously.
-/
structure Ok (family : FileInfo → Prop) (txID : Nat) (timestamp : Int)
    (currentMax : Nat) (c : RestoreLevelCursor) : Prop where
  unread_mem : ∀ f ∈ c.unread, family f
  unread_sorted : c.unread.Pairwise (fun f g => f.minTXID ≤ g.minTXID)
  candidate_mem : ∀ f, c.candidate = some f →
    family f ∧ Eligible txID timestamp f ∧ f.minTXID ≤ currentMax + 1
  done_unread : c.done = true → c.unread = []

/- The file is unread, or no better than the candidate. -/
def Pending (c : RestoreLevelCursor) (f : FileInfo) : Prop :=
  f ∈ c.unread ∨ ∃ g, c.candidate = some g ∧ f.maxTXID ≤ g.maxTXID

/- The cursor is finished or stops in front of a gap. -/
structure Settled (currentMax : Nat) (c : RestoreLevelCursor) : Prop where
  ready : c.done = true ∨ c.current.isSome = true
  gap : ∀ f ∈ c.unread, TXID.next currentMax < f.minTXID

section Refresh

variable {family : FileInfo → Prop} {currentMax txID : Nat} {timestamp : Int}

/- What the loop of `refresh` establishes. -/
theorem refreshLoop_spec {err files candidate c} (hMem : ∀ f ∈ files, family f)
    (hSorted : files.Pairwise (fun f g => f.minTXID ≤ g.minTXID))
    (hCand : ∀ f, candidate = some f → family f ∧ Eligible txID timestamp f ∧
      f.minTXID ≤ currentMax + 1)
    (hLoop : refreshLoop currentMax txID timestamp err files candidate = .ok c) :
    Ok family txID timestamp currentMax c ∧ Settled currentMax c ∧
      (∀ f, Eligible txID timestamp f → f ∈ files → f.maxTXID ≤ currentMax ∨ c.Pending f) ∧
      (∀ f g, candidate = some g → f.maxTXID ≤ g.maxTXID → c.Pending f) := by
  induction files generalizing candidate with
  | nil =>
    cases err with
    | some e => simp [refreshLoop] at hLoop
    | none =>
      simp only [refreshLoop, Except.ok.injEq] at hLoop
      subst hLoop
      refine ⟨⟨?_, ?_, hCand, ?_⟩, ?_, ?_, ?_⟩
      · simp [unread]
      · simp [unread]
      · simp [unread]
      · exact ⟨Or.inl rfl, by simp [unread]⟩
      · simp
      · intro f g hg hLe
        exact Or.inr ⟨g, hg, hLe⟩
  | cons info rest ih =>
    have hMemRest : ∀ f ∈ rest, family f := fun f hf => hMem f (mem_cons_of_mem info hf)
    have hSortedRest := (pairwise_cons.mp hSorted).2
    -- a file left behind is covered by the recursive call
    -- or is the head, which is dealt with in each branch
    have hSkip : ∀ {candidate : Option FileInfo}, (∀ f, candidate = some f →
      family f ∧ Eligible txID timestamp f ∧ f.minTXID ≤ currentMax + 1) →
        refreshLoop currentMax txID timestamp err rest candidate = .ok c →
        (Eligible txID timestamp info → info.maxTXID ≤ currentMax ∨ c.Pending info) →
        Ok family txID timestamp currentMax c ∧ Settled currentMax c ∧
          (∀ f, Eligible txID timestamp f → f ∈ info :: rest →
            f.maxTXID ≤ currentMax ∨ c.Pending f) ∧
          (∀ f g, candidate = some g → f.maxTXID ≤ g.maxTXID → c.Pending f) := by
      intro candidate hCand hRest hHead
      obtain ⟨hOk, hSettled, hFiles, hOld⟩ := ih hMemRest hSortedRest hCand hRest
      refine ⟨hOk, hSettled, ?_, hOld⟩
      intro f hElig hf
      rcases mem_cons.mp hf with rfl | hTail
      · exact hHead hElig
      · exact hFiles f hElig hTail
    simp only [refreshLoop] at hLoop
    split at hLoop
    · -- a gap: the head and everything after it stay unread
      rename_i hGap
      simp only [Except.ok.injEq] at hLoop
      subst hLoop
      refine ⟨⟨?_, ?_, hCand, ?_⟩, ?_, ?_, ?_⟩
      · simpa [unread] using hMem
      · simpa [unread] using hSorted
      · simp
      · refine ⟨Or.inr rfl, ?_⟩
        intro f hf
        have hf' : f ∈ info :: rest := by simpa [unread] using hf
        rcases mem_cons.mp hf' with rfl | hTail
        · exact hGap
        · exact Nat.lt_of_lt_of_le hGap ((pairwise_cons.mp hSorted).1 f hTail)
      · intro f _ hf
        exact Or.inr (Or.inl (by simpa [unread] using hf))
      · intro f g hg hLe
        exact Or.inr ⟨g, hg, hLe⟩
    · rename_i hNear
      split at hLoop
      · rename_i hOld
        exact hSkip hCand hLoop (fun _ => Or.inl hOld)
      split at hLoop
      · rename_i hIneligible
        exact hSkip hCand hLoop (fun hElig => absurd hElig hIneligible)
      rename_i hEligible
      obtain ⟨g, hOffer, hInfo, hBest, hFrom⟩ := offer_eq_some candidate info
      have hMin : info.minTXID ≤ currentMax + 1 :=
        Nat.le_trans (Nat.le_of_not_lt hNear) (TXID.next_le currentMax)
      have hCand' : ∀ f, offer candidate info = some f →
        family f ∧ Eligible txID timestamp f ∧ f.minTXID ≤ currentMax + 1 := by
        intro f hf
        rw [hOffer, some.injEq] at hf
        subst hf
        rcases hFrom with rfl | hHeld
        · exact ⟨hMem g mem_cons_self, not_not.mp hEligible, hMin⟩
        · exact hCand g hHeld
      obtain ⟨_, _, _, hOffered⟩ := ih hMemRest hSortedRest hCand' hLoop
      obtain ⟨hOk, hSettled, hFiles, hKeep⟩ :=
        hSkip hCand' hLoop (fun _ => Or.inr (hOffered info g hOffer hInfo))
      refine ⟨hOk, hSettled, hFiles, ?_⟩
      intro f b hb hLe
      exact hKeep f g hOffer (Nat.le_trans hLe (hBest b hb))

theorem Ok.refresh {c c'} (hOk : Ok family txID timestamp currentMax c)
    (hRefresh : c.refresh currentMax txID timestamp = .ok c') :
    Ok family txID timestamp currentMax c' ∧ Settled currentMax c' ∧
      (∀ f, Eligible txID timestamp f → c.Pending f → f.maxTXID ≤ currentMax ∨ c'.Pending f) := by
  unfold RestoreLevelCursor.refresh at hRefresh
  split at hRefresh
  · rename_i hDone
    simp only [Except.ok.injEq] at hRefresh
    subst hRefresh
    refine ⟨hOk, ⟨Or.inl hDone, ?_⟩, fun f _ hPending => Or.inr hPending⟩
    intro f hf
    rw [hOk.done_unread hDone] at hf
    simp at hf
  · have hCand : ∀ f, dropStale currentMax c.candidate = some f →
      family f ∧ Eligible txID timestamp f ∧ f.minTXID ≤ currentMax + 1 :=
      fun f hf => hOk.candidate_mem f (dropStale_eq_some hf)
    obtain ⟨hOk', hSettled, hFiles, hHeld⟩ :=
      refreshLoop_spec hOk.unread_mem hOk.unread_sorted hCand hRefresh
    refine ⟨hOk', hSettled, ?_⟩
    rintro f hElig (hUnread | ⟨g, hg, hLe⟩)
    · exact hFiles f hElig hUnread
    · cases hDrop : dropStale currentMax c.candidate with
      | none =>
        rw [hg] at hDrop
        exact Or.inl (Nat.le_trans hLe (le_of_dropStale_eq_none hDrop))
      | some b =>
        have hEq := dropStale_eq_some hDrop
        rw [hg, some.injEq] at hEq
        subst hEq
        exact Or.inr (hHeld f g hDrop hLe)

end Refresh

end RestoreLevelCursor

-- All Cursors

section Loop

variable {family : FileInfo → Prop} {currentMax txID : Nat} {timestamp : Int}
variable {cursors cursors' : List RestoreLevelCursor}

/-
  The invariant of the main loop: an eligible file past the
  end of the plan is still pending in some cursor.
-/
structure LoopInv (family : FileInfo → Prop) (txID : Nat) (timestamp : Int)
    (currentMax : Nat) (cursors : List RestoreLevelCursor) : Prop where
  cursors_ok : ∀ c ∈ cursors, c.Ok family txID timestamp currentMax
  pending : ∀ f, family f → Eligible txID timestamp f →
    f.maxTXID ≤ currentMax ∨ ∃ c ∈ cursors, c.Pending f

/- Refreshing keeps the invariant and settles all cursors. -/
theorem LoopInv.refreshAll (hInv : LoopInv family txID timestamp currentMax cursors)
    (hRefresh : refreshAll currentMax txID timestamp cursors = .ok cursors') :
    LoopInv family txID timestamp currentMax cursors' ∧ ∀ c ∈ cursors', c.Settled currentMax := by
  refine ⟨⟨?_, ?_⟩, ?_⟩
  · intro c' hc'
    rcases Traversal.exists_of_mem_result hRefresh hc' with ⟨c, hc, hRef⟩
    exact ((hInv.cursors_ok c hc).refresh hRef).1
  · intro f hFamily hElig
    rcases hInv.pending f hFamily hElig with hOld | ⟨c, hc, hPending⟩
    · exact Or.inl hOld
    rcases Traversal.exists_result_of_mem hRefresh hc with ⟨c', hc', hRef⟩
    rcases ((hInv.cursors_ok c hc).refresh hRef).2.2 f hElig hPending with hOld | hPending'
    · exact Or.inl hOld
    · exact Or.inr ⟨c', hc', hPending'⟩
  · intro c' hc'
    rcases Traversal.exists_of_mem_result hRefresh hc' with ⟨c, hc, hRef⟩
    exact ((hInv.cursors_ok c hc).refresh hRef).2.1

/-
  Taking the candidate of a cursor keeps the invariant for
  any plan end past it: what it dominated is now covered.
-/
theorem LoopInv.clearCandidate {next : Nat} {i : Nat} {c info}
    (hInv : LoopInv family txID timestamp currentMax cursors) (hGet : cursors[i]? = some c)
    (hCand : c.candidate = some info) (hLe : currentMax ≤ next) (hInfo : info.maxTXID ≤ next) :
    LoopInv family txID timestamp next (clearCandidate i cursors) := by
  constructor
  · intro d hd
    rcases mem_clearCandidate hd with ⟨b, hb, hEq⟩
    have hOk := hInv.cursors_ok b hb
    rcases hEq with rfl | rfl
    · refine ⟨hOk.unread_mem, hOk.unread_sorted, ?_, hOk.done_unread⟩
      intro f hf
      obtain ⟨hFam, hElig, hMin⟩ := hOk.candidate_mem f hf
      exact ⟨hFam, hElig, Nat.le_trans hMin (Nat.succ_le_succ hLe)⟩
    · exact ⟨hOk.unread_mem, hOk.unread_sorted, by simp, hOk.done_unread⟩
  · intro f hFamily hElig
    rcases hInv.pending f hFamily hElig with hOld | ⟨d, hd, hPending⟩
    · exact Or.inl (Nat.le_trans hOld hLe)
    rcases mem_clearCandidate_of_mem (i := i) hd with hKept | ⟨hGetD, hCleared⟩
    · exact Or.inr ⟨d, hKept, hPending⟩
    rcases hPending with hUnread | ⟨g, hg, hDom⟩
    · exact Or.inr ⟨_, hCleared, Or.inl hUnread⟩
    · have hSame : d = c := by
        rw [hGet] at hGetD
        exact (some.inj hGetD).symm
      rw [hSame, hCand, some.injEq] at hg
      rw [← hg] at hDom
      exact Or.inl (Nat.le_trans hDom hInfo)

/- All cursors are settled and none has a candidate. -/
structure Exhausted (family : FileInfo → Prop) (txID : Nat) (timestamp : Int)
    (s : PlanState) : Prop where
  inv : LoopInv family txID timestamp s.currentMax s.cursors
  no_candidate : ∀ c ∈ s.cursors, c.candidate = none
  settled : ∀ c ∈ s.cursors, c.Settled s.currentMax

/- Why the loop stopped. -/
def Finished (family : FileInfo → Prop) (txID : Nat) (timestamp : Int) (s : PlanState) : Prop :=
  (txID ≠ 0 ∧ txID ≤ s.currentMax) ∨ Exhausted family txID timestamp s

/-
  A whole run of the loop extends the plan by a chain of
  eligible files of the family, and stops as `Finished`
  says.
-/
theorem planLoop_spec {fuel : Nat} {s s'} (hInv :
    LoopInv family txID timestamp s.currentMax s.cursors)
    (hRun : planLoop txID timestamp fuel s = some (.ok s')) :
    Finished family txID timestamp s' ∧ ∃ ext, s'.infos = s.infos ++ ext ∧
      IntervalChain.IsChain minTXID maxTXID s.currentMax ext ∧
      s'.currentMax = IntervalChain.reach maxTXID s.currentMax ext ∧
      ∀ f ∈ ext, family f ∧ Eligible txID timestamp f := by
  induction fuel generalizing s with
  | zero => simp [planLoop] at hRun
  | succ fuel ih =>
    simp only [planLoop] at hRun
    cases hRefresh : Replicate.refreshAll s.currentMax txID timestamp s.cursors with
    | error err => simp [hRefresh] at hRun
    | ok cursors =>
      simp only [hRefresh] at hRun
      obtain ⟨hInv', hSettled⟩ := hInv.refreshAll hRefresh
      cases hSelect : selectNext cursors 0 none with
      | none =>
        simp only [hSelect, some.injEq, Except.ok.injEq] at hRun
        subst hRun
        have hNone := (candidate_eq_none_of_selectNext_eq_none hSelect).2
        exact ⟨Or.inr ⟨hInv', hNone, hSettled⟩, [], by simp⟩
      | some chosen =>
        obtain ⟨i, info⟩ := chosen
        simp only [hSelect] at hRun
        obtain ⟨c, hGet, hCand⟩ : ∃ c, cursors[i]? = some c ∧ c.candidate = some info := by
          rcases selectNext_eq_some hSelect with hNone | ⟨k, c, hi, hGet, hCand⟩
          · simp at hNone
          · rw [Nat.zero_add] at hi
            subst hi
            exact ⟨c, hGet, hCand⟩
        split at hRun
        · -- a stale candidate of a finished cursor
          rename_i hStale
          exact ih (s := ⟨s.infos, s.currentMax, Replicate.clearCandidate i cursors⟩)
            (hInv'.clearCandidate hGet hCand (Nat.le_refl _) hStale) hRun
        rename_i hAdvance
        have hLt : s.currentMax < info.maxTXID := Nat.lt_of_not_le hAdvance
        obtain ⟨hFam, hElig, hMin⟩ :=
          (hInv'.cursors_ok c (mem_of_getElem? hGet)).candidate_mem info hCand
        split at hRun
        · rename_i hTarget
          simp only [some.injEq, Except.ok.injEq] at hRun
          subst hRun
          refine ⟨Or.inl hTarget, [info], rfl, ?_, rfl, ?_⟩
          · exact ⟨hMin, hLt, trivial⟩
          · intro f hf
            rw [mem_singleton.mp hf]
            exact ⟨hFam, hElig⟩
        · obtain ⟨hFin, ext, hInfos, hChain, hReach, hExt⟩ :=
            ih (hInv'.clearCandidate hGet hCand (Nat.le_of_lt hLt) (Nat.le_refl _)) hRun
          refine ⟨hFin, info :: ext, ?_, ?_, hReach, ?_⟩
          · rw [hInfos]
            simp
          · exact ⟨hMin, hLt, hChain⟩
          · intro f hf
            rcases mem_cons.mp hf with rfl | hTail
            · exact ⟨hFam, hElig⟩
            · exact hExt f hTail

namespace Exhausted

variable {s : PlanState}

theorem le_or_mem_unread (hEx : Exhausted family txID timestamp s) {f} (hFam : family f)
    (hElig : Eligible txID timestamp f) :
    f.maxTXID ≤ s.currentMax ∨ ∃ c ∈ s.cursors, f ∈ c.unread := by
  rcases hEx.inv.pending f hFam hElig with hOld | ⟨c, hc, hUnread | ⟨g, hg, _⟩⟩
  · exact Or.inl hOld
  · exact Or.inr ⟨c, hc, hUnread⟩
  · rw [hEx.no_candidate c hc] at hg
    simp at hg

theorem stuck (hEx : Exhausted family txID timestamp s) (hBound : s.currentMax + 1 < TXID.bound) :
    IntervalChain.Stuck minTXID maxTXID (fun f => family f ∧ Eligible txID timestamp f)
      s.currentMax := by
  rintro f ⟨hFam, hElig⟩ hMin
  rcases hEx.le_or_mem_unread hFam hElig with hOld | ⟨c, hc, hUnread⟩
  · exact hOld
  · have hGap := (hEx.settled c hc).gap f hUnread
    rw [TXID.next_eq hBound] at hGap
    exact absurd hGap (Nat.not_lt.mpr hMin)

end Exhausted

-- The Contiguity Check

/-
  Over settled cursors the check after the loop succeeds
  exactly when no file is left unread. It reads nothing, so
  its only error is its own.
-/
theorem checkContiguous_of_settled (hOk : ∀ c ∈ cursors, c.Ok family txID timestamp currentMax)
    (hSettled : ∀ c ∈ cursors, c.Settled currentMax) :
    (checkContiguous currentMax cursors = .ok () ∧ ∀ c ∈ cursors, c.unread = []) ∨
    (∃ msg, checkContiguous currentMax cursors = .error (.text msg) ∧
      ∃ c ∈ cursors, ∃ f ∈ c.unread, TXID.next currentMax < f.minTXID) := by
  induction cursors with
  | nil => exact Or.inl ⟨rfl, by simp⟩
  | cons c cs ih =>
    have hReady := (hSettled c mem_cons_self).ready
    have hCurrent : c.ensureCurrent = .ok c := by
      rcases hReady with hDone | hSome
      · simp [ensureCurrent, hDone]
      · simp [ensureCurrent, hSome]
    simp only [checkContiguous, hCurrent, bind, Except.bind]
    cases hHead : c.current with
    | some info =>
      have hMem : info ∈ c.unread := by simp [unread, hHead]
      have hGap := (hSettled c mem_cons_self).gap info hMem
      simp only [if_pos hGap]
      exact Or.inr ⟨_, rfl, c, mem_cons_self, info, hMem, hGap⟩
    | none =>
      have hEmpty : c.unread = [] := by
        rcases hReady with hDone | hSome
        · exact (hOk c mem_cons_self).done_unread hDone
        · simp [hHead] at hSome
      rcases ih (fun d hd => hOk d (mem_cons_of_mem c hd)) (fun d hd =>
        hSettled d (mem_cons_of_mem c hd)) with
        ⟨hRest, hAll⟩ | ⟨msg, hRest, d, hd, hGap⟩
      · refine Or.inl ⟨hRest, ?_⟩
        intro d hd
        rcases mem_cons.mp hd with rfl | hTail
        · exact hEmpty
        · exact hAll d hTail
      · exact Or.inr ⟨msg, hRest, d, mem_cons_of_mem c hd, hGap⟩

end Loop

end Replicate
