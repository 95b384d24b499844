import Mathlib.Data.List.Induction
import Replicate.LTX.Store
import Replicate.Restore.PlannerInvariant

/-
  Correctness of `calcRestorePlan`.

  `calcRestorePlan_cases` describes every outcome of the
  planner for an arbitrary listing. The main theorem says
  that over a well-formed replica the planner terminates,
  is sound, and is complete.

  Main declarations:
    * `calcRestorePlan_cases`
    * `finishPlan_cases`
    * `Content.IsPlan`
    * `calcRestorePlan_sound_complete`
-/

-- The Snapshot

namespace Replicate

open FileInfo IntervalChain RestoreLevelCursor Option

theorem maxTXIDOf_eq_reach (infos : List FileInfo) : maxTXIDOf infos = reach maxTXID 0 infos := by
  rcases List.eq_nil_or_concat infos with rfl | ⟨xs, x, rfl⟩
  · rfl
  · simp [maxTXIDOf]

theorem maxTXIDOf_append (xs ys : List FileInfo) : maxTXIDOf (xs ++ ys) =
    reach maxTXID (maxTXIDOf xs) ys := by
  rw [maxTXIDOf_eq_reach, maxTXIDOf_eq_reach, reach_append]

section Snapshot

variable {txID : Nat} {timestamp : Int} {items : List FileInfo}

theorem findSnapshot_append_singleton (items : List FileInfo) (info : FileInfo) :
    findSnapshot txID timestamp (items ++ [info]) = if Eligible txID timestamp info then
      some info
      else findSnapshot txID timestamp items := by
  simp [findSnapshot]

theorem findSnapshot_eq_none (hNone : findSnapshot txID timestamp items = none) :
    ∀ f ∈ items, ¬ Eligible txID timestamp f := by
  induction items using List.reverseRecOn with
  | nil => simp
  | append_singleton items info ih =>
    rw [findSnapshot_append_singleton] at hNone
    split at hNone
    · simp at hNone
    rename_i hIneligible
    intro f hf
    rcases List.mem_append.mp hf with hInit | hLast
    · exact ih hNone f hInit
    · rw [List.mem_singleton.mp hLast]
      exact hIneligible

theorem findSnapshot_mem {info} (hSome : findSnapshot txID timestamp items = some info) :
    info ∈ items ∧ Eligible txID timestamp info := by
  induction items using List.reverseRecOn with
  | nil => simp [findSnapshot] at hSome
  | append_singleton items last ih =>
    rw [findSnapshot_append_singleton] at hSome
    split at hSome
    · rename_i hEligible
      rw [some.injEq] at hSome
      subst hSome
      exact ⟨by simp, hEligible⟩
    · obtain ⟨hMem, hElig⟩ := ih hSome
      exact ⟨List.mem_append_left _ hMem, hElig⟩

theorem findSnapshot_greatest {info} (hSorted : items.Pairwise (fun f g => f.maxTXID ≤ g.maxTXID))
    (hSome : findSnapshot txID timestamp items = some info) {f} (hMem : f ∈ items)
    (hElig : Eligible txID timestamp f) : f.maxTXID ≤ info.maxTXID := by
  induction items using List.reverseRecOn with
  | nil => simp at hMem
  | append_singleton items last ih =>
    obtain ⟨hInit, _, hCross⟩ := List.pairwise_append.mp hSorted
    rw [findSnapshot_append_singleton] at hSome
    rcases List.mem_append.mp hMem with hOld | hLast
    · split at hSome
      · rw [some.injEq] at hSome
        subst hSome
        exact hCross f hOld last (List.mem_singleton_self _)
      · exact ih hInit hSome hOld
    · rw [List.mem_singleton.mp hLast] at hElig ⊢
      rw [if_pos hElig, some.injEq] at hSome
      exact Nat.le_of_eq (by rw [hSome])

end Snapshot

-- Outcomes For Any Listing

namespace Listing

/- The file is delivered by the iterator of a level 0 to 8. -/
def Walks (files : Listing) (f : FileInfo) : Prop :=
  ∃ level < snapshotLevel, ∃ itr, files level = .ok itr ∧ f ∈ itr.items

/- Each level from 0 to 8 is listed by its first TXID. -/
def Sorted (files : Listing) : Prop :=
  ∀ level < snapshotLevel, ∀ itr, files level = .ok itr →
    itr.items.Pairwise (fun f g => f.minTXID ≤ g.minTXID)

/- The error was raised by listing, or reading, a level. -/
def Fails (files : Listing) (e : Err) : Prop :=
  ∃ level ≤ snapshotLevel, files level = .error e ∨ ∃ itr, files level = .ok itr ∧ itr.err = some e

end Listing

section Outcomes

variable {files : Listing} {txID : Nat} {timestamp : Int}
variable {cursors : List RestoreLevelCursor} {s : PlanState} {plan : List FileInfo}

theorem loopInv_openCursors (hSorted : files.Sorted) (hOpen : openCursors files = .ok cursors)
    (currentMax : Nat) : LoopInv files.Walks txID timestamp currentMax cursors := by
  constructor
  · intro c hc
    rcases (mem_openCursors_iff hOpen c).mp hc with ⟨level, hLevel, itr, hItr, rfl⟩
    refine ⟨?_, ?_, by simp [ofIterator], by simp [ofIterator]⟩
    · intro f hf
      exact ⟨level, hLevel, itr, hItr, by simpa [unread, ofIterator] using hf⟩
    · simpa [unread, ofIterator] using hSorted level hLevel itr hItr
  · rintro f ⟨level, hLevel, itr, hItr, hMem⟩ _
    exact Or.inr ⟨ofIterator itr, (mem_openCursors_iff hOpen _).mpr ⟨level, hLevel, itr, hItr, rfl⟩,
      Or.inl (by simpa [unread, ofIterator] using hMem)⟩

/- The files chosen before the loop: the snapshot, if any. -/
def startPlan (txID : Nat) (timestamp : Int) (snapshots : List FileInfo) : List FileInfo :=
  (findSnapshot txID timestamp snapshots).toList

/-
  The state the planner ends its loop in: the plan so far
  is the snapshot followed by a chain of eligible files.
-/
structure Planned (files : Listing) (txID : Nat) (timestamp : Int)
    (snapshots : List FileInfo) (ext : List FileInfo) (s : PlanState) : Prop where
  infos_eq : s.infos = startPlan txID timestamp snapshots ++ ext
  chain : IsChain minTXID maxTXID (maxTXIDOf (startPlan txID timestamp snapshots)) ext
  ext_mem : ∀ f ∈ ext, files.Walks f ∧ Eligible txID timestamp f
  currentMax_eq : s.currentMax = maxTXIDOf s.infos
  finished : Finished files.Walks txID timestamp s

/-
  The cursors the loop ends with, one for each level. Those
  that are done did not fail.
-/
structure Listing.Read (files : Listing) (s : PlanState) : Prop where
  levels : ∀ level < snapshotLevel, ∃ itr, files level = .ok itr ∧
    ∃ c ∈ s.cursors, c.itr.err = itr.err
  done : ∀ c ∈ s.cursors, c.done = true → c.itr.err = none

theorem read_of_planLoop (hOpen : openCursors files = .ok cursors) {infos} {currentMax fuel : Nat}
    (hLoop : planLoop txID timestamp fuel ⟨infos, currentMax, cursors⟩ = some (.ok s)) :
    files.Read s := by
  have hFresh : ∀ c ∈ cursors, c.done = true → c.itr.err = none := by
    intro c hc hDone
    rcases (mem_openCursors_iff hOpen c).mp hc with ⟨_, _, _, _, rfl⟩
    cases hDone
  rcases planLoop_errs hFresh hLoop with ⟨hDone, hKept⟩
  refine ⟨?_, hDone⟩
  intro level hLevel
  rcases exists_itr_of_openCursors hOpen hLevel with ⟨itr, hItr⟩
  have hMem := (mem_openCursors_iff hOpen (ofIterator itr)).mpr ⟨level, hLevel, itr, hItr, rfl⟩
  exact ⟨itr, hItr, hKept _ hMem⟩

/-
  Every outcome of the planner: a listing fails, or its
  loop ends and `finishPlan` decides.
-/
theorem calcRestorePlan_cases (hSorted : files.Sorted) (hTarget : ¬ (txID ≠ 0 ∧ timestamp ≠ 0)) :
    (∃ e, calcRestorePlan files txID timestamp = .error e ∧ files.Fails e) ∨
    (∃ itr ext s, files snapshotLevel = .ok itr ∧ Planned files txID timestamp itr.items ext s ∧
      (txID = 0 → files.Read s) ∧
      calcRestorePlan files txID timestamp = finishPlan txID timestamp s) := by
  have hRun := calcRestorePlanFuel_eq files txID timestamp (Nat.le_refl _)
  generalize planFuel files = fuel at hRun
  unfold calcRestorePlanFuel at hRun
  rw [if_neg hTarget] at hRun
  cases hSnap : files snapshotLevel with
  | error e =>
    simp only [hSnap, some.injEq] at hRun
    exact Or.inl ⟨e, hRun.symm, snapshotLevel, Nat.le_refl _, Or.inl hSnap⟩
  | ok itr =>
    simp only [hSnap] at hRun
    cases hErr : itr.err with
    | some e =>
      simp only [hErr, some.injEq] at hRun
      exact Or.inl ⟨e, hRun.symm, snapshotLevel, Nat.le_refl _, Or.inr ⟨itr, hSnap, hErr⟩⟩
    | none =>
      simp only [hErr] at hRun
      change (if txID ≠ 0 ∧ txID ≤ maxTXIDOf (startPlan txID timestamp itr.items)
        then some (Except.ok (startPlan txID timestamp itr.items))
        else _) = _ at hRun
      split at hRun
      · -- the snapshot alone reaches the target
        rename_i hReached
        rw [some.injEq] at hRun
        refine Or.inr ⟨itr, [], ⟨startPlan txID timestamp itr.items,
          maxTXIDOf (startPlan txID timestamp itr.items), []⟩,
            rfl,
            ⟨by simp, trivial, by simp, rfl, Or.inl hReached⟩,
            fun hZero => absurd hZero hReached.1, ?_⟩
        have hNonempty : startPlan txID timestamp itr.items ≠ [] := by
          intro hEmpty
          rw [hEmpty] at hReached
          exact hReached.1 (Nat.le_zero.mp hReached.2)
        rw [← hRun]
        simp [finishPlan, hNonempty, hReached.1, Nat.not_lt.mpr hReached.2]
      · cases hOpen : openCursors files with
        | error e =>
          simp only [hOpen, some.injEq] at hRun
          rcases openCursors_error hOpen with ⟨level, hLevel, hEq⟩
          exact Or.inl ⟨e, hRun.symm, level, Nat.le_of_lt hLevel, Or.inl hEq⟩
        | ok cursors =>
          simp only [hOpen] at hRun
          generalize hStart : PlanState.mk _ _ _ = s₀ at hRun
          have hInv : LoopInv files.Walks txID timestamp s₀.currentMax s₀.cursors := by
            rw [← hStart]
            exact loopInv_openCursors hSorted hOpen _
          cases hLoop : planLoop txID timestamp fuel s₀ with
          | none => simp [hLoop] at hRun
          | some out =>
            cases out with
            | error e =>
              simp only [hLoop, some.injEq] at hRun
              rcases planLoop_error hLoop with ⟨c, hc, hErrC⟩
              rw [← hStart] at hc
              rcases (mem_openCursors_iff hOpen c).mp hc with ⟨level, hLevel, itr', hItr, rfl⟩
              exact Or.inl ⟨e, hRun.symm, level, Nat.le_of_lt hLevel, Or.inr ⟨itr', hItr, hErrC⟩⟩
            | ok s =>
              simp only [hLoop, some.injEq] at hRun
              obtain ⟨hFin, ext, hInfos, hChain, hReach, hExt⟩ := planLoop_spec hInv hLoop
              subst hStart
              refine Or.inr ⟨itr, ext, s, rfl, ⟨hInfos, hChain, hExt, ?_, hFin⟩,
                fun _ => read_of_planLoop hOpen hLoop, hRun.symm⟩
              rw [hReach, hInfos, maxTXIDOf_append]

/-
  Every outcome of the part after the loop. `txNotAvailable`
  means that there is no plan at all or that it ends below
  the target.
-/
theorem finishPlan_cases {snapshots ext} (hPlanned : Planned files txID timestamp snapshots ext s) :
    (finishPlan txID timestamp s = .error (.sentinel .txNotAvailable) ∧
      (s.infos = [] ∨ (txID ≠ 0 ∧ maxTXIDOf s.infos < txID))) ∨
    (∃ msg, finishPlan txID timestamp s = .error (.text msg) ∧
      s.infos ≠ [] ∧ txID = 0 ∧ timestamp = 0 ∧
      ∃ c ∈ s.cursors, ∃ f ∈ c.unread, TXID.next s.currentMax < f.minTXID) ∨
    (finishPlan txID timestamp s = .ok s.infos ∧ s.infos ≠ [] ∧
      (txID ≠ 0 → txID ≤ maxTXIDOf s.infos) ∧
      (txID = 0 → timestamp = 0 → ∀ c ∈ s.cursors, c.unread = [])) := by
  by_cases hEmpty : s.infos = []
  · refine Or.inl ⟨?_, Or.inl hEmpty⟩
    simp [finishPlan, hEmpty]
  by_cases hNoTarget : txID = 0 ∧ timestamp = 0
  · obtain ⟨rfl, rfl⟩ := hNoTarget
    have hEx : Exhausted files.Walks 0 0 s := by
      rcases hPlanned.finished with hReached | hEx
      · exact absurd rfl hReached.1
      · exact hEx
    rcases checkContiguous_of_settled hEx.inv.cursors_ok hEx.settled with
      ⟨hCheck, hAll⟩ | ⟨msg, hCheck, hGap⟩
    · refine Or.inr (Or.inr ⟨?_, hEmpty, by simp, fun _ _ => hAll⟩)
      simp [finishPlan, hEmpty, hCheck, bind, Except.bind]
    · refine Or.inr (Or.inl ⟨msg, ?_, hEmpty, rfl, rfl, hGap⟩)
      simp [finishPlan, hEmpty, hCheck, bind, Except.bind]
  · have hSkip : ¬ (s.infos ≠ [] ∧ txID = 0 ∧ timestamp = 0) := fun hAll => hNoTarget hAll.2
    by_cases hShort : txID ≠ 0 ∧ maxTXIDOf s.infos < txID
    · refine Or.inl ⟨?_, Or.inr hShort⟩
      unfold finishPlan
      simp only [if_neg hSkip, if_neg hEmpty, if_pos hShort]
    refine Or.inr (Or.inr ⟨?_, hEmpty, ?_, ?_⟩)
    · unfold finishPlan
      simp only [if_neg hSkip, if_neg hEmpty, if_neg hShort]
    · intro hTarget
      exact Nat.le_of_not_lt (fun hLt => hShort ⟨hTarget, hLt⟩)
    · intro hTx hTime
      exact absurd ⟨hTx, hTime⟩ hNoTarget

theorem finishPlan_ok {snapshots ext plan} (hPlanned : Planned files txID timestamp snapshots ext s)
    (hPlan : .ok plan = finishPlan txID timestamp s) :
    plan = s.infos ∧ plan ≠ [] ∧ (txID ≠ 0 → txID ≤ maxTXIDOf plan) ∧
      (txID = 0 → timestamp = 0 → ∀ c ∈ s.cursors, c.unread = []) := by
  rcases finishPlan_cases hPlanned with ⟨hError, _⟩ | ⟨msg, hError, _⟩ | ⟨hOk, hRest⟩
  · cases hPlan.trans hError
  · cases hPlan.trans hError
  · cases hPlan.trans hOk
    exact ⟨rfl, hRest⟩

theorem calcRestorePlan_both (hBoth : txID ≠ 0 ∧ timestamp ≠ 0) :
    calcRestorePlan files txID timestamp = .error (.text
      "cannot specify both TXID & timestamp to restore") := by
  have hRun := calcRestorePlanFuel_eq files txID timestamp (Nat.le_refl _)
  unfold calcRestorePlanFuel at hRun
  rw [if_pos hBoth] at hRun
  exact (some.inj hRun).symm

/- What is known of a plan that is returned. -/
theorem calcRestorePlan_ok (hSorted : files.Sorted)
    (hPlan : calcRestorePlan files txID timestamp = .ok plan) :
    ∃ itr ext s, files snapshotLevel = .ok itr ∧ Planned files txID timestamp itr.items ext s ∧
      (txID = 0 → files.Read s) ∧ plan = s.infos ∧ plan ≠ [] ∧
      (txID ≠ 0 → txID ≤ maxTXIDOf plan) ∧
      (txID = 0 → timestamp = 0 → ∀ c ∈ s.cursors, c.unread = []) := by
  by_cases hBoth : txID ≠ 0 ∧ timestamp ≠ 0
  · cases hPlan.symm.trans (calcRestorePlan_both hBoth)
  rcases calcRestorePlan_cases hSorted hBoth with
    ⟨e, hError, _⟩ | ⟨itr, ext, s, hItr, hPlanned, hRead, hCalc⟩
  · cases hPlan.symm.trans hError
  · exact ⟨itr, ext, s, hItr, hPlanned, hRead, finishPlan_ok hPlanned (hPlan.symm.trans hCalc)⟩

/-
  A plan without a target is returned only if every level
  was listed to its end, and it gets past all their files.
-/
theorem calcRestorePlan_reads (hSorted : files.Sorted)
    (hPlan : calcRestorePlan files 0 0 = .ok plan) :
    (∀ level < snapshotLevel, ∃ itr, files level = .ok itr ∧ itr.err = none) ∧
    ∀ f, files.Walks f → f.maxTXID ≤ maxTXIDOf plan := by
  rcases calcRestorePlan_ok hSorted hPlan with ⟨itr, ext, s, _, hPlanned, hRead, rfl, _, _, hAll⟩
  have hEx : Exhausted files.Walks 0 0 s := by
    rcases hPlanned.finished with hReached | hEx
    · exact absurd rfl hReached.1
    · exact hEx
  have hEmpty := hAll rfl rfl
  constructor
  · intro level hLevel
    rcases (hRead rfl).levels level hLevel with ⟨itr', hItr, c, hc, hErr⟩
    refine ⟨itr', hItr, ?_⟩
    rw [← hErr]
    apply (hRead rfl).done c hc
    rcases (hEx.settled c hc).ready with hDone | hCurrent
    · exact hDone
    -- a current file would be unread
    have hNil := hEmpty c hc
    cases hIs : c.current with
    | none => simp [hIs] at hCurrent
    | some f => simp [unread, hIs] at hNil
  · intro f hWalks
    rw [← hPlanned.currentMax_eq]
    rcases hEx.le_or_mem_unread hWalks (by simp [Eligible]) with hLe | ⟨c, hc, hUnread⟩
    · exact hLe
    · rw [hEmpty c hc] at hUnread
      cases hUnread

/- The file is delivered by the listing of a level 0 to 9. -/
def Listing.Delivers (files : Listing) (f : FileInfo) : Prop :=
  ∃ level ≤ snapshotLevel, ∃ itr, files level = .ok itr ∧ f ∈ itr.items

/-
  What every returned plan is, for any listing: a chain of
  eligible files from the start of the history.
-/
theorem calcRestorePlan_isChain (hSorted : files.Sorted)
    (hSnapshots : ∀ itr, files snapshotLevel = .ok itr → ∀ f ∈ itr.items, f.minTXID ≤ 1 ∧ 0 <
      f.maxTXID) (hPlan : calcRestorePlan files txID timestamp = .ok plan) :
    plan ≠ [] ∧ IsChain minTXID maxTXID 0 plan ∧
      (∀ f ∈ plan, files.Delivers f ∧ Eligible txID timestamp f) ∧
      (txID ≠ 0 → txID ≤ maxTXIDOf plan) := by
  rcases calcRestorePlan_ok hSorted hPlan with
    ⟨itr, ext, s, hItr, hPlanned, _, rfl, hNonempty, hLe, _⟩
  refine ⟨hNonempty, ?_, ?_, hLe⟩
  · rw [hPlanned.infos_eq, isChain_append]
    refine ⟨?_, ?_⟩
    · unfold startPlan
      cases hFind : findSnapshot txID timestamp itr.items with
      | none => exact trivial
      | some sn =>
        have hMem := (findSnapshot_mem hFind).1
        have hRange := hSnapshots itr hItr sn hMem
        exact ⟨hRange.1, hRange.2, trivial⟩
    · rw [← maxTXIDOf_eq_reach]
      exact hPlanned.chain
  · intro f hf
    rw [hPlanned.infos_eq] at hf
    rcases List.mem_append.mp hf with hStart | hExt
    · have hFind : findSnapshot txID timestamp itr.items = some f := by
        simpa [startPlan] using hStart
      rcases findSnapshot_mem hFind with ⟨hMem, hElig⟩
      exact ⟨⟨snapshotLevel, Nat.le_refl _, itr, hItr, hMem⟩, hElig⟩
    · rcases hPlanned.ext_mem f hExt with ⟨⟨level, hLevel, itr', hItr', hMem⟩, hElig⟩
      exact ⟨⟨level, Nat.le_of_lt hLevel, itr', hItr', hMem⟩, hElig⟩

end Outcomes

-- Replica Contents

namespace Content

variable {f : FileInfo}

/- Listing a content without any error. -/
def listing (content : Content) : Listing :=
  fun level => .ok ⟨content level, none⟩

/- The file is listed at one of the levels 0 to 9. -/
def Listed (content : Content) (f : FileInfo) : Prop :=
  ∃ level ≤ snapshotLevel, f ∈ content level

/-
  Each level from 0 to 8 is listed by its TXID range,
  ranges are proper, and the snapshots start at TXID 1 and
  are listed by their end.
-/
structure WellListed (content : Content) : Prop where
  levels_sorted : ∀ level < snapshotLevel, (content level).Pairwise (fun f g =>
    f.minTXID < g.minTXID ∨ (f.minTXID = g.minTXID ∧ f.maxTXID ≤ g.maxTXID))
  range : ∀ f, content.Listed f → 1 ≤ f.minTXID ∧ f.minTXID ≤ f.maxTXID ∧ f.maxTXID < TXID.bound
  snapshot_min : ∀ f ∈ content snapshotLevel, f.minTXID = 1
  snapshots_sorted : (content snapshotLevel).Pairwise (fun f g => f.maxTXID ≤ g.maxTXID)

/- The file does not exceed the target, if there is one. -/
def NotAbove (txID : Nat) (f : FileInfo) : Prop :=
  txID = 0 ∨ f.maxTXID ≤ txID

/-
  The snapshot that reaches farthest without exceeding the
  target, or without any such snapshot a file from TXID 1.
-/
def IsStart (content : Content) (txID : Nat) (f : FileInfo) : Prop :=
  (f ∈ content snapshotLevel ∧ NotAbove txID f ∧
    ∀ g ∈ content snapshotLevel, NotAbove txID g → g.maxTXID ≤ f.maxTXID) ∨
  ((∀ g ∈ content snapshotLevel, ¬ NotAbove txID g) ∧ content.Listed f ∧ f.minTXID = 1)

/-
  The shape of a restore plan: it begins with a start file,
  each later file continues the previous one and ends
  strictly later, and no file exceeds the target.
-/
def IsPlan (content : Content) (txID : Nat) (plan : List FileInfo) : Prop :=
  ∃ f rest, plan = f :: rest ∧ content.IsStart txID f ∧ IsChain minTXID maxTXID f.maxTXID rest ∧
    ∀ g ∈ plan, content.Listed g ∧ NotAbove txID g

variable {content : Content} {txID : Nat}

theorem eligible_zero_iff : Eligible txID 0 f ↔ NotAbove txID f := by
  simp [Eligible, NotAbove]

theorem WellListed.sorted (hWell : content.WellListed) : content.listing.Sorted := by
  intro level hLevel itr hItr
  simp only [listing, Except.ok.injEq] at hItr
  subst hItr
  refine (hWell.levels_sorted level hLevel).imp ?_
  rintro f g (hLt | ⟨hEq, _⟩)
  · exact Nat.le_of_lt hLt
  · exact Nat.le_of_eq hEq

theorem WellListed.snapshots_start (hWell : content.WellListed) {itr}
    (hItr : content.listing snapshotLevel = .ok itr) (hMem : f ∈ itr.items) :
    f.minTXID ≤ 1 ∧ 0 < f.maxTXID := by
  simp only [listing, Except.ok.injEq] at hItr
  rw [← hItr] at hMem
  have hMin := hWell.snapshot_min f hMem
  have hRange := hWell.range f ⟨snapshotLevel, Nat.le_refl _, hMem⟩
  omega

theorem not_fails (e : Err) : ¬ content.listing.Fails e := by
  rintro ⟨level, _, hError | ⟨itr, hItr, hErr⟩⟩
  · simp [listing] at hError
  · simp only [listing, Except.ok.injEq] at hItr
    rw [← hItr] at hErr
    simp at hErr

theorem walks_iff : content.listing.Walks f ↔ ∃ level < snapshotLevel, f ∈ content level := by
  constructor
  · rintro ⟨level, hLevel, itr, hItr, hMem⟩
    simp only [listing, Except.ok.injEq] at hItr
    subst hItr
    exact ⟨level, hLevel, hMem⟩
  · rintro ⟨level, hLevel, hMem⟩
    exact ⟨level, hLevel, _, rfl, hMem⟩

theorem Listed.of_walks (hWalks : content.listing.Walks f) : content.Listed f := by
  rcases walks_iff.mp hWalks with ⟨level, hLevel, hMem⟩
  exact ⟨level, Nat.le_of_lt hLevel, hMem⟩

theorem Listed.walks_or_snapshot (hListed : content.Listed f) :
    content.listing.Walks f ∨ f ∈ content snapshotLevel := by
  rcases hListed with ⟨level, hLevel, hMem⟩
  rcases Nat.lt_or_eq_of_le hLevel with hLt | rfl
  · exact Or.inl (walks_iff.mpr ⟨level, hLt, hMem⟩)
  · exact Or.inr hMem

section Run

variable {timestamp : Int} {ext : List FileInfo} {s : PlanState}

theorem snapshot_le_currentMax (hWell : content.WellListed) (hPlanned :
    Planned content.listing txID timestamp (content snapshotLevel) ext s) {f}
    (hMem : f ∈ content snapshotLevel) (hElig : Eligible txID timestamp f) :
    f.maxTXID ≤ s.currentMax := by
  have hStart : f.maxTXID ≤ maxTXIDOf (startPlan txID timestamp (content snapshotLevel)) := by
    cases hFind : findSnapshot txID timestamp (content snapshotLevel) with
    | none => exact absurd hElig (findSnapshot_eq_none hFind f hMem)
    | some sn =>
      have hLe := findSnapshot_greatest hWell.snapshots_sorted hFind hMem hElig
      simpa [startPlan, hFind, maxTXIDOf] using hLe
  have hReach := le_reach hPlanned.chain
  rw [hPlanned.currentMax_eq, hPlanned.infos_eq, maxTXIDOf_append]
  exact Nat.le_trans hStart hReach

theorem stuck_of_exhausted (hWell : content.WellListed) (hPlanned :
    Planned content.listing txID timestamp (content snapshotLevel) ext s)
    (hEx : Exhausted content.listing.Walks txID timestamp s)
    (hBound : s.currentMax + 1 < TXID.bound) :
    Stuck minTXID maxTXID (fun f => content.Listed f ∧ Eligible txID timestamp f)
      s.currentMax := by
  rintro f ⟨hListed, hElig⟩ hMin
  rcases hListed.walks_or_snapshot with hWalks | hSnap
  · exact hEx.stuck hBound f ⟨hWalks, hElig⟩ hMin
  · exact snapshot_le_currentMax hWell hPlanned hSnap hElig

theorem mem_infos_of_planned (hPlanned : Planned content.listing txID timestamp
    (content snapshotLevel) ext s) {f} (hMem : f ∈ s.infos) :
    content.Listed f ∧ Eligible txID timestamp f := by
  rw [hPlanned.infos_eq] at hMem
  rcases List.mem_append.mp hMem with hStart | hExt
  · have hFind : findSnapshot txID timestamp (content snapshotLevel) = some f := by
      simpa [startPlan] using hStart
    obtain ⟨hSnap, hElig⟩ := findSnapshot_mem hFind
    exact ⟨⟨snapshotLevel, Nat.le_refl _, hSnap⟩, hElig⟩
  · obtain ⟨hWalks, hElig⟩ := hPlanned.ext_mem f hExt
    exact ⟨Listed.of_walks hWalks, hElig⟩

theorem exists_planned (txID : Nat) (timestamp : Int)
    (hWell : content.WellListed) (hTarget : ¬ (txID ≠ 0 ∧ timestamp ≠ 0)) :
    ∃ ext s, Planned content.listing txID timestamp (content snapshotLevel) ext s ∧
      calcRestorePlan content.listing txID timestamp = finishPlan txID timestamp s := by
  rcases calcRestorePlan_cases hWell.sorted hTarget with
    ⟨e, _, hFails⟩ | ⟨itr, ext, s, hItr, hPlanned, _, hEq⟩
  · exact absurd hFails (not_fails e)
  · simp only [listing, Except.ok.injEq] at hItr
    subst hItr
    exact ⟨ext, s, hPlanned, hEq⟩

theorem exists_mem_maxTXIDOf {infos} (hNonempty : infos ≠ []) :
    ∃ f ∈ infos, f.maxTXID = maxTXIDOf infos := by
  rcases List.eq_nil_or_concat infos with rfl | ⟨xs, x, rfl⟩
  · exact absurd rfl hNonempty
  · exact ⟨x, by simp, by simp [maxTXIDOf]⟩

/- A plan produced without a timestamp has the plan shape. -/
theorem isPlan_of_planned (hWell : content.WellListed)
    (hPlanned : Planned content.listing txID 0 (content snapshotLevel) ext s)
    (hNonempty : s.infos ≠ []) : content.IsPlan txID s.infos := by
  have hFiles : ∀ g ∈ s.infos, content.Listed g ∧ NotAbove txID g := by
    intro g hg
    obtain ⟨hListed, hElig⟩ := mem_infos_of_planned hPlanned hg
    exact ⟨hListed, eligible_zero_iff.mp hElig⟩
  have hInfos := hPlanned.infos_eq
  have hChain := hPlanned.chain
  unfold startPlan at hInfos hChain
  cases hFind : findSnapshot txID 0 (content snapshotLevel) with
  | some sn =>
    rw [hFind] at hInfos hChain
    obtain ⟨hMem, hElig⟩ := findSnapshot_mem hFind
    refine ⟨sn, ext, hInfos, Or.inl ⟨hMem, ?_, ?_⟩, ?_, hFiles⟩
    · exact eligible_zero_iff.mp hElig
    · intro g hg hNot
      exact findSnapshot_greatest hWell.snapshots_sorted hFind hg (eligible_zero_iff.mpr hNot)
    · simpa [maxTXIDOf] using hChain
  | none =>
    rw [hFind] at hInfos hChain
    have hNoSnapshot := findSnapshot_eq_none hFind
    cases ext with
    | nil => exact absurd hInfos hNonempty
    | cons f rest =>
      obtain ⟨hMin, _, hRest⟩ := hChain
      have hListed := (hFiles f (by rw [hInfos]; simp)).1
      have hPos := (hWell.range f hListed).1
      refine ⟨f, rest, hInfos, Or.inr ⟨?_, hListed, ?_⟩, hRest, hFiles⟩
      · intro g hg hNot
        exact hNoSnapshot g hg (eligible_zero_iff.mpr hNot)
      · exact Nat.le_antisymm hMin hPos

theorem IsPlan.isChain {plan} (hWell : content.WellListed) (hPlan : content.IsPlan txID plan) :
    IsChain minTXID maxTXID 0 plan := by
  rcases hPlan with ⟨f, rest, rfl, hStart, hChain, hFiles⟩
  have hRange := hWell.range f (hFiles f List.mem_cons_self).1
  have hMin : f.minTXID = 1 := by
    rcases hStart with ⟨hMem, _, _⟩ | ⟨_, _, hMin⟩
    · exact hWell.snapshot_min f hMem
    · exact hMin
  exact ⟨Nat.le_of_eq hMin, Nat.lt_of_lt_of_le hRange.1 hRange.2.1, hChain⟩

end Run

-- Soundness, Completeness And The Latest State

variable {plan : List FileInfo}

theorem isPlan_of_calcRestorePlan (hWell : content.WellListed)
    (hPlan : calcRestorePlan content.listing txID 0 = .ok plan) :
    content.IsPlan txID plan ∧ (txID ≠ 0 → maxTXIDOf plan = txID) := by
  rcases exists_planned txID 0 hWell (by simp) with ⟨ext, s, hPlanned, hCalc⟩
  rw [hPlan] at hCalc
  rcases finishPlan_ok hPlanned hCalc with ⟨rfl, hNonempty, hLe, _⟩
  refine ⟨isPlan_of_planned hWell hPlanned hNonempty, ?_⟩
  intro hTarget
  rcases exists_mem_maxTXIDOf hNonempty with ⟨f, hf, hEnd⟩
  have hElig := (mem_infos_of_planned hPlanned hf).2
  rcases eligible_zero_iff.mp hElig with hZero | hNot
  · exact absurd hZero hTarget
  · rw [hEnd] at hNot
    exact Nat.le_antisymm hNot (hLe hTarget)

theorem exists_calcRestorePlan_of_isPlan (hWell : content.WellListed) (hBound : txID < TXID.bound)
    (hTarget : txID ≠ 0) (hPlan : content.IsPlan txID plan) (hEnd : maxTXIDOf plan = txID) :
    ∃ plan', calcRestorePlan content.listing txID 0 = .ok plan' := by
  rcases exists_planned txID 0 hWell (by simp) with ⟨ext, s, hPlanned, hCalc⟩
  -- an exhausted loop stands at or past every plan's end
  have hReaches : txID ≤ s.currentMax := by
    rcases hPlanned.finished with hReached | hEx
    · exact hReached.2
    by_contra hShort
    have hStuck := stuck_of_exhausted hWell hPlanned hEx (by omega)
    have hLe := reach_le_of_stuck hStuck (Nat.zero_le _) (hPlan.isChain hWell) (by
      rcases hPlan with ⟨f, rest, _, _, _, hFiles⟩
      intro g hg
      exact ⟨(hFiles g hg).1, eligible_zero_iff.mpr (hFiles g hg).2⟩)
    rw [← maxTXIDOf_eq_reach, hEnd] at hLe
    exact hShort hLe
  rw [hPlanned.currentMax_eq] at hReaches
  rcases finishPlan_cases hPlanned with ⟨_, hEmpty | hShort⟩ | ⟨_, _, _, hZero, _⟩ | ⟨hOk, _⟩
  · rw [hEmpty] at hReaches
    exact absurd (Nat.le_zero.mp hReaches) hTarget
  · exact absurd hReaches (Nat.not_le.mpr hShort.2)
  · exact absurd hZero hTarget
  · exact ⟨s.infos, by rw [hCalc, hOk]⟩

theorem le_maxTXIDOf_of_calcRestorePlan (hWell : content.WellListed)
    (hPlan : calcRestorePlan content.listing 0 0 = .ok plan) {f} (hListed : content.Listed f) :
    f.maxTXID ≤ maxTXIDOf plan := by
  rcases hListed.walks_or_snapshot with hWalks | hSnap
  · exact (calcRestorePlan_reads hWell.sorted hPlan).2 f hWalks
  rcases exists_planned 0 0 hWell (by simp) with ⟨ext, s, hPlanned, hCalc⟩
  rw [hPlan] at hCalc
  rcases finishPlan_ok hPlanned hCalc with ⟨rfl, _⟩
  rw [← hPlanned.currentMax_eq]
  exact snapshot_le_currentMax hWell hPlanned hSnap (by simp [Eligible])

/-
  When the files cover everything up to the greatest one,
  the planner reaches it.
-/
theorem exists_calcRestorePlan_of_covered (hWell : content.WellListed)
    {greatest : Nat} (hPos : 1 ≤ greatest) (hBound : greatest + 1 < TXID.bound)
    (hLe : ∀ f, content.Listed f → f.maxTXID ≤ greatest)
    (hCovered : ∀ t, 1 ≤ t → t ≤ greatest → ∃ f, content.Listed f ∧ f.minTXID ≤ t ∧ t ≤ f.maxTXID) :
    ∃ plan, calcRestorePlan content.listing 0 0 = .ok plan ∧ maxTXIDOf plan = greatest := by
  rcases exists_planned 0 0 hWell (by simp) with ⟨ext, s, hPlanned, hCalc⟩
  have hEx : Exhausted content.listing.Walks 0 0 s := by
    rcases hPlanned.finished with hReached | hEx
    · exact absurd rfl hReached.1
    · exact hEx
  have hAtMost : s.currentMax ≤ greatest := by
    rw [hPlanned.currentMax_eq]
    by_cases hEmpty : s.infos = []
    · rw [hEmpty]
      exact Nat.zero_le _
    · rcases exists_mem_maxTXIDOf hEmpty with ⟨f, hf, hEnd⟩
      rw [← hEnd]
      exact hLe f (mem_infos_of_planned hPlanned hf).1
  have hStuck := stuck_of_exhausted hWell hPlanned hEx (by omega)
  have hAtLeast : greatest ≤ s.currentMax := by
    apply le_of_stuck_of_covered hStuck
    intro t hLt hTo
    rcases hCovered t (by omega) hTo with ⟨f, hf, hRange⟩
    exact ⟨f, ⟨hf, by simp [Eligible]⟩, hRange⟩
  have hEnd : maxTXIDOf s.infos = greatest := by
    rw [← hPlanned.currentMax_eq]
    omega
  rcases finishPlan_cases hPlanned with
    ⟨_, hEmpty | hShort⟩ | ⟨_, _, _, _, _, c, hc, f, hf, hGap⟩ | ⟨hOk, _⟩
  · rw [hEmpty] at hEnd
    simp only [maxTXIDOf, List.getLast?_nil] at hEnd
    omega
  · exact absurd rfl hShort.1
  · -- an unread file would start past the greatest TXID
    have hWalks := (hEx.inv.cursors_ok c hc).unread_mem f hf
    have hListed := Listed.of_walks hWalks
    have hRange := hWell.range f hListed
    have hTo := hLe f hListed
    rw [TXID.next_eq (by omega)] at hGap
    omega
  · exact ⟨s.infos, by rw [hCalc, hOk], hEnd⟩

end Content

/-
  The planner is sound and complete: it terminates, it only
  returns plans of the right shape, it reaches a target
  exactly when some such chain does, and without a target
  it returns nothing but a plan to the latest TXID.
-/
theorem calcRestorePlan_sound_complete
    (content : Content)
    (hWell : content.WellListed)
    (txID : Nat)
    (hTXID : txID < TXID.bound) :
    (∃ rounds, ∀ fuel ≥ rounds,
      calcRestorePlanFuel fuel content.listing txID 0 =
        some (calcRestorePlan content.listing txID 0)) ∧
    (∀ plan,
      calcRestorePlan content.listing txID 0 = .ok plan →
      content.IsPlan txID plan ∧
      (txID ≠ 0 → maxTXIDOf plan = txID)) ∧
    (txID ≠ 0 →
      ((∃ plan,
          calcRestorePlan content.listing txID 0 =
            .ok plan) ↔
        ∃ plan,
          content.IsPlan txID plan ∧
          maxTXIDOf plan = txID)) ∧
    (txID = 0 →
      ∀ plan,
        calcRestorePlan content.listing txID 0 = .ok plan →
        (∃ f,
          content.Listed f ∧ f.maxTXID = maxTXIDOf plan) ∧
        ∀ f,
          content.Listed f →
          f.maxTXID ≤ maxTXIDOf plan) := by
  refine ⟨⟨planFuel content.listing, ?_⟩, ?_, ?_, ?_⟩
  · intro fuel hFuel
    exact calcRestorePlanFuel_eq _ _ _ hFuel
  · intro plan hPlan
    exact Content.isPlan_of_calcRestorePlan hWell hPlan
  · intro hTarget
    constructor
    · rintro ⟨plan, hPlan⟩
      obtain ⟨hShape, hEnd⟩ := Content.isPlan_of_calcRestorePlan hWell hPlan
      exact ⟨plan, hShape, hEnd hTarget⟩
    · rintro ⟨plan, hShape, hEnd⟩
      exact Content.exists_calcRestorePlan_of_isPlan hWell hTXID hTarget hShape hEnd
  · rintro rfl plan hPlan
    have hShape := (Content.isPlan_of_calcRestorePlan hWell hPlan).1
    refine ⟨?_, fun f hListed => Content.le_maxTXIDOf_of_calcRestorePlan hWell hPlan hListed⟩
    rcases hShape with ⟨f, rest, rfl, _, _, hFiles⟩
    rcases Content.exists_mem_maxTXIDOf (List.cons_ne_nil f rest) with ⟨g, hg, hEnd⟩
    exact ⟨g, (hFiles g hg).1, hEnd⟩

def threeTransactions : Content
| 0 => [⟨0, 1, 1, 100, 10⟩, ⟨0, 2, 2, 100, 20⟩, ⟨0, 3, 3, 100, 30⟩]
| 1 => [⟨1, 1, 2, 150, 10⟩]
| _ => []

theorem threeTransactions_wellListed : threeTransactions.WellListed := by
  constructor
  · intro level _
    match level with
    | 0 => decide
    | 1 => decide
    | _ + 2 => exact List.Pairwise.nil
  · rintro f ⟨level, _, hMem⟩
    match level, hMem with
    | 0, hMem =>
      simp only [threeTransactions, List.mem_cons, List.not_mem_nil, or_false] at hMem
      rcases hMem with rfl | rfl | rfl <;> decide
    | 1, hMem =>
      simp only [threeTransactions, List.mem_singleton] at hMem
      subst hMem
      decide
    | _ + 2, hMem => simp [threeTransactions] at hMem
  · simp [threeTransactions, snapshotLevel]
  · simp [threeTransactions, snapshotLevel]

/- The target 3 is reached from the compacted file. -/
theorem threeTransactions_reaches_three :
    ∃ plan,
      calcRestorePlan threeTransactions.listing 3 0 =
        .ok plan := by
  refine ((calcRestorePlan_sound_complete threeTransactions
    threeTransactions_wellListed 3 (by decide)).2.2.1
    (by decide)).mpr
    ⟨[⟨1, 1, 2, 150, 10⟩, ⟨0, 3, 3, 100, 30⟩], ?_, rfl⟩
  refine ⟨_, _, rfl, Or.inr ⟨?_, ?_, rfl⟩, by decide, ?_⟩
  · simp [threeTransactions, snapshotLevel]
  · exact ⟨1, by decide, by simp [threeTransactions]⟩
  · intro g hg
    simp only [List.mem_cons, List.not_mem_nil, or_false] at hg
    rcases hg with rfl | rfl
    · exact ⟨⟨1, by decide, by simp [threeTransactions]⟩, Or.inr (by decide)⟩
    · exact ⟨⟨0, by decide, by simp [threeTransactions]⟩, Or.inr (by decide)⟩

end Replicate
