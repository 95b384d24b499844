import Replicate.VFS.IndexFreshness
import Replicate.VFS.ReplicaLayout

/-
  How far a poll gets.

  A poll reads level 0 from the file's position on, up to
  the first gap, and level 1 from the cursor of level 1 on.
  The cursor can lie inside a file of level 1, since it is
  set from the position when the plan has no such file. The
  listing then skips that file, and the next one does not
  follow the cursor.

  Main declarations:
    * `pollItems_tiles` and `pollItems_points`
    * `VFSFile.reachesHead_iff`
    * `poll_reaches_head_iff`
    * `poll_not_contiguous`
-/

-- Reading A Level

namespace Replicate

open FileInfo IntervalChain Published TXID VFSFile PageHistory List
open IntervalChain (Tiles reach)

variable {D : Type} {lib : LtxLibrary D}

section Levels

variable {fetch : FileInfo → Except Err (Layer D)} {level : Nat} {items : List FileInfo}
variable {st st' : LevelPoll}

/- A tiling from the cursor on is read to its end. -/
theorem pollItems_tiles (hFetch : ∀ info ∈ items, ∃ file, fetch info = .ok file)
    (hTiles : Tiles minTXID maxTXID st.maxTXID items)
    (hBound : reach maxTXID st.maxTXID items + 1 < bound) :
    ∃ st', pollItems fetch level items st = .ok st' ∧ st'.maxTXID =
      reach maxTXID st.maxTXID items := by
  induction items generalizing st with
  | nil => exact ⟨st, rfl, rfl⟩
  | cons info items ih =>
    rcases hTiles with ⟨hStart, hEnd, hRest⟩
    have hReach := le_reach hRest.isChain
    rw [reach_cons] at hBound ⊢
    have hNext : TXID.next st.maxTXID = st.maxTXID + 1 := next_eq (by omega)
    rcases hFetch info mem_cons_self with ⟨file, hFile⟩
    unfold pollItems
    rw [if_neg (by rw [hNext]; simpa using hStart), hFile]
    have hAdd : (st.add info file).maxTXID = info.maxTXID := rfl
    exact ih (fun f hf => hFetch f (mem_cons_of_mem info hf)) hRest hBound

theorem pollItems_straddled {info} (hLevel : level ≠ 0)
    (hNext : TXID.next st.maxTXID = st.maxTXID + 1) (hGap : info.minTXID ≠ st.maxTXID + 1) :
    pollItems fetch level (info :: items) st = .error (.text "non-contiguous ltx file") := by
  unfold pollItems
  rw [hNext, if_pos hGap, if_neg (fun h => hLevel h.1)]

/-
  Single transactions of level 0 are read up to the first
  one that is missing.
-/
theorem pollItems_points {n : Nat} (hFetch : ∀ info ∈ items, ∃ file, fetch info = .ok file)
    (hSorted : items.Pairwise (fun f g => f.minTXID < g.minTXID))
    (hPoint : ∀ info ∈ items, info.minTXID = info.maxTXID)
    (hAfter : ∀ info ∈ items, st.maxTXID < info.minTXID ∧ info.minTXID ≤ n)
    (hBound : n + 1 < bound) :
    ∃ st', pollItems fetch 0 items st = .ok st' ∧ st.maxTXID ≤ st'.maxTXID ∧
      (∀ t, st.maxTXID < t → t ≤ st'.maxTXID → ∃ info ∈ items, info.minTXID = t) ∧
      ∀ info ∈ items, info.minTXID ≠ st'.maxTXID + 1 := by
  induction items generalizing st with
  | nil =>
    refine ⟨st, rfl, Nat.le_refl _, ?_, by simp⟩
    intro t hFrom hTo
    omega
  | cons info items ih =>
    rcases pairwise_cons.mp hSorted with ⟨hFirst, hRest⟩
    have hInfo := hAfter info mem_cons_self
    have hSingle := hPoint info mem_cons_self
    have hNext : TXID.next st.maxTXID = st.maxTXID + 1 := next_eq (by omega)
    unfold pollItems
    rw [hNext]
    by_cases hEq : info.minTXID = st.maxTXID + 1
    · rw [if_neg (by simpa using hEq)]
      rcases hFetch info mem_cons_self with ⟨file, hFile⟩
      rw [hFile]
      have hAdd : (st.add info file).maxTXID = info.maxTXID := rfl
      have hLater : ∀ f ∈ items, (st.add info file).maxTXID < f.minTXID ∧ f.minTXID ≤ n := by
        intro f hf
        have hLt := hFirst f hf
        have hLe := hAfter f (mem_cons_of_mem info hf)
        omega
      rcases ih (fun f hf =>
        hFetch f (mem_cons_of_mem info hf))
          hRest
          (fun f hf => hPoint f (mem_cons_of_mem info hf))
          hLater with ⟨st', hPoll, hLe, hRead, hStop⟩
      refine ⟨st', hPoll, by omega, ?_, ?_⟩
      · intro t hFrom hTo
        by_cases hHere : t = info.minTXID
        · exact ⟨info, mem_cons_self, hHere.symm⟩
        · rcases hRead t (by omega) hTo with ⟨f, hf, hft⟩
          exact ⟨f, mem_cons_of_mem info hf, hft⟩
      · intro f hf
        rcases mem_cons.mp hf with rfl | hTail
        · omega
        · exact hStop f hTail
    · rw [if_pos hEq, if_pos ⟨rfl, by omega⟩]
      refine ⟨st, rfl, Nat.le_refl _, ?_, ?_⟩
      · intro t hFrom hTo
        omega
      · intro f hf
        rcases mem_cons.mp hf with rfl | hTail
        · exact hEq
        · have hLt := hFirst f hTail
          omega

end Levels

-- A Whole Poll

/- `pollReplicaClient`, on a replica that does not change. -/
def VFSFile.pollReplicaClient (f : VFSFile) (r : Published D)
    (env : PollEnv) : Except Err VFSFile :=
  match f.pollL0 r env with
  | .error err => .error err
  | .ok polled =>
    match polled.pollL1 r env with
    | .error err => .error err
    | .ok polled1 => .ok (f.applyPoll polled1)

/-
  A poll without failing calls succeeds, gets to the
  greatest TXID in levels 0 and 1, and never goes back.
-/
def VFSFile.ReachesHead (f : VFSFile) (r : Published D) : Prop :=
  ∃ f', f.pollReplicaClient r calmPoll = .ok f' ∧ f'.pos = r.head ∧ f.pos ≤ f'.pos

/-
  Level 1 goes on right after the file's cursor if it goes
  on at all. And level 0 holds every transaction after the
  file's position, unless level 1 goes on up to the newest.
-/
def VFSFile.CanFollow (f : VFSFile) (r : Published D) : Prop :=
  (∀ info ∈ r.content 1, f.maxTXID1 < info.minTXID → ∃ next ∈ r.content 1,
    next.minTXID = f.maxTXID1 + 1) ∧
  ((∀ t, f.pos < t → t ≤ r.uploaded → ∃ info ∈ r.content 0, info.minTXID = t) ∨
    (r.l1End = r.uploaded ∧ ∃ next ∈ r.content 1, next.minTXID = f.maxTXID1 + 1))

section Poll

variable {r : Published D} {f : VFSFile} {cursor : Nat}

theorem Published.Layout.fetch_ok (hLayout : r.Layout) {info}
    (hMem : info ∈ r.content 0 ∨ info ∈ r.content 1) :
    ∃ file, r.fetch calmPoll.fetchErr info = .ok file := by
  have hStored : info ∈ r.content info.level := by
    rcases hMem with hL0 | hL1
    · rw [(hLayout.l0 info hL0).1]
      exact hL0
    · rw [hLayout.l1 info hL1]
      exact hL1
  rcases mem_map.mp hStored with ⟨obj, hObj, hName⟩
  unfold Published.fetch
  cases hFind : (r.objects info.level).find? (fun obj => decide (obj.1 = info)) with
  | some found => exact ⟨found.2, rfl⟩
  | none =>
    have hNone := find?_eq_none.mp hFind obj hObj
    simp [hName] at hNone

/- Polling level 0. -/
theorem pollLevel_zero_spec (hBound : r.uploaded + 1 < bound)
    (hLayout : r.Layout) (hPos : f.pos ≤ r.uploaded) (baseCommit : Nat) :
    ∃ l0, pollLevel r calmPoll 0 f.pos baseCommit = .ok l0 ∧
      f.pos ≤ l0.maxTXID ∧ l0.maxTXID ≤ r.uploaded ∧
      (l0.maxTXID = r.uploaded ↔ ∀ t, f.pos < t → t ≤ r.uploaded →
        ∃ info ∈ r.content 0, info.minTXID = t) := by
  have hNext : TXID.next f.pos = f.pos + 1 := next_eq (by omega)
  have hListed : ∀ info, info ∈ (r.content 0).filter
    (fun info => decide (f.pos + 1 ≤ info.minTXID)) ↔
      info ∈ r.content 0 ∧ f.pos + 1 ≤ info.minTXID := by
    intro info
    rw [mem_filter, decide_eq_true_eq]
  rcases @pollItems_points D (r.fetch calmPoll.fetchErr) ((r.content 0).filter
    (fun info => decide (f.pos + 1 ≤ info.minTXID))) ⟨f.pos, [], baseCommit, false⟩ r.uploaded
      (fun info hMem => hLayout.fetch_ok (Or.inl ((hListed info).mp hMem).1))
      (hLayout.l0_sorted.filter _)
      (fun info hMem => (hLayout.l0 info ((hListed info).mp hMem).1).2.2.1)
      (by
        intro info hMem
        rcases (hListed info).mp hMem with ⟨hIn, hFrom⟩
        have hSingle := hLayout.l0 info hIn
        dsimp only
        omega)
      hBound with ⟨l0, hPoll, hLe, hRead, hStop⟩
  have hFrom : f.pos ≤ l0.maxTXID := hLe
  have hTo : l0.maxTXID ≤ r.uploaded := by
    rcases pollItems_maxTXID hPoll with hSame | ⟨x, hx, hEq⟩
    · rw [hSame]
      exact hPos
    · rw [hEq]
      exact (hLayout.l0 x ((hListed x).mp hx).1).2.2.2
  refine ⟨l0, ?_, hFrom, hTo, ?_⟩
  · unfold pollLevel ltxFiles
    rw [hNext]
    exact hPoll
  · constructor
    · intro hAll t hAfter hUntil
      rcases hRead t hAfter (by omega) with ⟨x, hx, hEq⟩
      exact ⟨x, ((hListed x).mp hx).1, hEq⟩
    · intro hAll
      by_contra hShort
      rcases hAll (l0.maxTXID + 1) (by omega) (by omega) with ⟨x, hx, hEq⟩
      exact hStop x ((hListed x).mpr ⟨hx, by omega⟩) hEq

theorem pollLevel_one_follows (hBound : r.uploaded + 1 < bound) (hLayout : r.Layout)
    (hCursor : cursor ≤ r.uploaded) (baseCommit : Nat) {next} (hMem : next ∈ r.content 1)
    (hStart : next.minTXID = cursor + 1) :
    ∃ l1, pollLevel r calmPoll 1 cursor baseCommit = .ok l1 ∧ l1.maxTXID = r.l1End := by
  have hNext : TXID.next cursor = cursor + 1 := next_eq (by omega)
  have hTiles := tiles_filter hLayout.l1_tiles (hLayout.l1_tiles.before_lo hMem hStart)
  have hLe := hLayout.l1_le
  rcases @pollItems_tiles D (r.fetch calmPoll.fetchErr) 1 ((r.content 1).filter
    (fun info => decide (cursor + 1 ≤ info.minTXID))) ⟨cursor, [], baseCommit, false⟩
      (fun info hIn => hLayout.fetch_ok (Or.inr (mem_filter.mp hIn).1))
      hTiles.1
      (by
        rw [hTiles.2]
        exact Nat.lt_of_le_of_lt (Nat.succ_le_succ hLe) hBound) with ⟨l1, hPoll, hEnd⟩
  refine ⟨l1, ?_, hEnd.trans hTiles.2⟩
  unfold pollLevel ltxFiles
  rw [hNext]
  exact hPoll

theorem pollLevel_one_nothing (hNext : TXID.next cursor = cursor + 1)
    (baseCommit : Nat) (hNone : ∀ info ∈ r.content 1, info.minTXID ≤ cursor) :
    pollLevel r calmPoll 1 cursor baseCommit = .ok ⟨cursor, [], baseCommit, false⟩ := by
  have hEmpty : (r.content 1).filter (fun info => decide (cursor + 1 ≤ info.minTXID)) = [] := by
    rw [filter_eq_nil_iff]
    intro info hMem
    have hLe := hNone info hMem
    simp only [decide_eq_true_eq]
    omega
  unfold pollLevel ltxFiles
  rw [hNext]
  rw [hEmpty]
  rfl

/-
  Polling level 1 when files start after the cursor, but
  none of them follows it.
-/
theorem pollLevel_one_straddled (hNext : TXID.next cursor = cursor + 1) (baseCommit : Nat) {info}
    (hMem : info ∈ r.content 1) (hLater : cursor < info.minTXID)
    (hNone : ∀ next ∈ r.content 1, next.minTXID ≠ cursor + 1) :
    pollLevel r calmPoll 1 cursor baseCommit = .error (.text "non-contiguous ltx file") := by
  unfold pollLevel ltxFiles
  rw [hNext]
  cases hItems : (r.content 1).filter (fun info => decide (cursor + 1 ≤ info.minTXID)) with
  | nil =>
    have hOut := filter_eq_nil_iff.mp hItems info hMem
    simp only [decide_eq_true_eq] at hOut
    omega
  | cons first rest =>
    have hIn : first ∈ (r.content 1).filter (fun info => decide (cursor + 1 ≤ info.minTXID)) := by
      rw [hItems]
      exact mem_cons_self
    exact pollItems_straddled (by decide) hNext (hNone first (mem_filter.mp hIn).1)

theorem pollReplicaClient_eq (hBound : r.uploaded + 1 < bound)
    (hLayout : r.Layout) (hPos : f.pos ≤ r.uploaded) :
    ∃ polled : PolledL0, f.pos ≤ polled.l0.maxTXID ∧ polled.l0.maxTXID ≤ r.uploaded ∧
      (polled.l0.maxTXID = r.uploaded ↔ ∀ t, f.pos < t → t ≤ r.uploaded →
        ∃ info ∈ r.content 0, info.minTXID = t) ∧
      polled.maxTXID1 = f.maxTXID1 ∧
      f.pollReplicaClient r calmPoll = match polled.pollL1 r calmPoll with
        | .error err => .error err
        | .ok polled1 => .ok (f.applyPoll polled1) := by
  rcases pollLevel_zero_spec hBound hLayout hPos f.commit with ⟨l0, hPoll, hLe, hTo, hAll⟩
  refine ⟨⟨l0, f.maxTXID1, if l0.replace ∨ l0.index ≠ [] then l0.commit else f.commit,
    if l0.replace then l0.commit else max f.commit l0.commit⟩, hLe, hTo, hAll, rfl, ?_⟩
  unfold pollReplicaClient VFSFile.pollL0
  rw [hPoll]

theorem pollReplicaClient_pos {polled : PolledL0} {l1 : LevelPoll} (hPoll :
    f.pollReplicaClient r calmPoll = match polled.pollL1 r calmPoll with
      | .error err => .error err
      | .ok polled1 => .ok (f.applyPoll polled1))
    (hL1 : pollLevel r calmPoll 1 polled.maxTXID1 polled.baseCommit = .ok l1) :
    ∃ f', f.pollReplicaClient r calmPoll = .ok f' ∧ f'.pos = max polled.l0.maxTXID l1.maxTXID := by
  unfold PolledL0.pollL1 at hPoll
  rw [hL1] at hPoll
  refine ⟨_, hPoll, ?_⟩
  unfold applyPoll PolledL1.pos
  dsimp only
  split
  · omega
  · omega

/- When a poll reaches the head, for any file. -/
theorem VFSFile.reachesHead_iff (hBound : r.uploaded + 1 < bound)
    (hLayout : r.Layout) (hPos : f.pos ≤ r.uploaded) (hCursor : f.maxTXID1 ≤ f.pos) :
    f.ReachesHead r ↔ f.CanFollow r := by
  have hNext : TXID.next f.maxTXID1 = f.maxTXID1 + 1 := next_eq (by omega)
  have hEnd := hLayout.l1_le
  unfold ReachesHead CanFollow
  rw [hLayout.head_eq]
  rcases pollReplicaClient_eq hBound hLayout hPos with ⟨polled, hLe, hTo, hAll, hSame, hPoll⟩
  by_cases hFollows : ∃ next ∈ r.content 1, next.minTXID = f.maxTXID1 + 1
  · -- level 1 is read to its end
    rcases hFollows with ⟨next, hMem, hStart⟩
    rcases pollLevel_one_follows hBound hLayout (Nat.le_trans hCursor hPos) polled.baseCommit hMem
      hStart with ⟨l1, hL1, hReach⟩
    rw [← hSame] at hL1
    rcases pollReplicaClient_pos hPoll hL1 with ⟨f', hOk, hNew⟩
    rw [← hAll]
    constructor
    · rintro ⟨g, hg, hHead, _⟩
      rw [hOk, Except.ok.injEq] at hg
      subst hg
      refine ⟨fun _ _ _ => ⟨next, hMem, hStart⟩, ?_⟩
      by_cases hL0 : polled.l0.maxTXID = r.uploaded
      · exact Or.inl hL0
      · exact Or.inr ⟨by omega, next, hMem, hStart⟩
    · rintro ⟨_, hEither⟩
      refine ⟨f', hOk, ?_, by omega⟩
      rcases hEither with hL0 | ⟨hCovered, _⟩
      · omega
      · omega
  · by_cases hLater : ∃ info ∈ r.content 1, f.maxTXID1 < info.minTXID
    · -- the file that follows is skipped, the next is an error
      rcases hLater with ⟨info, hMem, hAfter⟩
      have hNone : ∀ next ∈ r.content 1, next.minTXID ≠ f.maxTXID1 + 1 :=
        fun next hIn hEq => hFollows ⟨next, hIn, hEq⟩
      have hL1 := pollLevel_one_straddled hNext polled.baseCommit hMem hAfter hNone
      rw [← hSame] at hL1
      unfold PolledL0.pollL1 at hPoll
      rw [hL1] at hPoll
      constructor
      · rintro ⟨g, hg, _⟩
        rw [hPoll] at hg
        cases hg
      · rintro ⟨hAt, _⟩
        exact absurd (hAt info hMem hAfter) hFollows
    · -- there is nothing to read on level 1
      have hNone : ∀ info ∈ r.content 1, info.minTXID ≤ f.maxTXID1 := by
        intro info hMem
        by_contra hAfter
        exact hLater ⟨info, hMem, by omega⟩
      have hL1 := pollLevel_one_nothing hNext polled.baseCommit hNone
      rw [← hSame] at hL1
      rcases pollReplicaClient_pos hPoll hL1 with ⟨f', hOk, hNew⟩
      have hKept : f'.pos = polled.l0.maxTXID := by
        dsimp only at hNew
        omega
      rw [← hAll]
      constructor
      · rintro ⟨g, hg, hHead, _⟩
        rw [hOk, Except.ok.injEq] at hg
        subst hg
        exact ⟨fun info hMem hAfter => absurd ⟨info, hMem, hAfter⟩ hLater, Or.inl (by omega)⟩
      · rintro ⟨_, hL0 | ⟨_, hNextFile⟩⟩
        · exact ⟨f', hOk, by omega, by omega⟩
        · exact absurd hNextFile hFollows

end Poll

-- Runs

/- No lock takes over the position of another file. -/
def KeepsPosition : VfsState D → VfsOp → Prop
| _, .lock (some _) _ => False
| _, _ => True

/- A poll has read nothing beyond the newest upload. -/
def PollPhase.Within (n : Nat) : PollPhase → Prop
| .polledL0 polled => polled.l0.maxTXID ≤ n ∧ polled.maxTXID1 ≤ n
| .polledL1 polled => polled.l0.maxTXID ≤ n ∧ polled.l1.maxTXID ≤ n
| _ => True

/- The file follows a replica of that layout. -/
structure VfsState.Follows (H : History lib) (s : VfsState D) : Prop where
  layout : s.replica.Layout
  count : s.replica.uploaded ≤ H.count
  pos : s.file.pos ≤ s.replica.uploaded
  cursor : s.file.maxTXID1 ≤ s.file.pos
  phase : s.phase.Within s.replica.uploaded
  closed : s.phase = .closed → ∃ writeEnabled, s.file = new writeEnabled

section Runs

variable {H : History lib} {r : Published D} {faults : Nat → ListFault} {infos : List FileInfo}

theorem PollPhase.Within.mono {phase : PollPhase} {m n : Nat} (hWithin : phase.Within m)
    (hLe : m ≤ n) : phase.Within n := by
  cases phase with
  | closed | idle => trivial
  | polledL0 | polledL1 => exact ⟨Nat.le_trans hWithin.1 hLe, Nat.le_trans hWithin.2 hLe⟩

theorem Published.Layout.pollLevel_le (hLayout : r.Layout) {env} {level start baseCommit : Nat} {st}
    (hLevel : level = 0 ∨ level = 1) (hStart : start ≤ r.uploaded)
    (hPoll : pollLevel r env level start baseCommit = .ok st) : st.maxTXID ≤ r.uploaded := by
  unfold pollLevel at hPoll
  split at hPoll
  · simp at hPoll
  rename_i itr hItr
  rcases pollItems_maxTXID hPoll with hSame | ⟨x, hx, hEq⟩
  · rw [hSame]
    exact hStart
  rw [hEq]
  apply hLayout.le_uploaded
  have hListed := mem_of_mem_ltxFiles hItr hx
  rcases hLevel with rfl | rfl
  · exact Or.inl hListed
  · exact Or.inr hListed

theorem Published.Layout.le_plan (hLayout : r.Layout)
    (hPlan : calcRestorePlan (fun level => ltxFiles r.content (faults level) level 0) 0 0 = .ok
      infos) : r.uploaded ≤ IntervalChain.reach maxTXID 0 infos := by
  rcases calcRestorePlan_reads (fun level _ itr hItr =>
    ltxFiles_sorted hLayout.sorted hItr) hPlan with
    ⟨hWhole, hPast⟩
  rw [maxTXIDOf_eq_reach] at hPast
  -- a level that was listed to its end delivers its files
  have hLevel : ∀ level < snapshotLevel, ∀ f ∈ r.content level, f.maxTXID ≤
    IntervalChain.reach maxTXID 0 infos := by
    intro level hLt f hMem
    rcases hWhole level hLt with ⟨itr, hItr, hErr⟩
    refine hPast f ⟨level, hLt, itr, hItr, ?_⟩
    have hList := hItr
    unfold ltxFiles at hList
    split at hList
    · rw [← Except.ok.inj hList]
      simpa using hMem
    · cases hList
    · rw [← Except.ok.inj hList] at hErr
      cases hErr
  rw [← hLayout.head_eq]
  exact Nat.max_le.mpr ⟨greatestTXID_le_iff.mpr (hLevel 0 (by decide)),
    greatestTXID_le_iff.mpr (hLevel 1 (by decide))⟩

theorem Published.Layout.rebuildIndex (hLayout : r.Layout) {fetch : FileInfo → Except Err (Layer D)}
    {timestamp : Int} {f f' : VFSFile}
    (hPlan : calcRestorePlan (fun level => ltxFiles r.content (faults level) level 0) 0 timestamp =
      .ok infos) (hOpen : f.rebuildIndex fetch infos = .ok f') :
    f'.pos ≤ r.uploaded ∧ f'.maxTXID1 ≤ f'.pos := by
  rcases plan_isChain hLayout.others hLayout.sorted hPlan with ⟨hChain, hMem⟩
  have hReach : IntervalChain.reach maxTXID 0 infos ≤ r.uploaded := by
    rcases eq_nil_or_concat infos with rfl | ⟨init, last, rfl⟩
    · exact Nat.zero_le _
    · rw [concat_eq_append, reach_append_singleton]
      exact hLayout.le_uploaded (hMem last (by simp))
  have hCursor := maxLevelTXID_le hChain 1
  unfold VFSFile.rebuildIndex at hOpen
  split at hOpen
  · simp at hOpen
  rw [Except.ok.injEq, getLast_eq_reach] at hOpen
  rw [← hOpen]
  refine ⟨hReach, ?_⟩
  split
  · exact Nat.le_refl _
  · exact hCursor

end Runs

namespace VfsState

variable {H : History lib} {s s' : VfsState D}

theorem start_follows (writeEnabled : Bool) : (start writeEnabled : VfsState D).Follows H :=
  ⟨Layout.empty, Nat.zero_le _, Nat.le_refl 0, Nat.le_refl 0, trivial, fun _ => ⟨writeEnabled, rfl⟩⟩

/- Steps keep this, if a lock keeps the position. -/
theorem Follows.step (hFollows : s.Follows H) {op : VfsOp} (hKeeps :
    ∀ vfs elock, op = .lock vfs elock → s'.file.pos = s.file.pos)
    (hStep : Step H s op s') :
    s'.Follows H := by
  rcases hFollows with ⟨hLayout, hCount, hPos, hCursor, hPhase, hClosed⟩
  cases hStep with
  | change hChange =>
    have hLe := hChange.uploaded_le
    exact ⟨hLayout.change hChange, hChange.count hCount,
      Nat.le_trans hPos hLe, hCursor, hPhase.mono hLe,
      hClosed⟩
  | openFile _ hPlan hOpen =>
    rcases hLayout.rebuildIndex hPlan hOpen with ⟨hNewPos, hNewCursor⟩
    exact ⟨hLayout, hCount, hNewPos, hNewCursor, trivial, by simp⟩
  | openNew hIs =>
    rcases hClosed hIs with ⟨writeEnabled, hNew⟩
    refine ⟨hLayout, hCount, Nat.zero_le _, ?_, trivial, by simp⟩
    rw [hNew]
    exact Nat.le_refl 0
  | pollL0 _ hPoll =>
    unfold VFSFile.pollL0 at hPoll
    split at hPoll
    · simp at hPoll
    rename_i l0 hL0
    rw [Except.ok.injEq] at hPoll
    refine ⟨hLayout, hCount, hPos, hCursor, ?_, by simp⟩
    rw [← hPoll]
    exact ⟨hLayout.pollLevel_le (Or.inl rfl) hPos hL0, Nat.le_trans hCursor hPos⟩
  | @pollL1 env polled polled1 hIs hPoll =>
    rw [hIs] at hPhase
    unfold PolledL0.pollL1 at hPoll
    split at hPoll
    · simp at hPoll
    rename_i l1 hL1
    rw [Except.ok.injEq] at hPoll
    refine ⟨hLayout, hCount, hPos, hCursor, ?_, by simp⟩
    rw [← hPoll]
    exact ⟨hPhase.1, hLayout.pollLevel_le (Or.inr rfl) hPhase.2 hL1⟩
  | abandon => exact ⟨hLayout, hCount, hPos, hCursor, trivial, by simp⟩
  | @apply polled hIs =>
    rw [hIs] at hPhase
    rcases hPhase with ⟨hL0, hL1⟩
    refine ⟨hLayout, hCount, ?_, ?_, trivial, by simp⟩
    · unfold applyPoll PolledL1.pos
      dsimp only
      split
      · exact hL0
      · exact hL1
    · unfold applyPoll PolledL1.pos
      dsimp only
      split
      · omega
      · exact Nat.le_refl _
  | @lock vfs elock f hOpen hLock =>
    rcases lock_spec hLock with ⟨_, pos, _, _, rfl, _⟩
    have hSame : pos = s.file.pos := hKeeps vfs elock rfl
    subst hSame
    exact ⟨hLayout, hCount, hPos, hCursor, hPhase, fun h => absurd h hOpen⟩
  | unlock hOpen hUnlock =>
    rcases unlock_spec hUnlock with ⟨_, hSame, hL1, _⟩
    refine ⟨hLayout, hCount, ?_, ?_, hPhase, fun h => absurd h hOpen⟩
    · rw [hSame]
      exact hPos
    · rw [hSame, hL1]
      exact hCursor

theorem Run.follows (hFollows : s.Follows H) (hRun : Run H KeepsPosition s s') : s'.Follows H := by
  induction hRun with
  | refl => exact hFollows
  | tail _ hLast ih =>
    rcases hLast with ⟨op, hAllowed, hStep⟩
    refine ih.step ?_ hStep
    rintro vfs elock rfl
    cases hStep with
    | lock hOpen hLock =>
      rcases lock_spec hLock with ⟨_, _, _, _, rfl, hEq | ⟨_, rfl, _⟩⟩
      · exact hEq
      · exact absurd hAllowed (fun h => h)

end VfsState

/-
  After any opens and polls, a poll without failing calls
  succeeds and reaches the greatest TXID of the replica
  exactly when the file can follow it.
-/
theorem poll_reaches_head_iff
    {H : History lib}
    (hBound : H.count + 1 < bound)
    {writeEnabled : Bool}
    {s : VfsState D}
    (hRun :
      VfsState.Run H KeepsPosition
        (VfsState.start writeEnabled) s) :
    s.file.ReachesHead s.replica ↔
    s.file.CanFollow s.replica := by
  have hFollows : s.Follows H := hRun.follows (VfsState.start_follows writeEnabled)
  have hCount := hFollows.count
  exact reachesHead_iff (by omega) hFollows.layout hFollows.pos hFollows.cursor

-- A Cursor Inside A File

def behindByOne : VfsState Nat where
  replica := afterUpload (afterUpload empty)
  file := openedFile
  phase := .idle

theorem behindByOne_reached : VfsState.Run threeVersions KeepsPosition
    (VfsState.start false) behindByOne :=
  (openedState_reached KeepsPosition (fun _ => trivial) trivial).tail
    ⟨.change none, trivial, .change (afterUpload_change (by decide))⟩

/- Level 0 holds what the file has not read yet. -/
theorem behindByOne_reaches_head :
    behindByOne.file.CanFollow behindByOne.replica ∧
    behindByOne.file.ReachesHead behindByOne.replica := by
  have hFollow : behindByOne.file.CanFollow behindByOne.replica := by
    refine ⟨fun info hMem => (by cases hMem), Or.inl ?_⟩
    intro t hAfter hTo
    have hFrom : 1 < t := hAfter
    have hUntil : t ≤ 2 := hTo
    have hEq : t = 2 := by omega
    refine ⟨uploadOf 2, ?_, hEq.symm⟩
    exact mem_cons_of_mem _ mem_cons_self
  exact ⟨hFollow, (poll_reaches_head_iff (by decide) behindByOne_reached).mpr hFollow⟩

def firstTwo : FileInfo :=
  ⟨1, 1, 2, 100, 10⟩

def allUploaded : Published Nat :=
  afterUpload (afterUpload (afterUpload empty))

def firstTwoCompacted : Published Nat :=
  allUploaded.append 1 (firstTwo, stack [threeVersions.tx 1, threeVersions.tx 2])

def straddled : VfsState Nat where
  replica := afterCompaction firstTwoCompacted 3
  file := openedFile
  phase := .idle

theorem straddled_reached : VfsState.Run threeVersions KeepsPosition
    (VfsState.start false) straddled := by
  have hFirst : Change threeVersions allUploaded (some firstTwo) firstTwoCompacted :=
    @Change.compact Nat referenceLibrary threeVersions _
      [(uploadOf 1, threeVersions.tx 1), (uploadOf 2, threeVersions.tx 2)] _ _
      (by
        intro x hx
        rcases mem_cons.mp hx with rfl | hSecond
        · exact mem_append_left _ (mem_append_left _ mem_cons_self)
        · rw [mem_singleton.mp hSecond]
          exact mem_append_left _ (mem_append_right _ mem_cons_self))
      (by simp) ⟨rfl, by decide, rfl, by decide, trivial⟩ rfl
      rfl rfl rfl
  have hSecond := @afterCompaction_change firstTwoCompacted 3 (mem_append_right _ mem_cons_self) rfl
  exact ((behindByOne_reached.tail
    ⟨.change none, trivial, .change (afterUpload_change (by decide))⟩).tail
    ⟨.change _, trivial, .change hFirst⟩).tail
    ⟨.change _, trivial, .change hSecond⟩

/-
  The cursor of level 1 is the position at which the file
  was opened. It lies inside the first file of level 1, and
  the second one does not follow it.
-/
theorem poll_not_contiguous :
    ∃ s,
      VfsState.Run threeVersions KeepsPosition
        (VfsState.start false) s ∧
      s.phase = .idle ∧
      s.file.maxTXID1 = 1 ∧
      s.replica.content 1 = [firstTwo, compactionOf 3] ∧
      s.replica.head = 3 ∧
      s.file.pollReplicaClient s.replica calmPoll =
        .error
          (.wrap "poll L1"
            (.text "non-contiguous ltx file")) ∧
      ¬ s.file.ReachesHead s.replica := by
  have hPoll : straddled.file.pollReplicaClient straddled.replica calmPoll =
    .error (.wrap "poll L1" (.text "non-contiguous ltx file")) := by
    rfl
  refine ⟨straddled, straddled_reached, rfl, rfl, rfl, rfl, hPoll, ?_⟩
  rintro ⟨f, hOk, _⟩
  cases hOk

end Replicate
