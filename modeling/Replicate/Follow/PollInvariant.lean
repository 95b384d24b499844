import Replicate.Follow.Apply

/-
  What a poll makes of the database file.

  Whatever fails, pages that have not changed since the
  saved TXID stay as they are. A poll that succeeds has put
  all others right up to its end. So the file is an image
  of the database unless an earlier poll, which failed, had
  got further.

  Main declarations:
    * `PollInv.trace`
    * `PollInv.advance`
    * `PollInv.isImage`
-/

-- The File During A Poll

namespace Replicate

open LayeredFile

namespace Follow

open PageHistory
open LayeredFile (Mixed Written Same Shows)

variable {lib : LtxLibrary Page}

/- The file is the database after a transaction. -/
abbrev IsImage (H : History lib) (t : Nat) (file : List Page) : Prop :=
  Same lib.zero visible file (H.replay t)

/- Pages that did not change from `t` to `m` are right. -/
abbrev Between (H : History lib) (t m : Nat) (file : List Page) : Prop :=
  Mixed lib.zero visible (fun p => p = lib.lockPgno) H.tx t m file

/- Pages that changed from `t` to `c` are right. -/
abbrev UpTo (H : History lib) (t c : Nat) (file : List Page) : Prop :=
  Written lib.zero visible (fun p => p = lib.lockPgno) H.tx t c file

section Apply

variable {H : History lib} {t m a b c : Nat} {file : List Page}
variable {rnd : Nat → UInt8} {fault : ApplyFault}

theorem shows_patched (rnd : Nat → UInt8) (ltx : Layer Page) : Shows visible ltx
    ((pages ltx).map (patched rnd)) := by
  intro e he
  rcases List.mem_map.mp he with ⟨x, hx, rfl⟩
  rcases mem_pages.mp hx with ⟨hPos, _, hPage⟩
  rw [patched_fst]
  exact ⟨hPos, x.2, hPage, visible_patched rnd x⟩

/- However applying a file ends, unchanged pages are right. -/
theorem Between.applyLTXFile (rnd : Nat → UInt8) (fault : ApplyFault)
    (hBetween : Between H t m file) (hStart : 1 ≤ a) (hFrom : t ≤ b)
    (hLe : b ≤ m) (hCount : m ≤ H.count) :
    Between H t m (Follow.applyLTXFile lib.zero rnd fault (slice H.tx a b) file).2 := by
  have hShows := shows_patched rnd (slice H.tx a b)
  have hPart : ∀ k, Between H t m (writeAll lib.zero
    (((pages (slice H.tx a b)).map (patched rnd)).take k) file) := by
    intro k
    exact hBetween.writeAll H.grows hStart hFrom hLe hCount
      (fun e he => hShows e (List.mem_of_mem_take he))
  have hWritten := hBetween.writeAll H.grows hStart hFrom hLe hCount hShows
  have hSized : Between H t m (if 0 < (slice H.tx a b).commit then
    PagedFile.resize lib.zero (slice H.tx a b).commit (writeAll lib.zero
      ((pages (slice H.tx a b)).map (patched rnd)) file)
      else
        writeAll lib.zero ((pages (slice H.tx a b)).map (patched rnd)) file) := by
    split
    · exact hWritten.resize H.grows hFrom hLe hCount
    · exact hWritten
  unfold Follow.applyLTXFile
  cases fault with
  | none | close | sync => exact hSized
  | opening | header | lock => exact hBetween
  | decode page err => exact hPart page
  | write page kept err =>
    dsimp only
    split
    · exact hSized
    rename_i e hPage
    rcases hShows e (List.mem_of_getElem? hPage) with ⟨hPos, d, hData, hView⟩
    split
    · exact hPart page
    apply (hPart page).write H.grows hStart hFrom hLe hCount hPos hData
    intro hOld
    rw [visible_torn (hView.trans hOld.symm)]
    exact hView
  | truncate err =>
    split
    · exact hWritten
    · exact hWritten

theorem applyLTXFile_ok {zero : Page} {ltx} (hCommit : 0 < ltx.commit)
    (hOk : (applyLTXFile zero rnd fault ltx file).1 = none) :
    (applyLTXFile zero rnd fault ltx file).2 = PagedFile.resize zero ltx.commit
      (writeAll zero ((pages ltx).map (patched rnd)) file) := by
  unfold applyLTXFile at hOk ⊢
  cases fault with
  | none => exact if_pos hCommit
  | opening | header | lock | decode | close | sync => simp at hOk
  | write page kept err =>
    dsimp only at hOk ⊢
    cases hPage : ((pages ltx).map (patched rnd))[page]? with
    | none => exact if_pos hCommit
    | some e =>
      rw [hPage] at hOk
      simp at hOk
  | truncate err =>
    dsimp only at hOk
    rw [if_pos hCommit] at hOk
    simp at hOk

theorem UpTo.applyLTXFile (hUpTo : UpTo H t c file) (hNext : a ≤ c + 1) (hLater : c < b)
    (hCount : b ≤ H.count) (hCommit : 0 < sizeAt H.tx b)
    (hOk : (Follow.applyLTXFile lib.zero rnd fault (slice H.tx a b) file).1 = none) :
    UpTo H t b (Follow.applyLTXFile lib.zero rnd fault (slice H.tx a b) file).2 ∧
      (Follow.applyLTXFile lib.zero rnd fault (slice H.tx a b) file).2.length = sizeAt H.tx b := by
  rw [applyLTXFile_ok hCommit hOk]
  refine ⟨?_, PagedFile.length_resize _ _ _⟩
  apply hUpTo.slice H.grows hNext hLater hCount (shows_patched rnd (slice H.tx a b))
  intro p d hPos hPage
  have hIn := (slice_page_cases lib.zero hPage).1
  refine ⟨patched rnd (p, d), ?_, patched_fst rnd (p, d)⟩
  exact List.mem_map_of_mem (mem_pages.mpr ⟨hPos, hIn, hPage⟩)

end Apply

-- The Invariant Of A Poll

/- The files of levels 0 to 8 are those of a history. -/
def FollowEnv.Serves (env : FollowEnv) (H : History lib) (content : Content) : Prop :=
  ∀ level < snapshotLevel, ∀ f ∈ content level, Produced H f.minTXID f.maxTXID (env.ltx f)

/-
  The file when a poll from `t` has got to its current
  TXID. Polls before it were interrupted before `m`.
-/
structure PollInv (H : History lib) (t m : Nat) (st : PollState) : Prop where
  between : Between H t (max m st.current) st.file
  upTo : UpTo H t st.current st.file
  length : t < st.current → st.file.length = sizeAt H.tx st.current
  after : t ≤ st.current
  count : max m st.current ≤ H.count
  applied : ∀ x ∈ st.applied, x.2.minTXID ≤ x.1 + 1 ∧ x.1 < x.2.maxTXID

section Invariant

variable {H : History lib} {env : FollowEnv} {content : Content} {t m : Nat} {st st' : PollState}
variable {zero : Page} {info : FileInfo}

theorem PollInv.start {file} (hBetween : Between H t m file) (hFrom : t ≤ m)
    (hCount : m ≤ H.count) :
    PollInv H t m ⟨file, t, []⟩ where
  between := by
    rw [Nat.max_eq_left hFrom]
    exact hBetween
  upTo := Written.start
  length := fun hLess => absurd hLess (Nat.lt_irrefl t)
  after := Nat.le_refl t
  count := by
    rw [Nat.max_eq_left hFrom]
    exact hCount
  applied := by simp

theorem PollState.apply_file {err} (hApply : st.apply env zero info = (err, st')) :
    st'.file = (applyLTXFile zero (env.rnd info) (env.fault info) (env.ltx info) st.file).2 := by
  unfold PollState.apply at hApply
  dsimp only at hApply
  split at hApply
  · rw [Prod.mk.injEq] at hApply
    rw [← hApply.2]
  · rw [Prod.mk.injEq] at hApply
    rw [← hApply.2]

theorem PollState.apply_ok (hApply : st.apply env zero info = (none, st')) :
    (applyLTXFile zero (env.rnd info) (env.fault info) (env.ltx info) st.file).1 = none ∧
      st'.current = info.maxTXID ∧
      st'.applied = st.applied ++ [(st.current, info)] := by
  unfold PollState.apply at hApply
  dsimp only at hApply
  split at hApply
  · simp at hApply
  rename_i hOk
  rw [Prod.mk.injEq] at hApply
  rw [← hApply.2]
  exact ⟨hOk, rfl, rfl⟩

theorem PollInv.between_apply {err} (hInv : PollInv H t m st)
    (hProduced : Produced H info.minTXID info.maxTXID (env.ltx info))
    (hLater : st.current < info.maxTXID) (hApply : st.apply env lib.zero info = (err, st')) :
    Between H t (max m info.maxTXID) st'.file := by
  rcases hProduced.eq_slice with ⟨hStart, hCount, hSlice⟩
  have hFrom := hInv.after
  have hOld := hInv.count
  rw [PollState.apply_file hApply, hSlice]
  apply Between.applyLTXFile
  · exact hInv.between.mono H.grows (by omega) (by omega) (by omega)
  · exact hStart
  · omega
  · exact Nat.le_max_right _ _
  · omega

theorem PollInv.apply (hSize : ∀ u, 1 ≤ u → u ≤ H.count → 0 < (H.tx u).commit)
    (hServes : env.Serves H content) (hInv : PollInv H t m st)
    (hApplies : AppliesFile env lib.zero content none st st') : PollInv H t m st' := by
  rcases hApplies with ⟨level, hLevel, info, hInfo, hNext, hLater, hApply⟩
  have hProduced := hServes level hLevel info hInfo
  have hBetween := hInv.between_apply hProduced hLater hApply
  rcases hProduced.eq_slice with ⟨_, hCount, hSlice⟩
  rcases PollState.apply_ok hApply with ⟨hOk, hCurrent, hApplied⟩
  have hCommit : 0 < sizeAt H.tx info.maxTXID := by
    rcases Nat.exists_eq_succ_of_ne_zero (by omega : info.maxTXID ≠ 0) with ⟨k, hk⟩
    rw [hk]
    exact hSize (k + 1) (Nat.succ_pos k) (by omega)
  rw [hSlice] at hOk
  rcases hInv.upTo.applyLTXFile hNext hLater hCount hCommit hOk with ⟨hUpTo, hLength⟩
  rw [← hSlice, ← PollState.apply_file hApply] at hUpTo
  rw [← hSlice, ← PollState.apply_file hApply] at hLength
  have hFrom := hInv.after
  have hOld := hInv.count
  constructor
  case between =>
    rw [hCurrent]
    exact hBetween
  case upTo =>
    rw [hCurrent]
    exact hUpTo
  case length =>
    intro _
    rw [hCurrent]
    exact hLength
  case after => omega
  case count => omega
  case applied =>
    intro x hx
    rw [hApplied] at hx
    rcases List.mem_append.mp hx with hEarlier | hNew
    · exact hInv.applied x hEarlier
    · rw [List.mem_singleton.mp hNew]
      exact ⟨hNext, hLater⟩

theorem PollInv.steps (hSize : ∀ u, 1 ≤ u → u ≤ H.count → 0 < (H.tx u).commit)
    (hServes : env.Serves H content) (hInv : PollInv H t m st)
    (hSteps : Relation.ReflTransGen (AppliesFile env lib.zero content none) st st') :
    PollInv H t m st' := by
  induction hSteps with
  | refl => exact hInv
  | tail _ hLast ih => exact ih.apply hSize hServes hLast

theorem current_le {u : Nat} (hBelow : ∀ level < snapshotLevel, ∀ f ∈ content level, f.maxTXID ≤ u)
    (hSteps : Relation.ReflTransGen (AppliesFile env zero content none) st st') :
    st'.current ≤ max st.current u := by
  rcases Relation.ReflTransGen.cases_tail hSteps with
    rfl | ⟨prev, _, level, hLevel, info, hInfo, _, _, hApply⟩
  · exact Nat.le_max_left _ _
  · rw [(PollState.apply_ok hApply).2.1]
    exact Nat.le_trans (hBelow level hLevel info hInfo) (Nat.le_max_right _ _)

/-
  After any poll, failed or not, unchanged pages are right
  up to the last file of the replica.
-/
theorem PollInv.trace {u : Nat} {failed : Bool}
    (hSize : ∀ u, 1 ≤ u → u ≤ H.count → 0 < (H.tx u).commit) (hServes : env.Serves H content)
    (hBelow : ∀ level < snapshotLevel, ∀ f ∈ content level, f.maxTXID ≤ u) (hInv : PollInv H t m st)
    (hCurrent : st.current ≤ max t u) (hEnd : m ≤ max t u)
    (hTrace : Trace env lib.zero content st failed st') :
    ∃ m', m ≤ m' ∧ m' ≤ max t u ∧ m' ≤ H.count ∧ Between H t m' st'.file := by
  rcases hTrace with ⟨mid, hSteps, hLast⟩
  have hMid := hInv.steps hSize hServes hSteps
  have hMidCurrent := current_le hBelow hSteps
  have hCount := hMid.count
  rcases hLast with rfl | ⟨_, err, level, hLevel, info, hInfo, _, hLater, hApply⟩
  · exact ⟨max m st'.current, Nat.le_max_left _ _, by omega, hCount, hMid.between⟩
  have hProduced := hServes level hLevel info hInfo
  have hLe := hBelow level hLevel info hInfo
  have hBound := hProduced.eq_slice.2.1
  exact ⟨max m info.maxTXID, Nat.le_max_left _ _, by omega,
    by omega, hMid.between_apply hProduced hLater hApply⟩

/- The file then counts as one from the current TXID. -/
theorem PollInv.advance (hInv : PollInv H t m st) :
    Between H st.current (max m st.current) st.file :=
  hInv.between.advance H.grows hInv.upTo (Nat.le_max_right _ _) hInv.count

/- Past all interruptions the file is an image again. -/
theorem PollInv.isImage (hInv : PollInv H t m st) (hProgress : t < st.current)
    (hPast : m ≤ st.current) : IsImage H st.current st.file := by
  have hBetween := hInv.advance
  have hCount := hInv.count
  rw [Nat.max_eq_right hPast] at hBetween hCount
  exact hBetween.same_replay H.grows hCount (hInv.length hProgress)

end Invariant

end Follow

end Replicate
