import Replicate.VFS.Connection
import Replicate.VFS.PollProgress

/-
  The page index covers exactly the database.

  Reading files adds their pages to a map, so a map spans
  the pages that were written since a start, and has no page
  above the size of the last file. A file with a smaller
  commit makes a poll drop what it has read and the index
  with it, although the pages below the new size need not
  be in that file or in those that follow. A level-1 file
  that ends before the last level-0 file looks like that
  too when the database has grown.

  Main declarations:
    * `Spans.add` and `Spans.over`
    * `pollItems_span`
    * `VFSFile.Covers.applyPoll`
    * `VfsState.Covering.step`
    * `index_covers_database`
    * `index_shrunk_after_poll`
-/

-- Spans Of Pages

namespace Replicate

open EntryList FileInfo IntervalChain Published TXID VFSFile PageHistory Option

variable {D : Type} {lib : LtxLibrary D}

/- The pages of the database, without the lock page. -/
def History.HasPage (H : History lib) (n p : Nat) : Prop :=
  1 ≤ p ∧ p ≤ sizeAt H.tx n ∧ p ≠ lib.lockPgno

/-
  The map has no page above a size, and all pages of the
  database at `n` that were written after `start`.
-/
structure Spans (H : History lib) (start n size : Nat) (m : PageMap) : Prop where
  sound : ∀ p, (m.lookup p).isSome → 1 ≤ p ∧ p ≤ size ∧ p ≠ lib.lockPgno
  complete : ∀ p, p ≤ sizeAt H.tx n → (m.lookup p).isSome ∨ writer H.tx p n ≤ start

section Maps

variable {H : History lib} {start n size : Nat} {m : PageMap} {a b p n' size' : Nat}

theorem spans_nil (hLe : n ≤ start) : Spans H start n size [] :=
  ⟨fun p hSome => (by cases hSome), fun _ _ => Or.inr (Nat.le_trans writer_le hLe)⟩

theorem isSome_slice_iff (hStart : 1 ≤ a) : ((slice H.tx a b).page p).isSome ↔
    p ≤ sizeAt H.tx b ∧ a ≤ writer H.tx p b := by
  constructor
  · intro hSome
    by_contra hNot
    simp [slice, hNot] at hSome
  · rintro ⟨hSize, hWriter⟩
    rw [slice_page_eq hSize hWriter]
    exact isSome_page_writer (Nat.lt_of_lt_of_le hStart hWriter)

theorem History.ne_lockPgno_of_writer (hCount : n ≤ H.count) (hWriter : 1 ≤ writer H.tx p n) :
    1 ≤ p ∧ p ≠ lib.lockPgno := by
  constructor
  · by_contra hZero
    have hEq : p = 0 := by omega
    rw [hEq, H.writer_zero hCount] at hWriter
    omega
  · intro hLock
    rw [writer_exempt H.grows hCount hLock] at hWriter
    omega

theorem History.le_sizeAt (hCount : b ≤ H.count) (hLock : p ≠ lib.lockPgno)
    (hSize : p ≤ sizeAt H.tx b) (hWriter : writer H.tx p b ≤ a) (hLe : a ≤ b) : p ≤ sizeAt H.tx a :=
  le_sizeAt_of_writer_le H.grows hLock hCount hSize hWriter hLe

theorem Spans.extend (hSpans : Spans H start n size m) (hCount : n' ≤ H.count) (hLe : n ≤ n')
    (hExists : p ≤ sizeAt H.tx n') (hWriter : writer H.tx p n' ≤ n) :
    (m.lookup p).isSome ∨ writer H.tx p n' ≤ start := by
  by_cases hLock : p = lib.lockPgno
  · right
    rw [writer_exempt H.grows hCount hLock]
    exact Nat.zero_le _
  · rw [← writer_eq_of_le hWriter hLe]
    exact hSpans.complete p (H.le_sizeAt hCount hLock hExists hWriter hLe)

/- Reading a file that follows extends a span. -/
theorem Spans.add (hSpans : Spans H start n size m) {info} (hMin : 1 ≤ info.minTXID)
    (hMax : info.maxTXID ≤ H.count) (hStart : info.minTXID ≤ n + 1) (hEnd : n ≤ info.maxTXID)
    (hGrow : size ≤ size')
    (hSize : ∀ p, ((slice H.tx info.minTXID info.maxTXID).page p).isSome → p ≤ size') :
    Spans H start info.maxTXID size' (fetchPageIndex info
      (slice H.tx info.minTXID info.maxTXID) ++ m) := by
  have hLookup : ∀ p, (fetchPageIndex info (slice H.tx info.minTXID info.maxTXID) ++ m).lookup p =
    if p ≤ sizeAt H.tx info.maxTXID ∧ info.minTXID ≤ writer H.tx p info.maxTXID then
      some ⟨info.level, info.minTXID, info.maxTXID⟩
    else m.lookup p := by
    intro p
    rw [List.lookup_append, lookup_fetchPageIndex hMin hMax,
      if_congr (isSome_slice_iff hMin) rfl rfl]
    split
    · rfl
    · exact none_or
  constructor
  · intro p hSome
    rw [hLookup] at hSome
    split at hSome
    · rename_i hIn
      have hReal := H.ne_lockPgno_of_writer hMax (Nat.le_trans hMin hIn.2)
      exact ⟨hReal.1, hSize p ((isSome_slice_iff hMin).mpr hIn), hReal.2⟩
    · rcases hSpans.sound p hSome with ⟨hOne, hLe, hNe⟩
      exact ⟨hOne, Nat.le_trans hLe hGrow, hNe⟩
  · intro p hExists
    rw [hLookup]
    split
    · exact Or.inl rfl
    rename_i hOut
    have hWriter : writer H.tx p info.maxTXID ≤ n := by
      by_contra hLate
      exact hOut ⟨hExists, by omega⟩
    exact hSpans.extend hMax hEnd hExists hWriter

/- The span of one level over that of another. -/
theorem Spans.over (hSpans : Spans H start n size m) {start' : Nat} {m'}
    (hOver : Spans H start' n' size' m') (hStart : start' ≤ n) (hCount : n' ≤ H.count) {limit : Nat}
    (hSize : size ≤ limit) (hSize' : size' ≤ limit) : Spans H start (max n n') limit (m' ++ m) := by
  have hLookup : ∀ p, ((m' ++ m).lookup p).isSome ↔ (m'.lookup p).isSome ∨ (m.lookup p).isSome := by
    intro p
    rw [List.lookup_append, isSome_or, Bool.or_eq_true]
  constructor
  · intro p hSome
    rcases (hLookup p).mp hSome with hUpper | hLower
    · rcases hOver.sound p hUpper with ⟨hOne, hLe, hNe⟩
      exact ⟨hOne, Nat.le_trans hLe hSize', hNe⟩
    · rcases hSpans.sound p hLower with ⟨hOne, hLe, hNe⟩
      exact ⟨hOne, Nat.le_trans hLe hSize, hNe⟩
  · intro p hExists
    rw [hLookup]
    by_cases hAhead : n' ≤ n
    · rw [Nat.max_eq_left hAhead] at hExists ⊢
      rcases hSpans.complete p hExists with hIn | hOld
      · exact Or.inl (Or.inr hIn)
      · exact Or.inr hOld
    rw [Nat.max_eq_right (by omega)] at hExists ⊢
    rcases hOver.complete p hExists with hIn | hOld
    · exact Or.inl (Or.inl hIn)
    -- the page is as old as the level below
    rcases hSpans.extend hCount (by omega) hExists (Nat.le_trans hOld hStart) with hIn | hOlder
    · exact Or.inl (Or.inr hIn)
    · exact Or.inr hOlder

/-
  A span over a map that has exactly the pages at its start
  has exactly the pages at its end.
-/
theorem Spans.hasPage_iff (hSpans : Spans H start n (sizeAt H.tx n) m) {below}
    (hBelow : ∀ p, (below.lookup p).isSome ↔ H.HasPage start p) (hLe : start ≤ n)
    (hCount : n ≤ H.count) (hGrown : sizeAt H.tx start ≤ sizeAt H.tx n) (p : Nat) :
    ((m ++ below).lookup p).isSome ↔ H.HasPage n p := by
  rw [List.lookup_append, isSome_or, Bool.or_eq_true, hBelow]
  constructor
  · rintro (hSome | ⟨hOne, hSize, hLock⟩)
    · exact hSpans.sound p hSome
    · exact ⟨hOne, Nat.le_trans hSize hGrown, hLock⟩
  · rintro ⟨hOne, hSize, hLock⟩
    rcases hSpans.complete p hSize with hSome | hWriter
    · exact Or.inl hSome
    · exact Or.inr ⟨hOne, H.le_sizeAt hCount hLock hSize hWriter hLe, hLock⟩

theorem History.not_hasPage_zero (p : Nat) : (([] : PageMap).lookup p).isSome ↔ H.HasPage 0 p := by
  simp only [List.lookup_nil, isSome_none, Bool.false_eq_true, false_iff]
  rintro ⟨hOne, hSize, _⟩
  simp only [sizeAt] at hSize
  omega

theorem maxKey_eq_sizeAt (hPages : ∀ p, (m.lookup p).isSome ↔ H.HasPage n p)
    (hEdge : n = 0 ∨ sizeAt H.tx n ≠ lib.lockPgno) : maxKey m = sizeAt H.tx n := by
  apply Nat.le_antisymm
  · rw [maxKey_le_iff]
    intro p hKey
    exact ((hPages p).mp (isSome_lookup_iff.mpr hKey)).2.1
  · by_cases hZero : sizeAt H.tx n = 0
    · rw [hZero]
      exact Nat.zero_le _
    · apply le_maxKey
      apply isSome_lookup_iff.mp
      refine (hPages _).mpr ⟨by omega, Nat.le_refl _, ?_⟩
      rcases hEdge with hStart | hNot
      · rw [hStart] at hZero
        exact absurd rfl hZero
      · exact hNot

theorem Spans.sizeAt_le_of_nil (hSpans : Spans H start n size [])
    (hLe : start ≤ n) (hCount : n ≤ H.count) (hEdge : n = 0 ∨ sizeAt H.tx n ≠ lib.lockPgno) :
    sizeAt H.tx n ≤ sizeAt H.tx start := by
  rcases hEdge with rfl | hLock
  · exact Nat.zero_le _
  · rcases hSpans.complete _ (Nat.le_refl _) with hSome | hWriter
    · cases hSome
    · exact H.le_sizeAt hCount hLock (Nat.le_refl _) hWriter hLe

end Maps

-- Files That Hold The Whole Database

/- The file has every page of the database at its end. -/
def History.Whole (H : History lib) (info : FileInfo) : Prop :=
  ∀ p, H.HasPage info.maxTXID p → info.minTXID ≤ writer H.tx p info.maxTXID

/-
  A transaction after `a` that shrinks the database writes
  all the pages it leaves.
-/
def History.ShrinksWhole (H : History lib) (a n : Nat) : Prop :=
  ∀ t, a < t → t ≤ n → sizeAt H.tx t < sizeAt H.tx (t - 1) →
    ∀ p, H.HasPage t p → ((H.tx t).page p).isSome

section Whole

variable {H : History lib} {info : FileInfo}

theorem exists_shrink {a b : Nat} (hLe : a ≤ b) (hLess : sizeAt H.tx b < sizeAt H.tx a) :
    ∃ t, a < t ∧ t ≤ b ∧ sizeAt H.tx t < sizeAt H.tx (t - 1) := by
  induction b with
  | zero =>
    rw [Nat.le_zero.mp hLe] at hLess
    omega
  | succ b ih =>
    have hAfter : a ≠ b + 1 := by
      rintro rfl
      omega
    by_cases hStep : sizeAt H.tx (b + 1) < sizeAt H.tx b
    · exact ⟨b + 1, by omega, Nat.le_refl _, hStep⟩
    · rcases ih (by omega) (by omega) with ⟨t, hFrom, hTo, hDown⟩
      exact ⟨t, hFrom, by omega, hDown⟩

theorem History.ShrinksWhole.whole {a n c : Nat} (hShrinks : H.ShrinksWhole a n)
    (hMax : info.maxTXID ≤ n) (hCount : info.maxTXID ≤ H.count) (hFrom : a ≤ c)
    (hMin : info.minTXID ≤ c + 1) (hLe : c ≤ info.maxTXID)
    (hLess : sizeAt H.tx info.maxTXID < sizeAt H.tx c) : H.Whole info := by
  rcases exists_shrink hLe hLess with ⟨t, hAfter, hTo, hDown⟩
  rintro p ⟨hOne, hSize, hLock⟩
  by_cases hThere : p ≤ sizeAt H.tx t
  · have hSome := hShrinks t (by omega) (by omega) hDown p ⟨hOne, hThere, hLock⟩
    have hWriter := le_writer hTo (Nat.zero_lt_of_lt hAfter) hSome
    omega
  · by_contra hEarly
    exact hThere (H.le_sizeAt hCount hLock hSize (by omega) hTo)

theorem History.Whole.spans (hWhole : H.Whole info) (hMin : 1 ≤ info.minTXID)
    (hMax : info.maxTXID ≤ H.count) :
    Spans H 0 info.maxTXID (sizeAt H.tx info.maxTXID) (fetchPageIndex info
      (slice H.tx info.minTXID info.maxTXID)) := by
  have hLookup : ∀ p, ((fetchPageIndex info (slice H.tx info.minTXID
    info.maxTXID)).lookup p).isSome ↔
      p ≤ sizeAt H.tx info.maxTXID ∧ info.minTXID ≤ writer H.tx p info.maxTXID := by
    intro p
    rw [lookup_fetchPageIndex hMin hMax, ← isSome_slice_iff hMin]
    cases (slice H.tx info.minTXID info.maxTXID).page p with
    | none | some => simp
  constructor
  · intro p hSome
    rcases (hLookup p).mp hSome with ⟨hSize, hWriter⟩
    have hReal := H.ne_lockPgno_of_writer hMax (Nat.le_trans hMin hWriter)
    exact ⟨hReal.1, hSize, hReal.2⟩
  · intro p hExists
    by_cases hWritten : 1 ≤ writer H.tx p info.maxTXID
    · have hReal := H.ne_lockPgno_of_writer hMax hWritten
      exact Or.inl ((hLookup p).mpr ⟨hExists, hWhole p ⟨hReal.1, hExists, hReal.2⟩⟩)
    · exact Or.inr (by omega)

end Whole

-- Polling A Level

/-
  What a level poll has read: nothing at all, or files up to
  the end of a listed one. If it has started over, then with
  a file that holds the whole database and ends at `need` or
  later.
-/
structure LevelSpan (H : History lib) (listed : FileInfo → Prop)
    (start need base : Nat) (st : LevelPoll) : Prop where
  count : st.maxTXID ≤ H.count
  read : st = ⟨start, [], base, false⟩ ∨ (start < st.maxTXID ∧ st.commit = sizeAt H.tx st.maxTXID ∧
    ∃ info, listed info ∧ st.maxTXID = info.maxTXID)
  kept : st.replace = false → base ≤ st.commit
  late : st.replace = true → need ≤ st.maxTXID
  spans : Spans H (if st.replace then 0 else start) st.maxTXID st.commit st.index

section Poll

variable {H : History lib} {fetch : FileInfo → Except Err (Layer D)} {listed : FileInfo → Prop}
variable {level start need base : Nat} {items : List FileInfo} {st st' : LevelPoll}

theorem LevelSpan.le (hSpan : LevelSpan H listed start need base st) : start ≤ st.maxTXID := by
  rcases hSpan.read with hNothing | ⟨hLt, _⟩
  · have hStart : st.maxTXID = start := congrArg LevelPoll.maxTXID hNothing
    exact Nat.le_of_eq hStart.symm
  · exact Nat.le_of_lt hLt

theorem LevelSpan.commit_eq (hSpan : LevelSpan H listed start need base st)
    (hBase : base = sizeAt H.tx start) : st.commit = sizeAt H.tx st.maxTXID := by
  rcases hSpan.read with hNothing | ⟨_, hCommit, _⟩
  · rw [hNothing]
    exact hBase
  · exact hCommit

/- One more file, which is whole if it shrinks the size. -/
theorem LevelSpan.add (hSpan : LevelSpan H listed start need base st) {info}
    (hListed : listed info) (hMin : 1 ≤ info.minTXID) (hProper : info.minTXID ≤ info.maxTXID)
    (hMax : info.maxTXID ≤ H.count) (hNext : info.minTXID = st.maxTXID + 1)
    (hWhole : sizeAt H.tx info.maxTXID < st.commit → H.Whole info ∧ need ≤ info.maxTXID) :
    LevelSpan H listed start need base (st.add info (slice H.tx info.minTXID info.maxTXID)) := by
  have hLe := hSpan.le
  have hRead : start < info.maxTXID ∧ sizeAt H.tx info.maxTXID = sizeAt H.tx info.maxTXID ∧
    ∃ x, listed x ∧ info.maxTXID = x.maxTXID :=
    ⟨by omega, rfl, info, hListed, rfl⟩
  unfold LevelPoll.add
  by_cases hShrinks : (slice H.tx info.minTXID info.maxTXID).commit < st.commit
  · rcases hWhole hShrinks with ⟨hAll, hLate⟩
    simp only [hShrinks, decide_true, Bool.or_true, if_true, List.append_nil]
    exact ⟨hMax, Or.inr hRead, by simp, fun _ => hLate, hAll.spans hMin hMax⟩
  simp only [hShrinks, decide_false, Bool.or_false, Bool.false_eq_true, if_false]
  have hUp := Nat.le_of_not_lt hShrinks
  refine ⟨hMax, Or.inr hRead, fun hKept => Nat.le_trans (hSpan.kept hKept) hUp, ?_, ?_⟩
  · intro hReplaced
    have hOld := hSpan.late hReplaced
    dsimp only
    omega
  · exact hSpan.spans.add hMin hMax (by omega) (by omega) hUp
      (fun p hSome => ((isSome_slice_iff hMin).mp hSome).1)

/- The loop keeps what one file keeps. -/
theorem pollItems_span (hBound : H.count + 1 < bound) (hFetch :
    ∀ info file, fetch info = .ok file → 1 ≤ info.minTXID ∧ info.maxTXID ≤ H.count ∧
      file = slice H.tx info.minTXID info.maxTXID)
    (hListed : ∀ info ∈ items, listed info ∧ info.minTXID ≤ info.maxTXID)
    (hFirst : ∀ info, listed info → info.minTXID = start + 1 →
      sizeAt H.tx info.maxTXID < base → H.Whole info ∧ need ≤ info.maxTXID)
    (hLater : ∀ f g, listed f → listed g → g.minTXID = f.maxTXID + 1 →
      sizeAt H.tx g.maxTXID < sizeAt H.tx f.maxTXID → H.Whole g ∧ need ≤ g.maxTXID)
    (hSpan : LevelSpan H listed start need base st)
    (hPoll : pollItems fetch level items st = .ok st') :
    LevelSpan H listed start need base st' := by
  refine pollItems_keeps ?_ hSpan hPoll
  intro st info hMem file hFile hNext hSpan
  rcases hFetch info file hFile with ⟨hMin, hMax, rfl⟩
  rcases hListed info hMem with ⟨hIn, hProper⟩
  have hCount := hSpan.count
  rw [next_eq (by omega)] at hNext
  refine hSpan.add hIn hMin hProper hMax hNext ?_
  intro hLess
  rcases hSpan.read with hNothing | ⟨_, hCommit, x, hx, hEnd⟩
  · rw [hNothing] at hLess hNext
    exact hFirst info hIn hNext hLess
  · rw [hCommit, hEnd] at hLess
    rw [hEnd] at hNext
    exact hLater x info hx hIn hNext hLess

/- The files of a level that start after a cursor. -/
def Published.Unread (r : Published D) (level cursor : Nat) (info : FileInfo) : Prop :=
  info ∈ r.content level ∧ cursor < info.minTXID

theorem pollLevel_span {r env} (hBound : H.count + 1 < bound) (hFaithful : r.Faithful H)
    (hStart : start ≤ H.count)
    (hFirst : ∀ info, r.Unread level start info → info.minTXID = start + 1 →
      sizeAt H.tx info.maxTXID < base → H.Whole info ∧ need ≤ info.maxTXID)
    (hLater : ∀ f g, r.Unread level start f → r.Unread level start g →
      g.minTXID = f.maxTXID + 1 → sizeAt H.tx g.maxTXID <
        sizeAt H.tx f.maxTXID → H.Whole g ∧ need ≤ g.maxTXID)
    (hPoll : pollLevel r env level start base = .ok st) :
    LevelSpan H (r.Unread level start) start need base st := by
  have hNext : next start = start + 1 := next_eq (by omega)
  unfold pollLevel at hPoll
  split at hPoll
  · simp at hPoll
  rename_i itr hItr
  rw [hNext] at hItr
  exact pollItems_span hBound (fun info file hFetch => hFaithful.fetch hFetch) (fun info hIn =>
    ⟨mem_ltxFiles hItr hIn, hFaithful.layout.proper (mem_ltxFiles hItr hIn).1⟩)
    hFirst hLater
    ⟨hStart, Or.inl rfl, fun _ => Nat.le_refl base, by simp, spans_nil (Nat.le_refl start)⟩ hPoll

end Poll

-- A Whole Poll

/- No transaction ends the database with the lock page. -/
def History.EndsOnPages (H : History lib) (n : Nat) : Prop :=
  ∀ t, 1 ≤ t → t ≤ n → sizeAt H.tx t ≠ lib.lockPgno

/-
  After a file of level 1 that is not read yet the size of
  the database stays the same.
-/
def Published.KeepsSize (H : History lib) (r : Published D) (cursor : Nat) : Prop :=
  ∀ info, r.Unread 1 cursor info → ∀ n, info.maxTXID ≤ n → n ≤ r.uploaded →
    sizeAt H.tx n = sizeAt H.tx info.maxTXID

/- A poll that has read level 0. -/
structure SpanL0 (H : History lib) (f : VFSFile) (polled : PolledL0) : Prop where
  l0 : ∃ listed, LevelSpan H listed f.pos 0 f.commit polled.l0
  cursor : polled.maxTXID1 = f.maxTXID1
  base : polled.baseCommit = sizeAt H.tx polled.l0.maxTXID
  newCommit : polled.newCommit = sizeAt H.tx polled.l0.maxTXID

/- A poll that has read both levels. -/
structure SpanL1 (H : History lib) (f : VFSFile) (polled : PolledL1) : Prop where
  le : f.pos ≤ polled.pos
  count : polled.pos ≤ H.count
  grown : polled.replaceIndex = false → sizeAt H.tx f.pos ≤ sizeAt H.tx polled.pos
  newCommit : polled.newCommit = sizeAt H.tx polled.pos
  edge : polled.pos = 0 ∨ sizeAt H.tx polled.pos ≠ lib.lockPgno
  spans : Spans H (if polled.replaceIndex then 0 else f.pos)
    polled.pos (sizeAt H.tx polled.pos) polled.combined

/- What holds of a file at all times. -/
structure VFSFile.Covers (H : History lib) (f : VFSFile) : Prop where
  pages : ∀ p, (f.view.lookup p).isSome ↔ H.HasPage f.pos p
  commit : f.commit = sizeAt H.tx f.pos
  edge : f.pos = 0 ∨ sizeAt H.tx f.pos ≠ lib.lockPgno
  unlocked : f.lockType = .none → f.pending = [] ∧ f.pendingReplace = false

section WholePoll

variable {H : History lib} {r : Published D} {env : PollEnv} {f f' : VFSFile} {polled : PolledL0}

theorem History.EndsOnPages.edge {n t : Nat} (hEnds : H.EndsOnPages n) (hLe : t ≤ n) :
    t = 0 ∨ sizeAt H.tx t ≠ lib.lockPgno := by
  by_cases hZero : t = 0
  · exact Or.inl hZero
  · exact Or.inr (hEnds t (by omega) hLe)

/- Level 0, if transactions that shrink it are whole. -/
theorem VFSFile.Covers.pollL0 (hBound : H.count + 1 < bound) (hFaithful : r.Faithful H)
    (hCovers : f.Covers H) (hPos : f.pos ≤ r.uploaded) (hShrinks : H.ShrinksWhole f.pos r.uploaded)
    (hEnds : H.EndsOnPages r.uploaded) (hPoll : f.pollL0 r env = .ok polled) :
    SpanL0 H f polled := by
  have hLayout := hFaithful.layout
  have hCount := hFaithful.count
  -- a single transaction that shrinks the database
  have hWhole : ∀ info c, r.Unread 0 f.pos info → info.minTXID = c + 1 → f.pos ≤ c →
    sizeAt H.tx info.maxTXID < sizeAt H.tx c → H.Whole info ∧ 0 ≤ info.maxTXID := by
    rintro info c ⟨hMem, hAfter⟩ hMin hFrom hLess
    have hLe := hLayout.le_uploaded (Or.inl hMem)
    have hProper := hLayout.proper hMem
    exact ⟨hShrinks.whole hLe (by omega) hFrom (Nat.le_of_eq hMin) (by omega) hLess, Nat.zero_le _⟩
  unfold VFSFile.pollL0 at hPoll
  split at hPoll
  · simp at hPoll
  rename_i l0 hL0
  have hEnd := hLayout.pollLevel_le (Or.inl rfl) hPos hL0
  have hSpan : LevelSpan H (r.Unread 0 f.pos) f.pos 0 f.commit l0 := by
    refine pollLevel_span hBound hFaithful (by omega) ?_ ?_ hL0
    · rw [hCovers.commit]
      exact fun info hIn hMin => hWhole info f.pos hIn hMin (Nat.le_refl _)
    · intro x g hx hg hMin
      have hProper := hLayout.proper hx.1
      have hAfter := hx.2
      exact hWhole g x.maxTXID hg hMin (by omega)
  have hCommit := hSpan.commit_eq hCovers.commit
  rw [← Except.ok.inj hPoll]
  refine ⟨⟨_, hSpan⟩, rfl, ?_, ?_⟩
  · dsimp only
    split
    · exact hCommit
    rename_i hNone
    rw [not_or, not_not] at hNone
    have hKept : l0.replace = false := Bool.eq_false_iff.mpr hNone.1
    have hSpans := hSpan.spans
    rw [hKept, if_neg Bool.false_ne_true, hNone.2] at hSpans
    have hSame := hSpans.sizeAt_le_of_nil hSpan.le hSpan.count (hEnds.edge hEnd)
    rw [← hCovers.commit] at hSame
    have hGrown := hSpan.kept hKept
    omega
  · dsimp only
    split
    · exact hCommit
    · rename_i hKept
      have hGrown := hSpan.kept (Bool.eq_false_iff.mpr hKept)
      omega

theorem SpanL0.pollLevel_one (hBound : H.count + 1 < bound) (hFaithful : r.Faithful H)
    (hCursor : f.maxTXID1 ≤ f.pos) (hFrom : f.pos ≤ polled.l0.maxTXID)
    (hEnd : polled.l0.maxTXID ≤ r.uploaded) (hShrinks : H.ShrinksWhole f.pos r.uploaded)
    (hKeeps : r.KeepsSize H f.maxTXID1) {l1}
    (hPoll : pollLevel r env 1 f.maxTXID1 (sizeAt H.tx polled.l0.maxTXID) = .ok l1) :
    LevelSpan H (r.Unread 1 f.maxTXID1) f.maxTXID1 polled.l0.maxTXID (sizeAt H.tx polled.l0.maxTXID)
      l1 := by
  have hLayout := hFaithful.layout
  have hCount := hFaithful.count
  refine pollLevel_span hBound hFaithful (by omega) ?_ ?_ hPoll
  · -- a smaller file ends after level 0 and is whole
    intro info hIn hMin hLess
    have hLe := hLayout.le_uploaded (Or.inr hIn.1)
    have hAhead : polled.l0.maxTXID < info.maxTXID := by
      by_contra hBehind
      have hSame := hKeeps info hIn _ (by omega) hEnd
      omega
    exact ⟨hShrinks.whole hLe (by omega) hFrom (by omega) (by omega) hLess, Nat.le_of_lt hAhead⟩
  · intro x g hx hg hNext hLess
    have hProper := hLayout.proper hg.1
    have hSame := hKeeps x hx g.maxTXID (by omega) (hLayout.le_uploaded (Or.inr hg.1))
    omega

/- Level 1 together with level 0. -/
theorem SpanL0.pollL1 (hBound : H.count + 1 < bound) (hFaithful : r.Faithful H)
    (hCursor : f.maxTXID1 ≤ f.pos) (hCommit : f.commit = sizeAt H.tx f.pos)
    (hSpan : SpanL0 H f polled) (hEnd : polled.l0.maxTXID ≤ r.uploaded)
    (hShrinks : H.ShrinksWhole f.pos r.uploaded) (hKeeps : r.KeepsSize H f.maxTXID1)
    (hEnds : H.EndsOnPages r.uploaded) {polled1} (hPoll : polled.pollL1 r env = .ok polled1) :
    SpanL1 H f polled1 := by
  have hLayout := hFaithful.layout
  have hCount := hFaithful.count
  rcases hSpan.l0 with ⟨_, hSpan0⟩
  have hFrom := hSpan0.le
  have hCommit0 := hSpan0.commit_eq hCommit
  unfold PolledL0.pollL1 at hPoll
  rw [hSpan.cursor, hSpan.base, hSpan.newCommit] at hPoll
  split at hPoll
  · simp at hPoll
  rename_i l1 hL1
  have hEnd1 := hLayout.pollLevel_le (Or.inr rfl) (by omega) hL1
  have hSpan1 := SpanL0.pollLevel_one hBound hFaithful hCursor hFrom hEnd hShrinks hKeeps hL1
  have hEq := Except.ok.inj hPoll
  have hTop := polled1.pos_eq_max
  rw [← hEq] at hTop
  dsimp only at hTop
  rw [hEq] at hTop
  have hTo : polled1.pos ≤ r.uploaded := by omega
  -- the commit of level 1 is the size at the new position
  have hCommit1 : l1.commit = sizeAt H.tx polled1.pos := by
    rcases hSpan1.read with hNothing | ⟨_, hCommit1, info, hIn, hLast⟩
    · have hStart : l1.maxTXID = f.maxTXID1 := by rw [hNothing]
      have hAt : polled1.pos = polled.l0.maxTXID := by omega
      rw [hAt, hNothing]
    · rw [hCommit1, hLast]
      exact (hKeeps info hIn _ (by omega) hTo).symm
  cases hReplace : l1.replace with
  | true =>
    have hLate := hSpan1.late hReplace
    have hAt : polled1.pos = l1.maxTXID := by omega
    have hSpans := hSpan1.spans
    rw [hReplace, ← hAt, hCommit1] at hSpans
    rw [hReplace] at hEq
    have hReplaced : polled1.replaceIndex = true := by
      rw [← hEq]
      simp [PolledL1.replaceIndex, hReplace]
    refine ⟨by omega, by omega, by simp [hReplaced], ?_, hEnds.edge hTo, ?_⟩
    · rw [← hCommit1, ← hEq]
      rfl
    · have hCombined : polled1.combined = l1.index := by
        rw [← hEq]
        simp [PolledL1.combined, hReplace]
      rw [hReplaced, hCombined]
      exact hSpans
  | false =>
    have hGrown0 := hSpan1.kept hReplace
    rw [hCommit1] at hGrown0
    rw [hReplace] at hEq
    have hReplaced : polled1.replaceIndex = polled.l0.replace := by
      rw [← hEq]
      simp [PolledL1.replaceIndex, hReplace]
    have hCombined : polled1.combined = l1.index ++ polled.l0.index := by
      rw [← hEq]
      simp [PolledL1.combined, hReplace]
    have hSpans :=
      hSpan0.spans.over hSpan1.spans (by rw [hReplace]; exact Nat.le_trans hCursor hFrom)
        hSpan1.count
        (Nat.le_trans (Nat.le_of_eq hCommit0) hGrown0)
        (Nat.le_of_eq hCommit1)
    rw [← hTop, ← hCombined, ← hReplaced] at hSpans
    refine ⟨by omega, by omega, ?_, ?_, hEnds.edge hTo, hSpans⟩
    · intro hKept
      rw [hReplaced] at hKept
      have hGrown := hSpan0.kept hKept
      omega
    · rw [← Nat.max_eq_right hGrown0, ← hCommit1, ← hEq]
      rfl

/- Applying the poll. -/
theorem VFSFile.Covers.applyPoll (hCovers : f.Covers H) {polled} (hSpan : SpanL1 H f polled) :
    (f.applyPoll polled).Covers H := by
  have hSpans := hSpan.spans
  refine ⟨?_, ?_, hSpan.edge, applyPoll_unlocked hCovers.unlocked polled⟩
  · rw [view_applyPoll hCovers.unlocked]
    have hPos : (f.applyPoll polled).pos = polled.pos := rfl
    cases hReplace : polled.replaceIndex with
    | true =>
      rw [hReplace] at hSpans
      intro p
      have hPages :=
        hSpans.hasPage_iff History.not_hasPage_zero (Nat.zero_le _) hSpan.count (Nat.zero_le _) p
      rw [List.append_nil] at hPages
      exact hPages
    | false =>
      rw [hReplace] at hSpans
      exact hSpans.hasPage_iff hCovers.pages hSpan.le hSpan.count (hSpan.grown hReplace)
  · have hPos : (f.applyPoll polled).pos = polled.pos := rfl
    rw [hPos, ← hSpan.newCommit]
    unfold VFSFile.applyPoll
    dsimp only
    split
    · rfl
    rename_i hNot
    have hKept : polled.replaceIndex = false := Bool.eq_false_iff.mpr hNot
    have hGrown := hSpan.grown hKept
    rw [← hSpan.newCommit, ← hCovers.commit] at hGrown
    split
    · rfl
    rename_i hSame
    by_cases hNil : polled.combined = []
    · rw [hKept, if_neg Bool.false_ne_true, hNil] at hSpans
      have hLe := hSpans.sizeAt_le_of_nil hSpan.le hSpan.count hSpan.edge
      rw [← hSpan.newCommit, ← hCovers.commit] at hLe
      omega
    · have hLe := Nat.le_of_not_lt (fun hLt => hSame ⟨hNil, hLt⟩)
      omega

end WholePoll

-- Opening

/-
  No file of the replica holds a page that is cut off by
  the newest transaction.
-/
def Published.NothingCut (H : History lib) (r : Published D) : Prop :=
  ∀ level, ∀ obj ∈ r.objects level, ∀ p, (obj.2.page p).isSome →
    ∀ n, obj.1.maxTXID ≤ n → n ≤ r.uploaded → p ≤ sizeAt H.tx n

section Open

variable {H : History lib} {fetch : FileInfo → Except Err (Layer D)} {infos : List FileInfo}

/- The index of a plan that holds no page cut off later. -/
theorem buildIndexMap_spans {n : Nat} (hFetch : ∀ info file, fetch info = .ok file →
    1 ≤ info.minTXID ∧ info.maxTXID ≤ H.count ∧ file = slice H.tx info.minTXID info.maxTXID)
    (hCut : ∀ info file, fetch info = .ok file → ∀ p,
      (file.page p).isSome → info.maxTXID ≤ n → p ≤ sizeAt H.tx n)
    (hChain : IsChain minTXID maxTXID 0 infos) (hLe : reach maxTXID 0 infos ≤ n) {index}
    {commit : Nat} (hBuild : buildIndexMap fetch infos = .ok (index, commit)) :
    Spans H 0 (reach maxTXID 0 infos) (sizeAt H.tx n) index ∧
      commit = sizeAt H.tx (reach maxTXID 0 infos) ∧
      reach maxTXID 0 infos ≤ H.count := by
  induction infos using List.reverseRecOn generalizing index commit with
  | nil =>
    rcases Prod.mk.inj (Except.ok.inj hBuild) with ⟨rfl, rfl⟩
    exact ⟨spans_nil (Nat.le_refl 0), rfl, Nat.zero_le _⟩
  | append_singleton infos info ih =>
    rw [isChain_append_singleton] at hChain
    rw [reach_append_singleton] at hLe ⊢
    rcases hChain with ⟨hInit, hStart, hEnd⟩
    rcases buildIndexMap_concat hBuild with ⟨before, size, file, hBefore, hFile, rfl, rfl⟩
    rcases ih hInit (by omega) hBefore with ⟨hSpans, _, _⟩
    have hHolds := hCut info file hFile
    rcases hFetch info file hFile with ⟨hMin, hMax, rfl⟩
    exact ⟨hSpans.add hMin hMax hStart (Nat.le_of_lt hEnd) (Nat.le_refl _)
      (fun p hSome => hHolds p hSome hLe), rfl, hMax⟩

/- Building the index of a plan. -/
theorem VFSFile.rebuildIndex_covers {r : Published D} (hFaithful : r.Faithful H)
    (hCut : r.NothingCut H) (hEnds : H.EndsOnPages r.uploaded) {fetchErr : FileInfo → Option Err}
    {faults : Nat → ListFault} {timestamp : Int} {f f' : VFSFile}
    (hPlan : calcRestorePlan (fun level =>
      ltxFiles r.content (faults level) level 0)
        0 timestamp = .ok infos) (hOpen : f.rebuildIndex (r.fetch fetchErr) infos = .ok f') :
    f'.Covers H := by
  have hLayout := hFaithful.layout
  have hPos := (hLayout.rebuildIndex hPlan hOpen).1
  have hChain := (plan_isChain hLayout.others hLayout.sorted hPlan).1
  unfold rebuildIndex at hOpen
  split at hOpen
  · simp at hOpen
  rename_i index commit hBuild
  rw [Except.ok.injEq, getLast_eq_reach] at hOpen
  generalize hReach : reach maxTXID 0 infos = n at *
  have hAt : f'.pos = n := by rw [← hOpen]
  rw [hAt] at hPos
  rcases buildIndexMap_spans (fun info file hFetch => hFaithful.fetch hFetch) (by
    intro info file hFetch p hSome hLe
    exact hCut _ _ (mem_of_fetch hFetch) p hSome n hLe hPos)
      hChain (Nat.le_of_eq hReach) hBuild with
    ⟨hSpans, hCommit, hCount⟩
  rw [hReach] at hSpans hCommit hCount
  have hEmpty : f'.pending = [] ∧ f'.pendingReplace = false := by
    rw [← hOpen]
    exact ⟨rfl, rfl⟩
  refine ⟨?_, ?_, ?_, fun _ => hEmpty⟩
  · intro p
    have hPages :=
      hSpans.hasPage_iff History.not_hasPage_zero (Nat.zero_le n) hCount (Nat.zero_le _) p
    rw [List.append_nil] at hPages
    rw [hAt, view_eq_index hEmpty, ← hOpen]
    exact hPages
  · rw [hAt, ← hOpen]
    exact hCommit
  · rw [hAt]
    exact hEnds.edge hPos

end Open

-- Runs

/-
  When a file is opened, nothing on the replica is cut off
  by the newest transaction. When a poll reads a level,
  every transaction after the file's position that shrinks
  the database writes all the pages it leaves, and the size
  stays the same after the level-1 files that are not read
  yet. At both moments no transaction ends the database
  with the lock page. A lock does not take over another
  position from a file of the same VFS.
-/
def SizesInOrder (H : History lib) (s : VfsState D) : VfsOp → Prop
| .openFile => s.replica.NothingCut H ∧ H.EndsOnPages s.replica.uploaded
| .poll =>
  H.ShrinksWhole s.file.pos s.replica.uploaded ∧ s.replica.KeepsSize H s.file.maxTXID1 ∧
    H.EndsOnPages s.replica.uploaded
| .lock (some shared) elock =>
  LockType.reserved.rank ≤ elock.rank → shared.lastSyncedTXID ≤ s.file.expectedTXID ∨
    shared.lastSyncedTXID = s.file.pos
| _ => True

/- What a poll that is going on has read. -/
def PollPhase.Spans (H : History lib) (f : VFSFile) : PollPhase → Prop
| .polledL0 polled => SpanL0 H f polled
| .polledL1 polled => SpanL1 H f polled
| _ => True

structure VfsState.Covering (H : History lib) (s : VfsState D) : Prop where
  follows : s.Follows H
  faithful : s.replica.Faithful H
  file : s.file.Covers H
  phase : s.phase.Spans H s.file

section File

variable {H : History lib} {f f' : VFSFile}

theorem VFSFile.new_covers (writeEnabled : Bool) : (new writeEnabled).Covers H :=
  ⟨History.not_hasPage_zero, rfl, Or.inl rfl, fun _ => ⟨rfl, rfl⟩⟩

theorem VFSFile.Covers.of_same (hCovers : f.Covers H) (hView : f'.view = f.view)
    (hPos : f'.pos = f.pos) (hCommit : f'.commit = f.commit)
    (hUnlocked : f'.lockType = .none → f'.pending = [] ∧ f'.pendingReplace = false) :
    f'.Covers H := by
  refine ⟨?_, ?_, ?_, hUnlocked⟩
  · rw [hView, hPos]
    exact hCovers.pages
  · rw [hCommit, hPos]
    exact hCovers.commit
  · rw [hPos]
    exact hCovers.edge

theorem PollPhase.Spans.of_same {phase : PollPhase} (hSpans : phase.Spans H f)
    (hPos : f'.pos = f.pos) (hL1 : f'.maxTXID1 = f.maxTXID1) (hCommit : f'.commit = f.commit) :
    phase.Spans H f' := by
  cases phase with
  | closed | idle => trivial
  | polledL0 polled =>
    rcases hSpans with ⟨hL0, hCursor, hBase, hNew⟩
    refine ⟨?_, ?_, hBase, hNew⟩
    · rw [hPos, hCommit]
      exact hL0
    · rw [hL1]
      exact hCursor
  | polledL1 polled =>
    rcases hSpans with ⟨hLe, hCount, hGrown, hNew, hEdge, hSpans⟩
    rw [← hPos] at hLe hGrown hSpans
    exact ⟨hLe, hCount, hGrown, hNew, hEdge, hSpans⟩

end File

namespace VfsState

variable {H : History lib} {s s' : VfsState D}

theorem start_covering (writeEnabled : Bool) : (start writeEnabled : VfsState D).Covering H :=
  ⟨start_follows writeEnabled, Faithful.empty, new_covers writeEnabled, trivial⟩

/- Steps that meet the condition keep the index exact. -/
theorem Covering.step (hBound : H.count + 1 < bound) (hCovering : s.Covering H) {op : VfsOp}
    (hAllowed : SizesInOrder H s op) (hStep : Step H s op s') : s'.Covering H := by
  rcases hCovering with ⟨hFollows, hFaithful, hFile, hPhase⟩
  -- a lock keeps the view and the position
  have hLocked : ∀ vfs elock f, op = .lock vfs elock → s.file.lock vfs elock = .ok f →
    f.view = s.file.view ∧ f.pos = s.file.pos ∧ f.maxTXID1 = s.file.maxTXID1 ∧
      f.commit = s.file.commit ∧
      (f.lockType = .none → f.pending = [] ∧ f.pendingReplace = false) := by
    rintro vfs elock f rfl hLock
    refine lock_keeps hFile.unlocked ?_ hLock
    rintro shared rfl
    exact hAllowed
  have hFollows' : s'.Follows H := by
    refine hFollows.step ?_ hStep
    rintro vfs elock rfl
    cases hStep with
    | lock _ hLock => exact (hLocked _ _ _ rfl hLock).2.1
  cases hStep with
  | change hChange => exact ⟨hFollows', hFaithful.change hChange, hFile, hPhase⟩
  | openFile _ hPlan hOpen =>
    exact ⟨hFollows', hFaithful, rebuildIndex_covers hFaithful hAllowed.1
      hAllowed.2 hPlan hOpen, trivial⟩
  | openNew hIs =>
    rcases hFollows.closed hIs with ⟨writeEnabled, hNew⟩
    refine ⟨hFollows', hFaithful, ?_, trivial⟩
    rw [hNew]
    exact new_covers writeEnabled
  | pollL0 _ hPoll =>
    exact ⟨hFollows', hFaithful, hFile, hFile.pollL0 hBound hFaithful hFollows.pos hAllowed.1
      hAllowed.2.2 hPoll⟩
  | pollL1 hIs hPoll =>
    have hWithin := hFollows.phase
    rw [hIs] at hWithin hPhase
    have hSpan : SpanL0 H s.file _ := hPhase
    exact ⟨hFollows', hFaithful, hFile, hSpan.pollL1 hBound hFaithful hFollows.cursor
      hFile.commit hWithin.1 hAllowed.1 hAllowed.2.1
      hAllowed.2.2 hPoll⟩
  | abandon => exact ⟨hFollows', hFaithful, hFile, trivial⟩
  | apply hIs =>
    rw [hIs] at hPhase
    exact ⟨hFollows', hFaithful, hFile.applyPoll hPhase, trivial⟩
  | lock _ hLock =>
    rcases hLocked _ _ _ rfl hLock with ⟨hView, hPos, hL1, hCommit, hEmpty⟩
    exact ⟨hFollows', hFaithful, hFile.of_same hView hPos hCommit hEmpty,
      hPhase.of_same hPos hL1 hCommit⟩
  | unlock _ hUnlock =>
    rcases unlock_spec hUnlock with ⟨hView, hPos, hL1, hCommit, hEmpty⟩
    exact ⟨hFollows', hFaithful, hFile.of_same hView hPos hCommit (fun _ => hEmpty),
      hPhase.of_same hPos hL1 hCommit⟩

theorem Run.covering (hBound : H.count + 1 < bound) (hCovering : s.Covering H)
    (hRun : Run H (SizesInOrder H) s s') : s'.Covering H := by
  induction hRun with
  | refl => exact hCovering
  | tail _ hLast ih =>
    rcases hLast with ⟨op, hAllowed, hStep⟩
    exact ih.step hBound hAllowed hStep

end VfsState

/-
  The index has exactly the pages of the database at the
  file's position, and both sizes are that of the database.
-/
def VFSFile.CoversDatabase (H : History lib) (f : VFSFile) : Prop :=
  (∀ p, (f.index.lookup p).isSome ↔ H.HasPage f.pos p) ∧ f.commit = sizeAt H.tx f.pos ∧
    ∀ pageSize, f.fileSize pageSize = sizeAt H.tx f.pos * pageSize

/-
  In every run in which files are opened and polled only
  while the sizes are in order, the index of a file without
  a lock covers exactly the database at its position.
-/
theorem index_covers_database
    {H : History lib}
    (hBound : H.count + 1 < bound)
    {writeEnabled : Bool}
    {s : VfsState D}
    (hRun :
      VfsState.Run H (SizesInOrder H)
        (VfsState.start writeEnabled) s)
    (hUnlocked : s.file.lockType = .none) :
    s.file.CoversDatabase H := by
  have hFile : s.file.Covers H := (hRun.covering hBound (VfsState.start_covering writeEnabled)).file
  have hEmpty := hFile.unlocked hUnlocked
  have hPages := hFile.pages
  rw [view_eq_index hEmpty] at hPages
  refine ⟨hPages, hFile.commit, ?_⟩
  intro pageSize
  rw [fileSize_eq, hEmpty.1, List.nil_append, maxKey_eq_sizeAt hPages hFile.edge]

theorem sizeAt_threeVersions {t : Nat} (hPos : 1 ≤ t) : sizeAt threeVersions.tx t = 1 := by
  rcases Nat.exists_eq_add_of_le' hPos with ⟨i, rfl⟩
  rfl

theorem afterUpload_sizes : (afterUpload empty).NothingCut threeVersions ∧
    threeVersions.EndsOnPages (afterUpload empty).uploaded := by
  constructor
  · intro level obj hMem p hSome n hFrom _
    match level with
    | 0 =>
      rw [List.mem_singleton.mp hMem] at hSome hFrom
      have hPage : p = 1 := by
        by_contra hNe
        simp [empty, threeVersions, hNe] at hSome
      exact Nat.le_of_eq (hPage.trans (sizeAt_threeVersions hFrom).symm)
    | l + 1 => cases hMem
  · intro t hPos _
    rw [sizeAt_threeVersions hPos]
    decide

/- Before the second transaction is polled. -/
theorem secondUpload_sizes
    {s : VfsState Nat}
    (hReplica : s.replica = afterUpload (afterUpload empty)) :
    SizesInOrder threeVersions s .poll := by
  refine ⟨?_, ?_, ?_⟩
  · intro t hFrom _ hShrinks
    match t with
    | 0 | 1 => simp [sizeAt] at hShrinks
    | t + 2 => exact absurd hShrinks (Nat.lt_irrefl 1)
  · rintro info ⟨hMem, -⟩
    rw [hReplica] at hMem
    simp [Published.content, afterUpload, Published.append, empty] at hMem
  · intro t hPos _
    rw [sizeAt_threeVersions hPos]
    decide

theorem caughtUpState_covers_database :
    caughtUpState.file.lockType = .none ∧
    caughtUpState.file.CoversDatabase threeVersions := by
  refine ⟨rfl, ?_⟩
  refine index_covers_database (by decide)
    (caughtUpState_reached ?_ ?_ ?_) rfl
  · exact openedState_reached _ (fun _ => trivial)
      afterUpload_sizes
  · exact fun _ => ⟨trivial, trivial, trivial, trivial⟩
  · exact fun _ hReplica _ _ => secondUpload_sizes hReplica

-- A Poll Of A Smaller Database

/-
  Three pages, of which the second transaction cuts off the
  last and writes the first.
-/
def shrinking : History referenceLibrary where
  count := 2
  tx t :=
    if t = 1 then
      ⟨3, fun p =>
        if 1 ≤ p ∧ p ≤ 3 then some (10 + p) else none⟩
    else ⟨2, fun p => if p = 1 then some 21 else none⟩
  grows := by
    constructor
    · intro t hCount p hAfter hSize _
      match t with
      | 0 =>
        simp only [sizeAt] at hAfter hSize
        simp only [Nat.zero_add, if_true] at hSize ⊢
        rw [if_pos ⟨hAfter, hSize⟩]
        rfl
      | 1 =>
        simp [sizeAt] at hAfter hSize
        omega
      | t + 2 => omega
    · intro t _ p hExempt
      split
      · simp [hExempt, referenceLibrary]
      · simp [hExempt, referenceLibrary]
  within := by
    intro t _ _ p hSome
    split
    · rename_i hFirst
      by_contra hNot
      simp [hFirst, hNot] at hSome
    rename_i hLater
    simp only [hLater, if_false] at hSome
    by_cases hPage : p = 1
    · simp [hPage]
    · simp [hPage] at hSome

def shrinkingUpload (r : Published Nat) : Published Nat :=
  { r.append 0 (uploadOf (r.uploaded + 1), shrinking.tx (r.uploaded + 1)) with
    uploaded := r.uploaded + 1 }

/-
  After the poll the index has only the page that the second
  transaction wrote. The second page of the database is
  missing, and with it the end of the file.
-/
theorem index_shrunk_after_poll :
    ∃ s,
      VfsState.Run shrinking (fun _ _ => True)
        (VfsState.start false) s ∧
      s.file.lockType = .none ∧
      s.file.pos = 2 ∧
      shrinking.replay 2 = [21, 12] ∧
      s.file.index = [(1, ⟨0, 2, 2⟩)] ∧
      s.file.fileSize 4096 = 1 * 4096 ∧
      ¬ s.file.CoversDatabase shrinking := by
  have hUpload : ∀ r : Published Nat, r.uploaded + 1 ≤ shrinking.count →
    Change shrinking r none (shrinkingUpload r) :=
    fun r hCount => Change.upload rfl rfl rfl hCount
  have hPlan : calcRestorePlan (fun level =>
    ltxFiles (shrinkingUpload empty).content .none level 0)
      0 0 = .ok [uploadOf 1] := by
    decide
  have hRun : VfsState.Run shrinking (fun _ _ => True) (VfsState.start false) _ :=
    (((((Relation.ReflTransGen.single ⟨_, trivial, .change (hUpload _ (by decide))⟩).tail
      ⟨_, trivial, @VfsState.Step.openFile _ _ _ _ (fun _ => .none) (fun _ => none) _ _ rfl hPlan
        rfl⟩).tail
      ⟨_, trivial, .change (hUpload _ (by decide))⟩).tail
      ⟨_, trivial, @VfsState.Step.pollL0 _ _ _ _ calmPoll _ rfl rfl⟩).tail
      ⟨_, trivial, @VfsState.Step.pollL1 _ _ _ _ calmPoll _ _ rfl rfl⟩).tail
      ⟨_, trivial, .apply rfl⟩
  refine ⟨_, hRun, rfl, rfl, by decide, rfl, rfl, ?_⟩
  intro hCovers
  have hMissing := (hCovers.1 2).mpr ⟨by decide, by decide, by decide⟩
  cases hMissing

end Replicate
