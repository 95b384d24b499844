import Replicate.DB.WALResume
import Replicate.DB.WALSnapshot

/-
  Reading a WAL in pieces.

  The page map of a WAL is composed of the maps of pieces
  that end with a commit: the map of a later piece goes over
  that of an earlier one, and pages above the size that the
  later piece ends with are dropped. There is one exception.
  A page that a transaction cuts off is dropped from the
  earlier map. If the database then grows past it and the
  page is not written again, the map of the whole WAL has
  it, and the composed one has not.

  Main declarations:
    * `WALFormat.pageMap_append`
    * `wal_pieces_compose`
    * `wal_pieces_differ`
-/

-- Composing Maps

namespace Replicate

open List Option

namespace PageOffsets

/-
  The result of an earlier piece and that of a later one:
  the later map goes over the earlier, without pages above
  its size.
-/
def compose (first second : PageOffsets × Nat × Nat) : PageOffsets × Nat × Nat :=
  if second.1 = [] then first
  else ((second.1 ++ first.1).filter (fun x => decide (x.1 ≤ second.2.2)), second.2)

/- Two results with the same map, end and size. -/
def SameMap (a b : PageOffsets × Nat × Nat) : Prop :=
  (∀ p, a.1.lookup p = b.1.lookup p) ∧ a.2 = b.2

theorem lookup_compose {first second : PageOffsets × Nat × Nat} (hSome : second.1 ≠ []) (p : Nat) :
    (compose first second).1.lookup p = if p ≤ second.2.2 then
      (second.1.lookup p).or (first.1.lookup p)
      else none := by
  unfold compose
  rw [if_neg hSome]
  rw [lookup_filter, lookup_append]

theorem SameMap.compose {a b} (hSame : SameMap a b) (second : PageOffsets × Nat × Nat) :
    SameMap (compose a second) (compose b second) := by
  by_cases hNone : second.1 = []
  · unfold PageOffsets.compose
    rw [if_pos hNone, if_pos hNone]
    exact hSame
  refine ⟨?_, ?_⟩
  · intro p
    rw [lookup_compose hNone, lookup_compose hNone, hSame.1 p]
  · unfold PageOffsets.compose
    rw [if_neg hNone, if_neg hNone]

theorem SameMap.trans {a b c} (hFirst : SameMap a b) (hSecond : SameMap b c) : SameMap a c :=
  ⟨fun p => (hFirst.1 p).trans (hSecond.1 p), hFirst.2.trans hSecond.2⟩

end PageOffsets

-- Two Pieces

namespace WALFormat

variable {D : Type} {F : WALFormat D} {i : Nat} {salts : Salts} {fs gs : List (WALFrame D)}

theorem entries_append (i : Nat) (fs gs : List (WALFrame D)) : F.entries i (fs ++ gs) =
    F.entries (i + fs.length) gs ++ F.entries i fs := by
  induction fs generalizing i with
  | nil => simp [entries]
  | cons f fs ih =>
    rw [cons_append, entries, ih, entries, append_assoc, length_cons]
    congr 2
    omega

theorem lookup_entries_eq_none_iff {p : Nat} :
    (F.entries i fs).lookup p = none ↔ ∀ f ∈ fs, f.pgno ≠ p := by
  have hEntry := @lookup_entries D F p i fs
  rw [← newestPage_eq_none_iff]
  cases hLookup : (F.entries i fs).lookup p with
  | none =>
    rw [hLookup] at hEntry
    exact ⟨fun _ => hEntry, fun _ => rfl⟩
  | some off =>
    rw [hLookup] at hEntry
    rcases hEntry with ⟨_, _, _, _, hSome⟩
    rw [hSome]
    simp

/- The frames of a WAL whose commits name enough pages. -/
def Proper (fs : List (WALFrame D)) : Prop :=
  ∀ f ∈ fs, f.commit ≠ 0 → f.pgno ≤ f.commit

instance (fs : List (WALFrame D)) : Decidable (Proper fs) := by
  unfold Proper
  infer_instance

theorem Proper.committed (hProper : Proper fs) (hCommits : ∀ f ∈ fs.getLast?, f.commit ≠ 0) :
    Committed fs :=
  fun f hf => ⟨hCommits f hf, hProper f (mem_of_getLast? hf) (hCommits f hf)⟩

theorem lookup_pageMap {rd} (hCommitted : Committed rd.rest) (p : Nat) :
    (F.pageMap rd).1.lookup p = if p ≤ (F.pageMap rd).2.2 then
      (F.entries rd.frameN rd.rest).lookup p
      else none := by
  by_cases hNil : rd.rest = []
  · rw [pageMap_nil hNil, hNil]
    simp [entries]
  · rw [pageMap_eq hNil hCommitted]
    exact PageOffsets.lookup_filter _ _ _

theorem pageMap_ne_nil {rd} (hNonempty : rd.rest ≠ []) (hCommitted : Committed rd.rest) :
    (F.pageMap rd).1 ≠ [] := by
  intro hNone
  have hLast := getLast?_eq_some_getLast hNonempty
  have hWithin := (hCommitted _ (mem_def.mpr hLast)).2
  have hLookup := @lookup_pageMap D F rd hCommitted (rd.rest.getLast hNonempty).pgno
  have hSize : (F.pageMap rd).2.2 = (rd.rest.getLast hNonempty).commit := by
    rw [pageMap_eq hNonempty hCommitted]
    unfold commitOf
    rw [hLast]
  rw [hNone, hSize, if_pos hWithin] at hLookup
  exact lookup_entries_eq_none_iff.mp hLookup.symm _ (getLast_mem hNonempty) rfl

/-
  The first piece has the page above its size, and the
  second grows past it without writing it.
-/
def RegrownPage (fs : List (WALFrame D))
    (first second : PageOffsets × Nat × Nat) (p : Nat) : Prop :=
  first.2.2 < p ∧ p ≤ second.2.2 ∧ (∃ f ∈ fs, f.pgno = p) ∧ second.1.lookup p = none

/-
  The page map of two pieces, of which the first ends with
  a commit.
-/
theorem pageMap_append (i : Nat) (salts : Salts) (hCommits : ∀ f ∈ fs.getLast?, f.commit ≠ 0)
    (hFirst : Proper fs) (hSecond : Proper gs) : ((F.pageMap ⟨i + fs.length, salts, gs⟩).1 = [] →
      F.pageMap ⟨i, salts, fs ++ gs⟩ = F.pageMap ⟨i, salts, fs⟩) ∧
    ((F.pageMap ⟨i + fs.length, salts, gs⟩).1 ≠ [] → (F.pageMap ⟨i, salts, fs ++ gs⟩).2 =
      (F.pageMap ⟨i + fs.length, salts, gs⟩).2 ∧
        ∀ p, (F.pageMap ⟨i, salts, fs ++ gs⟩).1.lookup p = (PageOffsets.compose
          (F.pageMap ⟨i, salts, fs⟩)
          (F.pageMap ⟨i + fs.length, salts, gs⟩)).1.lookup p ↔
            ¬ RegrownPage fs (F.pageMap ⟨i, salts, fs⟩)
              (F.pageMap ⟨i + fs.length, salts, gs⟩) p) := by
  rcases committedPart_spec gs with ⟨⟨tail, hSplit, hOpen⟩, hLast⟩
  -- what comes after the last commit does not count
  have hWhole : F.pageMap ⟨i, salts, fs ++ gs⟩ = F.pageMap ⟨i, salts, fs ++ committedPart gs⟩ := by
    conv_lhs => rw [hSplit, ← append_assoc]
    exact pageMap_append_open hOpen
  have hPiece : F.pageMap ⟨i + fs.length, salts, gs⟩ = F.pageMap
    ⟨i + fs.length, salts, committedPart gs⟩ := by
    conv_lhs => rw [hSplit]
    exact pageMap_append_open hOpen
  have hProper : Proper (committedPart gs) := by
    intro f hf
    apply hSecond f
    rw [hSplit]
    exact mem_append_left tail hf
  rw [hWhole, hPiece]
  by_cases hNil : committedPart gs = []
  · rw [hNil, append_nil]
    refine ⟨fun _ => rfl, fun hSome => ?_⟩
    exact absurd (congrArg Prod.fst (@pageMap_nil D F ⟨i + fs.length, salts, []⟩ rfl)) hSome
  have hPart : Committed (committedPart gs) := hProper.committed hLast
  have hBoth : Committed (fs ++ committedPart gs) := by
    intro f hf
    apply hPart f
    rw [getLast?_append, getLast?_eq_some_getLast hNil] at hf
    rw [getLast?_eq_some_getLast hNil]
    exact hf
  have hSome := @pageMap_ne_nil D F ⟨i + fs.length, salts, committedPart gs⟩ hNil hPart
  have hEnds : (F.pageMap ⟨i, salts, fs ++ committedPart gs⟩).2 = (F.pageMap
    ⟨i + fs.length, salts, committedPart gs⟩).2 := by
    rw [@pageMap_eq D F ⟨i, salts, fs ++ committedPart gs⟩
      (append_ne_nil_of_right_ne_nil fs hNil) hBoth,
      @pageMap_eq D F ⟨i + fs.length, salts, committedPart gs⟩ hNil hPart]
    rw [commitOf_append hNil, length_append, Nat.add_assoc]
  refine ⟨fun hNone => absurd hNone hSome, fun _ => ?_⟩
  refine ⟨hEnds, fun p => ?_⟩
  have hFirstPage := @lookup_pageMap D F ⟨i, salts, fs⟩ (hFirst.committed hCommits) p
  have hSecondPage := @lookup_pageMap D F ⟨i + fs.length, salts, committedPart gs⟩ hPart p
  have hPage := @lookup_pageMap D F ⟨i, salts, fs ++ committedPart gs⟩ hBoth p
  rw [hEnds, entries_append, lookup_append] at hPage
  rw [PageOffsets.lookup_compose hSome, hPage]
  unfold RegrownPage
  by_cases hSize : p ≤ (F.pageMap ⟨i + fs.length, salts, committedPart gs⟩).2.2
  · rw [if_pos hSize] at hSecondPage ⊢
    rw [if_pos hSize, ← hSecondPage]
    cases hNew : (F.pageMap ⟨i + fs.length, salts, committedPart gs⟩).1.lookup p with
    | some off => simp
    | none =>
      rw [none_or, none_or, hFirstPage]
      by_cases hOld : p ≤ (F.pageMap ⟨i, salts, fs⟩).2.2
      · rw [if_pos hOld]
        simp [Nat.not_lt.mpr hOld]
      rw [if_neg hOld, lookup_entries_eq_none_iff]
      constructor
      · rintro hNever ⟨_, _, ⟨f, hf, hPgno⟩, _⟩
        exact hNever f hf hPgno
      · intro hNot f hf hPgno
        exact hNot ⟨Nat.not_le.mp hOld, hSize, ⟨f, hf, hPgno⟩, rfl⟩
  · rw [if_neg hSize, if_neg hSize]
    simp [hSize]

/-
  A transaction that grows the database past a page that an
  earlier frame has writes that page.
-/
def RewritesGrowth (all : List (WALFrame D)) : Prop :=
  ∀ older f newer g later, all = older ++ f :: (newer ++ g :: later) →
    f.commit ≠ 0 → g.commit ≠ 0 → ∀ p, f.commit < p → p ≤ g.commit →
      (∃ x ∈ older ++ [f], x.pgno = p) → ∃ y ∈ newer ++ [g], y.pgno = p

/- The last commit of frames that have a page map. -/
theorem pageMap_last_commit {salts} (hProper : Proper gs)
    (hSome : (F.pageMap ⟨i, salts, gs⟩).1 ≠ []) :
    ∃ newer g later, gs = newer ++ g :: later ∧ g.commit ≠ 0 ∧
      (F.pageMap ⟨i, salts, gs⟩).2.2 = g.commit ∧
      ∀ p, p ≤ g.commit → (F.pageMap ⟨i, salts, gs⟩).1.lookup p = none →
        ∀ y ∈ newer ++ [g], y.pgno ≠ p := by
  rcases committedPart_spec gs with ⟨⟨tail, hSplit, hOpen⟩, hLast⟩
  have hPiece : F.pageMap ⟨i, salts, gs⟩ = F.pageMap ⟨i, salts, committedPart gs⟩ := by
    conv_lhs => rw [hSplit]
    exact pageMap_append_open hOpen
  rw [hPiece] at hSome ⊢
  rcases eq_nil_or_concat (committedPart gs) with hNil | ⟨newer, g, hPart⟩
  · rw [hNil] at hSome
    exact absurd (congrArg Prod.fst (@pageMap_nil D F ⟨i, salts, []⟩ rfl)) hSome
  rw [concat_eq_append] at hPart
  rw [hPart] at hLast hSplit hSome ⊢
  rw [append_assoc, singleton_append] at hSplit
  have hCommit : g.commit ≠ 0 := hLast g (by simp)
  have hCommitted : Committed (newer ++ [g]) := by
    intro f hf
    rw [getLast?_concat, mem_some_iff] at hf
    rw [← hf]
    refine ⟨hCommit, hProper g ?_ hCommit⟩
    rw [hSplit]
    simp
  have hSize : (F.pageMap ⟨i, salts, newer ++ [g]⟩).2.2 = g.commit := by
    rw [@pageMap_eq D F ⟨i, salts, newer ++ [g]⟩ (by simp) hCommitted]
    simp [commitOf]
  refine ⟨newer, g, tail, hSplit, hCommit, hSize, ?_⟩
  intro p hWithin hNone
  rw [lookup_pageMap hCommitted, hSize, if_pos hWithin] at hNone
  exact lookup_entries_eq_none_iff.mp hNone

theorem RewritesGrowth.not_regrownPage {salts} {j p : Nat} {rest}
    (hRewrites : RewritesGrowth (fs ++ gs ++ rest)) (hCommits : ∀ f ∈ fs.getLast?, f.commit ≠ 0)
    (hFirst : Proper fs) (hSecond : Proper gs) (hSome : (F.pageMap ⟨j, salts, gs⟩).1 ≠ []) :
    ¬ RegrownPage fs (F.pageMap ⟨i, salts, fs⟩) (F.pageMap ⟨j, salts, gs⟩) p := by
  rintro ⟨hAbove, hWithin, hOld, hNone⟩
  rcases pageMap_last_commit hSecond hSome with ⟨newer, g, later, hSplit, hCommit, hSize, hPages⟩
  rcases eq_nil_or_concat fs with rfl | ⟨older, f, rfl⟩
  · simp at hOld
  rw [concat_eq_append] at *
  have hEnds : f.commit ≠ 0 := hCommits f (by simp)
  have hStart : (F.pageMap ⟨i, salts, older ++ [f]⟩).2.2 = f.commit := by
    rw [@pageMap_eq D F ⟨i, salts, older ++ [f]⟩ (by simp) (hFirst.committed hCommits)]
    simp [commitOf]
  rw [hStart] at hAbove
  rw [hSize] at hWithin
  have hAll : older ++ [f] ++ gs ++ rest = older ++ f :: (newer ++ g :: (later ++ rest)) := by
    rw [hSplit]
    simp
  rcases hRewrites older f newer g (later ++ rest) hAll hEnds hCommit p hAbove hWithin hOld with
    ⟨y, hy, hPgno⟩
  exact hPages p hWithin hNone y hy hPgno

end WALFormat

-- Pieces Of A File

namespace WALBytes

open PageOffsets (compose SameMap)
open WALFormat (Proper RegrownPage RewritesGrowth)

/- The first frames of a file. -/
def firstFrames (content : List UInt8) (r : Reader) (n : Nat) : List (WALFrame (List UInt8)) :=
  (range' 0 n).map (frame content r.pageSize)

/-
  The page map of a file, from its start or from the end of
  some frames.
-/
def Reads (file : List UInt8) (r : Reader) (start : Nat)
    (result : PageOffsets × Nat × Nat) : Prop :=
  ∃ r', (if start = 0 then
    newReader file
    else
      newReaderWithOffset file (frameOffset r start) r.salts) = .ok r' ∧
      r'.Maps file result

/-
  The page maps of the pieces between some cuts. The last
  piece is read to the end of the file.
-/
def ReadsPieces (content : List UInt8) (r : Reader) :
    Nat → List Nat → List (PageOffsets × Nat × Nat) → Prop
| start, [], [x] => Reads content r start x
| start, cut :: cuts, x :: xs =>
  Reads (content.take (frameOffset r cut)) r start x ∧ ReadsPieces content r cut cuts xs
| _, _, _ => False

/- Cuts at the ends of commit frames, in order. -/
structure CommitEnds (content : List UInt8) (r : Reader) (n : Nat) (cuts : List Nat) : Prop where
  sorted : cuts.Pairwise (· ≤ ·)
  commits : ∀ k ∈ cuts, 1 ≤ k ∧ k ≤ n ∧ (frame content r.pageSize (k - 1)).commit ≠ 0

section Pieces

variable {content : List UInt8} {r : Reader} {k l n : Nat}

theorem reads_whole (hOpen : newReader content = .ok r)
    (hPage : IsPageSize r.pageSize) (hRun : IsLongestRun content r n) (hLe : k ≤ n) :
    Reads content r k (pieceMap content r k n) := by
  have hAt := Reader.at_of_newReader hOpen hPage
  have hMaps := resumed_maps hAt hRun hLe
  refine ⟨resumed content r k, ?_, hMaps⟩
  split
  · rename_i hZero
    rw [hZero, resumed_zero hAt]
    exact hOpen
  · rename_i hPos
    exact newReaderWithOffset_eq hOpen hPage hRun (Nat.one_le_iff_ne_zero.mpr hPos) hLe

theorem reads_cut (hOpen : newReader content = .ok r)
    (hPage : IsPageSize r.pageSize) (hRun : IsLongestRun content r n) (hLe : k ≤ l) (hEnd : l ≤ n) :
    Reads (content.take (frameOffset r l)) r k (pieceMap content r k l) := by
  have hAt := Reader.at_of_newReader hOpen hPage
  have hInside : frameOffset r l ≤ content.length := by
    cases l with
    | zero =>
      have hNonempty := hAt.nonempty
      unfold frameOffset
      omega
    | succ l =>
      have hComplete := (hRun.valid l hEnd).complete
      rw [hAt.size] at hComplete
      exact hComplete
  have hHeader : walHeaderSize ≤ frameOffset r l := Nat.le_add_right walHeaderSize _
  have hCut := newReader_take hOpen hHeader hInside
  have hReads := reads_whole hCut hPage (isLongestRun_take hRun hEnd) hLe
  rw [pieceMap_take (Nat.le_refl l)] at hReads
  exact hReads

theorem firstFrames_split (hLe : k ≤ l) : firstFrames content r l =
    firstFrames content r k ++ (range' k (l - k)).map (frame content r.pageSize) := by
  have hRange : range' 0 k ++ range' (0 + k) (l - k) = range' 0 (k + (l - k)) := range'_append_1
  rw [Nat.zero_add, Nat.add_sub_cancel' hLe] at hRange
  unfold firstFrames
  rw [← map_append, hRange]

theorem length_firstFrames : (firstFrames content r k).length = k := by
  simp [firstFrames]

theorem getLast_firstFrames {f} (hLast : f ∈ (firstFrames content r k).getLast?) :
    1 ≤ k ∧ f = frame content r.pageSize (k - 1) := by
  cases k with
  | zero => simp [firstFrames] at hLast
  | succ k =>
    have hSplit : firstFrames content r (k + 1) = firstFrames content r k ++
      [frame content r.pageSize k] := by
      rw [firstFrames_split (Nat.le_succ k)]
      simp
    rw [hSplit, getLast?_concat, mem_some_iff] at hLast
    exact ⟨Nat.succ_pos k, hLast.symm⟩

/- Two pieces of the valid frames. -/
theorem pieceMap_split (hLe : k ≤ l) (hEnd : l ≤ n) (hProper : Proper (firstFrames content r n))
    (hAligned : 1 ≤ k → (frame content r.pageSize (k - 1)).commit ≠ 0) :
    ((pieceMap content r k l).1 = [] → pieceMap content r 0 l = pieceMap content r 0 k) ∧
    ((pieceMap content r k l).1 ≠ [] → (pieceMap content r 0 l).2 = (pieceMap content r k l).2 ∧
      (∀ p, (pieceMap content r 0 l).1.lookup p = (compose (pieceMap content r 0 k)
        (pieceMap content r k l)).1.lookup p ↔
          ¬ RegrownPage (firstFrames content r k) (pieceMap content r 0 k)
            (pieceMap content r k l) p) ∧
      (RewritesGrowth (firstFrames content r n) → ∀ p,
        ¬ RegrownPage (firstFrames content r k) (pieceMap content r 0 k)
          (pieceMap content r k l) p)) := by
  have hSplit := @firstFrames_split content r k l hLe
  have hRest := @firstFrames_split content r l n hEnd
  have hFirst : Proper (firstFrames content r k) := by
    intro f hf
    apply hProper f
    rw [hRest, hSplit]
    exact mem_append_left _ (mem_append_left _ hf)
  have hSecond : Proper ((range' k (l - k)).map (frame content r.pageSize)) := by
    intro f hf
    apply hProper f
    rw [hRest, hSplit]
    exact mem_append_left _ (mem_append_right _ hf)
  have hCommits : ∀ f ∈ (firstFrames content r k).getLast?, f.commit ≠ 0 := by
    intro f hf
    rcases getLast_firstFrames hf with ⟨hPos, rfl⟩
    exact hAligned hPos
  have hAppend :=
    @WALFormat.pageMap_append (List UInt8) (format r.bo r.pageSize) (firstFrames content r k)
      ((range' k (l - k)).map (frame content r.pageSize)) 0 r.salts hCommits hFirst
      hSecond
  rw [length_firstFrames, Nat.zero_add, ← hSplit] at hAppend
  refine ⟨hAppend.1, fun hSome => ?_⟩
  rcases hAppend.2 hSome with ⟨hEnds, hPages⟩
  refine ⟨hEnds, hPages, fun hRewrites p => ?_⟩
  rw [hRest, hSplit] at hRewrites
  exact hRewrites.not_regrownPage hCommits hFirst hSecond hSome

theorem compose_pieceMap (hRewrites : RewritesGrowth (firstFrames content r n))
    (hLe : k ≤ l) (hEnd : l ≤ n) (hProper : Proper (firstFrames content r n))
    (hAligned : 1 ≤ k → (frame content r.pageSize (k - 1)).commit ≠ 0) :
    SameMap (compose (pieceMap content r 0 k) (pieceMap content r k l))
      (pieceMap content r 0 l) := by
  rcases pieceMap_split hLe hEnd hProper hAligned with ⟨hNothing, hSomething⟩
  by_cases hNone : (pieceMap content r k l).1 = []
  · unfold compose
    rw [if_pos hNone, hNothing hNone]
    exact ⟨fun _ => rfl, rfl⟩
  rcases hSomething hNone with ⟨hEnds, hPages, hNever⟩
  refine ⟨fun p => ?_, ?_⟩
  · exact ((hPages p).mpr (hNever hRewrites p)).symm
  · unfold compose
    rw [if_neg hNone]
    exact hEnds.symm

/- Composing one piece after the other. -/
theorem foldl_compose_pieces {cuts first} (hOpen : newReader content = .ok r)
    (hPage : IsPageSize r.pageSize) (hRun : IsLongestRun content r n)
    (hProper : Proper (firstFrames content r n))
    (hRewrites : RewritesGrowth (firstFrames content r n)) (hCuts : CommitEnds content r n cuts)
    (hStart : k ≤ n) (hBefore : ∀ l ∈ cuts, k ≤ l)
    (hAligned : 1 ≤ k → (frame content r.pageSize (k - 1)).commit ≠ 0)
    (hFirst : SameMap first (pieceMap content r 0 k)) :
    ∃ results, ReadsPieces content r k cuts results ∧
      SameMap (results.foldl compose first) (pieceMap content r 0 n) := by
  -- on the cuts: the map so far is that of the cut file
  induction cuts generalizing k first with
  | nil =>
    refine ⟨[pieceMap content r k n], reads_whole hOpen hPage hRun hStart, ?_⟩
    exact (hFirst.compose _).trans
      (compose_pieceMap hRewrites hStart (Nat.le_refl n) hProper hAligned)
  | cons cut cuts ih =>
    have hLe := hBefore cut mem_cons_self
    rcases hCuts.commits cut mem_cons_self with ⟨hPos, hEnd, hCommit⟩
    rcases pairwise_cons.mp hCuts.sorted with ⟨hLater, hSorted⟩
    have hComposed := (hFirst.compose (pieceMap content r k cut)).trans
      (compose_pieceMap hRewrites hLe hEnd hProper hAligned)
    rcases ih ⟨hSorted, fun l hl =>
      hCuts.commits l (mem_cons_of_mem cut hl)⟩
        hEnd hLater (fun _ => hCommit) hComposed with
      ⟨results, hReads, hSame⟩
    exact ⟨pieceMap content r k cut :: results,
      ⟨reads_cut hOpen hPage hRun hLe hEnd, hReads⟩, hSame⟩

end Pieces

end WALBytes

open PageOffsets (compose SameMap) in
/-
  Two pieces of a valid WAL that are cut at the end of a
  commit frame compose to its page map, apart from regrown
  pages. Without such pages any number of pieces do.
-/
theorem wal_pieces_compose
    (content : List UInt8)
    (r : WALBytes.Reader)
    (hOpen : WALBytes.newReader content = .ok r)
    (hPage : WALBytes.IsPageSize r.pageSize)
    (n : Nat)
    (hRun : WALBytes.IsLongestRun content r n)
    (hProper :
      WALFormat.Proper (WALBytes.firstFrames content r n)) :
    (∀ k,
      1 ≤ k → k ≤ n →
      (WALBytes.frame content r.pageSize (k - 1)).commit ≠
        0 →
      ∃ first second whole,
        WALBytes.Reads
          (content.take (WALBytes.frameOffset r k)) r 0
          first ∧
        WALBytes.Reads content r k second ∧
        WALBytes.Reads content r 0 whole ∧
        (second.1 = [] → whole = first) ∧
        (second.1 ≠ [] →
          whole.2 = second.2 ∧
          (∀ p,
            whole.1.lookup p =
              (compose first second).1.lookup p ↔
            ¬ WALFormat.RegrownPage
                (WALBytes.firstFrames content r k) first
                second p) ∧
          (WALFormat.RewritesGrowth
            (WALBytes.firstFrames content r n) →
            ∀ p,
              ¬ WALFormat.RegrownPage
                  (WALBytes.firstFrames content r k) first
                  second p))) ∧
    (WALFormat.RewritesGrowth
      (WALBytes.firstFrames content r n) →
      ∀ cuts,
        WALBytes.CommitEnds content r n cuts →
        ∃ results whole,
          WALBytes.ReadsPieces content r 0 cuts results ∧
          WALBytes.Reads content r 0 whole ∧
          SameMap (results.foldl compose ([], 0, 0))
            whole) := by
  have hWhole := WALBytes.reads_whole hOpen hPage hRun (Nat.zero_le n)
  refine ⟨?_, ?_⟩
  · intro k hPos hLe hCommit
    rcases WALBytes.pieceMap_split hLe (Nat.le_refl n) hProper
      (fun _ => hCommit) with ⟨hNothing, hSomething⟩
    exact ⟨WALBytes.pieceMap content r 0 k, WALBytes.pieceMap content r k n,
      WALBytes.pieceMap content r 0 n,
      WALBytes.reads_cut hOpen hPage hRun (Nat.zero_le k) hLe,
      WALBytes.reads_whole hOpen hPage hRun hLe, hWhole,
      hNothing, hSomething⟩
  · intro hRewrites cuts hCuts
    rcases WALBytes.foldl_compose_pieces hOpen hPage hRun hProper hRewrites hCuts (Nat.zero_le n)
      (fun l _ => Nat.zero_le l) (by omega)
      ⟨fun _ => rfl, rfl⟩ with ⟨results, hReads, hSame⟩
    exact ⟨results, _, hReads, hWhole, hSame⟩

/- The frame of a page of zeros. -/
def zeroFrame (hdr : List UInt8) : List UInt8 :=
  hdr ++ replicate 512 0

/- A WAL of three frames. -/
def threeFrameWAL
    (first second third : List UInt8) : List UInt8 :=
  [55, 127, 6, 130, 0, 45, 226, 24, 0, 0, 2, 0, 0, 0, 0, 0, 0, 0, 0, 1, 0, 0, 0, 2,
   213, 203, 3, 19, 143, 164, 218, 184] ++
    (zeroFrame first ++ (zeroFrame second ++ zeroFrame third))

def threeFrameReader : WALBytes.Reader :=
  { tornReader with size := 1640 }

theorem isPageSize_threeFrameReader :
    WALBytes.IsPageSize threeFrameReader.pageSize :=
  ⟨9, by decide, by decide, rfl⟩

theorem isLongestRun_three
    {content : List UInt8}
    (hSalts : ∀ k < 3,
      (WALBytes.frame content threeFrameReader.pageSize k).salts =
        threeFrameReader.salts)
    (hChksum : ∀ k < 3,
      (WALBytes.frame content threeFrameReader.pageSize k).chksum =
        WALBytes.cumulative content threeFrameReader (k + 1)) :
    WALBytes.IsLongestRun content threeFrameReader 3 := by
  have hComplete : ∀ k < 3, walHeaderSize + (k + 1) *
    (threeFrameReader.pageSize + walFrameHeaderSize) ≤
      threeFrameReader.size := by
    decide
  refine ⟨?_, ?_⟩
  · exact fun k hk => ⟨hComplete k hk, hSalts k hk, hChksum k hk⟩
  · intro hValid
    exact absurd hValid.complete (by decide)

/- A transaction of two pages, and one that writes the first again. -/
def splitWAL : List UInt8 :=
  threeFrameWAL
    [0, 0, 0, 1, 0, 0, 0, 0, 0, 0, 0, 1, 0, 0, 0, 2, 180, 99, 122, 206, 17, 177, 60, 221]
    [0, 0, 0, 2, 0, 0, 0, 2, 0, 0, 0, 1, 0, 0, 0, 2, 142, 83, 43, 7, 116, 149, 148, 167]
    [0, 0, 0, 1, 0, 0, 0, 2, 0, 0, 0, 1, 0, 0, 0, 2, 58, 234, 78, 31, 38, 248, 145, 240]

/- It is cut between the transactions. -/
theorem splitWAL_pieces_compose :
    ∃ results whole,
      WALBytes.ReadsPieces splitWAL threeFrameReader 0 [2]
        results ∧
      WALBytes.Reads splitWAL threeFrameReader 0 whole ∧
      PageOffsets.SameMap
        (results.foldl PageOffsets.compose ([], 0, 0))
        whole := by
  have hOpen : WALBytes.newReader splitWAL =
    .ok threeFrameReader := by
    decide +kernel
  have hRun : WALBytes.IsLongestRun splitWAL threeFrameReader 3 :=
    isLongestRun_three (by decide +kernel) (by decide +kernel)
  -- no transaction grows the database
  have hCommit : ∀ f ∈ WALBytes.firstFrames splitWAL
    threeFrameReader 3, f.commit = 0 ∨ f.commit = 2 := by
    decide +kernel
  refine (wal_pieces_compose splitWAL threeFrameReader hOpen
    isPageSize_threeFrameReader 3 hRun
    (by decide +kernel)).2 ?_ [2] ?_
  · intro older f newer g later hAll hf hg p hAbove hBelow
    have hFirst := hCommit f (by simp [hAll])
    have hLast := hCommit g (by simp [hAll])
    omega
  · refine ⟨pairwise_singleton _ _, ?_⟩
    simp only [mem_singleton, forall_eq]
    exact ⟨by decide, by decide, by decide +kernel⟩

/-
  Three transactions: the second page is written, cut off,
  and the database grows again without it.
-/
def regrownWAL : List UInt8 :=
  threeFrameWAL
    [0, 0, 0, 2, 0, 0, 0, 2, 0, 0, 0, 1, 0, 0, 0, 2, 32, 99, 122, 206, 124, 177, 60, 221]
    [0, 0, 0, 1, 0, 0, 0, 1, 0, 0, 0, 1, 0, 0, 0, 2, 12, 83, 43, 7, 162, 149, 148, 167]
    [0, 0, 0, 1, 0, 0, 0, 2, 0, 0, 0, 1, 0, 0, 0, 2, 120, 234, 78, 31, 246, 248, 145, 240]

theorem newReader_regrownWAL :
    WALBytes.newReader regrownWAL = .ok threeFrameReader := by
  decide +kernel

theorem isLongestRun_regrownWAL :
    WALBytes.IsLongestRun regrownWAL threeFrameReader 3 :=
  isLongestRun_three (by decide +kernel) (by decide +kernel)

/-
  After the second commit the database has one page. The
  map of the whole WAL has the second page, and neither
  piece has it.
-/
theorem wal_pieces_differ :
    WALBytes.newReader regrownWAL = .ok threeFrameReader ∧
    WALBytes.IsPageSize threeFrameReader.pageSize ∧
    WALBytes.IsLongestRun regrownWAL threeFrameReader 3 ∧
    WALFormat.Proper
      (WALBytes.firstFrames regrownWAL threeFrameReader 3) ∧
    (WALBytes.frame regrownWAL threeFrameReader.pageSize
      1).commit ≠ 0 ∧
    ∃ first second whole,
      WALBytes.Reads
        (regrownWAL.take
          (WALBytes.frameOffset threeFrameReader 2))
        threeFrameReader 0 first ∧
      WALBytes.Reads regrownWAL threeFrameReader 2 second ∧
      WALBytes.Reads regrownWAL threeFrameReader 0 whole ∧
      second.1 ≠ [] ∧
      whole.1.lookup 2 = some 32 ∧
      (PageOffsets.compose first second).1.lookup 2 =
        none := by
  refine ⟨newReader_regrownWAL, isPageSize_threeFrameReader,
    isLongestRun_regrownWAL, by decide +kernel,
    by decide +kernel,
    WALBytes.pieceMap regrownWAL threeFrameReader 0 2,
    WALBytes.pieceMap regrownWAL threeFrameReader 2 3,
    WALBytes.pieceMap regrownWAL threeFrameReader 0 3, ?_, ?_,
    ?_, ?_⟩
  · exact WALBytes.reads_cut newReader_regrownWAL isPageSize_threeFrameReader isLongestRun_regrownWAL
      (Nat.zero_le 2) (by decide)
  · exact WALBytes.reads_whole newReader_regrownWAL isPageSize_threeFrameReader isLongestRun_regrownWAL
      (by decide)
  · exact WALBytes.reads_whole newReader_regrownWAL isPageSize_threeFrameReader isLongestRun_regrownWAL
      (Nat.zero_le 3)
  · decide +kernel

end Replicate
