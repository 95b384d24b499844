import Replicate.VFS.SnapshotLabel

/-
  The hydrated file as a copy of the database.

  The base image, the level-0 catch-up and the updates of
  later polls are written by three paths at different
  positions. `runHydration` reads the position once, so a
  poll before the file is marked complete is lost; catch-up
  skips transactions that level 0 does not hold any more;
  and neither catch-up nor updates cut the file off.

  Main declarations:
    * `Hydrator.Caught.eq_replay`
    * `ConnState.Copies.step`
    * `hydrated_true_copy`
    * `hydrated_copy_stale`
-/

-- Pages Of A Replay

namespace Replicate

open EntryList History Hydrator IntervalChain Published TXID VFSConn PageHistory Option

variable {D : Type} {lib : LtxLibrary D}

section Replay

variable {H : History lib}

theorem History.length_replay (n : Nat) : (H.replay n).length = sizeAt H.tx n :=
  PageHistory.length_replay n

theorem History.replay_getD {n i : Nat} (hCount : n ≤ H.count) (hSize : i < sizeAt H.tx n) :
    (H.replay n).getD i lib.zero = ((slice H.tx 1 n).page (i + 1)).getD lib.zero :=
  PageHistory.replay_getD H.grows hCount hSize

theorem History.replay_lockPgno {n i : Nat} (hCount : n ≤ H.count) (hLock : i + 1 = lib.lockPgno) :
    (H.replay n).getD i lib.zero = lib.zero := by
  by_cases hSize : i < sizeAt H.tx n
  · rw [H.replay_getD hCount hSize, slice_page_eq_none]
    · rfl
    · rw [writer_exempt H.grows hCount hLock]
      exact Nat.one_pos
  · exact List.getD_eq_default _ _ (by rw [H.length_replay]; omega)

theorem History.replay_of_writer {n i : Nat} (hCount : n ≤ H.count) (hSize : i < sizeAt H.tx n)
    (hWriter : 1 ≤ writer H.tx (i + 1) n) : (H.replay n).getD i lib.zero =
      ((H.tx (writer H.tx (i + 1) n)).page (i + 1)).getD lib.zero := by
  rw [H.replay_getD hCount hSize, slice_page_eq (by omega) hWriter]

theorem History.replay_eq_of_writer_le {m n i : Nat} (hCount : n ≤ H.count) (hLe : m ≤ n)
    (hSize : i < sizeAt H.tx n) (hWriter : writer H.tx (i + 1) n ≤ m) :
    (H.replay m).getD i lib.zero = (H.replay n).getD i lib.zero := by
  by_cases hLock : i + 1 = lib.lockPgno
  · rw [replay_lockPgno (by omega) hLock, replay_lockPgno hCount hLock]
  have hBefore : i + 1 ≤ sizeAt H.tx m := H.le_sizeAt hCount hLock hSize hWriter hLe
  have hSame := writer_eq_of_le hWriter hLe
  rw [H.replay_getD (by omega) hBefore, H.replay_getD hCount hSize]
  by_cases hWritten : 1 ≤ writer H.tx (i + 1) n
  · rw [slice_page_eq hSize hWritten, slice_page_eq hBefore (by omega), hSame]
  · rw [slice_page_eq_none (by omega), slice_page_eq_none (by omega)]

end Replay

-- Writing Pages

namespace Hydrator

theorem length_writePages (pages : List (Nat × D)) (hPages : ∀ p ∈ keys pages, 1 ≤ p)
    (h : Hydrator D) : (h.writePages lib pages).file.length = max h.file.length (maxKey pages) := by
  induction pages with
  | nil => simp [writePages, maxKey]
  | cons e pages ih =>
    have hKey : 1 ≤ e.1 := hPages e.1 List.mem_cons_self
    have hRest := ih (fun k hk => hPages k (List.mem_cons_of_mem _ hk))
    have hWrite : (h.writePages lib (e :: pages)).file.length =
      max (h.writePages lib pages).file.length (e.1 - 1 + 1) :=
      PagedFile.length_writePage lib.zero (e.1 - 1) e.2 _
    simp only [maxKey]
    omega

theorem lookup_pagesOf (file : Layer D) {i : Nat} (hSize : i < file.commit) :
    (pagesOf file).lookup (i + 1) = file.page (i + 1) := by
  have hPages : pagesOf file = ((List.range file.commit).map (· + 1)).filterMap
    (fun p => (file.page p).map (p, ·)) := by
    rw [List.filterMap_map]
    rfl
  rw [hPages, lookup_filterMap_keys, if_pos]
  simpa using hSize

theorem keys_pagesOf (file : Layer D) : ∀ p ∈ keys (pagesOf file),
    1 ≤ p ∧ p ≤ file.commit ∧ (file.page p).isSome := by
  intro p hMem
  unfold keys pagesOf at hMem
  simp only [List.mem_map, List.mem_filterMap, List.mem_range, map_eq_some_iff] at hMem
  rcases hMem with ⟨e, ⟨i, hLt, d, hPage, rfl⟩, rfl⟩
  exact ⟨by simp, hLt, by simp [hPage]⟩

-- Catching Up

/-
  The file after the transactions from `m` to `k` were
  written over the image at `n`. No page is behind `size`.
-/
structure Caught (H : History lib) (m n size k : Nat) (file : List D) : Prop where
  written : ∀ i, m < writer H.tx (i + 1) k → i < file.length ∧ file.getD i lib.zero =
    ((H.tx (writer H.tx (i + 1) k)).page (i + 1)).getD lib.zero
  kept : ∀ i, writer H.tx (i + 1) k ≤ m → file.getD i lib.zero = (H.replay n).getD i lib.zero
  grown : sizeAt H.tx n ≤ file.length
  within : file.length ≤ size

section CatchUp

variable {H : History lib} {m n size k : Nat}

theorem caught_start (hSize : sizeAt H.tx n ≤ size) : Caught H m n size m (H.replay n) := by
  refine ⟨?_, fun _ _ => rfl, ?_, ?_⟩
  · intro i hLater
    have hLe : writer H.tx (i + 1) m ≤ m := writer_le
    omega
  · exact Nat.le_of_eq (H.length_replay n).symm
  · rw [H.length_replay]
    exact hSize

/- One more transaction. -/
theorem Caught.apply {h : Hydrator D} (hCaught : Caught H m n size k h.file)
    (hFrom : m ≤ k) (hCount : k + 1 ≤ H.count) (hSize : sizeAt H.tx (k + 1) ≤ size) :
    Caught H m n size (k + 1) (h.writePages lib (pagesOf (H.tx (k + 1)))).file := by
  have hKeys := keys_pagesOf (H.tx (k + 1))
  have hPos : ∀ p ∈ keys (pagesOf (H.tx (k + 1))), 1 ≤ p := fun p hp => (hKeys p hp).1
  have hLength := @length_writePages D lib (pagesOf (H.tx (k + 1))) hPos h
  have hRead : ∀ i, (h.writePages lib (pagesOf (H.tx (k + 1)))).file.getD i lib.zero =
    ((pagesOf (H.tx (k + 1))).lookup (i + 1)).getD (h.file.getD i lib.zero) :=
    fun i => readAt_writePages _ hPos h (Nat.le_add_left 1 i)
  -- the entries are the pages that the transaction wrote
  have hLookup : ∀ i, (pagesOf (H.tx (k + 1))).lookup (i + 1) = (H.tx (k + 1)).page (i + 1) := by
    intro i
    by_cases hIn : i < (H.tx (k + 1)).commit
    · exact lookup_pagesOf _ hIn
    cases hPage : (H.tx (k + 1)).page (i + 1) with
    | some d =>
      have hWithin := H.within (k + 1) (by omega) hCount (i + 1) (by simp [hPage])
      omega
    | none =>
      by_contra hSome
      have hMem := isSome_lookup_iff.mp (isSome_iff_ne_none.mpr hSome)
      have hIs := (hKeys _ hMem).2.2
      rw [hPage] at hIs
      cases hIs
  have hWriter : ∀ i, writer H.tx (i + 1) (k + 1) = if ((H.tx (k + 1)).page (i + 1)).isSome then
    k + 1
      else
        writer H.tx (i + 1) k :=
    fun i => rfl
  refine ⟨?_, ?_, ?_, ?_⟩
  · intro i hLater
    rw [hRead, hLookup, hLength]
    rw [hWriter] at hLater ⊢
    cases hPage : (H.tx (k + 1)).page (i + 1) with
    | some d =>
      have hMem : i + 1 ∈ keys (pagesOf (H.tx (k + 1))) :=
        isSome_lookup_iff.mp (by rw [hLookup, hPage]; rfl)
      have hKey := le_maxKey hMem
      simp only [isSome_some, if_true, hPage]
      exact ⟨by omega, rfl⟩
    | none =>
      rw [hPage] at hLater
      rcases hCaught.written i hLater with ⟨hIn, hEq⟩
      exact ⟨by omega, hEq⟩
  · intro i hEarly
    rw [hRead, hLookup]
    rw [hWriter] at hEarly
    cases hPage : (H.tx (k + 1)).page (i + 1) with
    | some d =>
      rw [hPage] at hEarly
      simp only [isSome_some, if_true] at hEarly
      omega
    | none =>
      rw [hPage] at hEarly
      exact hCaught.kept i hEarly
  · rw [hLength]
    exact Nat.le_trans hCaught.grown (Nat.le_max_left _ _)
  · rw [hLength]
    refine Nat.max_le.mpr ⟨hCaught.within, ?_⟩
    refine maxKey_le_iff.mpr (fun p hp => ?_)
    exact Nat.le_trans (hKeys p hp).2.1 hSize

/- All of them give the later image. -/
theorem Caught.eq_replay {file} (hCaught : Caught H m n (sizeAt H.tx k) k file) (hFrom : m ≤ n)
    (hTo : n ≤ k) (hCount : k ≤ H.count) (hEdge : k = 0 ∨ sizeAt H.tx k ≠ lib.lockPgno) :
    file = H.replay k := by
  have hLower : sizeAt H.tx k ≤ file.length := by
    by_contra hShort
    have hGrown := hCaught.grown
    rcases Nat.exists_eq_add_of_lt (Nat.zero_lt_of_lt (Nat.lt_of_not_le hShort)) with ⟨i, hLast⟩
    have hLast' : sizeAt H.tx k = i + 1 := by omega
    by_cases hWriter : writer H.tx (i + 1) k ≤ m
    · have hLock : i + 1 ≠ lib.lockPgno := by
        rcases hEdge with rfl | hNe
        · simp [sizeAt] at hLast'
        · omega
      have hBefore :=
        H.le_sizeAt hCount hLock (Nat.le_of_eq hLast'.symm) (Nat.le_trans hWriter hFrom) hTo
      omega
    · have hIn := (hCaught.written i (Nat.lt_of_not_le hWriter)).1
      omega
  have hLength : file.length = (H.replay k).length := by
    rw [H.length_replay]
    exact Nat.le_antisymm hCaught.within hLower
  refine PagedFile.ext_getD lib.zero hLength ?_
  intro i hIn
  have hSize : i < sizeAt H.tx k := Nat.lt_of_lt_of_le hIn hCaught.within
  by_cases hWriter : writer H.tx (i + 1) k ≤ m
  · rw [hCaught.kept i hWriter]
    exact replay_eq_of_writer_le hCount hTo hSize (Nat.le_trans hWriter hFrom)
  · rw [(hCaught.written i (Nat.lt_of_not_le hWriter)).2]
    exact (replay_of_writer hCount hSize (by omega)).symm

/-
  The loop of `CatchUp`, over the transactions that follow
  one after another.
-/
theorem Caught.catchUp {fetch} (hFetch :
    ∀ info file, fetch info = .ok file → info.maxTXID ≤ H.count →
      file = slice H.tx info.minTXID info.maxTXID) {toTXID : Nat} (hCount : toTXID ≤ H.count)
    (hSizes : ∀ t, m ≤ t → t ≤ toTXID → sizeAt H.tx t ≤ size) {items}
    (hPoints : ∀ info ∈ items, info.minTXID = info.maxTXID)
    (hOrder : items.Pairwise (fun f g => f.maxTXID < g.maxTXID))
    (hAfter : ∀ info ∈ items, k < info.maxTXID)
    (hAll : ∀ t, k < t → t ≤ toTXID → ∃ info ∈ items, info.maxTXID = t) {h h'} (hFrom : m ≤ k)
    (hTo : k ≤ toTXID) (hCaught : Caught H m n size k h.file) (hTXID : h.txid ≤ k)
    (hRun : catchUp lib fetch toTXID items h = .ok h') :
    Caught H m n size toTXID h'.file ∧ h'.txid ≤ toTXID := by
  induction items generalizing k h with
  | nil =>
    -- nothing is left to apply
    have hEnd : k = toTXID := by
      by_contra hNe
      rcases hAll (k + 1) (by omega) (by omega) with ⟨_, hMem, _⟩
      cases hMem
    rw [← Except.ok.inj hRun, ← hEnd]
    exact ⟨hCaught, hTXID⟩
  | cons info items ih =>
    unfold catchUp at hRun
    have hNext := hAfter info List.mem_cons_self
    rcases List.pairwise_cons.mp hOrder with ⟨hFirst, hRest⟩
    split at hRun
    · rename_i hPast
      have hEnd : k = toTXID := by
        by_contra hNe
        rcases hAll (k + 1) (by omega) (by omega) with ⟨other, hMem, hAt⟩
        rcases List.mem_cons.mp hMem with rfl | hLater
        · omega
        · have hLt := hFirst other hLater
          omega
      rw [← Except.ok.inj hRun, ← hEnd]
      exact ⟨hCaught, hTXID⟩
    · rename_i hWithin
      -- the first file is the next transaction
      have hAt : info.maxTXID = k + 1 := by
        rcases hAll (k + 1) (by omega) (by omega) with ⟨other, hMem, hIs⟩
        rcases List.mem_cons.mp hMem with rfl | hLater
        · exact hIs
        · have hLt := hFirst other hLater
          omega
      have hPoint := hPoints info List.mem_cons_self
      split at hRun
      · cases hRun
      rename_i file hFile
      have hTx : file = H.tx (k + 1) := by
        rw [hFetch info file hFile (by omega), hPoint, hAt]
        exact H.tx_eq_slice (by omega) (by omega) |>.symm
      rw [hTx] at hRun
      refine ih (k := k + 1) (fun g hg => hPoints g (List.mem_cons_of_mem _ hg)) hRest
        (fun g hg => ?_) (fun t hLt hLe => ?_) (by omega)
        (by omega) ?_ ?_ hRun
      · have hLt := hFirst g hg
        omega
      · rcases hAll t (by omega) hLe with ⟨other, hMem, hIs⟩
        rcases List.mem_cons.mp hMem with rfl | hLater
        · omega
        · exact ⟨other, hLater, hIs⟩
      · exact hCaught.apply hFrom (by omega) (hSizes (k + 1) (by omega) (by omega))
      · exact Nat.le_of_eq hAt

end CatchUp

-- Restoring And Updating

/- `Restore` writes the image that its plan reaches. -/
theorem restore_image {H : History lib} {r : Published D} (hFaithful : r.Faithful H)
    {fetchErr : FileInfo → Option Err} {infos : List FileInfo} {files : List (Layer D)}
    (hChain : IsChain FileInfo.minTXID FileInfo.maxTXID 0 infos)
    (hFetch : infos.mapM (r.fetch fetchErr) = .ok files) {h h' : Hydrator D}
    (hRestore : h.restore lib (infos.zip files) = .ok h') :
    h'.file = H.replay (IntervalChain.reach FileInfo.maxTXID 0 infos) ∧
      h'.txid = IntervalChain.reach FileInfo.maxTXID 0 infos ∧
      IntervalChain.reach FileInfo.maxTXID 0 infos ≤ H.count := by
  rw [Traversal.mapM_eq_ok_iff] at hFetch
  have hLength : infos.length = files.length := hFetch.length_eq
  have hInfos : (infos.zip files).map Prod.fst = infos := List.map_fst_zip (Nat.le_of_eq hLength)
  have hFiles : (infos.zip files).map Prod.snd = files :=
    List.map_snd_zip (Nat.le_of_eq hLength.symm)
  have hSlices : files = infos.map (fun f => slice H.tx f.minTXID f.maxTXID) := by
    clear hChain hLength hInfos hFiles hRestore
    induction hFetch with
    | nil => rfl
    | cons hHead _ ih => rw [List.map_cons, ← ih, (hFaithful.fetch hHead).2.2]
  have hProduced : ∀ f ∈ infos, 1 ≤ f.minTXID ∧ f.maxTXID ≤ H.count ∧
    slice H.tx f.minTXID f.maxTXID = slice H.tx f.minTXID f.maxTXID := by
    intro f hf
    rcases Traversal.exists_result_of_mem (Traversal.mapM_eq_ok_iff.mpr hFetch) hf with
      ⟨file, _, hFile⟩
    have hLabel := hFaithful.fetch hFile
    exact ⟨hLabel.1, hLabel.2.1, rfl⟩
  unfold restore at hRestore
  split at hRestore
  · cases hRestore
  rename_i hSome
  have hNonempty : infos ≠ [] := by
    rintro rfl
    exact hSome rfl
  split at hRestore
  · cases hRestore
  rename_i merged hMerge
  split at hRestore
  · cases hRestore
  rename_i img hDecode
  rw [hFiles, hSlices] at hMerge
  have hImage := decode_eq_replay hNonempty hChain hProduced hMerge hDecode
  rw [maxTXIDOf_eq_reach] at hImage
  rw [← Except.ok.inj hRestore]
  refine ⟨hImage, ?_, ?_⟩
  · rw [← getLast_eq_reach, ← hInfos, List.getLast?_map, Option.map_map, hInfos]
    rfl
  · rcases (List.eq_nil_or_concat infos).resolve_left hNonempty with ⟨init, last, rfl⟩
    rw [List.concat_eq_append, reach_append_singleton]
    exact (hProduced last (by simp)).2.1

/- The pages that `ApplyUpdates` writes. -/
def updated (fetch : PageElem → Nat → Except Err D) (updates : PageMap) (p : Nat) : Option D :=
  match updates.lookup p with
  | none => none
  | some elem =>
    match fetch elem p with
    | .error _ => none
    | .ok d => some d

/- `ApplyUpdates` changes these pages and no others. -/
theorem applyUpdates_file {fetch} {updates : PageMap} (hKeys : ∀ p ∈ keys updates, 1 ≤ p)
    (hFetched : ∀ p e, updates.lookup p = some e → ∃ d, fetch e p = .ok d) (h : Hydrator D) :
    (h.applyUpdates lib fetch updates).file.length = max h.file.length (maxKey updates) ∧
      ∀ i, (h.applyUpdates lib fetch updates).file.getD i lib.zero =
        (updated fetch updates (i + 1)).getD (h.file.getD i lib.zero) := by
  generalize hPages : (keys updates).filterMap (fun p =>
    (updated fetch updates p).map (p, ·)) = pages
  have hApply : h.applyUpdates lib fetch updates = h.writePages lib pages := by
    unfold applyUpdates
    rw [← hPages, keys, List.filterMap_map]
    congr 1
    congr 1
    funext e
    simp only [Function.comp_apply, updated]
    cases updates.lookup e.1 with
    | none => rfl
    | some elem =>
      cases hPage : fetch elem e.1 with
      | error | ok => simp [hPage]
  have hLookup : ∀ p, pages.lookup p = updated fetch updates p := by
    intro p
    rw [← hPages, lookup_filterMap_keys]
    split
    · rfl
    rename_i hNot
    cases hEntry : updates.lookup p with
    | none => simp [updated, hEntry]
    | some e =>
      have hMem := mem_keys_of_lookup_eq_some hEntry
      exact absurd (List.contains_iff_mem.mpr hMem) hNot
  -- every update can be fetched, so the keys are the same
  have hSame : ∀ p, p ∈ keys pages ↔ p ∈ keys updates := by
    intro p
    rw [← isSome_lookup_iff, ← isSome_lookup_iff, hLookup]
    cases hEntry : updates.lookup p with
    | none => simp [updated, hEntry]
    | some e =>
      rcases hFetched p e hEntry with ⟨d, hd⟩
      simp [updated, hEntry, hd]
  have hPos : ∀ p ∈ keys pages, 1 ≤ p := fun p hp => hKeys p ((hSame p).mp hp)
  have hMax : maxKey pages = maxKey updates :=
    Nat.le_antisymm (maxKey_le_iff.mpr (fun p hp => le_maxKey ((hSame p).mp hp)))
      (maxKey_le_iff.mpr (fun p hp => le_maxKey ((hSame p).mpr hp)))
  rw [hApply]
  constructor
  · rw [length_writePages pages hPos h, hMax]
  · intro i
    rw [← hLookup]
    exact readAt_writePages pages hPos h (Nat.le_add_left 1 i)

end Hydrator

-- The Progress Of A Hydration

namespace ConnState

/- A hydration is under way or its file is being read. -/
def Active (s : ConnState D) : Prop :=
  s.hydration.running = true ∨ s.conn.hydrated.isSome = true

end ConnState

/- The database does not end with the lock page. -/
def History.EdgeAt (H : History lib) (n : Nat) : Prop :=
  n = 0 ∨ sizeAt H.tx n ≠ lib.lockPgno

/-
  What a hydration that is under way has done. The file of
  a hydrator that resumes can be further than its TXID.
-/
def HydrationPhase.Progress (H : History lib) (pos : Nat) (h : Hydrator D) : HydrationPhase → Prop
| .launched infos =>
  IsChain FileInfo.minTXID FileInfo.maxTXID 0 infos ∧
    IntervalChain.reach FileInfo.maxTXID 0 infos ≤ pos ∧
    (0 < h.txid → ∃ n, h.file = H.replay n ∧ h.txid ≤ n ∧ n ≤ pos)
| .started infos hydrationTXID currentTXID =>
  IsChain FileInfo.minTXID FileInfo.maxTXID 0 infos ∧
    IntervalChain.reach FileInfo.maxTXID 0 infos ≤ currentTXID ∧
    currentTXID ≤ pos ∧ H.EdgeAt currentTXID ∧
    h.txid = hydrationTXID ∧
    (0 < hydrationTXID → ∃ n, h.file = H.replay n ∧ hydrationTXID ≤ n ∧ n ≤ currentTXID)
| .restored hydrationTXID currentTXID =>
  currentTXID ≤ pos ∧ H.EdgeAt currentTXID ∧ h.txid = hydrationTXID ∧
    ∃ n, h.file = H.replay n ∧ hydrationTXID ≤ n ∧ n ≤ currentTXID
| .caughtUp currentTXID => currentTXID ≤ pos ∧ h.txid ≤ currentTXID ∧ h.file = H.replay currentTXID
| _ => True

theorem HydrationPhase.Progress.mono {H : History lib} {pos pos' : Nat} {h : Hydrator D}
    {phase : HydrationPhase} (hProgress : phase.Progress H pos h) (hLe : pos ≤ pos') :
    phase.Progress H pos' h := by
  cases phase with
  | idle | completed => trivial
  | launched infos =>
    rcases hProgress with ⟨hChain, hReach, hFile⟩
    refine ⟨hChain, Nat.le_trans hReach hLe, ?_⟩
    intro hPos
    rcases hFile hPos with ⟨n, hEq, hFrom, hTo⟩
    exact ⟨n, hEq, hFrom, Nat.le_trans hTo hLe⟩
  | started infos a b =>
    rcases hProgress with ⟨hChain, hReach, hPos, hRest⟩
    exact ⟨hChain, hReach, Nat.le_trans hPos hLe, hRest⟩
  | restored | caughtUp => exact ⟨Nat.le_trans hProgress.1 hLe, hProgress.2⟩

/-
  When a copy is kept. The index keeps its label while a
  hydration is under way or its file is read, and the view
  is not exchanged. Level 0 holds all transactions that are
  caught up, and the last of them leaves the largest
  database. The file is marked complete at the position that
  was read. Later polls are applied without a lock, leave no
  smaller database, and all their pages can be fetched. A
  file is closed only after it was complete.
-/
def KeepsCopy (H : History lib) (s : ConnState D) : ConnOp D → Prop
| .openFile => SizesInOrder H s.vfs .openFile
| .apply polled pageErr =>
  s.Active → KeepsLabel H s (.apply polled pageErr) ∧
    (s.conn.hydrated.isSome = true → s.conn.lockType = .none ∧
      sizeAt H.tx s.conn.pos ≤ sizeAt H.tx polled.pos ∧
      ∀ p e, polled.combined.lookup p = some e → ∃ d, s.replica.fetchPage pageErr e p = .ok d)
| .truncate _ => ¬ s.Active
| .setTargetTime _ => s.hydration.running = false
| .resetTime => ¬ s.Active
| .catchUp fault =>
  fault = .none ∧ ∀ hydrationTXID currentTXID, s.hydration = .restored hydrationTXID currentTXID →
    ∀ t, hydrationTXID ≤ t → t ≤ currentTXID →
      sizeAt H.tx t ≤ sizeAt H.tx currentTXID ∧ (hydrationTXID < t →
        ∃ info ∈ s.replica.content 0, info.maxTXID = t)
| .complete =>
  s.conn.pending = [] ∧ s.conn.pendingReplace = false ∧ s.hydration = .caughtUp s.conn.pos
| .close => ∀ h, s.conn.hydrator = some h → h.complete = true ∨ h.txid = 0
| .change compacted => CompactsWhole H s (.change compacted)
| op => s.Active → KeepsLabel H s op

namespace ConnState

/- What holds of a hydrator that counts. -/
structure Copying (H : History lib) (s : ConnState D) : Prop where
  labelled : s.Labelled H
  progress : ∀ h, s.conn.hydrator = some h → s.hydration.Progress H s.conn.pos h
  hydrated : ∀ h, s.conn.hydrated = some h → h.file = H.replay s.conn.pos ∧ h.txid ≤ s.conn.pos ∧
    s.conn.pending = [] ∧
    s.conn.pendingReplace = false

structure Copies (H : History lib) (s : ConnState D) : Prop where
  sourced : s.replica.Sourced H
  regular : s.Regular
  saved : ∀ file txid, s.saved = some (file, txid) →
    ∃ n, file = H.replay n ∧ txid ≤ n ∧ n ≤ s.replica.uploaded
  copying : s.Active → s.Copying H

variable {H : History lib} {s s' : ConnState D} {op : ConnOp D}

theorem Labelled.pos_le (hLabelled : s.Labelled H) : s.conn.pos ≤ s.replica.uploaded :=
  hLabelled.covering.follows.pos

/-
  Two labelled states with nothing pending, of which the
  later index is the earlier one under some updates: the
  updates turn the one replay into the other, unless the
  database gets smaller.
-/
theorem Labelled.updates_replay (hBefore : s.Labelled H) (hEmpty :
    s.conn.pending = [] ∧ s.conn.pendingReplace = false)
    (hAfter : s'.Labelled H) (hEmpty' : s'.conn.pending = [] ∧ s'.conn.pendingReplace = false)
    {updates : PageMap} (hIndex : s'.conn.index = updates ++ s.conn.index ∨ s'.conn.index = updates)
    (hGrown : sizeAt H.tx s.conn.pos ≤ sizeAt H.tx s'.conn.pos)
    {fetch : PageElem → Nat → Except Err D}
    (hFetched : ∀ p e, updates.lookup p = some e → ∃ d, fetch e p = .ok d)
    (hContent : ∀ e p d, fetch e p = .ok d → e.content H p = some d)
    {h : Hydrator D} (hCopy : h.file = H.replay s.conn.pos) :
    (h.applyUpdates lib fetch updates).file = H.replay s'.conn.pos := by
  -- an update is in the later index
  have hNew : ∀ p e, updates.lookup p = some e → s'.conn.index.lookup p = some e := by
    intro p e hLookup
    rcases hIndex with hEq | hEq
    · rw [hEq, List.lookup_append, hLookup]
      rfl
    · rw [hEq]
      exact hLookup
  -- and every other page of it is in the earlier index
  have hOld : ∀ p e, updates.lookup p = none → s'.conn.index.lookup p = some e →
    s.conn.index.lookup p = some e := by
    intro p e hNone hLookup
    rcases hIndex with hEq | hEq
    · rw [hEq, List.lookup_append, hNone] at hLookup
      exact hLookup
    · rw [hEq, hNone] at hLookup
      cases hLookup
  have hKeys : ∀ p ∈ keys updates, H.HasPage s'.conn.pos p := by
    intro p hMem
    rcases isSome_iff_exists.mp (isSome_lookup_iff.mpr hMem) with ⟨e, hLookup⟩
    exact (hAfter.index_replay hEmpty' (hNew p e hLookup)).1
  rcases @Hydrator.applyUpdates_file D lib fetch updates
    (fun p hp => (hKeys p hp).1) hFetched h with
    ⟨hLength, hPages⟩
  have hCount : s.conn.pos ≤ H.count := hBefore.inv.file.count
  have hCount' : s'.conn.pos ≤ H.count := hAfter.inv.file.count
  have hUpper : maxKey updates ≤ sizeAt H.tx s'.conn.pos :=
    maxKey_le_iff.mpr (fun p hp => (hKeys p hp).2.1)
  have hLower : sizeAt H.tx s'.conn.pos ≤ max (sizeAt H.tx s.conn.pos) (maxKey updates) := by
    by_contra hShort
    -- the last page is in neither
    have hEdge := hAfter.covering.file.edge
    have hHas : H.HasPage s'.conn.pos (sizeAt H.tx s'.conn.pos) := by
      refine ⟨by omega, Nat.le_refl _, ?_⟩
      rcases hEdge with hZero | hNe
      · have hPos : s'.conn.pos = 0 := hZero
        rw [hPos] at hShort
        simp [sizeAt] at hShort
      · exact hNe
    rcases isSome_iff_exists.mp (hAfter.index_isSome hEmpty' hHas) with ⟨e, hLookup⟩
    cases hUpdate : updates.lookup (sizeAt H.tx s'.conn.pos) with
    | some e' =>
      have hLe := le_maxKey (mem_keys_of_lookup_eq_some hUpdate)
      omega
    | none =>
      have hIn := (hBefore.index_replay hEmpty (hOld _ e hUpdate hLookup)).1.2.1
      omega
  have hSame : (h.applyUpdates lib fetch updates).file.length = (H.replay s'.conn.pos).length := by
    rw [hLength, hCopy, H.length_replay, H.length_replay]
    omega
  refine PagedFile.ext_getD lib.zero hSame ?_
  intro i hIn
  rw [hSame, H.length_replay] at hIn
  rw [hPages, hCopy]
  cases hUpdate : updates.lookup (i + 1) with
  | some e =>
    rcases hFetched (i + 1) e hUpdate with ⟨d, hd⟩
    have hShown := (hAfter.index_replay hEmpty' (hNew _ e hUpdate)).2
    rw [hContent e (i + 1) d hd] at hShown
    simp only [Hydrator.updated, hUpdate, hd]
    exact some.inj hShown
  | none =>
    have hKept : Hydrator.updated fetch updates (i + 1) = none := by
      simp [Hydrator.updated, hUpdate]
    rw [hKept]
    by_cases hLock : i + 1 = lib.lockPgno
    · rw [replay_lockPgno hCount' hLock]
      exact replay_lockPgno hCount hLock
    rcases isSome_iff_exists.mp (hAfter.index_isSome hEmpty' ⟨Nat.le_add_left 1 i, hIn, hLock⟩) with
      ⟨e, hLookup⟩
    have hShown := (hAfter.index_replay hEmpty' hLookup).2
    have hShown' := (hBefore.index_replay hEmpty (hOld _ e hUpdate hLookup)).2
    rw [hShown'] at hShown
    exact some.inj hShown

-- Steps

theorem Step.uploaded_le (hStep : Step lib (Change H) s op s') :
    s.replica.uploaded ≤ s'.replica.uploaded := by
  cases hStep with
  | change hEnv | sync _ _ _ _ _ _ _ hEnv => exact hEnv.uploaded_le
  | _ => exact Nat.le_refl _

theorem not_active_of_closed (hRegular : s.Regular) (hPhase : s.phase = .closed) : ¬ s.Active := by
  rcases hRegular.closed hPhase with ⟨hNew, hIdle⟩
  rintro (hRunning | hHydrated)
  · rw [hIdle] at hRunning
    cases hRunning
  · rw [hNew] at hHydrated
    cases hHydrated

theorem not_active_of_fail (hRegular : s.Regular) (hRunning : s.hydration.running = true) {h}
    (hHydrator : s.conn.hydrator = some h) (file : List D) (txid : Nat) : ¬ Active { s with
      conn :=
        { s.conn with
          hydrator := some { h with file := file, txid := txid } }
      hydration := .idle } := by
  rintro (hBusy | hSome)
  · cases hBusy
  · have hNone : VFSConn.hydrated { s.conn with
      hydrator := some { h with file := file, txid := txid } } = none :=
      hydrated_set hHydrator (hRegular.running hRunning) rfl
    rw [hNone] at hSome
    cases hSome

/- Only an open starts a hydration. -/
theorem Step.active (hStep : Step lib (Change H) s op s') (hActive : s'.Active) :
    s.Active ∨ op = .openFile := by
  rcases hActive with hRunning | hSome
  · exact hStep.running hRunning |>.imp_left Or.inl
  left
  by_cases hOp : op = .complete
  · subst hOp
    cases hStep with
    | complete hPhase => exact Or.inl (by rw [hPhase]; rfl)
  by_contra hNot
  have hNone : s.conn.hydrated = none := by simpa using fun hWas => hNot (Or.inr hWas)
  rw [hStep.hydrated_none hNone hOp] at hSome
  cases hSome

theorem Copying.of_same (hCopying : s.Copying H) (hLabelled : s'.Labelled H)
    (hHydration : s'.hydration = s.hydration) (hHydrator : s'.conn.hydrator = s.conn.hydrator)
    (hPos : s'.conn.pos = s.conn.pos)
    (hPending : s.conn.pending = [] → s.conn.pendingReplace = false →
      s'.conn.pending = [] ∧ s'.conn.pendingReplace = false) : s'.Copying H := by
  refine ⟨hLabelled, ?_, ?_⟩
  · rw [hHydration, hHydrator, hPos]
    exact hCopying.progress
  · intro h hHydrated
    have hSame : s'.conn.hydrated = s.conn.hydrated := by
      unfold VFSConn.hydrated
      rw [hHydrator]
    rw [hSame] at hHydrated
    rcases hCopying.hydrated h hHydrated with ⟨hFile, hTXID, hEmpty, hReplace⟩
    rw [hPos]
    exact ⟨hFile, hTXID, hPending hEmpty hReplace⟩

theorem KeepsCopy.compactsWhole (hAllowed : KeepsCopy H s op) : CompactsWhole H s op := by
  cases op with
  | change compacted => exact hAllowed
  | _ => trivial

/- The poll's end, on a file without a lock. -/
theorem Copying.apply (hBound : H.count + 1 < bound) (hCopying : s.Copying H) (hActive : s.Active)
    (hRegular : s.Regular) {polled : PolledL1} {pageErr : PageElem → Nat → Option Err}
    (hPhase : s.phase = .polledL1 polled) (hAllowed : KeepsCopy H s (.apply polled pageErr)) :
    Copying H { s with
      conn := s.conn.applyPoll lib (s.replica.fetchPage pageErr) polled
      phase := .idle } := by
  rcases hAllowed hActive with ⟨hKeeps, hDone⟩
  have hLabelled : Labelled H { s with
    conn := s.conn.applyPoll lib (s.replica.fetchPage pageErr) polled
    phase := .idle } :=
    hCopying.labelled.step hBound hRegular hKeeps
      (@ConnState.Step.apply D lib (Change H) s polled pageErr hPhase)
  by_cases hPast : s.conn.targetTime.isSome
  · have hSame : s.conn.applyPoll lib (s.replica.fetchPage pageErr) polled = s.conn := by
      simp [VFSConn.applyPoll, hPast]
    rw [hSame] at hLabelled ⊢
    exact hCopying.of_same hLabelled rfl rfl rfl (fun hEmpty hReplace => ⟨hEmpty, hReplace⟩)
  have hPresent : s.conn.targetTime = none := by simpa using hPast
  have hSpan : SpanL1 H s.conn.toVFSFile polled := by
    have hSpans := hCopying.labelled.covering.phase
    rw [vfs_of_present hPresent, hPhase] at hSpans
    exact hSpans
  have hConn : s.conn.applyPoll lib (s.replica.fetchPage pageErr) polled = { s.conn with
    toVFSFile := s.conn.toVFSFile.applyPoll polled
    cache :=
      if LockType.shared.rank ≤ s.conn.lockType.rank
      then s.conn.cache
      else restrict (fun p => (polled.combined.lookup p).isNone) s.conn.cache
    hydrator :=
      s.conn.hydrator.map (fun (h : Hydrator D) =>
        if h.complete then h.applyUpdates lib (s.replica.fetchPage pageErr) polled.combined
        else h) } := by
    simp [VFSConn.applyPoll, hPresent]
  rw [hConn] at hLabelled ⊢
  refine ⟨hLabelled, ?_, ?_⟩
  · -- a hydration under way has only seen a later position
    intro h' hHydrator
    by_cases hRunning : s.hydration.running = true
    · have hNone := hRegular.running hRunning
      rcases map_eq_some_iff.mp hHydrator with ⟨h, hWas, hIs⟩
      have hIncomplete : h.complete = false := by simpa [VFSConn.hydrated, hWas] using hNone
      rw [hIncomplete] at hIs
      have hEq : h = h' := by simpa using hIs
      rw [← hEq]
      exact (hCopying.progress h hWas).mono hSpan.le
    · cases hIs : s.hydration with
      | idle | completed => trivial
      | _ => simp [hIs, HydrationPhase.running] at hRunning
  · intro h' hHydrated
    rcases filter_eq_some_iff.mp hHydrated with ⟨hHydrator, hComplete'⟩
    rcases map_eq_some_iff.mp hHydrator with ⟨h, hWas, hIs⟩
    have hComplete : h.complete = true := by
      by_contra hNot
      have hFalse : h.complete = false := by simpa using hNot
      rw [hFalse] at hIs
      have hEq : h = h' := by simpa using hIs
      rw [← hEq, hFalse] at hComplete'
      cases hComplete'
    have hSome : s.conn.hydrated = some h := filter_eq_some_iff.mpr ⟨hWas, hComplete⟩
    rw [hComplete, if_pos rfl] at hIs
    rcases hCopying.hydrated h hSome with ⟨hFile, hTXID, hEmpty, hReplace⟩
    rcases hDone (by rw [hSome]; rfl) with ⟨hUnlocked, hGrown, hFetched⟩
    have hEmpty' := VFSFile.applyPoll_unlocked (fun _ => ⟨hEmpty, hReplace⟩) polled hUnlocked
    rw [← hIs]
    refine ⟨?_, ?_, hEmpty'⟩
    · refine hCopying.labelled.updates_replay ⟨hEmpty, hReplace⟩ hLabelled hEmpty' ?_ hGrown
        hFetched ?_ hFile
      · simp only [VFSFile.applyPoll, hUnlocked, LockType.rank]
        cases hKind : polled.replaceIndex with
        | true =>
          right
          simp
        | false =>
          left
          simp
      · intro e p d hd
        exact hCopying.labelled.sourced.faithful.holds
          |>.fetchPage hd
    · have hSameTXID : (h.applyUpdates lib (s.replica.fetchPage pageErr)
        polled.combined).txid = h.txid :=
        (writePages_fields _ h).2
      exact Nat.le_trans (Nat.le_of_eq hSameTXID) (Nat.le_trans hTXID hSpan.le)

/- `CatchUp`, from a level 0 that holds what is missing. -/
theorem catchUp_eq_replay (hBound : H.count + 1 < bound) {r : Published D}
    (hFaithful : r.Faithful H) {m n k : Nat} (hFrom : m ≤ n) (hTo : n ≤ k) (hBehind : m < k)
    (hCount : k ≤ H.count) (hEdge : H.EdgeAt k)
    (hHeld : ∀ t, m ≤ t → t ≤ k → sizeAt H.tx t ≤ sizeAt H.tx k ∧
      (m < t → ∃ info ∈ r.content 0, info.maxTXID = t)) {fetchErr : FileInfo → Option Err}
    {itr : FileIterator} (hList : ltxFiles r.content .none 0 (next m) = .ok itr) {h h' : Hydrator D}
    (hFile : h.file = H.replay n) (hTXID : h.txid ≤ m)
    (hCatchUp : catchUp lib (r.fetch fetchErr) k itr.items h = .ok h') :
    h'.file = H.replay k ∧ h'.txid ≤ k := by
  have hLayout := hFaithful.layout
  have hNext : next m = m + 1 := next_eq (by omega)
  have hItems : itr.items = (r.content 0).filter (fun info => decide (m + 1 ≤ info.minTXID)) := by
    rw [hNext] at hList
    rw [← Except.ok.inj hList]
  have hPoint : ∀ info ∈ r.content 0, info.minTXID = info.maxTXID :=
    fun info hMem => (hLayout.l0 info hMem).2.2.1
  have hMem : ∀ info ∈ itr.items, info ∈ r.content 0 ∧ m < info.maxTXID := by
    intro info hIn
    rw [hItems, List.mem_filter, decide_eq_true_eq] at hIn
    have hEq := hPoint info hIn.1
    exact ⟨hIn.1, by omega⟩
  have hStart : Hydrator.Caught H m n (sizeAt H.tx k) m h.file := by
    rw [hFile]
    exact Hydrator.caught_start (hHeld n hFrom hTo).1
  have hOrder : itr.items.Pairwise (fun f g => f.maxTXID < g.maxTXID) := by
    rw [hItems]
    refine ((hLayout.apart 0).filter _).imp_of_mem ?_
    intro f g _ hg hLt
    have hEq := hPoint g (List.mem_filter.mp hg).1
    omega
  have hAll : ∀ t, m < t → t ≤ k → ∃ info ∈ itr.items, info.maxTXID = t := by
    intro t hLt hLe
    rcases (hHeld t (Nat.le_of_lt hLt) hLe).2 hLt with ⟨info, hIn, hAt⟩
    have hEq := hPoint info hIn
    refine ⟨info, ?_, hAt⟩
    rw [hItems, List.mem_filter, decide_eq_true_eq]
    exact ⟨hIn, by omega⟩
  rcases hStart.catchUp (fun info file hFetch _ => (hFaithful.fetch hFetch).2.2)
    hCount (fun t hGe hLe => (hHeld t hGe hLe).1)
    (fun info hIn => hPoint info (hMem info hIn).1) hOrder
    (fun info hIn => (hMem info hIn).2) hAll
    (Nat.le_refl m) (Nat.le_of_lt hBehind) hTXID
    hCatchUp with ⟨hCaught, hEnd⟩
  exact ⟨hCaught.eq_replay hFrom hTo hCount hEdge, hEnd⟩

/- Opening with a new or a saved file. -/
theorem Copies.openFile (hCopies : s.Copies H) (hSizes : SizesInOrder H s.vfs .openFile)
    {fetchErr infos hydrator cfg c} (hPlan : Plans s.replica 0 (.ok infos))
    (hHydrator : Hydrates s.saved hydrator)
    (hOpen : s.conn.openPlanned (s.replica.fetch fetchErr) infos hydrator cfg = .ok c)
    (hStep : Step lib (Change H) s .openFile { s with
      conn := c
      phase := .idle
      hydration := if hydrator.isSome then .launched infos else .idle }) :
    Copying H { s with
      conn := c
      phase := .idle
      hydration :=
        if hydrator.isSome then .launched infos else .idle } := by
  have hSourced := hCopies.sourced
  have hLabelled := (Builds.openFile hStep).labelled hSourced hCopies.regular hSizes
  rcases openPlanned_spec hOpen with ⟨f, _, hFile, rfl⟩
  rcases hPlan with ⟨faults, hCalc⟩
  have hReach : f.pos = IntervalChain.reach FileInfo.maxTXID 0 infos := by
    unfold VFSFile.openPlanned VFSFile.rebuildIndex at hFile
    dsimp only at hFile
    split at hFile
    · cases hFile
    · rw [← Except.ok.inj hFile]
      exact getLast_eq_reach infos
  have hNewest := hSourced.faithful.layout.le_plan hCalc
  refine ⟨hLabelled, ?_, ?_⟩
  · intro h hIs
    have hEq : hydrator = some h := hIs
    subst hEq
    refine ⟨hSourced.genuine.plan_isChain hCalc, Nat.le_of_eq hReach.symm, ?_⟩
    intro hPos
    rcases hHydrator with hNone | hNew | ⟨file, txid, hSaved, hOld⟩
    · cases hNone
    · rw [some.inj hNew] at hPos
      exact absurd hPos (Nat.lt_irrefl 0)
    rcases hCopies.saved file txid hSaved with ⟨n, hImage, hFrom, hTo⟩
    rw [some.inj hOld]
    refine ⟨n, hImage, hFrom, ?_⟩
    dsimp only
    omega
  · -- no hydrator starts complete
    intro h hHydrated
    have hComplete := complete_of_hydrated hHydrated
    have hIs : hydrator = some h := (filter_eq_some_iff.mp hHydrated).1
    rcases hHydrator with hNone | hNew | ⟨_, _, _, hOld⟩
    · rw [hNone] at hIs
      cases hIs
    · rw [hNew] at hIs
      rw [← some.inj hIs] at hComplete
      cases hComplete
    · rw [hOld] at hIs
      rw [← some.inj hIs] at hComplete
      cases hComplete

/- The parts of `runHydration`, and what comes with it. -/
theorem Copying.step (hBound : H.count + 1 < bound) (hCopying : s.Copying H) (hActive : s.Active)
    (hRegular : s.Regular) (hAllowed : KeepsCopy H s op) (hStep : Step lib (Change H) s op s')
    (hActive' : s'.Active) : s'.Copying H := by
  have hLabelled := hCopying.labelled
  have hFaithful := hLabelled.sourced.faithful
  have hTaken := hStep
  have hKeep : s.conn.pending = [] → s.conn.pendingReplace = false →
    s.conn.pending = [] ∧ s.conn.pendingReplace = false :=
    fun hEmpty hReplace => ⟨hEmpty, hReplace⟩
  -- the index keeps its label in every allowed step
  have hNext : KeepsLabel H s op → s'.Labelled H :=
    fun hKeeps => hLabelled.step hBound hRegular hKeeps hTaken
  -- a file that is not complete is not read
  have hUnread : ∀ c : VFSConn D, c.hydrated = none → ∀ h, c.hydrated = some h →
    h.file = H.replay c.pos ∧ h.txid ≤ c.pos ∧ c.pending = [] ∧ c.pendingReplace = false := by
    intro c hNone h hSome
    rw [hNone] at hSome
    cases hSome
  have hRunning := hRegular.running
  cases hStep with
  | change _ => exact hCopying.of_same (hNext hAllowed) rfl rfl rfl hKeep
  | openFile hPhase | openNew hPhase => exact absurd hActive (not_active_of_closed hRegular hPhase)
  | pollL0 | pollL1 | abandon | evict =>
    exact hCopying.of_same (hNext (hAllowed hActive)) rfl rfl rfl hKeep
  | apply hPhase => exact hCopying.apply hBound hActive hRegular hPhase hAllowed
  | @lock vfs elock c _ hLock =>
    have hKeeps := hAllowed hActive
    have hSame : ∀ shared, vfs = some shared → LockType.reserved.rank ≤ elock.rank →
      shared.lastSyncedTXID ≤ s.conn.expectedTXID ∨ shared.lastSyncedTXID = s.conn.pos := by
      rintro shared rfl
      exact hKeeps
    have hPos := (lock_keeps hLabelled.inv.file.unlocked hSame hLock).2.1
    have hAfter := hNext hKeeps
    rcases lock_spec hLock with ⟨_, _, _, _, _, _, rfl, _⟩
    exact hCopying.of_same hAfter rfl rfl hPos hKeep
  | unlock _ hUnlock =>
    have hAfter := hNext (hAllowed hActive)
    rcases unlock_spec hUnlock with ⟨_, rfl⟩
    exact hCopying.of_same hAfter rfl rfl rfl (fun _ _ => ⟨rfl, rfl⟩)
  | readAt _ _ hRead =>
    have hAfter := hNext (hAllowed hActive)
    rcases readAt_spec hRead with ⟨_, rfl⟩
    exact hCopying.of_same hAfter rfl rfl rfl hKeep
  | writeAt _ _ hWrite =>
    have hAfter := hNext (hAllowed hActive)
    rcases writeAt_spec hWrite with ⟨_, _, rfl⟩
    exact hCopying.of_same hAfter rfl rfl rfl hKeep
  | truncate | resetTime => exact absurd hActive hAllowed
  | sync => exact absurd (hAllowed hActive) (fun h => h)
  | enable =>
    have hAfter := hNext (hAllowed hActive)
    rcases enableWrites_spec s.conn with ⟨_, _, hEq⟩
    rw [hEq] at hAfter ⊢
    exact hCopying.of_same hAfter rfl rfl rfl hKeep
  | disable => exact hCopying.of_same (hNext (hAllowed hActive)) rfl rfl rfl hKeep
  | setTargetTime =>
    have hQuiet : s.hydration.running = false := hAllowed
    rcases setTargetTime_hydrated with hSame | hOff
    · rw [hSame]
      exact hCopying
    rcases hActive' with hRunning | hSome
    · rw [hQuiet] at hRunning
      cases hRunning
    · rw [hOff] at hSome
      cases hSome
  | @hydrateStart infos h hPhase hIs =>
    rw [hPhase] at hRunning
    have hProgress := hCopying.progress h hIs
    rw [hPhase] at hProgress
    rcases hProgress with ⟨hChain, hReach, hFile⟩
    refine ⟨hNext trivial, ?_, hUnread _ (hRunning rfl)⟩
    intro x hx
    have hEq : h = x := some.inj (hIs.symm.trans hx)
    subst hEq
    exact ⟨hChain, hReach, Nat.le_refl _, hLabelled.covering.file.edge, rfl, hFile⟩
  | @hydrateResume infos a b hPhase hResume =>
    rw [hPhase] at hRunning
    refine ⟨hNext trivial, ?_, hUnread _ (hRunning rfl)⟩
    intro h hIs
    have hProgress := hCopying.progress h hIs
    rw [hPhase] at hProgress
    rcases hProgress with ⟨_, _, hPos, hEdge, hTXID, hFile⟩
    exact ⟨hPos, hEdge, hTXID, hFile hResume.1⟩
  | @hydrateRestore fetchErr infos a b files h h' hPhase _ hIs hFetch hRestore =>
    rw [hPhase] at hRunning
    have hProgress := hCopying.progress h hIs
    rw [hPhase] at hProgress
    rcases hProgress with ⟨hChain, hReach, hPos, hEdge, _⟩
    rcases Hydrator.restore_image hFaithful hChain hFetch hRestore with ⟨hFile, hTXID, _⟩
    have hNone := hydrated_set hIs (hRunning rfl) (restore_complete hRestore)
    refine ⟨hNext trivial, ?_, hUnread _ hNone⟩
    intro x hx
    have hEq : h' = x := some.inj hx
    subst hEq
    refine ⟨hPos, hEdge, rfl, _, hFile, ?_, hReach⟩
    exact Nat.le_of_eq hTXID
  | @hydrateCatchUp fetchErr fault a b itr h h' hPhase hBehind hIs hList hCatchUp =>
    rw [hPhase] at hRunning
    have hProgress := hCopying.progress h hIs
    rw [hPhase] at hProgress
    rcases hProgress with ⟨hPos, hEdge, hTXID, n, hFile, hFrom, hTo⟩
    rcases hAllowed with ⟨rfl, hHeld⟩
    have hCount : s.conn.pos ≤ H.count := hLabelled.inv.file.count
    rcases catchUp_eq_replay hBound hFaithful hFrom hTo hBehind (Nat.le_trans hPos hCount) hEdge
      (hHeld a b hPhase) hList hFile
      (Nat.le_of_eq hTXID) hCatchUp with
      ⟨hImage, hEnd⟩
    have hNone := hydrated_set hIs (hRunning rfl) (catchUp_complete hCatchUp)
    refine ⟨hNext trivial, ?_, hUnread _ hNone⟩
    intro x hx
    have hEq : h' = x := some.inj hx
    subst hEq
    exact ⟨hPos, hEnd, hImage⟩
  | @hydrateReady a b hPhase hReady =>
    rw [hPhase] at hRunning
    refine ⟨hNext trivial, ?_, hUnread _ (hRunning rfl)⟩
    intro h hIs
    have hProgress := hCopying.progress h hIs
    rw [hPhase] at hProgress
    rcases hProgress with ⟨hPos, _, hTXID, n, hFile, hFrom, hTo⟩
    have hAt : n = b := by omega
    rw [hAt] at hFile
    exact ⟨hPos, by omega, hFile⟩
  | hydrateFail file txid hBusy hIs =>
    exact absurd hActive' (not_active_of_fail hRegular hBusy hIs file txid)
  | @complete b h hPhase hIs =>
    rcases hAllowed with ⟨hEmpty, hReplace, hAt⟩
    have hProgress := hCopying.progress h hIs
    rw [hAt] at hProgress
    rcases hProgress with ⟨_, hTXID, hFile⟩
    refine ⟨hNext trivial, fun _ _ => trivial, ?_⟩
    intro x hx
    have hEq : { h with complete := true } = x := some.inj (filter_eq_some_iff.mp hx).1
    rw [← hEq]
    exact ⟨hFile, hTXID, hEmpty, hReplace⟩
  | purge hPhase =>
    refine ⟨hNext trivial, fun _ _ => trivial, ?_⟩
    exact hCopying.hydrated
  | close _ _ _ =>
    rcases hActive' with hBusy | hSome
    · cases hBusy
    · cases hSome

theorem Step.saved (hStep : Step lib (Change H) s op s') {file} {txid : Nat}
    (hSaved : s'.saved = some (file, txid)) :
    s.saved = some (file, txid) ∨ op = .close ∧ ∃ h, s.conn.hydrator = some h ∧
      0 < h.txid ∧ h.file = file ∧ h.txid = txid := by
  cases hStep with
  | close _ _ hKept =>
    rcases hKept with hNone | ⟨h, hIs, hPos, hSome⟩
    · rw [hNone] at hSaved
      cases hSaved
    · rw [hSome] at hSaved
      rcases Prod.mk.inj (some.inj hSaved) with ⟨hFile, hTXID⟩
      exact Or.inr ⟨rfl, h, hIs, hPos, hFile, hTXID⟩
  | _ => exact Or.inl hSaved

/- Steps that meet the condition keep the copy. -/
theorem Copies.step (hBound : H.count + 1 < bound) (hCopies : s.Copies H)
    (hAllowed : KeepsCopy H s op) (hStep : Step lib (Change H) s op s') : s'.Copies H := by
  have hRegular := hCopies.regular
  have hWhole := KeepsCopy.compactsWhole hAllowed
  refine ⟨hStep.sourced hCopies.sourced hWhole, hRegular.step hStep, ?_, ?_⟩
  · intro file txid hSaved
    have hLe := hStep.uploaded_le
    rcases hStep.saved hSaved with hOld | ⟨rfl, h, hIs, hPos, rfl, rfl⟩
    · rcases hCopies.saved file txid hOld with ⟨n, hFile, hFrom, hTo⟩
      exact ⟨n, hFile, hFrom, Nat.le_trans hTo hLe⟩
    -- the file that is closed was complete
    have hComplete : h.complete = true := by
      rcases hAllowed h hIs with hDone | hZero
      · exact hDone
      · omega
    have hHydrated : s.conn.hydrated = some h := filter_eq_some_iff.mpr ⟨hIs, hComplete⟩
    have hCopying := hCopies.copying (Or.inr (by rw [hHydrated]; rfl))
    rcases hCopying.hydrated h hHydrated with ⟨hFile, hTXID, _⟩
    exact ⟨s.conn.pos, hFile, hTXID, Nat.le_trans hCopying.labelled.pos_le hLe⟩
  · intro hActive'
    have hTaken := hStep
    rcases hStep.active hActive' with hActive | rfl
    · exact (hCopies.copying hActive).step hBound hActive hRegular hAllowed hStep hActive'
    cases hStep with
    | openFile _ hPlan hHydrator hOpen =>
      exact hCopies.openFile hAllowed hPlan hHydrator hOpen hTaken
    | openNew hPhase _ _ _ =>
      -- a new database has no hydrator
      rcases hRegular.closed hPhase with ⟨hNew, hIdle⟩
      rcases hActive' with hRunning | hSome
      · have hBusy : s.hydration.running = true := hRunning
        rw [hIdle] at hBusy
        cases hBusy
      · rw [hNew] at hSome
        cases hSome

theorem start_copies (writeEnabled : Bool) : (start empty writeEnabled).Copies H :=
  ⟨⟨Genuine.empty, Faithful.empty⟩, start_regular _ _, fun _ _ h => (by cases h), fun hActive =>
      absurd hActive (not_active_of_closed (start_regular _ _) rfl)⟩

theorem Run.copies (hBound : H.count + 1 < bound) (hCopies : s.Copies H)
    (hRun : Run lib (Change H) (KeepsCopy H) s s') : s'.Copies H := by
  induction hRun with
  | refl => exact hCopies
  | tail _ hLast ih =>
    rcases hLast with ⟨op, hAllowed, hStep⟩
    exact ih.step hBound hAllowed hStep

/-
  The hydrated file is the database at the position, and
  reads through it and through the index agree.
-/
def TrueCopy (H : History lib) (s : ConnState D) : Prop :=
  ∀ h, s.conn.hydrated = some h → h.file = H.replay s.conn.pos ∧
    ∀ p, H.HasPage s.conn.pos p → ∃ e, s.conn.index.lookup p = some e ∧
      e.content H p = some (h.readAt lib p)

end ConnState

/-
  In every run from an empty replica whose steps meet the
  condition, a complete hydrated file is a true copy.
-/
theorem hydrated_true_copy
    {H : History lib}
    (hBound : H.count + 1 < bound)
    {writeEnabled : Bool}
    {s : ConnState D}
    (hRun :
      ConnState.Run lib (Change H) (KeepsCopy H)
        (ConnState.start empty writeEnabled) s) :
    s.TrueCopy H := by
  have hCopies : s.Copies H := hRun.copies hBound (ConnState.start_copies writeEnabled)
  intro h hHydrated
  have hCopying := hCopies.copying (Or.inr (by rw [hHydrated]; rfl))
  rcases hCopying.hydrated h hHydrated with ⟨hFile, _, hEmpty⟩
  refine ⟨hFile, ?_⟩
  intro p hPage
  rcases isSome_iff_exists.mp (hCopying.labelled.index_isSome hEmpty hPage) with ⟨e, hLookup⟩
  refine ⟨e, hLookup, ?_⟩
  rw [(hCopying.labelled.index_replay hEmpty hLookup).2, ← hFile]
  rfl

-- A Hydration Before A Poll

def hydratingState (hydration : HydrationPhase) (h : Hydrator Nat) : ConnState Nat :=
  { openedConnState (some h) with hydration := hydration }

theorem hydratingState_caughtUp {allowed} (hChange : ∀ s, allowed s (.change none))
    (hOpen : allowed { ConnState.start empty false with
      replica := afterUpload empty }
        .openFile) (hHydrate : ∀ s, allowed s .hydrate) :
    ConnState.Run referenceLibrary (Change threeVersions) allowed (ConnState.start empty false)
      (hydratingState (.caughtUp 1) ⟨[1], false, 1⟩) := by
  have hUpload : ConnState.Run referenceLibrary _ allowed (ConnState.start empty false) _ :=
    .single ⟨_, hChange _, .change (@afterUpload_change empty (by decide))⟩
  have hOpened := hUpload.step (@ConnState.Step.openFile _ _ _ _ (fun _ => none) [uploadOf 1]
    (some (new [] 0)) _ smallCache rfl ⟨fun _ => .none, by decide⟩ (Or.inr (Or.inl rfl)) rfl
    (Nat.le_refl 1)) hOpen
  have hStarted := hOpened.step (.hydrateStart rfl rfl) (hHydrate _)
  have hRestored := hStarted.step (@ConnState.Step.hydrateRestore _ _ _ _ (fun _ => none) _ _ _
    [threeVersions.tx 1] _ ⟨[1], false, 1⟩ rfl (by decide) rfl rfl rfl) (hHydrate _)
  exact hRestored.step (.hydrateReady rfl (Nat.le_refl 1)) (hHydrate _)

/- The page of the poll can be fetched. -/
theorem secondPoll_fetched
    (p : Nat)
    (e : PageElem)
    (hLookup : secondPoll.combined.lookup p = some e) :
    ∃ d, (afterUpload (afterUpload empty)).fetchPage
      (fun _ _ => none) e p = .ok d := by
  have hCombined : secondPoll.combined = [(1, ⟨0, 2, 2⟩)] := rfl
  rw [hCombined] at hLookup
  by_cases hPage : p = 1
  · subst hPage
    cases hLookup
    exact ⟨2, rfl⟩
  · have hNe : (p == 1) = false := by simpa using hPage
    rw [List.lookup_cons, hNe] at hLookup
    cases hLookup

/-
  The file is complete at the position that was read. It is
  locked and unlocked, and then a poll updates it.
-/
theorem polledCopy_true :
    ∃ s h,
      ConnState.Run referenceLibrary (Change threeVersions)
        (KeepsCopy threeVersions)
        (ConnState.start empty false) s ∧
      s.conn.pos = 2 ∧
      s.conn.hydrated = some h ∧
      h.file = [2] ∧
      s.TrueCopy threeVersions := by
  have hWaits := @hydratingState_caughtUp
    (KeepsCopy threeVersions) (fun _ => trivial)
    afterUpload_sizes (fun _ _ => trivial)
  have hComplete := hWaits.step (@ConnState.Step.complete
    _ _ _ _ 1 ⟨[1], false, 1⟩ rfl rfl) ⟨rfl, rfl, rfl⟩
  have hLock := hComplete.step (@ConnState.Step.lock
    _ _ _ _ none .shared _ (by decide) rfl) fun _ => trivial
  have hUnlock : ConnState.Run referenceLibrary _
    (KeepsCopy threeVersions) (ConnState.start empty false)
    (hydratingState .completed ⟨[1], true, 1⟩) :=
    hLock.step (@ConnState.Step.unlock
      _ _ _ _ .none _ (by decide) rfl) fun _ => trivial
  have hUpload := hUnlock.step
    (.change (afterUpload_change (by decide))) trivial
  have hPoll0 := hUpload.step (@ConnState.Step.pollL0
    _ _ _ _ calmPoll _ rfl rfl)
    fun _ _ => secondUpload_sizes rfl
  have hPoll1 : ConnState.Run referenceLibrary _
    (KeepsCopy threeVersions) (ConnState.start empty false)
    { hydratingState .completed ⟨[1], true, 1⟩ with
      replica := afterUpload (afterUpload empty)
      phase := .polledL1 secondPoll } :=
    hPoll0.step (@ConnState.Step.pollL1
      _ _ _ _ calmPoll _ _ rfl rfl)
      fun _ _ => secondUpload_sizes rfl
  have hApply := hPoll1.step (@ConnState.Step.apply
    _ _ _ _ secondPoll (fun _ _ => none) rfl)
    fun _ => ⟨fun _ => by simp [LevelsInOrder, secondPoll],
      fun _ => ⟨rfl, Nat.le_refl 1, secondPoll_fetched⟩⟩
  exact ⟨_, ⟨[2], true, 1⟩, hApply, rfl, rfl, rfl,
    hydrated_true_copy (by decide) hApply⟩

-- A Poll Before The File Is Complete

/-
  A poll after the position was read and before the file is
  marked complete updates the index, but not the file.
-/
theorem hydrated_copy_stale :
    ∃ s h,
      ConnState.Run referenceLibrary (Change threeVersions)
        (fun _ _ => True) (ConnState.start empty false) s ∧
      s.phase = .idle ∧
      s.conn.hydrated = some h ∧
      s.conn.pos = 2 ∧
      h.file = [1] ∧
      threeVersions.replay 2 = [2] ∧
      ¬ s.TrueCopy threeVersions := by
  have hWaits := @hydratingState_caughtUp (fun _ _ => True) (fun _ => trivial) trivial
    (fun _ => trivial)
  have hUpload := hWaits.step (.change (afterUpload_change (by decide))) trivial
  have hPoll0 := hUpload.step (@ConnState.Step.pollL0 _ _ _ _ calmPoll _ rfl rfl) trivial
  have hPoll1 := hPoll0.step (@ConnState.Step.pollL1 _ _ _ _ calmPoll _ _ rfl rfl) trivial
  have hApply := hPoll1.step (@ConnState.Step.apply _ _ _ _ _ (fun _ _ => none) rfl) trivial
  have hComplete := hApply.step (.complete rfl rfl) trivial
  have hPurge := hComplete.step (.purge rfl) trivial
  have hReplay : threeVersions.replay 2 = [2] := by rfl
  refine ⟨_, ⟨[1], true, 1⟩, hPurge, rfl, rfl, rfl, rfl, hReplay, ?_⟩
  intro hTrue
  have hFile := (hTrue ⟨[1], true, 1⟩ rfl).1
  exact absurd hFile (by decide)

end Replicate
