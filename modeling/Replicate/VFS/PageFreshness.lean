import Replicate.VFS.Index

/-
  Fresh page maps.

  A map is fresh for a position when the element of every
  page holds the version that the last transaction up to
  the position wrote. Reading a contiguous file keeps a map
  fresh, since a page that the file does not hold was not
  written in its range. So polling a level and opening by a
  plan give fresh maps, as long as the files on the replica
  hold what their labels say.

  Main declarations:
    * `Fresh.add`
    * `Published.Genuine.change`
    * `pollLevel_spec`
    * `buildIndexMap_spec`
-/

-- Fresh Maps

namespace Replicate

open FileInfo IntervalChain Published PageHistory Option List
open IntervalChain (Tiles)

variable {D : Type} {lib : LtxLibrary D}

/-
  The element's file holds the page, and its version is the
  last one up to the position.
-/
structure Newest (H : History lib) (p n : Nat) (e : PageElem) : Prop where
  start : 1 ≤ e.minTXID
  count : e.maxTXID ≤ H.count
  holds : ((slice H.tx e.minTXID e.maxTXID).page p).isSome
  version : writer H.tx p e.maxTXID = writer H.tx p n

/- Every entry of the map is the newest version. -/
def Fresh (H : History lib) (n : Nat) (m : PageMap) : Prop :=
  ∀ p e, m.lookup p = some e → Newest H p n e

/- Pages outside the map were not written after `a`. -/
def Complete (H : History lib) (a b : Nat) (m : PageMap) : Prop :=
  ∀ p, m.lookup p = none → writer H.tx p b ≤ a

section Maps

variable {H : History lib} {info : FileInfo} {m : PageMap} {n : Nat}

theorem Newest.of_writer_le {p m n : Nat} {e} (hNewest : Newest H p m e) (hLe : m ≤ n)
    (hWriter : writer H.tx p n ≤ m) : Newest H p n e := by
  refine ⟨hNewest.start, hNewest.count, hNewest.holds, ?_⟩
  rw [hNewest.version]
  exact writer_eq_of_le hWriter hLe

theorem lookup_pageEntries (has : Nat → Bool) (e : PageElem) (p : Nat) (is : List Nat) :
    (is.filterMap (fun i =>
      if has (i + 1) then some (i + 1, e) else none)).lookup
      p =
      if ∃ i ∈ is, i + 1 = p ∧ has p = true then some e else none := by
  induction is with
  | nil => simp
  | cons i is ih =>
    by_cases hHas : has (i + 1) = true
    · rw [filterMap_cons_some (by rw [if_pos hHas])]
      by_cases hPage : p = i + 1
      · subst hPage
        simp [hHas]
      · rw [lookup_cons, ih]
        have hNe : (p == i + 1) = false := by simpa using hPage
        simp [hNe, Ne.symm hPage]
    · rw [filterMap_cons_none (by rw [if_neg hHas]), ih]
      have hIff : (∃ j ∈ i :: is, j + 1 = p ∧ has p = true) ↔
        ∃ j ∈ is, j + 1 = p ∧ has p = true := by
        constructor
        · rintro ⟨j, hj, hEq, hSome⟩
          rcases mem_cons.mp hj with rfl | hRest
          · exact absurd (hEq ▸ hSome) hHas
          · exact ⟨j, hRest, hEq, hSome⟩
        · rintro ⟨j, hj, hEq⟩
          exact ⟨j, mem_cons_of_mem i hj, hEq⟩
      rw [if_congr hIff rfl rfl]

theorem of_lookup_fetchPageIndex {file : Layer D} {p : Nat} {e}
    (hLookup : (fetchPageIndex info file).lookup p = some e) :
    e = ⟨info.level, info.minTXID, info.maxTXID⟩ ∧ (file.page p).isSome := by
  unfold fetchPageIndex at hLookup
  rw [lookup_pageEntries (fun p => (file.page p).isSome)] at hLookup
  split at hLookup
  · rename_i hPage
    rcases hPage with ⟨_, _, _, hSome⟩
    exact ⟨(some.inj hLookup).symm, hSome⟩
  · cases hLookup

theorem lookup_fetchPageIndex_of_within {file : Layer D} {p : Nat} (hWithin :
    (file.page p).isSome → 1 ≤ p ∧ p ≤ file.commit) :
    (fetchPageIndex info file).lookup p = if (file.page p).isSome then
      some ⟨info.level, info.minTXID, info.maxTXID⟩
      else none := by
  unfold fetchPageIndex
  rw [lookup_pageEntries (fun p => (file.page p).isSome)]
  apply if_congr _ rfl rfl
  constructor
  · rintro ⟨_, _, _, hSome⟩
    exact hSome
  · intro hSome
    have hPage := hWithin hSome
    refine ⟨p - 1, ?_, by omega, hSome⟩
    rw [mem_range]
    omega

theorem lookup_fetchPageIndex (hMin : 1 ≤ info.minTXID) (hMax : info.maxTXID ≤ H.count) (p : Nat) :
    (fetchPageIndex info (slice H.tx info.minTXID info.maxTXID)).lookup p =
      if ((slice H.tx info.minTXID info.maxTXID).page p).isSome then
        some ⟨info.level, info.minTXID, info.maxTXID⟩
      else none := by
  apply lookup_fetchPageIndex_of_within
  intro hSome
  have hExists : p ≤ sizeAt H.tx info.maxTXID ∧ info.minTXID ≤ writer H.tx p info.maxTXID := by
    by_contra hNot
    simp [slice, hNot] at hSome
  refine ⟨?_, hExists.1⟩
  by_contra hZero
  have hEq : p = 0 := by omega
  rw [hEq, H.writer_zero hMax] at hExists
  omega

theorem writer_lt_of_slice_eq_none (hKeeps : H.KeepsPages info) (hMin : 1 ≤ info.minTXID) {p : Nat}
    (hNone : ¬ ((slice H.tx info.minTXID info.maxTXID).page p).isSome) :
    writer H.tx p info.maxTXID < info.minTXID := by
  by_contra hWritten
  have hRange : info.minTXID ≤ writer H.tx p info.maxTXID := by omega
  have hSome := isSome_page_writer (Nat.lt_of_lt_of_le hMin hRange)
  have hSize := hKeeps _ hRange writer_le p hSome
  rw [slice_page_eq hSize hRange] at hNone
  exact hNone hSome

/- Reading a file that follows keeps a map fresh. -/
theorem Fresh.add (hFresh : Fresh H n m) (hKeeps : H.KeepsPages info) (hMin : 1 ≤ info.minTXID)
    (hMax : info.maxTXID ≤ H.count) (hStart : info.minTXID ≤ n + 1) (hEnd : n ≤ info.maxTXID) :
    Fresh H info.maxTXID (fetchPageIndex info (slice H.tx info.minTXID info.maxTXID) ++ m) := by
  intro p e hLookup
  rw [lookup_append, lookup_fetchPageIndex hMin hMax] at hLookup
  by_cases hSome : ((slice H.tx info.minTXID info.maxTXID).page p).isSome
  · rw [if_pos hSome, some_or, some.injEq] at hLookup
    rw [← hLookup]
    exact ⟨hMin, hMax, hSome, rfl⟩
  · rw [if_neg hSome, none_or] at hLookup
    have hWriter := writer_lt_of_slice_eq_none hKeeps hMin hSome
    exact (hFresh p e hLookup).of_writer_le hEnd (by omega)

/- It also keeps it complete. -/
theorem Complete.add {a : Nat} (hComplete : Complete H a n m) (hKeeps : H.KeepsPages info)
    (hMin : 1 ≤ info.minTXID) (hMax : info.maxTXID ≤ H.count) (hStart : info.minTXID ≤ n + 1)
    (hEnd : n ≤ info.maxTXID) : Complete H a info.maxTXID (fetchPageIndex info
      (slice H.tx info.minTXID info.maxTXID) ++ m) := by
  intro p hLookup
  rw [lookup_append, or_eq_none_iff, lookup_fetchPageIndex hMin hMax] at hLookup
  rcases hLookup with ⟨hFile, hRest⟩
  have hSome : ¬ ((slice H.tx info.minTXID info.maxTXID).page p).isSome := by
    intro hHas
    rw [if_pos hHas] at hFile
    cases hFile
  have hWriter := writer_lt_of_slice_eq_none hKeeps hMin hSome
  have hSame : writer H.tx p n = writer H.tx p info.maxTXID := writer_eq_of_le (by omega) hEnd
  rw [← hSame]
  exact hComplete p hRest

theorem fresh_nil (n : Nat) : Fresh H n [] := by
  intro p e hLookup
  cases hLookup

end Maps

-- Genuine Files

/- A file that holds the slice of its label, whole. -/
structure History.Labels (H : History lib) (info : FileInfo) (file : Layer D) : Prop where
  start : 1 ≤ info.minTXID
  proper : info.minTXID ≤ info.maxTXID
  keeps : H.KeepsPages info
  produced : Produced H info.minTXID info.maxTXID file

/-
  The replica holds the transactions at level 0, and files
  that tile the history at level 1.
-/
structure Published.Genuine (H : History lib) (r : Published D) : Prop where
  files : ∀ level, ∀ obj ∈ r.objects level, obj.1.level = level ∧ H.Labels obj.1 obj.2
  uploaded : ∀ obj ∈ r.objects 0, obj.1.maxTXID ≤ r.uploaded
  l0_sorted : (r.content 0).Pairwise (fun f g => f.minTXID ≤ g.minTXID)
  l1_tiles : Tiles minTXID maxTXID 0 (r.content 1)
  others : ∀ level, 2 ≤ level → r.objects level = []

section Replica

variable {H : History lib} {r r' : Published D} {info : FileInfo}
variable {fetchErr : FileInfo → Option Err} {file : Layer D}

theorem History.keepsPages_transaction {t : Nat} (hStart : 1 ≤ t) (hLe : t ≤ H.count)
    (hMin : info.minTXID = t) (hMax : info.maxTXID = t) : H.KeepsPages info := by
  intro u hFrom hTo p hSome
  have hEq : u = t := by omega
  subst hEq
  rw [hMax]
  rcases Nat.exists_eq_add_of_le' hStart with ⟨k, rfl⟩
  exact (H.within (k + 1) hStart hLe p hSome).2

theorem Published.Genuine.empty : (Published.empty : Published D).Genuine H := by
  refine ⟨?_, ?_, ?_, ?_, ?_⟩
  all_goals simp [Published.empty, Published.content, Tiles]

theorem Published.mem_of_fetch (hFetch : r.fetch fetchErr info = .ok file) :
    (info, file) ∈ r.objects info.level := by
  unfold Published.fetch at hFetch
  split at hFetch
  · simp at hFetch
  split at hFetch
  · rename_i obj hFind
    have hFound := find?_some hFind
    have hName : obj.1 = info := of_decide_eq_true hFound
    rw [← Except.ok.inj hFetch, ← hName]
    rw [← hName] at hFind
    exact mem_of_find?_eq_some hFind
  · simp at hFetch

theorem Published.mem_append_iff {l level : Nat} {obj new : FileInfo × Layer D} :
    obj ∈ (r.append l new).objects level ↔ obj ∈ r.objects level ∨ level = l ∧ obj = new := by
  unfold append
  by_cases hEq : level = l
  · simp [hEq]
  · simp [hEq]

theorem Published.mem_of_mem_retained {gone : FileInfo → Bool} {level : Nat}
    {obj : FileInfo × Layer D} (hMem : obj ∈ if level = 0 then
      (r.objects level).filter (fun obj => !gone obj.1) else r.objects level) :
    obj ∈ r.objects level := by
  split at hMem
  · exact (mem_filter.mp hMem).1
  · exact hMem

theorem Published.content_append (r : Published D) (level l : Nat) (obj : FileInfo × Layer D) :
    (r.append level obj).content l = if l = level then
      r.content l ++ [obj.1]
      else r.content l := by
  unfold content append
  dsimp only
  split
  · rw [map_append, map_singleton]
  · rfl

theorem Published.Genuine.fetch (hGenuine : r.Genuine H) (hFetch : r.fetch fetchErr info = .ok file)
    :
    H.Labels info file :=
  (hGenuine.files _ _ (mem_of_fetch hFetch)).2

/- The next upload is the last file of level 0. -/
theorem Published.Genuine.upload (hGenuine : r.Genuine H) (hLevel : info.level = 0)
    (hMin : info.minTXID = r.uploaded + 1) (hMax : info.maxTXID = r.uploaded + 1)
    (hCount : r.uploaded + 1 ≤ H.count) : Genuine H { r.append 0 (info, H.tx (r.uploaded + 1)) with
      uploaded := r.uploaded + 1 } := by
  have hLabels : H.Labels info (H.tx (r.uploaded + 1)) := by
    refine ⟨by omega, by omega,
      History.keepsPages_transaction (Nat.le_add_left 1 _) hCount hMin hMax, ?_⟩
    rw [hMin, hMax]
    exact Produced.transaction (Nat.le_add_left 1 _) hCount
  refine ⟨?_, ?_, ?_, ?_, ?_⟩
  · intro level obj hMem
    rcases mem_append_iff.mp hMem with hOld | ⟨rfl, rfl⟩
    · exact hGenuine.files level obj hOld
    · exact ⟨hLevel, hLabels⟩
  · intro obj hMem
    rcases mem_append_iff.mp (show _ ∈ (r.append 0 _).objects 0 from hMem) with hOld | ⟨_, rfl⟩
    · exact Nat.le_succ_of_le (hGenuine.uploaded obj hOld)
    · exact Nat.le_of_eq hMax
  · simp only [Published.content, append, if_true, map_append, map_singleton, pairwise_append]
    refine ⟨hGenuine.l0_sorted, by simp, ?_⟩
    intro f hf g hg
    rw [mem_singleton.mp hg]
    rcases mem_map.mp hf with ⟨obj, hObj, rfl⟩
    have hEnd := hGenuine.uploaded obj hObj
    have hProper := (hGenuine.files 0 obj hObj).2.proper
    omega
  · exact hGenuine.l1_tiles
  · intro level hTwo
    have hZero : level ≠ 0 := by omega
    simp only [append, hZero, if_false]
    exact hGenuine.others level hTwo

/- A compaction continues level 1. -/
theorem Published.Genuine.compact (hGenuine : r.Genuine H) {inputs out}
    (hInputs : ∀ x ∈ inputs, x ∈ r.objects 0) (hNonempty : inputs ≠ [])
    (hTiles : Tiles minTXID maxTXID r.l1End (inputs.map Prod.fst))
    (hCompact : lib.compact (inputs.map Prod.snd) = .ok out) (hLevel : info.level = 1)
    (hMin : info.minTXID = (Compactor.sourceRange (inputs.map Prod.fst)).1)
    (hMax : info.maxTXID = (Compactor.sourceRange (inputs.map Prod.fst)).2)
    (hKeeps : H.KeepsPages info) : (r.append 1 (info, out)).Genuine H := by
  have hInfos : inputs.map Prod.fst ≠ [] := by simpa using hNonempty
  have hRange := Compactor.sourceRange_tiles hTiles hInfos
  have hWide := (Compactor.sourceRange_max hInfos).1 _ (head_mem hInfos)
  have hFirst := hTiles.lt_lo (head_mem hInfos)
  have hProper := hTiles.lo_le_hi (head_mem hInfos)
  rw [hRange] at hMin hMax hWide
  have hProduced : Produced H info.minTXID info.maxTXID out := by
    have hMerge :=
      @Produced.compaction D lib H inputs out r.l1End (fun x hx =>
        (hGenuine.files 0 x (hInputs x hx)).2.produced)
        hNonempty
        ((IntervalChain.isChain_map Prod.fst _ _).mp hTiles.isChain)
        hCompact
    rw [hRange, ← hMin, ← hMax] at hMerge
    exact hMerge
  refine ⟨?_, hGenuine.uploaded, hGenuine.l0_sorted, ?_, ?_⟩
  · intro level obj hMem
    rcases mem_append_iff.mp hMem with hOld | ⟨rfl, rfl⟩
    · exact hGenuine.files level obj hOld
    · exact ⟨hLevel, by dsimp only; omega, by dsimp only; omega, hKeeps, hProduced⟩
  · simp only [Published.content, append, if_true, map_append, map_singleton]
    rw [tiles_append_singleton]
    refine ⟨hGenuine.l1_tiles, hMin, ?_⟩
    have hPast : r.l1End < info.maxTXID := by omega
    exact hPast
  · intro level hTwo
    have hOne : level ≠ 1 := by omega
    simp only [append, hOne, if_false]
    exact hGenuine.others level hTwo

theorem Published.Genuine.retain (hGenuine : r.Genuine H) (gone : FileInfo → Bool) :
    Genuine H { r with
      objects := fun l =>
        if l = 0 then (r.objects l).filter (fun obj => !gone obj.1)
        else r.objects l } := by
  refine ⟨?_, ?_, ?_, hGenuine.l1_tiles, ?_⟩
  · intro level obj hMem
    exact hGenuine.files level obj (mem_of_mem_retained hMem)
  · intro obj hMem
    exact hGenuine.uploaded obj (mem_filter.mp hMem).1
  · simp only [Published.content, if_true]
    exact hGenuine.l0_sorted.sublist (filter_sublist.map Prod.fst)
  · intro level hTwo
    have hZero : level ≠ 0 := by omega
    simp only [hZero, if_false]
    exact hGenuine.others level hTwo

theorem Published.Genuine.change {compacted} (hGenuine : r.Genuine H)
    (hKeeps : ∀ info, compacted = some info → H.KeepsPages info)
    (hChange : Change H r compacted r') :
    r'.Genuine H := by
  cases hChange with
  | upload hLevel hMin hMax hCount => exact hGenuine.upload hLevel hMin hMax hCount
  | @compact inputs info out hInputs hNonempty hTiles hCompact hLevel hMin hMax =>
    exact hGenuine.compact hInputs hNonempty hTiles hCompact hLevel hMin hMax (hKeeps info rfl)
  | retain gone _ => exact hGenuine.retain gone

end Replica

-- Polling A Level

/- What a level poll has read from a start position. -/
structure PollInv (H : History lib) (start : Nat) (st : LevelPoll) : Prop where
  le : start ≤ st.maxTXID
  count : st.maxTXID ≤ H.count
  fresh : Fresh H st.maxTXID st.index
  complete : st.replace = false → Complete H start st.maxTXID st.index

section Poll

variable {H : History lib} {fetch : FileInfo → Except Err (Layer D)} {level start : Nat}
variable {items : List FileInfo} {st st' : LevelPoll}

/- One more contiguous file. -/
theorem PollInv.add (hInv : PollInv H start st) {info file} (hLabels : H.Labels info file)
    (hNext : info.minTXID = st.maxTXID + 1) : PollInv H start (st.add info file) := by
  have hProper := hLabels.proper
  rcases hLabels.produced.eq_slice with ⟨_, hMax, hFile⟩
  have hLe := hInv.le
  refine ⟨?_, hMax, ?_, ?_⟩
  · unfold LevelPoll.add
    dsimp only
    omega
  · unfold LevelPoll.add
    dsimp only
    rw [hFile]
    split
    · exact (fresh_nil st.maxTXID).add hLabels.keeps hLabels.start hMax (by omega) (by omega)
    · exact hInv.fresh.add hLabels.keeps hLabels.start hMax (by omega) (by omega)
  · intro hSame
    unfold LevelPoll.add at hSame ⊢
    rw [Bool.or_eq_false_iff] at hSame
    rw [hSame.2, hFile]
    exact (hInv.complete hSame.1).add hLabels.keeps hLabels.start hMax (by omega) (by omega)

/- The loop keeps what every contiguous file keeps. -/
theorem pollItems_keeps {P : LevelPoll → Prop} (hAdd : ∀ st, ∀ info ∈ items, ∀ file,
      fetch info = .ok file → info.minTXID = TXID.next st.maxTXID → P st → P (st.add info file))
    (hStart : P st) (hPoll : pollItems fetch level items st = .ok st') : P st' := by
  induction items generalizing st with
  | nil =>
    rw [← Except.ok.inj hPoll]
    exact hStart
  | cons info items ih =>
    unfold pollItems at hPoll
    split at hPoll
    · split at hPoll
      · rw [← Except.ok.inj hPoll]
        exact hStart
      · simp at hPoll
    rename_i hNext
    cases hFile : fetch info with
    | error err => simp [hFile] at hPoll
    | ok file =>
      simp only [hFile] at hPoll
      refine ih (fun st f hf => hAdd st f (mem_cons_of_mem info hf)) ?_ hPoll
      exact hAdd st info mem_cons_self file hFile (not_not.mp hNext) hStart

theorem pollItems_spec (hBound : H.count + 1 < TXID.bound)
    (hFetch : ∀ info file, fetch info = .ok file → H.Labels info file) (hInv : PollInv H start st)
    (hPoll : pollItems fetch level items st = .ok st') : PollInv H start st' := by
  refine pollItems_keeps ?_ hInv hPoll
  intro st info _ file hFile hNext hInv
  have hCount := hInv.count
  rw [TXID.next_eq (by omega)] at hNext
  exact hInv.add (hFetch info file hFile) hNext

theorem pollItems_maxTXID (hPoll : pollItems fetch level items st = .ok st') :
    st'.maxTXID = st.maxTXID ∨ ∃ info ∈ items, st'.maxTXID = info.maxTXID := by
  refine pollItems_keeps (P := fun x => x.maxTXID = st.maxTXID ∨
    ∃ info ∈ items, x.maxTXID = info.maxTXID) ?_ (Or.inl rfl) hPoll
  intro _ info hMem _ _ _ _
  exact Or.inr ⟨info, hMem, rfl⟩

theorem pollLevel_spec {r env} {baseCommit : Nat} (hBound : H.count + 1 < TXID.bound)
    (hGenuine : r.Genuine H) (hStart : start ≤ H.count)
    (hPoll : pollLevel r env level start baseCommit = .ok st) : PollInv H start st := by
  unfold pollLevel at hPoll
  split at hPoll
  · simp at hPoll
  refine pollItems_spec hBound (fun info file hFetch => hGenuine.fetch hFetch) ?_ hPoll
  refine ⟨Nat.le_refl _, hStart, fresh_nil _, ?_⟩
  intro _ p _
  exact writer_le

end Poll

-- Opening

section Open

variable {H : History lib} {fetch : FileInfo → Except Err (Layer D)} {infos : List FileInfo}
variable {r : Published D} {faults : Nat → ListFault} {timestamp : Int}

theorem getLast_eq_reach (infos : List FileInfo) : (infos.getLast?.map maxTXID).getD 0 =
    reach maxTXID 0 infos := by
  rcases eq_nil_or_concat infos with rfl | ⟨init, last, rfl⟩
  · rfl
  · rw [concat_eq_append, reach_append_singleton]
    simp

theorem buildIndexMap_concat {info index} {commit : Nat}
    (hBuild : buildIndexMap fetch (infos ++ [info]) = .ok (index, commit)) :
    ∃ before size file, buildIndexMap fetch infos = .ok (before, size) ∧ fetch info = .ok file ∧
      index = fetchPageIndex info file ++ before ∧ commit = file.commit := by
  unfold buildIndexMap at hBuild
  rw [foldlM_append, Traversal.bind_eq_ok_iff] at hBuild
  rcases hBuild with ⟨⟨before, size⟩, hBefore, hLast⟩
  simp only [foldlM_cons, foldlM_nil] at hLast
  cases hFile : fetch info with
  | error err => simp [hFile, bind, Except.bind] at hLast
  | ok file =>
    simp only [hFile, bind, Except.bind, pure, Except.pure, Except.ok.injEq, Prod.mk.injEq] at hLast
    exact ⟨before, size, file, hBefore, rfl, hLast.1.symm, hLast.2.symm⟩

/- Building the index of a chain of files. -/
theorem buildIndexMap_spec (hFetch : ∀ info file, fetch info = .ok file → H.Labels info file)
    (hChain : IntervalChain.IsChain minTXID maxTXID 0 infos) {index} {commit : Nat}
    (hBuild : buildIndexMap fetch infos = .ok (index, commit)) :
    Fresh H (reach maxTXID 0 infos) index ∧ reach maxTXID 0 infos ≤ H.count := by
  induction infos using reverseRecOn generalizing index commit with
  | nil =>
    rw [← (Prod.mk.inj (Except.ok.inj hBuild)).1]
    exact ⟨fresh_nil _, Nat.zero_le _⟩
  | append_singleton infos info ih =>
    rw [isChain_append_singleton] at hChain
    rcases hChain with ⟨hInit, hStart, hEnd⟩
    rcases buildIndexMap_concat hBuild with ⟨before, _, file, hBefore, hFile, rfl, _⟩
    rcases ih hInit hBefore with ⟨hFresh, _⟩
    have hLabels := hFetch info file hFile
    rcases hLabels.produced.eq_slice with ⟨_, hMax, hSlice⟩
    rw [reach_append_singleton, hSlice]
    exact ⟨hFresh.add hLabels.keeps hLabels.start hMax hStart (Nat.le_of_lt hEnd), hMax⟩

theorem maxLevelTXID_le (hChain : IntervalChain.IsChain minTXID maxTXID 0 infos) (level : Nat) :
    maxLevelTXID infos level ≤ reach maxTXID 0 infos := by
  have hPick : maxLevelTXID infos level = 0 ∨ ∃ a ∈ infos,
    maxLevelTXID infos level = a.maxTXID := by
    apply Traversal.foldl_eq_or_mem
    intro txID info
    split
    · exact Or.inr rfl
    · exact Or.inl rfl
  rcases hPick with hZero | ⟨f, hf, hEq⟩
  · rw [hZero]
    exact Nat.zero_le _
  · rw [hEq]
    exact hi_le_reach hChain hf

theorem Published.plan_isChain (hEmpty : ∀ level, 2 ≤ level → r.content level = [])
    (hSorted : ∀ level, (r.content level).Pairwise (fun f g => f.minTXID ≤ g.minTXID))
    (hPlan : calcRestorePlan (fun level => ltxFiles r.content (faults level) level 0) 0 timestamp =
      .ok infos) : IntervalChain.IsChain minTXID maxTXID 0 infos ∧
      ∀ f ∈ infos, f ∈ r.content 0 ∨ f ∈ r.content 1 := by
  have hChain := calcRestorePlan_isChain (fun level _ itr hItr => ltxFiles_sorted hSorted hItr) (by
    intro itr hItr f hf
    have hMem := mem_of_mem_ltxFiles hItr hf
    rw [hEmpty snapshotLevel (by decide)] at hMem
    cases hMem)
    hPlan
  refine ⟨hChain.2.1, ?_⟩
  intro f hf
  rcases (hChain.2.2.1 f hf).1 with ⟨level, _, itr, hItr, hMem⟩
  have hListed := mem_of_mem_ltxFiles hItr hMem
  match level with
  | 0 => exact Or.inl hListed
  | 1 => exact Or.inr hListed
  | n + 2 =>
    rw [hEmpty (n + 2) (by omega)] at hListed
    cases hListed

theorem Published.Genuine.plan_isChain (hGenuine : r.Genuine H)
    (hPlan : calcRestorePlan (fun level => ltxFiles r.content (faults level) level 0) 0 timestamp =
      .ok infos) : IntervalChain.IsChain minTXID maxTXID 0 infos := by
  have hEmpty : ∀ level, 2 ≤ level → r.content level = [] := by
    intro level hTwo
    unfold Published.content
    rw [hGenuine.others level hTwo, map_nil]
  refine (Published.plan_isChain hEmpty ?_ hPlan).1
  intro level
  match level with
  | 0 => exact hGenuine.l0_sorted
  | 1 => exact hGenuine.l1_tiles.pairwise
  | n + 2 =>
    rw [hEmpty (n + 2) (by omega)]
    exact List.Pairwise.nil

end Open

end Replicate
