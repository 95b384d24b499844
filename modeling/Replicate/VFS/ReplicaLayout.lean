import Replicate.VFS.PageFreshness

/-
  The levels of a replica that is uploaded to, compacted and
  cleaned up.

  Level 0 holds single transactions, among them all that
  level 1 does not cover, and level 1 is contiguous from the
  first transaction on. So the greatest TXID of the two is
  that of the newest upload.

  Main declarations:
    * `Published.Layout.change`
    * `Published.Layout.head_eq`
    * `Published.Faithful.change`
-/

-- The Levels Of A Replica

namespace Replicate

open IntervalChain PageHistory List
open IntervalChain (Tiles reach)

variable {D : Type} {lib : LtxLibrary D}

/- The greatest TXID of some files, or zero. -/
def greatestTXID : List FileInfo → Nat
| [] => 0
| info :: infos => max info.maxTXID (greatestTXID infos)

theorem greatestTXID_le_iff {infos} {n : Nat} :
    greatestTXID infos ≤ n ↔ ∀ info ∈ infos, info.maxTXID ≤ n := by
  induction infos with
  | nil => simp [greatestTXID]
  | cons info infos ih =>
    simp only [greatestTXID, forall_mem_cons, ← ih]
    omega

theorem le_greatestTXID {infos info} (hMem : info ∈ infos) : info.maxTXID ≤ greatestTXID infos :=
  greatestTXID_le_iff.mp (Nat.le_refl _) info hMem

/- The greatest TXID in levels 0 and 1. -/
def Published.head (r : Published D) : Nat :=
  max (greatestTXID (r.content 0)) (greatestTXID (r.content 1))

/-
  What uploads, compactions and retention make of a replica:
  level 0 holds single transactions, among them all that
  level 1 does not cover, and level 1 is contiguous.
-/
structure Published.Layout (r : Published D) : Prop where
  l0 : ∀ info ∈ r.content 0, info.level = 0 ∧ 1 ≤ info.minTXID ∧ info.minTXID = info.maxTXID ∧
    info.maxTXID ≤ r.uploaded
  l0_sorted : (r.content 0).Pairwise (fun f g => f.minTXID < g.minTXID)
  l0_covers : ∀ t, r.l1End < t → t ≤ r.uploaded → ∃ info ∈ r.content 0, info.minTXID = t
  l1 : ∀ info ∈ r.content 1, info.level = 1
  l1_tiles : Tiles FileInfo.minTXID FileInfo.maxTXID 0 (r.content 1)
  l1_le : r.l1End ≤ r.uploaded
  others : ∀ level, 2 ≤ level → r.content level = []

namespace Published

variable {H : History lib} {r r' : Published D} {info : FileInfo} {compacted : Option FileInfo}

theorem Layout.empty : (empty : Published D).Layout := by
  refine ⟨?_, ?_, ?_, ?_, ?_, ?_, ?_⟩
  case refine_3 =>
    intro t hAfter hTo
    have hNone : t ≤ 0 := hTo
    omega
  all_goals
    simp [Published.empty, content, l1End, Tiles]

theorem Layout.upload (hLayout : r.Layout) {file} (hLevel : info.level = 0)
    (hMin : info.minTXID = r.uploaded + 1) (hMax : info.maxTXID = r.uploaded + 1) :
    Layout { r.append 0 (info, file) with
      uploaded := r.uploaded + 1 } := by
  have hL0 : content { r.append 0 (info, file) with
    uploaded := r.uploaded + 1 } 0 = r.content 0 ++ [info] :=
    content_append r 0 0 (info, file)
  refine ⟨?_, ?_, ?_, hLayout.l1, hLayout.l1_tiles, Nat.le_succ_of_le hLayout.l1_le, ?_⟩
  · intro f hf
    rw [hL0, mem_append, mem_singleton] at hf
    rcases hf with hOld | rfl
    · rcases hLayout.l0 f hOld with ⟨hZero, hStart, hSingle, hLe⟩
      exact ⟨hZero, hStart, hSingle, Nat.le_succ_of_le hLe⟩
    · exact ⟨hLevel, by omega, by omega, Nat.le_of_eq hMax⟩
  · rw [hL0, pairwise_append]
    refine ⟨hLayout.l0_sorted, by simp, ?_⟩
    intro f hf g hg
    rw [mem_singleton.mp hg, hMin]
    have hOld := hLayout.l0 f hf
    omega
  · intro t hAfter hTo
    rw [hL0]
    by_cases hNew : t = r.uploaded + 1
    · exact ⟨info, by simp, by omega⟩
    · rcases hLayout.l0_covers t hAfter (by dsimp only at hTo; omega) with ⟨f, hf, hEq⟩
      exact ⟨f, mem_append_left _ hf, hEq⟩
  · intro level hTwo
    have hOther : content { r.append 0 (info, file) with
      uploaded := r.uploaded + 1 } level = r.content level := by
      refine (content_append r 0 level (info, file)).trans ?_
      rw [if_neg (by omega)]
    rw [hOther]
    exact hLayout.others level hTwo

theorem Layout.compact (hLayout : r.Layout) {inputs out} (hInputs : ∀ x ∈ inputs, x ∈ r.objects 0)
    (hNonempty : inputs ≠ [])
    (hTiles : Tiles FileInfo.minTXID FileInfo.maxTXID r.l1End (inputs.map Prod.fst))
    (hLevel : info.level = 1)
    (hMin : info.minTXID = (Compactor.sourceRange (inputs.map Prod.fst)).1)
    (hMax : info.maxTXID = (Compactor.sourceRange (inputs.map Prod.fst)).2) :
    (r.append 1 (info, out)).Layout := by
  have hInfos : inputs.map Prod.fst ≠ [] := by simpa using hNonempty
  have hRange := Compactor.sourceRange_tiles hTiles hInfos
  have hLast := (Compactor.sourceRange_max hInfos).2
  rw [hRange] at hMin hMax
  rcases hLast with ⟨x, hx, hEnd⟩
  rw [hRange] at hEnd
  have hIn : x ∈ r.content 0 := by
    rcases mem_map.mp hx with ⟨y, hy, rfl⟩
    exact mem_map_of_mem (hInputs y hy)
  have hUploaded := (hLayout.l0 x hIn).2.2.2
  have hPast : r.l1End < info.maxTXID := by
    have hFirst := hTiles.lt_lo hx
    have hProper := hTiles.lo_le_hi hx
    omega
  have hL1 : (r.append 1 (info, out)).content 1 = r.content 1 ++ [info] :=
    content_append r 1 1 (info, out)
  have hOther : ∀ level, level ≠ 1 → (r.append 1 (info, out)).content level = r.content level := by
    intro level hNe
    rw [content_append, if_neg hNe]
  have hNewEnd : (r.append 1 (info, out)).l1End = info.maxTXID := by
    unfold l1End
    rw [hL1, reach_append_singleton]
  refine ⟨?_, ?_, ?_, ?_, ?_, ?_, ?_⟩
  · intro f hf
    exact hLayout.l0 f hf
  · rw [hOther 0 (by decide)]
    exact hLayout.l0_sorted
  · intro t hAfter hTo
    exact hLayout.l0_covers t (by omega) hTo
  · intro f hf
    rw [hL1, mem_append, mem_singleton] at hf
    rcases hf with hOld | rfl
    · exact hLayout.l1 f hOld
    · exact hLevel
  · rw [hL1, tiles_append_singleton]
    exact ⟨hLayout.l1_tiles, hMin, hPast⟩
  · rw [hNewEnd]
    have hSame : (r.append 1 (info, out)).uploaded = r.uploaded := rfl
    omega
  · intro level hTwo
    rw [hOther level (by omega)]
    exact hLayout.others level hTwo

theorem Layout.retain (hLayout : r.Layout) {gone : FileInfo → Bool}
    (hGone : ∀ info, gone info = true → info.maxTXID ≤ r.l1End) : Layout { r with
      objects := fun l =>
        if l = 0 then (r.objects l).filter (fun obj => !gone obj.1)
        else r.objects l } := by
  have hL0 : content { r with
    objects := fun l =>
      if l = 0 then (r.objects l).filter (fun obj => !gone obj.1) else r.objects l } 0 =
        (r.content 0).filter (fun info => !gone info) := by
    unfold content
    dsimp only
    rw [if_pos rfl, filter_map]
    rfl
  refine ⟨?_, ?_, ?_, hLayout.l1, hLayout.l1_tiles, hLayout.l1_le, ?_⟩
  · intro f hf
    rw [hL0] at hf
    exact hLayout.l0 f (mem_filter.mp hf).1
  · rw [hL0]
    exact hLayout.l0_sorted.filter _
  · intro t hAfter hTo
    rcases hLayout.l0_covers t hAfter hTo with ⟨f, hf, hEq⟩
    refine ⟨f, ?_, hEq⟩
    rw [hL0, mem_filter]
    refine ⟨hf, ?_⟩
    cases hCase : gone f with
    | false => rfl
    | true =>
      have hLe := hGone f hCase
      have hSingle := (hLayout.l0 f hf).2.2.1
      have hPast : r.l1End < t := hAfter
      omega
  · intro level hTwo
    have hNe : level ≠ 0 := by omega
    unfold content
    simp only [hNe, if_false]
    exact hLayout.others level hTwo

theorem Layout.change (hLayout : r.Layout) (hChange : Change H r compacted r') : r'.Layout := by
  cases hChange with
  | upload hLevel hMin hMax _ => exact hLayout.upload hLevel hMin hMax
  | compact hInputs hNonempty hTiles _ hLevel hMin hMax =>
    exact hLayout.compact hInputs hNonempty hTiles hLevel hMin hMax
  | retain gone hGone => exact hLayout.retain hGone

theorem Change.uploaded_le (hChange : Change H r compacted r') : r.uploaded ≤ r'.uploaded := by
  cases hChange with
  | upload => exact Nat.le_succ _
  | compact | retain => exact Nat.le_refl _

theorem Change.count (hChange : Change H r compacted r') (hCount : r.uploaded ≤ H.count) :
    r'.uploaded ≤ H.count := by
  cases hChange with
  | upload _ _ _ hNew => exact hNew
  | compact | retain => exact hCount

theorem Layout.le_uploaded (hLayout : r.Layout) (hMem : info ∈ r.content 0 ∨ info ∈ r.content 1) :
    info.maxTXID ≤ r.uploaded := by
  rcases hMem with hL0 | hL1
  · exact (hLayout.l0 info hL0).2.2.2
  · exact Nat.le_trans (hi_le_reach hLayout.l1_tiles.isChain hL1) hLayout.l1_le

theorem Layout.sorted (hLayout : r.Layout) (level : Nat) :
    (r.content level).Pairwise (fun f g => f.minTXID ≤ g.minTXID) := by
  match level with
  | 0 => exact hLayout.l0_sorted.imp Nat.le_of_lt
  | 1 => exact hLayout.l1_tiles.pairwise
  | n + 2 =>
    rw [hLayout.others (n + 2) (by omega)]
    exact List.Pairwise.nil

theorem Layout.apart (hLayout : r.Layout) (level : Nat) :
    (r.content level).Pairwise (fun f g => f.maxTXID < g.minTXID) := by
  match level with
  | 0 =>
    refine hLayout.l0_sorted.imp_of_mem ?_
    intro f g hf _ hLt
    rw [← (hLayout.l0 f hf).2.2.1]
    exact hLt
  | 1 => exact hLayout.l1_tiles.apart.imp (fun h => h.2)
  | n + 2 =>
    rw [hLayout.others (n + 2) (by omega)]
    exact List.Pairwise.nil

theorem Layout.proper (hLayout : r.Layout) {level : Nat} (hMem : info ∈ r.content level) :
    info.minTXID ≤ info.maxTXID := by
  match level with
  | 0 => exact Nat.le_of_eq (hLayout.l0 info hMem).2.2.1
  | 1 => exact hLayout.l1_tiles.lo_le_hi hMem
  | n + 2 =>
    rw [hLayout.others (n + 2) (by omega)] at hMem
    cases hMem

/- The newest transaction is in one of the levels. -/
theorem Layout.head_eq (hLayout : r.Layout) : r.head = r.uploaded := by
  have hL0 : greatestTXID (r.content 0) ≤ r.uploaded :=
    greatestTXID_le_iff.mpr (fun info hMem => (hLayout.l0 info hMem).2.2.2)
  have hL1 : greatestTXID (r.content 1) ≤ r.l1End :=
    greatestTXID_le_iff.mpr (fun info hMem => hi_le_reach hLayout.l1_tiles.isChain hMem)
  have hEnd : r.l1End ≤ greatestTXID (r.content 1) := by
    unfold l1End
    rcases eq_nil_or_concat (r.content 1) with hNil | ⟨init, last, hConcat⟩
    · rw [hNil]
      exact Nat.zero_le _
    · rw [hConcat, concat_eq_append, reach_append_singleton]
      exact le_greatestTXID (by simp)
  have hLe := hLayout.l1_le
  unfold head
  by_cases hCovered : r.l1End = r.uploaded
  · omega
  rcases hLayout.l0_covers r.uploaded (by omega) (Nat.le_refl _) with ⟨info, hMem, hEq⟩
  have hAt := le_greatestTXID hMem
  have hSingle := (hLayout.l0 info hMem).2.2.1
  omega

-- Faithful Files

/- Every file holds the part of the history of its label. -/
structure Faithful (H : History lib) (r : Published D) : Prop where
  layout : r.Layout
  count : r.uploaded ≤ H.count
  files : ∀ level, ∀ obj ∈ r.objects level, Produced H obj.1.minTXID obj.1.maxTXID obj.2

theorem Faithful.empty : (empty : Published D).Faithful H :=
  ⟨Layout.empty, Nat.zero_le _, fun _ obj hMem => by cases hMem⟩

theorem Faithful.change (hFaithful : r.Faithful H) (hChange : Change H r compacted r') :
    r'.Faithful H := by
  refine ⟨hFaithful.layout.change hChange, hChange.count hFaithful.count, ?_⟩
  have hFiles := hFaithful.files
  cases hChange with
  | @upload info hLevel hMin hMax hCount =>
    intro level obj hMem
    rcases mem_append_iff.mp hMem with hOld | ⟨_, rfl⟩
    · exact hFiles level obj hOld
    · dsimp only
      rw [hMin, hMax]
      exact Produced.transaction (Nat.le_add_left 1 _) hCount
  | @compact inputs info out hInputs hNonempty hTiles hCompact hLevel hMin hMax =>
    intro level obj hMem
    rcases mem_append_iff.mp hMem with hOld | ⟨_, rfl⟩
    · exact hFiles level obj hOld
    · dsimp only
      rw [hMin, hMax]
      exact Produced.compaction (fun x hx => hFiles 0 x (hInputs x hx)) hNonempty
        ((IntervalChain.isChain_map Prod.fst _ _).mp hTiles.isChain)
        hCompact
  | retain gone hGone =>
    intro level obj hMem
    exact hFiles level obj (mem_of_mem_retained hMem)

theorem Faithful.fetch (hFaithful : r.Faithful H) {fetchErr file}
    (hFetch : r.fetch fetchErr info = .ok file) :
    1 ≤ info.minTXID ∧ info.maxTXID ≤ H.count ∧ file = slice H.tx info.minTXID info.maxTXID :=
  (hFaithful.files _ _ (mem_of_fetch hFetch)).eq_slice

end Published

end Replicate
