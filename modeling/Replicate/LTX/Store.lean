import Replicate.LTX.FileInfo

/-
  What a replica client stores and how it lists it.

  A client lists a level in the order of the file names,
  from the first file that starts at or after a seek TXID.
  A listing call can fail at once, or after some items.
-/

-- Listing

namespace Replicate

open List

variable {content : Content} {fault : ListFault} {level seek : Nat} {itr : FileIterator}
  {f : FileInfo} {α : Type}
variable {r : FileInfo → FileInfo → Prop} {info : α → FileInfo} {x : α} {xs : List α}

/- The files of a replica, level by level, as listed. -/
abbrev Content := Nat → List FileInfo

/- How a call of `LTXFiles` fails, if it does. -/
inductive ListFault where
  | none
  | call (err : Err)
  | read (items : Nat) (err : Err)
  deriving DecidableEq, Repr

def ltxFiles (content : Content) (fault : ListFault) (level : Nat) (seek : Nat) :
    Except Err FileIterator :=
  let items := (content level).filter (fun info => decide (seek ≤ info.minTXID))
  match fault with
  | .none => .ok ⟨items, none⟩
  | .call err => .error err
  | .read n err => .ok ⟨items.take n, some err⟩

theorem ltxFiles_initial (hList : ltxFiles content fault level seek = .ok itr) :
    itr.items <+: (content level).filter (fun info => decide (seek ≤ info.minTXID)) := by
  unfold ltxFiles at hList
  cases fault with
  | none =>
    simp only [Except.ok.injEq] at hList
    subst hList
    exact prefix_rfl
  | call err => simp at hList
  | read k err =>
    simp only [Except.ok.injEq] at hList
    rw [← hList]
    exact take_prefix k _

theorem ltxFiles_none_zero (content : Content) (level : Nat) :
    ltxFiles content .none level 0 = .ok ⟨content level, none⟩ := by
  unfold ltxFiles
  rw [filter_eq_self.mpr (by simp)]

theorem ltxFiles_zero_initial (hList : ltxFiles content fault level 0 = .ok itr) :
    itr.items <+: content level := by
  have hInitial := ltxFiles_initial hList
  rwa [filter_eq_self.mpr (by simp)] at hInitial

theorem ltxFiles_items (hList : ltxFiles content fault level seek = .ok itr) (hErr : itr.err = none)
    :
    itr.items = (content level).filter (fun info => decide (seek ≤ info.minTXID)) := by
  unfold ltxFiles at hList
  cases fault with
  | none =>
    rw [Except.ok.injEq] at hList
    rw [← hList]
  | call err => simp at hList
  | read n err =>
    rw [Except.ok.injEq] at hList
    rw [← hList] at hErr
    simp at hErr

theorem ltxFiles_zero_items (hList : ltxFiles content fault level 0 = .ok itr)
    (hErr : itr.err = none) : itr.items = content level := by
  rw [ltxFiles_items hList hErr]
  exact filter_eq_self.mpr (by simp)

theorem mem_ltxFiles (hList : ltxFiles content fault level seek = .ok itr) (hMem : f ∈ itr.items) :
    f ∈ content level ∧ seek ≤ f.minTXID := by
  have hListed := (ltxFiles_initial hList).sublist.subset hMem
  rw [mem_filter, decide_eq_true_eq] at hListed
  exact hListed

theorem mem_of_mem_ltxFiles (hList : ltxFiles content fault level seek = .ok itr)
    (hMem : f ∈ itr.items) : f ∈ content level :=
  (mem_ltxFiles hList hMem).1

theorem ltxFiles_pairwise (hSorted : (content level).Pairwise r)
    (hList : ltxFiles content fault level seek = .ok itr) : itr.items.Pairwise r :=
  (hSorted.filter _).sublist (ltxFiles_initial hList).sublist

theorem ltxFiles_sorted (hSorted : ∀ l, (content l).Pairwise r)
    (hList : ltxFiles content fault level seek = .ok itr) : itr.items.Pairwise r :=
  ltxFiles_pairwise (hSorted level) hList

/-
  A listing that delivers something begins with the first
  file at or after the seek TXID.
-/
theorem exists_mem_le_of_mem_level
    (hSorted : (content level).Pairwise (fun f g => f.minTXID ≤ g.minTXID))
    (hList : ltxFiles content fault level seek = .ok itr) (hNonempty : itr.items ≠ [])
    (hMem : f ∈ content level) (hSeek : seek ≤ f.minTXID) :
    ∃ x ∈ itr.items, x.minTXID ≤ f.minTXID := by
  have hPrefix := ltxFiles_initial hList
  have hListed : f ∈ (content level).filter (fun info => decide (seek ≤ info.minTXID)) :=
    mem_filter.mpr ⟨hMem, decide_eq_true hSeek⟩
  rcases hPrefix with ⟨rest, hAll⟩
  cases hItems : itr.items with
  | nil => exact absurd hItems hNonempty
  | cons x xs =>
    refine ⟨x, mem_cons_self, ?_⟩
    have hOrder := hSorted.filter (fun info => decide (seek ≤ info.minTXID))
    rw [← hAll, hItems, cons_append] at hOrder hListed
    rcases mem_cons.mp hListed with rfl | hLater
    · exact Nat.le_refl _
    · exact (pairwise_cons.mp hOrder).1 f hLater

-- Storing

/- The order of the file names of a level. -/
def NameLt (f g : FileInfo) : Prop :=
  f.minTXID < g.minTXID ∨ (f.minTXID = g.minTXID ∧ f.maxTXID < g.maxTXID)

instance (f g : FileInfo) : Decidable (NameLt f g) := by
  unfold NameLt
  infer_instance

/- Two files of a level have the same name. -/
def SameName (f g : FileInfo) : Prop :=
  f.minTXID = g.minTXID ∧ f.maxTXID = g.maxTXID

instance (f g : FileInfo) : Decidable (SameName f g) := by
  unfold SameName
  infer_instance

/-
  Store an item in a level: it replaces one of the same
  name, or takes its place in the order of the names.
-/
def putBy (info : α → FileInfo) (x : α) : List α → List α
| [] => [x]
| y :: ys =>
  if SameName (info x) (info y) then x :: ys
  else if NameLt (info x) (info y) then x :: y :: ys
  else y :: putBy info x ys

theorem putBy_eq_append (hLast : ∀ y ∈ xs, NameLt (info y) (info x)) :
    putBy info x xs = xs ++ [x] := by
  induction xs with
  | nil => rfl
  | cons y ys ih =>
    have hName := hLast y mem_cons_self
    unfold putBy
    rw [if_neg, if_neg, ih (fun z hz => hLast z (mem_cons_of_mem y hz))]
    · rfl
    · unfold NameLt at hName ⊢
      omega
    · unfold NameLt at hName
      unfold SameName
      omega

theorem eq_or_mem_of_mem_putBy {y : α} (hMem : y ∈ putBy info x xs) : y = x ∨ y ∈ xs := by
  induction xs with
  | nil => simpa [putBy] using hMem
  | cons z xs ih =>
    unfold putBy at hMem
    split at hMem
    · rcases mem_cons.mp hMem with hEq | hTail
      · exact Or.inl hEq
      · exact Or.inr (mem_cons_of_mem z hTail)
    split at hMem
    · rcases mem_cons.mp hMem with hEq | hTail
      · exact Or.inl hEq
      · exact Or.inr hTail
    rcases mem_cons.mp hMem with hEq | hTail
    · exact Or.inr (hEq ▸ mem_cons_self)
    · rcases ih hTail with hEq | hOld
      · exact Or.inl hEq
      · exact Or.inr (mem_cons_of_mem z hOld)

/- A stored file: its metadata and its bytes. -/
structure Object where
  info : FileInfo
  data : List UInt8
  deriving DecidableEq, Repr

/- Store an object in a level. -/
def putObject (obj : Object) (objects : List Object) : List Object :=
  putBy Object.info obj objects

/- Store a file, of which only the metadata is kept. -/
def putInfo (info : FileInfo) (infos : List FileInfo) : List FileInfo :=
  putBy id info infos

section Put

variable {f g : FileInfo} {infos : List FileInfo}

theorem mem_putInfo_self (f : FileInfo) (infos : List FileInfo) : f ∈ putInfo f infos := by
  unfold putInfo
  induction infos with
  | nil => simp [putBy]
  | cons g infos ih =>
    unfold putBy
    split
    · exact mem_cons_self
    · split
      · exact mem_cons_self
      · exact mem_cons_of_mem g ih

theorem eq_or_mem_of_mem_putInfo (hMem : g ∈ putInfo f infos) : g = f ∨ g ∈ infos :=
  eq_or_mem_of_mem_putBy hMem

theorem mem_putInfo_of_mem (hMem : g ∈ infos) : g ∈ putInfo f infos ∨ SameName f g := by
  unfold putInfo
  induction infos with
  | nil => simp at hMem
  | cons h infos ih =>
    unfold putBy
    split
    · rename_i hSame
      rcases mem_cons.mp hMem with rfl | hTail
      · exact Or.inr hSame
      · exact Or.inl (mem_cons_of_mem f hTail)
    split
    · exact Or.inl (mem_cons_of_mem f hMem)
    rcases mem_cons.mp hMem with rfl | hTail
    · exact Or.inl mem_cons_self
    · rcases ih hTail with hKept | hSame
      · exact Or.inl (mem_cons_of_mem h hKept)
      · exact Or.inr hSame

theorem NameLt.trans {h} (hFG : NameLt f g) (hGH : NameLt g h) : NameLt f h := by
  unfold NameLt at *
  omega

theorem putInfo_sorted (hSorted : infos.Pairwise NameLt) : (putInfo f infos).Pairwise NameLt := by
  unfold putInfo
  induction infos with
  | nil => simp [putBy]
  | cons g infos ih =>
    rcases pairwise_cons.mp hSorted with ⟨hHead, hTail⟩
    unfold putBy
    split
    · rename_i hSame
      refine pairwise_cons.mpr ⟨?_, hTail⟩
      intro h hh
      have hLt := hHead h hh
      unfold NameLt at hLt ⊢
      unfold SameName id at hSame
      omega
    · rename_i hDiffer
      split
      · rename_i hLess
        refine pairwise_cons.mpr ⟨?_, hSorted⟩
        intro h hh
        rcases mem_cons.mp hh with rfl | hRest
        · exact hLess
        · exact NameLt.trans hLess (hHead h hRest)
      rename_i hNotLess
      refine pairwise_cons.mpr ⟨?_, ih hTail⟩
      intro h hh
      rcases eq_or_mem_of_mem_putInfo hh with rfl | hOld
      · unfold NameLt id at hNotLess
        unfold SameName id at hDiffer
        unfold NameLt
        omega
      · exact hHead h hOld

end Put

namespace Content

variable {content : Content} {level l : Nat} {info f : FileInfo}

/- Store a file in a level. -/
def put (content : Content) (level : Nat) (info : FileInfo) : Content :=
  fun l =>
    if l = level then putInfo info (content l) else content l

@[simp] theorem put_same (content : Content) (level : Nat) (info : FileInfo) :
    content.put level info level = putInfo info (content level) := by
  simp [put]

theorem put_other (hNe : l ≠ level) : content.put level info l = content l := by
  simp [put, hNe]

theorem eq_or_mem_of_mem_put (hMem : f ∈ content.put level info l) :
    (l = level ∧ f = info) ∨ f ∈ content l := by
  by_cases hLevel : l = level
  · subst hLevel
    rw [put_same] at hMem
    rcases eq_or_mem_of_mem_putInfo hMem with hEq | hOld
    · exact Or.inl ⟨rfl, hEq⟩
    · exact Or.inr hOld
  · rw [put_other hLevel] at hMem
    exact Or.inr hMem

theorem mem_put_of_mem (hMem : f ∈ content l) :
    f ∈ content.put level info l ∨ (l = level ∧ SameName info f) := by
  by_cases hLevel : l = level
  · subst hLevel
    rw [put_same]
    rcases mem_putInfo_of_mem hMem with hKept | hSame
    · exact Or.inl hKept
    · exact Or.inr ⟨rfl, hSame⟩
  · rw [put_other hLevel]
    exact Or.inl hMem

theorem exists_sameName_put (level : Nat) (info : FileInfo) (hMem : f ∈ content l) :
    ∃ g ∈ content.put level info l, SameName g f := by
  have hCases : f ∈ content.put level info l ∨ (l = level ∧ SameName info f) := mem_put_of_mem hMem
  rcases hCases with hKept | ⟨rfl, hSame⟩
  · exact ⟨f, hKept, rfl, rfl⟩
  · refine ⟨info, ?_, hSame⟩
    rw [put_same]
    exact mem_putInfo_self info _

theorem put_sorted (hSorted : ∀ l, (content l).Pairwise NameLt) (l : Nat) :
    (content.put level info l).Pairwise NameLt := by
  by_cases hLevel : l = level
  · subst hLevel
    rw [put_same]
    exact putInfo_sorted (hSorted l)
  · rw [put_other hLevel]
    exact hSorted l

-- Deleting

/- `ReplicaClient.DeleteLTXFiles`. -/
def delete (content : Content) (infos : List FileInfo) : Content :=
  fun level =>
    (content level).filter (fun f =>
      decide (¬ ∃ d ∈ infos, d.level = level ∧ SameName d f))

theorem mem_delete_iff {infos} : f ∈ content.delete infos level ↔ f ∈ content level ∧
      ¬ ∃ d ∈ infos, d.level = level ∧ SameName d f := by
  simp only [delete, mem_filter, decide_eq_true_eq]

theorem delete_sorted {infos} (hSorted : ∀ l, (content l).Pairwise NameLt) (l : Nat) :
    (content.delete infos l).Pairwise NameLt :=
  (hSorted l).filter _

end Content

end Replicate
