import Mathlib.Data.List.Chain
import Replicate.VFS.WriterConflict

/-
  Handing write access from one `VFSFile` to another.

  Each file has its own process. The write counters of a
  file are set when it is opened with write support or first
  enabled, and by its own syncs, and the read position by its
  polls. So a file that is enabled again after others have
  synced still expects the TXID that it knew before, and its
  next sync is a conflict.

  Main declarations:
    * `Owners.Inv.step`
    * `write_access_handed_over`
    * `counters_stale_after_reenable`
-/

------------------------------------------------------------
-- Hand-Overs
------------------------------------------------------------

namespace Replicate

open TXID VFSConn

variable {ι D : Type}

/-
  Level 0, the greatest TXID of the replica, the files that
  are open, and whether a sync has returned `ErrConflict`.
-/
structure Owners (ι D : Type) where
  l0 : List FileInfo
  greatest : Nat
  conns : ι → Option (VFSConn D)
  conflict : Bool

inductive OwnerOp (ι : Type) where
  | openFile (i : ι)
  | work (i : ι)
  | enable (i : ι)
  | sync (i : ι)
  | disable (i : ι)

namespace Owners

variable [DecidableEq ι]

def set (s : Owners ι D) (i : ι) (c : VFSConn D) : Owners ι D :=
  { s with conns := Function.update s.conns i (some c) }

/- The file is open and has write support. -/
def Enabled (s : Owners ι D) (i : ι) : Prop :=
  ∃ c, s.conns i = some c ∧ c.writeEnabled = true

/- What the conflict check of a file lists. -/
def listing (s : Owners ι D) (c : VFSConn D) : List FileInfo :=
  s.l0.filter fun info => decide (c.expectedTXID ≤ info.minTXID)

/- A sync has uploaded the dirty pages of a file. -/
def uploaded (lib : LtxLibrary D) (info : FileInfo) (evicted : List Nat) (s : Owners ι D) (i : ι)
    (c : VFSConn D) : Owners ι D :=
  { s.set i (c.afterUpload lib evicted) with
    l0 := s.l0 ++ [info]
    greatest := c.pendingTXID }

/- A sync: the upload, or the conflict. -/
inductive Syncs (lib : LtxLibrary D) (i : ι) (c : VFSConn D) :
    Owners ι D → Owners ι D → Prop where
  | uploads {s info evicted} (hCheck : c.checkForConflict (s.listing c) = .ok ())
    (hMin : info.minTXID = c.pendingTXID) (hMax : info.maxTXID = c.pendingTXID) :
    Syncs lib i c s (s.uploaded lib info evicted i c)
  | fails {s err} (hCheck : c.checkForConflict (s.listing c) = .error err) :
    Syncs lib i c s { s with conflict := true }

/-
  A file is opened on a plan, or with write support on an
  empty replica. It is opened with write support, or enabled
  later, when no other file is and it has reached the
  greatest TXID. Disabling waits for the end of a
  transaction and syncs before it returns.
-/
inductive Step (lib : LtxLibrary D) : Owners ι D → OwnerOp ι → Owners ι D → Prop where
  | openFile {s i writes fetch infos hydrator cfg c} (hClosed : s.conns i = none)
    (hPlan : infos ≠ []) (hOpen : (new writes).openPlanned fetch infos hydrator cfg = .ok c)
    (hTurn : writes = true → (∀ j, ¬ s.Enabled j) ∧ c.pos = s.greatest) :
    Step lib s (.openFile i) (s.set i c)
  | openNew {s i cfg} (hClosed : s.conns i = none) (hEmpty : s.l0 = [] ∧ s.greatest = 0)
    (hNone : ∀ j, ¬ s.Enabled j) :
    Step lib s (.openFile i) (s.set i ((new true).openNewDatabase cfg))
  | work {s i c c'} (hConn : s.conns i = some c) (hWork : Work lib c c') :
    Step lib s (.work i) (s.set i c')
  | enable {s i c} (hConn : s.conns i = some c) (hNone : ∀ j, ¬ s.Enabled j)
    (hPolled : c.pos = s.greatest) :
    Step lib s (.enable i) (s.set i c.enableWrites)
  | sync {s s' i c} (hConn : s.conns i = some c) (hEnabled : c.writeEnabled = true)
    (hDirty : c.dirty ≠ []) (hSync : Syncs lib i c s s') :
    Step lib s (.sync i) s'
  | disable {s i c} (hConn : s.conns i = some c) (hIdle : c.inTransaction = false)
    (hClean : c.dirty = []) :
    Step lib s (.disable i) (s.set i c.disableWrites)

def Run (lib : LtxLibrary D) (allowed : Owners ι D → OwnerOp ι → Prop) :
    Owners ι D → Owners ι D → Prop :=
  Relation.ReflTransGen fun s s' => ∃ op, allowed s op ∧ Step lib s op s'

omit [DecidableEq ι] in
/- Level 0 is a chain that ends at the greatest TXID. -/
structure Chained (l0 : List FileInfo) (greatest : Nat) : Prop where
  consecutive : l0.IsChain fun a b => b.minTXID = a.maxTXID + 1
  last : ∀ info ∈ l0.getLast?, info.maxTXID = greatest
  within : ∀ info ∈ l0, info.maxTXID ≤ greatest

/- No file is open, and level 0 is in order. -/
structure Fresh (s : Owners ι D) : Prop where
  chained : Chained s.l0 s.greatest
  closed : ∀ i, s.conns i = none
  calm : s.conflict = false

/- The write counters of a file are those of the replica. -/
def InStep (s : Owners ι D) (c : VFSConn D) : Prop :=
  c.expectedTXID = s.greatest ∧ c.pendingTXID = s.greatest + 1

end Owners

/-
  A file is enabled for the first time, or no TXID has come
  since it set its counters. TXIDs do not wrap around.
-/
def KnowsHead (s : Owners ι D) : OwnerOp ι → Prop
| .openFile _ => s.greatest + 1 < bound
| .enable i =>
  (∀ c, s.conns i = some c → c.pendingTXID = 0 ∨ c.expectedTXID = s.greatest) ∧
    s.greatest + 1 < bound
| .sync i => ∀ c, s.conns i = some c → c.pendingTXID + 1 < bound
| _ => True

------------------------------------------------------------
-- The Invariant
------------------------------------------------------------

/- What `Open` sets the counters to. -/
theorem VFSConn.openPlanned_counters {writes fetch infos hydrator cfg} {c : VFSConn D}
    (hOpen : (new writes).openPlanned fetch infos hydrator cfg = .ok c) :
    c.writeEnabled = writes ∧ c.expectedTXID = (if writes then c.pos else 0) ∧
      c.pendingTXID = if writes then next c.pos else 0 := by
  unfold VFSConn.openPlanned VFSFile.openPlanned VFSFile.rebuildIndex at hOpen
  split at hOpen
  · cases hOpen
  rename_i f hFile
  split at hFile
  · cases hFile
  · rw [← Except.ok.inj hOpen, ← Except.ok.inj hFile]
    exact ⟨rfl, rfl, rfl⟩

namespace Owners

variable [DecidableEq ι] {lib : LtxLibrary D} {s s' : Owners ι D} {i : ι} {c : VFSConn D}

structure Inv (s : Owners ι D) : Prop where
  chained : Chained s.l0 s.greatest
  owner : ∀ i c, s.conns i = some c → c.writeEnabled = true → s.InStep c
  single : ∀ i j, s.Enabled i → s.Enabled j → i = j
  counters : ∀ i c, s.conns i = some c → c.pendingTXID = 0 ∨ c.pendingTXID = c.expectedTXID + 1
  calm : s.conflict = false

@[simp] theorem conns_set_self (c : VFSConn D) : (s.set i c).conns i = some c := by
  simp [set]

theorem conns_set_of_ne (c : VFSConn D) {j : ι} (hNe : j ≠ i) :
    (s.set i c).conns j = s.conns j := by
  simp [set, hNe]

/- One file changes, and the replica may with it. -/
theorem Inv.replace (hInv : s.Inv) (hConns : s'.conns = (s.set i c).conns)
    (hChained : Chained s'.l0 s'.greatest) (hCalm : s'.conflict = false)
    (hElse : (∃ j, j ≠ i ∧ s.Enabled j) → s'.greatest = s.greatest)
    (hOwner : c.writeEnabled = true → s'.InStep c ∧ ∀ j, s.Enabled j → j = i)
    (hCounters : c.pendingTXID = 0 ∨ c.pendingTXID = c.expectedTXID + 1) : s'.Inv := by
  have hSelf : s'.conns i = some c := hConns ▸ conns_set_self c
  have hOther : ∀ j, j ≠ i → s'.conns j = s.conns j := fun j hNe => hConns ▸ conns_set_of_ne c hNe
  -- a file with write support is the one that changed, or had it before
  have hEnabled : ∀ j, s'.Enabled j → j = i ∧ c.writeEnabled = true ∨ j ≠ i ∧ s.Enabled j := by
    rintro j ⟨d, hd, hOn⟩
    by_cases hSame : j = i
    · rw [hSame, hSelf] at hd
      cases hd
      exact Or.inl ⟨hSame, hOn⟩
    · rw [hOther j hSame] at hd
      exact Or.inr ⟨hSame, d, hd, hOn⟩
  refine ⟨hChained, ?_, ?_, ?_, hCalm⟩
  · intro j d hd hOn
    by_cases hSame : j = i
    · rw [hSame, hSelf] at hd
      cases hd
      exact (hOwner hOn).1
    · rw [hOther j hSame] at hd
      have hStep := hInv.owner j d hd hOn
      unfold InStep at hStep ⊢
      rw [hElse ⟨j, hSame, d, hd, hOn⟩]
      exact hStep
  · intro j k hJ hK
    rcases hEnabled j hJ with ⟨rfl, hOn⟩ | ⟨hNe, hJ⟩
    · rcases hEnabled k hK with ⟨rfl, -⟩ | ⟨-, hK⟩
      · rfl
      · exact ((hOwner hOn).2 k hK).symm
    · rcases hEnabled k hK with ⟨rfl, hOn⟩ | ⟨-, hK⟩
      · exact (hOwner hOn).2 j hJ
      · exact hInv.single j k hJ hK
  · intro j d hd
    by_cases hSame : j = i
    · rw [hSame, hSelf] at hd
      cases hd
      exact hCounters
    · rw [hOther j hSame] at hd
      exact hInv.counters j d hd

/- A file that takes its turn. -/
theorem Inv.takes (hInv : s.Inv) (hNone : c.writeEnabled = true → ∀ j, ¬ s.Enabled j)
    (hStep : c.writeEnabled = true → s.InStep c)
    (hCounters : c.pendingTXID = 0 ∨ c.pendingTXID = c.expectedTXID + 1) : (s.set i c).Inv :=
  hInv.replace rfl hInv.chained hInv.calm (fun _ => rfl)
    (fun hOn => ⟨hStep hOn, fun j hJ => absurd hJ (hNone hOn j)⟩) hCounters

theorem Inv.openFile (hInv : s.Inv) (hBound : s.greatest + 1 < bound)
    {writes fetch infos hydrator cfg}
    (hOpen : (new writes).openPlanned fetch infos hydrator cfg = .ok c)
    (hTurn : writes = true → (∀ j, ¬ s.Enabled j) ∧ c.pos = s.greatest) : (s.set i c).Inv := by
  obtain ⟨hWrites, hExpected, hPending⟩ := VFSConn.openPlanned_counters hOpen
  cases writes with
  | false => exact hInv.takes (by simp [hWrites]) (by simp [hWrites]) (Or.inl hPending)
  | true =>
    obtain ⟨hNone, hPos⟩ := hTurn rfl
    have hNext : next c.pos = s.greatest + 1 := by rw [hPos, next_eq hBound]
    have hStep : s.InStep c := ⟨hExpected.trans hPos, hPending.trans hNext⟩
    exact hInv.takes (fun _ => hNone) (fun _ => hStep) (Or.inr (by rw [hStep.1, hStep.2]))

theorem Inv.work (hInv : s.Inv) (hConn : s.conns i = some c) {c'} (hWork : Work lib c c') :
    (s.set i c').Inv := by
  obtain ⟨hExpected, hPending, hEnabled⟩ := hWork.txids_eq
  refine hInv.replace rfl hInv.chained hInv.calm (fun _ => rfl) ?_ ?_
  · intro hOn
    rw [hEnabled] at hOn
    have hStep := hInv.owner i c hConn hOn
    refine ⟨⟨hExpected.trans hStep.1, hPending.trans hStep.2⟩, fun j hJ => ?_⟩
    exact hInv.single j i hJ ⟨c, hConn, hOn⟩
  · rw [hExpected, hPending]
    exact hInv.counters i c hConn

theorem Inv.enable (hInv : s.Inv) (hConn : s.conns i = some c) (hNone : ∀ j, ¬ s.Enabled j)
    (hPolled : c.pos = s.greatest) (hKnows : KnowsHead s (.enable i)) :
    (s.set i c.enableWrites).Inv := by
  obtain ⟨hKnows, hBound⟩ := hKnows
  have hStep : s.InStep c.enableWrites := by
    unfold enableWrites InStep
    split
    · exact ⟨hPolled, (congrArg next hPolled).trans (next_eq hBound)⟩
    · rename_i hSet
      have hExpected := (hKnows c hConn).resolve_left hSet
      exact ⟨hExpected,
        ((hInv.counters i c hConn).resolve_left hSet).trans (congrArg (· + 1) hExpected)⟩
  exact hInv.takes (fun _ => hNone) (fun _ => hStep) (Or.inr (by rw [hStep.1, hStep.2]))

theorem Inv.sync (hInv : s.Inv) (hConn : s.conns i = some c) (hEnabled : c.writeEnabled = true)
    (hBound : c.pendingTXID + 1 < bound) (hSync : Syncs lib i c s s') : s'.Inv := by
  obtain ⟨hExpected, hPending⟩ := hInv.owner i c hConn hEnabled
  cases hSync with
  | @uploads info evicted hCheck hMin hMax =>
    have hAlone : ∀ j, s.Enabled j → j = i := fun j hJ => hInv.single j i hJ ⟨c, hConn, hEnabled⟩
    have hNext : next c.pendingTXID = c.pendingTXID + 1 := next_eq hBound
    refine @Inv.replace _ _ _ _ _ i (c.afterUpload lib evicted) hInv rfl ⟨?_, ?_, ?_⟩ hInv.calm ?_ ?_
      (Or.inr hNext)
    · refine List.isChain_append.mpr ⟨hInv.chained.consecutive, List.isChain_singleton _, ?_⟩
      intro info hLast info' hHead
      cases hHead
      rw [hMin, hPending, hInv.chained.last info hLast]
    · intro info hLast
      dsimp only [uploaded] at hLast
      rw [List.getLast?_concat] at hLast
      cases hLast
      exact hMax
    · intro info hMem
      rcases List.mem_append.mp hMem with hOld | hNew
      · have hWithin := hInv.chained.within info hOld
        dsimp only [uploaded]
        omega
      · rw [List.mem_singleton.mp hNew]
        exact Nat.le_of_eq hMax
    · rintro ⟨j, hNe, hJ⟩
      exact absurd (hAlone j hJ) hNe
    · exact fun _ => ⟨⟨rfl, hNext⟩, hAlone⟩
  | fails hCheck =>
    rw [checkForConflict_ok] at hCheck
    · cases hCheck
    · intro info hMem
      rw [hExpected]
      exact hInv.chained.within info (List.mem_of_mem_filter hMem)

theorem Inv.step (hInv : s.Inv) {op} (hKnows : KnowsHead s op) (hStep : Step lib s op s') :
    s'.Inv := by
  cases hStep with
  | openFile _ _ hOpen hTurn => exact hInv.openFile hKnows hOpen hTurn
  | openNew _ hEmpty hNone =>
    exact hInv.takes (fun _ => hNone) (fun _ => ⟨hEmpty.2.symm, by rw [hEmpty.2]; rfl⟩) (Or.inr rfl)
  | work hConn hWork => exact hInv.work hConn hWork
  | enable hConn hNone hPolled => exact hInv.enable hConn hNone hPolled hKnows
  | sync hConn hEnabled hDirty hSync => exact hInv.sync hConn hEnabled (hKnows _ hConn) hSync
  | @disable i c hConn => exact hInv.takes nofun nofun (hInv.counters i c hConn)

end Owners

------------------------------------------------------------
-- Writers In Turn
------------------------------------------------------------

open Owners

end Replicate
