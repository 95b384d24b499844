import Mathlib.Logic.Function.Basic
import Replicate.Restore.Replay
import Replicate.VFS.Connection

/-
  Several processes that write to one replica.

  Each process has its own `VFSFile`. A sync lists level 0,
  fails if there is a file above the expected TXID, uploads
  its dirty pages under the next TXID and then updates the
  file's state. The three parts of different processes
  interleave. An upload replaces a file of the same name,
  so two syncs that both listed before either uploaded use
  the same TXID, and the later upload replaces the earlier
  one although both return no error.

  Main declarations:
    * `Writers.Inv.step`
    * `no_lost_update`
    * `update_lost_after_race`
-/

-- What A Process Does Between Syncs

namespace Replicate

open VFSConn PageHistory List

variable {D : Type}

/- The operations of a file that are not part of a sync. -/
inductive VFSConn.Work (lib : LtxLibrary D) : VFSConn D → VFSConn D → Prop where
  | readAt {c c' fetch pgno d} (hRead : c.readAt lib fetch pgno = .ok (d, c')) : Work lib c c'
  | writeAt {c c' fetch pgno patch} (hWrite : c.writeAt lib fetch pgno patch = .ok c') :
    Work lib c c'
  | truncate {c c' newCommit} (hTruncate : c.truncate lib newCommit = .ok c') : Work lib c c'
  | lock {c c' elock} (hLock : c.lock none elock = .ok c') : Work lib c c'
  | unlock {c c' elock} (hUnlock : c.unlock elock = .ok c') : Work lib c c'
  | poll {c fetch polled} : Work lib c (c.applyPoll lib fetch polled)
  | evict {c pgno} : Work lib c (c.evict pgno)

section Work

variable {lib : LtxLibrary D} {fetch : PageElem → Nat → Except Err D} {c c' : VFSConn D}

theorem VFSConn.Work.txids_eq (hWork : VFSConn.Work lib c c') :
    c'.expectedTXID = c.expectedTXID ∧ c'.pendingTXID = c.pendingTXID ∧
      c'.writeEnabled = c.writeEnabled := by
  cases hWork with
  | readAt hRead =>
    rcases readAt_spec hRead with ⟨cache, rfl⟩
    exact ⟨rfl, rfl, rfl⟩
  | writeAt hWrite =>
    rw [(writeAt_spec hWrite).2.2]
    exact ⟨rfl, rfl, rfl⟩
  | truncate hTruncate =>
    rw [(truncate_spec hTruncate).2]
    exact ⟨rfl, rfl, rfl⟩
  | lock hLock =>
    unfold VFSConn.lock at hLock
    split at hLock
    · cases hLock
    split at hLock
    · cases hLock
    split at hLock
    all_goals
      rw [← Except.ok.inj hLock]
      exact ⟨rfl, rfl, rfl⟩
  | unlock hUnlock =>
    unfold VFSConn.unlock VFSFile.unlock at hUnlock
    split at hUnlock
    · cases hUnlock
    rename_i f hFile
    split at hFile
    · cases hFile
    · rw [← Except.ok.inj hUnlock, ← Except.ok.inj hFile]
      exact ⟨rfl, rfl, rfl⟩
  | poll =>
    unfold applyPoll
    split
    · exact ⟨rfl, rfl, rfl⟩
    · exact ⟨rfl, rfl, rfl⟩
  | evict => exact ⟨rfl, rfl, rfl⟩

end Work

-- Writers On One Replica

/- How a sync that tried to upload ends. -/
inductive SyncResult (D : Type) where
  | synced (file : Layer D)
  | conflict

/- How far a sync has come, with what it listed. -/
inductive SyncPhase (D : Type) where
  | idle
  | checked (items : List FileInfo)
  | uploaded (file : Layer D)

structure Writer (D : Type) where
  conn : VFSConn D
  phase : SyncPhase D

/-
  Level 0 of the replica, the processes, and the results of
  the syncs so far with the TXIDs they tried.
-/
structure Writers (ι D : Type) where
  objects : List (FileInfo × Layer D)
  writers : ι → Writer D
  results : List (ι × Nat × SyncResult D)

inductive WriterOp (ι : Type) where
  | work (i : ι)
  | reopen (i : ι)
  | check (i : ι)
  | upload (i : ι)
  | finish (i : ι)

namespace Writers

variable {ι : Type} [DecidableEq ι]

/- What `LTXFiles` lists for a process's conflict check. -/
def listing (s : Writers ι D) (i : ι) : List FileInfo :=
  (s.objects.map Prod.fst).filter (fun info =>
    decide ((s.writers i).conn.expectedTXID ≤ info.minTXID))

/- The file of a transaction, as it is stored. -/
def stored (s : Writers ι D) (t : Nat) : Option (Layer D) :=
  (s.objects.find? (fun obj =>
    decide (obj.1.minTXID = t ∧ obj.1.maxTXID = t))).map Prod.snd

def setWriter (s : Writers ι D) (i : ι) (w : Writer D) : Writers ι D :=
  { s with writers := Function.update s.writers i w }

@[simp] theorem writers_setWriter_self (s : Writers ι D) (i : ι) (w : Writer D) :
    (s.setWriter i w).writers i = w := by
  simp [setWriter]

theorem writers_setWriter_of_ne (s : Writers ι D) {i j : ι} (w : Writer D) (hNe : j ≠ i) :
    (s.setWriter i w).writers j = s.writers j := by
  simp [setWriter, hNe]

/- The conflict check of a sync passes. -/
def pass (s : Writers ι D) (i : ι) : Writers ι D :=
  s.setWriter i ⟨(s.writers i).conn, .checked (s.listing i)⟩

/- The conflict check fails, and the sync with it. -/
def reject (s : Writers ι D) (i : ι) : Writers ι D :=
  { s with
    results := (i, (s.writers i).conn.pendingTXID, .conflict) :: s.results }

/- The dirty pages are uploaded. -/
def upload (lib : LtxLibrary D) (info : FileInfo) (s : Writers ι D) (i : ι) : Writers ι D :=
  { s.setWriter i ⟨(s.writers i).conn, .uploaded ((s.writers i).conn.createLTXFromDirty lib)⟩ with
    objects := putBy Prod.fst (info, (s.writers i).conn.createLTXFromDirty lib) s.objects }

/- The state is updated, and the sync returns no error. -/
def finish (lib : LtxLibrary D) (file : Layer D) (evicted : List Nat) (s : Writers ι D) (i : ι) :
    Writers ι D :=
  { s.setWriter i ⟨(s.writers i).conn.afterUpload lib evicted, .idle⟩ with
    results := (i, (s.writers i).conn.pendingTXID, .synced file) :: s.results }

/-
  A step of one process. A file can be opened again at any
  position. While a sync runs, its file does nothing else.
-/
inductive Step (lib : LtxLibrary D) : Writers ι D → WriterOp ι → Writers ι D → Prop where
  | work {s i c} (hIdle : (s.writers i).phase = .idle)
    (hWork : VFSConn.Work lib (s.writers i).conn c) :
    Step lib s (.work i) (s.setWriter i ⟨c, .idle⟩)
  | reopen {s i c} (hIdle : (s.writers i).phase = .idle)
    (hOpen : c.pendingTXID = TXID.next c.expectedTXID) :
    Step lib s (.reopen i) (s.setWriter i ⟨c, .idle⟩)
  | checkOk {s i} (hIdle : (s.writers i).phase = .idle) (hDirty : (s.writers i).conn.dirty ≠ [])
    (hCheck : (s.writers i).conn.checkForConflict (s.listing i) = .ok ()) :
    Step lib s (.check i) (s.pass i)
  | checkConflict {s i err} (hIdle : (s.writers i).phase = .idle)
    (hDirty : (s.writers i).conn.dirty ≠ [])
    (hCheck : (s.writers i).conn.checkForConflict (s.listing i) = .error err) :
    Step lib s (.check i) (s.reject i)
  | upload {s i items info} (hPhase : (s.writers i).phase = .checked items)
    (hMin : info.minTXID = (s.writers i).conn.pendingTXID)
    (hMax : info.maxTXID = (s.writers i).conn.pendingTXID) :
    Step lib s (.upload i) (s.upload lib info i)
  | finish {s i file evicted} (hPhase : (s.writers i).phase = .uploaded file) :
    Step lib s (.finish i) (s.finish lib file evicted i)

/- A run in which every step meets a condition. -/
def Run (lib : LtxLibrary D) (allowed : Writers ι D → WriterOp ι → Prop) :
    Writers ι D → Writers ι D → Prop :=
  Relation.ReflTransGen (fun s s' => ∃ op, allowed s op ∧ Step lib s op s')

/-
  Before any sync: level 0 holds transactions in the order
  of their names, and every process has just opened.
-/
structure Starts (s : Writers ι D) : Prop where
  single : ∀ obj ∈ s.objects, obj.1.minTXID = obj.1.maxTXID
  opened : ∀ i, (s.writers i).phase = .idle ∧ (s.writers i).conn.pendingTXID =
    TXID.next (s.writers i).conn.expectedTXID
  results : s.results = []

/-
  For each TXID one process at most has synced it, every
  other one that tried it had a conflict, and the stored
  file is that of the process that succeeded.
-/
def NoLostUpdate (s : Writers ι D) : Prop :=
  ∀ i t file, (i, t, SyncResult.synced file) ∈ s.results →
    (∀ j result, j ≠ i → (j, t, result) ∈ s.results → result = .conflict) ∧
    s.stored t = some file

end Writers

/-
  Nothing was uploaded since the conflict check of a sync
  that uploads, and its TXID does not wrap around.
-/
def Undisturbed {ι : Type} (s : Writers ι D) : WriterOp ι → Prop
| .upload i =>
  (s.writers i).phase = .checked (s.listing i) ∧ (s.writers i).conn.expectedTXID + 1 < TXID.bound
| _ => True
-- The Invariant

theorem VFSConn.le_remoteTXID {items info} (hMem : info ∈ items) :
    info.maxTXID ≤ remoteTXID items := by
  change info.maxTXID ≤ id (remoteTXID items)
  refine (Traversal.le_foldl ?_ ?_ 0 items).2 info hMem
  · intro n info
    split
    · exact Nat.le_of_lt (by assumption)
    · exact Nat.le_refl _
  · intro n info
    split
    · exact Nat.le_refl _
    · exact Nat.le_of_not_lt (by assumption)

theorem VFSConn.le_of_checkForConflict {items : List FileInfo} {c : VFSConn D}
    (hCheck : c.checkForConflict items = .ok ()) {info : FileInfo} (hMem : info ∈ items) :
    info.maxTXID ≤ c.expectedTXID := by
  have hLe := le_remoteTXID hMem
  unfold checkForConflict at hCheck
  split at hCheck
  · cases hCheck
  · omega

namespace Writers

variable {ι : Type} {i : ι} {t : Nat} {obj : FileInfo × Layer D}

/- What a sync under way has made sure of. -/
def PhaseOk (s : Writers ι D) (i : ι) : Prop :=
  match (s.writers i).phase with
  | .idle => True
  | .checked items => (s.writers i).conn.checkForConflict items = .ok ()
  | .uploaded file =>
    s.stored (s.writers i).conn.pendingTXID = some file ∧ (∀ j result,
      (j, (s.writers i).conn.pendingTXID, result) ∈ s.results → result = .conflict) ∧
      ∀ j file', (s.writers j).phase = .uploaded file' →
        (s.writers j).conn.pendingTXID = (s.writers i).conn.pendingTXID → j = i

structure Inv (s : Writers ι D) : Prop where
  single : ∀ obj ∈ s.objects, obj.1.minTXID = obj.1.maxTXID
  next : ∀ i, (s.writers i).conn.pendingTXID = TXID.next (s.writers i).conn.expectedTXID
  phases : ∀ i, s.PhaseOk i
  safe : s.NoLostUpdate

variable {s s' : Writers ι D}

theorem Starts.inv (hStarts : s.Starts) : s.Inv := by
  refine ⟨hStarts.single, fun i => (hStarts.opened i).2, ?_, ?_⟩
  · intro i
    unfold PhaseOk
    rw [(hStarts.opened i).1]
    trivial
  · intro i t file hMem
    rw [hStarts.results] at hMem
    cases hMem

theorem Inv.conflict_of_not_stored (hInv : s.Inv) {result} (hNone : s.stored t = none)
    (hMem : (i, t, result) ∈ s.results) : result = .conflict := by
  cases result with
  | conflict => rfl
  | synced file =>
    have hStored := (hInv.safe i t file hMem).2
    rw [hNone] at hStored
    cases hStored

theorem stored_eq_none (hAbove : ∀ x ∈ s.objects, x.1.minTXID < t) : s.stored t = none := by
  unfold stored
  rw [Option.map_eq_none_iff, find?_eq_none]
  intro x hx
  have hLt := hAbove x hx
  simp only [decide_eq_true_eq]
  omega

theorem objects_put (hMin : obj.1.minTXID = t) (hAbove : ∀ x ∈ s.objects, x.1.minTXID < t)
    (hPut : s'.objects = putBy Prod.fst obj s.objects) : s'.objects = s.objects ++ [obj] := by
  rw [hPut]
  apply putBy_eq_append
  intro x hx
  left
  rw [hMin]
  exact hAbove x hx

theorem stored_put (hMin : obj.1.minTXID = t) (hMax : obj.1.maxTXID = t)
    (hAbove : ∀ x ∈ s.objects, x.1.minTXID < t) (hPut : s'.objects = putBy Prod.fst obj s.objects)
    (u : Nat) : s'.stored u = if u = t then some obj.2 else s.stored u := by
  have hAppend := objects_put hMin hAbove hPut
  by_cases hEq : u = t
  · subst hEq
    have hNone := stored_eq_none hAbove
    unfold stored at hNone ⊢
    rw [Option.map_eq_none_iff] at hNone
    rw [hAppend, find?_append, hNone]
    simp [hMin, hMax]
  · unfold stored
    rw [hAppend, find?_append]
    simp [hMin, hMax, hEq, Ne.symm hEq]

/-
  An undisturbed upload takes a TXID above all stored ones:
  the check it still agrees with found nothing newer.
-/
theorem Inv.lt_pendingTXID (hInv : s.Inv) (hAllowed : Undisturbed s (.upload i))
    (hMem : obj ∈ s.objects) : obj.1.minTXID < (s.writers i).conn.pendingTXID := by
  rcases hAllowed with ⟨hPhase, hBound⟩
  have hCheck := hInv.phases i
  unfold PhaseOk at hCheck
  rw [hPhase] at hCheck
  rw [hInv.next i, TXID.next_eq hBound]
  have hSingle := hInv.single obj hMem
  by_cases hListed : (s.writers i).conn.expectedTXID ≤ obj.1.minTXID
  · have hInfo : obj.1 ∈ s.listing i :=
      mem_filter.mpr ⟨mem_map_of_mem hMem, decide_eq_true hListed⟩
    have hLe := le_of_checkForConflict hCheck hInfo
    omega
  · omega

/-
  What a process has made sure of lasts, as long as its
  file stays stored, new results are conflicts, and no
  other process uploads its TXID.
-/
theorem PhaseOk.lasts {j : ι} (hOk : s.PhaseOk j) (hWriter : s'.writers j = s.writers j)
    (hLasts : ∀ file, (s.writers j).phase = .uploaded file →
      s.stored (s.writers j).conn.pendingTXID = some file →
        s'.stored (s.writers j).conn.pendingTXID = some file ∧ (∀ k result,
          (k, (s.writers j).conn.pendingTXID, result) ∈ s'.results →
            result = .conflict ∨ (k, (s.writers j).conn.pendingTXID, result) ∈ s.results) ∧
          ∀ k ≠ j, ∀ file', (s'.writers k).phase = .uploaded file' →
            (s'.writers k).conn.pendingTXID = (s.writers j).conn.pendingTXID →
              s'.writers k = s.writers k) : s'.PhaseOk j := by
  unfold PhaseOk at hOk ⊢
  rw [hWriter]
  cases hCase : (s.writers j).phase with
  | idle => trivial
  | checked items =>
    rw [hCase] at hOk
    exact hOk
  | uploaded file =>
    rw [hCase] at hOk
    rcases hOk with ⟨hStored, hResults, hOnly⟩
    rcases hLasts file hCase hStored with ⟨hKept, hNew, hOthers⟩
    refine ⟨hKept, ?_, ?_⟩
    · intro k result hMem
      rcases hNew k result hMem with hConflict | hOld
      · exact hConflict
      · exact hResults k result hOld
    · intro k file' hUploaded hTxid
      by_contra hNe
      have hSame := hOthers k hNe file' hUploaded hTxid
      rw [hSame] at hUploaded hTxid
      exact hNe (hOnly k file' hUploaded hTxid)

theorem Inv.reject (hInv : s.Inv) (i : ι) : (s.reject i).Inv := by
  refine ⟨hInv.single, hInv.next, ?_, ?_⟩
  · intro j
    refine (hInv.phases j).lasts rfl ?_
    intro file _ hStored
    refine ⟨hStored, ?_, fun _ _ _ _ _ => rfl⟩
    intro k result hMem
    rcases mem_cons.mp hMem with hNew | hOld
    · rw [Prod.mk.injEq, Prod.mk.injEq] at hNew
      exact Or.inl hNew.2.2
    · exact Or.inr hOld
  · intro j u file hMem
    rcases mem_cons.mp hMem with hNew | hOld
    · rw [Prod.mk.injEq, Prod.mk.injEq] at hNew
      cases hNew.2.2
    refine ⟨?_, (hInv.safe j u file hOld).2⟩
    intro k result hNe hResult
    rcases mem_cons.mp hResult with hNew | hBefore
    · rw [Prod.mk.injEq, Prod.mk.injEq] at hNew
      exact hNew.2.2
    · exact (hInv.safe j u file hOld).1 k result hNe hBefore

variable [DecidableEq ι]

theorem Inv.setWriter (hInv : s.Inv) {w}
    (hNext : w.conn.pendingTXID = TXID.next w.conn.expectedTXID)
    (hPhase : w.phase = .idle ∨ ∃ items, w.phase = .checked items ∧ w.conn.checkForConflict items =
      .ok ()) : (s.setWriter i w).Inv := by
  refine ⟨hInv.single, ?_, ?_, hInv.safe⟩
  · intro j
    by_cases hEq : j = i
    · subst hEq
      rw [writers_setWriter_self]
      exact hNext
    · rw [writers_setWriter_of_ne s w hEq]
      exact hInv.next j
  · intro j
    by_cases hEq : j = i
    · subst hEq
      unfold PhaseOk
      rw [writers_setWriter_self]
      rcases hPhase with hIdle | ⟨items, hChecked, hCheck⟩
      · rw [hIdle]
        trivial
      · rw [hChecked]
        exact hCheck
    · apply (hInv.phases j).lasts (writers_setWriter_of_ne s w hEq)
      intro file _ hStored
      refine ⟨hStored, fun _ _ hMem => Or.inr hMem, ?_⟩
      intro k _ file' hUploaded _
      by_cases hKey : k = i
      · subst hKey
        rw [writers_setWriter_self] at hUploaded
        rcases hPhase with hIdle | ⟨items, hChecked, _⟩
        · rw [hIdle] at hUploaded
          cases hUploaded
        · rw [hChecked] at hUploaded
          cases hUploaded
      · exact writers_setWriter_of_ne s w hKey

variable {lib : LtxLibrary D}

/- An undisturbed upload. -/
theorem Inv.upload (hInv : s.Inv) (hAllowed : Undisturbed s (.upload i)) {info}
    (hMin : info.minTXID = (s.writers i).conn.pendingTXID)
    (hMax : info.maxTXID = (s.writers i).conn.pendingTXID) : (s.upload lib info i).Inv := by
  have hPut : (s.upload lib info i).objects = putBy Prod.fst
    (info, (s.writers i).conn.createLTXFromDirty lib)
    s.objects := rfl
  have hResults : (s.upload lib info i).results = s.results := rfl
  have hSelf : (s.upload lib info i).writers i = ⟨(s.writers i).conn, .uploaded
    ((s.writers i).conn.createLTXFromDirty lib)⟩ :=
    writers_setWriter_self s i _
  have hOther : ∀ j ≠ i, (s.upload lib info i).writers j = s.writers j :=
    fun j hNe => writers_setWriter_of_ne s _ hNe
  generalize s.upload lib info i = s' at hPut hResults hSelf hOther ⊢
  have hAbove : ∀ x ∈ s.objects, x.1.minTXID < (s.writers i).conn.pendingTXID :=
    fun x hx => hInv.lt_pendingTXID hAllowed hx
  have hFree := stored_eq_none hAbove
  have hStored := stored_put hMin hMax hAbove hPut
  have hConn : ∀ j, (s'.writers j).conn = (s.writers j).conn := by
    intro j
    by_cases hEq : j = i
    · rw [hEq, hSelf]
    · rw [hOther j hEq]
  -- a TXID that has been stored is not the new one
  have hTaken : ∀ t file', s.stored t = some file' → t ≠ (s.writers i).conn.pendingTXID := by
    rintro t file' hSome rfl
    rw [hFree] at hSome
    cases hSome
  refine ⟨?_, ?_, ?_, ?_⟩
  · intro obj hMem
    rw [objects_put hMin hAbove hPut, mem_append, mem_singleton] at hMem
    rcases hMem with hOld | rfl
    · exact hInv.single obj hOld
    · exact hMin.trans hMax.symm
  · intro j
    rw [hConn j]
    exact hInv.next j
  · intro j
    by_cases hEq : j = i
    · subst hEq
      unfold PhaseOk
      rw [hSelf]
      rw [hStored, hResults]
      refine ⟨if_pos rfl, ?_, ?_⟩
      · intro k result hMem
        exact hInv.conflict_of_not_stored hFree hMem
      · intro k file' hUploaded hTxid
        by_contra hNe
        rw [hConn k] at hTxid
        rw [hOther k hNe] at hUploaded
        have hBefore := hInv.phases k
        unfold PhaseOk at hBefore
        rw [hUploaded] at hBefore
        exact hTaken _ _ hBefore.1 hTxid
    · apply (hInv.phases j).lasts (hOther j hEq)
      intro file _ hOld
      have hNe := hTaken _ _ hOld
      rw [hStored, if_neg hNe, hResults]
      refine ⟨hOld, fun _ _ hMem => Or.inr hMem, ?_⟩
      intro k _ file' _ hTxid
      by_cases hKey : k = i
      · subst hKey
        rw [hConn k] at hTxid
        exact absurd hTxid.symm hNe
      · exact hOther k hKey
  · intro j t file' hMem
    rw [hResults] at hMem
    have hSafe := hInv.safe j t file' hMem
    rw [hResults, hStored, if_neg (hTaken _ _ hSafe.2)]
    exact hSafe

/- The state update after an upload. -/
theorem Inv.finish (hInv : s.Inv) {file evicted} (hPhase : (s.writers i).phase = .uploaded file) :
    (s.finish lib file evicted i).Inv := by
  have hUpload := hInv.phases i
  unfold PhaseOk at hUpload
  rw [hPhase] at hUpload
  rcases hUpload with ⟨hStored, hResults, hOnly⟩
  have hSelf : (s.finish lib file evicted i).writers i =
      ⟨(s.writers i).conn.afterUpload lib evicted, .idle⟩ :=
    writers_setWriter_self s i _
  have hOther : ∀ j ≠ i, (s.finish lib file evicted i).writers j = s.writers j :=
    fun j hNe => writers_setWriter_of_ne s _ hNe
  refine ⟨hInv.single, ?_, ?_, ?_⟩
  · intro j
    by_cases hEq : j = i
    · rw [hEq, hSelf]
      rfl
    · rw [hOther j hEq]
      exact hInv.next j
  · intro j
    by_cases hEq : j = i
    · subst hEq
      unfold PhaseOk
      rw [hSelf]
      trivial
    apply (hInv.phases j).lasts (hOther j hEq)
    intro file' hCase hKept
    refine ⟨hKept, ?_, ?_⟩
    · intro k result hMem
      rcases mem_cons.mp hMem with hNew | hOld
      · rw [Prod.mk.injEq, Prod.mk.injEq] at hNew
        exact absurd (hOnly j file' hCase hNew.2.1) hEq
      · exact Or.inr hOld
    · intro k _ file'' hUploaded _
      by_cases hKey : k = i
      · rw [hKey, hSelf] at hUploaded
        cases hUploaded
      · exact hOther k hKey
  · intro j t file' hMem
    rcases mem_cons.mp hMem with hNew | hOld
    · rw [Prod.mk.injEq, Prod.mk.injEq, SyncResult.synced.injEq] at hNew
      rcases hNew with ⟨rfl, rfl, rfl⟩
      refine ⟨?_, hStored⟩
      intro k result hNe hResult
      rcases mem_cons.mp hResult with hSelf | hBefore
      · rw [Prod.mk.injEq] at hSelf
        exact absurd hSelf.1 hNe
      · exact hResults k result hBefore
    · refine ⟨?_, (hInv.safe j t file' hOld).2⟩
      intro k result hNe hResult
      rcases mem_cons.mp hResult with hSelf | hBefore
      · rw [Prod.mk.injEq, Prod.mk.injEq] at hSelf
        rcases hSelf with ⟨rfl, rfl, rfl⟩
        cases hResults j (.synced file') hOld
      · exact (hInv.safe j t file' hOld).1 k result hNe hBefore

/- Undisturbed steps keep the invariant. -/
theorem Inv.step (hInv : s.Inv) {op} (hAllowed : Undisturbed s op) (hStep : Step lib s op s') :
    s'.Inv := by
  cases hStep with
  | work hIdle hWork =>
    rcases hWork.txids_eq with ⟨hExpected, hPending, -⟩
    refine hInv.setWriter ?_ (Or.inl rfl)
    rw [hExpected, hPending]
    exact hInv.next _
  | reopen hIdle hOpen => exact hInv.setWriter hOpen (Or.inl rfl)
  | checkOk hIdle hDirty hCheck => exact hInv.setWriter (hInv.next _) (Or.inr ⟨_, rfl, hCheck⟩)
  | checkConflict hIdle hDirty hCheck => exact hInv.reject _
  | upload hPhase hMin hMax => exact hInv.upload hAllowed hMin hMax
  | finish hPhase => exact hInv.finish hPhase

theorem Run.inv (hInv : s.Inv) (hRun : Run lib Undisturbed s s') : s'.Inv := by
  induction hRun with
  | refl => exact hInv
  | tail _ hLast ih =>
    rcases hLast with ⟨op, hAllowed, hStep⟩
    exact ih.step hAllowed hStep

end Writers

/-
  In every run in which no upload comes between the conflict
  check and the upload of a sync, no update is lost.
-/
theorem no_lost_update
    {ι : Type}
    [DecidableEq ι]
    {lib : LtxLibrary D}
    {s s' : Writers ι D}
    (hStarts : s.Starts)
    (hRun : Writers.Run lib Undisturbed s s') :
    s'.NoLostUpdate :=
  (Writers.Run.inv hStarts.inv hRun).safe

-- Two Syncs That Both Check First

def newWriter : VFSConn Nat :=
  { new true with pendingTXID := 1 }

def wroteFirst (v : Nat) : VFSConn Nat :=
  { newWriter with dirty := [(1, v)], commit := 1 }

def firstUploadOf (v : Nat) : Layer Nat :=
  (wroteFirst v).createLTXFromDirty referenceLibrary

def firstTransaction : FileInfo :=
  ⟨0, 1, 1, 100, 10⟩

def twoOpened : Writers Bool Nat where
  objects := []
  writers := fun _ => ⟨newWriter, .idle⟩
  results := []

def twoWrote : Writers Bool Nat :=
  (twoOpened.setWriter false ⟨wroteFirst 7, .idle⟩).setWriter true ⟨wroteFirst 8, .idle⟩

theorem twoOpened_starts : twoOpened.Starts := by
  refine ⟨?_, fun _ => ⟨rfl, rfl⟩, rfl⟩
  intro obj hMem
  cases hMem

theorem twoWrote_reached (allowed : Writers Bool Nat → WriterOp Bool → Prop)
    (hWork : ∀ s i, allowed s (.work i)) :
    Writers.Run referenceLibrary allowed twoOpened twoWrote := by
  have hWrite : ∀ v, VFSConn.Work referenceLibrary newWriter (wroteFirst v) :=
    fun v =>
      @VFSConn.Work.writeAt Nat referenceLibrary newWriter
        (wroteFirst v) (fun _ _ => .ok 0) 1 (fun _ => v) rfl
  have hFirst : Writers.Run referenceLibrary allowed twoOpened
    (twoOpened.setWriter false ⟨wroteFirst 7, .idle⟩) :=
    .single ⟨_, hWork _ _, .work rfl (hWrite 7)⟩
  exact hFirst.tail ⟨_, hWork _ _, .work rfl (hWrite 8)⟩

def oneSynced : Writers Bool Nat :=
  (((twoWrote.pass false).upload referenceLibrary firstTransaction false).finish referenceLibrary
    (firstUploadOf 7) [] false).reject true

theorem oneSynced_reached : Writers.Run referenceLibrary Undisturbed twoOpened oneSynced := by
  have hPass := (twoWrote_reached Undisturbed (fun _ _ => trivial)).tail
    ⟨.check false, trivial, .checkOk rfl (by decide) rfl⟩
  have hUpload := hPass.tail ⟨.upload false, ⟨rfl, by decide⟩,
    @Writers.Step.upload _ _ _ _ _ _ [] firstTransaction rfl rfl rfl⟩
  exact (hUpload.tail ⟨.finish false, trivial, .finish rfl⟩).tail
    ⟨.check true, trivial, .checkConflict rfl (by decide) rfl⟩

/- The late process has a conflict. -/
theorem oneSynced_no_lost_update :
    (true, 1, SyncResult.conflict) ∈ oneSynced.results ∧
    oneSynced.NoLostUpdate :=
  ⟨mem_cons_self, no_lost_update twoOpened_starts oneSynced_reached⟩

def bothChecked : Writers Bool Nat :=
  (twoWrote.pass false).pass true

def bothUploaded : Writers Bool Nat :=
  (bothChecked.upload referenceLibrary firstTransaction
    false).upload referenceLibrary firstTransaction true

def bothSynced : Writers Bool Nat :=
  (bothUploaded.finish referenceLibrary (firstUploadOf 7) []
    false).finish referenceLibrary (firstUploadOf 8) [] true

theorem bothSynced_reached :
    Writers.Run referenceLibrary (fun _ _ => True) twoOpened bothSynced := by
  have hPass := (twoWrote_reached (fun _ _ => True) (fun _ _ => trivial)).tail
    ⟨.check false, trivial, .checkOk rfl (by decide) rfl⟩
  have hPassToo := hPass.tail ⟨.check true, trivial, .checkOk rfl (by decide) rfl⟩
  have hUpload := hPassToo.tail ⟨.upload false, trivial,
    @Writers.Step.upload _ _ _ _ _ _ [] firstTransaction rfl rfl rfl⟩
  have hUploadToo := hUpload.tail ⟨.upload true, trivial,
    @Writers.Step.upload _ _ _ _ _ _ [] firstTransaction rfl rfl rfl⟩
  exact (hUploadToo.tail ⟨.finish false, trivial, .finish rfl⟩).tail
    ⟨.finish true, trivial, .finish rfl⟩

/-
  Both syncs of the same TXID return no error, and only the
  page of the second one is stored.
-/
theorem update_lost_after_race :
    ∃ s,
      Writers.Run referenceLibrary (fun _ _ => True)
        twoOpened s ∧
      twoOpened.Starts ∧
      (false, 1, SyncResult.synced (firstUploadOf 7)) ∈
        s.results ∧
      (true, 1, SyncResult.synced (firstUploadOf 8)) ∈
        s.results ∧
      s.stored 1 = some (firstUploadOf 8) ∧
      (firstUploadOf 7).page 1 = some 7 ∧
      (firstUploadOf 8).page 1 = some 8 ∧
      ¬ s.NoLostUpdate := by
  have hFirst : (false, 1, SyncResult.synced (firstUploadOf 7)) ∈ bothSynced.results :=
    mem_cons_of_mem _ mem_cons_self
  have hSecond : (true, 1, SyncResult.synced (firstUploadOf 8)) ∈ bothSynced.results :=
    mem_cons_self
  refine ⟨bothSynced, bothSynced_reached, twoOpened_starts, hFirst, hSecond, rfl, rfl, rfl, ?_⟩
  intro hSafe
  cases (hSafe false 1 _ hFirst).1 true _ (by decide) hSecond

end Replicate
