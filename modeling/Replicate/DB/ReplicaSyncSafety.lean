import Replicate.DB.ReplicaOperations
import Replicate.Restore.Replay

/-
  A successful replica sync means the data is there.

  Every operation keeps a database and its replica in
  agreement, except a reset of an open database whose
  replica holds data: the local numbering then starts again
  at 1, and positions are compared by number alone.

  Main declarations:
    * `SyncState.Step.agrees`
    * `SyncState.Run.agrees`
    * `replicaSync_has_data`
    * `replicaSync_after_reset`
-/

-- Runs

namespace Replicate

open Replica PageHistory List Option
open IntervalChain (Tiles reach)

variable {D : Type} {lib : LtxLibrary D}

namespace SyncState

theorem fresh_agrees (ageRecipients ageIdentities : List String) (requireEncryption : Bool) :
    (fresh lib ageRecipients ageIdentities requireEncryption).Agrees := by
  have hBound : 0 + 1 < TXID.bound := by decide
  refine ⟨⟨?_, ?_, ?_⟩, ⟨?_, ?_, ?_, ?_, ?_, ?_, ?_, ?_, ?_, ?_, ?_⟩, Or.inl rfl, hBound⟩
  all_goals
    simp [fresh, Replica.content, l0Max, levelEnd, Tiles, Compactor.maxInfo, Compactor.zeroInfo]
  all_goals
    intro t hPos hZero
    omega

/- Every allowed operation keeps the agreement. -/
theorem Step.agrees {s s' : SyncState lib} {op : Op lib} (hAgrees : s.Agrees)
    (hAllowed : s.ResetMeetsNoData op) (hStep : Step s op s') : s'.Agrees := by
  have hLocal := hAgrees.local_
  have hRemote := hAgrees.remote
  cases hStep with
  | init env => exact ⟨hRemote.init hLocal, hRemote, hAgrees.pos, hAgrees.bound⟩
  | @write lineage txID hReady hPos hRoom hNext =>
    have hTop := (hLocal.pos_spec hPos).2.2 hReady
    have hId : TXID.next txID = txID + 1 := TXID.next_eq (by omega)
    rw [hId]
    exact ⟨hLocal.write hPos hReady hNext, hRemote.of_continues hNext hTop, hAgrees.pos, by
      have hCount := hNext.1
      dsimp only
      omega⟩
  | writeFailed => exact ⟨hLocal.uncached, hRemote, hAgrees.pos, hAgrees.bound⟩
  | replicaSync env => exact (hAgrees.replicaSync rfl).1
  | compact env hLevel hBelow => exact hAgrees.compact hLevel hBelow
  | retention env => exact hAgrees.enforceL0Retention
  | close => exact ⟨hLocal.idle (by decide), hRemote, hAgrees.pos, hAgrees.bound⟩
  | restart => exact ⟨(hLocal.idle (by decide)).uncached, hRemote, Or.inl rfl, hAgrees.bound⟩
  | reset removeErr left =>
    refine ⟨?_, hRemote, hAgrees.pos, hAgrees.bound⟩
    have hEmpty : s.replica.objects 0 = [] → s.replica.l0Max = 0 := by
      intro hNil
      simp [l0Max, Replica.content, hNil, Compactor.maxInfo, Compactor.zeroInfo]
    unfold LocalState.resetLocalState
    rcases hAllowed with hNil | ⟨hIdle, rfl⟩
    · split
      · exact hLocal.keepOnly left (Or.inr (hEmpty hNil)) (fun _ _ _ => hEmpty hNil)
      · exact LocalAgrees.clear (Or.inr (hEmpty hNil))
    · exact LocalAgrees.clear (Or.inl hIdle)

/- A whole run of allowed operations does so too. -/
theorem Run.agrees {s s' : SyncState lib} (hAgrees : s.Agrees) (hRun : Run ResetMeetsNoData s s') :
    s'.Agrees := by
  induction hRun with
  | refl => exact hAgrees
  | tail _ hLast ih =>
    rcases hLast with ⟨op, hAllowed, hStep⟩
    exact hStep.agrees ih hAllowed

end SyncState

-- Restoring From The Replica

/-
  The answers of a restore come from the replica: complete
  listings, and the content of the objects that are read.
-/
structure Replica.ServedBy (r : Replica D) (env : RestoreEnv D) : Prop where
  lists : env.files = r.content.listing
  opens : ∀ level, ∀ f ∈ r.content level, ∀ file, env.openLTXFile f = .ok (.ok file) → ∃ obj,
    r.object level f.minTXID f.maxTXID = some obj ∧ obj.data.decoded = some file
  no_v3 : env.v3 = none

/- What decoding the object of a name gives. -/
def Replica.decodedFile (r : Replica D) (f : FileInfo) : Layer D :=
  ((r.object f.level f.minTXID f.maxTXID).bind
    (fun obj => obj.data.decoded)).getD ⟨0, fun _ => none⟩

theorem Bytes.Holds.decoded {data : Bytes D} {txID : Nat} {layer : Layer D}
    (hHolds : data.Holds txID layer) : data.decoded = some layer := by
  rcases hHolds with rfl | rfl
  · rfl
  · rfl

namespace ReplicaAgrees

variable {H : History lib} {r : Replica D} {compacted : List (Nat × Layer D)}
variable {level : Nat} {f : FileInfo}

theorem produced (hRemote : ReplicaAgrees H r compacted) {obj} (hMem : obj ∈ r.objects level) :
    ∃ layer, obj.data.Holds obj.info.maxTXID layer ∧
      Produced H obj.info.minTXID obj.info.maxTXID layer := by
  by_cases hLevel : 1 ≤ level
  · exact hRemote.stored level hLevel obj hMem
  have hZero : level = 0 := by omega
  subst hZero
  rcases hRemote.l0 obj hMem with ⟨hPoint, hStart, hHolds⟩
  have hEnd := r.le_l0Max (r.mem_content_of_mem hMem)
  have hCount := hRemote.count
  refine ⟨_, hHolds, ?_⟩
  rw [hPoint]
  exact Produced.transaction hStart (by omega)

theorem range (hRemote : ReplicaAgrees H r compacted) (hMem : f ∈ r.content level) :
    1 ≤ f.minTXID ∧ f.minTXID ≤ f.maxTXID := by
  rcases List.mem_map.mp hMem with ⟨obj, hObj, rfl⟩
  rcases hRemote.produced hObj with ⟨_, _, hProduced⟩
  refine ⟨hProduced.eq_slice.1, ?_⟩
  by_cases hLevel : 1 ≤ level
  · exact (hRemote.tiles level hLevel).lo_le_hi hMem
  · have hZero : level = 0 := by omega
    subst hZero
    exact Nat.le_of_eq (hRemote.l0 obj hObj).1

theorem wellListed (hRemote : ReplicaAgrees H r compacted) (hBound : H.count + 1 < TXID.bound) :
    r.content.WellListed where
  levels_sorted := by
    intro level _
    refine (hRemote.sorted level).imp ?_
    intro f g hName
    unfold NameLt at hName
    omega
  range := by
    rintro f ⟨level, _, hMem⟩
    have hRange := hRemote.range hMem
    have hEnd := hRemote.max_le hMem
    have hCount := hRemote.count
    omega
  snapshot_min := by
    intro f hMem
    rcases List.mem_map.mp hMem with ⟨obj, hObj, _⟩
    rw [hRemote.no_snapshots snapshotLevel (Nat.le_refl _)] at hObj
    simp at hObj
  snapshots_sorted := by
    unfold Replica.content
    rw [hRemote.no_snapshots snapshotLevel (Nat.le_refl _)]
    exact List.Pairwise.nil

theorem exists_object (hRemote : ReplicaAgrees H r compacted) (hMem : f ∈ r.content level) :
    f.level = level ∧ ∃ obj, r.object level f.minTXID f.maxTXID = some obj := by
  rcases List.mem_map.mp hMem with ⟨own, hOwn, rfl⟩
  refine ⟨hRemote.levels level own hOwn, ?_⟩
  unfold object
  rw [← isSome_iff_exists, find?_isSome]
  exact ⟨own, hOwn, by simp⟩

theorem produced_decodedFile (hRemote : ReplicaAgrees H r compacted) (hListed : r.content.Listed f)
    :
    Produced H f.minTXID f.maxTXID (r.decodedFile f) := by
  rcases hListed with ⟨level, _, hMem⟩
  rcases hRemote.exists_object hMem with ⟨hLevel, obj, hObj⟩
  rcases object_spec hObj with ⟨hIn, hMin, hMax⟩
  rcases hRemote.produced hIn with ⟨layer, hHolds, hProduced⟩
  have hFile : r.decodedFile f = layer := by
    unfold decodedFile
    rw [hLevel, hObj, bind_some, hHolds.decoded, getD_some]
  rw [hFile, ← hMin, ← hMax]
  exact hProduced

/- The replica as a replica of the lineage. -/
def replicaOf (hRemote : ReplicaAgrees H r compacted) (hBound : H.count + 1 < TXID.bound) :
    ReplicaOf H where
  content := r.content
  wellListed := hRemote.wellListed hBound
  file := r.decodedFile
  produced := fun _ hListed => hRemote.produced_decodedFile hListed

theorem serves (hRemote : ReplicaAgrees H r compacted) (hBound : H.count + 1 < TXID.bound) {env}
    (hServed : r.ServedBy env) : (hRemote.replicaOf hBound).Serves env where
  lists := by
    intro level _ itr hItr
    rw [hServed.lists] at hItr
    rw [← Except.ok.inj hItr]
    exact prefix_rfl
  opens := by
    rintro f ⟨level, _, hMem⟩ file hOpen
    rcases hServed.opens level f hMem file hOpen with ⟨obj, hObj, hDecoded⟩
    have hLevel := (hRemote.exists_object hMem).1
    unfold replicaOf decodedFile
    dsimp only
    rw [hLevel, hObj, bind_some, hDecoded, getD_some]
  no_v3 := by
    intro v3 hSome
    rw [hServed.no_v3] at hSome
    cases hSome

theorem covered (hRemote : ReplicaAgrees H r compacted) {t : Nat} (hStart : 1 ≤ t)
    (hLe : t ≤ r.l0Max) : ∃ f, r.content.Listed f ∧ f.minTXID ≤ t ∧ t ≤ f.maxTXID := by
  by_cases hUpper : t ≤ r.levelEnd 1
  · rcases IntervalChain.exists_mem_covering (hRemote.tiles 1 (Nat.le_refl 1)).isChain hStart
      hUpper with ⟨f, hMem, hRange⟩
    exact ⟨f, ⟨1, by decide, hMem⟩, hRange⟩
  · rcases hRemote.present t (by omega) hLe with ⟨obj, hObj, hEnd⟩
    have hPoint := (hRemote.l0 obj hObj).1
    exact ⟨obj.info, ⟨0, by decide, r.mem_content_of_mem hObj⟩, by omega, by omega⟩

theorem exists_plan (hRemote : ReplicaAgrees H r compacted)
    (hBound : H.count + 1 < TXID.bound) (hPos : 1 ≤ r.l0Max) :
    ∃ plan, calcRestorePlan r.content.listing 0 0 = .ok plan ∧ maxTXIDOf plan = r.l0Max := by
  have hCount := hRemote.count
  refine Content.exists_calcRestorePlan_of_covered (hRemote.wellListed hBound) hPos (by omega) ?_ ?_
  · rintro f ⟨level, _, hMem⟩
    exact hRemote.max_le hMem
  · intro t hStart hLe
    exact hRemote.covered hStart hLe

end ReplicaAgrees

-- The Data Is There

namespace SyncState

/-
  The transaction of a local file is on the replica: at
  level 0 with the same content, or in a compacted file
  that was made from that content.
-/
def OnReplica (s : SyncState lib) (file : LocalFile D) : Prop :=
  (∃ obj ∈ s.replica.objects 0, obj.info.minTXID = file.minTXID ∧ obj.info.maxTXID = file.maxTXID ∧
    obj.data.decoded = file.data.decoded) ∨
    ∃ layer, file.data.decoded = some layer ∧ (file.maxTXID, layer) ∈ s.compacted

theorem Agrees.onReplica {s : SyncState lib} (hAgrees : s.Agrees) {file : LocalFile D}
    (hMem : file ∈ s.db.l0) (hLe : file.maxTXID ≤ s.replica.l0Max) : s.OnReplica file := by
  rcases hAgrees.local_.files file hMem with ⟨hName, hStart, _, hHolds, _⟩
  by_cases hUpper : file.maxTXID ≤ s.replica.levelEnd 1
  · exact Or.inr ⟨_, hHolds.decoded, hAgrees.remote.recorded _ hStart hUpper⟩
  rcases hAgrees.remote.present _ (by omega) hLe with ⟨obj, hObj, hEnd⟩
  rcases hAgrees.remote.l0 obj hObj with ⟨hPoint, _, hObject⟩
  refine Or.inl ⟨obj, hObj, by omega, hEnd, ?_⟩
  rw [hObject.decoded, hHolds.decoded, hEnd]

theorem syncStatus_inSync {s : SyncState lib} {fault : ListFault} {status : SyncStatus}
    (hStatus : s.syncStatus fault = .ok status) (hInSync : status.inSync = true) :
    1 ≤ status.localTXID ∧ status.localTXID = s.replica.l0Max := by
  unfold syncStatus calcPos at hStatus
  cases hPos : s.db.pos with
  | error err => simp [hPos] at hStatus
  | ok pos =>
    simp only [hPos] at hStatus
    cases hInfo : s.replica.maxLTXFileInfo fault 0 with
    | error err => simp [hInfo] at hStatus
    | ok info =>
      simp only [hInfo, Except.ok.injEq] at hStatus
      rw [← hStatus] at hInSync ⊢
      rw [maxLTXFileInfo_ok hInfo] at hInSync
      exact of_decide_eq_true hInSync

end SyncState

/-
  In every run in which the local state is reset only while
  the database is not open or the replica holds nothing: a
  replica sync that returns no error leaves every local
  transaction on the replica, and a database that is in
  sync is what a restore of the latest state gives.
-/
theorem replicaSync_has_data
    {ageRecipients ageIdentities : List String}
    {requireEncryption : Bool}
    {s : SyncState lib}
    (hRun :
      SyncState.Run SyncState.ResetMeetsNoData
        (SyncState.fresh lib ageRecipients ageIdentities
          requireEncryption) s) :
    (∀ env s',
      s.replicaSync env = (none, s') →
      ∃ pos,
        s'.db.pos = .ok pos ∧
        ∀ file ∈ s'.db.l0,
          file.maxTXID ≤ pos → s'.OnReplica file) ∧
    (∀ fault status,
      s.syncStatus fault = .ok status →
      status.inSync = true →
      (∃ plan,
        calcRestorePlan s.replica.content.listing 0 0 =
          .ok plan ∧
        maxTXIDOf plan = status.localTXID) ∧
      ∀ env,
        s.replica.ServedBy env →
        ∀ opt fs,
          opt.txID = 0 → opt.timestamp = 0 →
          opt.follow = false →
          (restore lib env opt fs).err = none →
          (restore lib env opt fs).fs opt.outputPath =
            some (s.localImage status.localTXID)) := by
  have hAgrees : s.Agrees := hRun.agrees (SyncState.fresh_agrees _ _ _)
  refine ⟨?_, ?_⟩
  · intro env s' hSync
    rcases hAgrees.replicaSync hSync with ⟨hDone, hReach⟩
    rcases hReach rfl with ⟨pos, hPos, hTop⟩
    refine ⟨pos, hPos, ?_⟩
    intro file hMem hLe
    exact hDone.onReplica hMem (Nat.le_trans hLe hTop)
  · intro fault status hStatus hInSync
    rcases SyncState.syncStatus_inSync hStatus hInSync with ⟨hStart, hEq⟩
    rcases hAgrees.remote.exists_plan hAgrees.bound (by omega) with ⟨plan, hPlan, hEnd⟩
    refine ⟨⟨plan, hPlan, by rw [hEnd, hEq]⟩, ?_⟩
    intro env hServed opt fs hTxID hTime hFollow hOk
    rcases (restore_eq_replay (hAgrees.remote.replicaOf hAgrees.bound) env
      (hAgrees.remote.serves hAgrees.bound hServed)
      opt fs).1 hFollow hOk with
      ⟨plan', hPlan', _, hOutput⟩
    rw [hServed.lists, hTxID, hTime, hPlan, Except.ok.injEq] at hPlan'
    rw [hOutput, ← hPlan', hEnd, ← hEq]
    rfl

-- A Run And A Reset

/- Transactions that count up the only page. -/
def countUp
    (count d : Nat) : History referenceLibrary where
  count := count
  tx t := ⟨1, fun p => if p = 1 then some (d + t) else none⟩
  grows := by
    constructor
    · intro t ht p hAfter hSize _
      have hPage : p = 1 := by
        cases t <;> simp only [sizeAt] at hAfter hSize <;> omega
      simp [hPage]
    · intro t _ p hExempt
      simp [hExempt, referenceLibrary]
  within := by
    intro t _ _ p hSome
    by_cases hPage : p = 1
    · simp [hPage]
    · simp [hPage] at hSome

def calmUpload : UploadEnv where
  listFault := .none
  openLocal := fun _ => none
  writeErr := fun _ => none
  storedAnyway := fun _ => false
  size := fun _ => 100
  createdAt := fun _ => 10

def firstWrite (d : Nat) : SyncState referenceLibrary where
  db := ⟨.ready, [⟨1, 1, .ltx 1 ((countUp 1 d).tx 1)⟩], some 1⟩
  replica := ⟨fun _ => [], [], [], false⟩
  replicaPos := 0
  lineage := countUp 1 d
  compacted := []

def firstUpload (d : Nat) : SyncState referenceLibrary :=
  ((firstWrite d).replicaSync calmUpload).2

theorem firstWrite_reached (d : Nat) : SyncState.Run SyncState.ResetMeetsNoData
    (SyncState.fresh referenceLibrary [] [] false)
    (firstWrite d) := by
  have hInit : SyncState.Step (SyncState.fresh referenceLibrary [] [] false) (.init calmInit)
    { SyncState.fresh referenceLibrary [] [] false with
      db := ⟨.ready, [], none⟩ } :=
    SyncState.Step.init _ calmInit
  have hWrite : SyncState.Step { SyncState.fresh referenceLibrary [] [] false with
    db := ⟨.ready, [], none⟩ }
      (.write (countUp 1 d)) (firstWrite d) :=
    @SyncState.Step.write Nat referenceLibrary _ (countUp 1 d) 0 rfl rfl (by decide)
      ⟨rfl, by omega⟩
  exact (Relation.ReflTransGen.single ⟨.init calmInit, trivial, hInit⟩).tail
    ⟨.write (countUp 1 d), trivial, hWrite⟩

theorem firstUpload_reached (d : Nat) : SyncState.Run SyncState.ResetMeetsNoData
    (SyncState.fresh referenceLibrary [] [] false)
    (firstUpload d) :=
  (firstWrite_reached d).tail ⟨.replicaSync calmUpload, trivial,
    SyncState.Step.replicaSync _ calmUpload⟩

/- A second transaction is written, and not yet uploaded. -/
def secondWrite : SyncState referenceLibrary :=
  { firstUpload 0 with
    db := (firstUpload 0).db.write 2 ((countUp 2 0).tx 2)
    lineage := countUp 2 0 }

theorem secondWrite_reached :
    SyncState.Run SyncState.ResetMeetsNoData
      (SyncState.fresh referenceLibrary [] [] false)
      secondWrite :=
  (firstUpload_reached 0).tail ⟨.write (countUp 2 0), trivial,
    @SyncState.Step.write Nat referenceLibrary _ (countUp 2 0)
      1 rfl rfl (by decide) ⟨rfl, fun _ _ _ => rfl⟩⟩

/- Both files are there, and a restore finds the second. -/
theorem secondUpload_has_data :
    ∃ s,
      secondWrite.replicaSync calmUpload = (none, s) ∧
      s.db.l0.length = 2 ∧
      (∃ pos,
        s.db.pos = .ok pos ∧
        ∀ file ∈ s.db.l0,
          file.maxTXID ≤ pos → s.OnReplica file) ∧
      ∃ plan,
        calcRestorePlan s.replica.content.listing 0 0 =
          .ok plan ∧
        maxTXIDOf plan = 2 := by
  have hUploaded := secondWrite_reached.tail
    ⟨.replicaSync calmUpload, trivial,
      SyncState.Step.replicaSync _ calmUpload⟩
  refine ⟨_, rfl, rfl, ?_, ?_⟩
  · exact (replicaSync_has_data secondWrite_reached).1
      calmUpload _ rfl
  · exact ((replicaSync_has_data hUploaded).2 .none
      ⟨2, 2, true⟩ rfl rfl).1

def resetWrite : SyncState referenceLibrary :=
  { firstUpload 0 with
    db := ⟨.ready, [⟨1, 1, .ltx 1 ((countUp 1 1).tx 1)⟩], some 1⟩
    lineage := countUp 1 1 }

theorem resetWrite_reached : SyncState.Run (fun _ _ => True)
    (SyncState.fresh referenceLibrary [] [] false)
    resetWrite := by
  have hReset : SyncState.Step (firstUpload 0) (.reset none (fun _ _ => true))
    { firstUpload 0 with db := ⟨.ready, [], none⟩ } :=
    SyncState.Step.reset _ none _
  have hWrite : SyncState.Step { firstUpload 0 with db := ⟨.ready, [], none⟩ }
    (.write (countUp 1 1)) resetWrite :=
    @SyncState.Step.write Nat referenceLibrary _ (countUp 1 1) 0 rfl rfl (by decide)
      ⟨rfl, by omega⟩
  have hFirst : SyncState.Run (fun _ _ => True) (SyncState.fresh referenceLibrary [] [] false)
    (firstUpload 0) := by
    refine Relation.ReflTransGen.mono ?_ _ _ (firstUpload_reached 0)
    rintro a b ⟨op, _, hStep⟩
    exact ⟨op, trivial, hStep⟩
  exact (hFirst.tail ⟨_, trivial, hReset⟩).tail ⟨_, trivial, hWrite⟩

def restoreFirst : RestoreEnv Nat :=
  { calmEnv with
    files := resetWrite.replica.content.listing
    openLTXFile := fun _ => .ok (.ok ((countUp 1 0).tx 1)) }

/-
  The next replica sync returns no error and uploads
  nothing, the local file is not on the replica, the status
  is in sync, and a restore gives the old database.
-/
theorem replicaSync_after_reset :
    ∃ s,
      SyncState.Run (fun _ _ => True)
        (SyncState.fresh referenceLibrary [] [] false) s ∧
      (∃ env s',
        s.replicaSync env = (none, s') ∧
        ∃ file ∈ s'.db.l0,
          s'.db.pos = .ok file.maxTXID ∧
          ¬ s'.OnReplica file) ∧
      s.syncStatus .none = .ok ⟨1, 1, true⟩ ∧
      s.replica.ServedBy restoreFirst ∧
      (restore referenceLibrary restoreFirst latest
        (fun _ => none)).err = none ∧
      (restore referenceLibrary restoreFirst latest
        (fun _ => none)).fs "db" = some [1] ∧
      s.localImage 1 = [2] := by
  refine ⟨resetWrite, resetWrite_reached, ⟨calmUpload, _, rfl, _, mem_singleton.mpr rfl, rfl,
    ?_⟩, rfl, ⟨rfl, ?_, rfl⟩, by decide, by decide,
    by decide⟩
  · rintro (⟨obj, hObj, _, _, hSame⟩ | ⟨layer, _, hMem⟩)
    · rcases mem_singleton.mp hObj with rfl
      have hLayers : (countUp 1 0).tx 1 = (countUp 1 1).tx 1 := some.inj hSame
      have hPages := congrArg (fun layer => layer.page 1) hLayers
      simp [countUp] at hPages
    · cases hMem
  · intro level f hMem file hOpen
    cases level with
    | zero =>
      rcases mem_singleton.mp hMem with rfl
      refine ⟨_, rfl, ?_⟩
      rw [← Except.ok.inj (Except.ok.inj hOpen)]
      rfl
    | succ n => cases hMem

end Replicate
