import Replicate.DB.ReplicaSync

/-
  What it means that a database and its replica agree, and
  how the local side keeps it.

  The local files and the replica agree when both hold the
  transactions of one lineage, and an open database is not
  behind the replica.

  Main declarations:
    * `LocalAgrees.pos_spec`
    * `LocalAgrees.write`
    * `ReplicaAgrees.init`
-/

-- Agreement

namespace Replicate

open Compactor PageHistory List Option
open IntervalChain (Tiles reach)

variable {D : Type} {lib : LtxLibrary D}

/- An LTX file of the content that ends at the TXID. -/
def Bytes.Holds (data : Bytes D) (txID : Nat) (layer : Layer D) : Prop :=
  data = .ltx txID layer ∨ data = .sealed (.ltx txID layer)

/- The local files reach the end of the replica's level 0. -/
def Reaches (top : Nat) (l0 : List (LocalFile D)) : Prop :=
  top = 0 ∨ ∃ file ∈ l0, top ≤ file.maxTXID

/-
  The local state agrees with a lineage and with a replica
  whose level 0 ends at `top`: every local file holds its
  transaction, only fetched ones may be sealed, and an open
  database numbers past `top`.
-/
structure LocalAgrees (H : History lib) (top : Nat) (db : LocalState D) : Prop where
  files : ∀ file ∈ db.l0, file.minTXID = file.maxTXID ∧ 1 ≤ file.maxTXID ∧ file.maxTXID ≤ H.count ∧
    file.data.Holds file.maxTXID (H.tx file.maxTXID) ∧
    (top < file.maxTXID → file.data.isSealed = false)
  cached : ∀ txID, db.posCache = some txID → txID ≤ H.count ∧
    (∀ file ∈ db.l0, file.maxTXID ≤ txID) ∧
    (top ≤ txID → Reaches top db.l0)
  ready : db.conn = .ready → Reaches top db.l0 ∧ ∀ txID, db.posCache = some txID → top ≤ txID

/- The end of a level that is tiled from 1 on. -/
def Replica.levelEnd (r : Replica D) (level : Nat) : Nat :=
  reach FileInfo.maxTXID 0 (r.content level)

/-
  The replica holds the lineage: level 0 is made of its
  transactions, the levels above tile it from 1 on, and
  what level 1 does not cover is at level 0.
-/
structure ReplicaAgrees (H : History lib) (r : Replica D)
    (compacted : List (Nat × Layer D)) : Prop where
  levels : ∀ level, ∀ obj ∈ r.objects level, obj.info.level = level
  sorted : ∀ level, (r.content level).Pairwise NameLt
  l0 : ∀ obj ∈ r.objects 0, obj.info.minTXID = obj.info.maxTXID ∧ 1 ≤ obj.info.maxTXID ∧
    obj.data.Holds obj.info.maxTXID (H.tx obj.info.maxTXID)
  count : r.l0Max ≤ H.count
  stored : ∀ level, 1 ≤ level → ∀ obj ∈ r.objects level,
    ∃ layer, obj.data.Holds obj.info.maxTXID layer ∧
      Produced H obj.info.minTXID obj.info.maxTXID layer
  tiles : ∀ level, 1 ≤ level → Tiles FileInfo.minTXID FileInfo.maxTXID 0 (r.content level)
  ends : ∀ level, 1 ≤ level → r.levelEnd (level + 1) = 0 ∨
    ∃ f ∈ r.content level, f.maxTXID = r.levelEnd (level + 1)
  l1_le : r.levelEnd 1 ≤ r.l0Max
  present : ∀ t, r.levelEnd 1 < t → t ≤ r.l0Max → ∃ obj ∈ r.objects 0, obj.info.maxTXID = t
  recorded : ∀ t, 1 ≤ t → t ≤ r.levelEnd 1 → (t, H.tx t) ∈ compacted
  no_snapshots : ∀ level, snapshotLevel ≤ level → r.objects level = []

/- The database and its replica agree on one lineage. -/
structure SyncState.Agrees (s : SyncState lib) : Prop where
  local_ : LocalAgrees s.lineage s.replica.l0Max s.db
  remote : ReplicaAgrees s.lineage s.replica s.compacted
  pos : s.replicaPos = 0 ∨ s.replicaPos = s.replica.l0Max
  bound : s.lineage.count + 1 < TXID.bound

-- The Local Position

theorem newest_spec (l0 : List (LocalFile D)) : match newest l0 with
    | none => ∀ file ∈ l0, file.maxTXID = 0
    | some file =>
      file ∈ l0 ∧ ∀ g ∈ l0, g.maxTXID ≤ file.maxTXID := by
  have hGreatest : ∀ file ∈ l0, file.maxTXID ≤ (newest l0).elim 0 LocalFile.maxTXID := by
    refine (@Traversal.le_foldl (LocalFile D) (Option (LocalFile D)) _
      (fun best => best.elim 0 LocalFile.maxTXID)
      LocalFile.maxTXID ?_ ?_ none l0).2
    · intro best file
      split
      · exact Nat.le_of_lt (by assumption)
      · exact Nat.le_refl _
    · intro best file
      split
      · exact Nat.le_refl _
      · exact Nat.le_of_not_lt (by assumption)
  have hPick : newest l0 = none ∨ ∃ file ∈ l0, newest l0 = some file := by
    apply Traversal.foldl_eq_or_mem
    intro best file
    split
    · exact Or.inr rfl
    · exact Or.inl rfl
  rcases hPick with hNone | ⟨file, hMem, hSome⟩
  · rw [hNone] at hGreatest ⊢
    exact fun file hf => Nat.le_zero.mp (hGreatest file hf)
  · rw [hSome] at hGreatest ⊢
    exact ⟨hMem, hGreatest⟩

theorem Bytes.Holds.verify_ok {data : Bytes D} {txID pos : Nat}
    {layer : Layer D} (hHolds : data.Holds txID layer) (hVerify : data.verify = .ok pos) :
    pos = txID ∧ data = .ltx txID layer := by
  rcases hHolds with rfl | rfl
  · exact ⟨(Except.ok.inj hVerify).symm, rfl⟩
  · cases hVerify

namespace LocalAgrees

variable {H : History lib} {top txID : Nat} {db : LocalState D}

theorem pos_uncached (hLocal : LocalAgrees H top db)
    (hCache : db.posCache = none) (hPos : db.pos = .ok txID) :
    (txID = 0 ∧ newest db.l0 = none ∧ db.l0 = []) ∨ ∃ file ∈ db.l0, newest db.l0 = some file ∧
      file.minTXID ≠ 0 ∧ file.maxTXID = txID ∧
      ∀ g ∈ db.l0, g.maxTXID ≤ txID := by
  have hSpec := newest_spec db.l0
  unfold LocalState.pos at hPos
  simp only [hCache] at hPos
  cases hNewest : newest db.l0 with
  | none =>
    simp only [hNewest, Except.ok.injEq] at hPos hSpec
    refine Or.inl ⟨hPos.symm, rfl, ?_⟩
    rw [eq_nil_iff_forall_not_mem]
    intro file hMem
    have hZero := hSpec file hMem
    have hFile := hLocal.files file hMem
    omega
  | some file =>
    simp only [hNewest] at hPos hSpec
    have hFile := hLocal.files file hSpec.1
    have hMin : file.minTXID ≠ 0 := by omega
    rw [if_neg hMin] at hPos
    cases hVerify : file.data.verify with
    | error err => simp [hVerify] at hPos
    | ok pos =>
      simp only [hVerify, Except.ok.injEq] at hPos
      rcases hFile.2.2.2.1.verify_ok hVerify with ⟨hEq, _⟩
      have hEnd : file.maxTXID = txID := by omega
      exact Or.inr ⟨file, hSpec.1, rfl, hMin, hEnd, hEnd ▸ hSpec.2⟩

/- What the position says of the local files. -/
theorem pos_spec (hLocal : LocalAgrees H top db) (hPos : db.pos = .ok txID) :
    txID ≤ H.count ∧ (∀ file ∈ db.l0, file.maxTXID ≤ txID) ∧ (db.conn = .ready → top ≤ txID) := by
  cases hCache : db.posCache with
  | some pos =>
    have hEq : pos = txID := by simpa [LocalState.pos, hCache] using hPos
    subst hEq
    rcases hLocal.cached pos hCache with ⟨hLe, hFiles, _⟩
    exact ⟨hLe, hFiles, fun hReady => (hLocal.ready hReady).2 pos hCache⟩
  | none =>
    rcases hLocal.pos_uncached hCache hPos with ⟨rfl, _, hNil⟩ | ⟨file, hMem, _, _, hEnd, hFiles⟩
    · refine ⟨Nat.zero_le _, by simp [hNil], ?_⟩
      intro hReady
      rcases (hLocal.ready hReady).1 with hZero | ⟨file, hMem, _⟩
      · omega
      · simp [hNil] at hMem
    refine ⟨?_, hFiles, ?_⟩
    · rw [← hEnd]
      exact (hLocal.files file hMem).2.2.1
    · intro hReady
      rcases (hLocal.ready hReady).1 with hZero | ⟨g, hg, hTop⟩
      · omega
      · exact Nat.le_trans hTop (hFiles g hg)

-- Changes Of The Local State

theorem posCache_withPos (hLocal : LocalAgrees H top db) (hPos : db.pos = .ok txID)
    (hNonzero : txID ≠ 0) : db.withPos.posCache = some txID := by
  cases hCache : db.posCache with
  | some pos =>
    have hEq : pos = txID := by simpa [LocalState.pos, hCache] using hPos
    unfold LocalState.withPos
    rw [hPos]
    split
    · rename_i hOk
      split
      · rw [hCache, hEq]
      · exact congrArg some (Except.ok.inj hOk).symm
    · rw [hCache, hEq]
  | none =>
    rcases hLocal.pos_uncached hCache hPos with ⟨hZero, _⟩ | ⟨file, _, hNewest, hMin, _⟩
    · exact absurd hZero hNonzero
    · unfold LocalState.withPos
      simp [hNewest, hPos, hMin]

theorem withPos_cases (db : LocalState D) : db.withPos = db ∨ ∃ file pos, newest db.l0 = some file ∧
    file.minTXID ≠ 0 ∧ db.pos = .ok pos ∧
    db.withPos = { db with posCache := some pos } := by
  unfold LocalState.withPos
  split
  · rename_i file pos hNewest hPos
    split
    · exact Or.inl rfl
    · rename_i hMin
      exact Or.inr ⟨file, pos, hNewest, hMin, hPos, rfl⟩
  · exact Or.inl rfl

@[simp] theorem withPos_l0 (db : LocalState D) : db.withPos.l0 = db.l0 := by
  rcases withPos_cases db with hEq | ⟨_, _, _, _, _, hEq⟩
  · rw [hEq]
  · rw [hEq]

@[simp] theorem withPos_conn (db : LocalState D) : db.withPos.conn = db.conn := by
  rcases withPos_cases db with hEq | ⟨_, _, _, _, _, hEq⟩
  · rw [hEq]
  · rw [hEq]

theorem withPos (hLocal : LocalAgrees H top db) : LocalAgrees H top db.withPos := by
  rcases withPos_cases db with hEq | ⟨file, pos, hNewest, hMin, hPos, hEq⟩
  · rw [hEq]
    exact hLocal
  rcases hLocal.pos_spec hPos with ⟨hLe, hFiles, hReady⟩
  rw [hEq]
  refine ⟨hLocal.files, ?_, ?_⟩
  · intro txID hCache
    rcases some.inj hCache with rfl
    refine ⟨hLe, hFiles, ?_⟩
    intro hTop
    cases hOld : db.posCache with
    | some old =>
      have hSame : old = pos := by simpa [LocalState.pos, hOld] using hPos
      exact (hLocal.cached old hOld).2.2 (hSame ▸ hTop)
    | none =>
      rcases hLocal.pos_uncached hOld hPos with ⟨_, hNone, _⟩ | ⟨g, hg, _, _, hEnd, _⟩
      · rw [hNone] at hNewest
        cases hNewest
      · exact Or.inr ⟨g, hg, hEnd ▸ hTop⟩
  · intro hOpen
    refine ⟨(hLocal.ready hOpen).1, ?_⟩
    intro txID hCache
    rcases some.inj hCache with rfl
    exact hReady hOpen

theorem uncached (hLocal : LocalAgrees H top db) : LocalAgrees H top { db with posCache := none } :=
  ⟨hLocal.files, by simp, fun hReady => ⟨(hLocal.ready hReady).1, by simp⟩⟩

theorem clear (hIdle : db.conn ≠ .ready ∨ top = 0) : LocalAgrees H top db.clear := by
  refine ⟨by simp [LocalState.clear], by simp [LocalState.clear], ?_⟩
  intro hReady
  rcases hIdle with hClosed | hTop
  · exact absurd hReady hClosed
  · exact ⟨Or.inl hTop, by simp [LocalState.clear]⟩

/-
  It may lose some of them if the cached position does not
  claim to reach the replica.
-/
theorem keepOnly (hLocal : LocalAgrees H top db) (left : Nat → Nat → Bool)
    (hIdle : db.conn ≠ .ready ∨ top = 0)
    (hCache : ∀ pos, db.posCache = some pos → top ≤ pos → top = 0) :
    LocalAgrees H top (db.keepOnly left) := by
  refine ⟨?_, ?_, ?_⟩
  · intro file hMem
    exact hLocal.files file (mem_filter.mp hMem).1
  · intro pos hSome
    rcases hLocal.cached pos hSome with ⟨hLe, hFiles, _⟩
    refine ⟨hLe, ?_, fun hTop => Or.inl (hCache pos hSome hTop)⟩
    intro file hMem
    exact hFiles file (mem_filter.mp hMem).1
  · intro hReady
    rcases hIdle with hClosed | hTop
    · exact absurd hReady hClosed
    · exact ⟨Or.inl hTop, by omega⟩

theorem opened (hLocal : LocalAgrees H top db) (hReaches : Reaches top db.l0)
    (hCache : ∀ pos, db.posCache = some pos → top ≤ pos) :
    LocalAgrees H top { db with conn := .ready } :=
  ⟨hLocal.files, hLocal.cached, fun _ => ⟨hReaches, hCache⟩⟩

theorem idle (hLocal : LocalAgrees H top db) {conn : Conn} (hConn : conn ≠ .ready) :
    LocalAgrees H top { db with conn := conn } :=
  ⟨hLocal.files, hLocal.cached, fun hReady => absurd hReady hConn⟩

/- The next transaction is numbered past the replica. -/
theorem write (hLocal : LocalAgrees H top db) {H'} (hPos : db.pos = .ok txID)
    (hReady : db.conn = .ready) (hNext : H.Continues H' txID) :
    LocalAgrees H' top (db.write (txID + 1) (H'.tx (txID + 1))) := by
  rcases hLocal.pos_spec hPos with ⟨hLe, hFiles, hTop⟩
  rcases hNext with ⟨hCount, hAgree⟩
  have hWritten : ∀ file ∈ (db.write (txID + 1) (H'.tx (txID + 1))).l0,
    file ∈ db.l0 ∨ file = ⟨txID + 1, txID + 1, .ltx (txID + 1) (H'.tx (txID + 1))⟩ := by
    intro file hMem
    rcases mem_append.mp hMem with hOld | hNew
    · exact Or.inl (mem_filter.mp hOld).1
    · exact Or.inr (mem_singleton.mp hNew)
  have hReaches : Reaches top (db.write (txID + 1) (H'.tx (txID + 1))).l0 := by
    refine Or.inr ⟨_, mem_append_right _ (mem_singleton.mpr rfl), ?_⟩
    exact Nat.le_succ_of_le (hTop hReady)
  refine ⟨?_, ?_, ?_⟩
  · intro file hMem
    rcases hWritten file hMem with hOld | rfl
    · rcases hLocal.files file hOld with ⟨hName, hStart, _, hHolds⟩
      have hEnd := hFiles file hOld
      rw [hAgree file.maxTXID hStart hEnd]
      exact ⟨hName, hStart, by omega, hHolds⟩
    · exact ⟨rfl, Nat.le_add_left 1 txID, Nat.le_of_eq hCount.symm, Or.inl rfl, fun _ => rfl⟩
  · intro pos hCache
    rcases some.inj hCache with rfl
    refine ⟨by omega, ?_, fun _ => hReaches⟩
    intro file hMem
    rcases hWritten file hMem with hOld | rfl
    · exact Nat.le_succ_of_le (hFiles file hOld)
    · exact Nat.le_refl _
  · intro _
    refine ⟨hReaches, ?_⟩
    intro pos hCache
    rcases some.inj hCache with rfl
    exact Nat.le_succ_of_le (hTop hReady)

theorem removeL0 (hLocal : LocalAgrees H top db) {gone}
    (hGone : ∀ info ∈ gone, info.maxTXID < top) :
    LocalAgrees H top (db.removeL0 gone) := by
  refine ⟨?_, by simp [LocalState.removeL0], ?_⟩
  · intro file hMem
    exact hLocal.files file (mem_filter.mp hMem).1
  · intro hReady
    refine ⟨?_, by simp [LocalState.removeL0]⟩
    rcases (hLocal.ready hReady).1 with hZero | ⟨file, hMem, hTop⟩
    · exact Or.inl hZero
    refine Or.inr ⟨file, ?_, hTop⟩
    apply mem_filter.mpr
    refine ⟨hMem, ?_⟩
    simp only [Bool.not_eq_true', List.any_eq_false, Bool.and_eq_true, beq_iff_eq, not_and]
    intro info hInfo _ hMax
    have hLt := hGone info hInfo
    omega

end LocalAgrees

-- Initialisation

section Init

variable {H : History lib} {env : InitEnv} {r : Replica D} {compacted : List (Nat × Layer D)}
variable {db db' : LocalState D} {res : Option Err}
variable {openErr decryptErr : Option Err} {data : Bytes D}

theorem Replica.openLTXFile_holds {level minTXID maxTXID : Nat}
    (hOpen : r.openLTXFile openErr decryptErr level minTXID maxTXID = .ok data) :
    ∃ obj ∈ r.objects level, obj.info.minTXID = minTXID ∧ obj.info.maxTXID = maxTXID ∧
      ∀ txID layer, obj.data.Holds txID layer → data.Holds txID layer := by
  rcases Replica.openLTXFile_ok hOpen with ⟨obj, hObj, hData⟩
  rcases Replica.object_spec hObj with ⟨hMem, hMin, hMax⟩
  refine ⟨obj, hMem, hMin, hMax, ?_⟩
  intro txID layer hHolds
  rcases hData with ⟨hSame, _⟩ | ⟨_, hSealed⟩
  · exact hSame ▸ hHolds
  rw [hSealed] at hHolds
  rcases hHolds with hPlain | hInner
  · cases hPlain
  · exact Or.inl (Bytes.sealed.inj hInner)

theorem ReplicaAgrees.fetched (hRemote : ReplicaAgrees H r compacted) (hTop : 0 < r.l0Max)
    (hOpen : r.openLTXFile openErr decryptErr 0 (maxInfo (r.content 0)).minTXID (maxInfo (r.content
      0)).maxTXID = .ok data) (conn : Conn) :
    LocalAgrees H r.l0Max ⟨conn, [⟨(maxInfo (r.content 0)).minTXID, (maxInfo (r.content 0)).maxTXID,
      data⟩], none⟩ := by
  rcases Replica.openLTXFile_holds hOpen with ⟨obj, hMem, hMin, hMax, hData⟩
  rcases hRemote.l0 obj hMem with ⟨hPoint, _, hObject⟩
  rw [hMax] at hObject
  have hHolds : data.Holds r.l0Max (H.tx r.l0Max) := hData _ _ hObject
  have hName : (maxInfo (r.content 0)).minTXID = r.l0Max := by
    rw [hMin, hMax] at hPoint
    exact hPoint
  refine ⟨?_, by simp, ?_⟩
  · intro file hMem
    rcases mem_singleton.mp hMem with rfl
    exact ⟨hName, hTop, hRemote.count, hHolds, fun hLess => absurd hLess (Nat.lt_irrefl _)⟩
  · intro _
    exact ⟨Or.inr ⟨_, mem_singleton.mpr rfl, Nat.le_refl _⟩, by simp⟩

theorem ReplicaAgrees.fetchBaseline (hRemote : ReplicaAgrees H r compacted)
    (hLocal : LocalAgrees H r.l0Max db) (hClosed : db.conn = .closed)
    (hBehind : ∀ pos, db.posCache = some pos → pos < r.l0Max) (hTop : 0 < r.l0Max)
    (hFetch : fetchBaseline env r (maxInfo (r.content 0)) db = (res, db')) :
    LocalAgrees H r.l0Max db' ∧ (res = none → LocalAgrees H r.l0Max
      { db' with conn := .ready }) := by
  have hIdle : db.conn ≠ .ready ∨ r.l0Max = 0 := Or.inl (by simp [hClosed])
  unfold Replicate.fetchBaseline at hFetch
  split at hFetch
  · rw [Prod.mk.injEq] at hFetch
    rcases hFetch with ⟨rfl, rfl⟩
    refine ⟨hLocal.keepOnly _ hIdle ?_, by simp⟩
    intro pos hCache hLe
    have hLt := hBehind pos hCache
    omega
  split at hFetch
  · rw [Prod.mk.injEq] at hFetch
    rcases hFetch with ⟨rfl, rfl⟩
    exact ⟨LocalAgrees.clear hIdle, by simp⟩
  · split at hFetch
    · rw [Prod.mk.injEq] at hFetch
      rcases hFetch with ⟨rfl, rfl⟩
      exact ⟨LocalAgrees.clear hIdle, by simp⟩
    · rename_i data hOpen
      split at hFetch
      · rw [Prod.mk.injEq] at hFetch
        rcases hFetch with ⟨rfl, rfl⟩
        exact ⟨LocalAgrees.clear hIdle, by simp⟩
      · rw [Prod.mk.injEq] at hFetch
        rcases hFetch with ⟨rfl, rfl⟩
        exact ⟨hRemote.fetched hTop hOpen _, fun _ => hRemote.fetched hTop hOpen _⟩

/- The check leaves a state that may be opened. -/
theorem ReplicaAgrees.checkDatabaseBehindReplica
    (hRemote : ReplicaAgrees H r compacted) (hLocal : LocalAgrees H r.l0Max db)
    (hClosed : db.conn = .closed) (hCheck : checkDatabaseBehindReplica env r db = (res, db')) :
    LocalAgrees H r.l0Max db' ∧ (res = none → LocalAgrees H r.l0Max
      { db' with conn := .ready }) := by
  have hCached := hLocal.withPos
  unfold Replicate.checkDatabaseBehindReplica at hCheck
  cases hPos : db.pos with
  | error err =>
    simp only [hPos, Prod.mk.injEq] at hCheck
    rcases hCheck with ⟨rfl, rfl⟩
    exact ⟨hLocal, by simp⟩
  | ok dbPos =>
    have hOwn : ∀ pos, db.withPos.posCache = some pos → pos = dbPos := by
      intro pos hCache
      have hSame : db.withPos.pos = .ok pos := by simp [LocalState.pos, hCache]
      rw [LocalState.pos_withPos, hPos] at hSame
      exact (Except.ok.inj hSame).symm
    have hAhead : r.l0Max ≤ dbPos → LocalAgrees H r.l0Max { db.withPos with conn := .ready } := by
      intro hLe
      refine hCached.opened ?_ ?_
      · by_cases hZero : dbPos = 0
        · exact Or.inl (by omega)
        · exact (hCached.cached dbPos (hLocal.posCache_withPos hPos hZero)).2.2 hLe
      · intro pos hCache
        rw [hOwn pos hCache]
        exact hLe
    simp only [hPos] at hCheck
    cases hInfo : r.maxLTXFileInfo env.listFault 0 with
    | error err =>
      simp only [hInfo, Prod.mk.injEq] at hCheck
      rcases hCheck with ⟨rfl, rfl⟩
      exact ⟨hCached, by simp⟩
    | ok info =>
      simp only [hInfo] at hCheck
      rcases Replica.maxLTXFileInfo_ok hInfo with rfl
      split at hCheck
      · rename_i hZero
        rw [Prod.mk.injEq] at hCheck
        rcases hCheck with ⟨rfl, rfl⟩
        have hNone : r.l0Max = 0 := hZero
        exact ⟨hCached, fun _ => hAhead (by omega)⟩
      rename_i hNonzero
      split at hCheck
      · rename_i hLe
        rw [Prod.mk.injEq] at hCheck
        rcases hCheck with ⟨rfl, rfl⟩
        exact ⟨hCached, fun _ => hAhead hLe⟩
      rename_i hBehind
      refine hRemote.fetchBaseline hCached ?_ ?_ (Nat.pos_of_ne_zero hNonzero) hCheck
      · rw [LocalAgrees.withPos_conn]
        exact hClosed
      · intro pos hCache
        rw [hOwn pos hCache]
        exact Nat.lt_of_not_le hBehind

/- Initialising keeps the agreement, wherever it stops. -/
theorem ReplicaAgrees.init (hRemote : ReplicaAgrees H r compacted)
    (hLocal : LocalAgrees H r.l0Max db) : LocalAgrees H r.l0Max (db.init env r).2 := by
  have hStuck : LocalAgrees H r.l0Max { db with conn := .stuck } := hLocal.idle (by decide)
  unfold LocalState.init
  by_cases hOpen : db.conn = .closed
  · rw [if_neg (by simp [hOpen])]
    split
    · exact hLocal
    split
    · exact hLocal
    · exact hLocal
    split
    · exact hLocal
    · split
      · exact hStuck
      · split
        · exact hStuck
        · split
          · exact hLocal
          · split
            · rename_i hCheck
              exact (hRemote.checkDatabaseBehindReplica hLocal hOpen hCheck).1
            · rename_i hCheck
              have hDone := hRemote.checkDatabaseBehindReplica hLocal hOpen hCheck
              split
              · exact hDone.1
              · exact hDone.2 rfl
  · rw [if_pos hOpen]
    exact hLocal

end Init

end Replicate
