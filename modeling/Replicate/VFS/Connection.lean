import Replicate.Lib.EntryList
import Replicate.Lib.PagedFile
import Replicate.VFS.Index

/-
  A `VFSFile` with all the places a page can come from.

  A page is read from the dirty pages, from the hydrated
  file once it is complete, from the cache, or from the file
  that the index refers to. Writes go to the dirty pages,
  and a sync uploads them as the next transaction. While
  time travel is active the index is that of an older plan.

  The buffer file is not kept apart from the dirty map, and
  of the cache only its entries are kept: any of them can
  be evicted at any time. A sync puts its pages into the
  cache one by one, and can evict some of them for others if
  there are more of them than the cache has room for. A
  write replaces a page by a function of its old content,
  since it may cover only a part of the page. The bytes of
  the first page that every read overwrites are left out.
-/

-- Hydration

namespace Replicate

open EntryList PageHistory

variable {D : Type}

/- The page that an element refers to, with `FetchPage`. -/
def Published.fetchPage (r : Published D) (pageErr : PageElem → Nat → Option Err) (e : PageElem)
    (pgno : Nat) : Except Err D :=
  match pageErr e pgno with
  | some err => .error err
  | none =>
    match (r.objects e.level).find? (fun obj =>
      decide (obj.1.minTXID = e.minTXID ∧ obj.1.maxTXID = e.maxTXID)) with
    | none => .error (.sentinel .notExist)
    | some obj =>
      match obj.2.page pgno with
      | none => .error (.sentinel .notExist)
      | some d => .ok d

/- A `Hydrator`: its file and how far the file is. -/
structure Hydrator (D : Type) where
  file : List D
  complete : Bool
  txid : Nat
  deriving DecidableEq, Repr

namespace Hydrator

/- `NewHydrator`, with the file that `Init` opened. -/
def new (file : List D) (txid : Nat) : Hydrator D where
  file := file
  complete := false
  txid := txid

variable (lib : LtxLibrary D)

def writePage (pgno : Nat) (d : D) (h : Hydrator D) : Hydrator D :=
  { h with
    file := PagedFile.writePage lib.zero (pgno - 1) d h.file }

/- `Truncate`, to a number of pages. -/
def truncate (n : Nat) (h : Hydrator D) : Hydrator D :=
  { h with file := PagedFile.resize lib.zero n h.file }

/- Write some pages, of which the first entry counts. -/
def writePages (pages : List (Nat × D)) (h : Hydrator D) : Hydrator D :=
  pages.foldr (fun e h => h.writePage lib e.1 e.2) h

/-
  `ApplyUpdates`. Pages that cannot be fetched keep their
  old content.
-/
def applyUpdates (fetch : PageElem → Nat → Except Err D) (updates : PageMap)
    (h : Hydrator D) : Hydrator D :=
  h.writePages lib (updates.filterMap (fun e =>
    match updates.lookup e.1 with
    | none => none
    | some elem =>
      match fetch elem e.1 with
      | .error _ => none
      | .ok d => some (e.1, d)))

/-
  `ReadAt`, into a buffer of zeros. Behind the end the code
  reads short without an error and the buffer stays as it
  was, so that its zeros are what the reader sees there.
-/
def readAt (pgno : Nat) (h : Hydrator D) : D :=
  h.file.getD (pgno - 1) lib.zero

/- The pages of an LTX file, in ascending order. -/
def pagesOf (file : Layer D) : List (Nat × D) :=
  (List.range file.commit).filterMap (fun i => (file.page (i + 1)).map (fun d => (i + 1, d)))

/- `Restore`, from the files of a plan. -/
def restore (opened : List (FileInfo × Layer D)) (h : Hydrator D) : Except Err (Hydrator D) :=
  if opened.isEmpty then .error (.text "no ltx files for hydration")
  else
    match lib.compact (opened.map Prod.snd) with
    | .error err => .error (.wrap "decode database" err)
    | .ok file =>
      match lib.decodeDatabaseTo file with
      | .error err => .error (.wrap "decode database" err)
      | .ok img =>
        .ok { h with
          file := img
          txid := (opened.getLast?.map (fun x => x.1.maxTXID)).getD 0 }

/- The loop of `CatchUp` over the listed files. -/
def catchUp (fetch : FileInfo → Except Err (Layer D)) (toTXID : Nat) :
    List FileInfo → Hydrator D → Except Err (Hydrator D)
| [], h => .ok h
| info :: items, h =>
  if toTXID < info.maxTXID then .ok h
  else
    match fetch info with
    | .error err => .error (.wrap "apply ltx to hydrated file" err)
    | .ok file =>
      catchUp fetch toTXID items { h.writePages lib (pagesOf file) with
        txid := info.maxTXID }

section Pages

variable {lib : LtxLibrary D}

theorem readAt_writePages (pages : List (Nat × D))
    (hPages : ∀ p ∈ keys pages, 1 ≤ p) (h : Hydrator D) {p : Nat} (hPos : 1 ≤ p) :
    (h.writePages lib pages).readAt lib p = (pages.lookup p).getD (h.readAt lib p) := by
  induction pages with
  | nil => rfl
  | cons e pages ih =>
    rcases e with ⟨q, d⟩
    have hKey : 1 ≤ q := hPages q List.mem_cons_self
    have hRest := ih (fun k hk => hPages k (List.mem_cons_of_mem q hk))
    have hWrite : (h.writePages lib ((q, d) :: pages)).readAt lib p = if p - 1 = q - 1 then
      d
        else
          (h.writePages lib pages).readAt lib p :=
      PagedFile.getD_writePage lib.zero (q - 1) (p - 1) d _
    rw [hWrite, List.lookup_cons]
    by_cases hSame : p = q
    · rw [if_pos (by omega), beq_iff_eq.mpr hSame]
      rfl
    · rw [if_neg (by omega), beq_eq_false_iff_ne.mpr hSame]
      exact hRest

theorem readAt_truncate (h : Hydrator D) {i n : Nat} (hLeft : i < n) :
    (h.truncate lib n).readAt lib (i + 1) = h.readAt lib (i + 1) := by
  have hPage := PagedFile.getD_resize lib.zero n i h.file
  rw [if_pos hLeft] at hPage
  exact hPage

theorem writePages_fields (pages : List (Nat × D)) (h : Hydrator D) :
    (h.writePages lib pages).complete = h.complete ∧ (h.writePages lib pages).txid = h.txid := by
  induction pages with
  | nil => exact ⟨rfl, rfl⟩
  | cons e pages ih => exact ih

theorem restore_complete {opened : List (FileInfo × Layer D)} {h h' : Hydrator D}
    (hRestore : h.restore lib opened = .ok h') : h'.complete = h.complete := by
  unfold restore at hRestore
  split at hRestore
  · cases hRestore
  split at hRestore
  · cases hRestore
  · split at hRestore
    · cases hRestore
    · rw [← Except.ok.inj hRestore]

theorem catchUp_complete {fetch} {toTXID : Nat} {items h h'}
    (hCatchUp : catchUp lib fetch toTXID items h = .ok h') : h'.complete = h.complete := by
  induction items generalizing h with
  | nil => rw [← Except.ok.inj hCatchUp]
  | cons info items ih =>
    unfold catchUp at hCatchUp
    split at hCatchUp
    · rw [← Except.ok.inj hCatchUp]
    split at hCatchUp
    · cases hCatchUp
    · rw [ih hCatchUp]
      exact (writePages_fields _ h).1

end Pages

end Hydrator

-- The Size Of A File

namespace VFSFile

/- The loop of `FileSize` over the keys of a map. -/
def sizeOver (pageSize : Nat) (pgnos : List Nat) (size : Nat) : Nat :=
  pgnos.foldl (fun size pgno =>
    if size < pgno * pageSize then pgno * pageSize else size)
    size

/- `FileSize` of a file without dirty pages. -/
def fileSize (pageSize : Nat) (f : VFSFile) : Nat :=
  sizeOver pageSize (keys f.pending) (sizeOver pageSize (keys f.index) 0)

theorem sizeOver_keys {α : Type} (pageSize : Nat) (m : List (Nat × α)) (size : Nat) :
    sizeOver pageSize (keys m) size = max size (maxKey m * pageSize) := by
  induction m generalizing size with
  | nil => simp [sizeOver, keys, maxKey]
  | cons e m ih =>
    have hMax : max e.1 (maxKey m) * pageSize = max (e.1 * pageSize) (maxKey m * pageSize) :=
      (Nat.mul_max_mul_right ..).symm
    unfold sizeOver keys at ih ⊢
    rw [List.map_cons, List.foldl_cons, ih]
    simp only [maxKey, hMax]
    split
    · omega
    · omega

theorem fileSize_eq (pageSize : Nat) (f : VFSFile) : f.fileSize pageSize =
    maxKey (f.pending ++ f.index) * pageSize := by
  unfold fileSize
  rw [sizeOver_keys, sizeOver_keys, maxKey_append]
  have hMax : max (maxKey f.pending) (maxKey f.index) * pageSize =
    max (maxKey f.pending * pageSize) (maxKey f.index * pageSize) :=
    (Nat.mul_max_mul_right ..).symm
  omega

end VFSFile

namespace VFSFile

theorem rebuildIndex_writeEnabled {f f' : VFSFile} {fetch : FileInfo → Except Err (Layer D)} {infos}
    (hRebuild : f.rebuildIndex fetch infos = .ok f') : f'.writeEnabled = f.writeEnabled := by
  unfold rebuildIndex at hRebuild
  split at hRebuild
  · cases hRebuild
  · rw [← Except.ok.inj hRebuild]

end VFSFile

-- Connections

/- A `VFSFile` with the fields for reads and writes. -/
structure VFSConn (D : Type) extends VFSFile where
  cacheEntries : Nat
  compactor : Bool
  pendingTXID : Nat
  dirty : List (Nat × D)
  cache : List (Nat × D)
  hydrator : Option (Hydrator D)
  targetTime : Option Int
  deriving DecidableEq, Repr

namespace VFSConn

/- A file before it is opened. -/
def new (writeEnabled : Bool) : VFSConn D where
  toVFSFile := VFSFile.new writeEnabled
  cacheEntries := 0
  compactor := false
  pendingTXID := 0
  dirty := []
  cache := []
  hydrator := none
  targetTime := none

/- The hydrator, once its file can be read. -/
def hydrated (c : VFSConn D) : Option (Hydrator D) :=
  c.hydrator.filter Hydrator.complete

/- The dirty page that a read finds first. -/
def dirtyPage (pgno : Nat) (c : VFSConn D) : Option D :=
  if c.writeEnabled then c.dirty.lookup pgno else none

section Pages

variable (lib : LtxLibrary D) (fetch : PageElem → Nat → Except Err D)

/- `ReadAt` in one page. -/
def readAt (pgno : Nat) (c : VFSConn D) : Except Err (D × VFSConn D) :=
  match c.dirtyPage pgno with
  | some d => .ok (d, c)
  | none =>
    match c.hydrated with
    | some h => .ok (h.readAt lib pgno, c)
    | none =>
      match c.cache.lookup pgno with
      | some d => .ok (d, c)
      | none =>
        match c.index.lookup pgno with
        | none => if c.writeEnabled then .ok (lib.zero, c) else .error (.text "page not found")
        | some elem =>
          match fetch elem pgno with
          | .error err => .error (.wrap "fetch page" err)
          | .ok d =>
            .ok (d, { c with
              cache := (pgno, d) :: c.cache })

/- `readPageForWrite`, with a zero page where it fails. -/
def readPageForWrite (pgno : Nat) (c : VFSConn D) : D × VFSConn D :=
  match c.cache.lookup pgno with
  | some d => (d, c)
  | none =>
    match c.index.lookup pgno with
    | none => (lib.zero, c)
    | some elem =>
      match fetch elem pgno with
      | .error _ => (lib.zero, c)
      | .ok d => (d, { c with cache := (pgno, d) :: c.cache })

/- The page that a write changes. -/
def pageForWrite (pgno : Nat) (c : VFSConn D) : D × VFSConn D :=
  match c.dirty.lookup pgno with
  | some d => (d, c)
  | none => c.readPageForWrite lib fetch pgno

/- `WriteAt` in one page. -/
def writeAt (pgno : Nat) (patch : D → D) (c : VFSConn D) : Except Err (VFSConn D) :=
  if pgno = lib.lockPgno then .error (.text "cannot write to lock page")
  else if c.writeEnabled = false then .error (.text "attempt to write a readonly database")
  else
    let old := c.pageForWrite lib fetch pgno
    .ok { old.2 with
      commit := max old.2.commit pgno
      dirty := (pgno, patch old.1) :: old.2.dirty }

/- `Truncate`, to a number of pages. -/
def truncate (newCommit : Nat) (c : VFSConn D) : Except Err (VFSConn D) :=
  if c.writeEnabled = false then .error (.text "attempt to write a readonly database")
  else
    .ok { c with
      dirty := restrict (fun pgno => decide (pgno ≤ newCommit)) c.dirty
      commit := newCommit
      hydrator :=
        c.hydrator.map (fun (h : Hydrator D) =>
          if h.complete then h.truncate lib newCommit else h) }

variable {lib : LtxLibrary D} {fetch : PageElem → Nat → Except Err D} {c c' : VFSConn D}

theorem readPageForWrite_spec (pgno : Nat) : ∃ cache,
    (c.readPageForWrite lib fetch pgno).2 = { c with cache := cache } := by
  unfold readPageForWrite
  split
  · exact ⟨c.cache, rfl⟩
  split
  · exact ⟨c.cache, rfl⟩
  · split
    · exact ⟨c.cache, rfl⟩
    · exact ⟨_, rfl⟩

theorem pageForWrite_spec (pgno : Nat) : ∃ cache,
    (c.pageForWrite lib fetch pgno).2 = { c with cache := cache } := by
  unfold pageForWrite
  split
  · exact ⟨c.cache, rfl⟩
  · exact readPageForWrite_spec pgno

theorem writeAt_spec {pgno : Nat} {patch} (hWrite : c.writeAt lib fetch pgno patch = .ok c') :
    pgno ≠ lib.lockPgno ∧ c.writeEnabled = true ∧ c' = { c with
      cache := (c.pageForWrite lib fetch pgno).2.cache
      commit := max c.commit pgno
      dirty := (pgno, patch (c.pageForWrite lib fetch pgno).1) :: c.dirty } := by
  unfold writeAt at hWrite
  split at hWrite
  · cases hWrite
  rename_i hLock
  split at hWrite
  · cases hWrite
  rename_i hEnabled
  refine ⟨hLock, by simpa using hEnabled, ?_⟩
  rw [← Except.ok.inj hWrite]
  rcases @pageForWrite_spec D lib fetch c pgno with ⟨cache, hSpec⟩
  rw [hSpec]

theorem truncate_spec {newCommit : Nat} (hTruncate : c.truncate lib newCommit = .ok c') :
    c.writeEnabled = true ∧ c' = { c with
      dirty := restrict (fun pgno => decide (pgno ≤ newCommit)) c.dirty
      commit := newCommit
      hydrator :=
        c.hydrator.map (fun (h : Hydrator D) =>
          if h.complete then h.truncate lib newCommit else h) } := by
  unfold truncate at hTruncate
  split at hTruncate
  · cases hTruncate
  · rename_i hEnabled
    exact ⟨by simpa using hEnabled, (Except.ok.inj hTruncate).symm⟩

theorem readAt_spec {pgno : Nat} {d : D} (hRead : c.readAt lib fetch pgno = .ok (d, c')) :
    ∃ cache, c' = { c with cache := cache } := by
  have hSame : ∀ {d' : D}, (.ok (d', c) : Except Err (D × VFSConn D)) = .ok (d, c') →
    ∃ cache, c' = { c with cache := cache } := by
    intro d' hEq
    rw [Except.ok.injEq, Prod.mk.injEq] at hEq
    exact ⟨c.cache, hEq.2.symm⟩
  unfold readAt at hRead
  split at hRead
  · exact hSame hRead
  split at hRead
  · exact hSame hRead
  split at hRead
  · exact hSame hRead
  · split at hRead
    · split at hRead
      · exact hSame hRead
      · cases hRead
    · split at hRead
      · cases hRead
      · rw [Except.ok.injEq, Prod.mk.injEq] at hRead
        exact ⟨_, hRead.2.symm⟩

end Pages

def fileSize (pageSize : Nat) (c : VFSConn D) : Nat :=
  VFSFile.sizeOver pageSize (keys c.dirty) (c.toVFSFile.fileSize pageSize)

theorem fileSize_eq (pageSize : Nat) (c : VFSConn D) : c.fileSize pageSize =
    max (maxKey c.dirty) (maxKey (c.pending ++ c.index)) * pageSize := by
  have hMax : max (maxKey c.dirty) (maxKey (c.pending ++ c.index)) * pageSize =
    max (maxKey c.dirty * pageSize) (maxKey (c.pending ++ c.index) * pageSize) :=
    (Nat.mul_max_mul_right ..).symm
  unfold fileSize
  rw [VFSFile.sizeOver_keys, VFSFile.fileSize_eq, hMax]
  omega

/- Remove a page from the cache. -/
def evict (pgno : Nat) (c : VFSConn D) : VFSConn D :=
  { c with
    cache := restrict (fun p => decide (p ≠ pgno)) c.cache }

-- Locks And Polls

def lock (vfs : Option SharedVFS) (elock : LockType) (c : VFSConn D) : Except Err (VFSConn D) :=
  if elock.rank < c.lockType.rank then .error (.text "invalid lock downgrade")
  else if LockType.reserved.rank ≤ elock.rank ∧ c.writeEnabled = false then
    .error (.text "attempt to write a readonly database")
  else if c.writeEnabled ∧ LockType.reserved.rank ≤ elock.rank ∧ c.inTransaction = false then
    match vfs with
    | some shared =>
      if shared.writtenByOther then .error (.text "database is locked")
      else if c.expectedTXID < shared.lastSyncedTXID ∧ c.dirty.isEmpty then
        .ok { c with
          expectedTXID := shared.lastSyncedTXID
          pendingTXID := TXID.next shared.lastSyncedTXID
          pos := shared.lastSyncedTXID
          inTransaction := true
          lockType := elock }
      else
        .ok { c with
          inTransaction := true
          lockType := elock }
    | none => .ok { c with inTransaction := true, lockType := elock }
  else .ok { c with lockType := elock }

/- `Unlock`, with the cache entries it invalidates. -/
def unlock (elock : LockType) (c : VFSConn D) : Except Err (VFSConn D) :=
  match c.toVFSFile.unlock elock with
  | .error err => .error err
  | .ok f =>
    .ok { c with
      toVFSFile := f
      cache :=
        if c.pendingReplace then [] else restrict (fun p => (c.pending.lookup p).isNone) c.cache }

/- What a lock does: no read depends on what it changes. -/
theorem lock_spec {c c' : VFSConn D} {vfs : Option SharedVFS} {elock : LockType}
    (hLock : c.lock vfs elock = .ok c') :
    c.lockType.rank ≤ elock.rank ∧ (LockType.reserved.rank ≤ elock.rank → c.writeEnabled = true) ∧
      ∃ pos expectedTXID pendingTXID inTransaction, c' = { c with
        pos := pos
        expectedTXID := expectedTXID
        pendingTXID := pendingTXID
        inTransaction := inTransaction
        lockType := elock } ∧
          (pos = c.pos ∨ ∃ shared, vfs = some shared ∧ LockType.reserved.rank ≤ elock.rank ∧
            c.expectedTXID < shared.lastSyncedTXID ∧
            pos = shared.lastSyncedTXID) := by
  unfold lock at hLock
  split at hLock
  · cases hLock
  rename_i hUp
  refine ⟨by omega, ?_⟩
  split at hLock
  · cases hLock
  rename_i hReadOnly
  refine ⟨?_, ?_⟩
  · intro hHigh
    by_contra hDisabled
    exact hReadOnly ⟨hHigh, by simpa using hDisabled⟩
  · split at hLock
    · rename_i hWrite
      split at hLock
      · rename_i shared
        split at hLock
        · cases hLock
        split at hLock
        · rename_i hAhead
          exact ⟨_, _, _, _, (Except.ok.inj hLock).symm,
            Or.inr ⟨shared, rfl, hWrite.2.1, hAhead.1, rfl⟩⟩
        · exact ⟨_, _, _, _, (Except.ok.inj hLock).symm, Or.inl rfl⟩
      · exact ⟨_, _, _, _, (Except.ok.inj hLock).symm, Or.inl rfl⟩
    · exact ⟨_, _, _, _, (Except.ok.inj hLock).symm, Or.inl rfl⟩

theorem unlock_spec {c c' : VFSConn D} {elock : LockType} (hUnlock : c.unlock elock = .ok c') :
    (elock = .shared ∨ elock = .none) ∧ c' = { c with
      inTransaction := false
      lockType := elock
      index := if c.pendingReplace then c.pending else c.pending ++ c.index
      pending := []
      pendingReplace := false
      cache :=
        if c.pendingReplace then []
        else restrict (fun p => (c.pending.lookup p).isNone) c.cache } := by
  unfold unlock VFSFile.unlock at hUnlock
  split at hUnlock
  · cases hUnlock
  rename_i f hFile
  split at hFile
  · cases hFile
  · rename_i hTarget
    refine ⟨by simpa [or_iff_not_imp_left] using hTarget, ?_⟩
    rw [← Except.ok.inj hUnlock, ← Except.ok.inj hFile]

/- The end of `pollReplicaClient`. -/
def applyPoll (lib : LtxLibrary D) (fetch : PageElem → Nat → Except Err D)
    (polled : PolledL1) (c : VFSConn D) : VFSConn D :=
  if c.targetTime.isSome then c
  else
    { c with
      toVFSFile := c.toVFSFile.applyPoll polled
      cache :=
        if LockType.shared.rank ≤ c.lockType.rank then c.cache
        else restrict (fun p => (polled.combined.lookup p).isNone) c.cache
      hydrator :=
        c.hydrator.map (fun (h : Hydrator D) =>
          if h.complete then h.applyUpdates lib fetch polled.combined else h) }

-- Time Travel

def rebuildIndex (fetch : FileInfo → Except Err (Layer D))
    (infos : List FileInfo) (target : Option Int) (c : VFSConn D) : Except Err (VFSConn D) :=
  match c.toVFSFile.rebuildIndex fetch infos with
  | .error err => .error err
  | .ok f =>
    .ok { c with
      toVFSFile := f
      cache := []
      targetTime := target }

/-
  `SetTargetTime`, for the plan of the target time. It
  disables the hydrated file even if it fails afterwards.
-/
def setTargetTime (timestamp : Int) (plan : Except Err (List FileInfo))
    (fetch : FileInfo → Except Err (Layer D)) (c : VFSConn D) : Except Err Unit × VFSConn D :=
  if timestamp = 0 then (.error (.text "target time required"), c)
  else
    match plan with
    | .error err => (.error (.wrap "cannot calc restore plan" err), c)
    | .ok [] => (.error (.text "no backup files available"), c)
    | .ok (info :: infos) =>
      let disabled := { c with
        hydrator :=
          c.hydrator.map (fun (h : Hydrator D) => { h with complete := false }) }
      match disabled.rebuildIndex fetch (info :: infos) (some timestamp) with
      | .error err => (.error err, disabled)
      | .ok c' => (.ok (), c')

/- `ResetTime`, for the latest plan. -/
def resetTime (plan : Except Err (List FileInfo)) (fetch : FileInfo → Except Err (Layer D))
    (c : VFSConn D) : Except Err (VFSConn D) :=
  match plan with
  | .error err => .error (.wrap "cannot calc restore plan" err)
  | .ok [] => .error (.text "no backup files available")
  | .ok (info :: infos) => c.rebuildIndex fetch (info :: infos) none

section TimeTravel

variable {fetch : FileInfo → Except Err (Layer D)} {plan : Except Err (List FileInfo)}
variable {c c' : VFSConn D}

/- The file with its hydrated file out of use. -/
def disabled (c : VFSConn D) : VFSConn D :=
  { c with
    hydrator :=
      c.hydrator.map (fun (h : Hydrator D) => { h with complete := false }) }

theorem hydrated_disabled (c : VFSConn D) : c.disabled.hydrated = none := by
  unfold disabled hydrated
  cases c.hydrator with
  | none | some => rfl

theorem rebuildIndex_spec {infos target} (hRebuild : c.rebuildIndex fetch infos target = .ok c') :
    ∃ f, c.toVFSFile.rebuildIndex fetch infos = .ok f ∧ c' = { c with
      toVFSFile := f
      cache := []
      targetTime := target } := by
  unfold rebuildIndex at hRebuild
  split at hRebuild
  · cases hRebuild
  · rename_i f hFile
    exact ⟨f, hFile, (Except.ok.inj hRebuild).symm⟩

theorem setTargetTime_spec (timestamp : Int) (plan : Except Err (List FileInfo))
    (fetch : FileInfo → Except Err (Layer D)) (c : VFSConn D) :
    ((∃ err, (c.setTargetTime timestamp plan fetch).1 = .error err) ∧
      ((c.setTargetTime timestamp plan fetch).2 = c ∨
        (c.setTargetTime timestamp plan fetch).2 = c.disabled)) ∨
      ∃ infos f, plan = .ok infos ∧ infos ≠ [] ∧ c.toVFSFile.rebuildIndex fetch infos = .ok f ∧
        c.setTargetTime timestamp plan fetch = (.ok (), { c.disabled with
          toVFSFile := f
          cache := []
          targetTime := some timestamp }) := by
  unfold setTargetTime
  split
  · exact Or.inl ⟨⟨_, rfl⟩, Or.inl rfl⟩
  split
  · exact Or.inl ⟨⟨_, rfl⟩, Or.inl rfl⟩
  · exact Or.inl ⟨⟨_, rfl⟩, Or.inl rfl⟩
  rename_i info infos
  dsimp only
  split
  · exact Or.inl ⟨⟨_, rfl⟩, Or.inr rfl⟩
  · rename_i c' hRebuild
    rcases rebuildIndex_spec hRebuild with ⟨f, hFile, rfl⟩
    exact Or.inr ⟨_, f, rfl, by simp, hFile, rfl⟩

theorem setTargetTime_hydrated {timestamp : Int} {plan : Except Err (List FileInfo)} {fetch}
    {c : VFSConn D} : (c.setTargetTime timestamp plan fetch).2 = c ∨
      (c.setTargetTime timestamp plan fetch).2.hydrated = none := by
  rcases setTargetTime_spec timestamp plan fetch c with ⟨_, hSame | hOff⟩ | ⟨_, _, _, _, _, hEq⟩
  · exact Or.inl hSame
  · rw [hOff]
    exact Or.inr (hydrated_disabled c)
  · rw [hEq]
    exact Or.inr (hydrated_disabled c)

theorem resetTime_spec (hReset : c.resetTime plan fetch = .ok c') :
    ∃ infos f, plan = .ok infos ∧ infos ≠ [] ∧ c.toVFSFile.rebuildIndex fetch infos = .ok f ∧
      c' = { c with
        toVFSFile := f
        cache := []
        targetTime := none } := by
  unfold resetTime at hReset
  split at hReset
  · cases hReset
  · cases hReset
  · rename_i info infos
    rcases rebuildIndex_spec hReset with ⟨f, hFile, hEq⟩
    exact ⟨_, f, rfl, by simp, hFile, hEq⟩

end TimeTravel

variable {items : List FileInfo} {c c' : VFSConn D}

-- Syncing

/- The greatest TXID among the listed files. -/
def remoteTXID (items : List FileInfo) : Nat :=
  items.foldl (fun txID info =>
    if txID < info.maxTXID then info.maxTXID else txID)
    0

/- `checkForConflict`, for what the client listed. -/
def checkForConflict (items : List FileInfo) (c : VFSConn D) : Except Err Unit :=
  if c.expectedTXID < remoteTXID items then .error (.wrap "conflict detected" (.sentinel .conflict))
  else .ok ()

theorem checkForConflict_ok (hItems : ∀ info ∈ items, info.maxTXID ≤ c.expectedTXID) :
    c.checkForConflict items = .ok () := by
  have hGreatest : remoteTXID items = 0 ∨ ∃ info ∈ items, remoteTXID items = info.maxTXID := by
    refine Traversal.foldl_eq_or_mem ?_ 0 items
    intro txID info
    split
    · exact Or.inr rfl
    · exact Or.inl rfl
  refine if_neg ?_
  rcases hGreatest with hZero | ⟨info, hMem, hEq⟩
  · omega
  · have hLe := hItems info hMem
    omega

def createLTXFromDirty (lib : LtxLibrary D) (c : VFSConn D) : Layer D where
  commit := c.commit
  page p :=
    if p = lib.lockPgno then none else c.dirty.lookup p

/-
  The state update of a sync, after its upload, with the
  pages that leave the cache while the synced ones are put
  into it.
-/
def afterUpload (lib : LtxLibrary D) (evicted : List Nat) (c : VFSConn D) : VFSConn D :=
  { c with
    expectedTXID := c.pendingTXID
    pendingTXID := TXID.next c.pendingTXID
    pos := c.pendingTXID
    cache := restrict (fun p => decide (p ∉ evicted)) (c.dirty ++ c.cache)
    hydrator :=
      c.hydrator.map (fun (h : Hydrator D) =>
        if h.complete then
          { h.writePages lib c.dirty with
            txid := c.pendingTXID }
        else h)
    dirty := [] }

/- The cache has room for all dirty pages. -/
def DirtyFits (c : VFSConn D) : Prop :=
  (keys c.dirty).dedup.length ≤ c.cacheEntries

/-
  The cache evicts the page that was not used for longest,
  so that it keeps the pages of a sync if it has room for
  them.
-/
def Evicts (evicted : List Nat) (c : VFSConn D) : Prop :=
  c.DirtyFits → ∀ p ∈ evicted, p ∉ keys c.dirty

/-
  `syncToRemoteWithLock` of a file with dirty pages, for
  what the conflict check listed and the cache evicts: what
  it uploads, and the file after it.
-/
def syncToRemoteWithLock (lib : LtxLibrary D) (items : List FileInfo) (evicted : List Nat)
    (c : VFSConn D) : Except Err (Layer D × VFSConn D) :=
  match c.checkForConflict items with
  | .error err => .error err
  | .ok () => .ok (c.createLTXFromDirty lib, c.afterUpload lib evicted)

theorem syncToRemoteWithLock_spec {lib evicted file}
    (hSync : c.syncToRemoteWithLock lib items evicted = .ok (file, c')) :
    remoteTXID items ≤ c.expectedTXID ∧ file = c.createLTXFromDirty lib ∧
      c' = c.afterUpload lib evicted := by
  unfold syncToRemoteWithLock at hSync
  split at hSync
  · cases hSync
  rename_i hCheck
  rcases Prod.mk.inj (Except.ok.inj hSync) with ⟨hFile, hAfter⟩
  refine ⟨?_, hFile.symm, hAfter.symm⟩
  unfold checkForConflict at hCheck
  split at hCheck
  · cases hCheck
  · omega

/- `Sync` gets to the upload. -/
def syncs (c : VFSConn D) : Bool :=
  c.writeEnabled && !c.dirty.isEmpty && !c.inTransaction

/-
  `SetWriteEnabled(true)` of a file without write support.
  The counters are set only if they never were.
-/
def enableWrites (c : VFSConn D) : VFSConn D :=
  if c.pendingTXID = 0 then
    { c with
      expectedTXID := c.pos
      pendingTXID := TXID.next c.pos
      writeEnabled := true }
  else { c with writeEnabled := true }

theorem enableWrites_spec (c : VFSConn D) : ∃ expectedTXID pendingTXID, c.enableWrites = { c with
    expectedTXID := expectedTXID
    pendingTXID := pendingTXID
    writeEnabled := true } := by
  unfold enableWrites
  split
  · exact ⟨_, _, rfl⟩
  · exact ⟨c.expectedTXID, c.pendingTXID, rfl⟩

/- The end of `SetWriteEnabled(false)`, after its sync. -/
def disableWrites (c : VFSConn D) : VFSConn D :=
  { c with writeEnabled := false }

-- Opening

end VFSConn

/-
  The settings that a file takes from its `VFS`: the size of
  the cache, in pages, and whether a file with write support
  gets a compactor.
-/
structure VFSConfig where
  cacheEntries : Nat
  compactionEnabled : Bool

namespace VFSConn

variable {c c' : VFSConn D}

/- `Open`, once there is a plan. -/
def openPlanned (fetch : FileInfo → Except Err (Layer D))
    (infos : List FileInfo) (hydrator : Option (Hydrator D)) (cfg : VFSConfig)
    (c : VFSConn D) : Except Err (VFSConn D) :=
  match c.toVFSFile.openPlanned fetch infos with
  | .error err => .error err
  | .ok f =>
    .ok { c with
      toVFSFile := f
      cacheEntries := cfg.cacheEntries
      compactor := c.writeEnabled && cfg.compactionEnabled
      pendingTXID := if c.writeEnabled then TXID.next f.pos else c.pendingTXID
      cache := []
      hydrator := hydrator }

theorem openPlanned_spec {fetch infos hydrator cfg}
    (hOpen : c.openPlanned fetch infos hydrator cfg = .ok c') :
    ∃ f pendingTXID, c.toVFSFile.openPlanned fetch infos = .ok f ∧ c' = { c with
      toVFSFile := f
      cacheEntries := cfg.cacheEntries
      compactor := c.writeEnabled && cfg.compactionEnabled
      pendingTXID := pendingTXID
      cache := []
      hydrator := hydrator } := by
  unfold openPlanned at hOpen
  split at hOpen
  · cases hOpen
  · rename_i f hFile
    exact ⟨f, _, hFile, (Except.ok.inj hOpen).symm⟩

def openNewDatabase (cfg : VFSConfig) (c : VFSConn D) : VFSConn D :=
  { c with
    toVFSFile := c.toVFSFile.openNewDatabase
    cacheEntries := cfg.cacheEntries
    compactor := c.writeEnabled && cfg.compactionEnabled
    pendingTXID := 1
    cache := [] }

-- Snapshots

/- The loop of `Snapshot` over the page numbers. -/
def fetchPages (fetch : PageElem → Nat → Except Err D) (pages : PageMap) :
    List Nat → Except Err (List (Nat × D))
| [] => .ok []
| pgno :: pgnos =>
  match pages.lookup pgno with
  | none => fetchPages fetch pages pgnos
  | some elem =>
    match fetch elem pgno with
    | .error err => .error (.wrap "fetch page" err)
    | .ok d =>
      match fetchPages fetch pages pgnos with
      | .error err => .error err
      | .ok rest => .ok ((pgno, d) :: rest)

/-
  `Snapshot`: the label's last transaction and the file. The
  compactor stays when writes are disabled.
-/
def snapshot (fetch : PageElem → Nat → Except Err D)
    (c : VFSConn D) : Except Err (Nat × Layer D) :=
  if c.compactor = false then .error (.text "compaction not enabled")
  else
    match fetchPages fetch c.index (keys c.index) with
    | .error err => .error err
    | .ok pages => .ok (c.pos, ⟨c.commit, fun p => pages.lookup p⟩)

end VFSConn

end Replicate
