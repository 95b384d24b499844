import Replicate.VFS.Connection

/-
  The runs of one `VFSFile`.

  Everything that can happen to a file is a step: its own
  reads, writes, locks and syncs, the parts of a poll, time
  travel, the phases of `runHydration`, and changes of the
  replica by others. `ReadAt` is one step, since SQLite
  reads only under a lock, where polls leave the index and
  the cache alone. Page numbers are taken from offsets and
  start with one.

  What the others do to the replica is a parameter. An
  upload of the file's own is one of the changes that it
  allows, too.

  Main declarations:
    * `VFSConn.readAt_sees`
-/

-- States

namespace Replicate

open Hydrator VFSConn PageHistory List Option

variable {D : Type}

/-
  How far `runHydration` has come: started with a plan, with
  the two positions read, with a base image, and with the
  later transactions. Completed means that the cache is not
  cleared yet.
-/
inductive HydrationPhase where
  | idle
  | launched (infos : List FileInfo)
  | started (infos : List FileInfo) (hydrationTXID currentTXID : Nat)
  | restored (hydrationTXID currentTXID : Nat)
  | caughtUp (currentTXID : Nat)
  | completed
  deriving DecidableEq, Repr

/- The goroutine has not marked the file complete yet. -/
def HydrationPhase.running : HydrationPhase → Bool
| .idle => false
| .completed => false
| _ => true

/-
  The replica, the file, the poll and the hydration that are
  going on, and a hydration file that was left behind.
-/
structure ConnState (D : Type) where
  replica : Published D
  conn : VFSConn D
  phase : PollPhase
  hydration : HydrationPhase
  saved : Option (List D × Nat)

/- The kinds of steps. -/
inductive ConnOp (D : Type) where
  | change (compacted : Option FileInfo)
  | openFile
  | poll
  | apply (polled : PolledL1) (pageErr : PageElem → Nat → Option Err)
  | lock (vfs : Option SharedVFS) (elock : LockType)
  | unlock (elock : LockType)
  | readAt (pgno : Nat)
  | writeAt (pgno : Nat) (patch : D → D) (pageErr : PageElem → Nat → Option Err)
  | truncate (newCommit : Nat)
  | evict (pgno : Nat)
  | sync (evicted : List Nat)
  | setWriteEnabled (enabled : Bool)
  | setTargetTime (timestamp : Int)
  | resetTime
  | hydrate
  | catchUp (fault : ListFault)
  | complete
  | purge
  | close

namespace ConnState

def start (r : Published D) (writeEnabled : Bool) : ConnState D where
  replica := r
  conn := new writeEnabled
  phase := .closed
  hydration := .idle
  saved := none

/- A plan from the replica's listings. -/
def Plans (r : Published D) (timestamp : Int) (plan : Except Err (List FileInfo)) : Prop :=
  ∃ faults : Nat → ListFault, calcRestorePlan
    (fun level => ltxFiles r.content (faults level) level 0)
    0 timestamp = plan

/- What a hydrator can start with. -/
def Hydrates (saved : Option (List D × Nat)) (hydrator : Option (Hydrator D)) : Prop :=
  hydrator = none ∨ hydrator = some (new [] 0) ∨ ∃ file txid, saved = some (file, txid) ∧
    hydrator = some (new file txid)

-- Steps

variable (lib : LtxLibrary D) (env : Published D → Option FileInfo → Published D → Prop)

/-
  Calls that fail and change nothing are left out. A poll
  that fails changes its phase, and a failing hydration can
  leave anything in its file. A file whose writes are
  disabled has synced its dirty pages in a step of its own.
  The next file need not have the same settings.
-/
inductive Step : ConnState D → ConnOp D → ConnState D → Prop where
  | change {s compacted r} (hEnv : env s.replica compacted r) :
    Step s (.change compacted) { s with replica := r }
  | openFile {s fetchErr infos hydrator c cfg} (hPhase : s.phase = .closed)
    (hPlan : Plans s.replica 0 (.ok infos)) (hHydrator : Hydrates s.saved hydrator)
    (hOpen : s.conn.openPlanned (s.replica.fetch fetchErr) infos hydrator cfg = .ok c)
    (hCache : 1 ≤ cfg.cacheEntries) :
    Step s .openFile { s with
      conn := c
      phase := .idle
      hydration := if hydrator.isSome then .launched infos else .idle }
  | openNew {s err cfg} (hPhase : s.phase = .closed) (hPlan : Plans s.replica 0 (.error err))
    (hNone : err.is .txNotAvailable = true) (hWrite : s.conn.writeEnabled = true)
    (hCache : 1 ≤ cfg.cacheEntries) :
    Step s .openFile { s with
      conn := s.conn.openNewDatabase cfg
      phase := .idle }
  | pollL0 {s penv polled} (hPhase : s.phase = .idle)
    (hPoll : s.conn.toVFSFile.pollL0 s.replica penv = .ok polled) :
    Step s .poll { s with phase := .polledL0 polled }
  | pollL1 {s penv polled polled1} (hPhase : s.phase = .polledL0 polled)
    (hPoll : polled.pollL1 s.replica penv = .ok polled1) :
    Step s .poll { s with phase := .polledL1 polled1 }
  | abandon {s} (hPhase : s.phase ≠ .closed) : Step s .poll { s with phase := .idle }
  | apply {s polled pageErr} (hPhase : s.phase = .polledL1 polled) :
    Step s (.apply polled pageErr) { s with
      conn := s.conn.applyPoll lib (s.replica.fetchPage pageErr) polled
      phase := .idle }
  | lock {s vfs elock c} (hPhase : s.phase ≠ .closed) (hLock : s.conn.lock vfs elock = .ok c) :
    Step s (.lock vfs elock) { s with conn := c }
  | unlock {s elock c} (hPhase : s.phase ≠ .closed) (hUnlock : s.conn.unlock elock = .ok c) :
    Step s (.unlock elock) { s with conn := c }
  | readAt {s pageErr pgno d c} (hPhase : s.phase ≠ .closed) (hPage : 1 ≤ pgno)
    (hRead : s.conn.readAt lib (s.replica.fetchPage pageErr) pgno = .ok (d, c)) :
    Step s (.readAt pgno) { s with conn := c }
  | writeAt {s pageErr pgno patch c} (hPhase : s.phase ≠ .closed) (hPage : 1 ≤ pgno)
    (hWrite : s.conn.writeAt lib (s.replica.fetchPage pageErr) pgno patch = .ok c) :
    Step s (.writeAt pgno patch pageErr) { s with conn := c }
  | truncate {s newCommit c} (hPhase : s.phase ≠ .closed)
    (hTruncate : s.conn.truncate lib newCommit = .ok c) :
    Step s (.truncate newCommit) { s with conn := c }
  | evict {s pgno} (hPhase : s.phase ≠ .closed) :
    Step s (.evict pgno) { s with conn := s.conn.evict pgno }
  | sync {s fault itr info file c evicted} (hPhase : s.phase ≠ .closed)
    (hSyncs : s.conn.syncs = true)
    (hList : ltxFiles s.replica.content fault 0 s.conn.expectedTXID = .ok itr)
    (hSync : s.conn.syncToRemoteWithLock lib itr.items evicted = .ok (file, c))
    (hLevel : info.level = 0)
    (hMin : info.minTXID = s.conn.pendingTXID) (hMax : info.maxTXID = s.conn.pendingTXID)
    (hEnv : env s.replica none { s.replica.append 0 (info, file) with
      uploaded := s.conn.pendingTXID }) (hEvicts : s.conn.Evicts evicted) :
    Step s (.sync evicted) { s with
      replica :=
        { s.replica.append 0 (info, file) with
          uploaded := s.conn.pendingTXID }
      conn := c }
  | enable {s} (hPhase : s.phase ≠ .closed) (hOff : s.conn.writeEnabled = false) :
    Step s (.setWriteEnabled true) { s with conn := s.conn.enableWrites }
  | disable {s} (hPhase : s.phase ≠ .closed) (hOn : s.conn.writeEnabled = true)
    (hIdle : s.conn.inTransaction = false) (hClean : s.conn.dirty = []) :
    Step s (.setWriteEnabled false) { s with conn := s.conn.disableWrites }
  | setTargetTime {s fetchErr timestamp plan} (hPhase : s.phase ≠ .closed)
    (hPlan : Plans s.replica timestamp plan) :
    Step s (.setTargetTime timestamp) { s with
      conn := (s.conn.setTargetTime timestamp plan (s.replica.fetch fetchErr)).2 }
  | resetTime {s fetchErr plan c} (hPhase : s.phase ≠ .closed) (hPlan : Plans s.replica 0 plan)
    (hReset : s.conn.resetTime plan (s.replica.fetch fetchErr) = .ok c) :
    Step s .resetTime { s with conn := c }
  | hydrateStart {s infos h} (hHydration : s.hydration = .launched infos)
    (hHydrator : s.conn.hydrator = some h) :
    Step s .hydrate { s with
      hydration := .started infos h.txid s.conn.pos }
  | hydrateResume {s infos hydrationTXID currentTXID}
    (hHydration : s.hydration = .started infos hydrationTXID currentTXID)
    (hResume : 0 < hydrationTXID ∧ hydrationTXID ≤ currentTXID) :
    Step s .hydrate { s with
      hydration := .restored hydrationTXID currentTXID }
  | hydrateRestore {s fetchErr infos hydrationTXID currentTXID files h h'}
    (hHydration : s.hydration = .started infos hydrationTXID currentTXID)
    (hFresh : ¬ (0 < hydrationTXID ∧ hydrationTXID ≤ currentTXID))
    (hHydrator : s.conn.hydrator = some h)
    (hFetch : infos.mapM (s.replica.fetch fetchErr) = .ok files)
    (hRestore : h.restore lib (infos.zip files) = .ok h') :
    Step s .hydrate { s with
      conn := { s.conn with hydrator := some h' }
      hydration := .restored h'.txid currentTXID }
  | hydrateCatchUp {s fetchErr fault hydrationTXID currentTXID itr h h'}
    (hHydration : s.hydration = .restored hydrationTXID currentTXID)
    (hBehind : hydrationTXID < currentTXID) (hHydrator : s.conn.hydrator = some h)
    (hList : ltxFiles s.replica.content fault 0 (TXID.next hydrationTXID) = .ok itr)
    (hCatchUp : Hydrator.catchUp lib (s.replica.fetch fetchErr)
      currentTXID itr.items h = .ok h') :
    Step s (.catchUp fault) { s with
      conn := { s.conn with hydrator := some h' }
      hydration := .caughtUp currentTXID }
  | hydrateReady {s hydrationTXID currentTXID}
    (hHydration : s.hydration = .restored hydrationTXID currentTXID)
    (hReady : currentTXID ≤ hydrationTXID) :
    Step s .hydrate { s with hydration := .caughtUp currentTXID }
  | hydrateFail {s h} (file : List D) (txid : Nat) (hRunning : s.hydration.running = true)
    (hHydrator : s.conn.hydrator = some h) :
    Step s .hydrate { s with
      conn :=
        { s.conn with
          hydrator := some { h with file := file, txid := txid } }
      hydration := .idle }
  | complete {s currentTXID h} (hHydration : s.hydration = .caughtUp currentTXID)
    (hHydrator : s.conn.hydrator = some h) :
    Step s .complete { s with
      conn :=
        { s.conn with
          hydrator := some { h with complete := true } }
      hydration := .completed }
  | purge {s} (hHydration : s.hydration = .completed) : Step s .purge { s with
    conn := { s.conn with cache := [] }
    hydration := .idle }
  | close {s saved writeEnabled} (hPhase : s.phase ≠ .closed) (hIdle : s.hydration.running = false)
    (hSaved : saved = none ∨ ∃ h, s.conn.hydrator = some h ∧ 0 < h.txid ∧
      saved = some (h.file, h.txid)) :
    Step s .close ⟨s.replica, new writeEnabled, .closed, .idle, saved⟩

/-
  A run in which every step meets a condition on the state
  before it.
-/
def Run (allowed : ConnState D → ConnOp D → Prop) : ConnState D → ConnState D → Prop :=
  Relation.ReflTransGen (fun s s' => ∃ op, allowed s op ∧ Step lib env s op s')

variable {lib env}

theorem Run.step {allowed s₀ s s' op} (hRun : Run lib env allowed s₀ s)
    (hStep : Step lib env s op s') (hAllowed : allowed s op) : Run lib env allowed s₀ s' :=
  hRun.tail ⟨op, hAllowed, hStep⟩

end ConnState

-- What A Read Finds

/- The stored files are those that their names stand for. -/
def Published.Holds (files : PageElem → Layer D) (r : Published D) : Prop :=
  ∀ level, ∀ obj ∈ r.objects level, obj.2 = files ⟨level, obj.1.minTXID, obj.1.maxTXID⟩

theorem Published.Holds.fetchPage {files : PageElem → Layer D} {r : Published D}
    (hHolds : r.Holds files) {pageErr : PageElem → Nat → Option Err} {e : PageElem} {pgno : Nat}
    {d : D} (hFetch : r.fetchPage pageErr e pgno = .ok d) : (files e).page pgno = some d := by
  unfold Published.fetchPage at hFetch
  split at hFetch
  · cases hFetch
  split at hFetch
  · cases hFetch
  rename_i obj hFind
  split at hFetch
  · cases hFetch
  rename_i d' hPage
  have hFound := find?_some hFind
  rw [decide_eq_true_eq] at hFound
  have hFile := hHolds e.level obj (mem_of_find?_eq_some hFind)
  rw [hFound.1, hFound.2] at hFile
  rw [← hFile, hPage, Except.ok.inj hFetch]

namespace VFSConn

variable (lib : LtxLibrary D) (files : PageElem → Layer D)
variable {pgno : Nat} {d : D} {p : Nat} {fetch : PageElem → Nat → Except Err D}

/- The page that a read finds behind the hydrated file. -/
def stored (pgno : Nat) (c : VFSConn D) : Option D :=
  match c.cache.lookup pgno with
  | some d => some d
  | none =>
    match c.index.lookup pgno with
    | none => if c.writeEnabled then some lib.zero else none
    | some e => (files e).page pgno

/- The page that a read finds, if no call fails. -/
def sees (pgno : Nat) (c : VFSConn D) : Option D :=
  match c.dirtyPage pgno with
  | some d => some d
  | none =>
    match c.hydrated with
    | some h => some (h.readAt lib pgno)
    | none => c.stored lib files pgno

variable {lib : LtxLibrary D} {files : PageElem → Layer D} {c c' : VFSConn D}

theorem stored_cache_cons {e} (hCache : c.cache.lookup pgno = none)
    (hIndex : c.index.lookup pgno = some e) (hPage : (files e).page pgno = some d) (p : Nat) :
    stored lib files p { c with cache := (pgno, d) :: c.cache } = c.stored lib files p := by
  unfold stored
  by_cases hSame : p = pgno
  · subst hSame
    rw [lookup_cons_self, hCache]
    rw [hIndex]
    exact hPage.symm
  · rw [lookup_cons, beq_eq_false_iff_ne.mpr hSame]

theorem sees_eq (p : Nat) (c : VFSConn D) : c.sees lib files p =
    (c.dirtyPage p).or ((c.hydrated.map (fun h => h.readAt lib p)).or (c.stored lib files p)) := by
  unfold sees
  cases c.dirtyPage p with
  | some d => rfl
  | none =>
    cases c.hydrated with
    | some | none => rfl

theorem sees_congr (hDirty : c'.dirtyPage p = c.dirtyPage p)
    (hHydrated : c'.hydrated.map (fun h => h.readAt lib p) = c.hydrated.map (fun h => h.readAt lib
      p)) (hStored : c'.stored lib files p = c.stored lib files p) :
    c'.sees lib files p = c.sees lib files p := by
  rw [sees_eq, sees_eq, hDirty, hHydrated, hStored]

/- What a read finds, and what it leaves in the cache. -/
theorem readAt_cases (hRead : c.readAt lib fetch pgno = .ok (d, c')) :
    (c' = c ∧ ∀ files, c.sees lib files pgno = some d) ∨
      ∃ e, c.dirtyPage pgno = none ∧ c.hydrated = none ∧ c.cache.lookup pgno = none ∧
        c.index.lookup pgno = some e ∧
        fetch e pgno = .ok d ∧
        c' = { c with cache := (pgno, d) :: c.cache } := by
  have hSame : ∀ {d' : D}, (.ok (d', c) : Except Err (D × VFSConn D)) = .ok (d, c') →
    d' = d ∧ c' = c := by
    intro d' hEq
    rw [Except.ok.injEq, Prod.mk.injEq] at hEq
    exact ⟨hEq.1, hEq.2.symm⟩
  unfold readAt at hRead
  unfold sees stored
  split at hRead
  · rename_i hDirty
    rcases hSame hRead with ⟨rfl, hEq⟩
    simp [hDirty, hEq]
  rename_i hDirty
  split at hRead
  · rename_i hHydrated
    rcases hSame hRead with ⟨rfl, hEq⟩
    simp [hDirty, hHydrated, hEq]
  rename_i hHydrated
  split at hRead
  · rename_i hCache
    rcases hSame hRead with ⟨rfl, hEq⟩
    simp [hDirty, hHydrated, hCache, hEq]
  rename_i hCache
  split at hRead
  · rename_i hIndex
    split at hRead
    · rename_i hWrite
      rcases hSame hRead with ⟨rfl, hEq⟩
      simp [hDirty, hHydrated, hCache, hIndex, hWrite, hEq]
    · cases hRead
  rename_i e hIndex
  split at hRead
  · cases hRead
  rename_i d' hFetch
  rw [Except.ok.injEq, Prod.mk.injEq] at hRead
  rcases hRead with ⟨rfl, hEq⟩
  exact Or.inr ⟨e, hDirty, hHydrated, hCache, hIndex, hFetch, hEq.symm⟩

theorem readAt_sees_of_fetch
    (hPages : ∀ e d, c.index.lookup pgno = some e → fetch e pgno = .ok d → (files e).page pgno =
      some d) (hRead : c.readAt lib fetch pgno = .ok (d, c')) :
    c.sees lib files pgno = some d ∧ ∀ p, c'.sees lib files p = c.sees lib files p := by
  rcases readAt_cases hRead with ⟨rfl, hSees⟩ | ⟨e, hDirty, hHydrated, hCache, hIndex, hFetch, rfl⟩
  · exact ⟨hSees files, fun _ => rfl⟩
  have hPage := hPages e d hIndex hFetch
  constructor
  · simp [sees, stored, hDirty, hHydrated, hCache, hIndex, hPage]
  · intro p
    exact sees_congr rfl rfl (stored_cache_cons hCache hIndex hPage p)

theorem readAt_sees {r : Published D} (hHolds : r.Holds files)
    {pageErr : PageElem → Nat → Option Err}
    (hRead : c.readAt lib (r.fetchPage pageErr) pgno = .ok (d, c')) :
    c.sees lib files pgno = some d ∧ ∀ p, c'.sees lib files p = c.sees lib files p :=
  readAt_sees_of_fetch (fun _ _ _ => hHolds.fetchPage) hRead

theorem readAt_of_sees
    (hPages : ∀ e, c.index.lookup pgno = some e → (files e).page pgno = some d → fetch e pgno = .ok
      d) (hSees : c.sees lib files pgno = some d) :
    ∃ c', c.readAt lib fetch pgno = .ok (d, c') := by
  unfold sees stored at hSees
  unfold readAt
  cases hDirty : c.dirtyPage pgno with
  | some d' =>
    rw [hDirty] at hSees
    exact ⟨c, by simpa using hSees⟩
  | none =>
    rw [hDirty] at hSees
    cases hHydrated : c.hydrated with
    | some h =>
      rw [hHydrated] at hSees
      exact ⟨c, by simpa using hSees⟩
    | none =>
      rw [hHydrated] at hSees
      cases hCache : c.cache.lookup pgno with
      | some d' =>
        rw [hCache] at hSees
        exact ⟨c, by simpa using hSees⟩
      | none =>
        rw [hCache] at hSees
        cases hIndex : c.index.lookup pgno with
        | some e =>
          rw [hIndex] at hSees
          have hFetch := hPages e hIndex hSees
          dsimp only
          rw [hFetch]
          exact ⟨_, rfl⟩
        | none =>
          rw [hIndex] at hSees
          cases hWrite : c.writeEnabled with
          | true =>
            rw [hWrite] at hSees
            exact ⟨c, by simpa using hSees⟩
          | false =>
            rw [hWrite] at hSees
            cases hSees

theorem hydrated_map {g} (hComplete : ∀ h, (g h).complete = h.complete)
    (hHydrator : c'.hydrator = c.hydrator.map g) : c'.hydrated = c.hydrated.map g := by
  unfold hydrated
  rw [hHydrator]
  cases c.hydrator with
  | none => rfl
  | some h =>
    cases hCase : h.complete with
    | true | false => simp [Option.filter, hComplete, hCase]

theorem hydrated_set {h h'} (hHydrator : c.hydrator = some h) (hNone : c.hydrated = none)
    (hSame : h'.complete = h.complete) :
    VFSConn.hydrated { c with hydrator := some h' } = none := by
  have hOff : h.complete = false := by simpa [hydrated, hHydrator] using hNone
  simp [hydrated, hSame, hOff]

theorem complete_of_hydrated {h} (hHydrated : c.hydrated = some h) : h.complete = true :=
  (filter_eq_some_iff.mp hHydrated).2

/- A page that is read from the cache is in the index. -/
def Backed (files : PageElem → Layer D) (pgno : Nat) (c : VFSConn D) : Prop :=
  (c.dirtyPage pgno).isSome ∨ c.hydrated.isSome ∨
    ∀ d, c.cache.lookup pgno = some d → ∃ e, c.index.lookup pgno = some e ∧
      (files e).page pgno = some d

theorem Backed.sees_eq_of_cache (hBacked : c.Backed files p) {cache}
    (hCache : cache.lookup p = none) :
    VFSConn.sees lib files p { c with cache := cache } = c.sees lib files p := by
  have hDirty : VFSConn.dirtyPage p { c with cache := cache } = c.dirtyPage p := rfl
  have hHydrated : VFSConn.hydrated { c with cache := cache } = c.hydrated := rfl
  rw [sees_eq, sees_eq, hDirty, hHydrated]
  rcases hBacked with hSome | hSome | hIndex
  · rcases isSome_iff_exists.mp hSome with ⟨d, hd⟩
    simp [hd]
  · rcases isSome_iff_exists.mp hSome with ⟨h, hh⟩
    simp [hh]
  have hStored : VFSConn.stored lib files p { c with cache := cache } = c.stored lib files p := by
    unfold stored
    cases hOld : c.cache.lookup p with
    | none => simp [hCache]
    | some d =>
      rcases hIndex d hOld with ⟨e, hEntry, hPage⟩
      simp [hCache, hEntry, hPage]
  rw [hStored]

theorem sees_evict (hBacked : p = pgno → c.Backed files p) :
    (c.evict pgno).sees lib files p = c.sees lib files p := by
  have hLookup := EntryList.lookup_restrict (fun q => decide (q ≠ pgno)) c.cache p
  by_cases hSame : p = pgno
  · refine (hBacked hSame).sees_eq_of_cache ?_
    rw [hLookup, if_neg (by simpa using hSame)]
  · refine sees_congr rfl rfl ?_
    unfold stored evict
    rw [hLookup, if_pos (by simpa using hSame)]

theorem lookup_pageForWrite_cache (hOther : p ≠ pgno) :
    (c.pageForWrite lib fetch pgno).2.cache.lookup p = c.cache.lookup p := by
  unfold pageForWrite readPageForWrite
  split
  · rfl
  split
  · rfl
  split
  · rfl
  · split
    · rfl
    · rw [lookup_cons, beq_eq_false_iff_ne.mpr hOther]

theorem sees_writeAt {patch} (hWrite : c.writeAt lib fetch pgno patch = .ok c')
    (hOther : p ≠ pgno) :
    c'.sees lib files p = c.sees lib files p := by
  rw [(writeAt_spec hWrite).2.2]
  refine sees_congr ?_ rfl ?_
  · unfold dirtyPage
    rw [lookup_cons, beq_eq_false_iff_ne.mpr hOther]
  · unfold stored
    rw [lookup_pageForWrite_cache hOther]

theorem sees_truncate {newCommit i : Nat} (hTruncate : c.truncate lib newCommit = .ok c')
    (hLeft : i < newCommit) : c'.sees lib files (i + 1) = c.sees lib files (i + 1) := by
  rw [(truncate_spec hTruncate).2]
  refine sees_congr ?_ ?_ rfl
  · unfold dirtyPage
    rw [EntryList.lookup_restrict, if_pos (decide_eq_true (Nat.succ_le_of_lt hLeft))]
  · rw [hydrated_map (fun h => ?_) rfl, Option.map_map]
    · cases hHydrated : c.hydrated with
      | none => rfl
      | some h => simp [complete_of_hydrated hHydrated, readAt_truncate h hLeft]
    · split
      · rfl
      · rfl

theorem stored_afterUpload {evicted} (hKept : p ∉ evicted) :
    (c.afterUpload lib evicted).stored lib files p =
      (c.dirty.lookup p).or (c.stored lib files p) := by
  unfold stored afterUpload
  rw [EntryList.lookup_restrict, if_pos (decide_eq_true hKept), lookup_append]
  cases c.dirty.lookup p with
  | some | none => rfl

/-
  What a sync takes from the dirty pages can still be read:
  it is in the hydrated file, or the cache has room for it,
  and other pages that leave the cache are in the index.
-/
def KeepsSynced (files : PageElem → Layer D) (evicted : List Nat) (c : VFSConn D) : Prop :=
  c.hydrated.isSome ∨ c.DirtyFits ∧ ∀ p ∈ evicted, c.Backed files p

theorem dirtyPage_of_enabled (hWrite : c.writeEnabled = true) (p : Nat) :
    c.dirtyPage p = c.dirty.lookup p :=
  if_pos hWrite

/- An evicted page is not a synced one, and is read from the index again. -/
theorem stored_afterUpload_evicted {evicted} (hWrite : c.writeEnabled = true)
    (hNone : c.hydrated = none) (hEvicts : c.Evicts evicted)
    (hKeeps : c.KeepsSynced files evicted) (hMem : p ∈ evicted) :
    (c.afterUpload lib evicted).stored lib files p =
      (c.dirty.lookup p).or (c.stored lib files p) := by
  have hIs : ¬ c.hydrated.isSome := by simp [hNone]
  obtain ⟨hFits, hBacked⟩ := hKeeps.resolve_left hIs
  have hClean : c.dirty.lookup p = none := by
    rw [← not_isSome_iff_eq_none, EntryList.isSome_lookup_iff]
    exact hEvicts hFits p hMem
  have hDirty : ¬ (c.dirtyPage p).isSome := by simp [dirtyPage_of_enabled hWrite, hClean]
  have hIndex := ((hBacked p hMem).resolve_left hDirty).resolve_left hIs
  rw [hClean]
  unfold stored afterUpload
  rw [EntryList.lookup_restrict, if_neg (by simpa using hMem)]
  cases hCache : c.cache.lookup p with
  | none => rfl
  | some d =>
    obtain ⟨e, hEntry, hPage⟩ := hIndex d hCache
    simp [hEntry, hPage]

theorem sees_afterUpload {evicted} (hWrite : c.writeEnabled = true)
    (hDirty : ∀ p ∈ EntryList.keys c.dirty, 1 ≤ p) (hEvicts : c.Evicts evicted)
    (hKeeps : c.KeepsSynced files evicted) (i : Nat) :
    (c.afterUpload lib evicted).sees lib files (i + 1) = c.sees lib files (i + 1) := by
  have hNone : (c.afterUpload lib evicted).dirtyPage (i + 1) = none := by
    unfold dirtyPage afterUpload
    simp
  have hHydrated : (c.afterUpload lib evicted).hydrated.map (fun h => h.readAt lib (i + 1)) =
    c.hydrated.map (fun h => (c.dirty.lookup (i + 1)).getD (h.readAt lib (i + 1))) := by
    rw [hydrated_map (fun h => ?_) rfl, Option.map_map]
    · cases hCase : c.hydrated with
      | none => rfl
      | some h =>
        have hPages := @readAt_writePages D lib c.dirty hDirty h (i + 1) (Nat.le_add_left 1 i)
        simp only [map_some, Function.comp_apply, complete_of_hydrated hCase, if_true, ← hPages]
        rfl
    · split
      · exact (writePages_fields c.dirty h).1
      · rfl
  rw [sees_eq, sees_eq, hNone, hHydrated, dirtyPage_of_enabled hWrite]
  cases hCase : c.hydrated with
  | some h =>
    cases c.dirty.lookup (i + 1) with
    | none | some => rfl
  | none =>
    have hStored : (c.afterUpload lib evicted).stored lib files (i + 1) =
        (c.dirty.lookup (i + 1)).or (c.stored lib files (i + 1)) := by
      by_cases hMem : i + 1 ∈ evicted
      · exact stored_afterUpload_evicted hWrite hCase hEvicts hKeeps hMem
      · exact stored_afterUpload hMem
    exact hStored

end VFSConn

-- What Holds In Every Run

namespace ConnState

variable {lib : LtxLibrary D} {env : Published D → Option FileInfo → Published D → Prop}
variable {s s' : ConnState D}

/-
  While the hydration is running its file is not read, there
  is no page zero, and a file without write support has no
  dirty pages.
-/
structure Regular (s : ConnState D) : Prop where
  running : s.hydration.running = true → s.conn.hydrated = none
  dirty : ∀ p ∈ EntryList.keys s.conn.dirty, 1 ≤ p
  disabled : s.conn.writeEnabled = false → s.conn.dirty = []
  closed : s.phase = .closed → s.conn = new s.conn.writeEnabled ∧ s.hydration = .idle

theorem start_regular (r : Published D) (writeEnabled : Bool) : (start r writeEnabled).Regular :=
  ⟨fun _ => rfl, fun p hMem => (by cases hMem), fun _ => rfl, fun _ => ⟨rfl, rfl⟩⟩

/- Only `complete` lets a file be read. -/
theorem Step.hydrated_none {op} (hStep : Step lib env s op s') (hNone : s.conn.hydrated = none)
    (hOp : op ≠ .complete) : s'.conn.hydrated = none := by
  -- a map over the hydrator that keeps it incomplete
  have hMapped : ∀ (c : VFSConn D) (g : Hydrator D → Hydrator D),
    (∀ h, (g h).complete = h.complete) → c.hydrator = s.conn.hydrator.map g →
      c.hydrated = none := by
    intro c g hComplete hHydrator
    rw [hydrated_map hComplete hHydrator, hNone]
    rfl
  cases hStep with
  | openFile _ _ hHydrator hOpen =>
    rcases openPlanned_spec hOpen with ⟨_, _, _, rfl⟩
    rcases hHydrator with rfl | rfl | ⟨_, _, _, rfl⟩
    · rfl
    · rfl
    · rfl
  | apply _ =>
    unfold applyPoll
    split
    · exact hNone
    refine hMapped _ _ (fun h => ?_) rfl
    split
    · exact (writePages_fields _ h).1
    · rfl
  | lock _ hLock =>
    rcases lock_spec hLock with ⟨_, _, _, _, _, _, rfl, _⟩
    exact hNone
  | unlock _ hUnlock =>
    rcases unlock_spec hUnlock with ⟨_, rfl⟩
    exact hNone
  | readAt _ _ hRead =>
    rcases readAt_spec hRead with ⟨_, rfl⟩
    exact hNone
  | writeAt _ _ hWrite =>
    rcases writeAt_spec hWrite with ⟨_, _, rfl⟩
    exact hNone
  | truncate _ hTruncate =>
    rcases truncate_spec hTruncate with ⟨_, rfl⟩
    refine hMapped _ _ (fun h => ?_) rfl
    split
    · rfl
    · rfl
  | sync _ _ _ hSync =>
    rcases syncToRemoteWithLock_spec hSync with ⟨_, _, rfl⟩
    refine hMapped _ _ (fun h => ?_) rfl
    split
    · exact (writePages_fields _ h).1
    · rfl
  | enable =>
    rcases enableWrites_spec s.conn with ⟨_, _, hEq⟩
    rw [hEq]
    exact hNone
  | setTargetTime =>
    rcases setTargetTime_hydrated with hSame | hOff
    · rw [hSame]
      exact hNone
    · exact hOff
  | resetTime _ _ hReset =>
    rcases resetTime_spec hReset with ⟨_, _, _, _, _, rfl⟩
    exact hNone
  | hydrateRestore _ _ hHydrator _ hRestore =>
    exact hydrated_set hHydrator hNone (restore_complete hRestore)
  | hydrateCatchUp _ _ hHydrator _ hCatchUp =>
    exact hydrated_set hHydrator hNone (catchUp_complete hCatchUp)
  | hydrateFail _ _ _ hHydrator => exact hydrated_set hHydrator hNone rfl
  | complete => exact absurd rfl hOp
  | close => rfl
  | _ => exact hNone

/- Only an open starts a hydration. -/
theorem Step.running {op} (hStep : Step lib env s op s') (hRunning : s'.hydration.running = true) :
    s.hydration.running = true ∨ op = .openFile := by
  cases hStep with
  | openFile | openNew => exact Or.inr rfl
  | hydrateStart hPhase | hydrateResume hPhase | hydrateRestore hPhase | hydrateCatchUp hPhase
  | hydrateReady hPhase => exact Or.inl (by rw [hPhase]; rfl)
  | hydrateFail _ _ hBusy => exact Or.inl hBusy
  | complete | purge | close => cases hRunning
  | _ => exact Or.inl hRunning

/- Every step keeps a state regular. -/
theorem Regular.step (hRegular : s.Regular) {op} (hStep : Step lib env s op s') : s'.Regular := by
  have hRunning : s'.hydration.running = true → s'.conn.hydrated = none := by
    intro hBusy
    have hOp : op ≠ .complete := by
      rintro rfl
      cases hStep
      cases hBusy
    refine hStep.hydrated_none ?_ hOp
    rcases hStep.running hBusy with hWas | rfl
    · exact hRegular.running hWas
    · cases hStep with
      | openFile hPhase | openNew hPhase =>
        rw [(hRegular.closed hPhase).1]
        rfl
  rcases hRegular with ⟨_, hDirty, hOff, hClosed⟩
  -- a hydration is under way only in an open file
  have hOpen : s.hydration ≠ .idle → s.phase ≠ .closed := fun hBusy hIs => hBusy (hClosed hIs).2
  cases hStep with
  | change _ => exact ⟨hRunning, hDirty, hOff, hClosed⟩
  | openFile hPhase _ _ hOpened =>
    rcases openPlanned_spec hOpened with ⟨_, _, _, rfl⟩
    exact ⟨hRunning, hDirty, fun _ => congrArg VFSConn.dirty (hClosed hPhase).1, by simp⟩
  | openNew | pollL0 | pollL1 | abandon => exact ⟨hRunning, hDirty, hOff, by simp⟩
  | apply _ =>
    refine ⟨hRunning, ?_, ?_, by simp⟩
    all_goals
      unfold applyPoll
      split
      · assumption
      · assumption
  | lock hPhase hLock =>
    rcases lock_spec hLock with ⟨_, _, _, _, _, _, rfl, _⟩
    exact ⟨hRunning, hDirty, hOff, fun h => absurd h hPhase⟩
  | unlock hPhase hUnlock =>
    rcases unlock_spec hUnlock with ⟨_, rfl⟩
    exact ⟨hRunning, hDirty, hOff, fun h => absurd h hPhase⟩
  | readAt hPhase _ hRead =>
    rcases readAt_spec hRead with ⟨_, rfl⟩
    exact ⟨hRunning, hDirty, hOff, fun h => absurd h hPhase⟩
  | writeAt hPhase hPage hWrite =>
    rcases writeAt_spec hWrite with ⟨_, hOn, rfl⟩
    refine ⟨hRunning, ?_, fun h => absurd h (by simp [hOn]), fun h => absurd h hPhase⟩
    intro p hMem
    rcases mem_cons.mp hMem with rfl | hOld
    · exact hPage
    · exact hDirty p hOld
  | truncate hPhase hTruncate =>
    rcases truncate_spec hTruncate with ⟨hOn, rfl⟩
    refine ⟨hRunning, ?_, fun h => absurd h (by simp [hOn]), fun h => absurd h hPhase⟩
    intro p hMem
    exact hDirty p ((filter_sublist.map Prod.fst).subset hMem)
  | evict hPhase => exact ⟨hRunning, hDirty, hOff, fun h => absurd h hPhase⟩
  | sync hPhase _ _ hSync =>
    rcases syncToRemoteWithLock_spec hSync with ⟨_, _, rfl⟩
    exact ⟨hRunning, nofun, fun _ => rfl, fun h => absurd h hPhase⟩
  | enable hPhase =>
    rcases enableWrites_spec s.conn with ⟨_, _, hEq⟩
    rw [hEq] at hRunning ⊢
    exact ⟨hRunning, hDirty, nofun, fun h => absurd h hPhase⟩
  | disable hPhase _ _ hClean => exact ⟨hRunning, hDirty, fun _ => hClean, fun h => absurd h hPhase⟩
  | @setTargetTime fetchErr timestamp plan hPhase _ =>
    rcases setTargetTime_spec timestamp plan (s.replica.fetch fetchErr) s.conn with
      ⟨_, hEq | hEq⟩ | ⟨_, f, _, _, hFile, hEq⟩
    · rw [hEq] at hRunning ⊢
      exact ⟨hRunning, hDirty, hOff, fun h => absurd h hPhase⟩
    · rw [hEq] at hRunning ⊢
      exact ⟨hRunning, hDirty, hOff, fun h => absurd h hPhase⟩
    · rw [hEq] at hRunning ⊢
      exact ⟨hRunning, hDirty, fun h => hOff ((VFSFile.rebuildIndex_writeEnabled hFile).symm.trans h),
        fun h => absurd h hPhase⟩
  | resetTime hPhase _ hReset =>
    rcases resetTime_spec hReset with ⟨_, f, _, _, hFile, rfl⟩
    exact ⟨hRunning, hDirty, fun h => hOff ((VFSFile.rebuildIndex_writeEnabled hFile).symm.trans h),
      fun h => absurd h hPhase⟩
  | hydrateStart hPhase | hydrateResume hPhase | hydrateReady hPhase | hydrateRestore hPhase
  | hydrateCatchUp hPhase | complete hPhase | purge hPhase =>
    rw [hPhase] at hOpen
    exact ⟨hRunning, hDirty, hOff, fun h => absurd h (hOpen (by simp))⟩
  | hydrateFail file txid hBusy hHydrator =>
    refine ⟨hRunning, hDirty, hOff, fun h => absurd h (hOpen ?_)⟩
    intro hIdle
    rw [hIdle] at hBusy
    cases hBusy
  | close _ _ _ => exact ⟨hRunning, nofun, fun _ => rfl, fun _ => ⟨rfl, rfl⟩⟩

theorem Run.regular {allowed} (hRegular : s.Regular) (hRun : Run lib env allowed s s') :
    s'.Regular := by
  induction hRun with
  | refl => exact hRegular
  | tail _ hLast ih =>
    rcases hLast with ⟨op, _, hStep⟩
    exact ih.step hStep

end ConnState

end Replicate
