import Replicate.VFS.HydratedCopy

/-
  The reads of a file that writes.

  A write goes to the dirty pages. A sync moves them to the
  cache and, if it is complete, to the hydrated file, but not
  to the index. So what the file wrote is lost once the cache
  evicts it, which the sync itself does if it has more pages
  than the cache, and the size falls back to that of the
  index.
  A write of a part of a page takes the rest from the cache
  or the index, also if reads come from the hydrated file,
  and takes zeros if the page cannot be fetched.

  Main declarations:
    * `ConnState.Run.prepared`
    * `ConnState.Writing.step`
    * `own_writes_read`
    * `own_write_lost`
-/

-- Fetching Pages

namespace Replicate

open EntryList Hydrator Published VFSConn PageHistory Option

variable {D : Type} {lib : LtxLibrary D}

section Fetch

variable {r : Published D} {e : PageElem} {p : Nat}

/- No call fails. -/
def calmPages : PageElem → Nat → Option Err :=
  fun _ _ => none

theorem Published.fetchPage_calm {pageErr} {d : D} (hFetch : r.fetchPage pageErr e p = .ok d) :
    r.fetchPage calmPages e p = .ok d := by
  unfold fetchPage at hFetch
  split at hFetch
  · cases hFetch
  · exact hFetch

theorem Published.fetchPage_append {d : D} (hFetch : r.fetchPage calmPages e p = .ok d)
    (level : Nat) (obj : FileInfo × Layer D) :
    (r.append level obj).fetchPage calmPages e p = .ok d := by
  unfold fetchPage calmPages at hFetch ⊢
  dsimp only at hFetch ⊢
  unfold append
  dsimp only
  by_cases hLevel : e.level = level
  · rw [if_pos hLevel, List.find?_append]
    split at hFetch
    · cases hFetch
    · rename_i found hFind
      rw [hFind]
      exact hFetch
  · rw [if_neg hLevel]
    exact hFetch

theorem buildIndexMap_origin {fetch : FileInfo → Except Err (Layer D)} {infos : List FileInfo}
    {index : PageMap} {commit : Nat} (hBuild : buildIndexMap fetch infos = .ok (index, commit))
    (hLookup : index.lookup p = some e) :
    ∃ info file, fetch info = .ok file ∧ e = info.elem ∧ (file.page p).isSome := by
  induction infos using List.reverseRecOn generalizing index commit with
  | nil =>
    rw [← (Prod.mk.inj (Except.ok.inj hBuild)).1] at hLookup
    cases hLookup
  | append_singleton infos info ih =>
    rcases buildIndexMap_concat hBuild with ⟨before, size, file, hBefore, hFile, rfl, _⟩
    rw [List.lookup_append, or_eq_some_iff] at hLookup
    rcases hLookup with hNew | ⟨_, hOld⟩
    · rcases of_lookup_fetchPageIndex hNew with ⟨rfl, hSome⟩
      exact ⟨info, file, hFile, rfl, hSome⟩
    · exact ih hBefore hOld

theorem Published.Faithful.fetchPage_of_fetch {H : History lib} (hFaithful : r.Faithful H)
    {fetchErr : FileInfo → Option Err} {info : FileInfo} {file : Layer D}
    (hFetch : r.fetch fetchErr info = .ok file) (hPage : (file.page p).isSome) :
    p ≠ lib.lockPgno ∧ ∃ d, r.fetchPage calmPages info.elem p = .ok d := by
  rcases hFaithful.fetch hFetch with ⟨hMin, hMax, hSlice⟩
  rw [hSlice] at hPage
  have hWriter := ((isSome_slice_iff hMin).mp hPage).2
  refine ⟨(History.ne_lockPgno_of_writer hMax (Nat.le_trans hMin hWriter)).2, ?_⟩
  have hMem := mem_of_fetch hFetch
  unfold fetchPage calmPages FileInfo.elem
  cases hFind : (r.objects info.level).find? (fun obj =>
    decide (obj.1.minTXID = info.minTXID ∧ obj.1.maxTXID = info.maxTXID)) with
  | none =>
    have hNot := List.find?_eq_none.mp hFind _ hMem
    simp at hNot
  | some obj =>
    have hName := List.find?_some hFind
    rw [decide_eq_true_eq] at hName
    have hHeld := (hFaithful.files _ _ (List.mem_of_find?_eq_some hFind)).eq_slice.2.2
    rw [hName.1, hName.2] at hHeld
    rcases isSome_iff_exists.mp hPage with ⟨d, hd⟩
    refine ⟨d, ?_⟩
    dsimp only
    rw [hHeld, hd]

end Fetch

-- An Opened File

/-
  The replica is there before the file is opened. Then the
  file is opened and, if it has a hydrator, hydrated.
-/
def Prepares (s : ConnState D) : ConnOp D → Prop
| .change _ => s.phase = .closed
| .openFile => True
| .hydrate => True
| .catchUp _ => True
| .complete => True
| .purge => True
| _ => False

/- The plan of a hydration that has not restored it yet. -/
def HydrationPhase.plan : HydrationPhase → List FileInfo
| .launched infos => infos
| .started infos _ _ => infos
| _ => []

/- An index without entries for a page. -/
theorem lookup_eq_none_of_ne {index : PageMap} {q : Nat} {P : Nat → PageElem → Prop}
    (hIndexed : ∀ p e, index.lookup p = some e → p ≠ q ∧ P p e) : index.lookup q = none := by
  cases hEntry : index.lookup q with
  | none => rfl
  | some e => exact absurd rfl (hIndexed q e hEntry).1

theorem Hydrator.readAt_writePages_of_none {pages} (hPages : ∀ p ∈ keys pages, 1 ≤ p) {p : Nat}
    (hPos : 1 ≤ p) (hNone : p ∉ keys pages) (h : Hydrator D) :
    (h.writePages lib pages).readAt lib p = h.readAt lib p := by
  rw [readAt_writePages pages hPages h hPos]
  cases hLookup : pages.lookup p with
  | none => rfl
  | some d => exact absurd (mem_keys_of_lookup_eq_some hLookup) hNone

theorem Hydrator.catchUp_readAt {fetch} {p : Nat} (hPos : 1 ≤ p)
    (hFetch : ∀ info file, fetch info = .ok file → file.page p = none) {toTXID : Nat} {items h h'}
    (hCatchUp : catchUp lib fetch toTXID items h = .ok h') : h'.readAt lib p = h.readAt lib p := by
  induction items generalizing h with
  | nil => rw [← Except.ok.inj hCatchUp]
  | cons info items ih =>
    unfold catchUp at hCatchUp
    split at hCatchUp
    · rw [← Except.ok.inj hCatchUp]
    split at hCatchUp
    · cases hCatchUp
    rename_i file hFile
    rw [ih hCatchUp]
    have hKeys := keys_pagesOf file
    refine readAt_writePages_of_none (fun q hq => (hKeys q hq).1) hPos ?_ h
    intro hMem
    have hSome := (hKeys p hMem).2.2
    rw [hFetch info file hFile] at hSome
    cases hSome

namespace ConnState

variable {H : History lib} {s s' : ConnState D} {op : ConnOp D}

/-
  Nothing is written, cached or pending. Pages of the index
  can be fetched, and the lock page is empty.
-/
structure Prepared (H : History lib) (s : ConnState D) : Prop where
  faithful : s.replica.Faithful H
  regular : s.Regular
  phase : s.phase = .closed ∨ s.phase = .idle
  saved : s.saved = none
  writes : s.conn.writeEnabled = true
  present : s.conn.targetTime = none
  settled : s.conn.pending = [] ∧ s.conn.pendingReplace = false
  dirty : s.conn.dirty = []
  cache : s.conn.cache = []
  indexed : ∀ p e, s.conn.index.lookup p = some e → p ≠ lib.lockPgno ∧
    ∃ d, s.replica.fetchPage calmPages e p = .ok d
  planned : IntervalChain.IsChain FileInfo.minTXID FileInfo.maxTXID 0 s.hydration.plan
  lockPage : s.Active → ∀ h, s.conn.hydrator = some h →
    1 ≤ lib.lockPgno → h.readAt lib lib.lockPgno = lib.zero

theorem start_prepared {r} (hFaithful : r.Faithful H) : (start r true).Prepared H where
  faithful := hFaithful
  regular := start_regular _ _
  phase := Or.inl rfl
  saved := rfl
  writes := rfl
  present := rfl
  settled := ⟨rfl, rfl⟩
  dirty := rfl
  cache := rfl
  indexed := fun _ _ hLookup => (by cases hLookup)
  planned := trivial
  lockPage := fun hActive => absurd hActive (not_active_of_closed (start_regular _ _) rfl)

/- Opening the file. -/
theorem Prepared.openFile (hPrepared : s.Prepared H)
    {fetchErr : FileInfo → Option Err} {infos : List FileInfo}
    {hydrator : Option (Hydrator D)} {cfg : VFSConfig} {c : VFSConn D} (hPlan : Plans s.replica 0 (.ok infos))
    (hHydrator : Hydrates s.saved hydrator)
    (hOpen : s.conn.openPlanned (s.replica.fetch fetchErr) infos hydrator cfg = .ok c)
    (hRegular : Regular { s with
      conn := c
      phase := .idle
      hydration := if hydrator.isSome then .launched infos else .idle }) :
    Prepared H { s with
      conn := c
      phase := .idle
      hydration :=
        if hydrator.isSome then .launched infos else .idle } := by
  have hFaithful := hPrepared.faithful
  rcases openPlanned_spec hOpen with ⟨f, _, hFile, rfl⟩
  rcases hPlan with ⟨faults, hCalc⟩
  unfold VFSFile.openPlanned VFSFile.rebuildIndex at hFile
  split at hFile
  · cases hFile
  rename_i index commit hBuild
  have hEq := Except.ok.inj hFile
  refine ⟨hFaithful, hRegular, Or.inr rfl, hPrepared.saved,
    ?_, hPrepared.present, ?_, hPrepared.dirty, rfl, ?_, ?_,
    ?_⟩
  · rw [← hEq]
    exact hPrepared.writes
  · rw [← hEq]
    exact ⟨rfl, rfl⟩
  · intro p e hLookup
    rw [← hEq] at hLookup
    rcases buildIndexMap_origin hBuild hLookup with ⟨info, file, hFetch, rfl, hPage⟩
    exact hFaithful.fetchPage_of_fetch hFetch hPage
  · dsimp only
    split
    · exact (plan_isChain hFaithful.layout.others hFaithful.layout.sorted hCalc).1
    · trivial
  · intro _ h hIs _
    have hEqH : hydrator = some h := hIs
    rcases hHydrator with hNone | hNew | ⟨_, _, hSaved, _⟩
    · rw [hNone] at hEqH
      cases hEqH
    · rw [hNew] at hEqH
      rw [← some.inj hEqH]
      rfl
    · rw [hPrepared.saved] at hSaved
      cases hSaved

theorem Prepared.of_hydrator (hPrepared : s.Prepared H) (hStep : Step lib (Change H) s op s')
    {hydrator hydration} (hState : s' = { s with
      conn := { s.conn with hydrator := hydrator }
      hydration := hydration }) (hPlan : hydration.plan = [] ∨ hydration.plan = s.hydration.plan)
    (hLock : s'.Active → ∀ h, hydrator = some h → 1 ≤ lib.lockPgno →
      h.readAt lib lib.lockPgno = lib.zero) :
    s'.Prepared H := by
  have hRegular := hPrepared.regular.step hStep
  subst hState
  refine ⟨hPrepared.faithful, hRegular, hPrepared.phase,
    hPrepared.saved, hPrepared.writes, hPrepared.present,
    hPrepared.settled, hPrepared.dirty, hPrepared.cache,
    hPrepared.indexed, ?_, hLock⟩
  rcases hPlan with hNil | hSame
  · rw [hNil]
    trivial
  · rw [hSame]
    exact hPrepared.planned

theorem Prepared.step (hPrepared : s.Prepared H) (hAllowed : Prepares s op)
    (hStep : Step lib (Change H) s op s') : s'.Prepared H := by
  have hFaithful := hPrepared.faithful
  have hRegular := hPrepared.regular.step hStep
  have hTaken := hStep
  -- the lock page of a hydration that is under way
  have hLock : s.hydration.running = true → ∀ h, s.conn.hydrator = some h →
    1 ≤ lib.lockPgno → h.readAt lib lib.lockPgno = lib.zero :=
    fun hBusy => hPrepared.lockPage (Or.inl hBusy)
  cases hStep with
  | @change compacted r hEnv =>
    -- the file is not open yet
    have hClosed : s.phase = .closed := hAllowed
    rcases hPrepared.regular.closed hClosed with ⟨hNew, hIdle⟩
    refine ⟨hFaithful.change hEnv, hRegular, hPrepared.phase, hPrepared.saved, hPrepared.writes,
      hPrepared.present, hPrepared.settled, hPrepared.dirty,
      hPrepared.cache, ?_, hPrepared.planned,
      hPrepared.lockPage⟩
    intro p e hLookup
    have hIndex : s.conn.index.lookup p = some e := hLookup
    rw [hNew] at hIndex
    cases hIndex
  | openFile _ hPlan hHydrator hOpen => exact hPrepared.openFile hPlan hHydrator hOpen hRegular
  | openNew hPhase _ _ _ =>
    rcases hPrepared.regular.closed hPhase with ⟨hNew, hIdle⟩
    refine ⟨hFaithful, hRegular, Or.inr rfl, hPrepared.saved, hPrepared.writes, hPrepared.present,
      ⟨rfl, hPrepared.settled.2⟩, hPrepared.dirty, rfl,
      fun p e hLookup => (by cases hLookup),
      hPrepared.planned, ?_⟩
    intro _ h hIs
    have hHydrator : s.conn.hydrator = some h := hIs
    rw [hNew] at hHydrator
    cases hHydrator
  | @hydrateStart infos h hPhase hIs =>
    rw [hPhase] at hLock
    refine hPrepared.of_hydrator hTaken rfl (Or.inr ?_) (fun _ => hLock rfl)
    rw [hPhase]
    rfl
  | hydrateResume hPhase _ | hydrateReady hPhase _ =>
    rw [hPhase] at hLock
    exact hPrepared.of_hydrator hTaken rfl (Or.inl rfl) (fun _ => hLock rfl)
  | @hydrateRestore fetchErr infos a b files h h' hPhase _ hIs hFetch hRestore =>
    have hChain := hPrepared.planned
    rw [hPhase] at hChain
    refine hPrepared.of_hydrator hTaken rfl (Or.inl rfl) ?_
    intro _ x hx hPos
    rw [← some.inj hx]
    unfold Hydrator.readAt
    rcases restore_image hFaithful hChain hFetch hRestore with ⟨hFile, _, hCount⟩
    rw [hFile]
    exact History.replay_lockPgno hCount (Nat.sub_add_cancel hPos)
  | @hydrateCatchUp fetchErr fault a b itr h h' hPhase hBehind hIs hList hCatchUp =>
    rw [hPhase] at hLock
    refine hPrepared.of_hydrator hTaken rfl (Or.inl rfl) ?_
    intro _ x hx hPos
    rw [← some.inj hx, catchUp_readAt hPos ?_ hCatchUp]
    · exact hLock rfl h hIs hPos
    · intro info file hFetch
      by_contra hSome
      have hPage := (hFaithful.fetchPage_of_fetch hFetch (isSome_iff_ne_none.mpr hSome)).1
      exact hPage rfl
  | hydrateFail file txid hBusy hIs =>
    refine hPrepared.of_hydrator hTaken rfl (Or.inl rfl) ?_
    intro hActive
    exact absurd hActive (not_active_of_fail hPrepared.regular hBusy hIs file txid)
  | @complete b h hPhase hIs =>
    rw [hPhase] at hLock
    refine hPrepared.of_hydrator hTaken rfl (Or.inl rfl) ?_
    intro _ x hx
    rw [← some.inj hx]
    exact hLock rfl h hIs
  | purge hPhase =>
    refine ⟨hFaithful, hRegular, hPrepared.phase,
      hPrepared.saved, hPrepared.writes, hPrepared.present,
      hPrepared.settled, hPrepared.dirty, rfl,
      hPrepared.indexed, trivial, ?_⟩
    rintro (hBusy | hSome)
    · cases hBusy
    · exact hPrepared.lockPage (Or.inr hSome)
  | _ => exact hAllowed.elim

theorem Run.prepared (hRun : Run lib (Change H) Prepares (start empty true) s) : s.Prepared H := by
  induction hRun with
  | refl => exact start_prepared Faithful.empty
  | tail _ hLast ih =>
    rcases hLast with ⟨op, hAllowed, hStep⟩
    exact ih.step hAllowed hStep

end ConnState

-- Writing

/- What a writer does, and its polls and evictions. -/
def ConnOp.own : ConnOp D → Bool
| .poll => true
| .apply _ _ => true
| .lock _ _ => true
| .unlock _ => true
| .readAt _ => true
| .writeAt _ _ _ => true
| .truncate _ => true
| .evict _ => true
| .sync _ => true
| _ => false

/- The pages after a step, as the writes leave them. -/
def ConnOp.written (pages : Nat → D) : ConnOp D → Nat → D
| .writeAt pgno patch _ => fun p => if p = pgno then patch (pages p) else pages p
| _ => pages

/- Nobody else writes, so any upload is one's own. -/
def Published.AnyUpload : Published D → Option FileInfo → Published D → Prop :=
  fun _ _ _ => True

/-
  A run, with the pages that its writes leave. Every step
  meets a condition on the state before it.
-/
def ConnState.WritingRun (lib : LtxLibrary D) (allowed : ConnState D → ConnOp D → Prop) :
    ConnState D × (Nat → D) → ConnState D × (Nat → D) → Prop :=
  Relation.ReflTransGen (fun x y =>
    ∃ op, allowed x.1 op ∧ ConnState.Step lib AnyUpload x.1 op y.1 ∧ y.2 = op.written x.2)

/-
  The part of a page that a write does not cover: reads and
  writes find the same page, and it can be fetched.
-/
def ConnState.FindsPage (lib : LtxLibrary D) (s : ConnState D) (pgno : Nat)
    (pageErr : PageElem → Nat → Option Err) : Prop :=
  match s.conn.hydrated with
  | some h => (s.conn.pageForWrite lib (s.replica.fetchPage pageErr) pgno).1 = h.readAt lib pgno
  | none =>
    ∀ e, s.conn.cache.lookup pgno = none → s.conn.index.lookup pgno = some e → pageErr e pgno = none

/- The cached page is the one that the index refers to. -/
def ConnState.Refetches (s : ConnState D) (pgno : Nat) : Prop :=
  ∀ d, s.conn.cache.lookup pgno = some d → ∃ e, s.conn.index.lookup pgno = some e ∧
    s.replica.fetchPage calmPages e pgno = .ok d

/-
  When a file reads what it wrote. A poll starts only when
  there is nothing to read. Behind the end only the next
  page is written, and as a whole. Other pages are written
  as a whole, or are dirty, or are found as reads find them.
  The file is only cut off. A page of the database leaves
  the cache only if it is dirty or hydrated, or if the index
  has it. The cache has room for the pages of a sync, unless
  they are hydrated.
-/
def KeepsWrites (lib : LtxLibrary D) (s : ConnState D) : ConnOp D → Prop
| .poll =>
  s.phase = .idle → (∀ info ∈ s.replica.content 0, info.minTXID < TXID.next s.conn.pos) ∧
    ∀ info ∈ s.replica.content 1, info.minTXID < TXID.next s.conn.maxTXID1
| .writeAt pgno patch pageErr =>
  (pgno ≤ s.conn.commit ∧ ((s.conn.dirty.lookup pgno).isSome ∨ s.FindsPage lib pgno pageErr)) ∨
    ((∀ d d', patch d = patch d') ∧ (pgno ≤ s.conn.commit + 1 ∨
      pgno = s.conn.commit + 2 ∧ s.conn.commit + 1 = lib.lockPgno))
| .truncate newCommit => newCommit ≤ s.conn.commit
| .evict pgno =>
  s.conn.commit < pgno ∨ (s.conn.dirty.lookup pgno).isSome ∨ s.conn.hydrated.isSome ∨
    s.Refetches pgno
| .sync evicted =>
  s.conn.hydrated.isSome ∨ s.conn.DirtyFits ∧
    ∀ pgno ∈ evicted, (s.conn.dirty.lookup pgno).isSome ∨ s.Refetches pgno
| _ => True

/- What `ReadAt` returns, if it returns a page. -/
def ConnState.Reads (lib : LtxLibrary D) (s : ConnState D) (pgno : Nat) (d : D) : Prop :=
  (∃ c, s.conn.readAt lib (s.replica.fetchPage calmPages) pgno = .ok (d, c)) ∧
    ∀ pageErr d' c, s.conn.readAt lib (s.replica.fetchPage pageErr) pgno = .ok (d', c) → d' = d

/- The page that `ReadAt` returns if no call fails. -/
def ConnState.page (lib : LtxLibrary D) (s : ConnState D) (pgno : Nat) : D :=
  match s.conn.readAt lib (s.replica.fetchPage calmPages) pgno with
  | .ok (d, _) => d
  | .error _ => lib.zero

/- A poll that is going on has found nothing. -/
def PollPhase.Empty (r : Published D) : PollPhase → Prop
| .polledL0 polled =>
  polled.l0.index = [] ∧ polled.l0.replace = false ∧ ∀ info ∈ r.content 1,
    info.minTXID < TXID.next polled.maxTXID1
| .polledL1 polled => polled.combined = [] ∧ polled.replaceIndex = false
| _ => True

theorem pollLevel_empty {r : Published D} {env : PollEnv} {level prev base : Nat} {st : LevelPoll}
    (hNothing : ∀ info ∈ r.content level, info.minTXID < TXID.next prev)
    (hPoll : pollLevel r env level prev base = .ok st) : st = ⟨prev, [], base, false⟩ := by
  unfold pollLevel at hPoll
  split at hPoll
  · cases hPoll
  rename_i itr hList
  have hItems : itr.items = [] := by
    refine List.eq_nil_iff_forall_not_mem.mpr ?_
    intro info hMem
    rcases mem_ltxFiles hList hMem with ⟨hIn, hSeek⟩
    have hLt := hNothing info hIn
    omega
  rw [hItems] at hPoll
  exact (Except.ok.inj hPoll).symm

theorem VFSConn.applyPoll_empty {polled : PolledL1}
    (hEmpty : polled.combined = [] ∧ polled.replaceIndex = false)
    (fetch : PageElem → Nat → Except Err D) {c : VFSConn D} (hPresent : c.targetTime = none)
    (hReplace : c.pendingReplace = false) : c.applyPoll lib fetch polled = { c with
      pos := polled.pos
      maxTXID1 := polled.l1.maxTXID } := by
  have hHydrator : c.hydrator.map (fun (h : Hydrator D) =>
    if h.complete then h.applyUpdates lib fetch [] else h) = c.hydrator := by
    cases c.hydrator with
    | none => rfl
    | some h => simp [applyUpdates, writePages]
  unfold applyPoll VFSFile.applyPoll
  rw [hEmpty.1, hEmpty.2, hHydrator]
  simp [hPresent, hReplace, restrict]

namespace ConnState

variable {files : PageElem → Layer D} {pages : Nat → D} {s s' : ConnState D} {op : ConnOp D}
variable {pageErr : PageElem → Nat → Option Err} {d : D} {pgno : Nat} {c : VFSConn D}

/- A page that the index has can be fetched. -/
def Stocked (files : PageElem → Layer D) (p : Nat) (s : ConnState D) : Prop :=
  ∀ e, s.conn.index.lookup p = some e →
    ∃ d, s.replica.fetchPage calmPages e p = .ok d ∧ (files e).page p = some d

theorem Stocked.fetched {p : Nat} (hStocked : s.Stocked files p) {e}
    (hLookup : s.conn.index.lookup p = some e) (hFetch : s.replica.fetchPage pageErr e p = .ok d) :
    (files e).page p = some d := by
  rcases hStocked e hLookup with ⟨d', hCalm, hPage⟩
  rw [fetchPage_calm hFetch] at hCalm
  rw [hPage, Except.ok.inj hCalm]

theorem Stocked.reads_iff {p : Nat} (hStocked : s.Stocked files p) (d : D) :
    s.Reads lib p d ↔ s.conn.sees lib files p = some d := by
  constructor
  · rintro ⟨⟨c, hRead⟩, _⟩
    exact (readAt_sees_of_fetch (fun _ _ => hStocked.fetched) hRead).1
  · intro hSees
    constructor
    · refine readAt_of_sees ?_ hSees
      intro e hLookup hPage
      rcases hStocked e hLookup with ⟨d', hCalm, hHeld⟩
      rw [hPage] at hHeld
      rw [hCalm, some.inj hHeld]
    · intro pageErr d' c hRead
      have hSame := (readAt_sees_of_fetch (fun _ _ => hStocked.fetched) hRead).1
      rw [hSees] at hSame
      exact (some.inj hSame).symm

/- The page that a write starts from. -/
theorem Stocked.pageForWrite_eq (hStocked : s.Stocked files pgno)
    (hWrites : s.conn.writeEnabled = true) (hSees : s.conn.sees lib files pgno = some d)
    (hFinds : (s.conn.dirty.lookup pgno).isSome ∨ s.FindsPage lib pgno pageErr) :
    (s.conn.pageForWrite lib (s.replica.fetchPage pageErr) pgno).1 = d := by
  have hDirtyPage : s.conn.dirtyPage pgno = s.conn.dirty.lookup pgno := by
    unfold dirtyPage
    rw [if_pos hWrites]
  unfold VFSConn.sees at hSees
  rw [hDirtyPage] at hSees
  cases hDirty : s.conn.dirty.lookup pgno with
  | some d' =>
    rw [hDirty] at hSees
    unfold pageForWrite
    rw [hDirty]
    exact some.inj hSees
  | none =>
    rw [hDirty] at hFinds hSees
    have hFound := hFinds.resolve_left (by simp)
    unfold FindsPage at hFound
    cases hHydrated : s.conn.hydrated with
    | some h =>
      rw [hHydrated] at hFound hSees
      rw [hFound]
      exact some.inj hSees
    | none =>
      rw [hHydrated] at hFound hSees
      unfold stored at hSees
      unfold pageForWrite readPageForWrite
      rw [hDirty]
      cases hCache : s.conn.cache.lookup pgno with
      | some d' =>
        rw [hCache] at hSees
        exact some.inj hSees
      | none =>
        rw [hCache] at hSees
        cases hIndex : s.conn.index.lookup pgno with
        | none =>
          rw [hIndex, if_pos hWrites] at hSees
          exact some.inj hSees
        | some e =>
          rw [hIndex] at hSees
          rcases hStocked e hIndex with ⟨d', hCalm, hPage⟩
          have hFetch : s.replica.fetchPage pageErr e pgno = .ok d' := by
            unfold fetchPage
            rw [hFound e hCache hIndex]
            exact hCalm
          have hSame : (files e).page pgno = some d := hSees
          rw [hPage] at hSame
          dsimp only
          rw [hFetch]
          exact some.inj hSame

/-
  The file sees what its writes left, on every page of the
  database and on the lock page, which stays empty. The
  index is that of the opened file.
-/
structure Writing (lib : LtxLibrary D) (files : PageElem → Layer D)
    (pages : Nat → D) (s : ConnState D) : Prop where
  regular : s.Regular
  polled : s.phase.Empty s.replica
  writes : s.conn.writeEnabled = true
  present : s.conn.targetTime = none
  settled : s.conn.pending = [] ∧ s.conn.pendingReplace = false
  indexed : ∀ p e, s.conn.index.lookup p = some e → p ≠ lib.lockPgno ∧
    ∃ d, s.replica.fetchPage calmPages e p = .ok d ∧ (files e).page p = some d
  lockPage : s.conn.dirty.lookup lib.lockPgno = none ∧ s.conn.cache.lookup lib.lockPgno = none ∧
    (1 ≤ lib.lockPgno → pages lib.lockPgno = lib.zero)
  sees : ∀ p, 1 ≤ p → p ≤ s.conn.commit ∨ p = lib.lockPgno →
    s.conn.sees lib files p = some (pages p)

theorem Writing.stocked (hWriting : s.Writing lib files pages) (p : Nat) : s.Stocked files p := by
  intro e hLookup
  rcases hWriting.indexed p e hLookup with ⟨_, hPage⟩
  exact hPage

theorem Writing.readAt (hWriting : s.Writing lib files pages)
    (hRead : s.conn.readAt lib (s.replica.fetchPage pageErr) pgno = .ok (d, c))
    (hRegular : Regular { s with conn := c }) :
    Writing lib files pages { s with conn := c } := by
  have hSees := (readAt_sees_of_fetch (fun _ _ => (hWriting.stocked pgno).fetched) hRead).2
  rcases hWriting with
    ⟨_, hPolled, hWrites, hPresent, hSettled, hIndexed, ⟨hDirty, hCache, hZero⟩, hBefore⟩
  have hLock : c.cache.lookup lib.lockPgno = none := by
    rcases readAt_cases hRead with ⟨rfl, _⟩ | ⟨e, _, _, _, hIndex, _, rfl⟩
    · exact hCache
    · dsimp only
      rw [List.lookup_cons, beq_eq_false_iff_ne.mpr (Ne.symm (hIndexed pgno e hIndex).1)]
      exact hCache
  rcases readAt_spec hRead with ⟨cache, rfl⟩
  refine ⟨hRegular, hPolled, hWrites, hPresent, hSettled, hIndexed, ⟨hDirty, hLock, hZero⟩, ?_⟩
  intro p hPos hIn
  rw [hSees]
  exact hBefore p hPos hIn

/- A write. -/
theorem Writing.writeAt (hWriting : s.Writing lib files pages) {patch} (hPos : 1 ≤ pgno)
    (hAllowed : KeepsWrites lib s (.writeAt pgno patch pageErr))
    (hWrite : s.conn.writeAt lib (s.replica.fetchPage pageErr) pgno patch = .ok c)
    (hRegular : Regular { s with conn := c }) :
    Writing lib files (ConnOp.written pages (.writeAt pgno patch pageErr))
      { s with conn := c } := by
  have hOther : ∀ p, p ≠ pgno → c.sees lib files p = s.conn.sees lib files p :=
    fun p hNe => sees_writeAt hWrite hNe
  rcases writeAt_spec hWrite with ⟨hNotLock, hEnabled, hConn⟩
  have hLockNe := beq_eq_false_iff_ne.mpr (Ne.symm hNotLock)
  -- the page itself
  have hSelf : patch (s.conn.pageForWrite lib (s.replica.fetchPage pageErr) pgno).1 =
    patch (pages pgno) := by
    rcases hAllowed with ⟨hIn, hFinds⟩ | ⟨hWhole, _⟩
    · rw [(hWriting.stocked pgno).pageForWrite_eq hWriting.writes
        (hWriting.sees pgno hPos (Or.inl hIn)) hFinds]
    · exact hWhole _ _
  have hPage : c.sees lib files pgno = some (patch (pages pgno)) := by
    unfold VFSConn.sees dirtyPage
    rw [hConn]
    rw [if_pos hEnabled, List.lookup_cons_self, hSelf]
  -- no page is left out behind the old end
  have hEnd : ∀ p, p ≤ c.commit ∨ p = lib.lockPgno →
    p = pgno ∨ p ≤ s.conn.commit ∨ p = lib.lockPgno := by
    intro p hIn
    rw [hConn] at hIn
    dsimp only at hIn
    rcases hAllowed with ⟨hOld, _⟩ | ⟨_, hNext⟩
    · omega
    · omega
  rcases hWriting with
    ⟨_, hPolled, hWrites, hPresent, hSettled, hIndexed, ⟨hDirty, hCache, hZero⟩, hBefore⟩
  refine ⟨hRegular, hPolled, ?_, ?_, ?_, ?_, ⟨?_, ?_, ?_⟩, ?_⟩
  · rw [hConn]
    exact hWrites
  · rw [hConn]
    exact hPresent
  · rw [hConn]
    exact hSettled
  · rw [hConn]
    exact hIndexed
  · rw [hConn]
    dsimp only
    rw [List.lookup_cons, hLockNe]
    exact hDirty
  · rw [hConn]
    dsimp only
    rw [lookup_pageForWrite_cache (Ne.symm hNotLock)]
    exact hCache
  · intro hLockPos
    simp only [ConnOp.written, if_neg (Ne.symm hNotLock)]
    exact hZero hLockPos
  · intro p hPagePos hIn
    by_cases hSame : p = pgno
    · subst hSame
      simp only [ConnOp.written, if_true]
      exact hPage
    · simp only [ConnOp.written, if_neg hSame]
      rw [hOther p hSame]
      exact hBefore p hPagePos ((hEnd p hIn).resolve_left hSame)

/- A truncation. -/
theorem Writing.truncate (hWriting : s.Writing lib files pages) {newCommit : Nat}
    (hAllowed : newCommit ≤ s.conn.commit) (hTruncate : s.conn.truncate lib newCommit = .ok c)
    (hRegular : Regular { s with conn := c }) :
    Writing lib files pages { s with conn := c } := by
  have hLeft : ∀ i, i < newCommit → c.sees lib files (i + 1) = s.conn.sees lib files (i + 1) :=
    fun i hLt => sees_truncate hTruncate hLt
  have hConn := (truncate_spec hTruncate).2
  rcases hWriting with
    ⟨_, hPolled, hWrites, hPresent, hSettled, hIndexed, ⟨hDirty, hCache, hZero⟩, hBefore⟩
  have hDirty' : c.dirty.lookup lib.lockPgno = none := by
    rw [hConn]
    dsimp only
    rw [lookup_restrict]
    split
    · exact hDirty
    · rfl
  have hIndex := lookup_eq_none_of_ne hIndexed
  -- the lock page is empty also if it is cut off
  have hLock : newCommit < lib.lockPgno → c.sees lib files lib.lockPgno = some lib.zero := by
    intro hPast
    have hStored : c.stored lib files lib.lockPgno = some lib.zero := by
      unfold stored
      rw [hConn]
      dsimp only
      rw [hCache, hIndex]
      dsimp only
      rw [if_pos hWrites]
    have hHydrated : c.hydrated.map (fun h => h.readAt lib lib.lockPgno) =
      s.conn.hydrated.map (fun _ => lib.zero) := by
      rw [hydrated_map (fun h => ?_) (by rw [hConn]), Option.map_map]
      · cases hIs : s.conn.hydrated with
        | none => rfl
        | some h =>
          have hPage := PagedFile.getD_resize lib.zero newCommit (lib.lockPgno - 1) h.file
          rw [if_neg (by omega)] at hPage
          simp only [map_some, Function.comp_apply, complete_of_hydrated hIs, if_true]
          exact congrArg some hPage
      · split
        · rfl
        · rfl
    have hNone : c.dirtyPage lib.lockPgno = none := by
      unfold dirtyPage
      rw [hDirty']
      split
      · rfl
      · rfl
    rw [sees_eq, hNone, hHydrated, hStored]
    cases s.conn.hydrated with
    | none | some => rfl
  have hSees : ∀ p, 1 ≤ p → p ≤ newCommit ∨ p = lib.lockPgno →
    c.sees lib files p = some (pages p) := by
    intro p hPos hIn
    by_cases hLe : p ≤ newCommit
    · rcases Nat.exists_eq_add_of_le' hPos with ⟨i, rfl⟩
      rw [hLeft i hLe]
      exact hBefore (i + 1) hPos (Or.inl (Nat.le_trans hLe hAllowed))
    · have hEq := hIn.resolve_left hLe
      subst hEq
      rw [hLock (by omega), hZero hPos]
  rw [hConn] at hDirty' hSees hRegular ⊢
  exact ⟨hRegular, hPolled, hWrites, hPresent, hSettled, hIndexed, ⟨hDirty', hCache, hZero⟩, hSees⟩

theorem Writing.refetches (hWriting : s.Writing lib files pages) (hRefetches : s.Refetches pgno) :
    ∀ d, s.conn.cache.lookup pgno = some d → ∃ e, s.conn.index.lookup pgno = some e ∧
      (files e).page pgno = some d := by
  intro d hLookup
  rcases hRefetches d hLookup with ⟨e, hEntry, hFetch⟩
  exact ⟨e, hEntry, (hWriting.stocked pgno).fetched hEntry hFetch⟩

theorem Writing.evict (hWriting : s.Writing lib files pages)
    (hAllowed : KeepsWrites lib s (.evict pgno))
    (hRegular : Regular { s with conn := s.conn.evict pgno }) :
    Writing lib files pages { s with conn := s.conn.evict pgno } := by
  have hWas := hWriting
  rcases hWriting with
    ⟨_, hPolled, hWrites, hPresent, hSettled, hIndexed, ⟨hDirty, hCache, hZero⟩, hBefore⟩
  refine ⟨hRegular, hPolled, hWrites, hPresent, hSettled, hIndexed, ⟨hDirty, ?_, hZero⟩, ?_⟩
  · unfold VFSConn.evict
    rw [lookup_restrict]
    split
    · exact hCache
    · rfl
  · intro p hPos hIn
    have hSame : (s.conn.evict pgno).sees lib files p = s.conn.sees lib files p := by
      refine sees_evict ?_
      rintro rfl
      rcases hAllowed with hPast | hSome | hSome | hIndex
      · -- only the lock page is behind the end
        have hEq : p = lib.lockPgno := hIn.resolve_left (Nat.not_le_of_lt hPast)
        right
        right
        intro d hLookup
        rw [hEq, hCache] at hLookup
        cases hLookup
      · left
        unfold dirtyPage
        rw [if_pos hWrites]
        exact hSome
      · exact Or.inr (Or.inl hSome)
      · exact Or.inr (Or.inr (hWas.refetches hIndex))
    exact hSame.trans (hBefore p hPos hIn)

theorem Writing.keepsSynced (hWriting : s.Writing lib files pages) {evicted}
    (hAllowed : KeepsWrites lib s (.sync evicted)) : s.conn.KeepsSynced files evicted := by
  refine hAllowed.imp_right fun ⟨hFits, hOthers⟩ => ⟨hFits, fun p hMem => ?_⟩
  rcases hOthers p hMem with hDirty | hRefetches
  · left
    rw [dirtyPage_of_enabled hWriting.writes]
    exact hDirty
  · exact Or.inr (Or.inr (hWriting.refetches hRefetches))

/- A sync. -/
theorem Writing.sync (hWriting : s.Writing lib files pages) {evicted}
    (hEvicts : s.conn.Evicts evicted) (hAllowed : KeepsWrites lib s (.sync evicted))
    (info : FileInfo) (file : Layer D) (uploaded : Nat) (hRegular : Regular { s with
      replica :=
        { s.replica.append 0 (info, file) with
          uploaded := uploaded }
      conn := s.conn.afterUpload lib evicted }) :
    Writing lib files pages { s with
      replica :=
        { s.replica.append 0 (info, file) with
          uploaded := uploaded }
      conn := s.conn.afterUpload lib evicted } := by
  have hDirtyPos := hWriting.regular.dirty
  have hKeeps := hWriting.keepsSynced hAllowed
  rcases hWriting with
    ⟨_, hPolled, hWrites, hPresent, hSettled, hIndexed, ⟨hDirty, hCache, hZero⟩, hBefore⟩
  refine ⟨hRegular, ?_, hWrites, hPresent, hSettled, ?_, ⟨rfl, ?_, hZero⟩, ?_⟩
  · have hLevel : content { s.replica.append 0 (info, file) with
      uploaded := uploaded } 1 = s.replica.content 1 := by
      exact content_append s.replica 0 1 (info, file)
    cases hPhase : s.phase with
    | polledL0 polled =>
      rw [hPhase] at hPolled
      refine ⟨hPolled.1, hPolled.2.1, ?_⟩
      rw [hLevel]
      exact hPolled.2.2
    | polledL1 polled =>
      rw [hPhase] at hPolled
      exact hPolled
    | _ => trivial
  · intro p e hLookup
    rcases hIndexed p e hLookup with ⟨hNe, d, hCalm, hPage⟩
    exact ⟨hNe, d, Published.fetchPage_append hCalm 0 (info, file), hPage⟩
  · unfold VFSConn.afterUpload
    dsimp only
    rw [lookup_restrict, List.lookup_append, hDirty, hCache]
    split
    · rfl
    · rfl
  · intro p hPos hIn
    rcases Nat.exists_eq_add_of_le' hPos with ⟨i, rfl⟩
    have hSame := @sees_afterUpload D lib files s.conn _ hWrites hDirtyPos hEvicts hKeeps i
    exact hSame.trans (hBefore (i + 1) hPos hIn)

/- Steps that meet the condition keep the writes. -/
theorem Writing.step (hWriting : s.Writing lib files pages) (hOwn : op.own = true)
    (hAllowed : KeepsWrites lib s op) (hStep : Step lib AnyUpload s op s') :
    s'.Writing lib files (op.written pages) := by
  have hRegular := hWriting.regular.step hStep
  have hWas := hWriting
  rcases hWriting with ⟨_, hPolled, hWrites, hPresent, hSettled, hIndexed, hLock, hSees⟩
  cases hStep with
  | @pollL0 penv polled hPhase hPoll =>
    refine ⟨hRegular, ?_, hWrites, hPresent, hSettled, hIndexed, hLock, hSees⟩
    rcases hAllowed hPhase with ⟨hLevel0, hLevel1⟩
    unfold VFSFile.pollL0 at hPoll
    split at hPoll
    · cases hPoll
    · rename_i l0 hL0
      rw [← Except.ok.inj hPoll, pollLevel_empty hLevel0 hL0]
      exact ⟨rfl, rfl, hLevel1⟩
  | @pollL1 penv polled polled1 hPhase hPoll =>
    refine ⟨hRegular, ?_, hWrites, hPresent, hSettled, hIndexed, hLock, hSees⟩
    rw [hPhase] at hPolled
    rcases hPolled with ⟨hIndex, hReplace, hLevel1⟩
    unfold PolledL0.pollL1 at hPoll
    split at hPoll
    · cases hPoll
    · rename_i l1 hL1
      rw [← Except.ok.inj hPoll, pollLevel_empty hLevel1 hL1]
      simp [PollPhase.Empty, PolledL1.combined, PolledL1.replaceIndex, hIndex, hReplace]
  | abandon _ => exact ⟨hRegular, trivial, hWrites, hPresent, hSettled, hIndexed, hLock, hSees⟩
  | apply hPhase =>
    rw [hPhase] at hPolled
    rw [applyPoll_empty hPolled _ hPresent hSettled.2] at hRegular ⊢
    exact ⟨hRegular, trivial, hWrites, hPresent, hSettled, hIndexed, hLock, hSees⟩
  | lock _ hTake =>
    rcases lock_spec hTake with ⟨_, _, _, _, _, _, rfl, _⟩
    exact ⟨hRegular, hPolled, hWrites, hPresent, hSettled, hIndexed, hLock, hSees⟩
  | @unlock elock c _ hUnlock =>
    have hConn := (unlock_spec hUnlock).2
    rw [hSettled.1, hSettled.2] at hConn
    -- nothing was pending
    have hIndex : c.index = s.conn.index := by
      rw [hConn]
      rfl
    have hCache : c.cache = s.conn.cache := by
      rw [hConn]
      simp [restrict]
    have hSame : ∀ p, c.sees lib files p = s.conn.sees lib files p := by
      intro p
      refine sees_congr ?_ ?_ ?_
      · rw [hConn]
        rfl
      · rw [hConn]
        rfl
      · unfold stored
        rw [hIndex, hCache, hConn]
    refine ⟨hRegular, hPolled, ?_, ?_, ?_, ?_, ?_, ?_⟩
    · rw [hConn]
      exact hWrites
    · rw [hConn]
      exact hPresent
    · rw [hConn]
      exact ⟨rfl, rfl⟩
    · dsimp only
      rw [hIndex]
      exact hIndexed
    · dsimp only
      rw [hCache, hConn]
      exact hLock
    · intro p hPos hIn
      rw [hConn] at hIn
      rw [hSame]
      exact hSees p hPos hIn
  | readAt _ _ hRead => exact hWas.readAt hRead hRegular
  | writeAt _ hPos hWrite => exact hWas.writeAt hPos hAllowed hWrite hRegular
  | truncate _ hTruncate => exact hWas.truncate hAllowed hTruncate hRegular
  | evict _ => exact hWas.evict hAllowed hRegular
  | sync _ _ _ hSync _ _ _ _ hEvicts =>
    rcases syncToRemoteWithLock_spec hSync with ⟨_, _, rfl⟩
    exact hWas.sync hEvicts hAllowed _ _ _ hRegular
  | _ => cases hOwn

theorem WritingRun.writing {x y : ConnState D × (Nat → D)} (hWriting : x.1.Writing lib files x.2)
    (hRun : WritingRun lib (fun s op => op.own = true ∧ KeepsWrites lib s op) x y) :
    y.1.Writing lib files y.2 := by
  induction hRun with
  | refl => exact hWriting
  | tail _ hLast ih =>
    rcases hLast with ⟨op, ⟨hOwn, hAllowed⟩, hStep, hPages⟩
    rw [hPages]
    exact ih.step hOwn hAllowed hStep

/- A file that was just opened sees its base pages. -/
theorem Prepared.writing {H : History lib} (hPrepared : s.Prepared H) :
    s.Writing lib (fun e => slice H.tx e.minTXID e.maxTXID) (s.page lib) := by
  have hIndexed : ∀ p e, s.conn.index.lookup p = some e → p ≠ lib.lockPgno ∧
    ∃ d, s.replica.fetchPage calmPages e p = .ok d ∧
      (slice H.tx e.minTXID e.maxTXID).page p = some d := by
    intro p e hLookup
    rcases hPrepared.indexed p e hLookup with ⟨hNe, d, hCalm⟩
    exact ⟨hNe, d, hCalm, hPrepared.faithful.holds.fetchPage hCalm⟩
  have hDirty : ∀ p, s.conn.dirtyPage p = none := by
    intro p
    unfold dirtyPage
    rw [hPrepared.dirty]
    split
    · rfl
    · rfl
  -- every page can be seen
  have hSome : ∀ p, ∃ d, s.conn.sees lib (fun e => slice H.tx e.minTXID e.maxTXID) p = some d := by
    intro p
    rw [sees_eq, hDirty]
    cases s.conn.hydrated with
    | some h => exact ⟨_, rfl⟩
    | none =>
      have hCache : s.conn.cache.lookup p = none := by
        rw [hPrepared.cache]
        rfl
      unfold stored
      rw [hCache]
      cases hIndex : s.conn.index.lookup p with
      | none =>
        rw [if_pos hPrepared.writes]
        exact ⟨_, rfl⟩
      | some e =>
        rcases hIndexed p e hIndex with ⟨_, d, _, hPage⟩
        exact ⟨d, hPage⟩
  -- and is what a read returns
  have hPage : ∀ p, s.conn.sees lib
    (fun e => slice H.tx e.minTXID e.maxTXID) p = some (s.page lib p) := by
    intro p
    rcases hSome p with ⟨d, hd⟩
    have hRead : ∃ c, s.conn.readAt lib (s.replica.fetchPage calmPages) p = .ok (d, c) := by
      refine readAt_of_sees ?_ hd
      intro e hLookup hHeld
      rcases hIndexed p e hLookup with ⟨_, d', hCalm, hIs⟩
      have hSame : some d = some d' := hHeld.symm.trans hIs
      rw [hCalm, some.inj hSame]
    rcases hRead with ⟨c, hc⟩
    rw [hd]
    unfold page
    rw [hc]
  refine ⟨hPrepared.regular, ?_, hPrepared.writes, hPrepared.present, hPrepared.settled, hIndexed,
    ⟨?_, ?_, ?_⟩, fun p _ _ => hPage p⟩
  · rcases hPrepared.phase with hClosed | hIdle
    · rw [hClosed]
      trivial
    · rw [hIdle]
      trivial
  · rw [hPrepared.dirty]
    rfl
  · rw [hPrepared.cache]
    rfl
  · intro hPos
    have hLock := hPage lib.lockPgno
    rw [sees_eq, hDirty] at hLock
    cases hHydrated : s.conn.hydrated with
    | some h =>
      rw [hHydrated] at hLock
      have hHydrator : s.conn.hydrator = some h := (filter_eq_some_iff.mp hHydrated).1
      rw [← hPrepared.lockPage (Or.inr (by rw [hHydrated]; rfl)) h hHydrator hPos]
      exact (some.inj hLock).symm
    | none =>
      rw [hHydrated] at hLock
      have hIndex := lookup_eq_none_of_ne hIndexed
      have hCache : s.conn.cache.lookup lib.lockPgno = none := by
        rw [hPrepared.cache]
        rfl
      have hStored : s.conn.stored lib (fun e => slice H.tx e.minTXID e.maxTXID)
        lib.lockPgno = some lib.zero := by
        unfold stored
        rw [hCache, hIndex]
        rw [if_pos hPrepared.writes]
      have hZero : s.conn.stored lib (fun e => slice H.tx e.minTXID e.maxTXID)
        lib.lockPgno = some (s.page lib lib.lockPgno) := hLock
      rw [hStored] at hZero
      exact (some.inj hZero).symm

end ConnState

theorem VFSConn.fileSize_afterUpload_iff {pageSize : Nat} (hSize : 0 < pageSize) (evicted : List Nat)
    (c : VFSConn D) : (c.afterUpload lib evicted).fileSize pageSize = c.fileSize pageSize ↔
      maxKey c.dirty ≤ maxKey (c.pending ++ c.index) := by
  have hAfter : (c.afterUpload lib evicted).fileSize pageSize =
    maxKey (c.pending ++ c.index) * pageSize := by
    rw [fileSize_eq]
    unfold VFSConn.afterUpload
    dsimp only [maxKey]
    rw [Nat.zero_max]
  rw [hAfter, fileSize_eq, Nat.mul_left_inj (Nat.ne_of_gt hSize)]
  omega

/-
  After an open, and a hydration if there is one, in every
  run whose steps meet the condition, a read of a page of
  the database returns what the writes left. A sync that
  meets it changes no read, and any sync keeps the size
  exactly if no dirty page is behind the end of the index.
-/
theorem own_writes_read
    {H : History lib}
    {s₀ s : ConnState D}
    {pages : Nat → D}
    (hOpened :
      ConnState.Run lib (Change H) Prepares
        (ConnState.start empty true) s₀)
    (hRun :
      ConnState.WritingRun lib
        (fun s op => op.own = true ∧ KeepsWrites lib s op)
        (s₀, s₀.page lib) (s, pages)) :
    (∀ p,
      1 ≤ p → p ≤ s.conn.commit → s.Reads lib p (pages p)) ∧
    ∀ evicted s',
      ConnState.Step lib AnyUpload s (.sync evicted) s' →
      (KeepsWrites lib s (.sync evicted) →
        ∀ p d, 1 ≤ p → s.Reads lib p d → s'.Reads lib p d) ∧
      ∀ pageSize,
        0 < pageSize →
        (s'.conn.fileSize pageSize =
          s.conn.fileSize pageSize ↔
          maxKey s.conn.dirty ≤
            maxKey (s.conn.pending ++ s.conn.index)) := by
  have hWriting := hRun.writing hOpened.prepared.writing
  constructor
  · intro p hPos hIn
    exact ((hWriting.stocked p).reads_iff _).mpr (hWriting.sees p hPos (Or.inl hIn))
  · intro evicted s' hStep
    have hTaken := hStep
    cases hStep with
    | sync _ _ _ hSync _ _ _ _ hEvicts =>
      rcases syncToRemoteWithLock_spec hSync with ⟨_, _, rfl⟩
      constructor
      · intro hKeeps p d hPos hReads
        have hAfter := hWriting.step rfl hKeeps hTaken
        rw [(hWriting.stocked p).reads_iff] at hReads
        rw [(hAfter.stocked p).reads_iff]
        rcases Nat.exists_eq_add_of_le' hPos with ⟨i, rfl⟩
        exact (sees_afterUpload hWriting.writes hWriting.regular.dirty hEvicts
          (hWriting.keepsSynced hKeeps) i).trans hReads
      · intro pageSize hSize
        exact fileSize_afterUpload_iff hSize evicted s.conn

-- A Write That Is Read

theorem writableState_prepared : ConnState.Run referenceLibrary
    (Change threeVersions) Prepares
    (ConnState.start empty true)
    writableState :=
  (Relation.ReflTransGen.single ⟨.change none, rfl,
    .change (Change.upload rfl rfl rfl (by decide))⟩).tail
    ⟨.openFile, trivial, writableState_opened⟩

def wroteState (s : ConnState Nat) (cache : List (Nat × Nat)) (locked : Bool) : ConnState Nat :=
  { s with
    conn :=
      { s.conn with
        commit := 1
        dirty := [(1, 7)]
        cache := cache
        lockType := if locked then .reserved else .none
        inTransaction := locked } }

def reservedState (s : ConnState Nat) : ConnState Nat :=
  { s with
    conn :=
      { s.conn with
        lockType := .reserved
        inTransaction := true } }

def wrotePages (s : ConnState Nat) : Nat → Nat :=
  ConnOp.written (s.page referenceLibrary) (.writeAt 1 (fun _ => 7) calmPages)

theorem wroteState_reached {allowed s cache} (hOpen : s.phase ≠ .closed)
    (hLock : s.conn.lock none .reserved = .ok (reservedState s).conn)
    (hWrite : (reservedState s).conn.writeAt referenceLibrary
      ((reservedState s).replica.fetchPage calmPages) 1
      (fun _ => 7) = .ok (wroteState s cache true).conn)
    (hUnlock : (wroteState s cache true).conn.unlock .none = .ok (wroteState s cache false).conn)
    (hAllowed : allowed s (.lock none .reserved) ∧ allowed (reservedState s)
      (.writeAt 1 (fun _ => 7) calmPages) ∧ allowed (wroteState s cache true) (.unlock .none)) :
    ConnState.WritingRun referenceLibrary allowed (s, s.page referenceLibrary)
      (wroteState s cache false, wrotePages s) := by
  have hTaken : ConnState.WritingRun referenceLibrary allowed (s, s.page referenceLibrary)
    (reservedState s, s.page referenceLibrary) :=
    .single ⟨.lock none .reserved, hAllowed.1, .lock hOpen hLock, rfl⟩
  have hChanged : ConnState.WritingRun referenceLibrary allowed (s, s.page referenceLibrary)
    (wroteState s cache true, wrotePages s) :=
    hTaken.tail ⟨_, hAllowed.2.1, .writeAt hOpen (Nat.le_refl 1) hWrite, rfl⟩
  exact hChanged.tail ⟨_, hAllowed.2.2, .unlock hOpen hUnlock, rfl⟩

def uploadedState (s : ConnState Nat) : ConnState Nat :=
  { s with
    replica :=
      { s.replica.append 0 (uploadOf s.conn.pendingTXID,
        s.conn.createLTXFromDirty referenceLibrary) with
        uploaded := s.conn.pendingTXID }
    conn := s.conn.afterUpload referenceLibrary [] }

def wroteWritable : ConnState Nat :=
  wroteState writableState [(1, 1)] false

theorem wroteWritable_synced : ConnState.Step referenceLibrary AnyUpload
    wroteWritable (.sync []) (uploadedState wroteWritable) :=
  @ConnState.Step.sync Nat referenceLibrary _ wroteWritable
    .none ⟨[uploadOf 1], none⟩ (uploadOf 2) _ _ [] (by decide)
    rfl (by rfl) (by rfl) rfl rfl rfl trivial nofun

/- It writes its page, syncs it and reads it. -/
theorem wroteWritable_reads :
    (uploadedState wroteWritable).Reads referenceLibrary 1
      7 := by
  have hWrote : ConnState.WritingRun referenceLibrary
    (fun s op => op.own = true ∧ KeepsWrites referenceLibrary s op)
    (writableState, writableState.page referenceLibrary)
    (wroteWritable, wrotePages writableState) :=
    wroteState_reached (by decide) (by rfl) (by rfl) (by rfl) ⟨⟨rfl, trivial⟩,
      ⟨rfl, Or.inr ⟨fun _ _ => rfl, Or.inl (by decide)⟩⟩,
      ⟨rfl, trivial⟩⟩
  exact (own_writes_read writableState_prepared
    (hWrote.tail ⟨.sync [], ⟨rfl, Or.inr ⟨by unfold DirtyFits; decide, nofun⟩⟩,
      wroteWritable_synced, rfl⟩)).1 1 (Nat.le_refl 1) (Nat.le_refl 1)

-- A Write That Is Lost

def freshState : ConnState Nat where
  replica := empty
  conn := { new true with cacheEntries := 1, compactor := true, pendingTXID := 1 }
  phase := .idle
  hydration := .idle
  saved := none

theorem freshState_prepared : ConnState.Run referenceLibrary
    (Change threeVersions) Prepares
    (ConnState.start empty true) freshState :=
  Relation.ReflTransGen.single ⟨.openFile, trivial, @ConnState.Step.openNew Nat referenceLibrary
    (Change threeVersions)
    (ConnState.start empty true)
    (.sentinel .txNotAvailable) smallCache rfl
    ⟨fun _ => .none, by decide⟩ rfl rfl (Nat.le_refl 1)⟩

def wroteFresh : ConnState Nat :=
  wroteState freshState [] false

/-
  A new database is written, synced, and its page evicted.
  The sync sets the size to zero, and after the eviction the
  page reads as zeros.
-/
theorem own_write_lost :
    ∃ s₀ s₁ s₂ s pages,
      ConnState.Run referenceLibrary (Change threeVersions)
        Prepares (ConnState.start empty true) s₀ ∧
      ConnState.WritingRun referenceLibrary
        (fun _ op => op.own = true)
        (s₀, s₀.page referenceLibrary) (s₁, pages) ∧
      ConnState.Step referenceLibrary AnyUpload s₁
        (.sync []) s₂ ∧
      ConnState.Step referenceLibrary AnyUpload s₂
        (.evict 1) s ∧
      s₁.conn.fileSize 4096 = 4096 ∧
      s₂.conn.fileSize 4096 = 0 ∧
      pages 1 = 7 ∧
      s.conn.commit = 1 ∧
      s.Reads referenceLibrary 1 0 := by
  have hSync : ConnState.Step referenceLibrary AnyUpload
    wroteFresh (.sync []) (uploadedState wroteFresh) :=
    @ConnState.Step.sync Nat referenceLibrary _ wroteFresh
      .none ⟨[], none⟩ (uploadOf 1) _ _ [] (by decide) rfl
      (by rfl) (by rfl) rfl rfl rfl trivial nofun
  refine ⟨freshState, wroteFresh, uploadedState wroteFresh, _, _, freshState_prepared,
    wroteState_reached (by decide) rfl rfl rfl ⟨rfl, rfl, rfl⟩, hSync, .evict (by decide),
    by decide, by decide, rfl, rfl, ⟨_, rfl⟩, ?_⟩
  rintro pageErr d' c hRead
  exact (Prod.mk.inj (Except.ok.inj hRead)).1.symm

end Replicate
