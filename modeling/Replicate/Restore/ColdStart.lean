import Replicate.Restore.PlannerCorrectness
import Replicate.Restore.Replay

/-
  When a replica is taken for an empty one.

  The SDK's `Restore` reports a cold start for three errors
  of `Replica.Restore`, and a write-enabled `VFSFile.Open`
  starts a new database for one. Only a replica that lists
  nothing should end there. It does not hold for a replica
  with files but without a start, or when something is
  found missing after the listing.

  Each call has its own answer, so files can be deleted
  between any two of them.

  Main declarations:
    * `SDK.restore`
    * `VFSFile.openWriteEnabled`
    * `calcRestorePlan_startless_iff`
    * `coldStart_iff`
    * `coldStart_with_files`
-/

-- Treating A Replica As Empty

namespace Replicate

open RestoreOutcome Traversal List Option

/- The errors that the SDK takes for an empty replica. -/
def Err.meansEmpty (err : Err) : Bool :=
  err.is .txNotAvailable || err.is .noSnapshots || err.is .notExist

@[simp] theorem Err.meansEmpty_wrap (msg : String) (err : Err) :
    (Err.wrap msg err).meansEmpty = err.meansEmpty := rfl

@[simp] theorem Err.meansEmpty_text (msg : String) : (Err.text msg).meansEmpty = false := rfl

namespace SDK

/-
  `newReplica`. The answer `config` stands for the checks
  of the URL and of the encryption policy.
-/
def newReplica (config : Option Err) (dbPath replicaURL : String) : Except Err Unit :=
  if dbPath = "" then .error (.text "replicate: database path required")
  else if replicaURL = "" then .error (.text "replicate: replica URL required")
  else
    match config with
    | some err => .error err
    | none => .ok ()

/- `NewRestoreOptions`, with the output path set. -/
def restoreOptions (dbPath : String) : RestoreOptions where
  outputPath := dbPath
  txID := 0
  timestamp := 0
  follow := false
  integrityCheck := .none

/- The SDK's `Restore`. -/
def restore {D : Type} (lib : LtxLibrary D) (config : Option Err)
    (env : RestoreEnv D) (fs : FileSystem D) (dbPath replicaURL : String) : Bool × Option Err :=
  match newReplica config dbPath replicaURL with
  | .error err => (false, some err)
  | .ok () =>
    match (Replicate.restore lib env (restoreOptions dbPath) fs).err with
    | none => (true, none)
    | some err => if err.meansEmpty then (false, none) else (false, some err)

end SDK

namespace VFSFile

/-
  Where `Open` goes: on with a plan, to the new-database
  path with the TXID of its first transaction, or out with
  an error.
-/
inductive OpenResult where
  | planned (infos : List FileInfo)
  | newDatabase (pendingTXID : Nat)
  | failed (err : Err)
  deriving DecidableEq, Repr

/- `Open` of a write-enabled file. -/
def openWriteEnabled (files : Listing) : OpenResult :=
  match calcRestorePlan files 0 0 with
  | .ok infos => .planned infos
  | .error err => if err.is .txNotAvailable then .newDatabase 1 else .failed err

end VFSFile

-- Planning Without A Start

variable {items : List FileInfo}

open RestoreLevelCursor

/-
  What the planner reads of a level holds no start: every
  file from TXID 1 on is void, and it reads on to the end,
  or to a file that starts later.
-/
def FileIterator.Barren (itr : FileIterator) : Prop :=
  (∀ f ∈ itr.items, f.minTXID ≤ 1 → f.maxTXID = 0) ∧
    (itr.err = none ∨ ∃ f ∈ itr.items, 1 < f.minTXID)

/-
  No listing fails before the planner is done with it, and
  nothing that is listed can start a plan.
-/
def Listing.Startless (files : Listing) : Prop :=
  files snapshotLevel = .ok ⟨[], none⟩ ∧ ∀ level < snapshotLevel, ∃ itr,
    files level = .ok itr ∧ itr.Barren

theorem refreshLoop_candidate_isSome {err best c}
    (hRun : refreshLoop 0 0 0 err items (some best) = .ok c) : c.candidate ≠ none := by
  induction items generalizing best with
  | nil =>
    cases err with
    | some e => simp [refreshLoop] at hRun
    | none =>
      simp only [refreshLoop, Except.ok.injEq] at hRun
      rw [← hRun]
      simp
  | cons info rest ih =>
    simp only [refreshLoop] at hRun
    split at hRun
    · rw [Except.ok.injEq] at hRun
      rw [← hRun]
      simp
    split at hRun
    · exact ih hRun
    split at hRun
    · exact ih hRun
    · cases hOffer : offer (some best) info with
      | none =>
        unfold offer at hOffer
        split at hOffer
        · simp at hOffer
        · split at hOffer <;> simp at hOffer
      | some next =>
        rw [hOffer] at hRun
        exact ih hRun

/- A first refresh ends without a candidate when barren. -/
theorem refreshLoop_barren_iff {itr : FileIterator} (hSorted :
    itr.items.Pairwise (fun f g => f.minTXID ≤ g.minTXID)) :
    (∃ c, refreshLoop 0 0 0 itr.err itr.items none = .ok c ∧ c.candidate = none) ↔ itr.Barren := by
  rcases itr with ⟨items, err⟩
  unfold FileIterator.Barren
  have hNext : TXID.next 0 = 1 := by decide
  induction items with
  | nil =>
    cases err with
    | some | none => simp [refreshLoop]
  | cons info rest ih =>
    rcases pairwise_cons.mp hSorted with ⟨hFirst, hRest⟩
    simp only [refreshLoop, hNext]
    by_cases hLater : 1 < info.minTXID
    · -- everything from here on starts too late
      rw [if_pos hLater]
      refine iff_of_true ⟨_, rfl, rfl⟩ ⟨?_, Or.inr ?_⟩
      · intro f hf hMin
        rcases mem_cons.mp hf with rfl | hTail
        · omega
        · have hLe := hFirst f hTail
          omega
      · exact ⟨info, mem_cons_self, hLater⟩
    · rw [if_neg hLater]
      by_cases hVoid : info.maxTXID ≤ 0
      · rw [if_pos hVoid]
        refine (ih hRest).trans ?_
        have hZero : info.maxTXID = 0 := Nat.le_zero.mp hVoid
        simp only [mem_cons, forall_eq_or_imp, hZero,
          implies_true, true_and, exists_eq_or_imp, hLater,
          false_or]
      -- a start: it becomes the candidate
      have hElig : Eligible 0 0 info := by simp [Eligible]
      rw [if_neg hVoid, if_neg (not_not.mpr hElig)]
      apply iff_of_false
      · rintro ⟨c, hRun, hNone⟩
        exact refreshLoop_candidate_isSome hRun hNone
      · rintro ⟨hAll, _⟩
        have hEnd := hAll info mem_cons_self (by omega)
        omega

theorem findSnapshot_zero_eq_none_iff : findSnapshot 0 0 items = none ↔ items = [] := by
  constructor
  · intro hNone
    cases items with
    | nil => rfl
    | cons f fs =>
      exact absurd (by simp [Eligible]) (findSnapshot_eq_none hNone f mem_cons_self)
  · rintro rfl
    rfl

/- A replica without a start has no plan. -/
theorem calcRestorePlan_of_startless {files : Listing} (hSorted : files.Sorted)
    (hStartless : files.Startless) :
    calcRestorePlan files 0 0 = .error (.sentinel .txNotAvailable) := by
  rcases hStartless with ⟨hSnapshots, hLevels⟩
  have hRun := calcRestorePlanFuel_eq files 0 0 (Nat.le_succ (planFuel files))
  have hOpen : ∃ cursors, openCursors files = .ok cursors := by
    cases hCursors : openCursors files with
    | ok cursors => exact ⟨cursors, rfl⟩
    | error e =>
      rcases openCursors_error hCursors with ⟨level, hLevel, hEq⟩
      rcases hLevels level hLevel with ⟨itr, hItr, _⟩
      rw [hItr] at hEq
      simp at hEq
  rcases hOpen with ⟨cursors, hOpen⟩
  -- the first round refreshes every cursor to no candidate
  have hEach : ∀ c ∈ cursors, ∃ c', c.refresh 0 0 0 = .ok c' ∧ c'.candidate = none := by
    intro c hc
    rcases (mem_openCursors_iff hOpen c).mp hc with ⟨level, hLevel, itr, hItr, rfl⟩
    rcases hLevels level hLevel with ⟨itr', hItr', hBarren⟩
    rw [hItr, Except.ok.injEq] at hItr'
    subst hItr'
    exact (refreshLoop_barren_iff (hSorted level hLevel itr hItr)).mpr hBarren
  have hRefresh : ∃ cursors', refreshAll 0 0 0 cursors = .ok cursors' := by
    cases hAll : refreshAll 0 0 0 cursors with
    | ok cursors' => exact ⟨cursors', rfl⟩
    | error e =>
      rcases exists_of_mapM_eq_error hAll with ⟨c, hc, hErr⟩
      rcases hEach c hc with ⟨c', hOk, _⟩
      rw [hOk] at hErr
      simp at hErr
  rcases hRefresh with ⟨cursors', hRefresh⟩
  have hSelect : selectNext cursors' 0 none = none := by
    cases hNext : selectNext cursors' 0 none with
    | none => rfl
    | some next =>
      rcases selectNext_eq_some hNext with hNone | ⟨_, c', _, hGet, hCand⟩
      · simp at hNone
      rcases exists_of_mem_result hRefresh (mem_of_getElem? hGet) with ⟨c, hc, hRef⟩
      rcases hEach c hc with ⟨d, hOk, hNone⟩
      rw [hRef, Except.ok.injEq] at hOk
      rw [hOk, hNone] at hCand
      simp at hCand
  unfold calcRestorePlanFuel at hRun
  simp only [hSnapshots, findSnapshot, foldl_nil, toList_none, maxTXIDOf, getLast?_nil, hOpen,
    planLoop, hRefresh, hSelect] at hRun
  simpa [finishPlan, bind, Except.bind] using hRun.symm

theorem refreshLoop_eq_error {e : Err} {candidate} (hEarly : ∀ f ∈ items, f.minTXID ≤ 1) :
    refreshLoop 0 0 0 (some e) items candidate = .error e := by
  have hNext : TXID.next 0 = 1 := by decide
  induction items generalizing candidate with
  | nil => rfl
  | cons info rest ih =>
    have hInfo := hEarly info mem_cons_self
    have hRest := fun f hf => hEarly f (mem_cons_of_mem info hf)
    simp only [refreshLoop, hNext]
    rw [if_neg (by omega)]
    split
    · exact ih hRest
    · split
      · exact ih hRest
      · exact ih hRest

section Planner

variable {files : Listing}

/-
  When the planner finds no transaction, every call was
  answered and the first refresh failed for no cursor.
-/
theorem calcRestorePlan_answered {e : Err} (hListed : ¬ files.Fails e)
    (hItems : ∀ itr, files snapshotLevel = .ok itr → itr.items = [])
    (hCalc : calcRestorePlan files 0 0 = .error e) :
    files snapshotLevel = .ok ⟨[], none⟩ ∧ ∀ level < snapshotLevel, ∃ itr, files level = .ok itr ∧
      ∃ c, (ofIterator itr).refresh 0 0 0 = .ok c := by
  have hRun := calcRestorePlanFuel_eq files 0 0 (Nat.le_succ (planFuel files))
  rw [hCalc] at hRun
  have hNot : ∀ e', files.Fails e' → e' ≠ e := by
    rintro e' hFails rfl
    exact hListed hFails
  unfold calcRestorePlanFuel at hRun
  rw [if_neg (by simp)] at hRun
  cases hSnapshots : files snapshotLevel with
  | error e' =>
    simp only [hSnapshots, some.injEq, Except.error.injEq] at hRun
    exact absurd hRun (hNot e' ⟨_, Nat.le_refl _, Or.inl hSnapshots⟩)
  | ok itr =>
    simp only [hSnapshots] at hRun
    cases hErr : itr.err with
    | some e' =>
      simp only [hErr, some.injEq, Except.error.injEq] at hRun
      exact absurd hRun (hNot e' ⟨_, Nat.le_refl _, Or.inr ⟨itr, hSnapshots, hErr⟩⟩)
    | none =>
      have hNone := hItems itr hSnapshots
      simp only [hErr, hNone, findSnapshot, foldl_nil, toList_none, maxTXIDOf, getLast?_nil] at hRun
      rw [if_neg (by simp)] at hRun
      have hItr : itr = ⟨[], none⟩ := by rw [← hNone, ← hErr]
      refine ⟨by rw [hItr], ?_⟩
      cases hOpen : openCursors files with
      | error e' =>
        simp only [hOpen, some.injEq, Except.error.injEq] at hRun
        rcases openCursors_error hOpen with ⟨level, hLevel, hEq⟩
        exact absurd hRun (hNot e' ⟨level, Nat.le_of_lt hLevel, Or.inl hEq⟩)
      | ok cursors =>
        simp only [hOpen, planLoop] at hRun
        cases hRefresh : refreshAll 0 0 0 cursors with
        | error e' =>
          simp only [hRefresh, some.injEq, Except.error.injEq] at hRun
          rcases exists_of_mapM_eq_error hRefresh with ⟨c, hc, hErrC⟩
          rcases (mem_openCursors_iff hOpen c).mp hc with ⟨level, hLevel, itr', hItr', rfl⟩
          exact absurd hRun (hNot e' ⟨level, Nat.le_of_lt hLevel,
            Or.inr ⟨itr', hItr', refresh_err.1 _ hErrC⟩⟩)
        | ok cursors' =>
          intro level hLevel
          rcases exists_itr_of_openCursors hOpen hLevel with ⟨itr', hItr'⟩
          have hMem :=
            (mem_openCursors_iff hOpen (ofIterator itr')).mpr ⟨level, hLevel, itr', hItr', rfl⟩
          rcases exists_result_of_mem hRefresh hMem with ⟨c', _, hRef⟩
          exact ⟨itr', hItr', c', hRef⟩

/-
  An error that means empty, and not that of a listing call,
  is one of no start at all.
-/
theorem startless_of_calcRestorePlan {e : Err} (hSorted : files.Sorted)
    (hListed : ¬ files.Fails e) (hEmpty : e.meansEmpty = true)
    (hCalc : calcRestorePlan files 0 0 = .error e) : files.Startless := by
  have hTarget : ¬ ((0 : Nat) ≠ 0 ∧ (0 : Int) ≠ 0) := by simp
  rcases calcRestorePlan_cases hSorted hTarget with
    ⟨e', hError, hFails⟩ | ⟨itr, ext, s, hItr, hPlanned, _, hEq⟩
  · rw [hCalc, Except.error.injEq] at hError
    exact absurd (hError ▸ hFails) hListed
  have hInfos : s.infos = [] := by
    rw [hCalc] at hEq
    rcases finishPlan_cases hPlanned with ⟨_, hNone | hShort⟩ | ⟨msg, hText, _⟩ | ⟨hOk, _⟩
    · exact hNone
    · exact absurd rfl hShort.1
    · rw [hText, Except.error.injEq] at hEq
      rw [hEq] at hEmpty
      simp at hEmpty
    · rw [hOk] at hEq
      simp at hEq
  have hParts := hPlanned.infos_eq
  rw [hInfos, eq_comm, append_eq_nil_iff] at hParts
  have hItems : itr.items = [] := by
    rw [← findSnapshot_zero_eq_none_iff]
    simpa [startPlan] using hParts.1
  have hMax : s.currentMax = 0 := by
    rw [hPlanned.currentMax_eq, hInfos]
    rfl
  have hEx : Exhausted files.Walks 0 0 s := by
    rcases hPlanned.finished with hReached | hEx
    · exact absurd rfl hReached.1
    · exact hEx
  have hStuck := hEx.stuck (by rw [hMax]; decide)
  rw [hMax] at hStuck
  rcases calcRestorePlan_answered hListed (fun itr' hItr' => by
    rw [hItr, Except.ok.injEq] at hItr'
    exact hItr' ▸ hItems) hCalc with
    ⟨hSnapshots, hLevels⟩
  refine ⟨hSnapshots, fun level hLevel => ?_⟩
  rcases hLevels level hLevel with ⟨itr', hItr', c, hRef⟩
  refine ⟨itr', hItr', ?_, ?_⟩
  · intro f hf hMin
    have hEnd := hStuck f ⟨⟨level, hLevel, itr', hItr', hf⟩, by simp [Eligible]⟩ hMin
    exact Nat.le_zero.mp hEnd
  · by_contra hNeither
    rcases not_or.mp hNeither with ⟨hErr, hNoLater⟩
    cases hRead : itr'.err with
    | none => exact hErr hRead
    | some e' =>
      have hStops : refreshLoop 0 0 0 (some e') itr'.items none = .error e' :=
        refreshLoop_eq_error (fun f hf => Nat.le_of_not_lt (fun hLt => hNoLater ⟨f, hf, hLt⟩))
      simp only [refresh, ofIterator, unread, toList_none, nil_append, dropStale,
        hRead, hStops] at hRef
      simp at hRef

/- The error of a listing call that ends the planning. -/
def Listing.Stops (files : Listing) (e : Err) : Prop :=
  files.Fails e ∧ calcRestorePlan files 0 0 = .error e

/-
  The planner's error means empty when there is no start, or
  when it is that of a listing call.
-/
theorem calcRestorePlan_startless_iff (hSorted : files.Sorted) :
    (∃ e, calcRestorePlan files 0 0 = .error e ∧ e.meansEmpty = true) ↔
      files.Startless ∨ ∃ e, files.Stops e ∧ e.meansEmpty = true := by
  constructor
  · rintro ⟨e, hCalc, hEmpty⟩
    by_cases hFails : files.Fails e
    · exact Or.inr ⟨e, ⟨hFails, hCalc⟩, hEmpty⟩
    · exact Or.inl (startless_of_calcRestorePlan hSorted hFails hEmpty hCalc)
  · rintro (hStartless | ⟨e, hStops, hEmpty⟩)
    · exact ⟨_, calcRestorePlan_of_startless hSorted hStartless, rfl⟩
    · exact ⟨e, hStops.2, hEmpty⟩

end Planner

-- What Is Listed And What Fails Later

/- No level lists a file. -/
def Listing.Empty (files : Listing) : Prop :=
  ∀ f, ¬ files.Delivers f

/- No generation lists a snapshot. -/
def ClientV3.NoSnapshots (client : ClientV3) : Prop :=
  ∀ generations, client.generations = .ok generations → ∀ gen ∈ generations, ∀ snapshots,
    client.snapshots gen = .ok snapshots → snapshots = []

/- Every listing was answered, and there is no snapshot. -/
def ClientV3.Empty (client : ClientV3) : Prop :=
  ∃ generations, client.generations = .ok generations ∧
    ∀ gen ∈ generations, client.snapshots gen = .ok []

/- The first listing call of a v0.3.x restore that fails. -/
def ClientV3.listingError (client : ClientV3) : Option Err :=
  match client.generations with
  | .error err => some err
  | .ok generations =>
    generations.findSome? (fun gen => errorOf (client.snapshots gen))

section Env

variable {D : Type} {v3 : RestoreEnvV3 D} {client : ClientV3} {dbPath : String}
variable {plan : List FileInfo} {files : Listing} {config : Option Err} {replicaURL : String}

/-
  Nothing was listed by the calls that the restore makes:
  no LTX file and no v0.3.x snapshot.
-/
structure NothingListed (env : RestoreEnv D) (opt : RestoreOptions) : Prop where
  compared : ∀ v3, env.v3 = some v3 → v3.files.Empty ∧ v3.bounds.NoSnapshots
  planned : chooseV3 env opt = .ok none → env.files.Empty
  selected : ∀ v3, chooseV3 env opt = .ok (some v3) → v3.restore.NoSnapshots

/-
  The first failure after the plan: opening the planned
  files in order, creating the temporary file, reading and
  merging, and moving the result into place.
-/
def laterFailure (lib : LtxLibrary D) (env : RestoreEnv D) (plan : List FileInfo) : Option Err :=
  (plan.findSome? (fun info => errorOf (openPlanned env info))).or
    ((env.mkdir.map (.wrap "create parent directory")).or ((env.create.map
      (.wrap "create temp database path")).or
        (((errorOf (plan.mapM (openPlanned env) >>= decodeDatabase lib)).map
          (.wrap "decode database")).or
          ((env.sync.or env.close).or env.rename))))

/- The first failure after the choice of a v0.3.x snapshot. -/
def laterFailureV3 (v3 : RestoreEnvV3 D) (snap : SnapshotInfoV3) : Option Err :=
  ((errorOf (v3.restore.walSegments snap.generation)).map (.wrap "list WAL segments")).or
    ((v3.mkdir.map (.wrap "create parent directory")).or
      ((v3.download.map (.wrap "download snapshot")).or
        (((errorOf v3.apply).map (.wrap "apply WAL segments")).or
          (v3.rename.map (.wrap "rename to output path")))))

/- The call is refused before the replica is asked. -/
def Refused (config : Option Err) (env : RestoreEnv D) (fs : FileSystem D)
    (dbPath replicaURL : String) : Prop :=
  dbPath = "" ∨ replicaURL = "" ∨ config ≠ none ∨ env.stat ≠ none ∨ (fs dbPath).isSome

/-
  The listing offers a start, and what fails first, before
  or after it, is not taken for an empty replica. It may be
  a listing call: those of the comparison, which `chooseV3`
  makes, those of the planner and those for a v0.3.x
  snapshot.
-/
structure StartsAndStays (lib : LtxLibrary D) (env : RestoreEnv D)
    (opt : RestoreOptions) : Prop where
  compared : ∀ e, chooseV3 env opt = .error e → e.meansEmpty = false
  planned : chooseV3 env opt = .ok none → ¬ env.files.Startless ∧
    (∀ e, env.files.Stops e → e.meansEmpty = false) ∧
    ∀ plan, calcRestorePlan env.files 0 0 = .ok plan →
      ∀ e, laterFailure lib env plan = some e → e.meansEmpty = false
  selected : ∀ v3, chooseV3 env opt = .ok (some v3) → ¬ v3.restore.Empty ∧
    (∀ e, v3.restore.listingError = some e → e.meansEmpty = false) ∧
    ∀ snap, selectSnapshotV3 v3.restore 0 = .ok snap →
      ∀ e, laterFailureV3 v3 snap = some e → e.meansEmpty = false

-- Classifying The Errors Of A Restore

variable {lib : LtxLibrary D} {env : RestoreEnv D} {opt : RestoreOptions} {fs : FileSystem D}
variable {e : Err}

/- After a plan the first failure is the restore's error. -/
theorem restoreLTX_eq_error_iff
    (hPlan : calcRestorePlan env.files opt.txID opt.timestamp = .ok plan) (hNonempty : plan ≠ []) :
    (restoreLTX lib env opt fs).1 = .error e ↔ laterFailure lib env plan = some e := by
  unfold restoreLTX prepareRestore laterFailure
  rw [hPlan]
  cases hOpen : plan.mapM (openPlanned env) with
  | error e' =>
    rw [mapM_eq_error_iff.mp hOpen]
    simp [Except.mapError, hOpen, bind, Except.bind]
  | ok rdrs =>
    have hNone : plan.findSome? (fun info => errorOf (openPlanned env info)) = none := by
      cases hFirst : plan.findSome? (fun info => errorOf (openPlanned env info)) with
      | none => rfl
      | some e' =>
        rw [← mapM_eq_error_iff, hOpen] at hFirst
        simp at hFirst
    have hRdrs : rdrs.isEmpty = false := by
      cases rdrs with
      | nil =>
        rw [mapM_eq_ok_iff] at hOpen
        cases hOpen
        exact absurd rfl hNonempty
      | cons rd rest => rfl
    cases env.mkdir with
    | some e' => simp [Except.mapError, hOpen, hNone, hRdrs, failOn, bind, Except.bind]
    | none =>
      cases env.create with
      | some e' => simp [Except.mapError, hOpen, hNone, hRdrs, failOn, bind, Except.bind]
      | none =>
        cases hDecode : decodeDatabase lib rdrs with
        | error e' =>
          simp [Except.mapError, hOpen, hNone, hRdrs, hDecode, failOn, bind, Except.bind, pure,
            Except.pure]
        | ok pages =>
          cases (env.sync.or env.close).or env.rename with
          | some | none =>
            simp [Except.mapError, hOpen, hNone, hRdrs, hDecode, failOn, bind,
              Except.bind, pure, Except.pure]

theorem buildV3_eq_error_iff {timestamp : Int} :
    buildV3 v3 timestamp = .error e ↔ selectSnapshotV3 v3.restore timestamp = .error e ∨ ∃ snap,
      selectSnapshotV3 v3.restore timestamp = .ok snap ∧ laterFailureV3 v3 snap = some e := by
  unfold buildV3
  rw [bind_eq_error_iff]
  apply or_congr Iff.rfl
  apply exists_congr
  intro snap
  apply and_congr_right
  intro _
  unfold laterFailureV3
  cases hSegments : v3.restore.walSegments snap.generation with
  | error err => simp
  | ok segments =>
    cases hMkdir : v3.mkdir with
    | some err => simp
    | none =>
      cases hDownload : v3.download with
      | some err => simp
      | none =>
        cases hApply : v3.apply with
        | error err => simp
        | ok pages =>
          cases hRename : v3.rename with
          | some | none => simp

theorem sortSnapshotsV3ByCreatedAt_eq_nil_iff {snapshots} :
    sortSnapshotsV3ByCreatedAt snapshots = [] ↔ snapshots = [] := by
  unfold sortSnapshotsV3ByCreatedAt
  cases snapshots with
  | nil | cons => simp [exchangeSort]

theorem allSnapshotsV3_eq (client : ClientV3) (generations : List String)
    (describe : String → String) : allSnapshotsV3 client generations describe =
      (generations.mapM fun gen => (client.snapshots gen).mapError (Err.wrap (describe gen))) >>=
        fun lists => pure (sortSnapshotsV3ByCreatedAt lists.flatten) := by
  unfold allSnapshotsV3
  congr
  funext gen
  cases client.snapshots gen with
  | ok | error => rfl

/- All generations are listed, or the first that fails ends it. -/
theorem mapM_snapshots_cases (client : ClientV3) (generations : List String)
    (describe : String → String) :
    (generations.findSome? (fun gen => errorOf (client.snapshots gen)) = none ∧ ∃ lists,
      (generations.mapM fun gen => (client.snapshots gen).mapError (Err.wrap (describe gen))) =
        .ok lists ∧ (lists.flatten = [] ↔ ∀ gen ∈ generations, client.snapshots gen = .ok [])) ∨
    ∃ gen ∈ generations, ∃ e, client.snapshots gen = .error e ∧
      generations.findSome? (fun gen => errorOf (client.snapshots gen)) = some e ∧
      (generations.mapM fun gen => (client.snapshots gen).mapError (Err.wrap (describe gen))) =
        .error (Err.wrap (describe gen) e) := by
  induction generations with
  | nil => exact Or.inl ⟨rfl, [], rfl, by simp⟩
  | cons gen gens ih =>
    rw [findSome?_cons, mapM_cons]
    cases hSnap : client.snapshots gen with
    | error e => exact Or.inr ⟨gen, mem_cons_self, e, hSnap, rfl, rfl⟩
    | ok snapshots =>
      rcases ih with ⟨hNone, lists, hLists, hEmpty⟩ | ⟨gen', hMem, e, hErr, hFirst, hLists⟩
      · refine Or.inl ⟨hNone, snapshots :: lists, ?_, ?_⟩
        · rw [hLists]
          rfl
        · simp [hSnap, hEmpty]
      · refine Or.inr ⟨gen', mem_cons_of_mem _ hMem, e, hErr, hFirst, ?_⟩
        rw [hLists]
        rfl

theorem selectSnapshotV3_empty_iff :
    (∃ e, selectSnapshotV3 client 0 = .error e ∧ e.meansEmpty = true) ↔
      client.Empty ∨ ∃ e, client.listingError = some e ∧ e.meansEmpty = true := by
  unfold selectSnapshotV3 ClientV3.Empty ClientV3.listingError
  cases hGen : client.generations with
  | error err => simp
  | ok generations =>
    simp only [Except.ok.injEq, exists_eq_left']
    rw [allSnapshotsV3_eq]
    rcases mapM_snapshots_cases client generations
      (fun gen => "list snapshots for generation " ++ gen) with
      ⟨hNone, lists, hLists, hEmpty⟩ | ⟨gen, hMem, e, hSnap, hFirst, hLists⟩
    · rw [hLists, hNone, ← hEmpty, ← sortSnapshotsV3ByCreatedAt_eq_nil_iff]
      dsimp only [bind, Except.bind, pure, Except.pure]
      by_cases hNil : sortSnapshotsV3ByCreatedAt lists.flatten = []
      · exact iff_of_true ⟨.sentinel .noSnapshots, by rw [hNil]; rfl, rfl⟩ (Or.inl hNil)
      · simp [hNil, findBestSnapshotV3, getLast?_eq_some_getLast hNil]
    · rw [hLists, hFirst]
      have hNot : ¬ ∀ gen ∈ generations, client.snapshots gen = .ok [] := by
        intro hAll
        rw [hAll gen hMem] at hSnap
        cases hSnap
      simp [hNot, bind, Except.bind]

theorem restore_err_iff (hValid : validateOptions opt = none)
    (hFollow : opt.follow = false) (hCheck : opt.integrityCheck = .none)
    (hStat : env.stat = none) (hOutput : (fs opt.outputPath).isSome = false) :
    (restore lib env opt fs).err = some e ↔ chooseV3 env opt = .error e ∨
      (∃ v3, chooseV3 env opt = .ok (some v3) ∧ buildV3 v3 opt.timestamp = .error e) ∨
      (chooseV3 env opt = .ok none ∧ (restoreLTX lib env opt fs).1 = .error e) := by
  have hChecked : ∀ fs, (checkRestored env opt fs).err = none := by
    intro fs
    simp [checkRestored, hCheck]
  unfold restore
  simp only [hValid, hFollow, hStat, hOutput, Bool.false_eq_true, and_false, if_false]
  cases hChoose : chooseV3 env opt with
  | error err => simp [fail]
  | ok choice =>
    cases choice with
    | some v3 =>
      simp only [reduceCtorEq, Except.ok.injEq, some.injEq, exists_eq_left', false_and,
        or_false, false_or]
      unfold restoreV3
      cases hBuild : buildV3 v3 opt.timestamp with
      | error err => simp [fail]
      | ok pages => simp [hChecked]
    | none =>
      rcases hLtx : restoreLTX lib env opt fs with ⟨result, fs'⟩
      cases result with
      | error err => simp [fail]
      | ok maxTXID => simp [hChecked]

-- Cold Starts

theorem restoreLTX_means_empty_iff (hSorted : env.files.Sorted)
    (hTXID : opt.txID = 0) (hTime : opt.timestamp = 0) :
    (∃ e, (restoreLTX lib env opt fs).1 = .error e ∧ e.meansEmpty = true) ↔
      (env.files.Startless ∨ ∃ e, env.files.Stops e ∧ e.meansEmpty = true) ∨
        ∃ plan e, calcRestorePlan env.files 0 0 = .ok plan ∧ laterFailure lib env plan = some e ∧
          e.meansEmpty = true := by
  have hStartless := calcRestorePlan_startless_iff hSorted
  cases hCalc : calcRestorePlan env.files 0 0 with
  | error e' =>
    have hRun : (restoreLTX lib env opt fs).1 = .error (.wrap "cannot calc restore plan" e') := by
      simp [restoreLTX, prepareRestore, hTXID, hTime, hCalc, Except.mapError, bind, Except.bind]
    rw [← hStartless, hRun, hCalc]
    simp
  | ok plan =>
    rcases calcRestorePlan_ok hSorted hCalc with ⟨_, _, _, _, _, _, _, hNonempty, _⟩
    have hPlan : calcRestorePlan env.files opt.txID opt.timestamp = .ok plan := by
      rw [hTXID, hTime, hCalc]
    have hNot : ¬ (env.files.Startless ∨ ∃ e, env.files.Stops e ∧ e.meansEmpty = true) := by
      rw [← hStartless, hCalc]
      simp
    simp only [restoreLTX_eq_error_iff hPlan hNonempty, hNot, false_or, Except.ok.injEq]
    constructor
    · rintro ⟨e, hLater, hMeans⟩
      exact ⟨plan, e, rfl, hLater, hMeans⟩
    · rintro ⟨_, e, rfl, hLater, hMeans⟩
      exact ⟨e, hLater, hMeans⟩

theorem buildV3_means_empty_iff :
    (∃ e, buildV3 v3 0 = .error e ∧ e.meansEmpty = true) ↔
      (v3.restore.Empty ∨ ∃ e, v3.restore.listingError = some e ∧ e.meansEmpty = true) ∨
      ∃ snap e, selectSnapshotV3 v3.restore 0 = .ok snap ∧ laterFailureV3 v3 snap = some e ∧
        e.meansEmpty = true := by
  rw [← selectSnapshotV3_empty_iff]
  simp only [buildV3_eq_error_iff]
  constructor
  · rintro ⟨e, hSelect | ⟨snap, hSnap, hLater⟩, hMeans⟩
    · exact Or.inl ⟨e, hSelect, hMeans⟩
    · exact Or.inr ⟨snap, e, hSnap, hLater, hMeans⟩
  · rintro (⟨e, hSelect, hMeans⟩ | ⟨snap, e, hSnap, hLater, hMeans⟩)
    · exact ⟨e, Or.inl hSelect, hMeans⟩
    · exact ⟨e, Or.inr ⟨snap, hSnap, hLater⟩, hMeans⟩

/- A refused call returns its error. -/
theorem SDK.restore_of_refused (hStats : ∀ e, env.stat = some e → e.meansEmpty = false)
    (hRefused : Refused config env fs dbPath replicaURL) :
    SDK.restore lib config env fs dbPath replicaURL ≠ (false, none) := by
  unfold SDK.restore SDK.newReplica
  by_cases hPath : dbPath = ""
  · simp [hPath]
  by_cases hURL : replicaURL = ""
  · simp [hPath, hURL]
  cases hConfig : config with
  | some err => simp [hPath, hURL]
  | none =>
    have hValid : validateOptions (SDK.restoreOptions dbPath) = none := by
      simp [validateOptions, SDK.restoreOptions, hPath]
    simp only [hPath, hURL, if_false]
    cases hStat : env.stat with
    | some err =>
      have hErr : (Replicate.restore lib env (SDK.restoreOptions dbPath) fs).err = some err := by
        unfold Replicate.restore
        simp [hValid, hStat, fail]
      rw [hErr]
      simp [hStats err hStat]
    | none =>
      have hExists : (fs dbPath).isSome = true := by
        rcases hRefused with h | h | h | h | h
        · exact absurd h hPath
        · exact absurd h hURL
        · exact absurd hConfig h
        · exact absurd hStat h
        · exact h
      have hErr : ∃ msg, (Replicate.restore lib env
        (SDK.restoreOptions dbPath) fs).err = some (.text msg) := by
        refine ⟨"cannot restore, output path already " ++ "exists: " ++ dbPath, ?_⟩
        unfold Replicate.restore
        rw [hValid]
        simp [hStat, fail, SDK.restoreOptions, hExists]
      rcases hErr with ⟨msg, hErr⟩
      rw [hErr]
      simp

theorem forall_meansEmpty_iff {P : Err → Prop} :
    (∀ e, P e → e.meansEmpty = false) ↔ ¬ ∃ e, P e ∧ e.meansEmpty = true := by
  simp

/- When the SDK reports a cold start. -/
theorem SDK.restore_cold_iff (hStats : ∀ e, env.stat = some e → e.meansEmpty = false)
    (hSorted : env.files.Sorted) :
    SDK.restore lib config env fs dbPath replicaURL = (false, none) ↔
      ¬ Refused config env fs dbPath replicaURL ∧ ¬ StartsAndStays lib env
        (SDK.restoreOptions dbPath) := by
  by_cases hRefused : Refused config env fs dbPath replicaURL
  · exact iff_of_false (SDK.restore_of_refused hStats hRefused) (fun hBoth => hBoth.1 hRefused)
  have hParts := hRefused
  simp only [Refused, not_or, not_not, Bool.not_eq_true] at hParts
  rcases hParts with ⟨hPath, hURL, rfl, hStat, hOutput⟩
  have hValid : validateOptions (SDK.restoreOptions dbPath) = none := by
    simp [validateOptions, SDK.restoreOptions, hPath]
  have hCold : SDK.restore lib none env fs dbPath replicaURL = (false, none) ↔
    ∃ e, (Replicate.restore lib env (SDK.restoreOptions dbPath) fs).err = some e ∧
      e.meansEmpty = true := by
    unfold SDK.restore SDK.newReplica
    simp only [hPath, hURL, if_false]
    cases hErr : (Replicate.restore lib env (SDK.restoreOptions dbPath) fs).err with
    | none => simp
    | some err =>
      cases hMeans : err.meansEmpty with
      | true | false => simp [hMeans]
  rw [hCold]
  simp only [hRefused, not_false_eq_true, true_and, restore_err_iff hValid rfl rfl hStat hOutput]
  cases hChoose : chooseV3 env (SDK.restoreOptions dbPath) with
  | error err =>
    simp only [Except.error.injEq, reduceCtorEq, false_and, exists_false, or_false,
      exists_eq_left']
    constructor
    · intro hMeans hStays
      rw [hStays.compared err hChoose] at hMeans
      cases hMeans
    · intro hFails
      by_contra hMeans
      refine hFails ⟨?_, by simp [hChoose], by simp [hChoose]⟩
      intro e hEq
      rw [hChoose, Except.error.injEq] at hEq
      simpa [← hEq] using hMeans
  | ok choice =>
    cases choice with
    | none =>
      have hIff :=
        @restoreLTX_means_empty_iff D lib env (SDK.restoreOptions dbPath) fs hSorted rfl rfl
      simp only [reduceCtorEq, Except.ok.injEq, false_and, exists_false, true_and, false_or]
      rw [hIff]
      constructor
      · rintro hEmpty ⟨_, hPlanned, _⟩
        rcases hPlanned hChoose with ⟨hNot, hStops, hLater⟩
        rcases hEmpty with (hStart | hListed) | ⟨plan, e, hPlan, hFail, hMeans⟩
        · exact hNot hStart
        · exact forall_meansEmpty_iff.mp hStops hListed
        · exact forall_meansEmpty_iff.mp (hLater plan hPlan) ⟨e, hFail, hMeans⟩
      · intro hFails
        by_contra hNone
        rw [not_or, not_or] at hNone
        rcases hNone with ⟨⟨hNot, hStops⟩, hLater⟩
        refine hFails ⟨by simp [hChoose], fun _ => ⟨hNot, forall_meansEmpty_iff.mpr hStops, ?_⟩,
          by simp [hChoose]⟩
        intro plan hPlan
        exact forall_meansEmpty_iff.mpr fun ⟨e, hFail, hMeans⟩ =>
          hLater ⟨plan, e, hPlan, hFail, hMeans⟩
    | some v3 =>
      simp only [reduceCtorEq, Except.ok.injEq, some.injEq, exists_eq_left', false_and,
        or_false, false_or]
      refine Iff.trans (@buildV3_means_empty_iff D v3) ?_
      constructor
      · rintro hEmpty ⟨_, _, hSelected⟩
        rcases hSelected v3 hChoose with ⟨hNot, hListing, hLater⟩
        rcases hEmpty with (hNone | hListed) | ⟨snap, e, hSnap, hFail, hMeans⟩
        · exact hNot hNone
        · exact forall_meansEmpty_iff.mp hListing hListed
        · exact forall_meansEmpty_iff.mp (hLater snap hSnap) ⟨e, hFail, hMeans⟩
      · intro hFails
        by_contra hNone
        rw [not_or, not_or] at hNone
        rcases hNone with ⟨⟨hNot, hListing⟩, hLater⟩
        refine hFails ⟨by simp [hChoose], by simp [hChoose], ?_⟩
        intro v3' hChoose'
        rw [hChoose, Except.ok.injEq, some.injEq] at hChoose'
        subst hChoose'
        refine ⟨hNot, forall_meansEmpty_iff.mpr hListing, ?_⟩
        intro snap hSnap
        exact forall_meansEmpty_iff.mpr fun ⟨e, hFail, hMeans⟩ =>
          hLater ⟨snap, e, hSnap, hFail, hMeans⟩

end Env

/-
  A replica is treated as empty only when it lists nothing,
  exactly under the following condition: the SDK's call is
  refused, or nothing is listed, or there is a start and
  the first call that fails, a listing call or a later one,
  does not look like an empty replica; and for a
  write-enabled file, nothing is listed, or there is a start
  and no listing call ends with `ErrTxNotAvailable`.
-/
theorem coldStart_iff
    {D : Type}
    (lib : LtxLibrary D)
    (config : Option Err)
    (env : RestoreEnv D)
    (fs : FileSystem D)
    (dbPath replicaURL : String)
    (hStats : ∀ e, env.stat = some e → e.meansEmpty = false)
    (hSorted : env.files.Sorted)
    (files : Listing)
    (hOrdered : files.Sorted) :
    ((SDK.restore lib config env fs dbPath replicaURL =
        (false, none) →
      NothingListed env (SDK.restoreOptions dbPath)) ↔
      Refused config env fs dbPath replicaURL ∨
      NothingListed env (SDK.restoreOptions dbPath) ∨
      StartsAndStays lib env (SDK.restoreOptions dbPath)) ∧
    ((VFSFile.openWriteEnabled files = .newDatabase 1 →
      files.Empty) ↔
      files.Empty ∨
      ¬ files.Startless ∧
      ∀ e,
        files.Stops e → e.is .txNotAvailable = false) := by
  constructor
  · rw [SDK.restore_cold_iff hStats hSorted]
    tauto
  · have hNew : VFSFile.openWriteEnabled files = .newDatabase 1 ↔
      files.Startless ∨ ∃ e, files.Stops e ∧ e.is .txNotAvailable = true := by
      unfold VFSFile.openWriteEnabled
      constructor
      · intro hOpen
        cases hCalc : calcRestorePlan files 0 0 with
        | ok infos => simp [hCalc] at hOpen
        | error err =>
          simp only [hCalc] at hOpen
          split at hOpen
          · rename_i hIs
            by_cases hFails : files.Fails err
            · exact Or.inr ⟨err, ⟨hFails, hCalc⟩, hIs⟩
            · refine Or.inl (startless_of_calcRestorePlan hOrdered hFails ?_ hCalc)
              simp [Err.meansEmpty, hIs]
          · simp at hOpen
      · rintro (hStartless | ⟨e, hStops, hIs⟩)
        · rw [calcRestorePlan_of_startless hOrdered hStartless]
          rfl
        · rw [hStops.2]
          simp [hIs]
    have hStops : (∀ e, files.Stops e → e.is .txNotAvailable = false) ↔
      ¬ ∃ e, files.Stops e ∧ e.is .txNotAvailable = true := by
      simp
    rw [hNew, hStops, ← not_or]
    exact imp_iff_or_not

/- A replica whose files cannot be read at the moment. -/
def unreadable : RestoreEnv Nat :=
  { calmEnv with
    openLTXFile := fun _ => .error (.text "connection reset") }

/- A failing read is reported, and is no cold start. -/
theorem coldStart_unreadable :
    (SDK.restore referenceLibrary none unreadable
      (fun _ => none) "db" "file:///replica").2.isSome ∧
    (SDK.restore referenceLibrary none unreadable
      (fun _ => none) "db" "file:///replica" =
      (false, none) →
      NothingListed unreadable
        (SDK.restoreOptions "db")) := by
  refine ⟨by decide, ?_⟩
  refine (coldStart_iff referenceLibrary none unreadable (fun _ => none) "db" "file:///replica"
    nofun calmEnv_serves.sorted twoFiles.listing calmEnv_serves.sorted).1.mpr (Or.inr (Or.inr ?_))
  refine ⟨nofun, fun _ => ⟨?_, ?_, ?_⟩, nofun⟩
  · intro hStartless
    rcases hStartless.2 0 (by decide) with ⟨itr, hItr, hBarren⟩
    cases hItr
    exact absurd (hBarren.1 ⟨0, 1, 1, 200, 10⟩ (by simp [twoFiles]) (by decide)) (by decide)
  · exact fun e hStops => absurd hStops.1 (Content.not_fails e)
  · intro plan hPlan e hLater
    have hEval : calcRestorePlan unreadable.files 0 0 =
      .ok [⟨0, 1, 1, 200, 10⟩, ⟨0, 2, 2, 150, 20⟩] := by decide
    cases hEval.symm.trans hPlan
    cases hLater
    rfl

def onlyFifth : Content
| 0 => [⟨0, 5, 5, 200, 50⟩]
| _ => []

/-
  With a file but no start, or when the planned file is
  gone when it is opened, the SDK reports a cold start; and
  a write-enabled file starts a new database over the file.
-/
theorem coldStart_with_files :
    (SDK.restore referenceLibrary none
      { calmEnv with files := onlyFifth.listing }
      (fun _ => none) "db" "file:///replica" =
      (false, none) ∧
      ¬ NothingListed
          { calmEnv with files := onlyFifth.listing }
          (SDK.restoreOptions "db")) ∧
    (SDK.restore referenceLibrary none
      { calmEnv with
        openLTXFile := fun _ => .error
          (.sentinel .notExist) } (fun _ => none) "db"
      "file:///replica" = (false, none) ∧
      ¬ NothingListed
          { calmEnv with
            openLTXFile := fun _ => .error
              (.sentinel .notExist) }
          (SDK.restoreOptions "db")) ∧
    (VFSFile.openWriteEnabled onlyFifth.listing =
      .newDatabase 1 ∧
      ¬ onlyFifth.listing.Empty) := by
  refine ⟨⟨by decide, ?_⟩, ⟨by decide, ?_⟩, by decide, ?_⟩
  · intro hNothing
    exact hNothing.planned rfl ⟨0, 5, 5, 200, 50⟩ ⟨0, by decide, _, rfl, by simp [onlyFifth]⟩
  · intro hNothing
    exact hNothing.planned rfl ⟨0, 1, 1, 200, 10⟩ ⟨0, by decide, _, rfl, by simp [twoFiles]⟩
  · intro hEmpty
    exact hEmpty ⟨0, 5, 5, 200, 50⟩ ⟨0, by decide, _, rfl, by simp [onlyFifth]⟩

end Replicate
