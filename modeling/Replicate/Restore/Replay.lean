import Replicate.Restore.PlannerCorrectness
import Replicate.Restore.Restore

/-
  Restoring means replaying.

  A restore from any replica of a history that returns no
  error leaves at its output path exactly the database that
  applying the transactions one by one gives, whatever
  levels the plan picks and however its files overlap. A
  restore that fails before its rename leaves the output
  path as it was.

  Main declarations:
    * `ReplicaOf`
    * `ReplicaOf.Serves`
    * `restore_eq_replay`
-/

-- Replicas Of A History

namespace Replicate

open RestoreOutcome Traversal PageHistory

variable {D : Type} {lib : LtxLibrary D}

/- A replica whose files are all produced from a history. -/
structure ReplicaOf (H : History lib) where
  content : Content
  wellListed : content.WellListed
  file : FileInfo → Layer D
  produced : ∀ f, content.Listed f → Produced H f.minTXID f.maxTXID (file f)

/-
  The answers come from this replica. Every call may fail,
  a listing also part way, and a file that is opened may
  fail while it is read. There are no v0.3.x files.
-/
structure ReplicaOf.Serves {H : History lib} (R : ReplicaOf H) (env : RestoreEnv D) : Prop where
  lists : ∀ level ≤ snapshotLevel, ∀ itr, env.files level = .ok itr → itr.items <+: R.content level
  opens : ∀ f, R.content.Listed f → ∀ file, env.openLTXFile f = .ok (.ok file) → file = R.file f
  no_v3 : ∀ v3, env.v3 = some v3 → ∀ generations,
    v3.bounds.generations = .ok generations → generations = []

section Plan

variable {H : History lib} {R : ReplicaOf H} {env : RestoreEnv D} {txID : Nat} {timestamp : Int}
variable {plan : List FileInfo} {rdrs : List (Reader D)} {pages : List D}

theorem ReplicaOf.Serves.sorted (hServes : R.Serves env) : env.files.Sorted := by
  intro level hLevel itr hItr
  have hAll := R.wellListed.sorted level hLevel _ rfl
  exact hAll.sublist (hServes.lists level (Nat.le_of_lt hLevel) itr hItr).sublist

theorem ReplicaOf.Serves.listed (hServes : R.Serves env) {f} (hDelivers : env.files.Delivers f) :
    R.content.Listed f := by
  rcases hDelivers with ⟨level, hLevel, itr, hItr, hMem⟩
  exact ⟨level, hLevel, (hServes.lists level hLevel itr hItr).subset hMem⟩

theorem ReplicaOf.Serves.isChain_plan (hServes : R.Serves env) (hPlan :
    calcRestorePlan env.files txID timestamp = .ok plan) :
    plan ≠ [] ∧ IntervalChain.IsChain FileInfo.minTXID FileInfo.maxTXID 0 plan ∧
      (∀ f ∈ plan, R.content.Listed f) ∧
      (txID ≠ 0 → maxTXIDOf plan = txID) := by
  have hSnapshots : ∀ itr, env.files snapshotLevel = .ok itr →
    ∀ f ∈ itr.items, f.minTXID ≤ 1 ∧ 0 < f.maxTXID := by
    intro itr hItr f hf
    have hMem := (hServes.lists snapshotLevel (Nat.le_refl _) itr hItr).subset hf
    have hRange := R.wellListed.range f ⟨snapshotLevel, Nat.le_refl _, hMem⟩
    have hMin := R.wellListed.snapshot_min f hMem
    omega
  rcases calcRestorePlan_isChain hServes.sorted hSnapshots
    hPlan with ⟨hNonempty, hChain, hFiles, hTarget⟩
  refine ⟨hNonempty, hChain, fun f hf => hServes.listed (hFiles f hf).1, ?_⟩
  intro hNonzero
  rcases Content.exists_mem_maxTXIDOf hNonempty with ⟨f, hf, hEnd⟩
  rcases (hFiles f hf).2.1 with hZero | hLe
  · exact absurd hZero hNonzero
  · rw [hEnd] at hLe
    exact Nat.le_antisymm hLe (hTarget hNonzero)

theorem ReplicaOf.Serves.files_eq (hServes : R.Serves env)
    (hListed : ∀ f ∈ plan, R.content.Listed f) {files}
    (hOpen : plan.mapM (openPlanned env) = .ok rdrs) (hRead : rdrs.mapM readSource = .ok files) :
    files = plan.map R.file := by
  rw [mapM_eq_ok_iff] at hOpen hRead
  induction hOpen generalizing files with
  | nil =>
    cases hRead
    rfl
  | @cons f rd plan rdrs hHead _ ih =>
    cases hRead with
    | @cons _ file _ rest hFile hRest =>
      have hOpened : env.openLTXFile f = .ok (.ok file) := by
        unfold openPlanned at hHead
        split at hHead
        · simp at hHead
        cases hCall : env.openLTXFile f with
        | error err => simp [hCall] at hHead
        | ok rd' =>
          simp only [hCall, Except.ok.injEq] at hHead
          rw [hHead]
          exact congrArg _ hFile
      rw [List.map_cons, hServes.opens f (hListed f List.mem_cons_self) file hOpened,
        ih (fun g hg => hListed g (List.mem_cons_of_mem f hg)) hRest]

/- Merging and decoding a chain of files replays its range. -/
theorem History.decode_eq_replay {file} (hNonempty : plan ≠ [])
    (hChain : IntervalChain.IsChain FileInfo.minTXID FileInfo.maxTXID 0 plan)
    (hProduced : ∀ f ∈ plan, 1 ≤ f.minTXID ∧ f.maxTXID ≤ H.count ∧ file f = slice H.tx f.minTXID
      f.maxTXID) {merged} (hMerge : lib.compact (plan.map file) = .ok merged)
    (hDecode : lib.decodeDatabaseTo merged = .ok pages) : pages = H.replay (maxTXIDOf plan) := by
  have hBound : maxTXIDOf plan ≤ H.count := by
    rcases Content.exists_mem_maxTXIDOf hNonempty with ⟨f, hf, hEnd⟩
    rw [← hEnd]
    exact (hProduced f hf).2.1
  -- the first file of the chain starts at transaction 1
  have hFirst : ∃ f ∈ plan, f.minTXID = 1 := by
    cases plan with
    | nil => exact absurd rfl hNonempty
    | cons f rest =>
      rcases hChain with ⟨hMin, _⟩
      have hPos := (hProduced f List.mem_cons_self).1
      exact ⟨f, List.mem_cons_self, by omega⟩
  have hSlice : merged = slice H.tx 1 (maxTXIDOf plan) := by
    rw [lib.compact_ok _ _ hMerge, maxTXIDOf_eq_reach]
    rw [maxTXIDOf_eq_reach] at hBound
    exact stack_slices H.grows hChain hBound (fun f hf => (hProduced f hf).2.2) Nat.one_pos
      (fun f hf => (hProduced f hf).1) hFirst
  have hLock : merged.page lib.lockPgno = none := by
    rw [hSlice]
    apply slice_page_eq_none
    rw [writer_exempt H.grows hBound rfl]
    exact Nat.one_pos
  rw [lib.decode_ok _ _ hLock hDecode, hSlice]
  exact image_slice_one H.grows hBound

theorem decodeDatabase_eq_replay (hServes : R.Serves env)
    (hPlan : calcRestorePlan env.files txID timestamp = .ok plan)
    (hOpen : plan.mapM (openPlanned env) = .ok rdrs) (hDecode : decodeDatabase lib rdrs = .ok pages)
    :
    pages = H.replay (maxTXIDOf plan) := by
  rcases hServes.isChain_plan hPlan with ⟨hNonempty, hChain, hListed, _⟩
  unfold decodeDatabase at hDecode
  cases hRead : rdrs.mapM readSource with
  | error err => simp [hRead, bind, Except.bind] at hDecode
  | ok files =>
    cases hMerge : lib.compact files with
    | error err => simp [hRead, hMerge, bind, Except.bind] at hDecode
    | ok merged =>
      simp only [hRead, hMerge, bind, Except.bind] at hDecode
      rw [hServes.files_eq hListed hOpen hRead] at hMerge
      exact History.decode_eq_replay hNonempty hChain
        (fun f hf => (R.produced f (hListed f hf)).eq_slice)
        hMerge hDecode

end Plan

-- The Output Path

section Output

variable {env : RestoreEnv D} {opt : RestoreOptions} {fs fs' : FileSystem D}

theorem outputPath_ne_tmp (path : String) : path ≠ path ++ ".tmp" := by
  intro hEq
  have hLength := congrArg String.length hEq
  rw [String.length_append] at hLength
  have hTmp : ".tmp".length = 4 := rfl
  omega

theorem write_tmp_outputPath (pages : List D) : fs.write (opt.outputPath ++ ".tmp") pages
    opt.outputPath = fs opt.outputPath := by
  simp [FileSystem.write, outputPath_ne_tmp]

/- What a successful LTX restore has done. -/
theorem restoreLTX_ok {m : Nat} (hRun : restoreLTX lib env opt fs = (.ok m, fs')) :
    ∃ plan rdrs pages, calcRestorePlan env.files opt.txID opt.timestamp = .ok plan ∧
      plan.mapM (openPlanned env) = .ok rdrs ∧
      decodeDatabase lib rdrs = .ok pages ∧
      m = maxTXIDOf plan ∧
      fs' opt.outputPath = some pages := by
  unfold restoreLTX at hRun
  cases hPrepare : prepareRestore env opt with
  | error err => simp [hPrepare] at hRun
  | ok prepared =>
    rcases prepared with ⟨infos, rdrs⟩
    simp only [hPrepare] at hRun
    unfold prepareRestore at hPrepare
    rw [bind_eq_ok_iff] at hPrepare
    rcases hPrepare with ⟨plan, hPlan, hRest⟩
    rw [mapError_eq_ok_iff] at hPlan
    rw [bind_eq_ok_iff] at hRest
    rcases hRest with ⟨rdrs', hOpen, hRest⟩
    have hSame : plan = infos ∧ rdrs' = rdrs := by
      split at hRest
      · simp at hRest
      rw [bind_eq_ok_iff] at hRest
      rcases hRest with ⟨_, _, hRest⟩
      rw [bind_eq_ok_iff] at hRest
      rcases hRest with ⟨_, _, hRest⟩
      simpa [pure, Except.pure] using hRest
    rcases hSame with ⟨rfl, rfl⟩
    cases hDecode : decodeDatabase lib rdrs' with
    | error err => simp [hDecode] at hRun
    | ok pages =>
      simp only [hDecode] at hRun
      split at hRun
      · simp at hRun
      · simp only [Prod.mk.injEq, Except.ok.injEq] at hRun
        rcases hRun with ⟨rfl, rfl⟩
        exact ⟨plan, rdrs', pages, hPlan, hOpen, hDecode, rfl, by simp [FileSystem.write]⟩

theorem restoreLTX_error {err : Err} (hRun : restoreLTX lib env opt fs = (.error err, fs')) :
    fs' opt.outputPath = fs opt.outputPath := by
  unfold restoreLTX at hRun
  split at hRun
  · simp only [Prod.mk.injEq] at hRun
    rw [← hRun.2]
  split at hRun
  · simp only [Prod.mk.injEq] at hRun
    rw [← hRun.2]
    exact write_tmp_outputPath _
  split at hRun
  · simp only [Prod.mk.injEq] at hRun
    rw [← hRun.2]
    exact write_tmp_outputPath _
  · simp at hRun

theorem chooseV3_eq_none (hNoV3 : ∀ v3, env.v3 = some v3 → ∀ generations,
    v3.bounds.generations = .ok generations → generations = []) {choice}
    (hChoose : chooseV3 env opt = .ok choice) : choice = none := by
  unfold chooseV3 at hChoose
  split at hChoose
  · cases hV3 : env.v3 with
    | none =>
      simp only [hV3, Except.ok.injEq] at hChoose
      exact hChoose.symm
    | some v3 =>
      simp only [hV3] at hChoose
      have hNotTrue : shouldUseV3Restore v3.bounds v3.files v3.choice
        v3.snapshots opt.timestamp ≠ .ok true := by
        unfold shouldUseV3Restore
        cases hGen : v3.bounds.generations with
        | error err => simp [timeBoundsV3, hGen, bind, Except.bind]
        | ok generations =>
          rw [hNoV3 v3 hV3 generations hGen] at hGen
          cases timeBounds v3.files with
          | error | ok => simp [timeBoundsV3, hGen, bind, Except.bind, pure, Except.pure]
      split at hChoose
      · simp at hChoose
      · rename_i hTrue
        exact absurd hTrue hNotTrue
      · simp only [Except.ok.injEq] at hChoose
        exact hChoose.symm
  · simp only [Except.ok.injEq] at hChoose
    exact hChoose.symm

theorem checkRestored_ok (hOk : (checkRestored env opt fs).err = none) :
    (checkRestored env opt fs).fs = fs := by
  unfold checkRestored at hOk ⊢
  split
  · rfl
  rename_i hCheck
  rw [if_neg hCheck] at hOk
  cases hIntegrity : env.integrity with
  | none => simp
  | some err => simp [hIntegrity] at hOk

theorem checkRestored_renamed : (checkRestored env opt fs).renamed = true := by
  unfold checkRestored
  split
  · rfl
  · cases env.integrity with
    | none | some => rfl

theorem runFollow_renamed (txid : Nat) (renamed : Bool) :
    (runFollow env opt fs txid renamed).renamed = renamed := by
  unfold runFollow
  split <;> rfl

theorem restoreV3_not_renamed {v3} (hNot : (restoreV3 env v3 opt fs).renamed = false) :
    (restoreV3 env v3 opt fs).fs opt.outputPath = fs opt.outputPath := by
  unfold restoreV3 at hNot ⊢
  cases hBuild : buildV3 v3 opt.timestamp with
  | error err => simp [fail, FileSystem.remove, outputPath_ne_tmp]
  | ok pages =>
    simp only [hBuild, checkRestored_renamed] at hNot
    simp at hNot

/-
  Unless the output exists and is followed, a restore that
  did not rename leaves the output path as it was.
-/
theorem restore_not_renamed (hAbsent : fs opt.outputPath = none)
    (hNot : (restore lib env opt fs).renamed = false) :
    (restore lib env opt fs).fs opt.outputPath = none := by
  unfold restore at hNot ⊢
  cases hValid : validateOptions opt with
  | some err => simpa [fail] using hAbsent
  | none =>
    simp only [hValid, hAbsent, Option.isSome_none,
      Bool.false_eq_true, and_false, if_false] at hNot ⊢
    cases hStat : env.stat with
    | some err => simpa [fail] using hAbsent
    | none =>
      simp only [hStat] at hNot ⊢
      cases hChoose : chooseV3 env opt with
      | error err => simpa [fail] using hAbsent
      | ok choice =>
        cases choice with
        | some v3 =>
          simp only [hChoose] at hNot ⊢
          rw [restoreV3_not_renamed hNot]
          exact hAbsent
        | none =>
          simp only [hChoose] at hNot ⊢
          rcases hRun : restoreLTX lib env opt fs with ⟨err | m, fs'⟩
          · simp only [fail]
            rw [restoreLTX_error hRun]
            exact hAbsent
          simp only [hRun] at hNot
          split at hNot
          · split at hNot
            · simp at hNot
            · rw [runFollow_renamed] at hNot
              simp at hNot
          · rw [checkRestored_renamed] at hNot
            simp at hNot

/- What a restore that returns nil has done. -/
theorem restore_ok (hNoV3 : ∀ v3, env.v3 = some v3 → ∀ generations,
    v3.bounds.generations = .ok generations → generations = [])
    (hFollow : opt.follow = false) (hOk : (restore lib env opt fs).err = none) :
    ∃ plan rdrs pages, calcRestorePlan env.files opt.txID opt.timestamp = .ok plan ∧
      plan.mapM (openPlanned env) = .ok rdrs ∧
      decodeDatabase lib rdrs = .ok pages ∧
      (restore lib env opt fs).fs opt.outputPath = some pages := by
  unfold restore at hOk ⊢
  cases hValid : validateOptions opt with
  | some err => simp [hValid, fail] at hOk
  | none =>
    simp only [hValid, hFollow, Bool.false_eq_true, false_and, and_false, if_false] at hOk ⊢
    cases hStat : env.stat with
    | some err => simp [hStat, fail] at hOk
    | none =>
      simp only [hStat] at hOk ⊢
      by_cases hExists : (fs opt.outputPath).isSome
      · simp [hExists, fail] at hOk
      simp only [if_neg hExists] at hOk ⊢
      cases hChoose : chooseV3 env opt with
      | error err => simp [hChoose, fail] at hOk
      | ok choice =>
        have hNone := chooseV3_eq_none hNoV3 hChoose
        subst hNone
        simp only [hChoose] at hOk ⊢
        rcases hRun : restoreLTX lib env opt fs with ⟨err | m, fs'⟩
        · simp [hRun, fail] at hOk
        simp only [hRun] at hOk ⊢
        rcases restoreLTX_ok hRun with ⟨plan, rdrs, pages, hPlan, hOpen, hDecode, _, hOutput⟩
        refine ⟨plan, rdrs, pages, hPlan, hOpen, hDecode, ?_⟩
        rw [checkRestored_ok hOk]
        exact hOutput

end Output

-- The Main Theorem

/-
  Restore means replay: without follow mode a restore that
  returns nil leaves the replay of the transactions up to
  the end of its plan, which is the target if one is given;
  a restore that fails before its rename leaves no file at
  the output path, unless there was one before.
-/
theorem restore_eq_replay
    {H : History lib}
    (R : ReplicaOf H)
    (env : RestoreEnv D)
    (hServes : R.Serves env)
    (opt : RestoreOptions)
    (fs : FileSystem D) :
    (opt.follow = false →
      (restore lib env opt fs).err = none →
      ∃ plan,
        calcRestorePlan env.files opt.txID opt.timestamp =
          .ok plan ∧
        (opt.txID ≠ 0 → maxTXIDOf plan = opt.txID) ∧
        (restore lib env opt fs).fs opt.outputPath =
          some (H.replay (maxTXIDOf plan))) ∧
    ((restore lib env opt fs).err ≠ none →
      (restore lib env opt fs).renamed = false →
      fs opt.outputPath = none →
      (restore lib env opt fs).fs opt.outputPath =
        none) := by
  refine ⟨?_, ?_⟩
  · intro hFollow hOk
    rcases restore_ok hServes.no_v3 hFollow hOk with
      ⟨plan, rdrs, pages, hPlan, hOpen, hDecode, hOutput⟩
    refine ⟨plan, hPlan, (hServes.isChain_plan hPlan).2.2.2, ?_⟩
    rw [hOutput, decodeDatabase_eq_replay hServes hPlan hOpen hDecode]
  · intro _ hNot hAbsent
    exact restore_not_renamed hAbsent hNot

-- A Small Replica

/- A library that behaves as assumed, with 4 KiB pages. -/
def referenceLibrary : LtxLibrary Nat where
  zero := 0
  lockPgno := 262145
  compact inputs :=
    if inputs.isEmpty then .error (.text "at least one input reader required")
    else .ok (stack inputs)
  decodeDatabaseTo file :=
    if (List.range file.commit).all (fun i => (file.page (i + 1)).isSome || i + 1 == 262145) then
      .ok (image 0 file)
    else .error (.text "page missing")
  compact_ok := by
    intro inputs out hOk
    split at hOk
    · simp at hOk
    · exact (Except.ok.inj hOk).symm
  decode_ok := by
    intro file img _ hOk
    split at hOk
    · exact (Except.ok.inj hOk).symm
    · simp at hOk

/- Two pages are written, then the second once more. -/
def twoTransactions : History referenceLibrary where
  count := 2
  tx t :=
    if t = 1 then
      ⟨2, fun p =>
        if p = 1 then some 10
        else if p = 2 then some 20 else none⟩
    else ⟨2, fun p => if p = 2 then some 21 else none⟩
  grows := by
    constructor
    · intro t ht p hAfter hSize _
      rcases Nat.lt_succ_iff_lt_or_eq.mp ht with h | rfl
      · rw [Nat.lt_one_iff.mp h] at hAfter hSize ⊢
        simp only [sizeAt] at hAfter hSize
        rcases Nat.lt_or_eq_of_le hSize with hLess | rfl
        · rcases Nat.le_antisymm (Nat.le_of_lt_succ hLess) hAfter with rfl
          rfl
        · rfl
      · exact absurd hSize (Nat.not_le.mpr hAfter)
    · intro t _ p hExempt
      rw [hExempt]
      by_cases h : t = 0
      · simp [h, referenceLibrary]
      · simp [h, referenceLibrary]
  within := by
    intro t _ _ p hSome
    by_cases h : t = 1
    · simp only [h, if_true] at hSome ⊢
      by_cases hp : p = 1
      · subst hp
        decide
      by_cases hp2 : p = 2
      · subst hp2
        decide
      · simp [hp, hp2] at hSome
    · simp only [h, if_false] at hSome ⊢
      by_cases hp2 : p = 2
      · subst hp2
        decide
      · simp [hp2] at hSome

def twoFiles : Content
| 0 => [⟨0, 1, 1, 200, 10⟩, ⟨0, 2, 2, 150, 20⟩]
| _ => []

theorem twoFiles_listed {f} (hListed : twoFiles.Listed f) :
    f = ⟨0, 1, 1, 200, 10⟩ ∨ f = ⟨0, 2, 2, 150, 20⟩ := by
  rcases hListed with ⟨level, _, hMem⟩
  match level, hMem with
  | 0, hMem => simpa [twoFiles] using hMem
  | _ + 1, hMem => simp [twoFiles] at hMem

def twoFilesReplica : ReplicaOf twoTransactions where
  content := twoFiles
  wellListed := by
    constructor
    · intro level _
      match level with
      | 0 => decide
      | _ + 1 => exact List.Pairwise.nil
    · intro f hListed
      rcases twoFiles_listed hListed with rfl | rfl <;> decide
    · simp [twoFiles, snapshotLevel]
    · simp [twoFiles, snapshotLevel]
  file f := twoTransactions.tx f.minTXID
  produced := by
    intro f hListed
    rcases twoFiles_listed hListed with rfl | rfl
    · exact .transaction (by decide) (by decide)
    · exact .transaction (by decide) (by decide)

/- An environment in which no call fails. -/
def RestoreEnv.calm {D : Type} (files : Listing)
    (openLTXFile : FileInfo → Except Err (Reader D))
    (follow : Nat → List D → Option Err × List D) :
    RestoreEnv D where
  stat := none
  readTXIDFile := .ok 0
  followSnapshots := .ok ⟨[], none⟩
  v3 := none
  files := files
  openLTXFile := openLTXFile
  mkdir := none
  create := none
  partialPages := []
  sync := none
  close := none
  rename := none
  integrity := none
  canceled := false
  writeTXIDFile := none
  follow := follow

/- Following is stopped at once. -/
def calmEnv : RestoreEnv Nat :=
  .calm twoFiles.listing
    (fun f => .ok (.ok (twoTransactions.tx f.minTXID)))
    (fun _ pages => (none, pages))

theorem calmEnv_serves : twoFilesReplica.Serves calmEnv := by
  constructor
  · intro level _ itr hItr
    simp only [calmEnv, RestoreEnv.calm, Content.listing, Except.ok.injEq] at hItr
    rw [← hItr]
    exact List.prefix_refl _
  · intro f _ file hOpen
    simp only [calmEnv, RestoreEnv.calm, Except.ok.injEq] at hOpen
    rw [← hOpen]
    rfl
  · intro v3 hV3
    simp [calmEnv, RestoreEnv.calm] at hV3

def latest : RestoreOptions where
  outputPath := "db"
  txID := 0
  timestamp := 0
  follow := false
  integrityCheck := .none

/- The restored file holds both updates. -/
theorem twoFiles_restored :
    ∃ plan,
      calcRestorePlan calmEnv.files 0 0 = .ok plan ∧
      (restore referenceLibrary calmEnv latest
        (fun _ => none)).fs "db" =
        some (twoTransactions.replay (maxTXIDOf plan)) := by
  rcases (restore_eq_replay twoFilesReplica calmEnv calmEnv_serves latest (fun _ => none)).1 rfl
    (by decide) with ⟨plan, hPlan, _, hOutput⟩
  exact ⟨plan, hPlan, hOutput⟩

end Replicate
