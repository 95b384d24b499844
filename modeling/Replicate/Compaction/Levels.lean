import Replicate.Compaction.Retention

/-
  The levels of a replica, one operation after the other.

  The operations are those of the retention model, but each
  one ends before the next one begins. A listing may still
  fail part way. All compactions are made by one compactor,
  with or without a cache.

  Main declarations:
    * `Contiguous.checks`
    * `level_checks_agree`
    * `LevelState.Run.interleaves`
-/

-- Contiguous Levels

namespace Replicate

open Compactor Relation TXID

/- Each file begins one past the end of the one before. -/
def Contiguous (files : List FileInfo) : Prop :=
  files.IsChain (fun f g => g.minTXID = f.maxTXID + 1)

/- The `Type` of a `ValidationError`. -/
inductive ValidationType where
  | gap
  | overlap
  | unsorted
  deriving DecidableEq, Repr

structure ValidationError where
  level : Nat
  type : ValidationType
  message : String
  prevFile : FileInfo
  currFile : FileInfo
  deriving DecidableEq, Repr

/- What `ValidateLevel` says about two files in a row. -/
def validatePair (level : Nat) (prevInfo info : FileInfo) : Option ValidationError :=
  let expectedMinTXID := TXID.next prevInfo.maxTXID
  if info.minTXID < prevInfo.minTXID then
    some ⟨level, .unsorted, "files out of order: curr.MinTXID=" ++
      format info.minTXID ++ " < prev.MinTXID=" ++
      format prevInfo.minTXID, prevInfo, info⟩
  else if info.minTXID ≠ expectedMinTXID then
    if expectedMinTXID < info.minTXID then
      some ⟨level, .gap, "TXID gap: prev.MaxTXID=" ++ format prevInfo.maxTXID ++
        ", curr.MinTXID=" ++ format info.minTXID ++
        " (expected " ++ format expectedMinTXID ++
        ")", prevInfo, info⟩
    else
      some ⟨level, .overlap, "TXID overlap: prev.MaxTXID=" ++ format prevInfo.maxTXID ++
        ", curr.MinTXID=" ++ format info.minTXID, prevInfo, info⟩
  else none

def validateFiles (level : Nat) : Option FileInfo → List FileInfo → List ValidationError
| _, [] => []
| none, info :: rest => validateFiles level (some info) rest
| some prevInfo, info :: rest =>
  (validatePair level prevInfo info).toList ++ validateFiles level (some info) rest

def validateLevel (content : Content) (fault : ListFault)
    (level : Nat) : Except Err (List ValidationError) :=
  match ltxFiles content fault level 0 with
  | .error err => .error (.wrap "fetch ltx files" err)
  | .ok itr =>
    match itr.err with
    | some err => .error (.wrap "close iterator" err)
    | none => .ok (validateFiles level none itr.items)

/- The loop of `VerifyLevelConsistency`. -/
def verifyFiles : Option FileInfo → List FileInfo → Except Err Unit
| _, [] => .ok ()
| none, info :: rest => verifyFiles (some info) rest
| some prevInfo, info :: rest =>
  let expectedMinTXID := TXID.next prevInfo.maxTXID
  if info.minTXID ≠ expectedMinTXID then
    if expectedMinTXID < info.minTXID then
      .error (.text ("TXID gap detected: prev.MaxTXID=" ++ format prevInfo.maxTXID ++
        ", next.MinTXID=" ++
        format info.minTXID ++ " (expected " ++
        format expectedMinTXID ++ ")"))
    else
      .error (.text ("TXID overlap detected: prev.MaxTXID=" ++ format prevInfo.maxTXID ++
        ", next.MinTXID=" ++ format info.minTXID))
  else verifyFiles (some info) rest

def verifyLevelConsistency (content : Content) (fault : ListFault)
    (level : Nat) : Except Err Unit :=
  match ltxFiles content fault level 0 with
  | .error err => .error (.wrap "fetch ltx files" err)
  | .ok itr =>
    match verifyFiles none itr.items with
    | .error err => .error err
    | .ok () => failOn "close iterator" itr.err

/- Contiguous files have nothing to report. -/
theorem Contiguous.checks {files} (hContiguous : Contiguous files)
    (hProper : ∀ f ∈ files, f.minTXID ≤ f.maxTXID) (hBound : ∀ f ∈ files, f.maxTXID + 1 < bound)
    (level : Nat) : validateFiles level none files = [] ∧ verifyFiles none files = .ok () := by
  -- on the files after the first one
  cases files with
  | nil => exact ⟨rfl, rfl⟩
  | cons f files =>
    rw [validateFiles, verifyFiles]
    induction files generalizing f with
    | nil => exact ⟨rfl, rfl⟩
    | cons g files ih =>
      rcases List.isChain_cons_cons.mp hContiguous with ⟨hNext, hRest⟩
      have hExpected : TXID.next f.maxTXID = f.maxTXID + 1 := next_eq (hBound f List.mem_cons_self)
      have hOrder := hProper f List.mem_cons_self
      have hLater := ih g hRest (fun x hx => hProper x (List.mem_cons_of_mem f hx))
        (fun x hx => hBound x (List.mem_cons_of_mem f hx))
      have hPair : validatePair level f g = none := by
        unfold validatePair
        rw [if_neg (by omega), if_neg]
        rw [hExpected]
        exact not_not.mpr hNext
      have hSame : ¬ g.minTXID ≠ TXID.next f.maxTXID := by
        rw [hExpected]
        exact not_not.mpr hNext
      refine ⟨?_, ?_⟩
      · rw [validateFiles, hPair]
        exact hLater.1
      · rw [verifyFiles]
        rw [if_neg hSame]
        exact hLater.2

/- What both loops say about files after a first one. -/
theorem checks_iff {f : FileInfo} {files} (hProper : ∀ x ∈ f :: files, x.minTXID ≤ x.maxTXID)
    (hBound : ∀ x ∈ f :: files, x.maxTXID + 1 < bound) (level : Nat) :
    (validateFiles level (some f) files = [] ↔ Contiguous (f :: files)) ∧
      (verifyFiles (some f) files = .ok () ↔ Contiguous (f :: files)) := by
  induction files generalizing f with
  | nil => simp [validateFiles, verifyFiles, Contiguous]
  | cons g files ih =>
    have hNext : TXID.next f.maxTXID = f.maxTXID + 1 := next_eq (hBound f List.mem_cons_self)
    have hOrder := hProper f List.mem_cons_self
    rcases ih (fun x hx => hProper x (List.mem_cons_of_mem f hx))
      (fun x hx => hBound x (List.mem_cons_of_mem f hx)) with ⟨hValid, hVerify⟩
    have hChain : Contiguous (f :: g :: files) ↔
      g.minTXID = f.maxTXID + 1 ∧ Contiguous (g :: files) := List.isChain_cons_cons
    have hPair : validatePair level f g = none ↔ g.minTXID = f.maxTXID + 1 := by
      unfold validatePair
      rw [hNext]
      split
      · simp only [reduceCtorEq, false_iff]
        omega
      · simp only [ite_eq_right_iff]
        split
        · simp
        · simp
    rw [hChain]
    refine ⟨?_, ?_⟩
    · rw [validateFiles, List.append_eq_nil_iff, Option.toList_eq_nil_iff, hPair, hValid]
    · rw [verifyFiles, hNext]
      by_cases hSame : g.minTXID = f.maxTXID + 1
      · simp [hSame, hVerify]
      · simp only [ne_eq, hSame, not_false_eq_true, if_true, false_and, iff_false]
        split
        · simp
        · simp

/-
  Whatever a listing returns, both checks accept the level
  exactly if the listing is whole and its files contiguous.
-/
theorem level_checks_agree
    (content : Content)
    (fault : ListFault)
    (level : Nat)
    (hProper : ∀ f ∈ content level, f.minTXID ≤ f.maxTXID)
    (hBound : ∀ f ∈ content level, f.maxTXID + 1 < bound) :
    (validateLevel content fault level = .ok [] ↔
      ∃ itr,
        ltxFiles content fault level 0 = .ok itr ∧
        itr.err = none ∧
        Contiguous itr.items) ∧
    (verifyLevelConsistency content fault level = .ok () ↔
      validateLevel content fault level = .ok []) := by
  unfold validateLevel verifyLevelConsistency
  cases hList : ltxFiles content fault level 0 with
  | error err => simp
  | ok itr =>
    have hFiles : (validateFiles level none itr.items = [] ↔ Contiguous itr.items) ∧
      (verifyFiles none itr.items = .ok () ↔ Contiguous itr.items) := by
      have hMem : ∀ f ∈ itr.items, f ∈ content level := fun f hf => mem_of_mem_ltxFiles hList hf
      cases hItems : itr.items with
      | nil => simp [validateFiles, verifyFiles, Contiguous]
      | cons f files =>
        rw [hItems] at hMem
        exact checks_iff (fun x hx => hProper x (hMem x hx)) (fun x hx => hBound x (hMem x hx)) level
    dsimp only
    cases hErr : itr.err with
    | some err =>
      cases verifyFiles none itr.items with
      | error | ok => simp [hErr, failOn]
    | none =>
      cases hVerify : verifyFiles none itr.items with
      | error err => simp [hErr, hFiles.1, ← hFiles.2, hVerify]
      | ok => simp [hErr, hFiles.1, ← hFiles.2, hVerify, failOn]

/- Two files in a row. -/
theorem level_checks_agree_pair :
    validateLevel
      (fun _ => [⟨0, 1, 2, 100, 10⟩, ⟨0, 3, 3, 100, 20⟩])
      .none 0 = .ok [] := by
  have hAgree := level_checks_agree (fun _ => [⟨0, 1, 2, 100, 10⟩, ⟨0, 3, 3, 100, 20⟩]) .none 0
    (by decide) (by decide)
  exact hAgree.1.mpr ⟨_, ltxFiles_none_zero _ _, rfl, by simp [Contiguous]⟩

-- Operations In Sequence

open Retention

/- The replica, and the operation that is under way. -/
structure LevelState where
  shared : Shared
  task : Option Task

namespace LevelState

/-
  All compactions are made by one compactor, and snapshot
  retention goes on with some of the levels 1 to 8.
-/
def Allowed (c : Compactor) : Task → Prop
| .compact c' _ => c' = c
| .snapshotRetention _ _ levels => ∀ level ∈ levels, 1 ≤ level ∧ level < snapshotLevel
| _ => True

inductive Step (c : Compactor) : LevelState → LevelState → Prop where
  | world {s s'} (hWorld : World s s') : Step c ⟨s, none⟩ ⟨s', none⟩
  | start {s task} (hStarts : task.Starts) (hAllowed : Allowed c task) :
    Step c ⟨s, none⟩ ⟨s, some task⟩
  | call {s s' task task'} (hCall : Task.Call s task s' task') : Step c ⟨s, some task⟩ ⟨s', task'⟩

/- A run in which each state before a step meets something. -/
def Run (c : Compactor) (allowed : LevelState → Prop) : LevelState → LevelState → Prop :=
  ReflTransGen (fun x y => allowed x ∧ Step c x y)

def empty : LevelState where
  shared := Shared.empty
  task := none

/-
  Before `EnforceRetentionByTXID` looks at a level, its
  files below the TXID, apart from the last one, have been
  compacted into the next level, or that one is empty.
-/
def ConsumedFirst (x : LevelState) : Prop :=
  ∀ enabled txID level levels, x.task = some (.levelRetention enabled txID (level :: levels)) →
    level + 1 < snapshotLevel →
    ∀ f ∈ (x.shared.content level).dropLast, f.maxTXID < txID → x.shared.content (level + 1) = [] ∨
        ∃ g ∈ x.shared.content (level + 1), f.maxTXID ≤ g.maxTXID

/- The state of the concurrent system. -/
def toState (x : LevelState) : Interleaving.State Shared Task :=
  ⟨x.shared, x.task.toList⟩

/- Operations in sequence are a run of that system. -/
theorem Step.interleaves {c x y} (hStep : Step c x y) :
    Interleaving.Step replicaSystem x.toState y.toState := by
  cases hStep with
  | world hWorld => exact .world hWorld
  | start hStarts _ => exact .start hStarts
  | @call s s' task next hCall =>
    have hLone : Interleaving.Step replicaSystem ⟨s, [] ++ task :: []⟩
      ⟨s', [] ++ next.toList ++ []⟩ :=
      .call hCall
    rwa [List.nil_append, List.nil_append, List.append_nil] at hLone

theorem Run.interleaves {c allowed x y} (hRun : Run c allowed x y) :
    Interleaving.Run replicaSystem x.toState y.toState := by
  induction hRun with
  | refl => exact ReflTransGen.refl
  | tail _ hLast ih => exact ih.tail hLast.2.interleaves

end LevelState

-- Whole Operations

namespace LevelState

/- The condition concerns only retention by TXID. -/
def Lenient (allowed : LevelState → Prop) : Prop :=
  ∀ x, (∀ enabled txID level levels, x.task ≠ some (.levelRetention enabled txID
    (level :: levels))) → allowed x

theorem lenient_consumedFirst : Lenient ConsumedFirst := by
  intro x hOther enabled txID level levels hTask
  exact absurd hTask (hOther enabled txID level levels)

def uploadNext (s : Shared) : Shared :=
  { Shared.put { s with pos := s.pos + 1 }
    ⟨0, s.uploaded + 1, s.uploaded + 1, 0, 0⟩ with
    uploaded := s.uploaded + 1 }

/- The end of a level that a faultless lookup returns. -/
def prevMaxInfo (c : Compactor) (s : Shared) (dstLevel : Nat) : FileInfo :=
  match (c.maxLTXFileInfo .none s.content s.cache dstLevel).1 with
  | .ok info => info
  | .error _ => zeroInfo

theorem maxLTXFileInfo_none (c : Compactor) (s : Shared) (dstLevel : Nat) :
    c.maxLTXFileInfo .none s.content s.cache dstLevel =
      (.ok (prevMaxInfo c s dstLevel), (c.maxLTXFileInfo .none s.content s.cache dstLevel).2) := by
  unfold prevMaxInfo maxLTXFileInfo
  cases (if c.cacheGetter then s.cache dstLevel else none) with
  | some | none => rfl

def sources (c : Compactor) (s : Shared) (dstLevel : Nat) : List FileInfo :=
  (s.content (dstLevel - 1)).filter (fun info =>
    decide (TXID.next (prevMaxInfo c s dstLevel).maxTXID ≤ info.minTXID))

def compactedInfo (c : Compactor) (s : Shared) (dstLevel : Nat) : FileInfo where
  level := dstLevel
  minTXID := (sourceRange (sources c s dstLevel)).1
  maxTXID := (sourceRange (sources c s dstLevel)).2
  size := 0
  createdAt := 0

def compactNow (c : Compactor) (s : Shared) (dstLevel : Nat) : Shared :=
  let cache := (c.maxLTXFileInfo .none s.content s.cache dstLevel).2
  let info := compactedInfo c s dstLevel
  { Shared.put { s with cache := cache } info with
    cache := if c.cacheSetter then setCache cache dstLevel info else cache }

def snapshotNow (s : Shared) : Shared :=
  s.put ⟨snapshotLevel, 1, s.pos, 0, 0⟩

def retainLevels (txID : Nat) : Shared → List Nat → Shared
| s, [] => s
| s, level :: levels =>
  retainLevels txID { s with
    content := s.content.delete (expiredByTXID txID (s.content level)) }
    levels

def retainNow (s : Shared) (levels : List Nat) : Shared :=
  retainLevels (minSnapshotTXID 0 (s.content snapshotLevel)) { s with
    content := s.content.delete (expiredSnapshots 0 (s.content snapshotLevel)) }
    levels

def retainL0Now (s : Shared) : Shared :=
  { s with
    content :=
      s.content.delete (expiredL0 (maxL1TXID (s.content 1)) 0 (fun _ => none) (s.content 0)) }

section Runs

variable {c : Compactor} {allowed : LevelState → Prop} {s : Shared}

theorem Run.uploadNext (hLenient : Lenient allowed)
    (hReady : s.pos + 2 < bound ∧ s.uploaded ≤ s.pos) :
    Run c allowed ⟨s, none⟩ ⟨uploadNext s, none⟩ := by
  have hIdle : ∀ s', allowed ⟨s', none⟩ := fun s' => hLenient _ (by simp)
  refine (ReflTransGen.single ⟨hIdle s, .world (.commit hReady.1)⟩).tail ?_
  exact ⟨hIdle _, .world (.upload (Nat.lt_succ_of_le hReady.2))⟩

theorem Run.openSources (hLenient : Lenient allowed) (dstLevel : Nat)
    (files unopened : List FileInfo) :
    Run c allowed ⟨s, some (.openSources c dstLevel files unopened)⟩
      ⟨s, some (.openSources c dstLevel files [])⟩ := by
  induction unopened with
  | nil => exact ReflTransGen.refl
  | cons f unopened ih => exact ReflTransGen.head ⟨hLenient _ (by simp), .call .openSource⟩ ih

theorem Run.compactNow (hLenient : Lenient allowed) (dstLevel : Nat)
    (hReady : (1 ≤ dstLevel ∧ dstLevel < snapshotLevel) ∧
      ¬ (c.requireEncryption = true ∧ c.ageRecipients = []) ∧ sources c s dstLevel ≠ []) :
    Run c allowed ⟨s, none⟩ ⟨compactNow c s dstLevel, none⟩ := by
  rcases hReady with ⟨⟨hFirst, hLast⟩, hEncryption, hSources⟩
  have hLookup := maxLTXFileInfo_none c s dstLevel
  have hList : ltxFiles s.content .none (dstLevel - 1)
    (TXID.next (prevMaxInfo c s dstLevel).maxTXID) = .ok ⟨sources c s dstLevel, none⟩ := rfl
  have hStart : Step c ⟨s, none⟩ ⟨s, some (.compact c dstLevel)⟩ :=
    .start (.compact hFirst hLast hEncryption) rfl
  refine ReflTransGen.head ⟨hLenient _ (by simp), hStart⟩ ?_
  refine ReflTransGen.head ⟨hLenient _ (by simp), .call (.lookup hLookup)⟩ ?_
  refine ReflTransGen.head ⟨hLenient _ (by simp), .call (.listSources hList hSources)⟩ ?_
  refine (Run.openSources hLenient dstLevel _ _).tail ?_
  exact ⟨hLenient _ (by simp), .call (.writeCompacted rfl rfl rfl)⟩

theorem Run.snapshotNow (hLenient : Lenient allowed) (hPos : 1 ≤ s.pos) :
    Run c allowed ⟨s, none⟩ ⟨snapshotNow s, none⟩ := by
  refine ReflTransGen.head ⟨hLenient _ (by simp), .start .snapshot trivial⟩ ?_
  refine ReflTransGen.head ⟨hLenient _ (by simp), .call .readPos⟩ ?_
  exact ReflTransGen.single ⟨hLenient _ (by simp), .call (.writeSnapshot hPos)⟩

theorem Run.retainL0Now (hLenient : Lenient allowed) (hSome : maxL1TXID (s.content 1) ≠ 0) :
    Run c allowed ⟨s, none⟩ ⟨retainL0Now s, none⟩ := by
  have hStart : Step c ⟨s, none⟩ ⟨s, some (.l0Retention true 1)⟩ :=
    .start (.l0Retention (by decide)) trivial
  have hList : Task.Call s (.listL0 true 1 (maxL1TXID (s.content 1))) s
    (some (.deleteL0 (expiredL0 (maxL1TXID (s.content 1)) (1 - 1)
      (fun _ => none) (s.content 0)))) :=
    .listL0 (ltxFiles_none_zero s.content 0)
  refine ReflTransGen.head ⟨hLenient _ (by simp), hStart⟩ ?_
  refine ReflTransGen.head ⟨hLenient _ (by simp),
    .call (.listL1 (ltxFiles_none_zero s.content 1) rfl hSome)⟩ ?_
  refine ReflTransGen.head ⟨hLenient _ (by simp), .call hList⟩ ?_
  exact ReflTransGen.single ⟨hLenient _ (by simp), .call .deleteL0⟩

theorem Run.retainLevels (hAll : ∀ x, allowed x) (txID : Nat) (levels : List Nat) :
    Run c allowed ⟨s, some (.levelRetention true txID levels)⟩
      ⟨retainLevels txID s levels, none⟩ := by
  induction levels generalizing s with
  | nil => exact ReflTransGen.single ⟨hAll _, .call .returns⟩
  | cons level levels ih =>
    refine ReflTransGen.head ⟨hAll _, .call (.listLevel (ltxFiles_none_zero s.content level))⟩
      ?_
    exact ReflTransGen.head ⟨hAll _, .call .deleteLevel⟩ ih

theorem Run.retainNow (hAll : ∀ x, allowed x) (levels : List Nat) (hLevels :
    ∀ level ∈ levels, 1 ≤ level ∧ level < snapshotLevel) :
    Run c allowed ⟨s, none⟩ ⟨retainNow s levels, none⟩ := by
  have hStart : Step c ⟨s, none⟩ ⟨s, some (.snapshotRetention true 1 levels)⟩ :=
    .start .snapshotRetention hLevels
  have hList : Task.Call s (.snapshotRetention true 1 levels) s
    (some (Task.deleteNext true (expiredSnapshots (1 - 1) (s.content snapshotLevel))
      (minSnapshotTXID (1 - 1) (s.content snapshotLevel)) levels)) :=
    .listSnapshots (ltxFiles_none_zero s.content snapshotLevel)
  refine ReflTransGen.head ⟨hAll _, hStart⟩ ?_
  refine ReflTransGen.head ⟨hAll _, .call hList⟩ ?_
  refine ReflTransGen.head ⟨hAll _, .call .deleteLevel⟩ ?_
  exact Run.retainLevels hAll _ levels

end Runs

def plainCompactor : Compactor where
  cacheGetter := true
  cacheSetter := true
  localFileOpener := false
  ageRecipients := []
  ageIdentities := []
  requireEncryption := false

end LevelState

end Replicate
