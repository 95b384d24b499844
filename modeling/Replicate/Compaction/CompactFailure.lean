import Replicate.Compaction.Compact

/-
  What a failed compaction leaves behind.

  With recipients the age writer is closed first and the
  pipe then gets the error. Without recipients the writer
  closed first is the pipe itself: the uploading client
  reads end of file after a part of the merged file, stores
  that part and reports success.

  Main declarations:
    * `Compactor.NoTrace`
    * `Compactor.failed_noTrace_iff`
    * `Compactor.failed_compaction_stored`
-/

-- What The Reader Sees

namespace Replicate

open Pipe

namespace Compactor

variable {c : Compactor} {env : CompactEnv}

/- The merge fails at its start or part way. -/
def MergeFails (run : MergeRun) : Prop :=
  run.newErr ≠ none ∨ run.err ≠ none

theorem outcome_producer_plain {rdrs} (hPlain : c.ageRecipients = []) :
    ∃ received, outcome (c.producer env rdrs) = some (received, none) := by
  unfold producer
  simp only [if_pos hPlain]
  cases (env.merge rdrs).newErr with
  | some err => exact ⟨[], rfl⟩
  | none =>
    cases hErr : (env.merge rdrs).err with
    | some | none => exact ⟨_, by rw [outcome_writes]; rfl⟩

theorem outcome_producer_sealed {rdrs} (hSealed : c.ageRecipients ≠ [])
    (hFails : MergeFails (env.merge rdrs)) :
    ∃ received err, outcome (c.producer env rdrs) = some (received, some err) := by
  unfold producer
  simp only [if_neg hSealed]
  cases env.encrypt with
  | error err => exact ⟨[], _, rfl⟩
  | ok ew =>
    cases hNew : (env.merge rdrs).newErr with
    | some err =>
      exact ⟨_, _, by
        simp only [outcome_writes]
        rfl⟩
    | none =>
      cases hErr : (env.merge rdrs).err with
      | some err =>
        exact ⟨_, _, by
          simp only [outcome_writes]
          rfl⟩
      | none =>
        rcases hFails with hNew' | hErr'
        · exact absurd hNew hNew'
        · exact absurd hErr hErr'

-- The Cache Entry Of The Destination

/- The files that the lookup of the destination lists. -/
def dstListed (env : CompactEnv) (s : CompactorState) (dstLevel : Nat) : List FileInfo :=
  match ltxFiles s.content env.dstFault dstLevel 0 with
  | .error _ => []
  | .ok itr => itr.items

/-
  Looking up the destination caches nothing new: there is
  an entry already, or nothing to cache.
-/
def CacheSettled (c : Compactor) (env : CompactEnv) (s : CompactorState) (dstLevel : Nat) : Prop :=
  (c.cacheGetter = true ∧ (s.cache dstLevel).isSome) ∨ c.cacheSetter = false ∨
    (maxInfo (dstListed env s dstLevel)).maxTXID = 0 ∨
    s.cache dstLevel = some (maxInfo (dstListed env s dstLevel))

theorem lookup_cache_iff {s} {dstLevel : Nat} :
    (c.lookup env s dstLevel).2 dstLevel = s.cache dstLevel ↔ c.CacheSettled env s dstLevel := by
  unfold lookup maxLTXFileInfo CacheSettled dstListed
  by_cases hGet : c.cacheGetter = true ∧ (s.cache dstLevel).isSome
  · rcases Option.isSome_iff_exists.mp hGet.2 with ⟨info, hInfo⟩
    simp [hGet.1, hInfo]
  have hMiss : (if c.cacheGetter = true then s.cache dstLevel else none) = none := by
    split
    · rename_i hGetter
      by_contra hSome
      exact hGet ⟨hGetter, Option.isSome_iff_ne_none.mpr hSome⟩
    · rfl
  rw [hMiss]
  cases hList : ltxFiles s.content env.dstFault dstLevel 0 with
  | error err => simp [maxInfo, zeroInfo]
  | ok itr =>
    simp only [hGet, false_or]
    by_cases hSet : c.cacheSetter = true ∧ 0 < (maxInfo itr.items).maxTXID
    · have hPos : ¬ (maxInfo itr.items).maxTXID = 0 := by omega
      cases itr.err <;>
        simp [hSet.1, hSet.2, hPos, setCache, eq_comm]
    have hIdle : c.cacheSetter = false ∨ (maxInfo itr.items).maxTXID = 0 := by
      cases hSetter : c.cacheSetter with
      | false => exact Or.inl rfl
      | true =>
        refine Or.inr ?_
        by_contra hNonzero
        exact hSet ⟨hSetter, by omega⟩
    have hRight : c.cacheSetter = false ∨ (maxInfo itr.items).maxTXID = 0 ∨
      s.cache dstLevel = some (maxInfo itr.items) := by
      rcases hIdle with hFalse | hZero
      · exact Or.inl hFalse
      · exact Or.inr (Or.inl hZero)
    rw [if_neg hSet]
    cases itr.err <;> simp [hRight]

-- Failed Compactions

/-
  Nothing but an error comes of it: the objects and the
  cached max-file info of the level are unchanged.
-/
def NoTrace (s : CompactorState) (dstLevel : Nat) (result : Except Err FileInfo)
    (s' : CompactorState) : Prop :=
  (∃ err, result = .error err) ∧ s'.objects dstLevel = s.objects dstLevel ∧
    s'.cache dstLevel = s.cache dstLevel

/- The lookup, the source listing and all opens succeed. -/
def ReachesMerge (c : Compactor) (env : CompactEnv) (s : CompactorState) (dstLevel : Nat) : Prop :=
  ∃ rdrs, c.openSources env s dstLevel = .ok rdrs

/-
  The compaction fails: it stops before the merge, or the
  merge fails.
-/
def Fails (c : Compactor) (env : CompactEnv) (s : CompactorState) (dstLevel : Nat) : Prop :=
  ∀ rdrs, c.openSources env s dstLevel = .ok rdrs → MergeFails (env.merge rdrs)

section Failed

variable {c : Compactor} {env : CompactEnv} {s s' : CompactorState} {dstLevel : Nat}
variable {result : Except Err FileInfo} {rdrs : List FileInfo} {received : List UInt8} {err : Err}

theorem exists_compacts (c : Compactor) (env : CompactEnv) (s : CompactorState) (dstLevel : Nat)
    (hFails : c.Fails env s dstLevel) : ∃ result s', c.Compacts env s dstLevel result s' := by
  by_cases hRequired : c.requireEncryption = true ∧ c.ageRecipients = []
  · exact ⟨_, _, .encryptionRequired hRequired.1 hRequired.2⟩
  cases hOpen : c.openSources env s dstLevel with
  | error err => exact ⟨_, _, .notOpened hRequired hOpen⟩
  | ok rdrs =>
    by_cases hPlain : c.ageRecipients = []
    · rcases outcome_producer_plain hPlain with ⟨received, hOutcome⟩
      exact ⟨_, _, .written hRequired hOpen (delivers_iff.mpr hOutcome)⟩
    · rcases outcome_producer_sealed hPlain (hFails rdrs hOpen) with ⟨received, err, hOutcome⟩
      exact ⟨_, _, .writeFailed hRequired hOpen (delivers_iff.mpr hOutcome)⟩

theorem sealed_of_writeFailed (hPipe : Delivers (c.producer env rdrs) received (some err)) :
    c.ageRecipients ≠ [] := by
  intro hPlain
  rcases outcome_producer_plain hPlain with ⟨received', hOutcome⟩
  rw [delivers_iff.mp hPipe] at hOutcome
  simp at hOutcome

theorem plain_of_written (hFails : MergeFails (env.merge rdrs))
    (hPipe : Delivers (c.producer env rdrs) received none) : c.ageRecipients = [] := by
  by_contra hSealed
  rcases outcome_producer_sealed hSealed hFails with ⟨received', err, hOutcome⟩
  rw [delivers_iff.mp hPipe] at hOutcome
  simp at hOutcome

theorem noTrace_lookup_iff : NoTrace s dstLevel (.error err) { s with
    cache := (c.lookup env s dstLevel).2 } ↔ c.CacheSettled env s dstLevel := by
  rw [← lookup_cache_iff]
  simp [NoTrace]

end Failed

/-
  A failed compaction leaves no trace exactly when it was
  refused for lack of recipients, or when it caches nothing
  in looking up its destination and it has recipients or
  failed before its merge began.
-/
theorem failed_noTrace_iff
    (c : Compactor)
    (env : CompactEnv)
    (s : CompactorState)
    (dstLevel : Nat)
    (hFails : c.Fails env s dstLevel) :
    (∃ result s', c.Compacts env s dstLevel result s') ∧
    ∀ result s',
      c.Compacts env s dstLevel result s' →
      (NoTrace s dstLevel result s' ↔
        (c.requireEncryption = true ∧
          c.ageRecipients = []) ∨
        (c.CacheSettled env s dstLevel ∧
          (c.ageRecipients ≠ [] ∨
            ¬ c.ReachesMerge env s dstLevel))) := by
  refine ⟨exists_compacts c env s dstLevel hFails, ?_⟩
  intro result s' hCompacts
  cases hCompacts with
  | encryptionRequired hRequired hNone =>
    constructor
    · intro _
      exact Or.inl ⟨hRequired, hNone⟩
    · intro _
      exact ⟨⟨_, rfl⟩, rfl, rfl⟩
  | notOpened hAllowed hOpen =>
    have hNot : ¬ c.ReachesMerge env s dstLevel := by
      rintro ⟨rdrs, hOk⟩
      rw [hOpen] at hOk
      simp at hOk
    rw [noTrace_lookup_iff]
    constructor
    · intro hSettled
      exact Or.inr ⟨hSettled, Or.inr hNot⟩
    · rintro (hRequired | ⟨hSettled, _⟩)
      · exact absurd hRequired hAllowed
      · exact hSettled
  | writeFailed hAllowed hOpen hPipe =>
    have hSealed := sealed_of_writeFailed hPipe
    rw [noTrace_lookup_iff]
    constructor
    · intro hSettled
      exact Or.inr ⟨hSettled, Or.inl hSealed⟩
    · rintro (hRequired | ⟨hSettled, _⟩)
      · exact absurd hRequired hAllowed
      · exact hSettled
  | written hAllowed hOpen hPipe =>
    have hPlain := plain_of_written (hFails _ hOpen) hPipe
    constructor
    · rintro ⟨⟨err, hErr⟩, _⟩
      simp at hErr
    · rintro (hRequired | ⟨_, hSealed | hEarly⟩)
      · exact absurd hRequired hAllowed
      · exact absurd hPlain hSealed
      · exact absurd ⟨_, hOpen⟩ hEarly

-- A Truncated File At The Destination

def plainCompactor : Compactor where
  cacheGetter := true
  cacheSetter := true
  localFileOpener := false
  ageRecipients := []
  ageIdentities := []
  requireEncryption := false

def sealedCompactor : Compactor :=
  { plainCompactor with
    ageRecipients := ["age1recipient"] }

/-
  Three files at level 0, of which the first is in level 1
  already.
-/
def threeObjects : CompactorState where
  objects level :=
    if level = 0 then
      [⟨⟨0, 1, 1, 3, 10⟩, [1, 1, 1]⟩, ⟨⟨0, 2, 2, 3, 20⟩, [2, 2, 2]⟩, ⟨⟨0, 3, 3, 3, 30⟩, [3, 3, 3]⟩]
    else if level = 1 then [⟨⟨1, 1, 1, 3, 10⟩, [1, 1, 1]⟩]
    else []
  cache level :=
    if level = 1 then some ⟨1, 1, 1, 3, 10⟩ else none

/- The stream of the second source breaks part way. -/
def brokenSource : CompactEnv where
  dstFault := .none
  srcFault := .none
  openLocal _ := some (.sentinel .notExist)
  openRemote _ := none
  decrypt _ := none
  encrypt := .ok ⟨[[65]], id, .ok [[90]]⟩
  merge _ := ⟨none, [[2, 2]], some (.text "unexpected EOF")⟩
  createdAt := 20

theorem brokenSource_fails (c : Compactor) : c.Fails brokenSource threeObjects 1 := by
  intro rdrs _
  exact Or.inr (by simp [brokenSource])

/-
  The broken merge is stored as the file 2-3 of level 1 and
  reported as a success.
-/
theorem failed_compaction_stored :
    ¬ (plainCompactor.Fails brokenSource threeObjects 1 →
        ∀ result s',
          plainCompactor.Compacts brokenSource threeObjects
            1 result s' →
          NoTrace threeObjects 1 result s') := by
  intro hClaim
  have hOpen : plainCompactor.openSources brokenSource threeObjects 1 =
    .ok [⟨0, 2, 2, 3, 20⟩, ⟨0, 3, 3, 3, 30⟩] := by
    decide
  have hPipe : Delivers (plainCompactor.producer brokenSource
    [⟨0, 2, 2, 3, 20⟩, ⟨0, 3, 3, 3, 30⟩])
      [2, 2] none := by
    rw [delivers_iff]
    rfl
  have hTrace := hClaim (brokenSource_fails _) _ _ (.written (by decide) hOpen hPipe)
  rcases hTrace with ⟨⟨err, hErr⟩, _⟩
  simp at hErr

/- With a recipient the same failure leaves no trace. -/
theorem sealed_failure_noTrace :
    sealedCompactor.Fails brokenSource threeObjects 1 ∧
    ∀ result s',
      sealedCompactor.Compacts brokenSource threeObjects 1
        result s' → NoTrace threeObjects 1 result s' := by
  refine ⟨brokenSource_fails _, ?_⟩
  intro result s' hCompacts
  refine ((failed_noTrace_iff sealedCompactor brokenSource threeObjects 1 (brokenSource_fails _)).2
    result s' hCompacts).mpr (Or.inr ⟨Or.inl ?_, Or.inl ?_⟩)
  · exact ⟨rfl, rfl⟩
  · simp [sealedCompactor]

end Compactor

end Replicate
