import Replicate.Lease.S3Exclusion
import Replicate.Lease.FileExclusion

/-
  The generations of a lease.

  A client that takes over an expired lease writes the next
  generation, and a client that renews keeps its own. Both
  take it from the record that is there. When a release has
  deleted the record, nothing is left of the generation, and
  the next client starts with the first one again. As long
  as the lease is never created a second time, generations
  are fencing tokens.

  Main declarations:
    * `Fenced.write`
    * `S3State.Run.fenced` and `FileState.Run.fenced`
    * `lease_generations_increase`
    * `lease_generation_reused`
-/

-- Generations As Fencing Tokens

namespace Replicate

open Fencing FileCall List Function

variable {ι : Type}

/-
  In the order in which the records were written, another
  client gets a greater generation; no two clients are told
  the same one.
-/
def FencesGenerations (log : List (LeaseEvent ι)) : Prop :=
  Increasing (issuedGenerations log) ∧ ∀ i j r r',
    .granted i r ∈ log → .granted j r' ∈ log → i ≠ j → r.generation ≠ r'.generation

/- The record that is there has the greatest generation. -/
structure Fenced (log : List (LeaseEvent ι)) (current : Option (ι × LeaseRecord)) : Prop where
  increasing : Increasing (issuedGenerations log)
  below : ∀ author r, current = some (author, r) →
    Below (issuedGenerations log) author r.generation ∧ 1 ≤ r.generation
  told : ∀ i r, .granted i r ∈ log → .wrote i r ∈ log

namespace Fenced

variable {log : List (LeaseEvent ι)} {current : Option (ι × LeaseRecord)} {i : ι} {r : LeaseRecord}

theorem empty : Fenced ([] : List (LeaseEvent ι)) none where
  increasing := List.Pairwise.nil
  below := nofun
  told := nofun

theorem drop (hFenced : Fenced log current) : Fenced log none where
  increasing := hFenced.increasing
  below := nofun
  told := hFenced.told

/- A record is written. -/
theorem write (hFenced : Fenced log current) (hBelow :
    Below (issuedGenerations log) i r.generation ∧ 1 ≤ r.generation) :
    Fenced (.wrote i r :: log) (some (i, r)) where
  increasing := hFenced.increasing.issue hBelow.1
  below := by
    intro author r' hEq
    cases hEq
    exact ⟨hBelow.1.issue, hBelow.2⟩
  told := by
    intro j r' hGranted
    rcases mem_cons.mp hGranted with hNew | hOld
    · cases hNew
    · exact mem_cons_of_mem _ (hFenced.told j r' hOld)

theorem grant (hFenced : Fenced log current) (hWrote : .wrote i r ∈ log) :
    Fenced (.granted i r :: log) current where
  increasing := hFenced.increasing
  below := hFenced.below
  told := by
    intro j r' hGranted
    apply mem_cons_of_mem
    rcases mem_cons.mp hGranted with hNew | hOld
    · cases hNew
      exact hWrote
    · exact hFenced.told j r' hOld

theorem quiet (hFenced : Fenced log current) (e : LeaseEvent ι) (hIssued : e.issued = none)
    (hNot : ∀ j r, e ≠ .granted j r) : Fenced (e :: log) current := by
  have hSame : issuedGenerations (e :: log) = issuedGenerations log := filterMap_cons_none hIssued
  refine ⟨?_, ?_, ?_⟩
  · rw [hSame]
    exact hFenced.increasing
  · rw [hSame]
    exact hFenced.below
  · intro j r' hGranted
    apply mem_cons_of_mem
    rcases mem_cons.mp hGranted with hNew | hOld
    · exact absurd hNew.symm (hNot j r')
    · exact hFenced.told j r' hOld

theorem next (hFenced : Fenced log current) {author : ι} {old}
    (hCurrent : current = some (author, old)) (hBound : old.generation + 1 < 2 ^ 63)
    (hNext : r.generation = nextGeneration old) :
    Below (issuedGenerations log) i r.generation ∧ 1 ≤ r.generation := by
  rcases hFenced.below author old hCurrent with ⟨hBelow, hPos⟩
  rw [hNext, nextGeneration_eq hPos hBound]
  refine ⟨hBelow.raise ?_, ?_⟩
  · exact Int.lt_succ old.generation
  · omega

theorem first (hNone : issuedGenerations log = []) (hFirst : r.generation = 1) :
    Below (issuedGenerations log) i r.generation ∧ 1 ≤ r.generation := by
  rw [hNone, hFirst]
  exact ⟨nofun, Int.le_refl 1⟩

theorem mem_issued {i : ι} {r} (hWrote : .wrote i r ∈ log) :
    (i, r.generation) ∈ issuedGenerations log :=
  mem_filterMap.mpr ⟨_, hWrote, rfl⟩

theorem fences (hFenced : Fenced log current) : FencesGenerations log := by
  refine ⟨hFenced.increasing, ?_⟩
  intro i j r r' hLeft hRight hNe
  have hx := mem_issued (hFenced.told i r hLeft)
  have hy := mem_issued (hFenced.told j r' hRight)
  exact hFenced.increasing.ne hx hy hNe

end Fenced

-- The S3 Leaser

namespace S3State

/-
  A lease is created only if there was none before, and the
  counter does not overflow.
-/
def Numbered (s : S3State ι) : S3Op ι → Prop
| .put k =>
  ∀ renewal lease etag, s.calls k = .putting renewal lease etag →
    (etag = none → s.object = none → issuedGenerations s.log = []) ∧
    ∀ o, s.object = some o → o.record.generation + 1 < 2 ^ 63
| _ => True

/- The record that is there, with its author. -/
def current (s : S3State ι) : Option (ι × LeaseRecord) :=
  s.object.map fun o => (o.author, o.record)

/- What a call has written is in the log. -/
def Logged (s : S3State ι) : Prop :=
  ∀ k r etag, s.calls k = .written r etag → .wrote k.1 r ∈ s.log

variable [DecidableEq ι] {leasers : ι → Leaser} {s s' : S3State ι} {k : ι × Nat}

theorem Logged.silent (hLogged : s.Logged) {c} (hCalls : s'.calls = update s.calls k c)
    (hNew : ∀ r etag, c ≠ .written r etag) (hLog : ∀ e ∈ s.log, e ∈ s'.log) : s'.Logged := by
  intro k' r etag hCall
  by_cases hSame : k' = k
  · rw [hSame, call_self hCalls] at hCall
    exact absurd hCall (hNew r etag)
  · rw [call_other hCalls hSame] at hCall
    exact hLog _ (hLogged k' r etag hCall)

theorem Logged.put (hLogged : s.Logged) (lease : LeaseRecord) : (s.afterPut k lease).Logged := by
  have hCalls : (s.afterPut k lease).calls = update s.calls k (.written lease (s.etags + 1)) := rfl
  intro k' r etag hCall
  by_cases hSame : k' = k
  · rw [hSame, call_self hCalls] at hCall
    cases hCall
    rw [hSame]
    exact mem_cons_self
  · rw [call_other hCalls hSame] at hCall
    exact mem_cons_of_mem _ (hLogged k' r etag hCall)

omit [DecidableEq ι] in
theorem Consistent.generation_put (hCon : s.Consistent leasers) {renewal : Bool} {lease etag}
    (hCall : s.calls k = .putting renewal lease etag)
    (hAccepts : LockObject.accepts s.object etag = true) (hNumbered : s.Numbered (.put k))
    (hFenced : Fenced s.log s.current) :
    Below (issuedGenerations s.log) k.1 lease.generation ∧ 1 ≤ lease.generation := by
  have hPutting := hCon.backed k
  rw [hCall] at hPutting
  rcases hNumbered renewal lease etag hCall with ⟨hNew, hBound⟩
  cases hObject : s.object with
  | none =>
    have hTag : etag = none := by
      rw [hObject] at hAccepts
      cases etag with
      | none => rfl
      | some t => exact absurd hAccepts Bool.false_ne_true
    exact Fenced.first (hNew hTag hObject) (hPutting.2.1 hTag)
  | some o =>
    have hCurrent : s.current = some (o.author, o.record) := by
      unfold current
      rw [hObject]
      rfl
    have hTag := accepts_some hObject hAccepts
    rcases (hPutting.2.2 o.etag hTag).2 with hPast | hOwn
    · exact hFenced.next hCurrent (hBound o hObject) (hPast o hObject rfl).2
    rcases hOwn with ⟨old, hGiven, _, hSameGen⟩
    have hSame := hCon.own hGiven hObject
    rw [hSame.1, hSame.2] at hCurrent
    rw [hSameGen]
    exact hFenced.below k.1 old hCurrent

theorem Step.fenced {op : S3Op ι} (hStep : Step leasers s op s') (hCon : s.Consistent leasers)
    (hNumbered : s.Numbered op) (hLogged : s.Logged) (hFenced : Fenced s.log s.current) :
    s'.Logged ∧ Fenced s'.log s'.current := by
  have hSet : ∀ (k : ι × Nat) (c : S3Call), (∀ r etag, c ≠ .written r etag) →
    (s.set k c).Logged ∧ Fenced (s.set k c).log (s.set k c).current := by
    intro k c hNew
    have hCalls : (s.set k c).calls = update s.calls k c := rfl
    exact ⟨hLogged.silent hCalls hNew fun _ hMem => hMem, hFenced⟩
  have hCons : ∀ e : LeaseEvent ι, ∀ x ∈ s.log, x ∈ e :: s.log :=
    fun e _ hMem => mem_cons_of_mem e hMem
  cases hStep with
  | tick => exact ⟨hLogged, hFenced⟩
  | get | getFailed | prepare | putRefused | reject | deleteRefused => exact hSet _ _ nofun
  | check => exact hSet _ _ (S3Call.silent_afterCheck _ _).1
  | renew => exact hSet _ _ (S3Call.silent_startRenew _ _ _).1
  | put hCall hAccepts =>
    refine ⟨hLogged.put _, hFenced.write ?_⟩
    exact hCon.generation_put hCall hAccepts hNumbered hFenced
  | @answer k lease etag hCall =>
    have hCalls : (s.afterAnswer k lease etag).calls = update s.calls k
      (.done (.ok (some ⟨lease, some etag⟩))) := rfl
    exact ⟨hLogged.silent hCalls nofun (hCons _), hFenced.grant (hLogged k lease etag hCall)⟩
  | release => exact hSet _ _ (S3Call.silent_startRelease _).1
  | @delete k etag o hCall hObject hMatches =>
    have hCalls : (s.afterDelete k o.author).calls = update s.calls k .deleted := rfl
    exact ⟨hLogged.silent hCalls nofun (hCons _),
      (hFenced.quiet (.deleted k.1 o.author) rfl nofun).drop⟩
  | @confirm k hCall =>
    have hCalls : (s.afterConfirm k).calls = update s.calls k (.done (.ok none)) := rfl
    exact ⟨hLogged.silent hCalls nofun (hCons _), hFenced.quiet (.released k.1) rfl nofun⟩

theorem Run.fenced {now : Int} (hRun : Run leasers Numbered (initial ι now) s) :
    s.Logged ∧ Fenced s.log s.current := by
  induction hRun with
  | refl => exact ⟨nofun, Fenced.empty⟩
  | tail hRun hStep ih =>
    rcases hStep with ⟨op, hNumbered, hStep⟩
    have hCon := Run.consistent hRun (initial_consistent leasers now)
    exact hStep.fenced hCon hNumbered ih.1 ih.2

end S3State

-- The File Leaser

namespace FileState

variable {τ : Type}

/-
  The lock file does not change under a call; a lease is
  created only if there was none before, and the counter
  does not overflow.
-/
def Numbered (contentETag : LockContent → τ) (s : FileState ι τ) (op : FileOp ι τ) : Prop :=
  s.Unchanged contentETag op ∧ match op with
    | .create _ => s.file = none → issuedGenerations s.log = []
    | .rename _ => ∀ f r, s.file = some f → f.content = .lease r → r.generation + 1 < 2 ^ 63
    | _ => True

/- The record that is there, with its author. -/
def current (s : FileState ι τ) : Option (ι × LeaseRecord) :=
  match s.file with
  | some ⟨_, .lease r, author⟩ => some (author, r)
  | _ => none

theorem current_eq {s : FileState ι τ} {f : LockFile ι} {r : LeaseRecord} (hFile : s.file = some f)
    (hContent : f.content = .lease r) : s.current = some (f.author, r) := by
  unfold current
  rw [hFile]
  cases f
  subst hContent
  rfl

/- While a lease is created, none has been written. -/
def Fresh (s : FileState ι τ) : Prop :=
  ∀ i inode renewal lease, s.calls i = .created inode renewal lease → issuedGenerations s.log = []

variable [DecidableEq ι] {contentETag : LockContent → τ} {leasers : ι → Leaser}
variable {s s' : FileState ι τ} {i : ι}

theorem Fresh.silent (hFresh : s.Fresh) {c} (hNew : c.NotCreated) : (s.set i c).Fresh := by
  have hCalls : (s.set i c).calls = update s.calls i c := rfl
  intro j inode renewal lease hCall
  by_cases hSame : j = i
  · rw [hSame, call_self hCalls] at hCall
    exact absurd hCall (hNew inode renewal lease)
  · rw [call_other hCalls hSame] at hCall
    exact hFresh j inode renewal lease hCall

theorem fresh_of_alone {c} (hCalls : s'.calls = update s.calls i c) (hNew : c.NotCreated)
    (hAlone : ∀ j, j ≠ i → (s.calls j).NotCreated) : s'.Fresh := by
  intro j inode renewal lease hCall
  by_cases hSame : j = i
  · rw [hSame, call_self hCalls] at hCall
    exact absurd hCall (hNew inode renewal lease)
  · rw [call_other hCalls hSame] at hCall
    exact absurd hCall (hAlone j hSame inode renewal lease)

omit [DecidableEq ι] in
theorem Consistent.generation_rename (hInjective : Injective contentETag)
    (hOwners : Injective fun j => (leasers j).owner)
    (hCon : s.Consistent contentETag leasers) {renewal : Bool} {lease : LeaseRecord} {etag : τ}
    (hCall : s.calls i = .confirmed renewal lease etag) {f : LockFile ι}
    (hFile : s.file = some f) (hMatches : contentETag f.content = etag)
    (hBound : ∀ r, f.content = .lease r → r.generation + 1 < 2 ^ 63)
    (hFenced : Fenced s.log s.current) :
    (Below (issuedGenerations s.log) i lease.generation ∧ 1 ≤ lease.generation) ∧
      ∃ r, f.content = .lease r := by
  have hConfirmed := hCon.known i
  rw [hCall] at hConfirmed
  rcases hConfirmed.2.2.2 etag rfl with ⟨r, hTag, hCase⟩
  have hContent := content_of_etag hInjective hMatches hTag
  have hCurrent := current_eq hFile hContent
  refine ⟨?_, r, hContent⟩
  rcases hCase with hPast | hOwn
  · exact hFenced.next hCurrent (hBound r hContent) hPast.2
  have hAuthor : f.author = i := by
    apply hOwners
    dsimp only
    rw [← hCon.named f r hFile hContent]
    exact hOwn.1
  rw [hAuthor] at hCurrent
  rw [hOwn.2.2]
  exact hFenced.below i r hCurrent

variable [DecidableEq τ]

theorem Step.fenced (hInjective : Injective contentETag)
    (hOwners : Injective fun j => (leasers j).owner) {op : FileOp ι τ}
    (hStep : Step contentETag leasers s op s') (hCon : s.Consistent contentETag leasers)
    (hNumbered : s.Numbered contentETag op) (hFresh : s.Fresh) (hFenced : Fenced s.log s.current) :
    s'.Fresh ∧ Fenced s'.log s'.current := by
  have hSet : ∀ (i : ι) (c : FileCall τ), c.NotCreated → (s.set i c).Fresh ∧
    Fenced (s.set i c).log (s.set i c).current :=
    fun i c hNew => ⟨hFresh.silent hNew, hFenced⟩
  -- The record is written into the file that was created.
  have hWrite : ∀ i inode renewal lease, s.calls i = .created inode renewal lease →
    Fenced (.wrote i lease :: s.log) (some (i, lease)) := by
    intro i inode renewal lease hCall
    have hCreated := hCon.known i
    rw [hCall] at hCreated
    apply hFenced.write
    exact Fenced.first (hFresh i inode renewal lease hCall) (hCreated.2.2.1 rfl)
  cases hStep with
  | tick => exact ⟨hFresh, hFenced⟩
  | acquire => exact hSet _ _ (notCreated_startAcquire _ _ _ _)
  | renew => exact hSet _ _ (notCreated_startRenew _ _ _ _ _)
  | release => exact hSet _ _ (notCreated_startRelease _ _ _ _ _)
  | check => exact hSet _ _ (notCreated_afterCheck _ _)
  | prepareAcquire | prepareRenew | createRefused | removeMissing | fail => exact hSet _ _ nofun
  | confirm => exact hSet _ _ (notCreated_afterConfirm _ _ _ _ _)
  | reject => exact hSet _ _ (notCreated_afterRefusal _ _ _ _ _)
  | create hCall hFile =>
    have hNone : issuedGenerations s.log = [] := hNumbered.2 hFile
    exact ⟨fun _ _ _ _ _ => hNone, hFenced.drop⟩
  | @write i inode renewal lease hCall =>
    have hFile : (s.afterWrite contentETag i inode lease).file = some ⟨inode, .lease lease, i⟩ :=
      hCon.writeInode_eq hCall
    have hCurrent : (s.afterWrite contentETag i inode lease).current =
      some (i, lease) := current_eq hFile rfl
    refine ⟨fresh_of_alone rfl nofun (hCon.alone hCall), ?_⟩
    rw [hCurrent]
    exact (hWrite i inode renewal lease hCall).grant mem_cons_self
  | @closeFailed i inode renewal lease err hCall =>
    have hFile : (s.afterCloseFailed i inode lease err).file = some ⟨inode, .lease lease, i⟩ :=
      hCon.writeInode_eq hCall
    have hCurrent : (s.afterCloseFailed i inode lease err).current =
      some (i, lease) := current_eq hFile rfl
    refine ⟨fresh_of_alone rfl nofun (hCon.alone hCall), ?_⟩
    rw [hCurrent]
    exact hWrite i inode renewal lease hCall
  | writeFailed hCall => exact ⟨fresh_of_alone rfl nofun (hCon.alone hCall), hFenced.drop⟩
  | rename hCall =>
    rcases hNumbered.1 _ _ _ hCall with ⟨f, hFile, hMatches⟩
    rcases hCon.generation_rename hInjective hOwners hCall
      hFile hMatches (fun r => hNumbered.2 f r hFile)
      hFenced with ⟨hBelow, r, hContent⟩
    refine ⟨fresh_of_alone rfl nofun ?_, ?_⟩
    · intro j _
      apply hCon.none_created
      intro f' hSome
      rw [hFile] at hSome
      cases hSome
      exact ⟨r, hContent⟩
    · exact (hFenced.write hBelow).grant mem_cons_self
  | @remove i etag f hCall hFile =>
    have hMatches := hNumbered.1 _ hCall _ hFile
    rcases hCon.removes_own hInjective hOwners hCall hFile hMatches with ⟨_, hContent⟩
    refine ⟨fresh_of_alone rfl nofun ?_, ?_⟩
    · intro j _
      apply hCon.none_created
      intro f' hSome
      rw [hFile] at hSome
      cases hSome
      exact hContent
    · have hDeleted := hFenced.quiet (.deleted i f.author) rfl nofun
      exact (hDeleted.quiet (.released i) rfl nofun).drop

theorem Run.fenced (hInjective : Injective contentETag) (hOwners :
    Injective fun j => (leasers j).owner)
    {now : Int} (hRun : Run contentETag leasers (Numbered contentETag) (initial ι τ now) s) :
    s.Fresh ∧ Fenced s.log s.current := by
  induction hRun with
  | refl => exact ⟨nofun, Fenced.empty⟩
  | tail hRun hStep ih =>
    rcases hStep with ⟨op, hNumbered, hStep⟩
    have hCon := Run.consistent hInjective (fun _ _ hOp => hOp.1) hRun
      (initial_consistent contentETag leasers now)
    exact hStep.fenced hInjective hOwners hCon hNumbered ih.1 ih.2

end FileState

-- Fencing Over Whole Runs

/-
  Generations are fencing tokens, for both leasers, in every
  run in which the lease is created only once.
-/
theorem lease_generations_increase
    [DecidableEq ι]
    (leasers : ι → Leaser) :
    (∀ now s,
      S3State.Run leasers S3State.Numbered
        (S3State.initial ι now) s →
      FencesGenerations s.log) ∧
    ∀ (τ : Type) (_ : DecidableEq τ) (contentETag : LockContent → τ),
      Injective contentETag →
      (Injective fun i => (leasers i).owner) →
      ∀ now s,
        FileState.Run contentETag leasers
          (FileState.Numbered contentETag)
          (FileState.initial ι τ now) s →
        FencesGenerations s.log := by
  refine ⟨?_, ?_⟩
  · intro now s hRun
    exact hRun.fenced.2.fences
  · intro τ _ contentETag hInjective hOwners now s hRun
    exact (hRun.fenced hInjective hOwners).2.fences

/-
  Under both leasers a second client takes the lease over
  when it has expired.
-/
theorem takenOver_fenced :
    FencesGenerations takenOver.log ∧
    FencesGenerations secondTakes.log := by
  refine ⟨?_, ?_⟩
  · apply (lease_generations_increase twoLeasers).1 0
    apply takenOver_reached
    · intro u op hNot
      cases op with
      | put k => exact absurd rfl (hNot k)
      | _ => trivial
    · intro u hObject hLog renewal lease etag _
      refine ⟨fun _ _ => ?_, ?_⟩
      · rw [hLog]
        rfl
      · intro o hSome
        rw [hObject] at hSome
        cases hSome
    · intro u hObject renewal lease etag _
      rw [hObject]
      refine ⟨fun _ hNone => ?_, ?_⟩
      · cases hNone
      · rintro o ⟨⟩
        decide
  · apply (lease_generations_increase twoLeasers).2
      LockContent inferInstance id injective_id
      twoLeasers_owners 0
    refine Relation.ReflTransGen.tail
      (bothConfirmed_reached ?_ ?_)
      ⟨.rename true, ⟨bothConfirmed_unchanged, ?_⟩,
        FileState.Step.rename rfl⟩
    · intro s op hRename hRemove hCreate
      cases op with
      | rename i => exact absurd rfl (hRename i)
      | remove i => exact absurd rfl (hRemove i)
      | create i => exact absurd rfl (hCreate i)
      | _ => exact ⟨trivial, trivial⟩
    · intro s hLog
      refine ⟨trivial, fun _ => ?_⟩
      rw [hLog]
      rfl
    · rintro f r ⟨⟩ ⟨⟩
      decide

/-
  A client acquires the lease and releases it, and another
  one acquires it: both have the first generation.
-/
theorem lease_generation_reused :
    ∃ s r r',
      S3State.Run twoLeasers S3State.anyOp
        (S3State.initial Bool 0) s ∧
      .granted false r ∈ s.log ∧
      .granted true r' ∈ s.log ∧
      r.generation = r'.generation := by
  refine ⟨(firstReleased.afterConfirm (false, 1)).acquired
    twoLeasers (true, 0) 1 none, ⟨1, 10, "a"⟩, ⟨1, 10, "b"⟩,
    ?_, ?_, ?_, rfl⟩
  · refine S3State.Run.acquire (fun _ _ _ => trivial) ?_ rfl rfl rfl fun _ _ _ => trivial
    exact Relation.ReflTransGen.tail firstReleased_reached
      ⟨.confirm (false, 1), trivial, S3State.Step.confirm rfl⟩
  · simp [S3State.acquired, S3State.afterAnswer,
      S3State.afterPut, S3State.set, S3State.afterConfirm,
      firstReleased, S3State.afterDelete, firstAcquired,
      S3State.initial, Leaser.newLease, twoLeasers]
  · exact mem_cons_self

end Replicate
