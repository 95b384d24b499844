import Replicate.Lease.FileExclusion

/-
  Taking over the lease of a file client that has crashed.

  A client that has crashed takes no more steps, so a crash
  between two operations is a run in which the client is not
  scheduled again. A write that is cut off leaves what the
  creation left: contents that no reader can parse. Then no
  later `AcquireLease` gets beyond its first read, although
  no lease was ever written.

  Main declarations:
    * `FileState.obtains_read`
    * `file_lease_recoverable`
    * `crashed_creator_blocks`
-/

-- A Call That Runs Alone

namespace Replicate

open FileCall Relation Option Function

variable {ι τ : Type}

/- A client goes on with its call, and no operation fails. -/
def FileOp.GoesOn (i : ι) : FileOp ι τ → Prop
| .check j | .prepare j | .create j | .write j => j = i
| .confirm j | .rename j | .reject j | .remove j => j = i
| _ => False

namespace FileState

variable [DecidableEq ι] [DecidableEq τ] {op : FileOp ι τ} {lease : LeaseRecord}

/-
  The steps of one client end its call with a lease, however
  the clock moves between them.
-/
inductive Obtains (contentETag : LockContent → τ) (leasers : ι → Leaser) (i : ι) :
    FileState ι τ → Prop where
  | returned {s lease} (hCall : s.calls i = .returned (.ok (some lease))) :
    Obtains contentETag leasers i s
  | goesOn {s} (hNext : ∃ op s', op.GoesOn i ∧ Step contentETag leasers s op s')
    (hAll : ∀ now op s', s.now ≤ now → op.GoesOn i →
      Step contentETag leasers { s with now := now } op s' → Obtains contentETag leasers i s') :
    Obtains contentETag leasers i s

/- A single `AcquireLease` gets the lease. -/
def AcquiresAlone (contentETag : LockContent → τ) (leasers : ι → Leaser) (s : FileState ι τ)
    (i : ι) : Prop :=
  ∀ s', Step contentETag leasers s (.acquire i) s' → Obtains contentETag leasers i s'

/- The state after the next step of a client in its call. -/
def next (contentETag : LockContent → τ) (leasers : ι → Leaser) (s : FileState ι τ) (i : ι) :
    FileState ι τ :=
  match s.calls i with
  | .read existing => s.set i (.afterCheck s.now existing)
  | .checked generation etag =>
    s.set i (.writing false ((leasers i).newLease s.now generation) etag)
  | .renewing r etag =>
    s.set i (.writing true ((leasers i).newLease s.now r.generation) (some etag))
  | .writing renewal lease none =>
    if s.file = none then s.afterCreate i renewal lease else s.set i (.refused renewal)
  | .writing renewal lease (some etag) =>
    s.set i (.afterConfirm contentETag s.content renewal lease etag)
  | .created inode _ lease => s.afterWrite contentETag i inode lease
  | .confirmed _ lease _ => s.afterRename contentETag i lease
  | .refused renewal => s.set i (.afterRefusal (leasers i) contentETag s.now s.content renewal)
  | .removing _ =>
    match s.file with
    | some f => s.afterRemove i f.author
    | none => s.set i (.returned (.error .leaseAlreadyReleased))
  | .idle | .returned _ => s

variable {contentETag : LockContent → τ} {leasers : ι → Leaser} {s s' : FileState ι τ} {i : ι}

theorem Step.eq_next (hStep : Step contentETag leasers s op s') (hOwn : op.GoesOn i) :
    (s.calls i).free = false ∧ s' = s.next contentETag leasers i := by
  unfold next
  cases hStep with
  | tick | acquire | renew | release | closeFailed | writeFailed | fail => exact hOwn.elim
  | check hCall | prepareAcquire hCall | prepareRenew hCall | write hCall | confirm hCall
  | rename hCall | reject hCall =>
    cases hOwn
    rw [hCall]
    exact ⟨rfl, rfl⟩
  | create hCall hFile | removeMissing hCall hFile | remove hCall hFile =>
    cases hOwn
    rw [hCall]
    simp [hFile, free]
  | createRefused hCall hFile =>
    cases hOwn
    rw [hCall]
    exact ⟨rfl, (if_neg hFile).symm⟩

theorem not_obtains (err : LeaseErr) (hCall : s.calls i = .returned (.error err)) :
    ¬ Obtains contentETag leasers i s := by
  intro hObtains
  cases hObtains with
  | returned hLease =>
    rw [hCall] at hLease
    cases hLease
  | goesOn hNext hAll =>
    obtain ⟨op, s', hOwn, hStep⟩ := hNext
    have hBusy := (hStep.eq_next hOwn).1
    rw [hCall] at hBusy
    cases hBusy

theorem obtains_of_next (hStep : Step contentETag leasers s op s') (hOwn : op.GoesOn i)
    (hNext : ∀ now, s.now ≤ now → Obtains contentETag leasers i (next contentETag leasers { s with
      now := now } i)) :
    Obtains contentETag leasers i s := by
  refine .goesOn ⟨op, s', hOwn, hStep⟩ ?_
  intro now op' s'' hLater hOwn' hStep'
  rw [(hStep'.eq_next hOwn').2]
  exact hNext now hLater

-- The Phases Of The Call

theorem obtains_created {inode : Nat} {renewal : Bool}
    (hCall : s.calls i = .created inode renewal lease) : Obtains contentETag leasers i s := by
  refine obtains_of_next (Step.write hCall) rfl ?_
  intro now _
  simp only [next, hCall]
  exact .returned (update_self ..)

theorem obtains_confirmed {renewal : Bool} {etag : τ}
    (hCall : s.calls i = .confirmed renewal lease etag) : Obtains contentETag leasers i s := by
  refine obtains_of_next (Step.rename hCall) rfl ?_
  intro now _
  simp only [next, hCall]
  exact .returned (update_self ..)

omit [DecidableEq ι] [DecidableEq τ] in
/- The lock path still is as the call has read it. -/
def AsRead (contentETag : LockContent → τ) (s : FileState ι τ) : Option τ → Prop
| none => s.file = none
| some etag => ∃ c, s.content = some c ∧ contentETag c = etag

theorem obtains_writing {etag} (hCall : s.calls i = .writing false lease etag)
    (hRead : s.AsRead contentETag etag) : Obtains contentETag leasers i s := by
  cases etag with
  | none =>
    refine obtains_of_next (Step.create hCall hRead) rfl ?_
    intro now _
    simp only [next, hCall]
    rw [if_pos (show s.file = none from hRead)]
    exact obtains_created (update_self ..)
  | some etag =>
    obtain ⟨c, hContent, hETag⟩ := hRead
    refine obtains_of_next (Step.confirm hCall) rfl ?_
    intro now _
    simp only [next, hCall]
    apply obtains_confirmed
    change update s.calls i (.afterConfirm contentETag s.content false lease etag) i = _
    rw [update_self, hContent]
    exact if_pos hETag

theorem obtains_checked (generation : Int) (etag : Option τ)
    (hCall : s.calls i = .checked generation etag) (hRead : s.AsRead contentETag etag) :
    Obtains contentETag leasers i s := by
  refine obtains_of_next (Step.prepareAcquire hCall) rfl ?_
  intro now _
  simp only [next, hCall]
  refine obtains_writing (update_self ..) ?_
  cases etag with
  | none | some => exact hRead

theorem obtains_read (existing : Option (LeaseRecord × τ)) (hCall : s.calls i = .read existing)
    (hRead : s.AsRead contentETag (existing.map Prod.snd))
    (hExpired : ∀ r etag, existing = some (r, etag) → r.expiresAt < s.now) :
    Obtains contentETag leasers i s := by
  refine obtains_of_next (Step.check hCall) rfl ?_
  intro now hLater
  simp only [next, hCall]
  rcases existing with _ | ⟨r, etag⟩
  · exact obtains_checked 1 none (update_self ..) hRead
  have hPast : r.isExpired now = true := by
    have hBefore := hExpired r etag rfl
    exact decide_eq_true (by omega)
  refine obtains_checked (nextGeneration r) (some etag) ?_ hRead
  change update s.calls i (.afterCheck now (some (r, etag))) i = _
  simp [afterCheck, acquireCheck, hPast]

-- What The Lock File Holds

omit [DecidableEq ι] [DecidableEq τ] in
/- A record in the lock file is one that was written. -/
def Logged (s : FileState ι τ) : Prop :=
  ∀ r, s.content = some (.lease r) → ∃ j, .wrote j r ∈ s.log

omit [DecidableEq ι] [DecidableEq τ] in
theorem Logged.written (hLogged : s.Logged) (i : ι) {inode : Nat} {log} (hOld : s.log ⊆ log)
    (hNew : .wrote i lease ∈ log) {r}
    (hContent : (writeInode s.file inode lease).map LockFile.content = some (.lease r)) :
    ∃ j, .wrote j r ∈ log := by
  unfold writeInode at hContent
  cases hFile : s.file with
  | none => simp [hFile] at hContent
  | some f =>
    rw [hFile] at hContent
    by_cases hInode : f.inode = inode
    · simp only [map_some, if_pos hInode, some.injEq, LockContent.lease.injEq]
        at hContent
      exact ⟨i, hContent ▸ hNew⟩
    · simp only [map_some, if_neg hInode] at hContent
      obtain ⟨j, hWrote⟩ := hLogged r (by simpa [content, hFile] using hContent)
      exact ⟨j, hOld hWrote⟩

theorem Logged.step (hLogged : s.Logged) (hStep : Step contentETag leasers s op s') :
    s'.Logged := by
  cases hStep with
  | tick | acquire | renew | release | check | prepareAcquire | prepareRenew | createRefused
  | confirm | reject | removeMissing | fail => exact hLogged
  | create | writeFailed | remove =>
    intro r hContent
    cases hContent
  | write =>
    intro r hContent
    exact hLogged.written _ (by simp) (List.mem_cons_of_mem _ List.mem_cons_self) hContent
  | closeFailed =>
    intro r hContent
    exact hLogged.written _ (by simp) List.mem_cons_self hContent
  | rename =>
    intro r hContent
    cases hContent
    exact ⟨_, List.mem_cons_of_mem _ List.mem_cons_self⟩

theorem Run.logged {start : Int} {allowed}
    (hRun : Run contentETag leasers allowed (initial ι τ start) s) : s.Logged := by
  induction hRun with
  | refl => exact nofun
  | tail _ hStep ih =>
    obtain ⟨op, -, hStep⟩ := hStep
    exact ih.step hStep

end FileState

-- Acquiring After A Crash

theorem Leaser.maxLeaseTTL_pos (l : Leaser) : 0 < l.maxLeaseTTL := by
  unfold maxLeaseTTL DefaultLeaseMaxTTL
  split <;> omega

open FileState in
theorem file_lease_recoverable
    [DecidableEq ι]
    [DecidableEq τ]
    {contentETag : LockContent → τ}
    {leasers : ι → Leaser}
    {start : Int}
    {s : FileState ι τ}
    (hRun :
      Run contentETag leasers (fun _ _ => True)
        (initial ι τ start) s)
    (hLater :
      ∀ j r, .wrote j r ∈ s.log → r.expiresAt < s.now)
    {i : ι}
    (hFree : (s.calls i).free = true) :
    AcquiresAlone contentETag leasers s i ↔
    (leasers i).ttl ≤ (leasers i).maxLeaseTTL ∧
    s.content ≠ some .torn := by
  have hFailed : (∃ err, startAcquire (leasers i) contentETag s.now s.content =
    .returned (.error err)) → ¬ AcquiresAlone contentETag leasers s i := by
    intro ⟨err, hStart⟩ hAlone
    refine not_obtains err ?_ (hAlone _ (Step.acquire hFree))
    exact (update_self ..).trans hStart
  constructor
  · intro hAlone
    constructor
    · by_contra hTTL
      exact hFailed ⟨_, if_pos (by omega)⟩ hAlone
    · intro hTorn
      refine hFailed ?_ hAlone
      by_cases hTTL : (leasers i).ttl > (leasers i).maxLeaseTTL
      · exact ⟨_, if_pos hTTL⟩
      · simp [startAcquire, Leaser.readLease, hTorn, hTTL]
  · intro ⟨hTTL, hWhole⟩ s' hStep
    cases hStep
    have hCall : ∀ c, startAcquire (leasers i) contentETag s.now s.content = c →
      (s.set i (.startAcquire (leasers i) contentETag s.now s.content)).calls i = c :=
      fun c hStart => (update_self ..).trans hStart
    have hNot : ¬ (leasers i).ttl > (leasers i).maxLeaseTTL := by omega
    cases hContent : s.content with
    | none =>
      refine obtains_read none (hContent ▸ hCall _ ?_) ?_ nofun
      · rw [hContent]
        exact if_neg hNot
      · exact map_eq_none_iff.mp hContent
    | some c =>
      cases c with
      | torn => exact absurd hContent hWhole
      | lease r =>
        obtain ⟨j, hWrote⟩ := hRun.logged r hContent
        have hPast := hLater j r hWrote
        refine obtains_read (some (r, contentETag (.lease r)))
          (hContent ▸ hCall _ ?_) ⟨_, hContent, rfl⟩ ?_
        · have hMax := (leasers i).maxLeaseTTL_pos
          have hShort : ¬ r.expiresAt - s.now > (leasers i).maxLeaseTTL := by omega
          rw [hContent]
          simp [startAcquire, Leaser.readLease, hNot, hShort]
        · intro r' etag hEq
          cases hEq
          exact hPast

def crashedCreator : FileState Bool LockContent :=
  ((((FileState.initial Bool LockContent 0).set false
    (.startAcquire (twoLeasers false) id 0 none)).set false (.afterCheck 0 none)).set false
    (.writing false ⟨1, 10, "a"⟩ none)).afterCreate false false ⟨1, 10, "a"⟩

open FileState

/- The lease of a client that crashed later is taken over. -/
theorem expired_lease_acquired :
    AcquiresAlone id twoLeasers
      { firstHolds with now := 11 } true := by
  have hRun : Run id twoLeasers (fun _ _ => True) (initial Bool LockContent 0)
    { firstHolds with now := 11 } := by
    refine ReflTransGen.tail ?_ ⟨.tick 11, trivial, Step.tick (by decide)⟩
    exact firstHolds_reached (fun _ _ _ _ _ => trivial) fun _ _ => trivial
  refine (file_lease_recoverable hRun ?_ rfl).mpr ⟨by decide, nofun⟩
  intro j r hWrote
  rcases hWrote with _ | ⟨_, _ | ⟨_, hNone⟩⟩
  · decide
  · cases hNone

/- No lease was written, and the other client gets none. -/
theorem crashed_creator_blocks :
    ∃ s,
      Run id twoLeasers (fun _ _ => True)
        (initial Bool LockContent 0) s ∧
      (∀ j r, .wrote j r ∈ s.log → r.expiresAt < s.now) ∧
      (s.calls true).free = true ∧
      (twoLeasers true).ttl ≤
        (twoLeasers true).maxLeaseTTL ∧
      ¬ AcquiresAlone id twoLeasers s true := by
  refine ⟨crashedCreator, ?_, nofun, rfl, by decide, ?_⟩
  · refine ReflTransGen.tail ?_ ⟨.create false, trivial, Step.create rfl rfl⟩
    refine ReflTransGen.tail ?_ ⟨.prepare false, trivial, Step.prepareAcquire rfl⟩
    refine ReflTransGen.tail ?_ ⟨.check false, trivial, Step.check rfl⟩
    exact ReflTransGen.single ⟨.acquire false, trivial, Step.acquire rfl⟩
  · intro hAlone
    exact not_obtains _ rfl (hAlone _ (Step.acquire rfl))

end Replicate
