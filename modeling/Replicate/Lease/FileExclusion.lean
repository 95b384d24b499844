import Replicate.Lease.FileLeaser

/-
  The file lease as a timed lock.

  As long as the contents of the lock file do not change
  between the comparison of the ETag and the rename or the
  removal, the file lease is a timed lock too: a rename
  takes a lease that has expired or extends the own one, and
  a removal drops the own one. A record is known by the name
  of its owner, so the clients need different names.

  Nothing keeps the contents from changing in between. Two
  clients that find the same expired lease both rename their
  records into place, and both are told that they have it.

  Main declarations:
    * `FileState.Consistent.step`
    * `FileState.Step.simulates`
    * `file_lease_exclusive`
    * `file_lease_taken_twice`
-/

-- What The Calls Know

namespace Replicate

open LeaseEvent Relation TimedLock List Function

variable {ι τ : Type}

/- The call has not just created the lock file. -/
def FileCall.NotCreated (c : FileCall τ) : Prop :=
  ∀ inode renewal lease, c ≠ .created inode renewal lease

namespace FileCall

theorem notCreated_startAcquire (l : Leaser) (contentETag : LockContent → τ) (now : Int)
    (content : Option LockContent) : (startAcquire l contentETag now content).NotCreated := by
  unfold startAcquire
  split
  · exact nofun
  · split <;> exact nofun

theorem notCreated_afterCheck (now : Int) (existing : Option (LeaseRecord × τ)) :
    (afterCheck now existing).NotCreated := by
  unfold afterCheck
  split <;> exact nofun

theorem notCreated_startRenew (l : Leaser) (contentETag : LockContent → τ)
    (now : Int) (content : Option LockContent) (lease : Option (Lease τ)) :
    (startRenew l contentETag now content lease).NotCreated := by
  unfold startRenew
  split
  · exact nofun
  split
  · exact nofun
  split
  · exact nofun
  · exact nofun
  · split <;> exact nofun

theorem notCreated_afterRefusal (l : Leaser) (contentETag : LockContent → τ)
    (now : Int) (content : Option LockContent) (renewal : Bool) :
    (afterRefusal l contentETag now content renewal).NotCreated := by
  unfold afterRefusal
  split
  · exact nofun
  · split <;> exact nofun

variable [DecidableEq τ]

theorem notCreated_startRelease (l : Leaser) (contentETag : LockContent → τ)
    (now : Int) (content : Option LockContent) (lease : Option (Lease τ)) :
    (startRelease l contentETag now content lease).NotCreated := by
  unfold startRelease
  split
  · exact nofun
  split
  · exact nofun
  · exact nofun
  · split <;> exact nofun

theorem notCreated_afterConfirm (contentETag : LockContent → τ)
    (content : Option LockContent) (renewal : Bool) (lease : LeaseRecord) (etag : τ) :
    (afterConfirm contentETag content renewal lease etag).NotCreated := by
  unfold afterConfirm
  split
  · exact nofun
  · split <;> exact nofun

end FileCall

namespace FileState

/-
  A record to be written, and the one that it replaces: an
  expired one whose generation it follows, or one that names
  the client itself.
-/
def Prepared (contentETag : LockContent → τ) (leasers : ι → Leaser) (now : Int)
    (i : ι) (lease : LeaseRecord) (etag : Option τ) : Prop :=
  lease.owner = (leasers i).owner ∧ lease.expiresAt ≤ now + (leasers i).ttl ∧
    (etag = none → lease.generation = 1) ∧
    ∀ t, etag = some t → ∃ r, t = contentETag (.lease r) ∧ (r.expiresAt < now ∧
      lease.generation = nextGeneration r ∨
        r.owner = (leasers i).owner ∧ r.expiresAt ≤ lease.expiresAt ∧
          lease.generation = r.generation)

/- What a call knows, whatever the lock file is. -/
def Known (contentETag : LockContent → τ) (leasers : ι → Leaser) (now : Int) (i : ι) :
    FileCall τ → Prop
| .read (some (r, etag)) => etag = contentETag (.lease r)
| .checked generation none => generation = 1
| .checked generation (some etag) =>
  ∃ r, etag = contentETag (.lease r) ∧ r.expiresAt < now ∧ generation = nextGeneration r
| .renewing r etag =>
  etag = contentETag (.lease r) ∧ r.owner = (leasers i).owner ∧ r.expiresAt ≤ now + (leasers i).ttl
| .writing _ lease etag => Prepared contentETag leasers now i lease etag
| .created _ _ lease => Prepared contentETag leasers now i lease none
| .confirmed _ lease etag => Prepared contentETag leasers now i lease (some etag)
| .removing etag => ∃ r, etag = contentETag (.lease r) ∧ r.owner = (leasers i).owner
| _ => True

/-
  What the calls know, and that a record carries the name of
  its author. A file that was created stays until its author
  writes it.
-/
structure Consistent (contentETag : LockContent → τ) (leasers : ι → Leaser)
    (s : FileState ι τ) : Prop where
  known : ∀ i, Known contentETag leasers s.now i (s.calls i)
  created : ∀ i inode renewal lease, s.calls i = .created inode renewal lease →
    s.file = some ⟨inode, .torn, i⟩
  named : ∀ f r, s.file = some f → f.content = .lease r → r.owner = (leasers f.author).owner
  given : ∀ i r, .granted i r ∈ s.log → r.owner = (leasers i).owner ∧
    r.expiresAt ≤ s.now + (leasers i).ttl

section Knowledge

variable {contentETag : LockContent → τ} {leasers : ι → Leaser} {now now' : Int} {i : ι}
variable {lease : LeaseRecord} {etag : τ} {content : Option LockContent} {r : LeaseRecord}

theorem Prepared.later {etag} (hPrepared : Prepared contentETag leasers now i lease etag)
    (hLater : now ≤ now') : Prepared contentETag leasers now' i lease etag := by
  rcases hPrepared with ⟨hOwner, hTime, hFirst, hReplaces⟩
  refine ⟨hOwner, by omega, hFirst, ?_⟩
  intro t hEq
  rcases hReplaces t hEq with ⟨r, hTag, hPast | hOwn⟩
  · have hOver := Int.lt_of_lt_of_le hPast.1 hLater
    exact ⟨r, hTag, Or.inl ⟨hOver, hPast.2⟩⟩
  · exact ⟨r, hTag, Or.inr hOwn⟩

theorem Known.later {c} (hKnown : Known contentETag leasers now i c) (hLater : now ≤ now') :
    Known contentETag leasers now' i c := by
  cases c with
  | read existing =>
    cases existing with
    | none => trivial
    | some pair => exact hKnown
  | checked generation etag =>
    cases etag with
    | none => exact hKnown
    | some etag =>
      rcases hKnown with ⟨r, hTag, hPast, hNext⟩
      have hOver := Int.lt_of_lt_of_le hPast hLater
      exact ⟨r, hTag, hOver, hNext⟩
  | renewing r etag =>
    rcases hKnown with ⟨hTag, hOwner, hTime⟩
    exact ⟨hTag, hOwner, by omega⟩
  | writing | created | confirmed => exact Prepared.later hKnown hLater
  | removing etag => exact hKnown
  | idle | refused | returned => trivial

theorem readLease_ok {l : Leaser} (hRead : l.readLease contentETag now content = .ok (r, etag)) :
    content = some (.lease r) ∧ etag = contentETag (.lease r) := by
  rcases content with _ | _ | r'
  · cases hRead
  · cases hRead
  unfold Leaser.readLease at hRead
  dsimp only at hRead
  split at hRead
  · cases hRead
  · cases hRead
    exact ⟨rfl, rfl⟩

theorem known_acquire (l : Leaser) (content : Option LockContent) : Known contentETag leasers now i
    (.startAcquire l contentETag now content) := by
  unfold FileCall.startAcquire
  split
  · trivial
  split
  · rename_i existing hRead
    exact (readLease_ok hRead).2
  · trivial
  · trivial

theorem Known.afterCheck {existing} (hRead : Known contentETag leasers now i (.read existing)) :
    Known contentETag leasers now i (.afterCheck now existing) := by
  cases existing with
  | none => rfl
  | some pair =>
    rcases pair with ⟨r, etag⟩
    unfold FileCall.afterCheck acquireCheck
    dsimp only
    by_cases hPast : r.isExpired now = true
    · rw [if_pos hPast]
      exact ⟨r, hRead, of_decide_eq_true hPast, rfl⟩
    · rw [if_neg hPast]
      trivial

theorem Known.prepareAcquire {generation : Int} {etag} (hChecked :
    Known contentETag leasers now i (.checked generation etag)) :
    Known contentETag leasers now i (.writing false
      ((leasers i).newLease now generation) etag) := by
  refine ⟨rfl, Int.le_refl _, ?_, ?_⟩
  · intro hEq
    subst hEq
    exact hChecked
  · intro t hEq
    subst hEq
    rcases hChecked with ⟨r, hTag, hPast⟩
    exact ⟨r, hTag, Or.inl hPast⟩

theorem Known.prepareRenew (hRenewing : Known contentETag leasers now i (.renewing r etag)) :
    Known contentETag leasers now i (.writing true ((leasers i).newLease now r.generation)
      (some etag)) := by
  rcases hRenewing with ⟨hTag, hOwner, hTime⟩
  refine ⟨rfl, Int.le_refl _, nofun, ?_⟩
  intro t hEq
  cases hEq
  exact ⟨r, hTag, Or.inr ⟨hOwner, hTime, rfl⟩⟩

variable {s : FileState ι τ}

theorem Consistent.known_renew (hCon : s.Consistent contentETag leasers) (l : Leaser) {lease}
    (hGiven : ∀ l, lease = some l → s.Given contentETag i l) :
    Known contentETag leasers s.now i (.startRenew l contentETag s.now s.content lease) := by
  rcases lease with _ | ⟨r, _ | etag⟩
  · trivial
  · trivial
  rcases hGiven _ rfl with ⟨hGranted, hTag⟩
  have hOwn := hCon.given i r hGranted
  unfold FileCall.startRenew requireLease
  dsimp only
  split
  · trivial
  split
  · trivial
  · trivial
  · split
    · exact ⟨Option.some.inj hTag, hOwn⟩
    · trivial

variable [DecidableEq τ]

theorem Consistent.known_release (hCon : s.Consistent contentETag leasers) (l : Leaser) {lease}
    (hGiven : ∀ l, lease = some l → s.Given contentETag i l) :
    Known contentETag leasers s.now i (.startRelease l contentETag s.now s.content lease) := by
  rcases lease with _ | ⟨r, _ | etag⟩
  · trivial
  · trivial
  rcases hGiven _ rfl with ⟨hGranted, hTag⟩
  have hOwn := hCon.given i r hGranted
  unfold FileCall.startRelease requireLease
  dsimp only
  split
  · trivial
  · trivial
  · split
    · exact ⟨r, Option.some.inj hTag, hOwn.1⟩
    · trivial

theorem Known.afterConfirm {renewal : Bool}
    (hWriting : Known contentETag leasers now i (.writing renewal lease (some etag))) :
    Known contentETag leasers now i (.afterConfirm contentETag content renewal lease etag) := by
  unfold FileCall.afterConfirm
  split
  · trivial
  · split
    · exact hWriting
    · trivial

end Knowledge

-- What Every Step Keeps

section Steps

variable [DecidableEq ι] {contentETag : LockContent → τ} {leasers : ι → Leaser}
variable {s s' : FileState ι τ} {i : ι}
variable {c : FileCall τ} {inode : Nat} {renewal : Bool} {lease : LeaseRecord} {f : LockFile ι}
  {etag : τ}

theorem call_self (hCalls : s'.calls = update s.calls i c) : s'.calls i = c := by
  rw [hCalls]
  exact update_self i c s.calls

theorem call_other (hCalls : s'.calls = update s.calls i c) {j : ι} (hNe : j ≠ i) :
    s'.calls j = s.calls j := by
  rw [hCalls]
  exact update_of_ne hNe c s.calls

omit [DecidableEq ι] in
theorem Consistent.known_call (hCon : s.Consistent contentETag leasers) (hCall : s.calls i = c) :
    Known contentETag leasers s.now i c :=
  hCall ▸ hCon.known i

theorem Consistent.set (hCon : s.Consistent contentETag leasers) (hNew : c.NotCreated)
    (hKnown : Known contentETag leasers s.now i c) :
    (s.set i c).Consistent contentETag leasers := by
  refine ⟨?_, ?_, hCon.named, hCon.given⟩
  · exact (forall_update_iff s.calls fun j => Known contentETag leasers s.now j).mpr
      ⟨hKnown, fun j _ => hCon.known j⟩
  · refine (forall_update_iff s.calls fun j c => ∀ inode renewal lease,
      c = .created inode renewal lease → s.file = some ⟨inode, .torn, j⟩).mpr ⟨?_, ?_⟩
    · exact fun inode renewal lease hCall => absurd hCall (hNew inode renewal lease)
    · exact fun j _ => hCon.created j

theorem Consistent.replace (hCon : s.Consistent contentETag leasers)
    (hCalls : s'.calls = update s.calls i c) (hNow : s'.now = s.now)
    (hKnown : Known contentETag leasers s.now i c) (hAlone : ∀ j, j ≠ i → (s.calls j).NotCreated)
    (hCreated : ∀ inode renewal lease, c = .created inode renewal lease → s'.file = some ⟨inode,
      .torn, i⟩)
    (hNamed : ∀ f r, s'.file = some f → f.content = .lease r → r.owner = (leasers f.author).owner)
    (hGiven : ∀ j r, .granted j r ∈ s'.log → .granted j r ∈ s.log ∨ j = i ∧ r.owner = (leasers
      i).owner ∧ r.expiresAt ≤ s.now + (leasers i).ttl) : s'.Consistent contentETag leasers := by
  refine ⟨?_, ?_, hNamed, ?_⟩
  · rw [hCalls, hNow]
    exact (forall_update_iff s.calls fun j => Known contentETag leasers s.now j).mpr
      ⟨hKnown, fun j _ => hCon.known j⟩
  · rw [hCalls]
    refine (forall_update_iff s.calls fun j c => ∀ inode renewal lease,
      c = .created inode renewal lease → s'.file = some ⟨inode, .torn, j⟩).mpr ⟨hCreated, ?_⟩
    exact fun j hNe inode renewal lease hCall => absurd hCall (hAlone j hNe inode renewal lease)
  · intro j r hGranted
    rw [hNow]
    rcases hGiven j r hGranted with hOld | hNew
    · exact hCon.given j r hOld
    · rw [hNew.1]
      exact hNew.2

omit [DecidableEq ι] in
theorem Consistent.alone (hCon : s.Consistent contentETag leasers)
    (hCall : s.calls i = .created inode renewal lease) : ∀ j, j ≠ i → (s.calls j).NotCreated := by
  intro j hNe inode' renewal' lease' hOther
  have hFile := hCon.created i inode renewal lease hCall
  rw [hCon.created j inode' renewal' lease' hOther] at hFile
  cases hFile
  exact hNe rfl

omit [DecidableEq ι] in
theorem Consistent.none_created (hCon : s.Consistent contentETag leasers)
    (hFile : ∀ f, s.file = some f → ∃ r, f.content = .lease r) (j : ι) :
    (s.calls j).NotCreated := by
  intro inode renewal lease hCall
  have hTorn := hCon.created j inode renewal lease hCall
  rcases hFile _ hTorn with ⟨r, hContent⟩
  cases hContent

theorem Consistent.create (hCon : s.Consistent contentETag leasers)
    (hCall : s.calls i = .writing renewal lease none) (hFile : s.file = none) :
    (s.afterCreate i renewal lease).Consistent contentETag leasers := by
  have hWriting := hCon.known_call hCall
  refine hCon.replace rfl rfl hWriting ?_ ?_ ?_ ?_
  · intro j _
    apply hCon.none_created
    intro f hSome
    rw [hFile] at hSome
    cases hSome
  · intro inode renewal' lease' hEq
    cases hEq
    rfl
  · intro f r hSome hContent
    cases hSome
    cases hContent
  · intro j r hGranted
    exact Or.inl hGranted

omit [DecidableEq ι] in
theorem Consistent.writeInode_eq (hCon : s.Consistent contentETag leasers)
    (hCall : s.calls i = .created inode renewal lease) :
    writeInode s.file inode lease = some ⟨inode, .lease lease, i⟩ := by
  rw [hCon.created i inode renewal lease hCall]
  simp [writeInode]

theorem Consistent.write (hCon : s.Consistent contentETag leasers)
    (hCall : s.calls i = .created inode renewal lease) {result}
    (hCalls : s'.calls = update s.calls i (.returned result)) (hNow : s'.now = s.now)
    (hFile : s'.file = writeInode s.file inode lease)
    (hLog : ∀ j r, .granted j r ∈ s'.log → .granted j r ∈ s.log ∨ j = i ∧ r = lease) :
    s'.Consistent contentETag leasers := by
  have hCreated := hCon.known_call hCall
  rw [hCon.writeInode_eq hCall] at hFile
  refine hCon.replace hCalls hNow trivial (hCon.alone hCall) nofun ?_ ?_
  · intro f r hSome hContent
    rw [hFile] at hSome
    cases hSome
    cases hContent
    exact hCreated.1
  · intro j r hGranted
    rcases hLog j r hGranted with hOld | ⟨hSelf, hLease⟩
    · exact Or.inl hOld
    · rw [hLease]
      exact Or.inr ⟨hSelf, hCreated.1, hCreated.2.1⟩

theorem Consistent.writeFailed (hCon : s.Consistent contentETag leasers) {err}
    (hCall : s.calls i = .created inode renewal lease) :
    (s.afterWriteFailed i err).Consistent contentETag leasers := by
  refine hCon.replace rfl rfl trivial (hCon.alone hCall) nofun nofun ?_
  intro j r hGranted
  exact Or.inl hGranted

omit [DecidableEq ι] in
theorem content_of_etag (hInjective : Injective contentETag) {r}
    (hMatches : contentETag f.content = etag) (hTag : etag = contentETag (.lease r)) :
    f.content = .lease r :=
  hInjective (hMatches.trans hTag)

omit [DecidableEq ι] in
theorem granted_of_write {j : ι} {r log}
    (hGranted : .granted j r ∈ granted i lease :: .wrote i lease :: log) :
    .granted j r ∈ log ∨ j = i ∧ r = lease := by
  rcases mem_cons.mp hGranted with hNew | hRest
  · cases hNew
    exact Or.inr ⟨rfl, rfl⟩
  · rcases mem_cons.mp hRest with hWrote | hOld
    · cases hWrote
    · exact Or.inl hOld

theorem Consistent.rename (hInjective : Injective contentETag)
    (hCon : s.Consistent contentETag leasers) (hCall : s.calls i = .confirmed renewal lease etag)
    (hFile : s.file = some f) (hMatches : contentETag f.content = etag) :
    (s.afterRename contentETag i lease).Consistent contentETag leasers := by
  have hConfirmed := hCon.known_call hCall
  rcases hConfirmed.2.2.2 etag rfl with ⟨r, hTag, _⟩
  have hContent := content_of_etag hInjective hMatches hTag
  refine hCon.replace rfl rfl trivial ?_ nofun ?_ ?_
  · intro j _
    apply hCon.none_created
    intro f' hSome
    rw [hFile] at hSome
    cases hSome
    exact ⟨r, hContent⟩
  · intro f' r' hSome hLease
    cases hSome
    cases hLease
    exact hConfirmed.1
  · intro j r' hGranted
    rcases granted_of_write hGranted with hOld | ⟨hSelf, hLease⟩
    · exact Or.inl hOld
    · rw [hLease]
      exact Or.inr ⟨hSelf, hConfirmed.1, hConfirmed.2.1⟩

theorem Consistent.remove (hInjective : Injective contentETag)
    (hCon : s.Consistent contentETag leasers) (hCall : s.calls i = .removing etag)
    (hFile : s.file = some f) (hMatches : contentETag f.content = etag) (author : ι) :
    (s.afterRemove i author).Consistent contentETag leasers := by
  have hRemoving := hCon.known_call hCall
  rcases hRemoving with ⟨r, hTag, _⟩
  have hContent := content_of_etag hInjective hMatches hTag
  refine hCon.replace rfl rfl trivial ?_ nofun nofun ?_
  · intro j _
    apply hCon.none_created
    intro f' hSome
    rw [hFile] at hSome
    cases hSome
    exact ⟨r, hContent⟩
  · intro j r' hGranted
    rcases mem_cons.mp hGranted with hNew | hRest
    · cases hNew
    · rcases mem_cons.mp hRest with hDeleted | hOld
      · cases hDeleted
      · exact Or.inl hOld

omit [DecidableEq ι] in
theorem Consistent.tick (hCon : s.Consistent contentETag leasers) {now : Int} (hNow : s.now ≤ now) :
    Consistent contentETag leasers { s with now := now } where
  known := fun j => (hCon.known j).later hNow
  created := hCon.created
  named := hCon.named
  given := by
    intro j r hGranted
    have hOld := hCon.given j r hGranted
    refine ⟨hOld.1, ?_⟩
    dsimp only
    omega

variable [DecidableEq τ]

/- What every step keeps on which the file is unchanged. -/
theorem Consistent.step (hInjective : Injective contentETag)
    (hCon : s.Consistent contentETag leasers) {op} (hUnchanged : s.Unchanged contentETag op)
    (hStep : Step contentETag leasers s op s') : s'.Consistent contentETag leasers := by
  cases hStep with
  | tick hLater => exact hCon.tick hLater
  | acquire => exact hCon.set (FileCall.notCreated_startAcquire _ _ _ _) (known_acquire _ _)
  | renew _ hGiven =>
    exact hCon.set (FileCall.notCreated_startRenew _ _ _ _ _) (hCon.known_renew _ hGiven)
  | release _ hGiven =>
    exact hCon.set (FileCall.notCreated_startRelease _ _ _ _ _) (hCon.known_release _ hGiven)
  | @check i existing hCall =>
    have hRead := hCon.known_call hCall
    exact hCon.set (FileCall.notCreated_afterCheck _ _) hRead.afterCheck
  | @prepareAcquire i generation etag hCall =>
    have hChecked := hCon.known_call hCall
    exact hCon.set nofun hChecked.prepareAcquire
  | @prepareRenew i r etag hCall =>
    have hRenewing := hCon.known_call hCall
    exact hCon.set nofun hRenewing.prepareRenew
  | create hCall hFile => exact hCon.create hCall hFile
  | createRefused | removeMissing | fail => exact hCon.set nofun trivial
  | write hCall => exact hCon.write hCall rfl rfl rfl fun _ _ hGranted => granted_of_write hGranted
  | closeFailed hCall =>
    refine hCon.write hCall rfl rfl rfl ?_
    intro j r hGranted
    rcases mem_cons.mp hGranted with hWrote | hOld
    · cases hWrote
    · exact Or.inl hOld
  | writeFailed hCall => exact hCon.writeFailed hCall
  | @confirm i renewal lease etag hCall =>
    have hWriting := hCon.known_call hCall
    exact hCon.set (FileCall.notCreated_afterConfirm _ _ _ _ _) hWriting.afterConfirm
  | rename hCall =>
    rcases hUnchanged _ _ _ hCall with ⟨f, hFile, hMatches⟩
    exact hCon.rename hInjective hCall hFile hMatches
  | reject =>
    refine hCon.set (FileCall.notCreated_afterRefusal _ _ _ _ _) ?_
    unfold FileCall.afterRefusal
    split
    · trivial
    · split <;> trivial
  | remove hCall hFile =>
    have hMatches := hUnchanged _ hCall _ hFile
    exact hCon.remove hInjective hCall hFile hMatches _

omit [DecidableEq ι] [DecidableEq τ] in
theorem initial_consistent (contentETag : LockContent → τ) (leasers : ι → Leaser) (now : Int) :
    (initial ι τ now).Consistent contentETag leasers where
  known := fun _ => trivial
  created := nofun
  named := nofun
  given := nofun

theorem Run.consistent (hInjective : Injective contentETag) {allowed}
    (hAllowed : ∀ s op, allowed s op → s.Unchanged contentETag op)
    (hRun : Run contentETag leasers allowed s s') (hCon : s.Consistent contentETag leasers) :
    s'.Consistent contentETag leasers := by
  induction hRun with
  | refl => exact hCon
  | tail _ hStep ih =>
    rcases hStep with ⟨op, hOp, hStep⟩
    exact ih.step hInjective (hAllowed _ op hOp) hStep

end Steps

-- The Lock Behind The File

/- The author of a record, until it expires. -/
def ownerOf (file : Option (LockFile ι)) : Option (ι × Int) :=
  match file with
  | some ⟨_, .lease r, author⟩ => some (author, r.expiresAt)
  | _ => none

/- A client relies on what it was granted. -/
def lock (s : FileState ι τ) : State ι Int where
  now := s.now
  owner := ownerOf s.file
  grants := fun i e => ∃ r, HeldLease (Reports i) i r s.log ∧ r.expiresAt = e

section Simulation

variable [DecidableEq ι] {contentETag : LockContent → τ} {leasers : ι → Leaser}
variable {s s' : FileState ι τ} {i : ι}
variable {lease : LeaseRecord} {renewal : Bool} {etag : τ} {f : LockFile ι}

omit [DecidableEq ι] in
theorem lock_forget (hNow : s'.now = s.now) (hOwner : ownerOf s'.file = ownerOf s.file)
    (hLog : s'.log = s.log) : TimedLock.Step s.lock s'.lock := by
  have hSame : s'.lock = ⟨s.lock.now, s.lock.owner, s.lock.grants⟩ := by
    unfold lock
    rw [hNow, hOwner, hLog]
  rw [hSame]
  exact TimedLock.Step.forget fun _ _ hGrant => hGrant

omit [DecidableEq ι] in
theorem lock_issues {grants}
    (hGrants : ∀ j e, grants j e → ∃ r, HeldLease (Reports j) j r (.granted i lease ::
      .wrote i lease :: s.log) ∧ r.expiresAt = e) : Issues s.lock i lease.expiresAt grants := by
  intro j e hGrant
  rcases hGrants j e hGrant with ⟨r, hHeld, hEq⟩
  rcases hHeld with hNew | hRest
  · cases hNew
    exact Or.inr ⟨rfl, hEq.symm⟩
  · exact Or.inl ⟨r, (hRest.2.of_cons nofun).2, hEq⟩

omit [DecidableEq ι] in
theorem Consistent.owner_created (hCon : s.Consistent contentETag leasers) {inode : Nat}
    (hCall : s.calls i = .created inode renewal lease) : s.lock.owner = none := by
  unfold lock
  rw [hCon.created i inode renewal lease hCall]
  rfl

omit [DecidableEq ι] in
theorem Consistent.simulates_write (hCon : s.Consistent contentETag leasers) {inode : Nat}
    (hCall : s.calls i = .created inode renewal lease) (hNow : s'.now = s.now)
    (hFile : s'.file = writeInode s.file inode lease)
    (hIssues : Issues s.lock i lease.expiresAt s'.lock.grants) : TimedLock.Step s.lock s'.lock := by
  have hSame : s'.lock = ⟨s.lock.now, some (i, lease.expiresAt), s'.lock.grants⟩ := by
    unfold lock
    rw [hNow, hFile, hCon.writeInode_eq hCall]
    rfl
  rw [hSame]
  refine TimedLock.Step.take ?_ hIssues
  intro j e hOwner
  rw [hCon.owner_created hCall] at hOwner
  cases hOwner

theorem Consistent.simulates_rename (hInjective : Injective contentETag)
    (hOwners : Injective fun j => (leasers j).owner)
    (hCon : s.Consistent contentETag leasers) (hCall : s.calls i = .confirmed renewal lease etag)
    (hFile : s.file = some f) (hMatches : contentETag f.content = etag) :
    TimedLock.Step s.lock (s.afterRename contentETag i lease).lock := by
  have hConfirmed := hCon.known_call hCall
  rcases hConfirmed.2.2.2 etag rfl with ⟨r, hTag, hCase⟩
  have hContent := content_of_etag hInjective hMatches hTag
  have hOwner : s.lock.owner = some (f.author, r.expiresAt) := by
    unfold lock
    rw [hFile]
    cases f
    subst hContent
    rfl
  have hIssues : Issues s.lock i lease.expiresAt (s.afterRename contentETag i lease).lock.grants :=
    lock_issues fun _ _ hGrant => hGrant
  rcases hCase with hPast | hOwn
  · refine TimedLock.Step.take ?_ hIssues
    intro j e hOther
    rw [hOwner] at hOther
    cases hOther
    exact hPast.1
  have hAuthor : f.author = i := by
    apply hOwners
    dsimp only
    rw [← hCon.named f r hFile hContent]
    exact hOwn.1
  rw [hAuthor] at hOwner
  exact TimedLock.Step.extend hOwner hOwn.2.1 hIssues

omit [DecidableEq ι] in
theorem Consistent.removes_own (hInjective : Injective contentETag)
    (hOwners : Injective fun j => (leasers j).owner) (hCon : s.Consistent contentETag leasers)
    (hCall : s.calls i = .removing etag) (hFile : s.file = some f)
    (hMatches : contentETag f.content = etag) : f.author = i ∧ ∃ r, f.content = .lease r := by
  have hRemoving := hCon.known_call hCall
  rcases hRemoving with ⟨r, hTag, hOwner⟩
  have hContent := content_of_etag hInjective hMatches hTag
  refine ⟨?_, r, hContent⟩
  apply hOwners
  dsimp only
  rw [← hCon.named f r hFile hContent]
  exact hOwner

theorem Consistent.simulates_remove (hInjective : Injective contentETag)
    (hOwners : Injective fun j => (leasers j).owner)
    (hCon : s.Consistent contentETag leasers) (hCall : s.calls i = .removing etag)
    (hFile : s.file = some f) (hMatches : contentETag f.content = etag) :
    TimedLock.Step s.lock (s.afterRemove i f.author).lock := by
  rcases hCon.removes_own hInjective hOwners hCall hFile hMatches with ⟨hAuthor, r, hContent⟩
  have hOwner : s.lock.owner = some (i, r.expiresAt) := by
    unfold lock
    rw [hFile]
    cases f
    subst hContent hAuthor
    rfl
  refine TimedLock.Step.drop hOwner ?_ ?_
  · intro j e hGrant
    rcases hGrant with ⟨r', hHeld, hEq⟩
    have hRest := (hHeld.of_cons nofun).2
    exact ⟨r', (hRest.of_cons nofun).2, hEq⟩
  · intro e hGrant
    rcases hGrant with ⟨r', hHeld, _⟩
    exact absurd rfl (hHeld.of_cons nofun).1

variable [DecidableEq τ]

/- Every such step is a step of the timed lock. -/
theorem Step.simulates (hInjective : Injective contentETag) (hOwners :
    Injective fun j => (leasers j).owner) {op} (hStep : Step contentETag leasers s op s')
    (hUnchanged : s.Unchanged contentETag op) (hCon : s.Consistent contentETag leasers) :
    TimedLock.Step s.lock s'.lock := by
  cases hStep with
  | tick hLater => exact TimedLock.Step.tick hLater
  | create hCall hFile =>
    refine lock_forget rfl ?_ rfl
    rw [hFile]
    rfl
  | write hCall => exact hCon.simulates_write hCall rfl rfl (lock_issues fun _ _ hGrant => hGrant)
  | closeFailed hCall =>
    refine hCon.simulates_write hCall rfl rfl ?_
    intro j e hGrant
    rcases hGrant with ⟨r, hHeld, hEq⟩
    exact Or.inl ⟨r, (hHeld.of_cons nofun).2, hEq⟩
  | writeFailed hCall => exact lock_forget rfl (hCon.owner_created hCall).symm rfl
  | rename hCall =>
    rcases hUnchanged _ _ _ hCall with ⟨f, hFile, hMatches⟩
    exact hCon.simulates_rename hInjective hOwners hCall hFile hMatches
  | remove hCall hFile =>
    have hMatches := hUnchanged _ hCall _ hFile
    exact hCon.simulates_remove hInjective hOwners hCall hFile hMatches
  | acquire | renew | release | check | prepareAcquire | prepareRenew | createRefused | confirm
  | reject | removeMissing | fail => exact lock_forget rfl rfl rfl

/- What a client has removed, it had written. -/
def RemovesOwn (log : List (LeaseEvent ι)) : Prop :=
  ∀ i author, .deleted i author ∈ log → i = author

theorem Step.removesOwn (hInjective : Injective contentETag)
    (hOwners : Injective fun j => (leasers j).owner) {op} (hStep : Step contentETag leasers s op s')
    (hUnchanged : s.Unchanged contentETag op) (hCon : s.Consistent contentETag leasers)
    (hOwn : RemovesOwn s.log) : RemovesOwn s'.log := by
  have hGrant : ∀ i lease, RemovesOwn (.granted i lease :: .wrote i lease :: s.log) := by
    intro i lease j author hDeleted
    rcases mem_cons.mp hDeleted with hNew | hRest
    · cases hNew
    · rcases mem_cons.mp hRest with hWrote | hOld
      · cases hWrote
      · exact hOwn j author hOld
  cases hStep with
  | write | rename => exact hGrant _ _
  | closeFailed =>
    intro j author hDeleted
    rcases mem_cons.mp hDeleted with hWrote | hOld
    · cases hWrote
    · exact hOwn j author hOld
  | remove hCall hFile =>
    have hMatches := hUnchanged _ hCall _ hFile
    have hSelf := hCon.removes_own hInjective hOwners hCall hFile hMatches
    intro j author hDeleted
    rcases mem_cons.mp hDeleted with hNew | hRest
    · cases hNew
    rcases mem_cons.mp hRest with hThis | hOld
    · cases hThis
      exact hSelf.1.symm
    · exact hOwn j author hOld
  | tick | create | writeFailed | acquire | renew | release | check | prepareAcquire
  | prepareRenew | createRefused | confirm | reject | removeMissing | fail => exact hOwn

theorem Run.safe (hInjective : Injective contentETag) (hOwners :
    Injective fun j => (leasers j).owner)
    {now : Int} (hRun : Run contentETag leasers (Unchanged contentETag) (initial ι τ now) s) :
    Safe s.lock ∧ RemovesOwn s.log := by
  induction hRun with
  | refl =>
    refine ⟨?_, nofun⟩
    intro i e hGrant
    rcases hGrant with ⟨_, hHeld, _⟩
    exact hHeld.elim
  | tail hRun hStep ih =>
    rcases hStep with ⟨op, hUnchanged, hStep⟩
    have hCon := Run.consistent hInjective (fun _ _ hOp => hOp) hRun
      (initial_consistent contentETag leasers now)
    refine ⟨ih.1.step ?_, ?_⟩
    · exact hStep.simulates hInjective hOwners hUnchanged hCon
    · exact hStep.removesOwn hInjective hOwners hUnchanged hCon ih.2

end Simulation

end FileState

-- Mutual Exclusion

open FileState

/-
  If the lock file does not change between the comparison of
  the ETag and the rename or removal, then at no time do two
  clients hold the lease, and nobody removes a record that
  another one has written.
-/
theorem file_lease_exclusive
    [DecidableEq ι]
    [DecidableEq τ]
    {contentETag : LockContent → τ}
    (hInjective : Injective contentETag)
    {leasers : ι → Leaser}
    (hOwners : Injective fun i => (leasers i).owner)
    {now : Int}
    {s : FileState ι τ}
    (hRun :
      Run contentETag leasers (Unchanged contentETag)
        (initial ι τ now) s) :
    (∀ i j,
      HoldsLease (Reports i) s.log s.now i →
      HoldsLease (Reports j) s.log s.now j → i = j) ∧
    ∀ i author, .deleted i author ∈ s.log → i = author := by
  rcases hRun.safe hInjective hOwners with ⟨hSafe, hOwn⟩
  refine ⟨?_, hOwn⟩
  intro i j hLeft hRight
  rcases hLeft with ⟨r, hHeld, hGood⟩
  rcases hRight with ⟨r', hHeld', hGood'⟩
  apply hSafe.exclusive
  · exact ⟨r, hHeld, rfl⟩
  · exact hGood
  · exact ⟨r', hHeld', rfl⟩
  · exact hGood'

def firstHolds : FileState Bool LockContent :=
  (((((initial Bool LockContent 0).set false (.startAcquire (twoLeasers false) id 0 none)).set false
    (.afterCheck 0 none)).set false
    (.writing false ⟨1, 10, "a"⟩ none)).afterCreate false
      false ⟨1, 10, "a"⟩).afterWrite id false 1 ⟨1, 10, "a"⟩

theorem firstHolds_reached {allowed} (hAllowed : ∀ s op, (∀ i, op ≠ .rename i) →
    (∀ i, op ≠ .remove i) → (∀ i, op ≠ .create i) → allowed s op)
    (hCreate : ∀ s, s.log = [] → allowed s (.create false)) :
    Run id twoLeasers allowed (initial Bool LockContent 0) firstHolds := by
  refine ReflTransGen.tail ?_ ⟨.write false, hAllowed _ _ nofun nofun nofun, Step.write rfl⟩
  refine ReflTransGen.tail ?_ ⟨.create false, hCreate _ rfl, Step.create rfl rfl⟩
  refine ReflTransGen.tail ?_
    ⟨.prepare false, hAllowed _ _ nofun nofun nofun, Step.prepareAcquire rfl⟩
  refine ReflTransGen.tail ?_ ⟨.check false, hAllowed _ _ nofun nofun nofun, Step.check rfl⟩
  exact ReflTransGen.single ⟨.acquire false, hAllowed _ _ nofun nofun nofun, Step.acquire rfl⟩

theorem twoLeasers_owners : Injective fun i => (twoLeasers i).owner := by
  intro i j hEq
  revert i j
  decide

/-
  When the lease has expired, both clients read it, and both
  find it unchanged before one of them renames.
-/
def bothConfirmed : FileState Bool LockContent :=
  let old : LeaseRecord := ⟨1, 10, "a"⟩
  (((((((({ firstHolds with now := 11 } : FileState Bool LockContent).set false
    (.startAcquire (twoLeasers false) id 11 (some (.lease old)))).set true
    (.startAcquire (twoLeasers true) id 11 (some (.lease old)))).set false
    (.afterCheck 11 (some (old, .lease old)))).set true
    (.afterCheck 11 (some (old, .lease old)))).set false
    (.writing false ⟨2, 21, "a"⟩ (some (.lease old)))).set
    true (.writing false ⟨2, 21, "b"⟩ (some (.lease old)))).set
    false (.afterConfirm id (some (.lease old)) false ⟨2, 21, "a"⟩ (.lease old))).set true
      (.afterConfirm id (some (.lease old)) false ⟨2, 21, "b"⟩ (.lease old))

theorem bothConfirmed_reached
    {allowed : FileState Bool LockContent →
      FileOp Bool LockContent → Prop}
    (hAllowed : ∀ s op, (∀ i, op ≠ .rename i) →
      (∀ i, op ≠ .remove i) → (∀ i, op ≠ .create i) →
      allowed s op)
    (hCreate : ∀ s, s.log = [] → allowed s (.create false)) :
    Run id twoLeasers allowed (initial Bool LockContent 0)
      bothConfirmed := by
  refine ReflTransGen.tail ?_ ⟨.confirm true, hAllowed _ _ nofun nofun nofun, Step.confirm rfl⟩
  refine ReflTransGen.tail ?_ ⟨.confirm false, hAllowed _ _ nofun nofun nofun, Step.confirm rfl⟩
  refine ReflTransGen.tail ?_
    ⟨.prepare true, hAllowed _ _ nofun nofun nofun, Step.prepareAcquire rfl⟩
  refine ReflTransGen.tail ?_
    ⟨.prepare false, hAllowed _ _ nofun nofun nofun, Step.prepareAcquire rfl⟩
  refine ReflTransGen.tail ?_ ⟨.check true, hAllowed _ _ nofun nofun nofun, Step.check rfl⟩
  refine ReflTransGen.tail ?_ ⟨.check false, hAllowed _ _ nofun nofun nofun, Step.check rfl⟩
  refine ReflTransGen.tail ?_ ⟨.acquire true, hAllowed _ _ nofun nofun nofun, Step.acquire rfl⟩
  refine ReflTransGen.tail ?_ ⟨.acquire false, hAllowed _ _ nofun nofun nofun, Step.acquire rfl⟩
  refine ReflTransGen.tail ?_ ⟨.tick 11, hAllowed _ _ nofun nofun nofun, Step.tick (by decide)⟩
  exact firstHolds_reached hAllowed hCreate

/- The second client renames first. -/
def secondTakes : FileState Bool LockContent :=
  bothConfirmed.afterRename id true ⟨2, 21, "b"⟩

theorem bothConfirmed_unchanged :
    bothConfirmed.Unchanged id (.rename true) := by
  intro renewal lease etag hCall
  cases hCall
  exact ⟨⟨1, .lease ⟨1, 10, "a"⟩, false⟩, rfl, rfl⟩

theorem secondTakes_exclusive :
    HoldsLease (Reports true) secondTakes.log
      secondTakes.now true ∧
    (HoldsLease (Reports false) secondTakes.log
      secondTakes.now false → false = true) := by
  have hHolds : HoldsLease (Reports true) secondTakes.log
    secondTakes.now true :=
    ⟨⟨2, 21, "b"⟩, Or.inl rfl, by decide⟩
  have hReached : Run id twoLeasers (Unchanged id)
    (initial Bool LockContent 0) secondTakes := by
    refine ReflTransGen.tail (bothConfirmed_reached ?_ ?_)
      ⟨.rename true, bothConfirmed_unchanged, Step.rename rfl⟩
    · intro s op hRename hRemove _
      cases op with
      | rename i => exact absurd rfl (hRename i)
      | remove i => exact absurd rfl (hRemove i)
      | _ => trivial
    · intro s _
      trivial
  refine ⟨hHolds, ?_⟩
  intro hOther
  exact (file_lease_exclusive injective_id
    twoLeasers_owners hReached).1 false true hOther hHolds

/- Both rename, and both hold the lease. -/
theorem file_lease_taken_twice :
    ∃ s,
      Run id twoLeasers (fun _ _ => True)
        (initial Bool LockContent 0) s ∧
      HoldsLease (Reports false) s.log s.now false ∧
      HoldsLease (Reports true) s.log s.now true := by
  refine ⟨(bothConfirmed.afterRename id false ⟨2, 21, "a"⟩).afterRename id true ⟨2, 21, "b"⟩,
    ?_, ?_, ?_⟩
  · refine ReflTransGen.tail ?_ ⟨.rename true, trivial, Step.rename rfl⟩
    exact ReflTransGen.tail
      (bothConfirmed_reached (fun _ _ _ _ _ => trivial) fun _ _ => trivial)
      ⟨.rename false, trivial, Step.rename rfl⟩
  · refine ⟨⟨2, 21, "a"⟩, ?_, by decide⟩
    exact Or.inr ⟨nofun, Or.inr ⟨nofun, Or.inl rfl⟩⟩
  · exact ⟨⟨2, 21, "b"⟩, Or.inl rfl, by decide⟩

end Replicate
