import Replicate.Lease.S3Consistency

/-
  The S3 lease is a timed lock.

  Its owner is the client that wrote the object, and every
  step of the clients and the storage is a step of the lock:
  a put takes it when it has expired, or extends the lock of
  the same client; a delete drops it. So at no time do two
  clients hold the lease.

  A client that does not see the answer to its release still
  counts on a lease that is gone; the other may have it.

  Main declarations:
    * `S3State.Step.simulates`
    * `s3_lease_exclusive`
-/

-- The Lock Behind The Object

namespace Replicate

open LeaseEvent Relation Function

variable {ι : Type}

namespace S3State

/-
  The lock belongs to the writer of the object. A client
  relies on what it was granted and has not deleted; a write
  of which it is not told yet may still be granted.
-/
def lock (s : S3State ι) : TimedLock.State ι Int where
  now := s.now
  owner := s.object.map fun o => (o.author, o.record.expiresAt)
  grants := fun i e => (∃ n r etag, s.calls (i, n) = .written r etag ∧ r.expiresAt = e) ∨
    ∃ r, HeldLease (Deletes i) i r s.log ∧ r.expiresAt = e

section Simulation

variable [DecidableEq ι] {leasers : ι → Leaser} {s s' : S3State ι} {k : ι × Nat}
variable {lease : LeaseRecord} {allowed : S3State ι → S3Op ι → Prop}

theorem lock_keeps {c} (hCalls : s'.calls = update s.calls k c)
    (hNew : ∀ r etag, c ≠ .written r etag)
    (hLog : ∀ i r, HeldLease (Deletes i) i r s'.log → s.lock.grants i r.expiresAt) :
    TimedLock.Keeps s.lock s'.lock.grants := by
  intro i e hGrant
  rcases hGrant with hPending | hHeld
  · rcases hPending with ⟨n, r, etag, hCall, hEq⟩
    by_cases hSame : (i, n) = k
    · rw [hSame, call_self hCalls] at hCall
      exact absurd hCall (hNew r etag)
    · rw [call_other hCalls hSame] at hCall
      exact Or.inl ⟨n, r, etag, hCall, hEq⟩
  · rcases hHeld with ⟨r, hHeld, hEq⟩
    exact hEq ▸ hLog i r hHeld

theorem lock_issues : TimedLock.Issues s.lock k.1 lease.expiresAt
    (s.afterPut k lease).lock.grants := by
  have hCalls : (s.afterPut k lease).calls = update s.calls k (.written lease (s.etags + 1)) := rfl
  intro i e hGrant
  rcases hGrant with hPending | hHeld
  · rcases hPending with ⟨n, r, etag, hCall, hEq⟩
    by_cases hSame : (i, n) = k
    · rw [hSame, call_self hCalls] at hCall
      cases hCall
      exact Or.inr ⟨congrArg Prod.fst hSame, hEq.symm⟩
    · rw [call_other hCalls hSame] at hCall
      exact Or.inl (Or.inl ⟨n, r, etag, hCall, hEq⟩)
  · rcases hHeld with ⟨r, hHeld, hEq⟩
    exact Or.inl (Or.inr ⟨r, (hHeld.of_cons nofun).2, hEq⟩)

theorem Consistent.simulates_put (hCon : s.Consistent leasers) {renewal : Bool} {etag}
    (hCall : s.calls k = .putting renewal lease etag)
    (hAccepts : LockObject.accepts s.object etag = true) :
    TimedLock.Step s.lock (s.afterPut k lease).lock := by
  have hPutting := hCon.backed k
  rw [hCall] at hPutting
  cases hObject : s.object with
  | none =>
    have hFree : s.lock.owner = none := by
      unfold lock
      rw [hObject]
      rfl
    refine TimedLock.Step.take ?_ lock_issues
    intro j e hOwner
    rw [hFree] at hOwner
    cases hOwner
  | some o =>
    have hOwner : s.lock.owner = some (o.author, o.record.expiresAt) := by
      unfold lock
      rw [hObject]
      rfl
    have hTag := accepts_some hObject hAccepts
    rcases (hPutting.2.2 o.etag hTag).2 with hPast | hOwn
    · refine TimedLock.Step.take ?_ lock_issues
      intro j e hOther
      rw [hOwner] at hOther
      cases hOther
      exact (hPast o hObject rfl).1
    rcases hOwn with ⟨old, hGiven, hLonger, _⟩
    have hSame := hCon.own hGiven hObject
    rw [hSame.1, hSame.2] at hOwner
    exact TimedLock.Step.extend hOwner hLonger lock_issues

/- A delete drops the lock of the client that deletes. -/
theorem Consistent.simulates_delete (hCon : s.Consistent leasers) {o}
    (hCall : s.calls k = .deleting o.etag) (hObject : s.object = some o) :
    TimedLock.Step s.lock (s.afterDelete k o.author).lock := by
  have hDeleting := hCon.backed k
  rw [hCall] at hDeleting
  rcases hDeleting with ⟨old, hGiven⟩
  have hSame := hCon.own hGiven hObject
  have hOwner : s.lock.owner = some (k.1, o.record.expiresAt) := by
    unfold lock
    rw [hObject, ← hSame.1]
    rfl
  have hCalls : (s.afterDelete k o.author).calls = update s.calls k .deleted := rfl
  refine TimedLock.Step.drop hOwner ?_ ?_
  · apply lock_keeps hCalls nofun
    intro i r hHeld
    exact Or.inr ⟨r, (hHeld.of_cons nofun).2, rfl⟩
  · intro e hGrant
    rcases hGrant with hPending | hHeld
    · -- What is still to be granted is another object.
      rcases hPending with ⟨n, r, etag, hWritten, hEq⟩
      have hNe : (k.1, n) ≠ k := by
        intro hSelf
        rw [hSelf, call_self hCalls] at hWritten
        cases hWritten
      rw [call_other hCalls hNe] at hWritten
      by_contra hNot
      have hGood : s.now ≤ r.expiresAt := hEq ▸ Int.not_lt.mp hNot
      rcases hCon.pending _ r etag hWritten hGood with ⟨o', hObject', hTag⟩
      rw [hObject] at hObject'
      cases hObject'
      rw [hTag] at hGiven
      exact hCon.not_pending hGiven hWritten
    · rcases hHeld with ⟨r, hHeld, _⟩
      exact absurd ⟨o.author, rfl⟩ (hHeld.of_cons nofun).1

/- Every step is a step of the timed lock. -/
theorem Step.simulates {op} (hStep : Step leasers s op s') (hCon : s.Consistent leasers) :
    TimedLock.Step s.lock s'.lock := by
  have hSet : ∀ (k : ι × Nat) (c : S3Call), (∀ r etag, c ≠ .written r etag) →
    TimedLock.Step s.lock (s.set k c).lock := by
    intro k c hNew
    have hCalls : (s.set k c).calls = update s.calls k c := rfl
    apply TimedLock.Step.forget
    apply lock_keeps hCalls hNew
    intro i r hHeld
    exact Or.inr ⟨r, hHeld, rfl⟩
  cases hStep with
  | tick hLater => exact TimedLock.Step.tick hLater
  | get | getFailed | prepare | putRefused | reject | deleteRefused => exact hSet _ _ nofun
  | check => exact hSet _ _ (S3Call.silent_afterCheck _ _).1
  | renew => exact hSet _ _ (S3Call.silent_startRenew _ _ _).1
  | put hCall hAccepts => exact hCon.simulates_put hCall hAccepts
  | @answer k lease etag hCall =>
    have hCalls : (s.afterAnswer k lease etag).calls = update s.calls k
      (.done (.ok (some ⟨lease, some etag⟩))) := rfl
    apply TimedLock.Step.forget
    apply lock_keeps hCalls nofun
    intro i r hHeld
    rcases hHeld with hGrant | hOld
    · cases hGrant
      exact Or.inl ⟨k.2, lease, etag, hCall, rfl⟩
    · exact Or.inr ⟨r, hOld.2, rfl⟩
  | release => exact hSet _ _ (S3Call.silent_startRelease _).1
  | delete hCall hObject hMatches =>
    subst hMatches
    exact hCon.simulates_delete hCall hObject
  | @confirm k hCall =>
    have hCalls : (s.afterConfirm k).calls = update s.calls k (.done (.ok none)) := rfl
    apply TimedLock.Step.forget
    apply lock_keeps hCalls nofun
    intro i r hHeld
    exact Or.inr ⟨r, (hHeld.of_cons nofun).2, rfl⟩

theorem Run.safe {now : Int} (hRun : Run leasers allowed (initial ι now) s) :
    TimedLock.Safe s.lock := by
  induction hRun with
  | refl =>
    intro i e hGrant
    rcases hGrant with ⟨_, _, _, hCall, _⟩ | ⟨_, hHeld, _⟩
    · cases hCall
    · exact hHeld.elim
  | tail hRun hStep ih =>
    rcases hStep with ⟨op, _, hStep⟩
    have hCon := Run.consistent hRun (initial_consistent leasers now)
    exact ih.step (hStep.simulates hCon)

/- No call in progress is restricted. -/
def anyOp (_ : S3State ι) (_ : S3Op ι) : Prop :=
  True

/-
  `AcquireLease` with nothing in between, where the check
  has found the generation and the ETag.
-/
def acquired
    (leasers : ι → Leaser)
    (s : S3State ι)
    (k : ι × Nat)
    (generation : Int)
    (etag : Option Nat) : S3State ι :=
  let lease := (leasers k.1).newLease s.now generation
  ((((s.set k (.read
    (s.object.map fun o => (o.record, o.etag)))).set k
    (.checked generation etag)).set k
    (.putting false lease etag)).afterPut k lease).afterAnswer
      k lease (s.etags + 1)

theorem Run.acquire
    (hAllowed : ∀ u op, (∀ k, op ≠ .put k) → allowed u op)
    {t : S3State ι}
    {generation : Int}
    {etag : Option Nat}
    (hRun : Run leasers allowed t s)
    (hCall : s.calls k = .idle)
    (hCheck : acquireCheck s.now
      (s.object.map fun o => (o.record, o.etag)) =
        .ok (generation, etag))
    (hAccepts : LockObject.accepts s.object etag = true)
    (hPut : ∀ u, u.object = s.object → u.log = s.log →
      allowed u (.put k)) :
    Run leasers allowed t
      (s.acquired leasers k generation etag) := by
  have hSelf : ∀ (u : S3State ι) (c : S3Call),
    (u.set k c).calls k = c := fun _ _ => call_self rfl
  have hChecked : S3Call.afterCheck s.now
    (s.object.map fun o => (o.record, o.etag)) =
      .checked generation etag := by
    rw [S3Call.afterCheck, hCheck]
  have hRead := ReflTransGen.tail hRun
    ⟨.get k, hAllowed _ _ nofun, Step.get hCall⟩
  have hStep := ReflTransGen.tail hRead
    ⟨.check k, hAllowed _ _ nofun, Step.check (hSelf _ _)⟩
  -- the clock has not moved since the call has read the object
  have hNow : ∀ c, (s.set k c).now = s.now := fun _ => rfl
  rw [hNow, hChecked] at hStep
  have hPrepare := hStep.tail
    ⟨.prepare k, hAllowed _ _ nofun, Step.prepare (hSelf _ _)⟩
  have hWrite := hPrepare.tail
    ⟨.put k, hPut _ rfl rfl, Step.put (hSelf _ _) hAccepts⟩
  exact hWrite.tail
    ⟨.answer k, hAllowed _ _ nofun, Step.answer (call_self rfl)⟩

end Simulation

end S3State

-- Mutual Exclusion

open S3State

/-
  At no time do two clients hold the lease. A client holds
  it from the answer to its put until the time that it was
  given, or until its own release takes effect.
-/
theorem s3_lease_exclusive
    [DecidableEq ι]
    {leasers : ι → Leaser}
    {now : Int}
    {s : S3State ι}
    (hRun : Run leasers anyOp (initial ι now) s)
    {i j : ι}
    (hLeft : HoldsLease (Deletes i) s.log s.now i)
    (hRight : HoldsLease (Deletes j) s.log s.now j) :
    i = j := by
  rcases hLeft with ⟨r, hHeld, hGood⟩
  rcases hRight with ⟨r', hHeld', hGood'⟩
  have hSafe := hRun.safe
  apply hSafe.exclusive
  · exact Or.inr ⟨r, hHeld, rfl⟩
  · exact hGood
  · exact Or.inr ⟨r', hHeld', rfl⟩
  · exact hGood'

/- The first client takes the lease, until 10. -/
def firstAcquired : S3State Bool :=
  (initial Bool 0).acquired twoLeasers (false, 0) 1 none

theorem firstAcquired_reached
    {allowed : S3State Bool → S3Op Bool → Prop}
    (hAllowed : ∀ u op, (∀ k, op ≠ .put k) → allowed u op)
    (hPut : ∀ u, u.object = none → u.log = [] →
      allowed u (.put (false, 0))) :
    Run twoLeasers allowed (initial Bool 0) firstAcquired :=
  Run.acquire hAllowed ReflTransGen.refl rfl rfl rfl hPut

/- At 11 it has expired, and the second takes it over. -/
def takenOver : S3State Bool :=
  { firstAcquired with now := 11 }.acquired twoLeasers
    (true, 0) 2 (some 1)

theorem takenOver_reached
    {allowed : S3State Bool → S3Op Bool → Prop}
    (hAllowed : ∀ u op, (∀ k, op ≠ .put k) → allowed u op)
    (hFirst : ∀ u, u.object = none → u.log = [] →
      allowed u (.put (false, 0)))
    (hSecond : ∀ u, u.object = firstAcquired.object →
      allowed u (.put (true, 0))) :
    Run twoLeasers allowed (initial Bool 0) takenOver := by
  have hTick := ReflTransGen.tail
    (firstAcquired_reached hAllowed hFirst)
    ⟨.tick 11, hAllowed _ _ nofun, Step.tick (by decide)⟩
  exact Run.acquire hAllowed hTick rfl rfl rfl
    fun u hObject _ => hSecond u hObject

theorem takenOver_exclusive :
    HoldsLease (Deletes true) takenOver.log takenOver.now
      true ∧
    (HoldsLease (Deletes false) takenOver.log takenOver.now
      false → false = true) := by
  have hReached : Run twoLeasers anyOp (initial Bool 0)
    takenOver :=
    takenOver_reached (fun _ _ _ => trivial)
      (fun _ _ _ => trivial) fun _ _ => trivial
  have hHolds : HoldsLease (Deletes true) takenOver.log
    takenOver.now true :=
    ⟨⟨2, 21, "b"⟩, Or.inl rfl, by decide⟩
  refine ⟨hHolds, ?_⟩
  intro hOther
  exact s3_lease_exclusive hReached hOther hHolds

def firstReleased : S3State Bool :=
  (firstAcquired.set (false, 1) (.deleting 1)).afterDelete (false, 1) false

theorem firstReleased_reached : Run twoLeasers anyOp (initial Bool 0) firstReleased := by
  have hDelete : Step twoLeasers (firstAcquired.set (false, 1) (.deleting 1))
    (.delete (false, 1)) firstReleased :=
    @Step.delete _ _ _ _ _ _ ⟨⟨1, 10, "a"⟩, 1, false⟩ rfl rfl rfl
  refine ReflTransGen.tail ?_ ⟨.delete (false, 1), trivial, hDelete⟩
  refine ReflTransGen.tail
    (firstAcquired_reached (fun _ _ _ => trivial)
      fun _ _ _ => trivial)
    ⟨.release (false, 1) (some ⟨⟨1, 10, "a"⟩, some 1⟩), trivial, Step.release rfl ?_⟩
  intro l hEq
  cases hEq
  exact ⟨0, rfl⟩

/- It does not see the answer, and the second acquires it. -/
def secondAcquired : S3State Bool :=
  firstReleased.acquired twoLeasers (true, 0) 1 none

theorem secondAcquired_reached : Run twoLeasers anyOp (initial Bool 0) secondAcquired :=
  Run.acquire (fun _ _ _ => trivial) firstReleased_reached rfl rfl rfl fun _ _ _ => trivial

/- Until it is told, the first client counts on its lease. -/
theorem s3_lease_held_after_lost_answer :
    ∃ s,
      Run twoLeasers anyOp (initial Bool 0) s ∧
      HoldsLease (Reports false) s.log s.now false ∧
      HoldsLease (Reports true) s.log s.now true := by
  refine ⟨secondAcquired, secondAcquired_reached, ?_, ?_⟩
  · refine ⟨⟨1, 10, "a"⟩, ?_, by decide⟩
    refine Or.inr ⟨nofun, Or.inr ⟨nofun, ?_⟩⟩
    exact Or.inr ⟨nofun, Or.inl rfl⟩
  · exact ⟨⟨1, 10, "b"⟩, Or.inl rfl, by decide⟩

end Replicate
