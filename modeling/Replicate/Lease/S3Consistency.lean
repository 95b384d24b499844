import Replicate.Lease.S3Leaser

/-
  What the calls of the S3 leaser know.

  The ETags connect a call with the object: a call that has
  checked an object, or was given it, knows what there is to
  replace as long as the ETag is the same. Nothing that the
  other calls do can make that wrong, because a new object
  has a new ETag. An object that is still good cannot go
  before its writer was told about it.

  Main declarations:
    * `S3State.Backed.later`
    * `S3State.Consistent.step`
    * `S3State.Run.consistent`
-/

-- What The Calls Know

namespace Replicate

open Function

variable {ι : Type}

namespace S3State

section Knowledge

variable {k : ι × Nat} {r : LeaseRecord} {etag : Nat} {i : ι}

/- The call that wrote an object, told or not. -/
def Wrote (s : S3State ι) (k : ι × Nat) (r : LeaseRecord) (etag : Nat) : Prop :=
  s.calls k = .written r etag ∨ s.calls k = .done (.ok (some ⟨r, some etag⟩))

/-
  What a record replaces: an expired one whose generation it
  follows, or one that the client itself was given.
-/
def Replaces (s : S3State ι) (i : ι) (r : LeaseRecord) (etag : Nat) : Prop :=
  (∀ o, s.object = some o → o.etag = etag → o.record.expiresAt < s.now ∧
    r.generation = nextGeneration o.record) ∨
  ∃ old, s.Given i ⟨old, some etag⟩ ∧ old.expiresAt ≤ r.expiresAt ∧ r.generation = old.generation

/- What stays true of a call until its next step. -/
def Backed (leasers : ι → Leaser) (s : S3State ι) (i : ι) : S3Call → Prop
| .read (some (r, etag)) => etag ≤ s.etags ∧ ∀ o, s.object = some o → o.etag = etag → o.record = r
| .checked generation none => generation = 1
| .checked generation (some etag) =>
  etag ≤ s.etags ∧ ∀ o, s.object = some o → o.etag = etag →
    o.record.expiresAt < s.now ∧ generation = nextGeneration o.record
| .putting _ r etag =>
  r.expiresAt ≤ s.now + (leasers i).ttl ∧ (etag = none → r.generation = 1) ∧
    ∀ t, etag = some t → t ≤ s.etags ∧ s.Replaces i r t
| .written r etag => r.expiresAt ≤ s.now + (leasers i).ttl ∧ etag ≤ s.etags
| .deleting etag => ∃ r, s.Given i ⟨r, some etag⟩
| .done (.ok (some lease)) =>
  lease.record.expiresAt ≤ s.now + (leasers i).ttl ∧ ∃ t, lease.etag = some t ∧ t ≤ s.etags
| _ => True

/-
  Everything that the calls know holds, an object is known
  by its writer, and one that is still good stays until its
  writer is told.
-/
structure Consistent (leasers : ι → Leaser) (s : S3State ι) : Prop where
  backed : ∀ k, s.Backed leasers k.1 (s.calls k)
  author : ∀ o, s.object = some o → ∃ n, s.Wrote (o.author, n) o.record o.etag
  unique : ∀ k k' r r' etag, s.Wrote k r etag → s.Wrote k' r' etag → k = k'
  pending : ∀ k r etag, s.calls k = .written r etag → s.now ≤ r.expiresAt →
    ∃ o, s.object = some o ∧ o.etag = etag

variable {leasers : ι → Leaser} {s s' : S3State ι}

theorem Wrote.record_eq {r'} (hLeft : s.Wrote k r etag) (hRight : s.Wrote k r' etag) : r = r' := by
  rcases hLeft with hLeft | hLeft <;>
    rcases hRight with hRight | hRight <;>
    rw [hLeft] at hRight <;>
    cases hRight <;>
    rfl

theorem Given.wrote (hGiven : s.Given i ⟨r, some etag⟩) : ∃ n, s.Wrote (i, n) r etag := by
  rcases hGiven with ⟨n, hCall⟩
  exact ⟨n, Or.inr hCall⟩

theorem Consistent.own (hCon : s.Consistent leasers) {o} (hGiven : s.Given i ⟨r, some o.etag⟩)
    (hObject : s.object = some o) : o.author = i ∧ o.record = r := by
  rcases hGiven.wrote with ⟨n, hWrote⟩
  rcases hCon.author o hObject with ⟨m, hAuthor⟩
  have hSame := hCon.unique _ _ _ _ _ hAuthor hWrote
  rw [hSame] at hAuthor
  exact ⟨congrArg Prod.fst hSame, hAuthor.record_eq hWrote⟩

theorem Consistent.not_pending (hCon : s.Consistent leasers) {r'}
    (hGiven : s.Given i ⟨r, some etag⟩) (hCall : s.calls k = .written r' etag) : False := by
  rcases hGiven with ⟨n, hDone⟩
  have hSame := hCon.unique (i, n) k r r' etag (Or.inr hDone) (Or.inl hCall)
  rw [hSame, hCall] at hDone
  cases hDone

theorem Consistent.given_le (hCon : s.Consistent leasers) (hGiven : s.Given i ⟨r, some etag⟩) :
    r.expiresAt ≤ s.now + (leasers i).ttl ∧ etag ≤ s.etags := by
  rcases hGiven with ⟨n, hCall⟩
  have hBacked := hCon.backed (i, n)
  rw [hCall] at hBacked
  rcases hBacked with ⟨hTime, t, hEq, hLe⟩
  cases hEq
  exact ⟨hTime, hLe⟩

theorem Consistent.wrote_le (hCon : s.Consistent leasers) (hWrote : s.Wrote k r etag) :
    etag ≤ s.etags := by
  rcases hWrote with hCall | hCall
  · have hBacked := hCon.backed k
    rw [hCall] at hBacked
    exact hBacked.2
  · exact (hCon.given_le ⟨k.2, hCall⟩).2

/-
  What the others can do to the knowledge of a call: the
  clock moves on, and a new object has a new ETag.
-/
structure Later (s s' : S3State ι) : Prop where
  now : s.now ≤ s'.now
  etags : s.etags ≤ s'.etags
  object : ∀ o, s'.object = some o → s.object = some o ∨ s.etags < o.etag
  given : ∀ i lease, s.Given i lease → s'.Given i lease

theorem Replaces.later (hLater : s.Later s') (hLe : etag ≤ s.etags)
    (hReplaces : s.Replaces i r etag) : s'.Replaces i r etag := by
  rcases hReplaces with hExpired | hGiven
  · refine Or.inl ?_
    intro o hObject hEq
    rcases hLater.object o hObject with hOld | hNew
    · have hPast := hExpired o hOld hEq
      exact ⟨Int.lt_of_lt_of_le hPast.1 hLater.now, hPast.2⟩
    · omega
  · rcases hGiven with ⟨old, hOld, hRest⟩
    exact Or.inr ⟨old, hLater.given _ _ hOld, hRest⟩

theorem Backed.later {c} (hLater : s.Later s') (hBacked : s.Backed leasers i c) :
    s'.Backed leasers i c := by
  have hNow := hLater.now
  have hTags := hLater.etags
  cases c with
  | read existing =>
    cases existing with
    | none => trivial
    | some pair =>
      rcases hBacked with ⟨hLe, hSame⟩
      refine ⟨Nat.le_trans hLe hTags, ?_⟩
      intro o hObject hEq
      rcases hLater.object o hObject with hOld | hNew
      · exact hSame o hOld hEq
      · omega
  | checked generation etag =>
    cases etag with
    | none => exact hBacked
    | some etag =>
      rcases hBacked with ⟨hLe, hPast⟩
      refine ⟨Nat.le_trans hLe hTags, ?_⟩
      intro o hObject hEq
      rcases hLater.object o hObject with hOld | hNew
      · have hOver := hPast o hOld hEq
        exact ⟨Int.lt_of_lt_of_le hOver.1 hNow, hOver.2⟩
      · omega
  | putting renewal r etag =>
    rcases hBacked with ⟨hTime, hFirst, hReplaces⟩
    refine ⟨by omega, hFirst, ?_⟩
    intro t hEq
    rcases hReplaces t hEq with ⟨hLe, hOld⟩
    exact ⟨Nat.le_trans hLe hTags, hOld.later hLater hLe⟩
  | written r etag =>
    rcases hBacked with ⟨hTime, hLe⟩
    exact ⟨by omega, Nat.le_trans hLe hTags⟩
  | deleting etag =>
    rcases hBacked with ⟨r, hGiven⟩
    exact ⟨r, hLater.given _ _ hGiven⟩
  | done result =>
    cases result with
    | error err => trivial
    | ok lease =>
      cases lease with
      | none => trivial
      | some lease =>
        rcases hBacked with ⟨hTime, t, hEq, hLe⟩
        exact ⟨by omega, t, hEq, Nat.le_trans hLe hTags⟩
  | idle | refused | deleted => trivial

end Knowledge

-- What Every Step Keeps

section Steps

variable [DecidableEq ι] {leasers : ι → Leaser} {s s' : S3State ι} {k : ι × Nat}
variable {c : S3Call} {k' : ι × Nat} {i : ι} {r : LeaseRecord} {etag : Option Nat} {renewal : Bool}
  {lease : LeaseRecord}

theorem call_self (hCalls : s'.calls = update s.calls k c) : s'.calls k = c := by
  rw [hCalls]
  exact update_self k c s.calls

theorem call_other (hCalls : s'.calls = update s.calls k c) (hNe : k' ≠ k) :
    s'.calls k' = s.calls k' := by
  rw [hCalls]
  exact update_of_ne hNe c s.calls

theorem Given.keep (hCalls : s'.calls = update s.calls k c)
    (hOpen : ∀ lease, s.calls k ≠ .done (.ok (some lease))) {lease} (hGiven : s.Given i lease) :
    s'.Given i lease := by
  rcases hGiven with ⟨n, hCall⟩
  refine ⟨n, ?_⟩
  by_cases hSame : (i, n) = k
  · exact absurd (hSame ▸ hCall) (hOpen lease)
  · rw [call_other hCalls hSame]
    exact hCall

theorem Wrote.cases (hCalls : s'.calls = update s.calls k c) {etag : Nat}
    (hWrote : s'.Wrote k' r etag) :
    k' = k ∧ (c = .written r etag ∨ c = .done (.ok (some ⟨r, some etag⟩))) ∨
      k' ≠ k ∧ s.Wrote k' r etag := by
  unfold Wrote at hWrote
  by_cases hSame : k' = k
  · rw [hSame, call_self hCalls] at hWrote
    exact Or.inl ⟨hSame, hWrote⟩
  · rw [call_other hCalls hSame] at hWrote
    exact Or.inr ⟨hSame, hWrote⟩

theorem Wrote.keep (hCalls : s'.calls = update s.calls k c) (hOld : (s.calls k).Silent) {etag : Nat}
    (hWrote : s.Wrote k' r etag) : s'.Wrote k' r etag := by
  have hNe : k' ≠ k := by
    intro hSame
    rw [hSame] at hWrote
    rcases hWrote with hCall | hCall
    · exact hOld.1 _ _ hCall
    · exact hOld.2 _ hCall
  unfold Wrote
  rw [call_other hCalls hNe]
  exact hWrote

theorem Consistent.backed_step (hCon : s.Consistent leasers)
    (hCalls : s'.calls = update s.calls k c) (hLater : s.Later s')
    (hBacked : s'.Backed leasers k.1 c) : ∀ k', s'.Backed leasers k'.1 (s'.calls k') := by
  intro k'
  by_cases hSame : k' = k
  · rw [hSame, call_self hCalls]
    exact hBacked
  · rw [call_other hCalls hSame]
    exact (hCon.backed k').later hLater

/- A silent step that does not touch the object. -/
theorem Consistent.silent (hCon : s.Consistent leasers) (hCalls : s'.calls = update s.calls k c)
    (hNow : s'.now = s.now) (hTags : s'.etags = s.etags) (hObject : s'.object = s.object)
    (hOld : (s.calls k).Silent) (hNew : c.Silent) (hBacked : s.Backed leasers k.1 c) :
    s'.Consistent leasers := by
  have hLater : s.Later s' :=
    { now := Int.le_of_eq hNow.symm
      etags := Nat.le_of_eq hTags.symm
      object := fun o hSome => Or.inl (hObject ▸ hSome)
      given := fun _ _ hGiven => hGiven.keep hCalls hOld.2 }
  have hBefore : ∀ k' r etag, s'.Wrote k' r etag → s.Wrote k' r etag := by
    intro k' r etag hWrote
    rcases hWrote.cases hCalls with hSelf | hElse
    · rcases hSelf.2 with hEq | hEq
      · exact absurd hEq (hNew.1 r etag)
      · exact absurd hEq (hNew.2 _)
    · exact hElse.2
  refine ⟨hCon.backed_step hCalls hLater (hBacked.later hLater), ?_, ?_, ?_⟩
  · intro o hSome
    rw [hObject] at hSome
    rcases hCon.author o hSome with ⟨n, hWrote⟩
    exact ⟨n, hWrote.keep hCalls hOld⟩
  · intro k₁ k₂ r r' etag hLeft hRight
    apply hCon.unique k₁ k₂ r r' etag
    · exact hBefore _ _ _ hLeft
    · exact hBefore _ _ _ hRight
  · intro k' r etag hCall hGood
    rw [hObject]
    rw [hNow] at hGood
    by_cases hSame : k' = k
    · rw [hSame, call_self hCalls] at hCall
      exact absurd hCall (hNew.1 r etag)
    · rw [call_other hCalls hSame] at hCall
      exact hCon.pending k' r etag hCall hGood

omit [DecidableEq ι] in
theorem accepts_some {o} (hObject : s.object = some o)
    (hAccepts : LockObject.accepts s.object etag = true) : etag = some o.etag := by
  rw [hObject] at hAccepts
  cases etag with
  | none => exact absurd hAccepts Bool.false_ne_true
  | some t =>
    have hEq : t = o.etag := beq_iff_eq.mp hAccepts
    rw [hEq]

omit [DecidableEq ι] in
theorem Consistent.put_pending (hCon : s.Consistent leasers)
    (hCall : s.calls k = .putting renewal lease etag)
    (hAccepts : LockObject.accepts s.object etag = true) {t : Nat}
    (hWritten : s.calls k' = .written r t) : r.expiresAt < s.now := by
  by_contra hNot
  have hGood : s.now ≤ r.expiresAt := Int.not_lt.mp hNot
  rcases hCon.pending k' r t hWritten hGood with ⟨o, hObject, hTag⟩
  have hBacked := hCon.backed k
  rw [hCall, accepts_some hObject hAccepts] at hBacked
  rcases (hBacked.2.2 o.etag rfl).2 with hPast | hOwn
  · rcases hCon.author o hObject with ⟨n, hAuthor⟩
    rw [hTag] at hAuthor
    have hSame := hCon.unique _ _ _ _ _ hAuthor (Or.inl hWritten)
    rw [hSame] at hAuthor
    have hRecord := hAuthor.record_eq (Or.inl hWritten)
    have hOver := (hPast o hObject rfl).1
    rw [hRecord] at hOver
    exact hNot hOver
  · rcases hOwn with ⟨old, hGiven, _⟩
    rw [hTag] at hGiven
    exact hCon.not_pending hGiven hWritten

theorem silent_putting :
    (S3Call.putting renewal r etag).Silent :=
  ⟨nofun, nofun⟩

/- A put takes effect. -/
theorem Consistent.put (hCon : s.Consistent leasers)
    (hCall : s.calls k = .putting renewal lease etag)
    (hAccepts : LockObject.accepts s.object etag = true) :
    (s.afterPut k lease).Consistent leasers := by
  have hCalls : (s.afterPut k lease).calls = update s.calls k (.written lease (s.etags + 1)) := rfl
  have hOld : (s.calls k).Silent := hCall ▸ silent_putting
  have hLater : s.Later (s.afterPut k lease) :=
    { now := Int.le_refl _
      etags := Nat.le_succ _
      object := by
        intro o hSome
        cases hSome
        exact Or.inr (Nat.lt_succ_self _)
      given := fun _ _ hGiven => hGiven.keep hCalls hOld.2 }
  have hPutting := hCon.backed k
  rw [hCall] at hPutting
  -- The new ETag is that of no write before.
  have hFresh : ∀ k' r t, (s.afterPut k lease).Wrote k' r t →
    k' = k ∧ t = s.etags + 1 ∨ k' ≠ k ∧ t ≤ s.etags ∧ s.Wrote k' r t := by
    intro k' r t hWrote
    rcases hWrote.cases hCalls with ⟨hSame, hSelf⟩ | hElse
    · rcases hSelf with hEq | hEq
      · cases hEq
        exact Or.inl ⟨hSame, rfl⟩
      · cases hEq
    · exact Or.inr ⟨hElse.1, hCon.wrote_le hElse.2, hElse.2⟩
  refine ⟨hCon.backed_step hCalls hLater ⟨hPutting.1, Nat.le_refl _⟩, ?_, ?_, ?_⟩
  · intro o hSome
    cases hSome
    exact ⟨k.2, Or.inl (call_self hCalls)⟩
  · intro k₁ k₂ r r' t hLeft hRight
    rcases hFresh _ _ _ hLeft with hLeft | hLeft
    · rcases hFresh _ _ _ hRight with hRight | hRight
      · exact hLeft.1.trans hRight.1.symm
      · omega
    · rcases hFresh _ _ _ hRight with hRight | hRight
      · omega
      · exact hCon.unique _ _ _ _ _ hLeft.2.2 hRight.2.2
  · intro k' r t hWritten hGood
    by_cases hSame : k' = k
    · rw [hSame, call_self hCalls] at hWritten
      cases hWritten
      exact ⟨_, rfl, rfl⟩
    · rw [call_other hCalls hSame] at hWritten
      have hPast := hCon.put_pending hCall hAccepts hWritten
      exact absurd hGood (Int.not_le.mpr hPast)

/- A put reports success. -/
theorem Consistent.answer (hCon : s.Consistent leasers) {etag : Nat}
    (hCall : s.calls k = .written lease etag) :
    (s.afterAnswer k lease etag).Consistent leasers := by
  have hCalls : (s.afterAnswer k lease etag).calls = update s.calls k
    (.done (.ok (some ⟨lease, some etag⟩))) := rfl
  have hOpen : ∀ l, s.calls k ≠ .done (.ok (some l)) := by
    intro l hDone
    rw [hCall] at hDone
    cases hDone
  have hLater : s.Later (s.afterAnswer k lease etag) :=
    { now := Int.le_refl _
      etags := Nat.le_refl _
      object := fun _ hSome => Or.inl hSome
      given := fun _ _ hGiven => hGiven.keep hCalls hOpen }
  have hWritten := hCon.backed k
  rw [hCall] at hWritten
  have hBefore : ∀ k' r t, (s.afterAnswer k lease etag).Wrote k' r t → s.Wrote k' r t := by
    intro k' r t hWrote
    rcases hWrote.cases hCalls with ⟨hSame, hSelf⟩ | hElse
    · rcases hSelf with hEq | hEq
      · cases hEq
      · cases hEq
        exact Or.inl (hSame ▸ hCall)
    · exact hElse.2
  refine ⟨hCon.backed_step hCalls hLater ⟨hWritten.1, etag, rfl, hWritten.2⟩, ?_, ?_, ?_⟩
  · intro o hSome
    rcases hCon.author o hSome with ⟨n, hWrote⟩
    refine ⟨n, ?_⟩
    by_cases hSame : (o.author, n) = k
    · rw [hSame] at hWrote ⊢
      rcases hWrote with hEq | hEq
      · rw [hCall] at hEq
        cases hEq
        exact Or.inr (call_self hCalls)
      · exact absurd hEq (hOpen _)
    · unfold Wrote
      rw [call_other hCalls hSame]
      exact hWrote
  · intro k₁ k₂ r r' t hLeft hRight
    apply hCon.unique k₁ k₂ r r' t
    · exact hBefore _ _ _ hLeft
    · exact hBefore _ _ _ hRight
  · intro k' r t hCall' hGood
    by_cases hSame : k' = k
    · rw [hSame, call_self hCalls] at hCall'
      cases hCall'
    · rw [call_other hCalls hSame] at hCall'
      exact hCon.pending k' r t hCall' hGood

/- A delete takes effect. -/
theorem Consistent.delete (hCon : s.Consistent leasers) {o} (hCall : s.calls k = .deleting o.etag)
    (hObject : s.object = some o) : (s.afterDelete k o.author).Consistent leasers := by
  have hCalls : (s.afterDelete k o.author).calls = update s.calls k .deleted := rfl
  have hOld : (s.calls k).Silent := hCall ▸ ⟨nofun, nofun⟩
  have hLater : s.Later (s.afterDelete k o.author) :=
    { now := Int.le_refl _
      etags := Nat.le_refl _
      object := nofun
      given := fun _ _ hGiven => hGiven.keep hCalls hOld.2 }
  have hDeleting := hCon.backed k
  rw [hCall] at hDeleting
  rcases hDeleting with ⟨old, hGiven⟩
  have hBefore : ∀ k' r t, (s.afterDelete k o.author).Wrote k' r t → s.Wrote k' r t := by
    intro k' r t hWrote
    rcases hWrote.cases hCalls with ⟨_, hSelf⟩ | hElse
    · rcases hSelf with hEq | hEq <;> cases hEq
    · exact hElse.2
  refine ⟨hCon.backed_step hCalls hLater trivial, nofun, ?_, ?_⟩
  · intro k₁ k₂ r r' t hLeft hRight
    apply hCon.unique k₁ k₂ r r' t
    · exact hBefore _ _ _ hLeft
    · exact hBefore _ _ _ hRight
  · -- Whoever deletes it was told that it was written.
    intro k' r t hWritten hGood
    by_cases hSame : k' = k
    · rw [hSame, call_self hCalls] at hWritten
      cases hWritten
    rw [call_other hCalls hSame] at hWritten
    rcases hCon.pending k' r t hWritten hGood with ⟨o', hObject', hTag⟩
    rw [hObject] at hObject'
    cases hObject'
    rw [hTag] at hGiven
    exact absurd hWritten fun hCall' => hCon.not_pending hGiven hCall'

omit [DecidableEq ι] in
theorem Consistent.tick (hCon : s.Consistent leasers) {now : Int} (hNow : s.now ≤ now) :
    Consistent leasers { s with now := now } := by
  have hLater : s.Later { s with now := now } :=
    { now := hNow
      etags := Nat.le_refl _
      object := fun _ hSome => Or.inl hSome
      given := fun _ _ hGiven => hGiven }
  refine ⟨fun k' => (hCon.backed k').later hLater, hCon.author, hCon.unique, ?_⟩
  intro k' r etag hCall hGood
  apply hCon.pending k' r etag hCall
  exact Int.le_trans hNow hGood

omit [DecidableEq ι] in
theorem Consistent.backed_get (hCon : s.Consistent leasers) (i : ι) :
    s.Backed leasers i (.read (s.object.map fun o => (o.record, o.etag))) := by
  cases hObject : s.object with
  | none => trivial
  | some o =>
    rcases hCon.author o hObject with ⟨n, hWrote⟩
    refine ⟨hCon.wrote_le hWrote, ?_⟩
    intro o' hObject' _
    rw [hObject] at hObject'
    cases hObject'
    rfl

omit [DecidableEq ι] in
theorem Backed.afterCheck {existing} (hRead : s.Backed leasers i (.read existing)) :
    s.Backed leasers i (.afterCheck s.now existing) := by
  cases existing with
  | none => rfl
  | some pair =>
    rcases pair with ⟨r, etag⟩
    rcases hRead with ⟨hLe, hSame⟩
    unfold S3Call.afterCheck acquireCheck
    dsimp only
    by_cases hPast : r.isExpired s.now = true
    · rw [if_pos hPast]
      refine ⟨hLe, ?_⟩
      intro o hObject hEq
      rw [hSame o hObject hEq]
      exact ⟨of_decide_eq_true hPast, rfl⟩
    · rw [if_neg hPast]
      trivial

omit [DecidableEq ι] in
theorem Backed.prepare {generation : Int} (hChecked : s.Backed leasers i (.checked generation etag))
    :
    s.Backed leasers i (.putting false ((leasers i).newLease s.now generation) etag) := by
  refine ⟨Int.le_refl _, ?_, ?_⟩
  · intro hEq
    subst hEq
    exact hChecked
  · intro t hEq
    subst hEq
    exact ⟨hChecked.1, Or.inl hChecked.2⟩

omit [DecidableEq ι] in
theorem Consistent.backed_renew (hCon : s.Consistent leasers) {lease}
    (hGiven : ∀ l, lease = some l → s.Given i l) :
    s.Backed leasers i (.startRenew (leasers i) s.now lease) := by
  rcases lease with _ | ⟨r, _ | etag⟩
  · trivial
  · trivial
  have hOwn := hGiven _ rfl
  have hBound := hCon.given_le hOwn
  refine ⟨Int.le_refl _, nofun, ?_⟩
  intro t hEq
  cases hEq
  exact ⟨hBound.2, Or.inr ⟨r, hOwn, hBound.1, rfl⟩⟩

omit [DecidableEq ι] in
theorem backed_release {lease} (hGiven : ∀ l, lease = some l → s.Given i l) :
    s.Backed leasers i (.startRelease lease) := by
  rcases lease with _ | ⟨r, _ | etag⟩
  · trivial
  · trivial
  · exact ⟨r, hGiven _ rfl⟩

/- What every step keeps. -/
theorem Consistent.step (hCon : s.Consistent leasers) {op} (hStep : Step leasers s op s') :
    s'.Consistent leasers := by
  cases hStep with
  | tick hLater => exact hCon.tick hLater
  | get hCall =>
    exact hCon.silent rfl rfl rfl rfl (hCall ▸ ⟨nofun, nofun⟩) ⟨nofun, nofun⟩ (hCon.backed_get _)
  | getFailed hCall | putRefused hCall | reject hCall | deleteRefused hCall | confirm hCall =>
    exact hCon.silent rfl rfl rfl rfl (hCall ▸ ⟨nofun, nofun⟩) ⟨nofun, nofun⟩ trivial
  | @check k existing hCall =>
    have hRead := hCon.backed k
    rw [hCall] at hRead
    exact hCon.silent rfl rfl rfl rfl (hCall ▸ ⟨nofun, nofun⟩)
      (S3Call.silent_afterCheck _ _) hRead.afterCheck
  | @prepare k generation etag hCall =>
    have hChecked := hCon.backed k
    rw [hCall] at hChecked
    exact hCon.silent rfl rfl rfl rfl (hCall ▸ ⟨nofun, nofun⟩) ⟨nofun, nofun⟩ hChecked.prepare
  | renew hCall hGiven =>
    exact hCon.silent rfl rfl rfl rfl (hCall ▸ ⟨nofun, nofun⟩) (S3Call.silent_startRenew _ _ _)
      (hCon.backed_renew hGiven)
  | put hCall hAccepts => exact hCon.put hCall hAccepts
  | answer hCall => exact hCon.answer hCall
  | release hCall hGiven =>
    exact hCon.silent rfl rfl rfl rfl (hCall ▸ ⟨nofun, nofun⟩) (S3Call.silent_startRelease _)
      (backed_release hGiven)
  | delete hCall hObject hMatches =>
    subst hMatches
    exact hCon.delete hCall hObject

omit [DecidableEq ι] in
theorem initial_consistent (leasers : ι → Leaser) (now : Int) :
    (initial ι now).Consistent leasers where
  backed := fun _ => trivial
  author := nofun
  unique := by
    intro k k' r r' etag hLeft
    rcases hLeft with hCall | hCall <;> cases hCall
  pending := nofun

/- In every state that a run reaches. -/
theorem Run.consistent {allowed} (hRun : Run leasers allowed s s') (hCon : s.Consistent leasers) :
    s'.Consistent leasers := by
  induction hRun with
  | refl => exact hCon
  | tail _ hStep ih =>
    rcases hStep with ⟨op, _, hStep⟩
    exact ih.step hStep

end Steps

end S3State

end Replicate
