import Replicate.Encryption.Operations

/-
  A database whose replica must encrypt fails closed.

  Whatever is handed to the client is a ciphertext of the
  intended file, or the attempt fails and the client stores
  nothing. It is shown for each path to the client, then for
  the operations, and then for their sequences.

  Main declarations:
    * `AgeConfig.WritesLTXFile.closed`
    * `Compactor.HandsOver.closed`
    * `SealedDB.Step.isSealed`
    * `encryption_fails_closed`
-/

-- Failing Closed

namespace Replicate

open List

variable {age : AgeLibrary} {recipients : List String} {result : Except Err Unit}
  {call : ClientCall} {createdAt : Int} {s s' : CompactorState} {cfg : AgeConfig}
  {calls : List ClientCall}
variable {level : Nat} {reported : Except Err Unit} {uploads : List Upload}

/-
  The payload is a ciphertext of the intended file, or the
  attempt fails and nothing is written.
-/
def ClientCall.FailsClosed (age : AgeLibrary) (recipients : List String)
    (result : Except Err Unit) (call : ClientCall) : Prop :=
  (call.ended = none ∧ age.encrypts recipients call.intended call.payload) ∨
  (∃ err, result = .error err) ∧ call.stored = false

/-
  All calls of an attempt fail closed, without recipients
  there are none, and no other objects are new.
-/
structure Attempt.Closed (age : AgeLibrary) (recipients : List String)
    (s s' : CompactorState) (attempt : Attempt) : Prop where
  calls : ∀ call ∈ attempt.calls, call.FailsClosed age recipients attempt.result
  refused : recipients = [] → attempt.calls = []
  objects : ∀ level, ∀ obj ∈ s'.objects level, obj ∈ s.objects level ∨
    ∃ call ∈ attempt.calls, call.stored = true ∧ obj.data = call.payload

theorem ClientCall.FailsClosed.encrypts (hClosed : call.FailsClosed age recipients result)
    (hStored : call.stored = true) : age.encrypts recipients call.intended call.payload := by
  rcases hClosed with hSealed | hFailed
  · exact hSealed.2
  · rw [hStored] at hFailed
    exact absurd hFailed.2 nofun

theorem ClientCall.FailsClosed.of_ok (hClosed : call.FailsClosed age recipients (.ok ())) :
    call.FailsClosed age recipients result := by
  rcases hClosed with hSealed | ⟨⟨err, hErr⟩, _⟩
  · exact Or.inl hSealed
  · exact absurd hErr nofun

theorem ClientCall.Writes.objects {result} (hWrites : call.Writes createdAt s result s') {obj}
    (hMem : obj ∈ s'.objects level) :
    obj ∈ s.objects level ∨ call.stored = true ∧ obj.data = call.payload := by
  have hPut : ∀ s'', s'' = s.put call.level (call.object createdAt) →
    obj ∈ s''.objects level → obj ∈ s.objects level ∨ obj.data = call.payload := by
    intro s'' hEq hNew
    rw [hEq] at hNew
    unfold CompactorState.put at hNew
    dsimp only at hNew
    split at hNew
    · rcases eq_or_mem_of_mem_putBy hNew with hSelf | hOld
      · exact Or.inr (hSelf ▸ rfl)
      · exact Or.inl hOld
    · exact Or.inl hNew
  cases hWrites with
  | failed _ => exact Or.inl hMem
  | lost _ hStored | written _ hStored => exact (hPut _ rfl hMem).imp_right (⟨hStored, ·⟩)

/-
  A call fails closed if a payload that ends with end of
  file is a ciphertext: the client can only fail on another.
-/
theorem ClientCall.Writes.failsClosed {result} (hWrites : call.Writes createdAt s result s')
    (hSealed : call.ended = none → age.encrypts recipients call.intended call.payload)
    (hReported : (∃ err, result = .error err) → ∃ err, reported = .error err) :
    call.FailsClosed age recipients reported := by
  cases hWrites with
  | failed hStored => exact Or.inr ⟨hReported ⟨_, rfl⟩, hStored⟩
  | lost hEnded | written hEnded => exact Or.inl ⟨hEnded, hSealed hEnded⟩

theorem Attempt.Closed.of_nil (hObjects : s'.objects = s.objects) :
    (Attempt.mk result []).Closed age recipients s s' where
  calls _ hMem := absurd hMem not_mem_nil
  refused _ := rfl
  objects _ _ hMem := Or.inl (hObjects ▸ hMem)

theorem Attempt.Closed.of_call {s'' result} (hSome : recipients ≠ [])
    (hWrites : call.Writes createdAt s result s')
    (hSealed : call.ended = none → age.encrypts recipients call.intended call.payload)
    (hReported : (∃ err, result = .error err) → ∃ err, reported = .error err)
    (hObjects : s''.objects = s'.objects) :
    (Attempt.mk reported [call]).Closed age recipients s s'' where
  calls other hMem := by
    rw [mem_singleton.mp hMem]
    exact hWrites.failsClosed hSealed hReported
  refused hNone := absurd hNone hSome
  objects level obj hMem := by
    rw [hObjects] at hMem
    exact (hWrites.objects hMem).imp_right (fun hNew => ⟨call, mem_singleton_self call, hNew⟩)

-- The Paths To The Client

/- `Replica.WriteLTXFile` fails closed. -/
theorem AgeConfig.WritesLTXFile.closed {env : SealEnv} {minTXID maxTXID : Nat}
    {rd : ByteReader UInt8 Err} {result : Except Err FileInfo}
    (hRequired : cfg.requireEncryption = true)
    (hHonest : ∀ ew, env.encrypt = .ok ew → ew.Seals age cfg.ageRecipients rd.pieces)
    (hWrites : cfg.WritesLTXFile env s level minTXID maxTXID rd result s' calls) :
    (Attempt.mk (SealedDB.outcome result) calls).Closed age cfg.ageRecipients s s' := by
  cases hWrites with
  | refused _ _ => exact .of_nil rfl
  | plain _ hAllowed _ =>
    rw [hRequired] at hAllowed
    exact absurd hAllowed nofun
  | encrypted hSealed hPipe hClient hReport =>
    refine .of_call hSealed hClient ?_ ?_ rfl
    · intro hEnded
      dsimp only at hEnded ⊢
      rw [hEnded] at hPipe
      exact writeScript_sealed hHonest hPipe
    · rintro ⟨err, rfl⟩
      cases hReport with
      | same | encryption => exact ⟨_, rfl⟩

/- `Compact` fails closed. -/
theorem Compactor.HandsOver.closed {c : Compactor} {env : CompactEnv} {dstLevel : Nat}
    {result : Except Err FileInfo} (hRequired : c.requireEncryption = true)
    (hHonest : ∀ rdrs ew, env.encrypt = .ok ew → ew.Seals age c.ageRecipients (env.merge
      rdrs).chunks) (hHands : c.HandsOver env s dstLevel result s' calls) :
    (Attempt.mk (SealedDB.outcome result) calls).Closed age c.ageRecipients s s' := by
  cases hHands with
  | encryptionRequired | notOpened => exact .of_nil rfl
  | handed hAllowed hOpen hPipe hClient =>
    have hSealed : c.ageRecipients ≠ [] := fun hNone => hAllowed ⟨hRequired, hNone⟩
    refine .of_call hSealed hClient ?_ ?_ rfl
    · intro hEnded
      dsimp only at hEnded ⊢
      rw [hEnded] at hPipe
      exact producer_sealed hSealed (hHonest _) hPipe
    · rintro ⟨err, rfl⟩
      exact ⟨_, rfl⟩

/- So does the loop of `Replica.Sync`. -/
theorem AgeConfig.Uploads.closed (hRequired : cfg.requireEncryption = true)
    (hHonest : SealedDB.Sealing age cfg (.ok uploads))
    (hUploads : cfg.Uploads s uploads result s' calls) :
    (Attempt.mk result calls).Closed age cfg.ageRecipients s s' := by
  -- on the derivation: an upload before the last has
  -- succeeded, so that its call is sealed
  induction hUploads with
  | done | missing => exact .of_nil rfl
  | failed hFile hWrite =>
    have hClosed := hWrite.closed hRequired (fun ew => hHonest _ rfl _ mem_cons_self _ ew hFile)
    refine ⟨?_, hClosed.refused, hClosed.objects⟩
    intro call hMem
    exact (hClosed.calls call hMem).imp_right (fun hFailed => ⟨⟨_, rfl⟩, hFailed.2⟩)
  | @next _ _ _ _ rest _ _ _ _ _ hFile hWrite _ ih =>
    have hClosed := hWrite.closed hRequired (fun ew => hHonest _ rfl _ mem_cons_self _ ew hFile)
    have hSealing : SealedDB.Sealing age cfg (.ok rest) := by
      rintro _ ⟨⟩ u hMem
      exact hHonest _ rfl u (mem_cons_of_mem _ hMem)
    have hLater := ih hSealing
    refine ⟨?_, ?_, ?_⟩
    · intro call hMem
      rcases mem_append.mp hMem with hNow | hThen
      · exact (hClosed.calls call hNow).of_ok
      · exact hLater.calls call hThen
    · intro hNone
      exact append_eq_nil_iff.mpr ⟨hClosed.refused hNone, hLater.refused hNone⟩
    · intro level obj hMem
      rcases hLater.objects level obj hMem with hMid | ⟨call, hCall, hNew⟩
      · rcases hClosed.objects level obj hMid with hOld | ⟨call, hCall, hNew⟩
        · exact Or.inl hOld
        · exact Or.inr ⟨call, mem_append_left _ hCall, hNew⟩
      · exact Or.inr ⟨call, mem_append_right _ hCall, hNew⟩

theorem AgeConfig.Syncs.closed (hRequired : cfg.requireEncryption = true)
    {selected : Except Err (List Upload)} (hHonest : SealedDB.Sealing age cfg selected)
    (hSyncs : cfg.Syncs s selected result s' calls) :
    (Attempt.mk result calls).Closed age cfg.ageRecipients s s' := by
  cases hSyncs with
  | failed => exact .of_nil rfl
  | looped hUploads => exact hUploads.closed hRequired hHonest

-- Operations And Runs

/-
  The attempts of an operation: each fails closed, and each
  new object is a ciphertext.
-/
structure SealedDB.Sealed (age : AgeLibrary) (recipients : List String)
    (s s' : CompactorState) (attempts : List Attempt) : Prop where
  calls : ∀ attempt ∈ attempts, ∀ call ∈ attempt.calls,
    call.FailsClosed age recipients attempt.result
  refused : recipients = [] → ∀ attempt ∈ attempts, attempt.calls = []
  objects : ∀ level, ∀ obj ∈ s'.objects level, obj ∈ s.objects level ∨
    ∃ plaintext, age.encrypts recipients plaintext obj.data

namespace SealedDB

variable {age : AgeLibrary} {recipients : List String} {s s' : CompactorState}
  {attempts : List Attempt} {cfg : AgeConfig} {result : Except Err Unit} {db : SealedDB}
variable {s'' : CompactorState} {attempt : Attempt} {db' : SealedDB} {op : Op} {start : SealedDB}

theorem Sealed.of_nil (s : CompactorState) : Sealed age recipients s s [] where
  calls _ hMem := absurd hMem not_mem_nil
  refused _ _ hMem := absurd hMem not_mem_nil
  objects _ _ hMem := Or.inl hMem

theorem Sealed.cons (hClosed : attempt.Closed age recipients s s')
    (hSealed : Sealed age recipients s' s'' attempts) :
    Sealed age recipients s s'' (attempt :: attempts) where
  calls other hMem := by
    rcases mem_cons.mp hMem with rfl | hLater
    · exact hClosed.calls
    · exact hSealed.calls other hLater
  refused hNone other hMem := by
    rcases mem_cons.mp hMem with rfl | hLater
    · exact hClosed.refused hNone
    · exact hSealed.refused hNone other hLater
  objects level obj hMem := by
    rcases hSealed.objects level obj hMem with hMid | hNew
    · rcases hClosed.objects level obj hMid with hOld | ⟨call, hCall, hStored, hData⟩
      · exact Or.inl hOld
      · rw [hData]
        exact Or.inr ⟨_, (hClosed.calls call hCall).encrypts hStored⟩
    · exact Or.inr hNew

theorem Sealed.single (hClosed : attempt.Closed age recipients s s')
    (hFewer : ∀ level, ∀ obj ∈ s''.objects level, obj ∈ s'.objects level) :
    Sealed age recipients s s'' [attempt] := by
  have hSealed := Sealed.cons hClosed (.of_nil s')
  refine ⟨hSealed.calls, hSealed.refused, ?_⟩
  intro level obj hMem
  exact hSealed.objects level obj (hFewer level obj hMem)

theorem Retries.isSealed {tries : List (Except Err (List Upload))} (hRequired : cfg.requireEncryption = true)
    (hHonest : (Op.shutdownSync tries).Honest age cfg)
    (hRetries : cfg.Retries s tries result s' attempts) :
    Sealed age cfg.ageRecipients s s' attempts := by
  induction hRetries with
  | stopped => exact .of_nil _
  | synced hSync => exact .cons (hSync.closed hRequired (hHonest _ mem_cons_self)) (.of_nil _)
  | retried hSync _ ih =>
    exact .cons (hSync.closed hRequired (hHonest _ mem_cons_self)) (ih fun selected hMem =>
      hHonest selected (mem_cons_of_mem _ hMem))

/- Without recipients, `Replica.WriteLTXFile` refuses. -/
theorem WritesLTXFile.refuses {env level minTXID maxTXID rd result calls}
    (hRequired : cfg.requireEncryption = true) (hNone : cfg.ageRecipients = [])
    (hWrites : cfg.WritesLTXFile env s level minTXID maxTXID rd result s' calls) :
    result = .error (.sentinel .encryptionRequired) := by
  cases hWrites with
  | refused => rfl
  | plain _ hAllowed =>
    rw [hRequired] at hAllowed
    exact absurd hAllowed nofun
  | encrypted hSealed => exact absurd hNone hSealed

theorem Syncs.refuses {selected calls} (hRequired : cfg.requireEncryption = true)
    (hNone : cfg.ageRecipients = []) (hSyncs : cfg.Syncs s selected result s' calls) :
    RefusesSync result selected := by
  cases hSyncs with
  | failed => rfl
  | looped hUploads =>
    -- the first file decides, so that no induction is needed
    cases hUploads with
    | done => rfl
    | missing hFile => simp only [RefusesSync, hFile]
    | failed hFile hWrite =>
      cases WritesLTXFile.refuses hRequired hNone hWrite
      simp only [RefusesSync, hFile]
      exact ⟨_, rfl, rfl⟩
    | next _ hWrite => exact absurd (WritesLTXFile.refuses hRequired hNone hWrite) nofun

theorem RefusesSync.eq_of_ok {selected} (hRefuses : RefusesSync (.ok ()) selected) :
    selected = .ok [] := by
  unfold RefusesSync at hRefuses
  split at hRefuses
  · cases hRefuses
  · rfl
  · split at hRefuses
    · cases hRefuses
    · rcases hRefuses with ⟨_, hErr, _⟩
      cases hErr

theorem Retries.refuses {tries} (hRequired : cfg.requireEncryption = true)
    (hNone : cfg.ageRecipients = []) (hRetries : cfg.Retries s tries result s' attempts) :
    (Op.shutdownSync tries).Refused result attempts := by
  induction hRetries with
  | stopped => exact ⟨.nil, nofun⟩
  | synced hSync =>
    have hRefuses := Syncs.refuses hRequired hNone hSync
    exact ⟨.cons hRefuses .nil, fun _ => mem_singleton.mpr hRefuses.eq_of_ok.symm⟩
  | retried hSync _ ih =>
    exact ⟨.cons (Syncs.refuses hRequired hNone hSync) ih.1, fun hOk => mem_cons_of_mem _ (ih.2 hOk)⟩

theorem HandsOver.refuses {c : Compactor} {env dstLevel result calls}
    (hRequired : c.requireEncryption = true) (hNone : c.ageRecipients = [])
    (hHands : c.HandsOver env s dstLevel result s' calls) :
    result = .error (.sentinel .encryptionRequired) := by
  cases hHands with
  | encryptionRequired => rfl
  | notOpened hAllowed | handed hAllowed => exact absurd ⟨hRequired, hNone⟩ hAllowed

/- The compactor has the settings of the replica. -/
def Copied (cfg : AgeConfig) (db : SealedDB) : Prop :=
  ∀ c, db.compactor = some c → c = copied cfg

theorem Step.copied (hCopied : Copied cfg db) (hStep : Step cfg db op result attempts db') :
    Copied cfg db' := by
  cases hStep with
  | opened =>
    intro c hOpen
    cases hOpen
    rfl
  | _ => exact hCopied

/- Every operation fails closed. -/
theorem Step.isSealed (hRequired : cfg.requireEncryption = true) (hCopied : Copied cfg db)
    (hHonest : op.Honest age cfg) (hStep : Step cfg db op result attempts db') :
    Sealed age cfg.ageRecipients db.store db'.store attempts := by
  cases hStep with
  | opened | notOpened | snapshotNotRead => exact .of_nil _
  | syncRefused _ _ | synced _ => exact .of_nil _
  | replicaSync hSync => exact .single (hSync.closed hRequired hHonest) (fun _ _ hMem => hMem)
  | shutdownSync hRetries => exact Retries.isSealed hRequired hHonest hRetries
  | @snapshot txID rd env result s' calls hWrite =>
    refine .single (hWrite.closed hRequired (fun ew => hHonest rd ew rfl)) ?_
    intro level obj hMem
    cases result with
    | error | ok => exact hMem
  | compactFailed hOpen hHands =>
    have hSame := hCopied _ hOpen
    subst hSame
    refine .single (hHands.closed hRequired ?_) (fun _ _ hMem => hMem)
    exact hHonest
  | compacted hOpen hHands hRetains =>
    have hSame := hCopied _ hOpen
    subst hSame
    refine .single (hHands.closed hRequired ?_) ?_
    · exact hHonest
    · intro level obj hMem
      rcases hRetains with rfl | ⟨_, hFewer⟩
      · exact hMem
      · exact (hFewer level).subset hMem

/- Without recipients every operation is refused. -/
theorem Step.refused (hRequired : cfg.requireEncryption = true) (hCopied : Copied cfg db)
    (hNone : cfg.ageRecipients = []) (hStep : Step cfg db op result attempts db') :
    op.Refused result attempts := by
  cases hStep with
  | opened | notOpened => trivial
  | syncRefused => exact ⟨_, rfl, rfl⟩
  | synced hAllowed => exact absurd ⟨hRequired, hNone⟩ hAllowed
  | replicaSync hSync => exact Syncs.refuses hRequired hNone hSync
  | shutdownSync hRetries => exact Retries.refuses hRequired hNone hRetries
  | snapshotNotRead => rfl
  | snapshot hWrite =>
    cases WritesLTXFile.refuses hRequired hNone hWrite
    exact ⟨_, rfl, rfl⟩
  | compactFailed hOpen hHands =>
    cases hCopied _ hOpen
    cases HandsOver.refuses hRequired hNone hHands
    exact ⟨_, rfl, rfl⟩
  | compacted hOpen hHands =>
    cases hCopied _ hOpen
    exact absurd (HandsOver.refuses hRequired hNone hHands) nofun

theorem Run.copied (hFresh : start.compactor = none) (hRun : Run age cfg start db) :
    Copied cfg db := by
  induction hRun with
  | refl =>
    intro c hOpen
    rw [hFresh] at hOpen
    cases hOpen
  | tail _ hNext ih =>
    rcases hNext with ⟨op, result, attempts, _, hStep⟩
    exact hStep.copied ih

theorem Run.objects (hRequired : cfg.requireEncryption = true) (hFresh : start.compactor = none)
    (hRun : Run age cfg start db) :
    ∀ level, ∀ obj ∈ db.store.objects level, obj ∈ start.store.objects level ∨
      ∃ plaintext, age.encrypts cfg.ageRecipients plaintext obj.data := by
  induction hRun with
  | refl =>
    intro level obj hMem
    exact Or.inl hMem
  | @tail db db' hRun hNext ih =>
    rcases hNext with ⟨op, result, attempts, hHonest, hStep⟩
    have hCopied := Run.copied hFresh hRun
    have hSealed := hStep.isSealed hRequired hCopied hHonest
    intro level obj hMem
    rcases hSealed.objects level obj hMem with hOld | hNew
    · exact ih level obj hOld
    · exact Or.inr hNew

end SealedDB

/-
  Encryption fails closed in every sequence of operations:
  without recipients the write returns the error. Every
  object, sealed or not, reads back as its plaintext.
-/
theorem encryption_fails_closed
    (age : AgeLibrary)
    (cfg : AgeConfig)
    (start db : SealedDB)
    (hRequired : cfg.requireEncryption = true)
    (hFresh : start.compactor = none)
    (hRun : SealedDB.Run age cfg start db) :
    (∀ op result attempts db',
      op.Honest age cfg →
      SealedDB.Step cfg db op result attempts db' →
      SealedDB.Sealed age cfg.ageRecipients db.store
        db'.store attempts ∧
      (cfg.ageRecipients = [] →
        op.Refused result attempts)) ∧
    (∀ level, ∀ obj ∈ db.store.objects level,
      obj ∈ start.store.objects level ∨
      ∃ plaintext,
        age.encrypts cfg.ageRecipients plaintext obj.data) ∧
    (∀ data plaintext rd,
      age.ReadsAs cfg.ageIdentities data plaintext →
      Gives data rd →
      (∃ out,
        cfg.openLTXFile age (.ok rd) = .ok out ∧
        Gives plaintext out) ∧
      ∀ c,
        db.compactor = some c →
        ∀ localFile,
          (∀ f, localFile = .ok f → Gives plaintext f) →
          (∀ err,
            localFile = .error err → err.is .notExist) →
          ∃ out,
            c.sourceReader age localFile (.ok rd) =
              .ok out ∧
            Gives plaintext out) := by
  have hCopied := SealedDB.Run.copied hFresh hRun
  refine ⟨?_, ?_, ?_⟩
  · intro op result attempts db' hHonest hStep
    exact ⟨hStep.isSealed hRequired hCopied hHonest, (hStep.refused hRequired hCopied ·)⟩
  · exact SealedDB.Run.objects hRequired hFresh hRun
  · intro data plaintext rd hReads hGives
    refine ⟨cfg.openLTXFile_gives hReads hGives, ?_⟩
    intro c hOpen localFile hCopy hMissing
    have hSame := hCopied c hOpen
    subst hSame
    exact Compactor.sourceReader_gives hReads hGives hCopy hMissing

-- An Age Library

/- A ciphertext is the plaintext after the intro. -/
def introAge : AgeLibrary where
  encrypts _ plaintext ciphertext :=
    ciphertext = ageStreamIntro ++ plaintext
  opens _ _ := True
  decrypt _ r :=
    .ok ⟨[r.content.drop ageStreamIntro.length], r.stop, false⟩
  intro_ok := by
    intro recipients plaintext ciphertext hEq
    rw [hEq]
    exact take_left
  decrypt_ok := by
    intro identities recipients plaintext r hEq _ hStop
    refine ⟨_, rfl, ?_, hStop⟩
    unfold ByteReader.content at hEq ⊢
    rw [hEq]
    simp

def introWriter : AgeWriter where
  header := [ageStreamIntro]
  body chunks := chunks
  close := .ok []

theorem introWriter_seals (recipients : List String) (chunks : List (List UInt8)) :
    introWriter.Seals introAge recipients chunks := by
  intro final hClose
  cases hClose
  change _ = ageStreamIntro ++ chunks.flatten
  simp [introWriter]

def introUpload : Upload where
  txID := 1
  file := .ok ⟨[[7]], none, false⟩
  env := ⟨.ok introWriter, 0⟩

def introConfig : AgeConfig where
  ageRecipients := ["recipient"]
  ageIdentities := ["identity"]
  requireEncryption := true

def introStart : SealedDB where
  compactor := none
  store := ⟨fun _ => [], fun _ => none⟩

def introOpened : SealedDB :=
  { introStart with
    compactor := some (SealedDB.copied introConfig) }

/- The same settings with the recipients lost. -/
def unwiredConfig : AgeConfig :=
  { introConfig with ageRecipients := [] }

/-
  The upload is sealed and can be read back, and without
  recipients it returns the error.
-/
theorem introUpload_sealed :
    (∃ result attempts db',
      SealedDB.Step introConfig introOpened
        (.replicaSync (.ok [introUpload])) result attempts
        db' ∧
      attempts ≠ [] ∧
      SealedDB.Sealed introAge ["recipient"]
        introOpened.store db'.store attempts) ∧
    (∃ out,
      introConfig.openLTXFile introAge
        (.ok ⟨[ageStreamIntro ++ [7]], none, false⟩) =
        .ok out ∧
      Gives [7] out) ∧
    ∃ result attempts db',
      SealedDB.Step unwiredConfig introStart
        (.replicaSync (.ok [introUpload])) result attempts
        db' ∧
      SealedDB.IsRefusal result := by
  have hRun : SealedDB.Run introAge introConfig introStart introOpened :=
    .single ⟨.open, _, _, trivial, .opened⟩
  have hAll := encryption_fails_closed introAge introConfig introStart introOpened rfl rfl hRun
  have hHonest : ∀ cfg, (SealedDB.Op.replicaSync (.ok [introUpload])).Honest introAge cfg := by
    rintro cfg _ ⟨⟩ u hMem rd ew hFile hEncrypt
    cases mem_singleton.mp hMem
    cases hFile
    cases hEncrypt
    exact introWriter_seals _ _
  have hPipe : Pipe.Delivers (AgeConfig.writeScript (.ok introWriter) ⟨[[7]], none, false⟩)
    (ageStreamIntro ++ ([7] ++ [])) none :=
    Pipe.delivers_iff.mpr rfl
  refine ⟨?_, ?_, ?_⟩
  · have hStep : SealedDB.Step introConfig introOpened (.replicaSync (.ok [introUpload])) _ _ _ :=
      .replicaSync (.looped (.next rfl (.encrypted nofun hPipe (.written rfl rfl) .same) .done))
    exact ⟨_, _, _, hStep, cons_ne_nil _ _, (hAll.1 _ _ _ _ (hHonest _) hStep).1⟩
  · refine (hAll.2.2 (ageStreamIntro ++ [7]) [7] _ ?_ ?_).1
    · exact Or.inl ⟨nofun, [], trivial, rfl⟩
    · exact ⟨append_nil _, rfl⟩
  · have hStep : SealedDB.Step unwiredConfig introStart (.replicaSync (.ok [introUpload])) _ _ _ :=
      .replicaSync (.looped (.failed rfl (.refused rfl rfl)))
    have hClosed := encryption_fails_closed introAge unwiredConfig introStart introStart rfl rfl .refl
    exact ⟨_, _, _, hStep, (hClosed.1 _ _ _ _ (hHonest _) hStep).2 rfl⟩

end Replicate
