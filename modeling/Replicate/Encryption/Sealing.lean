import Replicate.Compaction.Compact
import Replicate.Lib.ByteReader

/-
  Sealing and opening LTX files with age.

  `Replica.WriteLTXFile` sends what it is given through an
  age writer if it has recipients. Without recipients it
  refuses to write if encryption is required, and otherwise
  hands the file over as it is. The compactor does the same
  in its own code, with settings that `DB.Open` has copied
  from the replica.

  On the way back both look at the first bytes of an object,
  and decrypt it only if it starts like an age ciphertext.

  Main declarations:
    * `AgeConfig.writeScript_sealed`
    * `Compactor.producer_sealed`
    * `AgeConfig.openLTXFile_gives`
    * `Compactor.sourceReader_gives`
-/

-- The Age Library

namespace Replicate

open ByteReader Pipe

/- The fixed first line of every age ciphertext. -/
def ageStreamIntro : List UInt8 :=
  "age-encryption.org/v1".toUTF8.toList

/-
  What is assumed of age: a ciphertext starts with the
  intro, and decrypting it with identities that open it
  gives back the plaintext.
-/
structure AgeLibrary where
  encrypts : List String → List UInt8 → List UInt8 → Prop
  opens : List String → List String → Prop
  decrypt : List String → ByteReader UInt8 Err → Except Err (ByteReader UInt8 Err)
  intro_ok : ∀ recipients plaintext ciphertext, encrypts recipients plaintext ciphertext →
    ciphertext.take ageStreamIntro.length = ageStreamIntro
  decrypt_ok : ∀ identities recipients plaintext r, encrypts recipients plaintext r.content →
    opens identities recipients → r.stop = none → ∃ out, decrypt identities r = .ok out ∧
      out.content = plaintext ∧ out.stop = none

/- A writer that was closed has written a ciphertext. -/
def AgeWriter.Seals (age : AgeLibrary) (recipients : List String)
    (ew : AgeWriter) (chunks : List (List UInt8)) : Prop :=
  ∀ final, ew.close = .ok final → age.encrypts recipients chunks.flatten
    (ew.header.flatten ++ ((ew.body chunks).flatten ++ final.flatten))

/- The age settings of a `Replica`. -/
structure AgeConfig where
  ageRecipients : List String
  ageIdentities : List String
  requireEncryption : Bool

-- Writing

/-
  A call of the client's `WriteLTXFile`: the label, what the
  caller means to write, the content of the reader that is
  handed over and the error after it, if it does not end
  with end of file, and whether the client has stored it.
-/
structure ClientCall where
  level : Nat
  minTXID : Nat
  maxTXID : Nat
  intended : List UInt8
  payload : List UInt8
  ended : Option Err
  stored : Bool

/- The object that the client stores. -/
def ClientCall.object (call : ClientCall) (createdAt : Int) : Object where
  info :=
    { level := call.level
      minTXID := call.minTXID
      maxTXID := call.maxTXID
      size := call.payload.length
      createdAt := createdAt }
  data := call.payload

/- Store an object at a level. -/
def CompactorState.put (s : CompactorState) (level : Nat) (obj : Object) : CompactorState :=
  { s with
    objects := fun l =>
      if l = level then putObject obj (s.objects l)
      else s.objects l }

/-
  What a client may do: it stores nothing and fails, as it
  must if reading the payload fails, or it stores the whole
  payload. The answer to a write can be lost.
-/
inductive ClientCall.Writes (call : ClientCall) (createdAt : Int) (s : CompactorState) :
    Except Err FileInfo → CompactorState → Prop where
  | failed {err} (hStored : call.stored = false) : Writes call createdAt s (.error err) s
  | lost {err} (hEnded : call.ended = none) (hStored : call.stored = true) :
    Writes call createdAt s (.error err) (s.put call.level (call.object createdAt))
  | written (hEnded : call.ended = none) (hStored : call.stored = true) :
    Writes call createdAt s (.ok (call.object createdAt).info)
      (s.put call.level (call.object createdAt))

/- The answers of the calls that `WriteLTXFile` makes. -/
structure SealEnv where
  encrypt : Except Err AgeWriter
  createdAt : Int

namespace AgeConfig

/-
  What the encrypting goroutine does to the pipe. An error
  of the reader leaves the age writer open.
-/
def writeScript (encrypt : Except Err AgeWriter) (rd : ByteReader UInt8 Err) :
    List (Op UInt8 Err) :=
  match encrypt with
  | .error err => [.close (some (.wrap "age encrypt" err))]
  | .ok ew =>
    ew.header.map .write ++ ((ew.body rd.pieces).map .write ++ match rd.stop with
      | some err => [.close (some err)]
      | none =>
        match ew.close with
        | .error err => [.close (some err)]
        | .ok final => final.map .write ++ [.close none])

/-
  A failed write is reported as it is, or together with what
  the encrypting goroutine has run into by then.
-/
inductive Reports : Except Err FileInfo → Except Err FileInfo → Prop where
  | same {result} : Reports result result
  | encryption {err} : Reports (.error err) (.error (.wrap "write ltx file" err))

/-
  `Replica.WriteLTXFile`, with every schedule of the
  encrypting goroutine and the client.
-/
inductive WritesLTXFile (cfg : AgeConfig) (env : SealEnv) (s : CompactorState)
    (level minTXID maxTXID : Nat) (rd : ByteReader UInt8 Err) :
    Except Err FileInfo → CompactorState → List ClientCall → Prop where
  | refused (hNone : cfg.ageRecipients = []) (hRequired : cfg.requireEncryption = true) :
    WritesLTXFile cfg env s level minTXID maxTXID rd (.error (.sentinel .encryptionRequired)) s []
  | plain {stored result s'} (hNone : cfg.ageRecipients = [])
    (hAllowed : cfg.requireEncryption = false)
    (hClient : (ClientCall.mk level minTXID maxTXID rd.content
      rd.content rd.stop stored).Writes env.createdAt s
      result s') :
    WritesLTXFile cfg env s level minTXID maxTXID rd result s'
      [⟨level, minTXID, maxTXID, rd.content, rd.content, rd.stop, stored⟩]
  | encrypted {received ended stored result reported s'} (hSealed : cfg.ageRecipients ≠ [])
    (hPipe : Delivers (writeScript env.encrypt rd) received ended)
    (hClient : (ClientCall.mk level minTXID maxTXID rd.content
      received ended stored).Writes env.createdAt s
      result s') (hReport : Reports result reported) :
    WritesLTXFile cfg env s level minTXID maxTXID rd reported s'
      [⟨level, minTXID, maxTXID, rd.content, received, ended, stored⟩]

/- What ends with end of file was sealed to the end. -/
theorem writeScript_sealed {encrypt rd age recipients}
    (hHonest : ∀ ew, encrypt = .ok ew → ew.Seals age recipients rd.pieces) {received}
    (hPipe : Delivers (writeScript encrypt rd) received none) :
    age.encrypts recipients rd.content received := by
  rw [delivers_iff] at hPipe
  unfold writeScript at hPipe
  cases hEncrypt : encrypt with
  | error err =>
    rw [hEncrypt] at hPipe
    cases hPipe
  | ok ew =>
    rw [hEncrypt] at hPipe
    rw [outcome_writes, outcome_writes] at hPipe
    cases hStop : rd.stop with
    | some err =>
      rw [hStop] at hPipe
      cases hPipe
    | none =>
      rw [hStop] at hPipe
      cases hClose : ew.close with
      | error err =>
        rw [hClose] at hPipe
        cases hPipe
      | ok final =>
        rw [hClose] at hPipe
        rw [outcome_writes] at hPipe
        have hSeals := hHonest ew hEncrypt final hClose
        simp only [outcome, Option.map_some, List.append_nil, Option.some.injEq,
          Prod.mk.injEq, and_true] at hPipe
        rw [← hPipe]
        exact hSeals

end AgeConfig

/- The same for the compactor and its merge. -/
theorem Compactor.producer_sealed {c : Compactor} {env : CompactEnv}
    {rdrs : List FileInfo} {age : AgeLibrary} (hSealed : c.ageRecipients ≠ [])
    (hHonest : ∀ ew, env.encrypt = .ok ew → ew.Seals age c.ageRecipients (env.merge rdrs).chunks)
    {received : List UInt8} (hPipe : Delivers (c.producer env rdrs) received none) :
    age.encrypts c.ageRecipients (env.merge rdrs).chunks.flatten received := by
  rw [delivers_iff] at hPipe
  unfold producer at hPipe
  rw [if_neg hSealed] at hPipe
  cases hEncrypt : env.encrypt with
  | error err =>
    rw [hEncrypt] at hPipe
    cases hPipe
  | ok ew =>
    rw [hEncrypt] at hPipe
    rw [outcome_writes] at hPipe
    cases hNew : (env.merge rdrs).newErr with
    | some err =>
      rw [hNew] at hPipe
      rw [outcome_writes] at hPipe
      cases hPipe
    | none =>
      rw [hNew] at hPipe
      rw [outcome_writes] at hPipe
      cases hErr : (env.merge rdrs).err with
      | some err =>
        rw [hErr] at hPipe
        rw [outcome_writes] at hPipe
        cases hPipe
      | none =>
        rw [hErr] at hPipe
        cases hClose : ew.close with
        | error err =>
          rw [hClose] at hPipe
          cases hPipe
        | ok final =>
          rw [hClose] at hPipe
          rw [outcome_writes] at hPipe
          have hSeals := hHonest ew hEncrypt final hClose
          simp only [outcome, Option.map_some, List.append_nil, Option.some.injEq,
            Prod.mk.injEq, and_true] at hPipe
          rw [← hPipe]
          exact hSeals

-- Reading

/-
  `DecryptIfSealed`: sniff the first bytes, put them back,
  and decrypt if they are those of a ciphertext. An error of
  the sniffing read is left to the reads that follow.
-/
def decryptIfSealed (rd : ByteReader UInt8 Err) (decrypt :
    ByteReader UInt8 Err → Except Err (ByteReader UInt8 Err)) :
    Except Err (ByteReader UInt8 Err) :=
  let sniff := (rd.readFull ageStreamIntro.length).1
  let full := prepend sniff (rd.readFull ageStreamIntro.length).2
  if sniff ≠ ageStreamIntro then .ok full else decrypt full

theorem decryptIfSealed_eq (rd : ByteReader UInt8 Err) (decrypt :
    ByteReader UInt8 Err → Except Err (ByteReader UInt8 Err)) :
    ∃ full, full.content = rd.content ∧ full.stop = rd.stop ∧
      decryptIfSealed rd decrypt = if rd.content.take ageStreamIntro.length ≠ ageStreamIntro then
        .ok full
        else decrypt full := by
  rcases rd.readFull_eq ageStreamIntro.length with ⟨hSniff, hRest, hStop⟩
  refine ⟨prepend (rd.content.take ageStreamIntro.length)
    (rd.readFull ageStreamIntro.length).2, ?_, ?_, ?_⟩
  · rw [content_prepend, hRest]
    exact List.take_append_drop _ _
  · rw [stop_prepend]
    exact hStop
  · unfold decryptIfSealed
    rw [hSniff]

/- `Replica.OpenLTXFile` on what the client answers. -/
def AgeConfig.openLTXFile (cfg : AgeConfig) (age : AgeLibrary)
    (opened : Except Err (ByteReader UInt8 Err)) :
    Except Err (ByteReader UInt8 Err) :=
  match opened with
  | .error err => .error err
  | .ok rc =>
    if cfg.ageIdentities = [] then .ok rc
    else
      match decryptIfSealed rc (age.decrypt cfg.ageIdentities) with
      | .error err => .error (.wrap "age decrypt" err)
      | .ok out => .ok out

namespace Compactor

/- The remote object of a source, decrypted. -/
def remoteReader (c : Compactor) (age : AgeLibrary) (opened : Except Err (ByteReader UInt8 Err)) :
    Except Err (ByteReader UInt8 Err) :=
  match opened with
  | .error err => .error (.wrap "open ltx file" err)
  | .ok f =>
    if c.ageIdentities ≠ [] then
      match decryptIfSealed f (age.decrypt c.ageIdentities) with
      | .error err => .error (.wrap "age decrypt ltx file" err)
      | .ok out => .ok out
    else .ok f

/-
  The reader of a source of `Compact`: the local copy if
  there is one, and the remote object otherwise.
-/
def sourceReader (c : Compactor) (age : AgeLibrary) (localFile remoteFile :
    Except Err (ByteReader UInt8 Err)) :
    Except Err (ByteReader UInt8 Err) :=
  if c.localFileOpener then
    match localFile with
    | .ok f => .ok f
    | .error err =>
      if err.is .notExist then c.remoteReader age remoteFile
      else .error (.wrap "open local ltx file" err)
  else c.remoteReader age remoteFile

end Compactor

-- Round Trips

variable {age : AgeLibrary} {data plaintext : List UInt8} {rd : ByteReader UInt8 Err}

/-
  The bytes of an object: a ciphertext that the identities
  open, or a file that does not look like one.
-/
def AgeLibrary.ReadsAs (age : AgeLibrary) (identities : List String)
    (data plaintext : List UInt8) : Prop :=
  (identities ≠ [] ∧ ∃ recipients, age.opens identities recipients ∧
    age.encrypts recipients plaintext data) ∨
  data = plaintext ∧ plaintext.take ageStreamIntro.length ≠ ageStreamIntro

/- A reader that gives these bytes and ends well. -/
def Gives (bytes : List UInt8) (rd : ByteReader UInt8 Err) : Prop :=
  rd.content = bytes ∧ rd.stop = none

theorem decryptIfSealed_gives {identities} (hReads : age.ReadsAs identities data plaintext)
    (hGives : Gives data rd) :
    ∃ out, decryptIfSealed rd (age.decrypt identities) = .ok out ∧ Gives plaintext out := by
  rcases hGives with ⟨rfl, hStop⟩
  rcases decryptIfSealed_eq rd (age.decrypt identities) with ⟨full, hContent, hEnd, hEq⟩
  rw [hEq]
  rcases hReads with ⟨_, recipients, hOpens, hSealed⟩ | hPlain
  · rw [if_neg (not_not.mpr (age.intro_ok _ _ _ hSealed))]
    rw [← hContent] at hSealed
    exact age.decrypt_ok _ _ _ full hSealed hOpens (hEnd.trans hStop)
  · rw [hPlain.1, if_pos hPlain.2]
    exact ⟨full, rfl, hContent.trans hPlain.1, hEnd.trans hStop⟩

theorem AgeLibrary.ReadsAs.eq_of_nil (hReads : age.ReadsAs [] data plaintext) :
    data = plaintext := by
  rcases hReads with ⟨hNonempty, _⟩ | hPlain
  · exact absurd rfl hNonempty
  · exact hPlain.1

/- `Replica.OpenLTXFile` gives the plaintext. -/
theorem AgeConfig.openLTXFile_gives {cfg : AgeConfig}
    (hReads : age.ReadsAs cfg.ageIdentities data plaintext) (hGives : Gives data rd) :
    ∃ out, cfg.openLTXFile age (.ok rd) = .ok out ∧ Gives plaintext out := by
  unfold openLTXFile
  dsimp only
  by_cases hNone : cfg.ageIdentities = []
  · rw [if_pos hNone]
    rw [hNone] at hReads
    exact ⟨rd, rfl, hReads.eq_of_nil ▸ hGives⟩
  rw [if_neg hNone]
  rcases decryptIfSealed_gives hReads hGives with ⟨out, hOut, hPlain⟩
  rw [hOut]
  exact ⟨out, rfl, hPlain⟩

/- So does the compactor's reader of a source. -/
theorem Compactor.sourceReader_gives {c : Compactor} {localFile : Except Err (ByteReader UInt8 Err)}
    (hReads : age.ReadsAs c.ageIdentities data plaintext) (hGives : Gives data rd)
    (hCopy : ∀ f, localFile = .ok f → Gives plaintext f)
    (hMissing : ∀ err, localFile = .error err → err.is .notExist) :
    ∃ out, c.sourceReader age localFile (.ok rd) = .ok out ∧ Gives plaintext out := by
  have hRemote : ∃ out, c.remoteReader age (.ok rd) = .ok out ∧ Gives plaintext out := by
    unfold remoteReader
    dsimp only
    by_cases hSome : c.ageIdentities ≠ []
    · rw [if_pos hSome]
      rcases decryptIfSealed_gives hReads hGives with ⟨out, hOut, hPlain⟩
      rw [hOut]
      exact ⟨out, rfl, hPlain⟩
    · rw [if_neg hSome]
      rw [not_not.mp hSome] at hReads
      exact ⟨rd, rfl, hReads.eq_of_nil ▸ hGives⟩
  unfold sourceReader
  split
  · cases hLocal : localFile with
    | ok f => exact ⟨f, rfl, hCopy f hLocal⟩
    | error err =>
      dsimp only
      rw [if_pos (hMissing err hLocal)]
      exact hRemote
  · exact hRemote

end Replicate
