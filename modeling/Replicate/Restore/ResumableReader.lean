import Replicate.LTX.FileInfo

/-
  `ResumableReader`, which a restore reads its LTX files
  through.

  An open stream knows which byte of its object comes next.
  What the storage does is a schedule: for each opening
  whether it fails, and for each read how many bytes come at
  most and which error comes with them. So a stream may stop
  early, return bytes together with an error and report the
  end of the file at any point. It never returns a byte that
  is not the next one of the object.

  Main declarations:
    * `ResumableReader.readLoop_delivers`
    * `resumable_reader_exact`
-/

-- Streams

namespace Replicate

open List

/- An error of a stream, or the end of the file. -/
inductive ReadError where
  | eof
  | failed (err : Err)
  deriving DecidableEq, Repr

/- What a stream does in one call. -/
structure Reply where
  count : Nat
  err : Option ReadError

/-
  The storage: its objects by level and TXID range, and what
  it does in the calls to come.
-/
structure LTXFileOpener (B : Type) where
  object : Nat → Nat → Nat → List B
  openErr : Nat → Option Err
  reply : Nat → Reply

/- The calls that were made of the storage. -/
structure Calls where
  opens : Nat
  reads : Nat
  deriving DecidableEq, Repr

/- An open stream: the object, and the next byte of it. -/
structure Stream (B : Type) where
  object : List B
  pos : Nat

/- What one call of `Stream.read` returns. -/
structure Received (B : Type) where
  bytes : List B
  err : Option ReadError
  stream : Stream B

def Stream.read {B : Type} (rc : Stream B) (room : Nat) (reply : Reply) : Received B :=
  let bytes := (rc.object.drop rc.pos).take (min reply.count room)
  ⟨bytes, reply.err, { rc with pos := rc.pos + bytes.length }⟩

-- The Reader

/- A size of zero stands for an unknown one. -/
structure ResumableReader (B : Type) where
  level : Nat
  minTXID : Nat
  maxTXID : Nat
  size : Nat
  offset : Nat
  rc : Option (Stream B)

/- `resumableReaderMaxRetries` -/
def resumableReaderMaxRetries : Nat := 3

/- What one call of `Read` returns, and what it leaves. -/
structure ReadAnswer (B : Type) where
  bytes : List B
  err : Option ReadError
  reader : ResumableReader B
  calls : Calls

namespace ResumableReader

variable {B : Type}

/- The reader of a restore, with the stream opened at zero. -/
def new (client : LTXFileOpener B) (level minTXID maxTXID size : Nat) : ResumableReader B :=
  ⟨level, minTXID, maxTXID, size, 0, some ⟨client.object level minTXID maxTXID, 0⟩⟩

def reopenErr (r : ResumableReader B) (err : Err) : Err :=
  .wrap ("reopen ltx file at offset " ++ toString r.offset) err

def maxRetriesErr (r : ResumableReader B) : Err :=
  .text ("max retries exceeded reading ltx file (level=" ++ toString r.level ++
    ", min=" ++ TXID.format r.minTXID ++ ", max=" ++ TXID.format r.maxTXID ++
    ", offset=" ++ toString r.offset ++ ")")

/- The stream that is open, or a new one at the offset. -/
def reopen (r : ResumableReader B) (client : LTXFileOpener B) (c : Calls) :
    Except Err (Stream B) × Calls :=
  match r.rc with
  | some rc => (.ok rc, c)
  | none =>
    match client.openErr c.opens with
    | some err => (.error err, { c with opens := c.opens + 1 })
    | none =>
      (.ok ⟨client.object r.level r.minTXID r.maxTXID, r.offset⟩, { c with opens := c.opens + 1 })

/- The reader after a read of its stream. -/
def advance (r : ResumableReader B) (got : Received B) : ResumableReader B :=
  { r with offset := r.offset + got.bytes.length, rc := some got.stream }

/- The dead stream is closed. -/
def closed (r : ResumableReader B) : ResumableReader B :=
  { r with rc := none }

/- The attempts of one `Read` that are left. -/
def readLoop (client : LTXFileOpener B) (room : Nat) :
    Nat → ResumableReader B → Calls → ReadAnswer B
| 0, r, c => ⟨[], some (.failed r.maxRetriesErr), r, c⟩
| attempts + 1, r, c =>
  match r.reopen client c with
  | (.error err, c) => ⟨[], some (.failed (r.reopenErr err)), r, c⟩
  | (.ok rc, c) =>
    let got := rc.read room (client.reply c.reads)
    let r := r.advance got
    let c := { c with reads := c.reads + 1 }
    -- The bytes that came are handed out before another attempt.
    let retry :=
      if 0 < got.bytes.length then ⟨got.bytes, none, r.closed, c⟩
      else readLoop client room attempts r.closed c
    match got.err with
    | none => ⟨got.bytes, none, r, c⟩
    | some .eof => if 0 < r.size ∧ r.offset < r.size then retry else ⟨got.bytes, some .eof, r, c⟩
    | some (.failed _) => retry

def read (r : ResumableReader B) (client : LTXFileOpener B) (room : Nat) (c : Calls) :
    ReadAnswer B :=
  readLoop client room (resumableReaderMaxRetries + 1) r c

/- A caller that reads with one buffer after the other. -/
def calls (client : LTXFileOpener B) : ResumableReader B → Calls → List Nat → List (ReadAnswer B)
| _, _, [] => []
| r, c, room :: rooms =>
  let answer := r.read client room c
  answer :: calls client answer.reader answer.calls rooms

/- The bytes that some calls returned. -/
def delivered (answers : List (ReadAnswer B)) : List B :=
  answers.flatMap (·.bytes)

-- One Call

variable {client : LTXFileOpener B} {object done : List B} {r : ResumableReader B}

/-
  The reader is in step: what it returned so far are the
  bytes up to its offset, and its stream continues there.
-/
structure InStep (client : LTXFileOpener B) (object done : List B) (r : ResumableReader B) :
    Prop where
  named : client.object r.level r.minTXID r.maxTXID = object
  upTo : done = object.take r.offset
  within : r.offset ≤ object.length
  stream : ∀ rc, r.rc = some rc → rc = ⟨object, r.offset⟩

theorem InStep.closed (hStep : InStep client object done r) : InStep client object done r.closed :=
  ⟨hStep.named, hStep.upTo, hStep.within, nofun⟩

theorem InStep.reopen {c c' rc} (hStep : InStep client object done r)
    (hOpen : r.reopen client c = (.ok rc, c')) : rc = ⟨object, r.offset⟩ ∧ c'.reads = c.reads := by
  unfold ResumableReader.reopen at hOpen
  split at hOpen
  · rename_i rc' hRc
    cases hOpen
    exact ⟨hStep.stream _ hRc, rfl⟩
  split at hOpen
  · cases hOpen
  · cases hOpen
    exact ⟨congrArg (Stream.mk · r.offset) hStep.named, rfl⟩

theorem InStep.advance (hStep : InStep client object done r) (room : Nat) (reply : Reply) {got}
    (hGot : got = Stream.read ⟨object, r.offset⟩ room reply) :
    InStep client object (done ++ got.bytes) (r.advance got) := by
  have hBytes : got.bytes = (object.drop r.offset).take (min reply.count room) := by
    rw [hGot]
    rfl
  have hLength : got.bytes.length ≤ object.length - r.offset := by
    rw [hBytes, length_take, length_drop]
    exact Nat.min_le_right _ _
  have hTake : got.bytes = (object.drop r.offset).take got.bytes.length := by
    rw [hBytes, length_take, take_eq_take_min]
  refine ⟨hStep.named, ?_, ?_, ?_⟩
  · calc done ++ got.bytes
        = object.take r.offset ++ (object.drop r.offset).take got.bytes.length := by
          rw [← hTake, hStep.upTo]
      _ = object.take (r.offset + got.bytes.length) := (take_add ..).symm
  · have hOffset := hStep.within
    change r.offset + got.bytes.length ≤ object.length
    omega
  · intro rc hRc
    cases hRc
    rw [hGot]
    rfl

/- What a call has done when it returns. -/
structure Delivers (client : LTXFileOpener B) (object done : List B) (r : ResumableReader B)
    (c : Calls) (attempts : Nat) (answer : ReadAnswer B) : Prop where
  inStep : InStep client object (done ++ answer.bytes) answer.reader
  size : answer.reader.size = r.size
  reads : answer.calls.reads ≤ c.reads + attempts
  eof : answer.err = some .eof → 0 < r.size → r.size ≤ answer.reader.offset

theorem readLoop_delivers (hStep : InStep client object done r) (room attempts : Nat) (c : Calls) :
    Delivers client object done r c attempts (readLoop client room attempts r c) := by
  induction attempts generalizing r c with
  | zero => exact ⟨by simpa [readLoop] using hStep, rfl, Nat.le_refl _, nofun⟩
  | succ attempts ih =>
    unfold readLoop
    split
    · rename_i err c' hOpen
      refine ⟨by simpa using hStep, rfl, ?_, nofun⟩
      have hReads : c'.reads = c.reads := by
        unfold reopen at hOpen
        split at hOpen
        · cases hOpen
        split at hOpen
        · cases hOpen
          rfl
        · cases hOpen
      dsimp only
      omega
    · rename_i rc c' hOpen
      obtain ⟨rfl, hReads⟩ := hStep.reopen hOpen
      generalize hGot : Stream.read ⟨object, r.offset⟩ room (client.reply c'.reads) = got
      have hNext := hStep.advance room (client.reply c'.reads) hGot.symm
      -- Closing the stream returns the bytes, or tries again with none.
      have hRetry : Delivers client object done r c (attempts + 1) (if 0 < got.bytes.length then
        ⟨got.bytes, none, (r.advance got).closed, { c' with reads := c'.reads + 1 }⟩
          else
            readLoop client room attempts (r.advance got).closed
              { c' with reads := c'.reads + 1 }) := by
        split
        · exact ⟨hNext.closed, rfl, by dsimp only; omega, nofun⟩
        rename_i hNone
        have hNil : got.bytes = [] := eq_nil_of_length_eq_zero (by omega)
        rw [hNil, append_nil] at hNext
        have hRest := ih hNext.closed { c' with reads := c'.reads + 1 }
        refine ⟨hRest.inStep, hRest.size, ?_, hRest.eof⟩
        have hLe := hRest.reads
        dsimp only at hLe
        omega
      dsimp only
      split
      · exact ⟨hNext, rfl, by dsimp only; omega, nofun⟩
      · split
        · exact hRetry
        · rename_i hAll
          refine ⟨hNext, rfl, by dsimp only; omega, fun _ hSize => ?_⟩
          exact Nat.le_of_not_lt fun hLt => hAll ⟨hSize, hLt⟩
      · exact hRetry

theorem new_inStep (client : LTXFileOpener B) (level minTXID maxTXID size : Nat) :
    InStep client (client.object level minTXID maxTXID) [] (new client level minTXID maxTXID size) :=
  ⟨rfl, rfl, Nat.zero_le _, fun _ hRc => (Option.some.inj hRc).symm⟩

-- A Sequence Of Calls

theorem calls_deliver (hStep : InStep client object done r) (c : Calls) (rooms : List Nat)
    {before after answer} (hCalls : calls client r c rooms = before ++ answer :: after) :
    done ++ delivered (before ++ [answer]) = object.take answer.reader.offset ∧
      (answer.err = some .eof → 0 < r.size → r.size ≤ answer.reader.offset) := by
  induction rooms generalizing r c done before with
  | nil => simp [calls] at hCalls
  | cons room rooms ih =>
    have hFirst := readLoop_delivers hStep room (resumableReaderMaxRetries + 1) c
    cases before with
    | nil =>
      obtain ⟨rfl, -⟩ := List.cons.inj hCalls
      refine ⟨?_, hFirst.eof⟩
      simpa [delivered, ResumableReader.read] using hFirst.inStep.upTo
    | cons first before =>
      obtain ⟨rfl, hRest⟩ := List.cons.inj hCalls
      obtain ⟨hDone, hEof⟩ := ih hFirst.inStep _ hRest
      rw [hFirst.size] at hEof
      refine ⟨?_, hEof⟩
      simpa [delivered, ResumableReader.read] using hDone

theorem calls_reads (hStep : InStep client object done r) (c : Calls) (rooms : List Nat) :
    List.IsChain (fun n m => m ≤ n + 4)
      (c.reads :: (calls client r c rooms).map (·.calls.reads)) := by
  induction rooms generalizing r c done with
  | nil => exact List.IsChain.singleton _
  | cons room rooms ih =>
    have hFirst := readLoop_delivers hStep room (resumableReaderMaxRetries + 1) c
    exact List.IsChain.cons_cons hFirst.reads (ih hFirst.inStep _)

end ResumableReader

open ResumableReader in
theorem resumable_reader_exact {B : Type} (client : LTXFileOpener B)
    (level minTXID maxTXID size : Nat)
    (hSize : size = (client.object level minTXID maxTXID).length ∨ size = 0) (c : Calls)
    (rooms : List Nat) : let object := client.object level minTXID maxTXID
    let answers := calls client (new client level minTXID maxTXID size) c rooms
    delivered answers <+: object ∧ (∀ before answer after, answers = before ++ answer :: after →
      delivered (before ++ [answer]) = object.take answer.reader.offset ∧
      (answer.err = some .eof → 0 < size → delivered (before ++ [answer]) = object)) ∧
      List.IsChain (fun n m => m ≤ n + 4) (c.reads :: answers.map (·.calls.reads)) := by
  intro object answers
  have hNew := new_inStep client level minTXID maxTXID size
  have hEach : ∀ before answer after, answers = before ++ answer :: after →
    delivered (before ++ [answer]) = object.take answer.reader.offset ∧
    (answer.err = some .eof → 0 < size → delivered (before ++ [answer]) = object) := by
    intro before answer after hAnswers
    obtain ⟨hDone, hEof⟩ := calls_deliver hNew c rooms hAnswers
    rw [nil_append] at hDone
    refine ⟨hDone, fun hErr hPos => ?_⟩
    have hFull := hEof hErr hPos
    rw [hDone]
    apply take_of_length_le
    cases hSize with
    | inl hLength => exact hLength ▸ hFull
    | inr hZero => exact absurd hPos (by omega)
  refine ⟨?_, hEach, calls_reads hNew c rooms⟩
  rcases eq_nil_or_concat answers with hNil | ⟨before, answer, hLast⟩
  · rw [hNil]
    exact nil_prefix
  · rw [hLast, concat_eq_append, (hEach before answer [] (by simpa using hLast)).1]
    exact take_prefix _ _

/-
  A storage whose first stream breaks after a byte, and whose
  second one ends too early.
-/
def flakyClient : LTXFileOpener Nat where
  object _ _ _ := [7, 8, 9]
  openErr _ := none
  reply
    | 0 => ⟨1, some (.failed (.text "connection reset"))⟩
    | 1 => ⟨0, some .eof⟩
    | _ => ⟨2, some .eof⟩

open ResumableReader in
theorem flakyClient_delivers :
    let answers := calls flakyClient (new flakyClient 0 1 1 3) ⟨0, 0⟩ [2, 2]
    delivered answers = [7, 8, 9] ∧ delivered answers <+: flakyClient.object 0 1 1 :=
  ⟨by decide, (resumable_reader_exact flakyClient 0 1 1 3 (.inl rfl) ⟨0, 0⟩ [2, 2]).1⟩

end Replicate
