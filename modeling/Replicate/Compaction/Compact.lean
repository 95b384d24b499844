import Replicate.LTX.Store
import Replicate.Lib.Pipe
import Replicate.Lib.Traversal

/-
  `Compactor.Compact`: merging the files of a level into
  one file of the next level.

  A goroutine merges the source files into a pipe, through
  an age writer when recipients are configured, while the
  replica client uploads what it reads from the pipe. The
  answers of the calls that the function makes are the
  fields of `CompactEnv`: the replica client's, the age
  library's and the LTX library's.

  The client stores the object, and succeeds, exactly when
  its reader ends with end of file.
-/

-- The Compactor And Its Environment

namespace Replicate

/-
  The fields of a `Compactor` that `Compact` reads. The
  cache accessors and the local file opener are optional
  functions in the source.
-/
structure Compactor where
  cacheGetter : Bool
  cacheSetter : Bool
  localFileOpener : Bool
  ageRecipients : List String
  ageIdentities : List String
  requireEncryption : Bool

/- The replica's objects and the cached max-file infos. -/
structure CompactorState where
  objects : Nat → List Object
  cache : Nat → Option FileInfo

/- The metadata of the objects, level by level. -/
def CompactorState.content (s : CompactorState) : Content :=
  fun level => (s.objects level).map Object.info

/-
  One merge by the LTX library: whether its compactor is
  refused, what it writes, and whether it then fails. A
  source that fails part way, inputs that do not fit and a
  cancelled context all show as an error here.
-/
structure MergeRun where
  newErr : Option Err
  chunks : List (List UInt8)
  err : Option Err

/-
  An age writer: the header it writes first, what it writes
  for the plaintext chunks, and what closing it writes or
  the error closing it returns. Closing it does not close
  the writer below.
-/
structure AgeWriter where
  header : List (List UInt8)
  body : List (List UInt8) → List (List UInt8)
  close : Except Err (List (List UInt8))

/- What closing an age writer writes. -/
def AgeWriter.final (ew : AgeWriter) : List (List UInt8) :=
  match ew.close with
  | .ok chunks => chunks
  | .error _ => []

/- The answers of the calls that `Compact` makes. -/
structure CompactEnv where
  dstFault : ListFault
  srcFault : ListFault
  openLocal : FileInfo → Option Err
  openRemote : FileInfo → Option Err
  decrypt : FileInfo → Option Err
  encrypt : Except Err AgeWriter
  merge : List FileInfo → MergeRun
  createdAt : Int

namespace Compactor

-- Looking Up The Destination

/- The zero value of `ltx.FileInfo`. -/
def zeroInfo : FileInfo := ⟨0, 0, 0, 0, 0⟩

/- The first listed file with the greatest end. -/
def maxInfo (items : List FileInfo) : FileInfo :=
  items.foldl (fun info item =>
    if info.maxTXID < item.maxTXID then item else info)
    zeroInfo

theorem maxInfo_eq_or_mem (items : List FileInfo) :
    maxInfo items = zeroInfo ∨ maxInfo items ∈ items := by
  have hPick : maxInfo items = zeroInfo ∨ ∃ a ∈ items, maxInfo items = a := by
    apply Traversal.foldl_eq_or_mem
    intro b a
    split
    · exact Or.inr rfl
    · exact Or.inl rfl
  rcases hPick with hZero | ⟨f, hf, hEq⟩
  · exact Or.inl hZero
  · exact Or.inr (hEq ▸ hf)

theorem le_maxInfo {items f} (hMem : f ∈ items) : f.maxTXID ≤ (maxInfo items).maxTXID := by
  refine (Traversal.le_foldl ?_ ?_ zeroInfo items).2 f hMem
  · intro info item
    split
    · omega
    · exact Nat.le_refl _
  · intro info item
    split
    · exact Nat.le_refl _
    · omega

/- Set the cache entry of a level. -/
def setCache (cache : Nat → Option FileInfo) (level : Nat)
    (info : FileInfo) : Nat → Option FileInfo :=
  fun l => if l = level then some info else cache l

/-
  `MaxLTXFileInfo`: the cached info, or the greatest one
  listed, which is then cached, even when reading the
  listing failed in the end.
-/
def maxLTXFileInfo (c : Compactor) (fault : ListFault) (content : Content)
    (cache : Nat → Option FileInfo) (level : Nat) :
    Except Err FileInfo × (Nat → Option FileInfo) :=
  match (if c.cacheGetter then cache level else none) with
  | some info => (.ok info, cache)
  | none =>
    match ltxFiles content fault level 0 with
    | .error err => (.error err, cache)
    | .ok itr =>
      let info := maxInfo itr.items
      let filled :=
        if c.cacheSetter ∧ 0 < info.maxTXID then setCache cache level info else cache
      match itr.err with
      | some err => (.error err, filled)
      | none => (.ok info, filled)

/- The lookup of the destination level by `Compact`. -/
def lookup (c : Compactor) (env : CompactEnv) (s : CompactorState) (dstLevel : Nat) :
    Except Err FileInfo × (Nat → Option FileInfo) :=
  c.maxLTXFileInfo env.dstFault s.content s.cache dstLevel

-- Opening The Sources

/- Open one source file, locally if there is a copy. -/
def openRemoteSource (c : Compactor) (env : CompactEnv) (info : FileInfo) : Except Err FileInfo :=
  match env.openRemote info with
  | some err => .error (.wrap "open ltx file" err)
  | none =>
    if c.ageIdentities ≠ [] then
      match env.decrypt info with
      | some err => .error (.wrap "age decrypt ltx file" err)
      | none => .ok info
    else .ok info

def openSource (c : Compactor) (env : CompactEnv) (info : FileInfo) : Except Err FileInfo :=
  if c.localFileOpener then
    match env.openLocal info with
    | none => .ok info
    | some err =>
      if err.is .notExist then c.openRemoteSource env info
      else .error (.wrap "open local ltx file" err)
  else c.openRemoteSource env info

/- The TXID range of the sources, as the loop computes it. -/
def sourceRange (items : List FileInfo) : Nat × Nat :=
  items.foldl (fun (r : Nat × Nat) info =>
    (if r.1 = 0 ∨ info.minTXID < r.1 then info.minTXID else r.1,
      if r.2 = 0 ∨ r.2 < info.maxTXID then info.maxTXID else r.2))
    (0, 0)

/-
  The part of `Compact` before the pipe: look up the
  destination, list the sources after it and open them. The
  source loop does not look at the listing's read error.
-/
def openSources (c : Compactor) (env : CompactEnv) (s : CompactorState) (dstLevel : Nat) :
    Except Err (List FileInfo) :=
  match (c.lookup env s dstLevel).1 with
  | .error err => .error (.wrap "cannot determine max ltx file for destination level" err)
  | .ok prevMaxInfo =>
    let seekTXID := TXID.next prevMaxInfo.maxTXID
    match ltxFiles s.content env.srcFault (dstLevel - 1) seekTXID with
    | .error err => .error (.wrap ("source ltx files after " ++ TXID.format seekTXID) err)
    | .ok itr =>
      match itr.items.mapM (c.openSource env) with
      | .error err => .error err
      | .ok [] => .error (.sentinel .noCompaction)
      | .ok rdrs => .ok rdrs

-- The Pipe

/-
  What the goroutine does to the pipe. Without recipients
  the writer that is closed after a failure is the pipe
  itself, so the error comes after end of file.
-/
def producer (c : Compactor) (env : CompactEnv) (rdrs : List FileInfo) : List (Pipe.Op UInt8 Err) :=
  let run := env.merge rdrs
  if c.ageRecipients = [] then
    match run.newErr with
    | some err => [.close none, .close (some (.wrap "new ltx compactor" err))]
    | none =>
      run.chunks.map .write ++ match run.err with
        | some err => [.close none, .close (some err)]
        | none => [.close none]
  else
    match env.encrypt with
    | .error err => [.close (some (.wrap "age encrypt" err))]
    | .ok ew =>
      ew.header.map .write ++ match run.newErr with
        | some err => ew.final.map .write ++ [.close (some (.wrap "new ltx compactor" err))]
        | none =>
          (ew.body run.chunks).map .write ++ match run.err with
            | some err => ew.final.map .write ++ [.close (some err)]
            | none =>
              match ew.close with
              | .error err => [.close (some err)]
              | .ok chunks => chunks.map .write ++ [.close none]

/- Store the uploaded object and its cache entry. -/
def stored (c : Compactor) (s : CompactorState) (cache : Nat → Option FileInfo)
    (dstLevel : Nat) (obj : Object) : CompactorState where
  objects level :=
    if level = dstLevel then putObject obj (s.objects level) else s.objects level
  cache := if c.cacheSetter then setCache cache dstLevel obj.info else cache

/- The object that the client builds from what it read. -/
def uploaded (env : CompactEnv) (dstLevel : Nat) (rdrs : List FileInfo)
    (data : List UInt8) : Object where
  info :=
    { level := dstLevel
      minTXID := (sourceRange rdrs).1
      maxTXID := (sourceRange rdrs).2
      size := data.length
      createdAt := env.createdAt }
  data := data

/-
  `Compact`, with every schedule of the goroutine and the
  uploading client. The verification of the level after a
  success only logs, so it is left out.
-/
inductive Compacts (c : Compactor) (env : CompactEnv) (s : CompactorState) (dstLevel : Nat) :
    Except Err FileInfo → CompactorState → Prop where
  | encryptionRequired (hRequired : c.requireEncryption = true) (hNone : c.ageRecipients = []) :
    Compacts c env s dstLevel (.error (.sentinel .encryptionRequired)) s
  | notOpened {err} (hAllowed : ¬ (c.requireEncryption = true ∧ c.ageRecipients = []))
    (hOpen : c.openSources env s dstLevel = .error err) :
    Compacts c env s dstLevel (.error err) { s with
      cache := (c.lookup env s dstLevel).2 }
  | writeFailed {rdrs received err}
    (hAllowed : ¬ (c.requireEncryption = true ∧ c.ageRecipients = []))
    (hOpen : c.openSources env s dstLevel = .ok rdrs)
    (hPipe : Pipe.Delivers (c.producer env rdrs) received (some err)) :
    Compacts c env s dstLevel (.error (.wrap "write ltx file" err)) { s with
      cache := (c.lookup env s dstLevel).2 }
  | written {rdrs received} (hAllowed :
    ¬ (c.requireEncryption = true ∧ c.ageRecipients = []))
    (hOpen : c.openSources env s dstLevel = .ok rdrs)
    (hPipe : Pipe.Delivers (c.producer env rdrs) received none) :
      Compacts c env s dstLevel (.ok (uploaded env dstLevel rdrs received).info)
        (c.stored s (c.lookup env s dstLevel).2 dstLevel (uploaded env dstLevel rdrs received))

end Compactor

end Replicate
