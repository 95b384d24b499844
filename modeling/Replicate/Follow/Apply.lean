import Mathlib.Logic.Relation
import Replicate.Lib.LayeredFile
import Replicate.LTX.Library

/-
  One poll of follow mode: `applyNewLTXFiles`.

  A poll lists level 0 after the current TXID and writes
  the listed LTX files into the database file. A gap before
  a listed file is filled from the levels above. The replica
  does not change during a poll. Every call can fail, and a
  failed poll leaves the file as far as it got: a page may
  be written in part. A partly written page behind the end
  of the file counts as a whole page, of which the rest is
  zero.

  When a listing fails at its end, the error of closing it
  is left out.

  Main declarations:
    * `applyNewLTXFiles_trace`
-/

-- Pages

namespace Replicate

open LayeredFile Relation TXID List

namespace Follow

open PageHistory

/- The bytes of a page. -/
abbrev Page := List UInt8

/- The bytes of page 1 that a follower sets itself. -/
def OwnByte (i : Nat) : Prop :=
  i = 18 ∨ i = 19 ∨ (24 ≤ i ∧ i < 28)

instance (i : Nat) : Decidable (OwnByte i) := by
  unfold OwnByte
  infer_instance

/- Set the journal mode and a random schema cookie. -/
def patchHeader (rnd : Nat → UInt8) (data : Page) : Page :=
  data.mapIdx (fun i b =>
    if i = 18 ∨ i = 19 then 0x01
    else if 24 ≤ i ∧ i < 28 then rnd i
    else b)

/- What is written for a decoded page. -/
def patched (rnd : Nat → UInt8) (e : Nat × Page) : Nat × Page :=
  if e.1 = 1 ∧ 28 ≤ e.2.length then (e.1, patchHeader rnd e.2) else e

/- A page without the bytes that a follower sets. -/
def visible (pgno : Nat) (data : Page) : Page :=
  if pgno = 1 then data.mapIdx (fun i b => if OwnByte i then 0 else b)
  else data

/- A page of which only the first bytes were written. -/
def torn (kept : Nat) (new old : Page) : Page :=
  new.take kept ++ old.drop kept

theorem patched_fst (rnd : Nat → UInt8) (e : Nat × Page) : (patched rnd e).1 = e.1 := by
  unfold patched
  split
  · rfl
  · rfl

theorem visible_patched (rnd : Nat → UInt8) (e : Nat × Page) :
    visible e.1 (patched rnd e).2 = visible e.1 e.2 := by
  unfold patched
  split
  · rename_i hFirst
    unfold visible
    rw [if_pos hFirst.1, if_pos hFirst.1]
    apply ext_getElem?
    intro i
    unfold patchHeader
    rw [getElem?_mapIdx, getElem?_mapIdx, getElem?_mapIdx, Option.map_map]
    congr 1
    funext b
    simp only [Function.comp_apply]
    by_cases hOwn : OwnByte i
    · rw [if_pos hOwn, if_pos hOwn]
    · rw [if_neg hOwn, if_neg hOwn]
      unfold OwnByte at hOwn
      rw [if_neg (by omega), if_neg (by omega)]
  · rfl

theorem visible_torn {pgno : Nat} {new old : Page} (hSame : visible pgno new = visible pgno old)
    (kept : Nat) : visible pgno (torn kept new old) = visible pgno new := by
  unfold visible torn at *
  by_cases hFirst : pgno = 1
  · simp only [if_pos hFirst] at hSame ⊢
    have hLength := congrArg List.length hSame
    rw [length_mapIdx, length_mapIdx] at hLength
    apply ext_getElem?
    intro i
    have hByte := congrArg (fun l => l[i]?) hSame
    rw [getElem?_mapIdx, getElem?_mapIdx] at hByte
    rw [getElem?_mapIdx, getElem?_mapIdx]
    by_cases hKept : i < (new.take kept).length
    · rw [getElem?_append_left hKept]
      rw [length_take] at hKept
      rw [getElem?_take_of_lt (by omega)]
    rw [getElem?_append_right (by omega), getElem?_drop]
    rw [length_take] at hKept ⊢
    by_cases hEnd : i < new.length
    · have hIndex : kept + (i - min kept new.length) = i := by omega
      rw [hIndex, hByte]
    · rw [getElem?_eq_none (by omega), getElem?_eq_none (by omega)]
  · simp only [if_neg hFirst] at hSame ⊢
    rw [hSame, take_append_drop]

-- Applying One LTX File

/-
  The call of `applyLTXFile` that fails, or at which the
  process is stopped. Pages are counted from zero, and a
  write that fails may have written some bytes.
-/
inductive ApplyFault where
  | none
  | opening (err : Err)
  | header (err : Err)
  | lock (err : Err)
  | decode (page : Nat) (err : Err)
  | write (page kept : Nat) (err : Err)
  | truncate (err : Err)
  | close (err : Err)
  | sync (err : Err)

/- `applyLTXFile`: the error, and the file afterwards. -/
def applyLTXFile (zero : Page) (rnd : Nat → UInt8) (fault : ApplyFault)
    (ltx : Layer Page) (file : List Page) : Option Err × List Page :=
  let writes := (pages ltx).map (patched rnd)
  let written := writeAll zero writes file
  let sized :=
    if 0 < ltx.commit then PagedFile.resize zero ltx.commit written else written
  match fault with
  | .none => (none, sized)
  | .opening err => (some (.wrap "open ltx file" err), file)
  | .header err => (some (.wrap "decode header" err), file)
  | .lock err => (some (.wrap "acquire exclusive lock" err), file)
  | .decode page err => (some (.wrap "decode page" err), writeAll zero (writes.take page) file)
  | .write page kept err =>
    match writes[page]? with
    | none => (none, sized)
    | some e =>
      let before := writeAll zero (writes.take page) file
      (some (.wrap ("write page " ++ toString e.1) err), if kept = 0 then
        before
        else PagedFile.writePage zero (e.1 - 1) (torn kept e.2 (before.getD (e.1 - 1) zero)) before)
  | .truncate err =>
    if 0 < ltx.commit then (some (.wrap "truncate" err), written) else (none, sized)
  | .close err => (some (.wrap "close decoder" err), sized)
  | .sync err => (some err, sized)

-- Polling

/-
  The answers of the calls that a poll makes. The levels
  above 0 are listed at a current TXID.
-/
structure FollowEnv where
  level0Fault : ListFault
  gapFault : Nat → Nat → ListFault
  ltx : FileInfo → Layer Page
  fault : FileInfo → ApplyFault
  rnd : FileInfo → Nat → UInt8

/-
  The file, `currentTXID`, and the LTX files applied so
  far with the current TXID of each.
-/
structure PollState where
  file : List Page
  current : Nat
  applied : List (Nat × FileInfo)

section Poll

variable (env : FollowEnv) (zero : Page) (content : Content)

/- Apply an LTX file and move on to its end. -/
def PollState.apply (st : PollState) (info : FileInfo) : Option Err × PollState :=
  let out := applyLTXFile zero (env.rnd info) (env.fault info) (env.ltx info) st.file
  let applied := st.applied ++ [(st.current, info)]
  match out.1 with
  | some err => (some err, ⟨out.2, st.current, applied⟩)
  | none => (none, ⟨out.2, info.maxTXID, applied⟩)

def applyError (what : String) (info : FileInfo) (err : Err) : Err :=
  .wrap (what ++ " (level=" ++ toString info.level ++ ", min=" ++
    TXID.format info.minTXID ++ ", max=" ++
    TXID.format info.maxTXID ++ ")")
    err

/- How the loop over one level ends. -/
inductive GapEnd where
  | bridged
  | stopped
  | exhausted
  | failed (err : Err)

/- The loop of `fillFollowGap` over the files of a level. -/
def gapLoop (gapMinTXID : Nat) : List FileInfo → PollState → GapEnd × PollState
| [], st => (.exhausted, st)
| info :: items, st =>
  if TXID.next st.current < info.minTXID then (.stopped, st)
  else if info.maxTXID ≤ st.current then gapLoop gapMinTXID items st
  else
    match st.apply env zero info with
    | (some err, st) => (.failed (applyError "apply gap-fill ltx file" info err), st)
    | (none, st) =>
      if gapMinTXID ≤ TXID.next st.current then (.bridged, st) else gapLoop gapMinTXID items st

/- `fillFollowGap`, on the levels that are left. -/
def fillFollowGap (afterTXID gapMinTXID : Nat) : List Nat → PollState → Option Err × PollState
| [], st => (none, st)
| level :: levels, st =>
  match ltxFiles content (env.gapFault afterTXID level) level 0 with
  | .error err => (some (.wrap ("list level " ++ toString level ++ " ltx files") err), st)
  | .ok itr =>
    match gapLoop env zero gapMinTXID itr.items st with
    | (.failed err, st) => (some err, st)
    | (.bridged, st) => (none, st)
    | (.stopped, st) =>
      if afterTXID < st.current then (none, st) else fillFollowGap afterTXID gapMinTXID levels st
    | (.exhausted, st) =>
      match itr.err with
      | some err => (some (.wrap ("iterate level " ++ toString level ++ " ltx files") err), st)
      | none =>
        if afterTXID < st.current then (none, st) else fillFollowGap afterTXID gapMinTXID levels st

/- The levels above 0 and below the snapshots. -/
def gapLevels : List Nat :=
  range' 1 (snapshotLevel - 1)

/-
  The loop over level 0. It returns an answer of the poll,
  or none when all files were seen.
-/
def level0Loop : List FileInfo → PollState → Option (Option Err) × PollState
| [], st => (none, st)
| info :: items, st =>
  let bridged :=
    if TXID.next st.current < info.minTXID then
      fillFollowGap env zero content st.current info.minTXID gapLevels st
    else (none, st)
  match bridged with
  | (some err, st) => (some (some err), st)
  | (none, st) =>
    if info.maxTXID ≤ st.current then level0Loop items st
    else if TXID.next st.current < info.minTXID then (some none, st)
    else
      match st.apply env zero info with
      | (some err, st) => (some (some (applyError "apply ltx file" info err)), st)
      | (none, st) => level0Loop items st

def applyNewLTXFiles (afterTXID : Nat) (file : List Page) : Option Err × PollState :=
  let st : PollState := ⟨file, afterTXID, []⟩
  match ltxFiles content env.level0Fault 0 (TXID.next afterTXID) with
  | .error err => (some (.wrap "list level 0 ltx files" err), st)
  | .ok itr =>
    match level0Loop env zero content itr.items st with
    | (some err, st) => (err, st)
    | (none, st) =>
      match itr.err with
      | some err => (some (.wrap "iterate level 0 ltx files" err), st)
      | none =>
        if itr.items = [] then
          fillFollowGap env zero content st.current (TXID.next st.current) gapLevels st
        else (none, st)

end Poll

-- What A Poll Does

section Trace

variable {env : FollowEnv} {zero : Page} {content : Content} {st st' : PollState}
variable {gapMinTXID : Nat} {items : List FileInfo} {afterTXID : Nat} {err : Option Err}

/-
  A file of levels 0 to 8 is applied that begins by the
  next TXID and ends after the current one.
-/
def AppliesFile (env : FollowEnv) (zero : Page) (content : Content)
    (err : Option Err) (st st' : PollState) : Prop :=
  ∃ level < snapshotLevel, ∃ info ∈ content level,
    info.minTXID ≤ st.current + 1 ∧ st.current < info.maxTXID ∧ st.apply env zero info = (err, st')

/-
  Files are applied one after the other. If the poll fails,
  applying one more may have failed.
-/
def Trace (env : FollowEnv) (zero : Page) (content : Content) (st : PollState)
    (failed : Bool) (st' : PollState) : Prop :=
  ∃ mid, ReflTransGen (AppliesFile env zero content none) st mid ∧
    (st' = mid ∨ failed = true ∧ ∃ err, AppliesFile env zero content (some err) mid st')

theorem Trace.refl (st : PollState) (failed : Bool) : Trace env zero content st failed st :=
  ⟨st, ReflTransGen.refl, Or.inl rfl⟩

theorem Trace.steps {mid} {failed : Bool}
    (hSteps : ReflTransGen (AppliesFile env zero content none) st mid)
    (hTrace : Trace env zero content mid failed st') : Trace env zero content st failed st' := by
  rcases hTrace with ⟨last, hRest, hEnd⟩
  exact ⟨last, hSteps.trans hRest, hEnd⟩

theorem Trace.of_ok (hTrace : Trace env zero content st false st') :
    ReflTransGen (AppliesFile env zero content none) st st' := by
  rcases hTrace with ⟨mid, hSteps, rfl | ⟨hFailed, _⟩⟩
  · exact hSteps
  · simp at hFailed

theorem Trace.weaken (hTrace : Trace env zero content st false st') (failed : Bool) :
    Trace env zero content st failed st' :=
  ⟨st', hTrace.of_ok, Or.inl rfl⟩

/- Whether the loop over a level failed. -/
def GapEnd.isFailed : GapEnd → Bool
| .failed _ => true
| _ => false

theorem gapLoop_trace {level : Nat} {r} (hLevel : level < snapshotLevel)
    (hItems : ∀ info ∈ items, info ∈ content level)
    (hLoop : gapLoop env zero gapMinTXID items st = (r, st')) :
    Trace env zero content st r.isFailed st' := by
  induction items generalizing st with
  | nil =>
    rw [gapLoop, Prod.mk.injEq] at hLoop
    rcases hLoop with ⟨rfl, rfl⟩
    exact Trace.refl st _
  | cons info items ih =>
    have hRest : ∀ x ∈ items, x ∈ content level := fun x hx => hItems x (mem_cons_of_mem info hx)
    have hNext := next_le st.current
    rw [gapLoop] at hLoop
    split at hLoop
    · rw [Prod.mk.injEq] at hLoop
      rcases hLoop with ⟨rfl, rfl⟩
      exact Trace.refl st _
    split at hLoop
    · exact ih hRest hLoop
    have hApplies : ∀ err mid, st.apply env zero info = (err, mid) →
      AppliesFile env zero content err st mid :=
      fun err mid hApply =>
        ⟨level, hLevel, info, hItems info mem_cons_self, by omega, by omega, hApply⟩
    split at hLoop
    · rename_i err mid hApply
      rcases hLoop with ⟨rfl, rfl⟩
      exact ⟨st, ReflTransGen.refl, Or.inr ⟨rfl, err, hApplies _ _ hApply⟩⟩
    rename_i mid hApply
    have hStep := ReflTransGen.single (hApplies _ _ hApply)
    split at hLoop
    · rw [Prod.mk.injEq] at hLoop
      rcases hLoop with ⟨rfl, rfl⟩
      exact Trace.steps hStep (Trace.refl mid _)
    · exact Trace.steps hStep (ih hRest hLoop)

theorem fillFollowGap_trace {levels} (hLevels : ∀ level ∈ levels, level < snapshotLevel)
    (hFill : fillFollowGap env zero content afterTXID gapMinTXID levels st = (err, st')) :
    Trace env zero content st err.isSome st' := by
  induction levels generalizing st with
  | nil =>
    rw [fillFollowGap, Prod.mk.injEq] at hFill
    rcases hFill with ⟨rfl, rfl⟩
    exact Trace.refl st _
  | cons level levels ih =>
    have hLevel := hLevels level mem_cons_self
    have hRest : ∀ l ∈ levels, l < snapshotLevel := fun l hl => hLevels l (mem_cons_of_mem level hl)
    rw [fillFollowGap] at hFill
    split at hFill
    · rw [Prod.mk.injEq] at hFill
      rcases hFill with ⟨rfl, rfl⟩
      exact Trace.refl st _
    rename_i itr hList
    have hLoop : ∀ r mid, gapLoop env zero gapMinTXID itr.items st = (r, mid) →
      Trace env zero content st r.isFailed mid :=
      fun r mid hGap => gapLoop_trace hLevel (fun x hx => mem_of_mem_ltxFiles hList hx) hGap
    -- after a level without failure the next one follows
    have hOnward : ∀ mid, Trace env zero content st false mid → (if afterTXID < mid.current then
      (none, mid)
        else
          fillFollowGap env zero content afterTXID gapMinTXID levels mid) = (err, st') →
          Trace env zero content st err.isSome st' := by
      intro mid hMid hNext
      split at hNext
      · rw [Prod.mk.injEq] at hNext
        rcases hNext with ⟨rfl, rfl⟩
        exact hMid
      · exact Trace.steps hMid.of_ok (ih hRest hNext)
    split at hFill
    · rename_i e mid hGap
      rcases hFill with ⟨rfl, rfl⟩
      exact hLoop _ _ hGap
    · rename_i mid hGap
      rcases hFill with ⟨rfl, rfl⟩
      exact hLoop _ _ hGap
    · rename_i mid hGap
      exact hOnward mid (hLoop _ _ hGap) hFill
    rename_i mid hGap
    split at hFill
    · rw [Prod.mk.injEq] at hFill
      rcases hFill with ⟨rfl, rfl⟩
      exact Trace.weaken (hLoop _ _ hGap) _
    · exact hOnward mid (hLoop _ _ hGap) hFill

theorem gapLevels_lt : ∀ level ∈ gapLevels, level < snapshotLevel := by
  decide

/- Whether the answer of the loop is an error. -/
def isError (answer : Option (Option Err)) : Bool :=
  (answer.getD none).isSome

theorem level0Loop_trace {answer} (hItems : ∀ info ∈ items, info ∈ content 0)
    (hLoop : level0Loop env zero content items st = (answer, st')) :
    Trace env zero content st (isError answer) st' := by
  induction items generalizing st with
  | nil =>
    rw [level0Loop, Prod.mk.injEq] at hLoop
    rcases hLoop with ⟨rfl, rfl⟩
    exact Trace.refl st _
  | cons info items ih =>
    have hRest : ∀ x ∈ items, x ∈ content 0 := fun x hx => hItems x (mem_cons_of_mem info hx)
    rw [level0Loop] at hLoop
    -- the gap before the file
    have hBridged : ∀ err mid, (if TXID.next st.current < info.minTXID then
      fillFollowGap env zero content st.current info.minTXID gapLevels st
        else
          (none, st)) = (err, mid) →
          Trace env zero content st err.isSome mid := by
      intro err mid hGap
      split at hGap
      · exact fillFollowGap_trace gapLevels_lt hGap
      · rw [Prod.mk.injEq] at hGap
        rcases hGap with ⟨rfl, rfl⟩
        exact Trace.refl st _
    split at hLoop
    · rename_i err mid hGap
      rcases hLoop with ⟨rfl, rfl⟩
      exact hBridged _ _ hGap
    rename_i mid hGap
    have hMid := (hBridged _ _ hGap).of_ok
    have hNext := next_le mid.current
    split at hLoop
    · exact Trace.steps hMid (ih hRest hLoop)
    split at hLoop
    · rw [Prod.mk.injEq] at hLoop
      rcases hLoop with ⟨rfl, rfl⟩
      exact Trace.steps hMid (Trace.refl mid _)
    have hApplies : ∀ err last, mid.apply env zero info = (err, last) →
      AppliesFile env zero content err mid last :=
      fun err last hApply =>
        ⟨0, by decide, info, hItems info mem_cons_self, by omega, by omega, hApply⟩
    split at hLoop
    · rename_i err last hApply
      rcases hLoop with ⟨rfl, rfl⟩
      exact ⟨mid, hMid, Or.inr ⟨rfl, err, hApplies _ _ hApply⟩⟩
    · rename_i last hApply
      exact Trace.steps (hMid.tail (hApplies _ _ hApply)) (ih hRest hLoop)

/- A poll applies files, each where it is, and may fail. -/
theorem applyNewLTXFiles_trace {file}
    (hPoll : applyNewLTXFiles env zero content afterTXID file = (err, st)) :
    Trace env zero content ⟨file, afterTXID, []⟩ err.isSome st := by
  unfold applyNewLTXFiles at hPoll
  dsimp only at hPoll
  split at hPoll
  · rw [Prod.mk.injEq] at hPoll
    rcases hPoll with ⟨rfl, rfl⟩
    exact Trace.refl _ _
  rename_i itr hList
  have hItems : ∀ info ∈ itr.items, info ∈ content 0 :=
    fun info hInfo => mem_of_mem_ltxFiles hList hInfo
  split at hPoll
  · rename_i answer mid hLoop
    rcases hPoll with ⟨rfl, rfl⟩
    exact level0Loop_trace hItems hLoop
  rename_i mid hLoop
  have hMid := level0Loop_trace hItems hLoop
  split at hPoll
  · rw [Prod.mk.injEq] at hPoll
    rcases hPoll with ⟨rfl, rfl⟩
    exact Trace.weaken hMid _
  split at hPoll
  · exact Trace.steps hMid.of_ok (fillFollowGap_trace gapLevels_lt hPoll)
  · rw [Prod.mk.injEq] at hPoll
    rcases hPoll with ⟨rfl, rfl⟩
    exact hMid

end Trace

end Follow

end Replicate
