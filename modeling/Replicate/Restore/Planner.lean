import Replicate.LTX.FileInfo

/-
  The restore planner: `CalcRestorePlan` and the forward
  level cursors it walks.

  A replica client lists each level once per call, so a
  listing is a function from levels to the iterator, or the
  error, that the call for this level returned. Different
  levels may be listed at different moments.

  The source's main loop is fuelled here. The fuel suffices
  by `planLoop_isSome`, and `calcRestorePlan` is the value
  the loop ends with.
-/

-- Level Cursors

namespace Replicate

/- The answers of `LTXFiles`, level by level. -/
abbrev Listing := Nat → Except Err FileIterator

/- The better of two candidates, the second if strictly so. -/
def restoreCandidateBetter (curr next : FileInfo) : Bool :=
  if next.maxTXID ≠ curr.maxTXID then decide (curr.maxTXID < next.maxTXID)
  else if next.minTXID ≠ curr.minTXID then decide (next.minTXID < curr.minTXID)
  else if next.level ≠ curr.level then decide (curr.level < next.level)
  else decide (next.createdAt < curr.createdAt)

/-
  `restoreLevelCursor`. The iterator holds the items that
  have not been read from it yet.
-/
structure RestoreLevelCursor where
  itr : FileIterator
  current : Option FileInfo
  candidate : Option FileInfo
  done : Bool
  deriving DecidableEq, Repr

namespace RestoreLevelCursor

/- A cursor over an iterator that has not been read. -/
def ofIterator (itr : FileIterator) : RestoreLevelCursor where
  itr := itr
  current := none
  candidate := none
  done := false

/- Files that the cursor has not evaluated, in order. -/
def unread (c : RestoreLevelCursor) : List FileInfo :=
  c.current.toList ++ c.itr.items

/- Populate `current` with the next item, or mark done. -/
def ensureCurrent (c : RestoreLevelCursor) : Except Err RestoreLevelCursor :=
  if c.done || c.current.isSome then .ok c
  else
    match c.itr.items with
    | info :: rest =>
      .ok { c with
        itr := { c.itr with items := rest }
        current := some info }
    | [] =>
      match c.itr.err with
      | some err => .error err
      | none => .ok { c with done := true }

/- The file passes the TXID and timestamp filters. -/
def Eligible (txID : Nat) (timestamp : Int) (info : FileInfo) : Prop :=
  (txID = 0 ∨ info.maxTXID ≤ txID) ∧ (timestamp = 0 ∨ info.createdAt < timestamp)

instance (txID : Nat) (timestamp : Int) (info : FileInfo) :
  Decidable (Eligible txID timestamp info) := by
  unfold Eligible
  infer_instance

/- Keep the better of the candidate and an eligible file. -/
def offer (candidate : Option FileInfo) (info : FileInfo) : Option FileInfo :=
  match candidate with
  | none => some info
  | some best => if restoreCandidateBetter best info then some info else some best

/-
  The loop of `refresh` over the files not yet evaluated.
  Each round takes the current file, which `ensureCurrent`
  read from the iterator, and stops at the first file that
  is not contiguous with `currentMax`.
-/
def refreshLoop (currentMax txID : Nat) (timestamp : Int) (err : Option Err) :
    List FileInfo → Option FileInfo → Except Err RestoreLevelCursor
| [], candidate =>
  match err with
  | some err => .error err
  | none =>
    .ok
      { itr := ⟨[], err⟩
        current := none
        candidate := candidate
        done := true }
| info :: rest, candidate =>
  if TXID.next currentMax < info.minTXID then
    .ok
      { itr := ⟨rest, err⟩
        current := some info
        candidate := candidate
        done := false }
  else if info.maxTXID ≤ currentMax then refreshLoop currentMax txID timestamp err rest candidate
  else if ¬ Eligible txID timestamp info then
    refreshLoop currentMax txID timestamp err rest candidate
  else refreshLoop currentMax txID timestamp err rest (offer candidate info)

/- Forget a candidate that no longer advances the plan. -/
def dropStale (currentMax : Nat) (candidate : Option FileInfo) : Option FileInfo :=
  match candidate with
  | none => none
  | some best => if best.maxTXID ≤ currentMax then none else some best

/-
  Evaluate all files that could be contiguous with
  `currentMax`. A finished cursor is left as it is, even
  when it still holds a stale candidate.
-/
def refresh (c : RestoreLevelCursor) (currentMax txID : Nat) (timestamp : Int) :
    Except Err RestoreLevelCursor :=
  if c.done then .ok c
  else refreshLoop currentMax txID timestamp c.itr.err c.unread (dropStale currentMax c.candidate)

end RestoreLevelCursor

-- The Planning Loop

open RestoreLevelCursor

/- Refresh every cursor, failing with the first error. -/
def refreshAll (currentMax txID : Nat) (timestamp : Int) (cursors : List RestoreLevelCursor) :
    Except Err (List RestoreLevelCursor) :=
  cursors.mapM (fun c => c.refresh currentMax txID timestamp)

/-
  The index and the candidate of the best cursor. A later
  cursor replaces an earlier one only if strictly better.
-/
def selectNext : List RestoreLevelCursor → Nat → Option (Nat × FileInfo) → Option (Nat × FileInfo)
| [], _, best => best
| c :: cs, i, best =>
  selectNext cs (i + 1) (match c.candidate, best with
    | none, best => best
    | some info, none => some (i, info)
    | some info, some (j, chosen) =>
      if restoreCandidateBetter chosen info then some (i, info) else some (j, chosen))

/- Set `candidate` to nil in the cursor at an index. -/
def clearCandidate : Nat → List RestoreLevelCursor → List RestoreLevelCursor
| _, [] => []
| 0, c :: cs => { c with candidate := none } :: cs
| i + 1, c :: cs => c :: clearCandidate i cs

/- The variables of the main loop. -/
structure PlanState where
  infos : List FileInfo
  currentMax : Nat
  cursors : List RestoreLevelCursor
  deriving DecidableEq, Repr

/-
  The main loop: refresh the cursors, take the best
  candidate, and stop when there is none or when the target
  TXID is reached. `none` means that the fuel ran out.
-/
def planLoop (txID : Nat) (timestamp : Int) : Nat → PlanState → Option (Except Err PlanState)
| 0, _ => none
| fuel + 1, s =>
  match refreshAll s.currentMax txID timestamp s.cursors with
  | .error err => some (.error err)
  | .ok cursors =>
    match selectNext cursors 0 none with
    | none => some (.ok { s with cursors := cursors })
    | some (i, info) =>
      if info.maxTXID ≤ s.currentMax then
        planLoop txID timestamp fuel { s with cursors := clearCandidate i cursors }
      else if txID ≠ 0 ∧ txID ≤ info.maxTXID then
        some (.ok
          { infos := s.infos ++ [info]
            currentMax := info.maxTXID
            cursors := clearCandidate i cursors })
      else
        planLoop txID timestamp fuel
          { infos := s.infos ++ [info]
            currentMax := info.maxTXID
            cursors := clearCandidate i cursors }

-- CalcRestorePlan

/- `FileInfoSlice.MaxTXID`, zero for the empty slice. -/
def maxTXIDOf (infos : List FileInfo) : Nat :=
  match infos.getLast? with
  | none => 0
  | some info => info.maxTXID

/- The last snapshot listed that passes the filters. -/
def findSnapshot (txID : Nat) (timestamp : Int) (items : List FileInfo) : Option FileInfo :=
  items.foldl (fun snapshot info =>
    if Eligible txID timestamp info then some info else snapshot)
    none

/- The cursors of levels 8 down to 0. -/
def openCursors (files : Listing) : Except Err (List RestoreLevelCursor) :=
  (List.range snapshotLevel).reverse.mapM (fun level => do
    let itr ← files level
    return ofIterator itr)

/-
  The check after the loop for a restore without a target:
  no level may hold files beyond a gap.
-/
def checkContiguous (currentMax : Nat) : List RestoreLevelCursor → Except Err Unit
| [] => .ok ()
| c :: cs => do
  let c ← c.ensureCurrent
  match c.current with
  | some info =>
    if TXID.next currentMax < info.minTXID then
      .error (.text ("non-contiguous ltx files: have up to " ++ TXID.format currentMax ++
        " but next file starts at " ++
        TXID.format info.minTXID))
    else checkContiguous currentMax cs
  | none => checkContiguous currentMax cs

/- The part of `CalcRestorePlan` that follows the loop. -/
def finishPlan (txID : Nat) (timestamp : Int) (s : PlanState) : Except Err (List FileInfo) := do
  if s.infos ≠ [] ∧ txID = 0 ∧ timestamp = 0 then checkContiguous s.currentMax s.cursors
  if s.infos = [] then .error (.sentinel .txNotAvailable)
  else if txID ≠ 0 ∧ maxTXIDOf s.infos < txID then .error (.sentinel .txNotAvailable)
  else .ok s.infos

/- `CalcRestorePlan` with a bound on its loop's rounds. -/
def calcRestorePlanFuel (fuel : Nat) (files : Listing) (txID : Nat) (timestamp : Int) :
    Option (Except Err (List FileInfo)) :=
  if txID ≠ 0 ∧ timestamp ≠ 0 then
    some (.error (.text "cannot specify both TXID & timestamp to restore"))
  else
    match files snapshotLevel with
    | .error err => some (.error err)
    | .ok itr =>
      match itr.err with
      | some err => some (.error err)
      | none =>
        let infos := (findSnapshot txID timestamp itr.items).toList
        let currentMax := maxTXIDOf infos
        if txID ≠ 0 ∧ txID ≤ currentMax then some (.ok infos)
        else
          match openCursors files with
          | .error err => some (.error err)
          | .ok cursors =>
            match planLoop txID timestamp fuel ⟨infos, currentMax, cursors⟩ with
            | none => none
            | some (.error err) => some (.error err)
            | some (.ok s) => some (finishPlan txID timestamp s)

end Replicate
