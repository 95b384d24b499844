import Replicate.Restore.Planner

/-
  The choice between the LTX format and the v0.3.x format
  of a restore.
-/

-- Time Bounds

namespace Replicate

structure SnapshotInfoV3 where
  generation : String
  index : Int
  size : Int
  createdAt : Int
  deriving DecidableEq, Repr

structure WALSegmentInfoV3 where
  generation : String
  index : Int
  offset : Int
  createdAt : Int
  deriving DecidableEq, Repr

/- The answers of a `ReplicaClientV3`. -/
structure ClientV3 where
  generations : Except Err (List String)
  snapshots : String → Except Err (List SnapshotInfoV3)
  walSegments : String → Except Err (List WALSegmentInfoV3)

/- Widen time bounds, zero meaning that there are none. -/
def widen (bounds : Int × Int) (createdAt : Int) : Int × Int :=
  (if bounds.1 = 0 ∨ createdAt < bounds.1 then createdAt else bounds.1,
    if bounds.2 = 0 ∨ bounds.2 < createdAt then createdAt else bounds.2)

/- `TimeBounds`: levels 9 down to 0. -/
def timeBounds (files : Listing) : Except Err (Int × Int) :=
  (List.range (snapshotLevel + 1)).reverse.foldlM (fun bounds level => do
    let itr ← files level
    match itr.err with
    | some err => .error err
    | none => return itr.items.foldl (fun b info => widen b info.createdAt) bounds)
    (0, 0)

def timeBoundsV3 (client : ClientV3) : Except Err (Int × Int) := do
  let generations ← client.generations
  generations.foldlM (fun bounds gen => do
    let snapshots ← client.snapshots gen
    let segments ← client.walSegments gen
    let bounds := snapshots.foldl (fun b snap => widen b snap.createdAt) bounds
    return segments.foldl (fun b seg => widen b seg.createdAt) bounds)
    (0, 0)

-- Choosing A Format

/-
  The inner loop of the sort: the element at the front is
  swapped with each later one that is earlier in time.
-/
def exchangePass (front : SnapshotInfoV3) : List SnapshotInfoV3 →
    SnapshotInfoV3 × List SnapshotInfoV3
| [] => (front, [])
| snap :: rest =>
  if snap.createdAt < front.createdAt then
    let out := exchangePass snap rest
    (out.1, front :: out.2)
  else
    let out := exchangePass front rest
    (out.1, snap :: out.2)

/- The outer loop, once per position. -/
def exchangeSort : Nat → List SnapshotInfoV3 → List SnapshotInfoV3
| 0, snapshots => snapshots
| _, [] => []
| n + 1, front :: rest =>
  let out := exchangePass front rest
  out.1 :: exchangeSort n out.2

def sortSnapshotsV3ByCreatedAt (snapshots : List SnapshotInfoV3) : List SnapshotInfoV3 :=
  exchangeSort snapshots.length snapshots

/- `findBestSnapshotV3`, over snapshots sorted by time. -/
def findBestSnapshotV3 (snapshots : List SnapshotInfoV3)
    (timestamp : Int) : Option SnapshotInfoV3 :=
  if timestamp = 0 then snapshots.getLast?
  else snapshots.reverse.find? (fun snap => decide (snap.createdAt ≤ timestamp))

/- All snapshots of all generations, sorted by time. -/
def allSnapshotsV3 (client : ClientV3) (generations : List String) (describe : String → String) :
    Except Err (List SnapshotInfoV3) := do
  let lists ← generations.mapM (fun gen =>
    match client.snapshots gen with
    | .ok snapshots => .ok snapshots
    | .error err => .error (.wrap (describe gen) err))
  return sortSnapshotsV3ByCreatedAt lists.flatten

def findBestV3SnapshotForTimestamp (client : ClientV3) (timestamp : Int) :
    Except Err (Option SnapshotInfoV3) := do
  match client.generations with
  | .error err => .error (.wrap "list v0.3.x generations" err)
  | .ok generations =>
    let all ← allSnapshotsV3 client generations (fun gen =>
      "list v0.3.x snapshots for generation " ++ gen)
    return findBestSnapshotV3 all timestamp

def findBestLTXSnapshotForTimestamp (snapshots : Except Err FileIterator) (timestamp : Int) :
    Except Err (Option FileInfo) :=
  match snapshots with
  | .error err => .error (.wrap "find LTX snapshots" err)
  | .ok itr =>
    match itr.err with
    | some err => .error (.wrap "find LTX snapshots" err)
    | none =>
      .ok (itr.items.filter (fun info =>
        decide (info.createdAt < timestamp))).getLast?

/-
  `shouldUseV3Restore`. The replica is asked several times,
  so each group of calls has its own answers.
-/
def shouldUseV3Restore (bounds : ClientV3) (files : Listing) (client : ClientV3)
    (snapshots : Except Err FileIterator) (timestamp : Int) : Except Err Bool :=
  match timeBoundsV3 bounds with
  | .error err => .error (.wrap "get v0.3.x time bounds" err)
  | .ok (_, v3UpdatedAt) =>
    match timeBounds files with
    | .error err => .error (.wrap "get LTX time bounds" err)
    | .ok (_, ltxUpdatedAt) =>
      if v3UpdatedAt = 0 then .ok false
      else if ltxUpdatedAt = 0 then .ok true
      else if timestamp ≠ 0 then
        match findBestV3SnapshotForTimestamp client timestamp with
        | .error err => .error (.wrap "find v0.3.x snapshot" err)
        | .ok v3Snapshot =>
          match findBestLTXSnapshotForTimestamp snapshots timestamp with
          | .error err => .error (.wrap "find LTX snapshot" err)
          | .ok ltxSnapshot =>
            match v3Snapshot, ltxSnapshot with
            | none, _ => .ok false
            | some _, none => .ok true
            | some v3, some info => .ok (decide (info.createdAt < v3.createdAt))
      else .ok (decide (ltxUpdatedAt < v3UpdatedAt))

end Replicate
