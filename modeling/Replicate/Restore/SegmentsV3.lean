import Replicate.Restore.ColdStart

/-
  The WAL segments of a v0.3.x restore.

  A segment at offset 0 starts a new WAL file and every
  other one is appended to the open file, whatever was
  there before. Only a first segment at another offset is
  noticed, since no file is open then.

  Main declarations:
    * `filterWALSegmentsV3`, `applyWALSegmentsV3`
    * `GaplessV3`, `v3_gap_refused_iff`
-/

namespace Replicate

open Traversal

variable {D β : Type}

/-
  The calls for a segment: to read it, and to open, and to
  close and checkpoint, the WAL file that begins with it.
-/
structure WALEnvV3 (D β : Type) where
  fetch : WALSegmentInfoV3 → Except Err (List β)
  openFile : WALSegmentInfoV3 → Option Err
  finish : WALSegmentInfoV3 → Option Err
  checkpoint : List D → List β → List D

def filterWALSegmentsV3 (segments : List WALSegmentInfoV3) (snapshotIndex timestamp : Int) :
    List WALSegmentInfoV3 :=
  segments.filter fun seg => snapshotIndex ≤ seg.index ∧ (timestamp = 0 ∨ seg.createdAt ≤ timestamp)

namespace WALEnvV3

/- `applyLastWalFile`. -/
def applyLast (w : WALEnvV3 D β) (db : List D) :
    Option (WALSegmentInfoV3 × List β) → Except Err (List D)
| none => .ok db
| some (first, wal) =>
  match w.finish first with
  | some err => .error err
  | none => .ok (w.checkpoint db wal)

/- At offset 0 the last WAL file is applied and a new one opened. -/
def start (w : WALEnvV3 D β) (db : List D) (f : Option (WALSegmentInfoV3 × List β))
    (seg : WALSegmentInfoV3) : Except Err (List D × Option (WALSegmentInfoV3 × List β)) :=
  if seg.offset = 0 then do
    let db ← w.applyLast db f
    match w.openFile seg with
    | some err => .error err
    | none => return (db, some (seg, []))
  else return (db, f)

/- The loop of `applyWALSegmentsV3`, with the open WAL file. A nil file cannot be written. -/
def applyLoop (w : WALEnvV3 D β) (db : List D) (f : Option (WALSegmentInfoV3 × List β)) :
    List WALSegmentInfoV3 → Except Err (List D)
| [] => w.applyLast db f
| seg :: rest => do
  let (db, f) ← w.start db f seg
  match w.fetch seg, f with
  | .error err, _ => .error (.wrap "write WAL segment" err)
  | .ok _, none => .error (.wrap "write WAL segment" (.text "invalid argument"))
  | .ok data, some (first, wal) => w.applyLoop db (some (first, wal ++ data)) rest

def applyWALSegmentsV3 (w : WALEnvV3 D β) (db : List D) (segments : List WALSegmentInfoV3) :
    Except Err (List D) :=
  w.applyLoop db none segments

/- The decompressed length of a segment. -/
def length (w : WALEnvV3 D β) (seg : WALSegmentInfoV3) : Int :=
  match w.fetch seg with
  | .ok data => data.length
  | .error _ => 0

/- All calls for the segment succeed. -/
def Succeeds (w : WALEnvV3 D β) (seg : WALSegmentInfoV3) : Prop :=
  errorOf (w.fetch seg) = none ∧ (seg.offset = 0 → w.openFile seg = none ∧ w.finish seg = none)

/- The WAL indexes go up from `i` by one, and each one is complete from offset 0. -/
def GaplessV3 (w : WALEnvV3 D β) (i : Int) (segments : List WALSegmentInfoV3) : Prop :=
  (∀ seg ∈ segments.head?, seg.index = i ∧ seg.offset = 0) ∧ segments.IsChain fun prev next =>
    next.index = prev.index ∧ next.offset = prev.offset + w.length prev ∨
      next.index = prev.index + 1 ∧ next.offset = 0

variable {w : WALEnvV3 D β} {db db' : List D} {f f' : Option (WALSegmentInfoV3 × List β)}
variable {segments : List WALSegmentInfoV3} {seg : WALSegmentInfoV3}

theorem applyLast_eq_ok_iff : w.applyLast db f = .ok db' ↔
    (∀ x ∈ f, w.finish x.1 = none) ∧ db' = f.elim db fun x => w.checkpoint db x.2 := by
  rcases f with _ | ⟨first, wal⟩
  · simp [applyLast, eq_comm]
  · cases hFinish : w.finish first <;> simp [applyLast, hFinish, eq_comm]

theorem start_eq_ok_iff : w.start db f seg = .ok (db', f') ↔
    if seg.offset = 0 then w.applyLast db f = .ok db' ∧ w.openFile seg = none ∧ f' = some (seg, [])
    else db' = db ∧ f' = f := by
  unfold start
  split
  · rw [bind_eq_ok_iff]
    cases hOpen : w.openFile seg <;> simp [pure, Except.pure, eq_comm]
  · simp [pure, Except.pure, eq_comm]

/- The loop notices no gap but a first segment that cannot be written. -/
theorem applyLoop_ok_iff : (∃ pages, w.applyLoop db f segments = .ok pages) ↔
    (∀ x ∈ f, w.finish x.1 = none) ∧ (∀ seg ∈ segments, w.Succeeds seg) ∧
      (f = none → ∀ seg ∈ segments.head?, seg.offset = 0) := by
  induction segments generalizing db f with
  | nil => simp [applyLoop, applyLast_eq_ok_iff]
  | cons seg rest ih =>
    simp only [applyLoop, bind_eq_ok_iff, Prod.exists, start_eq_ok_iff]
    cases hFetch : w.fetch seg with
    | error err => simp [Succeeds, hFetch]
    | ok data =>
      by_cases hZero : seg.offset = 0
      · simp [Succeeds, hFetch, hZero, applyLast_eq_ok_iff, ih, and_assoc, and_left_comm]
      · rcases f with _ | ⟨first, wal⟩
        · simp [hZero]
        · simp [Succeeds, hFetch, hZero, ih]

end WALEnvV3

-- The Restore

/- A call that `RestoreV3` makes for these segments fails. -/
def CallFailsV3 (env : RestoreEnv D) (v3 : RestoreEnvV3 D) (w : WALEnvV3 D β)
    (opt : RestoreOptions) (segments : List WALSegmentInfoV3) : Prop :=
  v3.mkdir ≠ none ∨ v3.download ≠ none ∨ (∃ seg ∈ segments, ¬ w.Succeeds seg) ∨ v3.rename ≠ none ∨
    opt.integrityCheck ≠ .none ∧ env.integrity ≠ none ∧ env.canceled = false

theorem buildV3_ok_iff {v3 : RestoreEnvV3 D} {timestamp : Int} {snap : SnapshotInfoV3}
    {segments : List WALSegmentInfoV3} (hSelected : selectSnapshotV3 v3.restore timestamp = .ok snap)
    (hSegments : v3.restore.walSegments snap.generation = .ok segments) :
    (∃ pages, buildV3 v3 timestamp = .ok pages) ↔ v3.mkdir = none ∧ v3.download = none ∧
      (∃ pages, v3.apply = .ok pages) ∧ v3.rename = none := by
  simp only [buildV3, hSelected, hSegments, bind, Except.bind]
  cases v3.mkdir <;> cases v3.download <;> cases v3.apply <;> cases v3.rename <;> simp

theorem checkRestored_refused_iff {env : RestoreEnv D} {opt : RestoreOptions} {fs : FileSystem D}
    {pages : List D} (hWritten : fs opt.outputPath = some pages) :
    ((checkRestored env opt fs).err ≠ none ∧ (checkRestored env opt fs).fs opt.outputPath = none) ↔
      opt.integrityCheck ≠ .none ∧ env.integrity ≠ none ∧ env.canceled = false := by
  unfold checkRestored
  split
  · simp [*]
  · cases env.integrity with
    | none => simp
    | some err => cases hCanceled : env.canceled <;> simp [*, FileSystem.remove]

/-
  A v0.3.x restore without silent gaps: it succeeds for
  gapless segments only and creates no output for others.
  The output does not exist before, which `RestoreV3` checks.
-/
theorem v3_gap_refused_iff (env : RestoreEnv D) (v3 : RestoreEnvV3 D) (w : WALEnvV3 D β)
    (db : List D) (opt : RestoreOptions) (fs : FileSystem D) (snap : SnapshotInfoV3)
    (segments : List WALSegmentInfoV3)
    (hSelected : selectSnapshotV3 v3.restore opt.timestamp = .ok snap)
    (hSegments : v3.restore.walSegments snap.generation = .ok segments)
    (hAbsent : fs opt.outputPath = none) :
    let kept := filterWALSegmentsV3 segments snap.index opt.timestamp
    let out := restoreV3 env { v3 with apply := w.applyWALSegmentsV3 db kept } opt fs
    ((out.err = none → w.GaplessV3 snap.index kept) ∧
      (¬ w.GaplessV3 snap.index kept → out.fs opt.outputPath = none)) ↔
      w.GaplessV3 snap.index kept ∨ (∃ seg ∈ kept.head?, seg.offset ≠ 0) ∨
        CallFailsV3 env v3 w opt kept := by
  intro kept out
  have hOk := @buildV3_ok_iff D { v3 with apply := w.applyWALSegmentsV3 db kept } opt.timestamp snap
    segments hSelected hSegments
  have hLoop : (∃ pages, w.applyWALSegmentsV3 db kept = .ok pages) ↔
    (∀ seg ∈ kept, w.Succeeds seg) ∧ ∀ seg ∈ kept.head?, seg.offset = 0 := by
    simp [WALEnvV3.applyWALSegmentsV3, WALEnvV3.applyLoop_ok_iff]
  have hRefused : (out.err ≠ none ∧ out.fs opt.outputPath = none) ↔
    (∃ seg ∈ kept.head?, seg.offset ≠ 0) ∨ CallFailsV3 env v3 w opt kept := by
    have hOut : out = restoreV3 env { v3 with apply := w.applyWALSegmentsV3 db kept } opt fs := rfl
    rw [hOut, restoreV3]
    rw [hLoop] at hOk
    cases hBuild : buildV3 { v3 with apply := w.applyWALSegmentsV3 db kept } opt.timestamp with
    | error err =>
      have hNot : ¬ ∃ pages : List D, (.error err : Except Err (List D)) = .ok pages := nofun
      rw [hBuild] at hOk
      apply iff_of_true
      · simp [RestoreOutcome.fail, FileSystem.remove, hAbsent]
      · grind [CallFailsV3]
    | ok pages =>
      obtain ⟨hMkdir : v3.mkdir = none, hDownload : v3.download = none, ⟨hCalls, hFirst⟩,
        hRename : v3.rename = none⟩ := hOk.mp ⟨pages, hBuild⟩
      have hWritten : (fs.remove (opt.outputPath ++ ".tmp")).write opt.outputPath pages
        opt.outputPath = some pages := if_pos rfl
      refine (checkRestored_refused_iff hWritten).trans ?_
      have hSucceeds : ¬ ∃ seg ∈ kept, ¬ w.Succeeds seg := by simpa using hCalls
      have hHead : ¬ ∃ seg ∈ kept.head?, seg.offset ≠ 0 := by simpa using hFirst
      simp only [CallFailsV3, hHead, hSucceeds, hMkdir, hDownload, hRename, ne_eq,
        not_true_eq_false, false_or]
  rw [← hRefused]
  tauto

-- Samples

/- Every call succeeds, and every segment has one element. -/
def calmWALV3 : WALEnvV3 Nat Nat := ⟨fun _ => .ok [7], fun _ => none, fun _ => none, (· ++ ·)⟩

/- A replica with one snapshot, at index 0. -/
def sampleV3 (segments : List WALSegmentInfoV3) : RestoreEnvV3 Nat where
  bounds := ⟨.ok [], fun _ => .ok [], fun _ => .ok []⟩
  files _ := .ok ⟨[], none⟩
  choice := ⟨.ok [], fun _ => .ok [], fun _ => .ok []⟩
  snapshots := .ok ⟨[], none⟩
  restore := ⟨.ok ["a"], fun _ => .ok [⟨"a", 0, 1, 1⟩], fun _ => .ok segments⟩
  mkdir := none
  download := none
  apply := calmWALV3.applyWALSegmentsV3 [] (filterWALSegmentsV3 segments 0 0)
  rename := none

def restoreSampleV3 (segments : List WALSegmentInfoV3) : RestoreOutcome Nat :=
  restoreV3 calmEnv (sampleV3 segments) ⟨"db", 0, 0, false, .none⟩ fun _ => none

/- The first segment is missing. -/
theorem v3_gap_refused_iff_first :
    (restoreSampleV3 [⟨"a", 0, 1, 1⟩]).fs "db" = none :=
  ((v3_gap_refused_iff calmEnv (sampleV3 [⟨"a", 0, 1, 1⟩]) calmWALV3 []
    ⟨"db", 0, 0, false, .none⟩ (fun _ => none) ⟨"a", 0, 1, 1⟩ [⟨"a", 0, 1, 1⟩] rfl rfl rfl).mpr
      (.inr (.inl ⟨_, rfl, by decide⟩))).2 (by simp [WALEnvV3.GaplessV3, filterWALSegmentsV3])

/- WAL index 1 is missing. -/
theorem v3_gap_restored :
    (restoreSampleV3 [⟨"a", 0, 0, 1⟩, ⟨"a", 2, 0, 2⟩]).err =
      none ∧
    ¬ calmWALV3.GaplessV3 0
        (filterWALSegmentsV3
          [⟨"a", 0, 0, 1⟩, ⟨"a", 2, 0, 2⟩] 0 0) :=
  ⟨rfl, by simp [WALEnvV3.GaplessV3, filterWALSegmentsV3]⟩

end Replicate
