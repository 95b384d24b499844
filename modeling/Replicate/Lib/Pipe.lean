import Mathlib.Logic.Relation
import Mathlib.Tactic.Common

/-
  A synchronous in-memory pipe between a producer and a
  reader that run concurrently.

  The producer writes chunks and closes the pipe, with end
  of file or with an error. The pipe keeps its first close
  result. The reader gets all chunks written before the
  first close and then that result. Whatever the schedule,
  the reader sees `outcome` of the producer's script.

  Main declarations:
    * `Pipe.Step`
    * `Pipe.Delivers`
    * `Pipe.outcome`
    * `Pipe.delivers_iff`
-/

-- Steps Of The Two Parties

namespace Pipe

open Relation

variable {B E : Type}

/-
  What the producer does to the pipe. Closing with `none`
  means end of file.
-/
inductive Op (B E : Type) where
  | write (chunk : List B)
  | close (result : Option E)
  deriving DecidableEq, Repr

/-
  The rest of the producer's script, the first close
  result, the bytes the reader has, and the result its last
  read returned.
-/
structure State (B E : Type) where
  script : List (Op B E)
  closed : Option (Option E)
  received : List B
  seen : Option (Option E)

/-
  A write hands its chunk over to the reader, unless the
  pipe is closed. Only the first close has an effect. The
  reader may see the close result at any time after it.
-/
inductive Step : State B E → State B E → Prop where
  | write {chunk rest received seen} : Step ⟨.write chunk :: rest, none, received, seen⟩
    ⟨rest, none, received ++ chunk, seen⟩
  | writeClosed {chunk rest received result seen} : Step
    ⟨.write chunk :: rest, some result, received, seen⟩
    ⟨rest, some result, received, seen⟩
  | close {result rest received seen} : Step ⟨.close result :: rest, none, received, seen⟩
    ⟨rest, some result, received, seen⟩
  | closeAgain {later rest received result seen} : Step
    ⟨.close later :: rest, some result, received, seen⟩
    ⟨rest, some result, received, seen⟩
  | finish {script received result} : Step ⟨script, some result, received, none⟩
    ⟨script, some result, received, some result⟩

/-
  Some schedule of the two parties ends with the reader
  having these bytes and this result.
-/
def Delivers (script : List (Op B E)) (received : List B) (result : Option E) : Prop :=
  ∃ s : State B E, ReflTransGen Step ⟨script, none, [], none⟩ s ∧
    s.received = received ∧ s.seen = some result

-- The Outcome

/- The chunks before the first close, and its result. -/
def outcome : List (Op B E) → Option (List B × Option E)
| [] => none
| .write chunk :: rest => (outcome rest).map (fun o => (chunk ++ o.1, o.2))
| .close result :: _ => some ([], result)

theorem outcome_writes (chunks : List (List B)) (script : List (Op B E)) :
    outcome (chunks.map .write ++ script) = (outcome script).map
      (fun o => (chunks.flatten ++ o.1, o.2)) := by
  induction chunks with
  | nil => simp
  | cons chunk chunks ih =>
    simp only [List.map_cons, List.cons_append, outcome, ih, Option.map_map, List.flatten_cons,
      List.append_assoc]
    rfl

/- What the reader will have seen in the end. -/
def expected (s : State B E) : Option (List B × Option E) :=
  match s.closed with
  | some result => some (s.received, result)
  | none => (outcome s.script).map (fun o => (s.received ++ o.1, o.2))

/- The reader only sees the result of the first close. -/
def SeenClosed (s : State B E) : Prop :=
  ∀ result, s.seen = some result → s.closed = some result

theorem Step.expected_eq {s s' : State B E} (hStep : Step s s') : expected s' = expected s := by
  cases hStep with
  | write => simp [expected, outcome, Function.comp_def]
  | writeClosed | closeAgain | finish => rfl
  | close => simp [expected, outcome]

theorem Step.seenClosed {s s' : State B E} (hStep : Step s s') (hSeen : SeenClosed s) :
    SeenClosed s' := by
  cases hStep with
  | write | writeClosed | closeAgain => exact hSeen
  | close =>
    intro result hResult
    have hNone := hSeen result hResult
    simp at hNone
  | finish =>
    intro result hResult
    exact hResult

theorem run_expected {s s' : State B E} (hRun : ReflTransGen Step s s') (hSeen : SeenClosed s) :
    expected s' = expected s ∧ SeenClosed s' := by
  induction hRun with
  | refl => exact ⟨rfl, hSeen⟩
  | tail _ hStep ih => exact ⟨hStep.expected_eq.trans ih.1, hStep.seenClosed ih.2⟩

theorem exists_run_to_close {script bytes result} (hOutcome : outcome script = some (bytes, result))
    (received : List B) : ∃ rest, ReflTransGen Step (⟨script, none, received, none⟩ : State B E)
      ⟨rest, some result, received ++ bytes, none⟩ := by
  induction script generalizing received bytes with
  | nil => simp [outcome] at hOutcome
  | cons op script ih =>
    cases op with
    | write chunk =>
      simp only [outcome, Option.map_eq_some_iff, Prod.mk.injEq] at hOutcome
      rcases hOutcome with ⟨⟨bs, r⟩, hRest, rfl, rfl⟩
      rcases ih hRest (received ++ chunk) with ⟨rest, hRun⟩
      refine ⟨rest, ?_⟩
      rw [← List.append_assoc]
      exact ReflTransGen.head Step.write hRun
    | close r =>
      rcases hOutcome with ⟨rfl, rfl⟩
      refine ⟨script, ?_⟩
      rw [List.append_nil]
      exact ReflTransGen.single Step.close

/- The reader's view does not depend on the schedule. -/
theorem delivers_iff {script : List (Op B E)} {received : List B} {result : Option E} :
    Delivers script received result ↔ outcome script = some (received, result) := by
  constructor
  · rintro ⟨s, hRun, rfl, hResult⟩
    have hInit : SeenClosed (⟨script, none, [], none⟩ : State B E) := by simp [SeenClosed]
    rcases run_expected hRun hInit with ⟨hExpected, hSeen⟩
    have hClosed := hSeen result hResult
    simpa [expected, hClosed] using hExpected.symm
  · intro hOutcome
    rcases exists_run_to_close hOutcome [] with ⟨rest, hRun⟩
    exact ⟨_, hRun.tail Step.finish, rfl, rfl⟩

end Pipe
