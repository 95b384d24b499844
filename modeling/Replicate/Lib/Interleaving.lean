import Mathlib.Logic.Relation
import Mathlib.Tactic.Common

/-
  Operations that run concurrently on a shared state.

  Each operation makes atomic calls, one after the other,
  and remembers what it needs of their answers between
  them. Any number of operations can be under way, and the
  shared state can also change by itself. The proof rule is
  rely-guarantee: what an operation remembers has to stay
  true under whatever any step can do to the shared state.

  Main declarations:
    * `System`
    * `Step` and `Run`
    * `Sound`
    * `Sound.run`
-/

-- Systems

namespace Interleaving

/-
  A system over shared states `σ` and operations `τ`. A
  value of `τ` is an operation together with how far it
  got; a call may end it, which is the answer `none`.
-/
structure System (σ τ : Type) where
  world : σ → σ → Prop
  starts : τ → Prop
  call : σ → τ → σ → Option τ → Prop

/- The shared state and the operations under way. -/
structure State (σ τ : Type) where
  shared : σ
  tasks : List τ

variable {σ τ : Type}

/- One atomic step of the system. -/
inductive Step (sys : System σ τ) : State σ τ → State σ τ → Prop where
  | world {s s' tasks} (hWorld : sys.world s s') : Step sys ⟨s, tasks⟩ ⟨s', tasks⟩
  | start {s t tasks} (hStarts : sys.starts t) : Step sys ⟨s, tasks⟩ ⟨s, t :: tasks⟩
  | call {s s' t next before after} (hCall : sys.call s t s' next) :
    Step sys ⟨s, before ++ t :: after⟩ ⟨s', before ++ next.toList ++ after⟩

/- The operation that was started last makes a call. -/
theorem Step.last
    {sys : System σ τ}
    {s s' : σ}
    {t : τ}
    {next : Option τ}
    {tasks : List τ}
    (hCall : sys.call s t s' next) :
    Step sys ⟨s, t :: tasks⟩ ⟨s', next.toList ++ tasks⟩ :=
  @Step.call _ _ sys s s' t next [] tasks hCall

/- Any number of steps. -/
def Run (sys : System σ τ) : State σ τ → State σ τ → Prop :=
  Relation.ReflTransGen (Step sys)

-- The Rely-Guarantee Rule

/-
  `inv` is an invariant of the shared state, `holds` says
  what an operation under way knows about it, and every
  step stays within `rely`, which keeps that knowledge.
-/
structure Sound (sys : System σ τ) (inv : σ → Prop) (holds : σ → τ → Prop)
    (rely : σ → σ → Prop) : Prop where
  world : ∀ s s', inv s → sys.world s s' → inv s' ∧ rely s s'
  starts : ∀ s t, inv s → sys.starts t → holds s t
  call : ∀ s t s' next, inv s → holds s t → sys.call s t s' next →
    inv s' ∧ rely s s' ∧ ∀ t' ∈ next, holds s' t'
  stable : ∀ s s' t, rely s s' → holds s t → holds s' t

variable {sys : System σ τ} {inv : σ → Prop} {holds : σ → τ → Prop} {rely : σ → σ → Prop}

/- The invariant, with what every operation knows. -/
def Holds (inv : σ → Prop) (holds : σ → τ → Prop) (x : State σ τ) : Prop :=
  inv x.shared ∧ ∀ t ∈ x.tasks, holds x.shared t

theorem Sound.step (hSound : Sound sys inv holds rely) {x y} (hHolds : Holds inv holds x)
    (hStep : Step sys x y) : Holds inv holds y := by
  rcases hHolds with ⟨hInv, hTasks⟩
  cases hStep with
  | world hWorld =>
    rcases hSound.world _ _ hInv hWorld with ⟨hInv', hRely⟩
    exact ⟨hInv', fun t ht => hSound.stable _ _ t hRely (hTasks t ht)⟩
  | start hStarts =>
    refine ⟨hInv, fun t ht => ?_⟩
    rcases List.mem_cons.mp ht with rfl | hOld
    · exact hSound.starts _ _ hInv hStarts
    · exact hTasks t hOld
  | @call s s' t next before after hCall =>
    rcases hSound.call _ _ _ _ hInv (hTasks t (by simp)) hCall with ⟨hInv', hRely, hNext⟩
    refine ⟨hInv', fun u hu => ?_⟩
    rcases List.mem_append.mp hu with hFront | hAfter
    · rcases List.mem_append.mp hFront with hBefore | hSelf
      · exact hSound.stable _ _ u hRely (hTasks u (List.mem_append_left _ hBefore))
      · exact hNext u (Option.mem_toList.mp hSelf)
    · exact hSound.stable _ _ u hRely (hTasks u (by simp [hAfter]))

theorem Sound.step_rely (hSound : Sound sys inv holds rely) (hRefl : ∀ s, rely s s) {x y}
    (hHolds : Holds inv holds x) (hStep : Step sys x y) : rely x.shared y.shared := by
  rcases hHolds with ⟨hInv, hTasks⟩
  cases hStep with
  | world hWorld => exact (hSound.world _ _ hInv hWorld).2
  | start hStarts => exact hRefl _
  | @call s s' t next before after hCall =>
    exact (hSound.call _ _ _ _ hInv (hTasks t (by simp)) hCall).2.1

/- Along every run the invariant holds. -/
theorem Sound.run (hSound : Sound sys inv holds rely) {x y} (hHolds : Holds inv holds x)
    (hRun : Run sys x y) : Holds inv holds y := by
  induction hRun with
  | refl => exact hHolds
  | tail _ hStep ih => exact hSound.step ih hStep

end Interleaving
