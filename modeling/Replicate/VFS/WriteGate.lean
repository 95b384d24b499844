import Mathlib.Logic.Function.Basic
import Replicate.VFS.Index

/-
  Enabling and disabling writes while a file is in use.

  Every method holds the mutex of the file from its start to
  its end, except while it waits on the condition variable.
  So a step is what one goroutine does from getting the
  mutex to giving it back, and between two steps the mutex
  is free. Of the file only what decides about writing is
  kept. Timeouts, cancellations and what a sync meets are
  answers that every call may get.

  Main declarations:
    * `WriteGate.Safe` and `GateState.Step.safe`
    * `disabling_writes_safe`
-/

-- The Methods

namespace Replicate

/- How `syncToRemoteWithLock` ends. -/
inductive SyncAnswer where
  | conflict
  | uploadFailed
  | cacheFailed
  | clearFailed
  | ok
  deriving DecidableEq, Repr

/-
  The fields that decide about writing, the dirty pages, and
  for each upload that was tried, failed ones included,
  whether there was a transaction.
-/
structure WriteGate where
  writeEnabled : Bool
  disabling : Bool
  inTransaction : Bool
  dirty : List Nat
  lockType : LockType
  uploads : List Bool
  deriving DecidableEq, Repr

inductive DisableErr where
  | cancelled
  | timeout
  | sync (answer : SyncAnswer)
  deriving DecidableEq, Repr

inductive DisableOutcome where
  | waits
  | failed (err : DisableErr)
  | disabled
  deriving DecidableEq, Repr

namespace WriteGate

/- `Lock`, once it need not wait. Others may be writing. -/
def lock (elock : LockType) (busy : Bool) (g : WriteGate) : WriteGate :=
  if LockType.reserved.rank ≤ elock.rank ∧ g.writeEnabled = false then g
  else if g.writeEnabled ∧ LockType.reserved.rank ≤ elock.rank ∧ g.inTransaction = false then
    if busy then g else { g with inTransaction := true, lockType := elock }
  else { g with lockType := elock }

/- `Lock` has to wait. -/
def blocks (elock : LockType) (g : WriteGate) : Bool :=
  decide (LockType.reserved.rank ≤ elock.rank) && g.disabling

/- `Unlock` ends a transaction. -/
def ends (elock : LockType) (g : WriteGate) : Bool :=
  g.writeEnabled && g.inTransaction && decide (elock.rank < LockType.reserved.rank)

def unlock (elock : LockType) (g : WriteGate) : WriteGate :=
  { g with inTransaction := g.inTransaction && !g.ends elock, lockType := elock }

def writeAt (pgno : Nat) (g : WriteGate) : WriteGate :=
  if g.writeEnabled then { g with dirty := pgno :: g.dirty } else g

def syncToRemoteWithLock (answer : SyncAnswer) (g : WriteGate) : WriteGate :=
  match answer with
  | .conflict => g
  | .uploadFailed | .cacheFailed => { g with uploads := g.inTransaction :: g.uploads }
  | .clearFailed | .ok => { g with uploads := g.inTransaction :: g.uploads, dirty := [] }

def sync (answer : SyncAnswer) (g : WriteGate) : WriteGate :=
  if g.writeEnabled = false ∨ g.dirty = [] ∨ g.inTransaction then g
  else g.syncToRemoteWithLock answer

def disabled (g : WriteGate) : WriteGate :=
  { g with writeEnabled := false, disabling := false }

/-
  `SetWriteEnabledWithTimeout(false)` from its loop on, with
  the error that ends a wait, if there is one.
-/
def disable (interrupt : Option DisableErr) (answer : SyncAnswer) (g : WriteGate) :
    WriteGate × DisableOutcome :=
  if g.inTransaction then
    match interrupt with
    | some err => ({ g with disabling := false }, .failed err)
    | none => (g, .waits)
  else if g.dirty = [] then (g.disabled, .disabled)
  else if answer = .ok then ((g.syncToRemoteWithLock answer).disabled, .disabled)
  else ({ g.syncToRemoteWithLock answer with disabling := false }, .failed (.sync answer))

end WriteGate

-- Goroutines

/- Where a goroutine is while it does not have the mutex. -/
inductive Goroutine where
  | idle
  | inLock (elock : LockType) (woken : Bool)
  | inDisable (woken : Bool)
  deriving DecidableEq, Repr

/- `Broadcast` wakes all that wait. -/
def Goroutine.wake : Goroutine → Goroutine
| .idle => .idle
| .inLock elock _ => .inLock elock true
| .inDisable _ => .inDisable true

structure GateState (ι : Type) where
  gate : WriteGate
  procs : ι → Goroutine

namespace GateState

variable {ι : Type}

def broadcast (s : GateState ι) : GateState ι :=
  { s with procs := fun i => (s.procs i).wake }

variable [DecidableEq ι]

/- One goroutine gives the mutex back. -/
def set (s : GateState ι) (i : ι) (g : WriteGate) (p : Goroutine) : GateState ι :=
  ⟨g, Function.update s.procs i p⟩

/- What a disable call does until it waits or returns. -/
def disable (s : GateState ι) (i : ι) (interrupt : Option DisableErr) (answer : SyncAnswer) :
    GateState ι :=
  match s.gate.disable interrupt answer with
  | (g, .waits) => s.set i g (.inDisable false)
  | (g, _) => (s.set i g .idle).broadcast

/- A wait may be interrupted by a timeout or the context. -/
def Interrupts (interrupt : Option DisableErr) : Prop :=
  ∀ err, interrupt = some err → err = .cancelled ∨ err = .timeout

inductive Step : GateState ι → GateState ι → Prop where
  | lock {s i elock} (busy : Bool) (hIdle : s.procs i = .idle)
    (hUp : s.gate.lockType.rank ≤ elock.rank) (hFree : s.gate.blocks elock = false) :
    Step s (s.set i (s.gate.lock elock busy) .idle)
  | lockWaits {s i elock} (hIn : s.procs i = .idle ∨ s.procs i = .inLock elock true)
    (hBlocks : s.gate.blocks elock = true) :
    Step s (s.set i s.gate (.inLock elock false))
  | lockWoken {s i elock} (busy : Bool) (hIn : s.procs i = .inLock elock true)
    (hFree : s.gate.blocks elock = false) :
    Step s (s.set i (s.gate.lock elock busy) .idle)
  | unlock {s i elock} (hIdle : s.procs i = .idle) (hTarget : elock = .shared ∨ elock = .none) :
    Step s (if s.gate.ends elock then (s.set i (s.gate.unlock elock) .idle).broadcast
      else s.set i (s.gate.unlock elock) .idle)
  | writeAt {s i} (pgno : Nat) (hIdle : s.procs i = .idle) :
    Step s (s.set i (s.gate.writeAt pgno) .idle)
  | sync {s i} (answer : SyncAnswer) (hIdle : s.procs i = .idle) :
    Step s (s.set i (s.gate.sync answer) .idle)
  | enable {s i} (hIdle : s.procs i = .idle) :
    Step s (s.set i { s.gate with writeEnabled := true } .idle)
  | disable {s i interrupt} (answer : SyncAnswer) (hIdle : s.procs i = .idle)
    (hEnabled : s.gate.writeEnabled = true) (hInterrupt : Interrupts interrupt) :
    Step s (GateState.disable { s with gate.disabling := true } i interrupt answer)
  | disableWoken {s i interrupt} (answer : SyncAnswer) (hIn : s.procs i = .inDisable true)
    (hInterrupt : Interrupts interrupt) :
    Step s (s.disable i interrupt answer)
  -- the watcher of a disable call, on a timeout or the context
  | wake {s} : Step s s.broadcast

/- A file that was just opened. -/
def opened (writeEnabled : Bool) : GateState ι :=
  ⟨⟨writeEnabled, false, false, [], .none, []⟩, fun _ => .idle⟩

end GateState

-- What Every Step Keeps

/- Without write support nothing is left to write. -/
structure WriteGate.Safe (g : WriteGate) : Prop where
  settled : g.writeEnabled = false → g.dirty = [] ∧ g.inTransaction = false
  outside : ∀ active ∈ g.uploads, active = false

namespace WriteGate

variable {g : WriteGate} {interrupt : Option DisableErr} {answer : SyncAnswer}

theorem Safe.lock (hSafe : g.Safe) (elock : LockType) (busy : Bool) : (g.lock elock busy).Safe := by
  unfold WriteGate.lock
  split
  · exact hSafe
  split
  · rename_i hWrites
    split
    · exact hSafe
    · refine ⟨fun hOff => ?_, hSafe.outside⟩
      rw [hWrites.1] at hOff
      cases hOff
  · exact ⟨hSafe.settled, hSafe.outside⟩

theorem Safe.upload (hSafe : g.Safe) (hIdle : g.inTransaction = false) (answer : SyncAnswer) :
    (g.syncToRemoteWithLock answer).Safe := by
  have hOutside : ∀ active ∈ g.inTransaction :: g.uploads, active = false := by
    intro active hMem
    rcases List.mem_cons.mp hMem with rfl | hOld
    · exact hIdle
    · exact hSafe.outside active hOld
  cases answer with
  | conflict => exact hSafe
  | uploadFailed | cacheFailed => exact ⟨hSafe.settled, hOutside⟩
  | clearFailed | ok => exact ⟨fun _ => ⟨rfl, hIdle⟩, hOutside⟩

theorem Safe.sync (hSafe : g.Safe) (answer : SyncAnswer) : (g.sync answer).Safe := by
  unfold WriteGate.sync
  split
  · exact hSafe
  · rename_i hGoes
    simp only [not_or, Bool.not_eq_true] at hGoes
    exact hSafe.upload hGoes.2.2 answer

theorem Safe.disable (hSafe : g.Safe) (interrupt : Option DisableErr) (answer : SyncAnswer) :
    (g.disable interrupt answer).1.Safe := by
  unfold WriteGate.disable
  split
  · split
    · exact ⟨hSafe.settled, hSafe.outside⟩
    · exact hSafe
  rename_i hIdle
  rw [Bool.not_eq_true] at hIdle
  split
  · rename_i hClean
    exact ⟨fun _ => ⟨hClean, hIdle⟩, hSafe.outside⟩
  have hUpload := hSafe.upload hIdle answer
  split
  · rename_i hOk
    subst hOk
    exact ⟨fun _ => ⟨rfl, hIdle⟩, hUpload.outside⟩
  · exact ⟨hUpload.settled, hUpload.outside⟩

theorem disable_keeps (hNot : (g.disable interrupt answer).2 ≠ .disabled)
    (hClear : (g.disable interrupt answer).2 ≠ .failed (.sync .clearFailed)) :
    (g.disable interrupt answer).1.writeEnabled = g.writeEnabled ∧
      (g.disable interrupt answer).1.dirty = g.dirty := by
  unfold WriteGate.disable at hNot hClear ⊢
  split
  · split
    · exact ⟨rfl, rfl⟩
    · exact ⟨rfl, rfl⟩
  rename_i hIdle
  rw [if_neg hIdle] at hNot hClear
  split
  · rename_i hClean
    exact absurd (if_pos hClean ▸ rfl) hNot
  rename_i hDirty
  rw [if_neg hDirty] at hNot hClear
  cases answer with
  | conflict | uploadFailed | cacheFailed => exact ⟨rfl, rfl⟩
  | clearFailed => exact absurd rfl hClear
  | ok => exact absurd rfl hNot

theorem disable_failed {err} (hFailed : (g.disable interrupt answer).2 = .failed err) :
    (g.disable interrupt answer).1.disabling = false := by
  unfold WriteGate.disable at hFailed ⊢
  split
  · rename_i hBusy
    rw [if_pos hBusy] at hFailed
    cases interrupt with
    | some err => rfl
    | none => cases hFailed
  rename_i hIdle
  split
  · rfl
  · split
    · rfl
    · rfl

end WriteGate

namespace GateState

variable {ι : Type} [DecidableEq ι] {s s' : GateState ι} {i : ι}
variable {interrupt : Option DisableErr} {answer : SyncAnswer}

theorem gate_disable : (s.disable i interrupt answer).gate = (s.gate.disable interrupt answer).1 := by
  unfold disable
  split
  · rename_i hOutcome
    rw [hOutcome]
    rfl
  · rename_i hOutcome
    rw [hOutcome]
    rfl

theorem disable_wakes {err} (hFailed : (s.gate.disable interrupt answer).2 = .failed err) (j : ι)
    (elock : LockType) : (s.disable i interrupt answer).procs j ≠ .inLock elock false := by
  unfold disable
  split
  · rename_i hOutcome
    rw [hOutcome] at hFailed
    cases hFailed
  intro hBlocked
  rename_i g outcome hOutcome _
  dsimp only [broadcast] at hBlocked
  cases hProc : (s.set i g .idle).procs j with
  | _ =>
    rw [hProc] at hBlocked
    cases hBlocked

theorem Step.safe (hSafe : s.gate.Safe) (hStep : Step s s') : s'.gate.Safe := by
  cases hStep with
  | lock busy | lockWoken busy => exact hSafe.lock _ busy
  | lockWaits | wake => exact hSafe
  | unlock =>
    rename_i elock _ _
    have hUnlock : (s.gate.unlock elock).Safe := by
      refine ⟨fun hOff => ⟨(hSafe.settled hOff).1, ?_⟩, hSafe.outside⟩
      unfold WriteGate.unlock
      rw [(hSafe.settled hOff).2]
      rfl
    split
    · exact hUnlock
    · exact hUnlock
  | writeAt pgno =>
    unfold set WriteGate.writeAt
    split
    · rename_i hOn
      refine ⟨fun hOff => ?_, hSafe.outside⟩
      rw [hOn] at hOff
      cases hOff
    · exact hSafe
  | sync answer => exact hSafe.sync answer
  | enable => exact ⟨nofun, hSafe.outside⟩
  | disable =>
    have hBegun : ({ s.gate with disabling := true } : WriteGate).Safe :=
      ⟨hSafe.settled, hSafe.outside⟩
    rw [gate_disable]
    exact hBegun.disable _ _
  | disableWoken =>
    rw [gate_disable]
    exact hSafe.disable _ _

end GateState

-- Disabling Writes

open GateState

theorem disabling_writes_safe {ι : Type} [DecidableEq ι] {writeEnabled : Bool} {s : GateState ι}
    (hRun : Relation.ReflTransGen Step (opened writeEnabled) s) :
    (s.gate.writeEnabled = false → s.gate.dirty = [] ∧ s.gate.inTransaction = false) ∧
      (∀ active ∈ s.gate.uploads, active = false) ∧
      ∀ t, t = s ∨ t = { s with gate.disabling := true } → ∀ i interrupt answer,
        let outcome := (t.gate.disable interrupt answer).2
        let t' := t.disable i interrupt answer
        (outcome ≠ .disabled → outcome ≠ .failed (.sync .clearFailed) →
          t'.gate.writeEnabled = s.gate.writeEnabled ∧ t'.gate.dirty = s.gate.dirty) ∧
        ∀ err, outcome = .failed err →
          t'.gate.disabling = false ∧ ∀ j elock, t'.procs j ≠ .inLock elock false := by
  have hSafe : s.gate.Safe := by
    induction hRun with
    | refl => exact ⟨fun _ => ⟨rfl, rfl⟩, nofun⟩
    | tail _ hStep ih => exact hStep.safe ih
  refine ⟨hSafe.settled, hSafe.outside, ?_⟩
  intro t hStart i interrupt answer
  dsimp only
  rw [gate_disable]
  refine ⟨fun hNot hClear => ?_, fun err hFailed => ⟨WriteGate.disable_failed hFailed, ?_⟩⟩
  · rcases hStart with rfl | rfl
    · exact WriteGate.disable_keeps hNot hClear
    · exact WriteGate.disable_keeps hNot hClear
  · exact disable_wakes hFailed

/- A disable call times out in a transaction. -/
theorem timed_out_disable_wakes :
    let s := (opened true : GateState Bool).set false
      (WriteGate.lock .reserved false ⟨true, false, false, [], .none, []⟩) .idle
    (s.disable true (some .timeout) .ok).gate.disabling = false ∧ s.gate.inTransaction = true := by
  intro s
  have hRun : Relation.ReflTransGen Step (opened true) s := .single (Step.lock false rfl (by decide) rfl)
  exact ⟨(((disabling_writes_safe hRun).2.2 s (.inl rfl) true (some .timeout) .ok).2 .timeout rfl).1, rfl⟩

end Replicate
