import Replicate.DB.PositionCache

/-
  What the cache and the goroutines know of the directory.

  Whoever changes the directory owes an update of the
  cache. While no worker owes one, what is claimed of the
  last file is right. While no `os.RemoveAll` is at work,
  it is right unless the directory is empty, and this is
  what the numbers of new files rest on.

  Main declarations:
    * `Inv.keep`
    * `Inv.worker` and `Inv.writer`
    * `Inv.step`
-/

-- The Last File

namespace Replicate

open List Function

namespace PositionCache

open IntervalChain

variable {D : Type} {l0 rest : List (LocalFile D)} {file g : LocalFile D} {p : Nat}

/- The last file is the one of a position. -/
def EndsWith (p : Nat) (l0 : List (LocalFile D)) : Prop :=
  ∃ file, l0.getLast? = some file ∧ file.maxTXID = p ∧ file.data.verify = .ok p

/- The scan prefers no such name to that of the file. -/
def Below (file : LocalFile D) (name : Nat × Nat) : Prop :=
  name = nameOf file ∨ name.2 < file.maxTXID

/- What a scan has found, or will find. -/
def Scanned (todo : List (Nat × Nat)) (best : Nat × Nat) (l0 : List (LocalFile D)) : Prop :=
  (∃ file, l0.getLast? = some file ∧ Below file best ∧ (∀ name ∈ todo, Below file name) ∧
    (nameOf file ∈ todo ∨ best = nameOf file)) ∨
  (l0 = [] ∧ todo = [] ∧ best.1 = 0)

theorem Tiled.consecutive (hTiled : Tiled l0) : Consecutive l0 := by
  rcases hTiled with ⟨c, hTiles⟩
  exact ⟨c, l0, Perm.refl l0, hTiles⟩

theorem Tiled.proper (hTiled : Tiled l0) (hMem : file ∈ l0) :
    0 < file.minTXID ∧ file.minTXID ≤ file.maxTXID := by
  rcases hTiled with ⟨c, hTiles⟩
  exact ⟨Nat.zero_lt_of_lt (hTiles.lt_lo hMem), hTiles.lo_le_hi hMem⟩

theorem Tiled.below_last (hTiled : Tiled l0) (hLast : l0.getLast? = some file) (hMem : g ∈ l0) :
    g = file ∨ g.maxTXID < file.maxTXID := by
  have hProper := hTiled.proper (mem_of_getLast? hLast)
  rcases hTiled with ⟨c, hTiles⟩
  rcases getLast?_eq_some_iff.mp hLast with ⟨front, rfl⟩
  rcases mem_append.mp hMem with hFront | hSelf
  · have hApart := (pairwise_append.mp hTiles.apart).2.2 g hFront file (mem_singleton_self file)
    exact Or.inr (by omega)
  · exact Or.inl (mem_singleton.mp hSelf)

theorem Tiled.newest_eq (hTiled : Tiled l0)
    (hLast : l0.getLast? = some file) : newest l0 = some file := by
  have hMem : file ∈ l0 := mem_of_getLast? hLast
  have hProper := hTiled.proper hMem
  have hSpec := newest_spec l0
  cases hNewest : newest l0 with
  | none =>
    simp only [hNewest] at hSpec
    have hZero := hSpec file hMem
    omega
  | some g =>
    simp only [hNewest] at hSpec
    rcases hTiled.below_last hLast hSpec.1 with hEq | hLt
    · rw [hEq]
    · have hLe := hSpec.2 file hMem
      omega

theorem Tiled.without_first (hTiled : Tiled l0) {name} (hName : name ∈ names l0)
    (hFirst : ∀ file ∈ l0, name.1 ≤ file.minTXID) :
    ∃ file rest, l0 = file :: rest ∧ without name l0 = rest ∧ Tiled rest := by
  rcases hTiled with ⟨c, hTiles⟩
  cases l0 with
  | nil => simp [names] at hName
  | cons file rest =>
    have hApart := pairwise_cons.mp hTiles.apart
    have hLe := hFirst file mem_cons_self
    have hSelf : nameOf file = name := by
      rcases mem_map.mp hName with ⟨g, hg, rfl⟩
      rcases mem_cons.mp hg with rfl | hRest
      · rfl
      · have hNext := hApart.1 g hRest
        have hMin : (nameOf g).1 = g.minTXID := rfl
        omega
    have hKept : ∀ g ∈ rest, (nameOf g != name) = true := by
      intro g hg
      have hNext := hApart.1 g hg
      rw [bne_iff_ne, ← hSelf]
      intro hEq
      have hMin : g.minTXID = file.minTXID := congrArg Prod.fst hEq
      omega
    refine ⟨file, rest, rfl, ?_, _, hTiles.2.2⟩
    unfold without
    rw [filter_cons_of_neg (by simp [hSelf])]
    exact filter_eq_self.mpr hKept

theorem Tiled.placed_next (hTiled : Tiled l0) (hEnd : l0 = [] ∨ EndsWith p l0) (data : Bytes D) :
    placed ⟨p + 1, p + 1, data⟩ l0 = l0 ++ [⟨p + 1, p + 1, data⟩] ∧
      Tiled (l0 ++ [⟨p + 1, p + 1, data⟩]) := by
  rcases hEnd with rfl | ⟨last, hLast, hMax, _⟩
  · exact ⟨rfl, p, rfl, Nat.lt_succ_self p, trivial⟩
  have hOther : ∀ g ∈ l0, (nameOf g != nameOf (⟨p + 1, p + 1, data⟩ : LocalFile D)) = true := by
    intro g hg
    rw [bne_iff_ne]
    intro hEq
    have hEnd : g.maxTXID = p + 1 := congrArg Prod.snd hEq
    rcases hTiled.below_last hLast hg with rfl | hLt <;> omega
  refine ⟨?_, ?_⟩
  · unfold placed without
    rw [filter_eq_self.mpr hOther]
  · rcases hTiled with ⟨c, hTiles⟩
    refine ⟨c, (tiles_append_singleton c l0 _).mpr ?_⟩
    have hReach : reach LocalFile.maxTXID c l0 = p := by
      rcases getLast?_eq_some_iff.mp hLast with ⟨front, rfl⟩
      rw [reach_append]
      exact hMax
    rw [hReach]
    exact ⟨hTiles, rfl, Nat.lt_succ_self p⟩

theorem endsWith_append (l0 : List (LocalFile D)) (layer : PageHistory.Layer D) :
    EndsWith p (l0 ++ [⟨p, p, .ltx p layer⟩]) :=
  ⟨⟨p, p, .ltx p layer⟩, getLast?_append_of_ne_nil l0 (by simp), rfl, rfl⟩

-- Scans

section Scans

variable {name best : Nat × Nat} {todo : List (Nat × Nat)}

theorem scanned_readDir (hTiled : Tiled l0) : Scanned (names l0) (0, 0) l0 := by
  cases hLast : l0.getLast? with
  | none =>
    have hNil := getLast?_eq_none_iff.mp hLast
    subst hNil
    exact Or.inr ⟨rfl, rfl, rfl⟩
  | some file =>
    have hMem : file ∈ l0 := mem_of_getLast? hLast
    have hProper := hTiled.proper hMem
    refine Or.inl ⟨file, hLast, Or.inr ?_, ?_, Or.inl ?_⟩
    · change 0 < file.maxTXID
      omega
    · intro name hName
      rcases mem_map.mp hName with ⟨g, hg, rfl⟩
      rcases hTiled.below_last hLast hg with rfl | hLt
      · exact Or.inl rfl
      · exact Or.inr hLt
    · exact mem_map_of_mem hMem

theorem Scanned.found (hScanned : Scanned (name :: todo) best l0) :
    Scanned todo (if best.2 < name.2 then name else best) l0 := by
  rcases hScanned with ⟨file, hLast, hBest, hTodo, hFind⟩ | ⟨_, hNil, _⟩
  · have hName := hTodo name mem_cons_self
    refine Or.inl ⟨file, hLast, ?_, ?_, ?_⟩
    · split
      · exact hName
      · exact hBest
    · exact fun n hn => hTodo n (mem_cons_of_mem name hn)
    · have hMax : (nameOf file).2 = file.maxTXID := rfl
      rcases hFind with hMem | rfl
      · rcases mem_cons.mp hMem with rfl | hLater
        · -- the entry is the last file's own
          split
          · exact Or.inr rfl
          · rcases hBest with hSelf | hLt
            · exact Or.inr hSelf
            · omega
        · exact Or.inl hLater
      · -- no entry is preferred to the last file's
        rw [if_neg]
        · exact Or.inr rfl
        · rcases hName with rfl | hLt <;> omega
  · cases hNil

theorem Scanned.missing (hMissing : name ∉ names l0)
    (hScanned : Scanned (name :: todo) best l0) : Scanned todo best l0 := by
  rcases hScanned with ⟨file, hLast, hBest, hTodo, hFind⟩ | ⟨_, hNil, _⟩
  · refine Or.inl ⟨file, hLast, hBest, ?_, ?_⟩
    · exact fun n hn => hTodo n (mem_cons_of_mem name hn)
    · rcases hFind with hMem | hSelf
      · rcases mem_cons.mp hMem with rfl | hLater
        · exact absurd (mem_map_of_mem (mem_of_getLast? hLast)) hMissing
        · exact Or.inl hLater
      · exact Or.inr hSelf
  · cases hNil

theorem Scanned.opened (hTiled : Tiled l0) (hNamed : Named l0)
    (hMem : file ∈ l0) (hSome : file.minTXID ≠ 0) (hVerify : file.data.verify = .ok p)
    (hScanned : Scanned [] (nameOf file) l0) : EndsWith p l0 := by
  rcases hScanned with ⟨last, hLast, _, _, hNil | hName⟩ | ⟨_, _, hZero⟩
  · cases hNil
  · have hMax : file.maxTXID = last.maxTXID := congrArg Prod.snd hName
    rcases hTiled.below_last hLast hMem with rfl | hLt
    · exact ⟨file, hLast, (hNamed file hMem p hVerify).symm, hVerify⟩
    · omega
  · exact absurd hZero hSome

end Scans

-- Debts

/- A worker that has to clear the cache before it ends. -/
def Worker.owes : Worker → Bool
| .retention _ => true
| .deleted _ => true
| .reset .unlinking => true
| .reset .done => true
| _ => false

def Worker.unlinking : Worker → Bool
| .reset .unlinking => true
| _ => false

/- A writer that has changed the directory, not the cache. -/
def Writer.owes : Writer → Bool
| .syncRenamed _ => true
| .behindRemove _ .unlinking => true
| .behindRemove _ .done => true
| .behindRenamed => true
| _ => false

def Writer.unlinking : Writer → Bool
| .behindRemove _ .unlinking => true
| _ => false

/- The position that the file of a sync is to follow. -/
def Writer.follows : Writer → Option Nat
| .syncReady pos => some pos
| .syncTemp pos => some pos
| _ => none

/- The writer has removed all files. -/
def Writer.cleared : Writer → Bool
| .behindRemove _ .done => true
| .behindFetch _ => true
| .behindTemp _ => true
| _ => false

theorem Worker.owes_of_unlinking {w : Worker}
    (hUnlinking : w.unlinking = true) : w.owes = true := by
  unfold Worker.unlinking at hUnlinking
  split at hUnlinking
  · rfl
  · cases hUnlinking

theorem Writer.unlinking_eq_false {w : Writer} (hOwes : w.owes = false) : w.unlinking = false := by
  unfold Writer.unlinking
  split
  · cases hOwes
  · rfl

/- An `os.RemoveAll` has removed some of the files. -/
def State.Unlinking (s : State D) : Prop :=
  s.writer.unlinking = true ∨ ∃ i, (s.workers i).unlinking = true

/- A worker owes an update of the cache. -/
def State.Owed (s : State D) : Prop :=
  ∃ i, (s.workers i).owes = true

variable {s s' : State D} {exactly : Bool} {P : List (LocalFile D) → Prop}

theorem State.not_unlinking (hWriter : s.writer.unlinking = false)
    (hOwed : ¬ s.Owed) : ¬ s.Unlinking := by
  rintro (hUnlinking | ⟨i, hUnlinking⟩)
  · rw [hWriter] at hUnlinking
    cases hUnlinking
  · exact hOwed ⟨i, Worker.owes_of_unlinking hUnlinking⟩

-- The Invariant

/-
  What is claimed of the end of the directory: by a sync
  that is to write or has written a file, and by the cache
  and a scan unless the writer is in debt. The number of a
  sync is not claimed exactly.
-/
inductive Claims (s : State D) : Bool → (List (LocalFile D) → Prop) → Prop where
  | ready {p : Nat} (hNext : s.writer.follows = some p) : Claims s false (EndsWith p)
  | renamed {p : Nat} (hAt : s.writer = .syncRenamed p) : Claims s true (EndsWith p)
  | cached {p : Nat} (hOwes : s.writer.owes = false)
    (hCache : s.posCache = some p) : Claims s true (EndsWith p)
  | scanned {caller : Caller} {todo : List (Nat × Nat)} {best : Nat × Nat}
    (hOwes : s.writer.owes = false)
    (hPos : s.pos = some (caller, .entries todo best)) :
    Claims s true (Scanned todo best)
  | opened {caller : Caller} {data : Bytes D} {p : Nat} (hOwes : s.writer.owes = false)
    (hPos : s.pos = some (caller, .opened data))
    (hVerify : data.verify = .ok p) : Claims s true (EndsWith p)

structure Known (s : State D) (exactly : Bool) (P : List (LocalFile D) → Prop) : Prop where
  weak : ¬ s.Unlinking → s.l0 = [] ∨ P s.l0
  exact_ : exactly = true → ¬ s.Owed → P s.l0

structure Inv (s : State D) : Prop where
  named : Named s.l0
  tiled : ¬ s.Unlinking → Tiled s.l0
  cleared : s.writer.cleared = true → s.l0 = []
  known : ∀ exactly P, Claims s exactly P → Known s exactly P

theorem Claims.stable (hClaims : Claims s exactly P)
    (hEnd : P (file :: rest)) : rest = [] ∨ P rest := by
  cases rest with
  | nil => exact Or.inl rfl
  | cons g rest =>
    have hSame : (file :: g :: rest).getLast? = (g :: rest).getLast? := by simp
    cases hClaims <;>
      simp only [EndsWith, Scanned, hSame] at hEnd ⊢ <;>
      simp_all

theorem Claims.of_owes (hClaims : Claims s exactly P) (hOwes : s.writer.owes = true) :
    ∃ p, s.writer = .syncRenamed p ∧ P = EndsWith p := by
  cases hClaims with
  | ready hNext =>
    cases hAt : s.writer <;>
      simp [hAt, Writer.follows, Writer.owes] at hNext hOwes
  | renamed hAt => exact ⟨_, hAt, rfl⟩
  | cached hNot | scanned hNot | opened hNot => simp [hOwes] at hNot

theorem Claims.mono (hClaims : Claims s' exactly P)
    (hNext : ∀ p, s'.writer.follows = some p → s.writer.follows = some p)
    (hRenamed : ∀ p, s'.writer = .syncRenamed p → s.writer = .syncRenamed p)
    (hOwes : s'.writer.owes = false → s.writer.owes = false)
    (hCache : ∀ p, s'.posCache = some p → s.posCache = some p)
    (hPos : s'.pos = s.pos) : Claims s exactly P := by
  cases hClaims with
  | ready hSome => exact .ready (hNext _ hSome)
  | renamed hAt => exact .renamed (hRenamed _ hAt)
  | cached hNot hSome => exact .cached (hOwes hNot) (hCache _ hSome)
  | scanned hNot hScan => exact .scanned (hOwes hNot) (hPos ▸ hScan)
  | opened hNot hScan hVerify => exact .opened (hOwes hNot) (hPos ▸ hScan) hVerify

theorem Initial.inv (hInit : Initial s) : Inv s where
  named := hInit.named
  tiled := fun _ => hInit.tiled
  cleared := by simp [hInit.quiet.1, Writer.cleared]
  known := by
    intro exactly P hClaims
    cases hClaims <;>
      simp_all [hInit.quiet.1, hInit.uncached, hInit.unlocked, Writer.follows]

/- The directory is the same and the debts remain. -/
structure Keeps (s s' : State D) : Prop where
  l0 : s'.l0 = s.l0
  unlinking : s.l0 = [] ∨ (s.Unlinking → s'.Unlinking)
  owed : s.Owed → s'.Owed

theorem Keeps.known (hKeeps : Keeps s s') (hKnown : Known s exactly P) : Known s' exactly P := by
  refine ⟨fun hFree => ?_, fun hExact hNone => ?_⟩
  · rw [hKeeps.l0]
    rcases hKeeps.unlinking with hNil | hMore
    · exact Or.inl hNil
    · exact hKnown.weak (fun h => hFree (hMore h))
  · rw [hKeeps.l0]
    exact hKnown.exact_ hExact (fun h => hNone (hKeeps.owed h))

/- A step that leaves the directory and all debts. -/
theorem Inv.keep (hInv : Inv s) (hKeeps : Keeps s s')
    (hCleared : s'.writer.cleared = true → s.writer.cleared = true ∨ s.l0 = [])
    (hClaims : ∀ exactly P, Claims s' exactly P → Claims s exactly P ∨ Known s exactly P) :
    Inv s' where
  named := by
    rw [hKeeps.l0]
    exact hInv.named
  tiled := by
    intro hFree
    rw [hKeeps.l0]
    rcases hKeeps.unlinking with hNil | hMore
    · rw [hNil]
      exact ⟨0, trivial⟩
    · exact hInv.tiled (fun h => hFree (hMore h))
  cleared := by
    intro hNow
    rw [hKeeps.l0]
    exact (hCleared hNow).elim hInv.cleared id
  known := by
    intro exactly P hNow
    rcases hClaims exactly P hNow with hOld | hKnown
    · exact hKeeps.known (hInv.known exactly P hOld)
    · exact hKeeps.known hKnown

theorem Inv.shrink (hInv : Inv s) (hSubset : ∀ file ∈ s'.l0, file ∈ s.l0)
    (hWriter : s'.writer.cleared = true → s.writer.cleared = true)
    (hTiled : ¬ s'.Unlinking → Tiled s'.l0)
    (hKnown : ∀ exactly P, Claims s' exactly P → Known s' exactly P) : Inv s' where
  named := fun file hMem => hInv.named file (hSubset file hMem)
  tiled := hTiled
  cleared := by
    intro hNow
    have hNil := hInv.cleared (hWriter hNow)
    rw [eq_nil_iff_forall_not_mem]
    intro file hMem
    simpa [hNil] using hSubset file hMem
  known := hKnown

-- Steps Of The Workers

section Workers

variable {i : Nat} {w : Worker} {e : Effect D}

/- The state after a step of one worker. -/
def State.onWorker (s : State D) (e : Effect D) (i : Nat) (w : Worker) : State D :=
  { s.apply e with workers := update s.workers i w }

@[simp]
theorem State.onWorker_writer : (s.onWorker e i w).writer = s.writer := by
  cases e <;> rfl

@[simp]
theorem State.onWorker_pos : (s.onWorker e i w).pos = s.pos := by
  cases e <;> rfl

theorem unlinking_onWorker (hSelf : (s.workers i).unlinking = true → w.unlinking = true)
    (hUnlinking : s.Unlinking) : (s.onWorker e i w).Unlinking := by
  rcases hUnlinking with hOld | ⟨j, hOld⟩
  · exact Or.inl (by simpa using hOld)
  refine Or.inr ⟨j, ?_⟩
  by_cases hSame : j = i
  · subst hSame
    simpa [State.onWorker] using hSelf hOld
  · simpa [State.onWorker, update_of_ne hSame] using hOld

theorem owed_onWorker (hSelf : (s.workers i).owes = true → w.owes = true)
    (hOwed : s.Owed) : (s.onWorker e i w).Owed := by
  rcases hOwed with ⟨j, hOld⟩
  refine ⟨j, ?_⟩
  by_cases hSame : j = i
  · subst hSame
    simpa [State.onWorker] using hSelf hOld
  · simpa [State.onWorker, update_of_ne hSame] using hOld

theorem owed_self (hSelf : w.owes = true) : (s.onWorker e i w).Owed :=
  ⟨i, by simpa [State.onWorker] using hSelf⟩

theorem Claims.of_onWorker (hCache : ∀ p, (s.apply e).posCache = some p → s.posCache = some p)
    (hClaims : Claims (s.onWorker e i w) exactly P) : Claims s exactly P := by
  refine hClaims.mono ?_ ?_ ?_ hCache State.onWorker_pos <;> simp

theorem Inv.keepWorker (hInv : Inv s) (hL0 : (s.apply e).l0 = s.l0)
    (hCache : (s.apply e).posCache = s.posCache)
    (hUnlinking : s.l0 = [] ∨ ((s.workers i).unlinking = true → w.unlinking = true))
    (hOwes : (s.workers i).owes = true → w.owes = true) : Inv (s.onWorker e i w) := by
  refine hInv.keep ⟨hL0, hUnlinking.imp id unlinking_onWorker, owed_onWorker hOwes⟩ ?_ ?_
  · simpa using Or.inl
  · intro exactly P hClaims
    exact Or.inl (hClaims.of_onWorker (by simp [hCache]))

theorem Inv.remove (hInv : Inv s) {name} (hName : name ∈ names s.l0)
    (hFirst : ∀ file ∈ s.l0, name.1 ≤ file.minTXID) (hSelf : (s.workers i).unlinking = false)
    (hOwes : w.owes = true) : Inv (s.onWorker (.remove name) i w) := by
  have hMore : s.Unlinking → (s.onWorker (.remove name) i w).Unlinking :=
    unlinking_onWorker (by simp [hSelf])
  have hFirstOf : ¬ (s.onWorker (.remove name) i w).Unlinking → ∃ file rest, s.l0 = file :: rest ∧
    (s.onWorker (.remove name) i w).l0 = rest ∧ Tiled rest := by
    intro hFree
    exact (hInv.tiled (fun h => hFree (hMore h))).without_first hName hFirst
  refine hInv.shrink (fun file => mem_of_mem_filter) (by simp) ?_ ?_
  · intro hFree
    rcases hFirstOf hFree with ⟨file, rest, _, hRest, hTiled⟩
    rw [hRest]
    exact hTiled
  · intro exactly P hClaims
    have hOld := hClaims.of_onWorker (fun _ => id)
    refine ⟨fun hFree => ?_, fun _ hNone => absurd (owed_self hOwes) hNone⟩
    rcases hFirstOf hFree with ⟨file, rest, hCons, hRest, _⟩
    rw [hRest]
    rcases (hInv.known exactly P hOld).weak (fun h => hFree (hMore h)) with hNil | hEnd
    · rw [hNil] at hCons
      cases hCons
    · rw [hCons] at hEnd
      exact hOld.stable hEnd

theorem Inv.unlink (hInv : Inv s) (name : Nat × Nat) (hUnlinking : w.unlinking = true) :
    Inv (s.onWorker (.unlink name) i w) := by
  have hAt : (s.onWorker (.unlink name) i w).Unlinking :=
    Or.inr ⟨i, by simpa [State.onWorker] using hUnlinking⟩
  have hOwed : (s.onWorker (.unlink name) i w).Owed :=
    owed_self (Worker.owes_of_unlinking hUnlinking)
  refine hInv.shrink (fun file => mem_of_mem_filter) (by simp) (fun hFree => absurd hAt hFree) ?_
  exact fun _ _ _ => ⟨fun hFree => absurd hAt hFree, fun _ hNone => absurd hOwed hNone⟩

/-
  A worker clears the cache, and leaves. Only a sync that
  has renamed its file could be wrong now, but its file is
  there.
-/
theorem Inv.invalidate (hInv : Inv s) (hFree : s.pos = none) (hCareful : Careful s .invalidate)
    (hSelf : (s.workers i).unlinking = false) : Inv (s.onWorker .invalidate i w) := by
  have hMore : s.Unlinking → (s.onWorker .invalidate i w).Unlinking :=
    unlinking_onWorker (by simp [hSelf])
  refine hInv.shrink (fun file => id) (by simp)
    (fun hNot => hInv.tiled (fun h => hNot (hMore h))) ?_
  intro exactly P hClaims
  have hOld := hInv.known exactly P (hClaims.of_onWorker (fun _ hSome => by cases hSome))
  refine ⟨fun hNot => hOld.weak (fun h => hNot (hMore h)), ?_⟩
  intro hExact hNone
  cases hClaims with
  | ready => cases hExact
  | renamed hAt =>
    rw [State.onWorker_writer] at hAt
    have hNot : ¬ s.Unlinking := by
      refine fun h => State.not_unlinking ?_ hNone (hMore h)
      rw [State.onWorker_writer, hAt]
      rfl
    have hThere := hCareful _ hAt
    rcases hOld.weak hNot with hNil | hEnd
    · rw [hNil] at hThere
      cases hThere
    · exact hEnd
  | cached _ hSome => cases hSome
  | scanned _ hScan | opened _ hScan =>
    rw [State.onWorker_pos, hFree] at hScan
    cases hScan

theorem Inv.worker (hInv : Inv s) (hStep : Worker.Step s (s.workers i) e w) (hAllows : s.Allows e)
    (hCareful : Careful s e) : Inv (s.onWorker e i w) := by
  generalize hAt : s.workers i = v at hStep
  cases hStep with
  | startRetention | keepExpired | startDeletion | missingLocal | failLocal
  | endDeletion | startReset =>
    refine hInv.keepWorker rfl rfl (Or.inr ?_) ?_ <;>
      simp [hAt, Worker.unlinking, Worker.owes]
  | removeExpired | removeLocal => exact hInv.remove hAllows hCareful (by rw [hAt]; rfl) rfl
  | endRetention | invalidateLocal | endReset =>
    exact hInv.invalidate hAllows hCareful (by rw [hAt]; rfl)
  | removeAll hStep =>
    cases hStep with
    | unlink name hOpen => exact hInv.unlink name rfl
    | unlinkTemp hOpen => refine hInv.keepWorker rfl rfl (Or.inr ?_) ?_ <;> simp [hAt]
    | finish hOpen hEmpty hTemp => exact hInv.keepWorker rfl rfl (Or.inl hEmpty) (fun _ => rfl)
  | failReset hStep =>
    cases hStep with
    | fail =>
      refine hInv.keepWorker rfl rfl (Or.inr ?_) ?_ <;>
        simp [hAt, Worker.unlinking, Worker.owes]
    | abandon => exact absurd hCareful id

end Workers

-- Steps Of The Writer

section Writers

variable {w : Writer} {e : Effect D} {remote : Remote D} {info : FileInfo}

/- The state after a step of the writer. -/
def State.onWriter (s : State D) (e : Effect D) (w : Writer) : State D :=
  { s.apply e with writer := w }

@[simp]
theorem State.onWriter_writer : (s.onWriter e w).writer = w := rfl

@[simp]
theorem State.onWriter_workers : (s.onWriter e w).workers = s.workers := by
  cases e <;> rfl

@[simp]
theorem State.onWriter_pos : (s.onWriter e w).pos = s.pos := by
  cases e <;> rfl

theorem owed_onWriter : (s.onWriter e w).Owed ↔ s.Owed := by
  simp [State.Owed]

theorem unlinking_onWriter (hUnlinking : w.unlinking = s.writer.unlinking) :
    (s.onWriter e w).Unlinking ↔ s.Unlinking := by
  simp [State.Unlinking, hUnlinking]

theorem Inv.keepWriter (hInv : Inv s) (hL0 : (s.apply e).l0 = s.l0)
    (hUnlinking : s.l0 = [] ∨ w.unlinking = s.writer.unlinking)
    (hCleared : w.cleared = true → s.writer.cleared = true ∨ s.l0 = [])
    (hClaims : ∀ exactly P, Claims (s.onWriter e w) exactly P →
      Claims s exactly P ∨ Known s exactly P) : Inv (s.onWriter e w) :=
  hInv.keep ⟨hL0, hUnlinking.imp id (fun h => (unlinking_onWriter h).mpr),
    owed_onWriter.mpr⟩ hCleared hClaims

/- It has no number, no debt, and need not know of files. -/
def Writer.plain (w : Writer) : Bool :=
  !w.owes && w.follows.isNone && !w.cleared

theorem Inv.toPlain (hInv : Inv s) (hOwes : s.writer.owes = false) (hPlain : w.plain = true)
    (hL0 : (s.apply e).l0 = s.l0)
    (hCache : ∀ p, (s.apply e).posCache = some p → s.posCache = some p) : Inv (s.onWriter e w) := by
  simp only [Writer.plain, Bool.and_eq_true, Bool.not_eq_true', Option.isNone_iff_eq_none] at hPlain
  rcases hPlain with ⟨⟨hFree, hNext⟩, hCleared⟩
  refine hInv.keepWriter hL0 (Or.inr ?_) (by simp [hCleared]) ?_
  · rw [Writer.unlinking_eq_false hFree, Writer.unlinking_eq_false hOwes]
  · intro exactly P hClaims
    refine Or.inl (hClaims.mono ?_ ?_ (fun _ => hOwes) hCache State.onWriter_pos)
    · simp [hNext]
    · rintro p rfl
      cases hFree

theorem Inv.clear (hInv : Inv s) (hFree : s.pos = none)
    (hUnlinking : w.unlinking = s.writer.unlinking) (hOwes : w.owes = false)
    (hNext : w.follows = none) (hCleared : w.cleared = true → s.writer.cleared = true) :
    Inv (s.onWriter .invalidate w) := by
  refine hInv.keepWriter rfl (Or.inr hUnlinking) (fun h => Or.inl (hCleared h)) ?_
  intro exactly P hClaims
  cases hClaims with
  | ready hSome => simp [hNext] at hSome
  | renamed hAt =>
    subst hAt
    cases hOwes
  | cached _ hSome => cases hSome
  | scanned _ hScan | opened _ hScan => simp [hFree] at hScan

/- Nothing but the writer adds files. -/
theorem Inv.rename (hInv : Inv s) (hAt : s.writer = .syncTemp p) (layer : PageHistory.Layer D) :
    Inv (s.onWriter (.rename ⟨p + 1, p + 1, .ltx (p + 1) layer⟩) (.syncRenamed (p + 1))) := by
  generalize hTo : s.onWriter (.rename ⟨p + 1, p + 1, .ltx (p + 1) layer⟩)
    (.syncRenamed (p + 1)) = s'
  have hL0 : s'.l0 = placed ⟨p + 1, p + 1, .ltx (p + 1) layer⟩ s.l0 := by
    rw [← hTo]
    rfl
  have hWriter : s'.writer = .syncRenamed (p + 1) := by rw [← hTo]; rfl
  have hSame : s'.Unlinking ↔ s.Unlinking := by rw [← hTo, unlinking_onWriter (by rw [hAt]; rfl)]
  have hReady := hInv.known false (EndsWith p) (.ready (by rw [hAt]; rfl))
  have hNew : ¬ s'.Unlinking → Tiled s'.l0 ∧ EndsWith (p + 1) s'.l0 := by
    intro hFree
    rw [hSame] at hFree
    rcases (hInv.tiled hFree).placed_next (hReady.weak hFree)
      (.ltx (p + 1) layer) with ⟨hPlaced, hTiled⟩
    rw [hL0, hPlaced]
    exact ⟨hTiled, endsWith_append s.l0 layer⟩
  refine ⟨?_, fun hFree => (hNew hFree).1, by simp [hWriter, Writer.cleared], ?_⟩
  · intro file hMem txID hVerify
    rw [hL0] at hMem
    rcases mem_append.mp hMem with hOld | hNow
    · exact hInv.named file (mem_of_mem_filter hOld) txID hVerify
    · rw [mem_singleton.mp hNow] at hVerify ⊢
      exact (Except.ok.inj hVerify).symm
  · intro exactly P hClaims
    rcases hClaims.of_owes (by rw [hWriter]; rfl) with ⟨q, hSelf, rfl⟩
    rw [hWriter] at hSelf
    cases hSelf
    refine ⟨fun hFree => Or.inr (hNew hFree).2, fun _ hNone => ?_⟩
    exact (hNew (State.not_unlinking (by rw [hWriter]; rfl) hNone)).2

theorem Inv.renameFetched (hInv : Inv s) (hAt : s.writer = .behindTemp info) {data}
    (hDelivers : remote.delivers info data) :
    Inv (s.onWriter (.rename ⟨info.minTXID, info.maxTXID, data⟩) .behindRenamed) := by
  have hNil : s.l0 = [] := hInv.cleared (by rw [hAt]; rfl)
  have hProper := remote.proper info data hDelivers
  have hL0 : (s.onWriter (.rename ⟨info.minTXID, info.maxTXID, data⟩)
    .behindRenamed).l0 = [⟨info.minTXID, info.maxTXID, data⟩] := by
    change placed _ s.l0 = _
    rw [hNil]
    rfl
  refine ⟨?_, fun _ => ?_, (fun h => by cases h), ?_⟩
  · rw [hL0]
    intro file hMem txID hVerify
    rw [mem_singleton.mp hMem] at hVerify ⊢
    exact remote.named info data txID hDelivers hVerify
  · rw [hL0]
    refine ⟨info.minTXID - 1, ?_, ?_, trivial⟩
    · change info.minTXID = info.minTXID - 1 + 1
      omega
    · change info.minTXID - 1 < info.maxTXID
      omega
  · intro exactly P hClaims
    rcases hClaims.of_owes rfl with ⟨q, hSelf, _⟩
    cases hSelf

theorem Inv.behindRemove (hInv : Inv s) {phase phase'} (hAt : s.writer = .behindRemove info phase)
    (hStep : RemoveAll.Step s phase e (some phase')) :
    Inv (s.onWriter e (.behindRemove info phase')) := by
  cases hStep with
  | unlink name hOpen =>
    refine hInv.shrink (fun file => mem_of_mem_filter)
      (fun h => by cases h) (fun hFree => absurd (Or.inl rfl) hFree) ?_
    intro exactly P hClaims
    rcases hClaims.of_owes rfl with ⟨q, hSelf, _⟩
    cases hSelf
  | unlinkTemp hOpen =>
    refine hInv.keepWriter rfl (Or.inr (by rw [hAt])) (fun h => Or.inl (by rw [hAt]; exact h)) ?_
    intro exactly P hClaims
    refine Or.inl (hClaims.mono ?_ ?_ ?_ (fun _ => id) rfl) <;> simp [hAt]
  | finish hOpen hEmpty hTemp =>
    refine hInv.keepWriter rfl (Or.inl hEmpty) (fun _ => Or.inr hEmpty) ?_
    intro exactly P hClaims
    rcases hClaims.of_owes rfl with ⟨q, hSelf, _⟩
    cases hSelf

theorem Inv.writer (hInv : Inv s) (hStep : Writer.Step remote s s.writer e w) (hAllows : s.Allows e)
    (hCareful : Careful s e) : Inv (s.onWriter e w) := by
  generalize hAt : s.writer = v at hStep
  have hOwes : v.owes = s.writer.owes := by rw [hAt]
  cases hStep with
  | startSync | stopSync | failWrite | failRename | cleanUp | failCleanUp
  | endSync | startBehind | failFetch | failCopy | cleanUpFetch
  | failCleanUpFetch => exact hInv.toPlain hOwes.symm rfl rfl (fun _ => id)
  | invalidate => exact hInv.clear hAllows (by rw [hAt]; rfl) rfl rfl (fun h => by cases h)
  | openTemp pos | createTemp info =>
    refine hInv.keepWriter rfl (Or.inr (by rw [hAt]; rfl))
      (fun h => Or.inl (by rw [hAt]; exact h)) ?_
    intro exactly P hClaims
    refine Or.inl (hClaims.mono ?_ ?_ (fun _ => hOwes.symm) (fun _ => id)
      rfl) <;> simp [hAt, Writer.follows]
  | rename pos layer => exact hInv.rename hAt layer
  | record txID =>
    refine hInv.keepWriter rfl (Or.inr (by rw [hAt]; rfl)) (fun h => by cases h) ?_
    intro exactly P hClaims
    refine Or.inr ?_
    have hFree : s.pos = none := hAllows
    cases hClaims with
    | ready hNext => cases hNext
    | renamed hSelf => cases hSelf
    | cached _ hSome =>
      cases hSome
      exact hInv.known true _ (.renamed hAt)
    | scanned _ hScan | opened _ hScan => simp [hFree] at hScan
  | removeAll info hStep => exact hInv.behindRemove hAt hStep
  | failRemoveAll info hStep =>
    cases hStep with
    | fail => exact hInv.toPlain hOwes.symm rfl rfl (fun _ => id)
    | abandon => exact absurd hCareful id
  | invalidateRemoved info =>
    exact hInv.clear hAllows (by rw [hAt]; rfl) rfl rfl (fun _ => by rw [hAt]; rfl)
  | renameFetched info data hDelivers => exact hInv.renameFetched hAt hDelivers
  | invalidateFetched => exact hInv.clear hAllows (by rw [hAt]; rfl) rfl rfl (fun h => by cases h)

end Writers

-- Steps Of The Position

section Positions

variable {w : Writer} {scan scan' : Scan D} {answer cache : Option Nat} {caller : Caller}

theorem Writer.Receives.owes (hReceives : Writer.Receives s.writer answer w) :
    s.writer.owes = false := by
  generalize s.writer = v at hReceives
  cases hReceives <;> rfl

theorem Inv.receive (hInv : Inv s) (hReceives : Writer.Receives s.writer answer w)
    (hAnswer : ∀ p, answer = some p → Known s false (EndsWith p)) : Inv { s with writer := w } := by
  have hOwes := hReceives.owes
  have hFalse := Writer.unlinking_eq_false hOwes
  have hPlain : w.plain = true → Inv (s.onWriter .none w) :=
    fun hPlain => hInv.toPlain hOwes hPlain rfl (fun _ => id)
  generalize s.writer = v at hReceives
  cases hReceives with
  | sync p =>
    refine hInv.keepWriter (e := .none) rfl (Or.inr hFalse.symm) (fun h => by cases h) ?_
    intro exactly P hClaims
    cases hClaims with
    | ready hNext =>
      cases hNext
      exact Or.inr (hAnswer p rfl)
    | renamed hSelf => cases hSelf
    | cached _ hSome => exact Or.inl (.cached hOwes hSome)
    | scanned _ hScan => exact Or.inl (.scanned hOwes hScan)
    | opened _ hScan hVerify => exact Or.inl (.opened hOwes hScan hVerify)
  | failSync | ahead | behind | failBehind => exact hPlain rfl

theorem Inv.position (hInv : Inv s) {pos posCache}
    (hCached : s.writer.owes = false → ∀ p, posCache = some p → Known s true (EndsWith p))
    (hScanned : s.writer.owes = false → ∀ caller todo best,
      pos = some (caller, .entries todo best) → Known s true (Scanned todo best))
    (hOpened : s.writer.owes = false → ∀ caller data p,
      pos = some (caller, .opened data) → data.verify = .ok p → Known s true (EndsWith p)) :
    Inv { s with pos := pos, posCache := posCache } := by
  refine hInv.keep ⟨rfl, Or.inr id, id⟩ Or.inl ?_
  intro exactly P hClaims
  cases hClaims with
  | ready hNext => exact Or.inl (.ready hNext)
  | renamed hAt => exact Or.inl (.renamed hAt)
  | cached hOwes hSome => exact Or.inr (hCached hOwes _ hSome)
  | scanned hOwes hScan => exact Or.inr (hScanned hOwes _ _ _ hScan)
  | opened hOwes hScan hVerify => exact Or.inr (hOpened hOwes _ _ _ hScan hVerify)

theorem Known.imp {Q : List (LocalFile D) → Prop} (hKnown : Known s true P)
    (hOwes : s.writer.owes = false) (hImp : ¬ s.Unlinking → P s.l0 → Q s.l0) : Known s true Q := by
  refine ⟨fun hFree => (hKnown.weak hFree).imp id (hImp hFree), ?_⟩
  intro _ hNone
  exact hImp (State.not_unlinking (Writer.unlinking_eq_false hOwes) hNone) (hKnown.exact_ rfl hNone)

theorem Inv.scanStep (hInv : Inv s) (hPos : s.pos = some (caller, scan))
    (hStep : Scan.Step s.l0 scan scan') : Inv { s with pos := some (caller, scan') } := by
  have hCached : s.writer.owes = false → ∀ p, s.posCache = some p → Known s true (EndsWith p) :=
    fun hOwes p hSome => hInv.known true _ (.cached hOwes hSome)
  have hOld : s.writer.owes = false → ∀ todo best,
    scan = .entries todo best → Known s true (Scanned todo best) := by
    rintro hOwes todo best rfl
    exact hInv.known true _ (.scanned hOwes hPos)
  cases hStep with
  | readDir =>
    refine hInv.position hCached ?_ (fun _ _ _ _ h => by cases h)
    rintro hOwes _ _ _ ⟨⟩
    refine ⟨fun hFree => Or.inr (scanned_readDir (hInv.tiled hFree)), ?_⟩
    intro _ hNone
    exact scanned_readDir (hInv.tiled (State.not_unlinking (Writer.unlinking_eq_false hOwes) hNone))
  | found name best todo hFound =>
    refine hInv.position hCached ?_ (fun _ _ _ _ h => by cases h)
    rintro hOwes _ _ _ ⟨⟩
    exact (hOld hOwes _ _ rfl).imp hOwes (fun _ => Scanned.found)
  | missing name best todo hMissing =>
    refine hInv.position hCached ?_ (fun _ _ _ _ h => by cases h)
    rintro hOwes _ _ _ ⟨⟩
    exact (hOld hOwes _ _ rfl).imp hOwes (fun _ => Scanned.missing hMissing)
  | openFile file hMem hSome =>
    refine hInv.position hCached (fun _ _ _ _ h => by cases h) ?_
    rintro hOwes _ _ p ⟨⟩ hVerify
    exact (hOld hOwes _ _ rfl).imp hOwes (fun hFree =>
      Scanned.opened (hInv.tiled hFree) hInv.named hMem hSome hVerify)

theorem Inv.returned (hInv : Inv s) (hPos : s.pos = some (caller, scan))
    (hReturns : Scan.Returns scan answer cache) (hOwes : s.writer.owes = false) :
    (∀ p, answer = some p → Known s false (EndsWith p)) ∧
      ∀ p, cache = some p → Known s true (EndsWith p) := by
  cases hReturns with
  | zero best hNone =>
    refine ⟨?_, (fun p h => by cases h)⟩
    rintro p ⟨⟩
    refine ⟨fun hFree => Or.inl ?_, fun h => by cases h⟩
    rcases (hInv.known true _ (.scanned hOwes hPos)).weak hFree with
      hNil | ⟨file, hLast, _, _, hMem | hBest⟩ | ⟨hNil, _⟩
    · exact hNil
    · cases hMem
    · -- a file of the directory has a positive number
      have hProper := (hInv.tiled hFree).proper (mem_of_getLast? hLast)
      rw [hBest] at hNone
      exact absurd hNone (Nat.ne_of_gt hProper.1)
    · exact hNil
  | position data txID hVerify =>
    have hKnown := hInv.known true _ (.opened hOwes hPos hVerify)
    constructor
    · rintro p ⟨⟩
      exact ⟨hKnown.weak, fun h => by cases h⟩
    · rintro p ⟨⟩
      exact hKnown
  | fail => exact ⟨(fun p h => by cases h), (fun p h => by cases h)⟩

theorem Inv.return_ (hInv : Inv s) (hPos : s.pos = some (caller, scan))
    (hReturns : Scan.Returns scan answer cache) :
    Inv { s with pos := none, posCache := cache.or s.posCache } := by
  refine hInv.position ?_ (fun _ _ _ _ h => by cases h) (fun _ _ _ _ h => by cases h)
  intro hOwes p hCached
  cases cache with
  | none => exact hInv.known true _ (.cached hOwes hCached)
  | some q => exact (hInv.returned hPos hReturns hOwes).2 p hCached

end Positions

theorem Inv.step (hInv : Inv s) {remote a e} (hStep : Step remote s a e s')
    (hCareful : Careful s e) : Inv s' := by
  cases hStep with
  | writer hStep hAllows => exact hInv.writer hStep hAllows hCareful
  | worker i hStep hAllows => exact hInv.worker hStep hAllows hCareful
  | cached hFree hCached hReceives =>
    apply hInv.receive hReceives
    rintro p ⟨⟩
    have hKnown := hInv.known true _ (.cached hReceives.owes hCached)
    exact ⟨hKnown.weak, fun h => by cases h⟩
  | lock caller hFree hNone hCaller =>
    refine hInv.position ?_ (fun _ _ _ _ h => by cases h) (fun _ _ _ _ h => by cases h)
    exact fun hOwes p hSome => hInv.known true _ (.cached hOwes hSome)
  | scan hScan hStep => exact hInv.scanStep hScan hStep
  | returnOther hScan hReturns => exact hInv.return_ hScan hReturns
  | returnWriter hScan hReturns hReceives =>
    refine (hInv.return_ hScan hReturns).receive hReceives ?_
    intro p hSome
    have hKnown := (hInv.returned hScan hReturns hReceives.owes).1 p hSome
    exact ⟨hKnown.weak, fun h => by cases h⟩

end PositionCache

end Replicate
