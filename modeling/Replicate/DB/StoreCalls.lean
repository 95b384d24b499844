import Mathlib.Data.List.Nodup
import Mathlib.Logic.Relation
import Mathlib.Tactic.Common

/-
  Registering, removing, enabling and disabling databases of
  one store.

  Every call takes the store's lock to look at the list of
  databases and gives it back before it opens or closes one.
  Two calls on the same path can both find that there is
  none, or that it is not open yet, and both open it. An
  instance is live from the start of its monitor until the
  end of `Close`.

  Main declarations:
    * `Store.next`, `StoreState.Step`
    * `Store.During`, `Store.next_during`
    * `one_live_replicator`, `two_registrations_live`
-/

namespace Replicate

open Relation List Function

------------------------------------------------------------
-- The Calls
------------------------------------------------------------

/-
  One instance of `DB`: its monitors, whether it is marked
  as open, and whether it replicates.
-/
structure Inst where
  monitors : Nat
  opened : Bool
  live : Bool

def Inst.closed : Inst := ⟨0, false, false⟩

/-
  How far a call got. Inside of `Open`, `reg` tells
  `RegisterDB` from `EnableDB`.
-/
inductive StorePhase (ι : Type) where
  | register (i : ι)
  | unregister
  | find (enable : Bool)
  | found (i : ι) (enable : Bool)
  | opening (i : ι) (reg : Bool)
  | starting (i : ι) (reg : Bool)
  | marking (i : ι) (reg : Bool)
  | check (i : ι)
  | closing (i : ι)
  | syncing (i : ι)

open StorePhase

/- The list of databases, and all instances there are. -/
structure Store (ι : Type) where
  dbs : List ι
  insts : ι → Inst

variable {ι P : Type} [DecidableEq P]

namespace Store

/- One instance changes. -/
def set
    [DecidableEq ι]
    (s : Store ι)
    (i : ι)
    (x : Inst) : Store ι :=
  { s with insts := update s.insts i x }

/- The databases of a path. -/
def view
    (path : ι → P)
    (s : Store ι)
    (p : P) : List ι :=
  s.dbs.filter (path · = p)

/- `RegisterDB` goes on after `Open`, `EnableDB` ends. -/
def afterOpen
    (i : ι)
    (reg : Bool) : Option (StorePhase ι) :=
  if reg then some (check i) else none

/-
  A step of a call on a path, with what is left of the call.
  With `fails`, the context of `EnableDB` is done or `Open`
  gives up before it starts the monitor.
-/
def next
    [DecidableEq ι]
    (path : ι → P)
    (p : P)
    (fails : Bool)
    (s : Store ι) :
    StorePhase ι → Store ι × Option (StorePhase ι)
| register i =>
  (s, if s.view path (path i) = [] then
    some (opening i true)
  else none)
| opening i reg =>
  (s, if (s.insts i).opened then afterOpen i reg
  else some (starting i reg))
| starting i reg =>
  if fails then (s, none)
  else
    (s.set i
      ⟨(s.insts i).monitors + 1, (s.insts i).opened, true⟩,
      some (marking i reg))
| marking i reg =>
  (s.set i { s.insts i with opened := true },
    afterOpen i reg)
| check i =>
  if s.view path (path i) = [] then
    ({ s with dbs := s.dbs ++ [i] }, none)
  else (s, some (closing i))
| unregister =>
  match (s.view path p).head? with
  | none => (s, none)
  | some i =>
    ({ s with dbs := s.dbs.erase i }, some (closing i))
| find enable =>
  (s, (s.view path p).head?.map (found · enable))
| found i true =>
  (s, if (s.insts i).opened then none
  else if fails then none
  else some (opening i false))
| found i false =>
  (s, if (s.insts i).opened then some (closing i) else none)
| closing i =>
  (s.set i ⟨0, (s.insts i).opened, (s.insts i).live⟩,
    some (syncing i))
| syncing i =>
  (s.set i ⟨(s.insts i).monitors, false, false⟩, none)

end Store

/- The calls in progress, each with its path. -/
structure StoreState (ι P : Type) where
  store : Store ι
  calls : List (P × StorePhase ι)

namespace StoreState

/- How a call on a path begins. -/
def Begins
    (path : ι → P)
    (p : P) : StorePhase ι → Prop
| register i => path i = p
| unregister | find _ => True
| _ => False

/-
  A call begins where it is allowed, or one of the calls in
  progress makes its next step.
-/
inductive Step
    [DecidableEq ι]
    (path : ι → P)
    (allowed : StoreState ι P → P → Prop) :
    StoreState ι P → StoreState ι P → Prop where
  | begin {s p} (c : StorePhase ι)
    (hBegins : Begins path p c) (hAllowed : allowed s p) :
    Step path allowed s { s with calls := (p, c) :: s.calls }
  | call {s p c rest} (fails : Bool)
    (hCall : s.calls.Perm ((p, c) :: rest)) :
    Step path allowed s ⟨(s.store.next path p fails c).1,
      ((s.store.next path p fails c).2.map (p, ·)).toList ++ rest⟩

/- No call on the path is in progress. -/
def Alone
    (s : StoreState ι P)
    (p : P) : Prop :=
  p ∉ s.calls.map Prod.fst

/- A store without databases. -/
def empty : StoreState ι P := ⟨⟨[], fun _ => .closed⟩, []⟩

end StoreState

------------------------------------------------------------
-- One Path
------------------------------------------------------------

namespace Store

variable {path : ι → P} {p q : P} {s s' : Store ι}
variable {cur : Option ι} {i : ι} {reg : Bool}
variable {st st' : Inst → Prop} {c : StorePhase ι}

/-
  All instances of the path are closed but one, which is
  listed or not.
-/
structure At
    (path : ι → P)
    (s : Store ι)
    (p : P)
    (cur : Option ι)
    (reg : Bool)
    (st : Inst → Prop) : Prop where
  dbs : s.view path p = if reg then cur.toList else []
  inst : ∀ i, cur = some i → path i = p ∧ st (s.insts i)
  rest : ∀ i, path i = p → cur ≠ some i → s.insts i = .closed

/- An instance between two calls. -/
def Settled (x : Inst) : Prop :=
  x = .closed ∨ x = ⟨1, true, true⟩

/- What holds of the path before and after a call. -/
def Resting
    (path : ι → P)
    (s : Store ι)
    (p : P) : Prop :=
  ∃ cur, At path s p cur true Settled

/- What holds of the path at each place of a call. -/
def During
    (path : ι → P)
    (s : Store ι)
    (p : P) : StorePhase ι → Prop
| register i => path i = p ∧ Resting path s p
| unregister | find _ => Resting path s p
| found i _ => At path s p (some i) true Settled
| opening i reg | starting i reg =>
  At path s p (some i) (!reg) (· = .closed)
| marking i reg =>
  At path s p (some i) (!reg) (· = ⟨1, false, true⟩)
| check i => At path s p (some i) false (· = ⟨1, true, true⟩)
| closing i => ∃ reg, At path s p (some i) reg Settled
| syncing i => ∃ reg, At path s p (some i) reg (·.monitors = 0)

/- What holds of the path after a step of a call. -/
def After
    (path : ι → P)
    (s : Store ι)
    (p : P) : Option (StorePhase ι) → Prop
| some c => During path s p c
| none => Resting path s p

/- Only instances of the path and their places in the list change. -/
structure SameElse
    (path : ι → P)
    (p : P)
    (s s' : Store ι) : Prop where
  insts : ∀ i, path i ≠ p → s'.insts i = s.insts i
  dbs : ∀ q, q ≠ p → s'.view path q = s.view path q

theorem SameElse.refl : SameElse path p s s :=
  ⟨fun _ _ => rfl, fun _ _ => rfl⟩

theorem At.imp
    (hAt : At path s p cur reg st)
    (hImp : ∀ x, st x → st' x) :
    At path s p cur reg st' :=
  { hAt with inst := fun i hi => ⟨(hAt.inst i hi).1, hImp _ (hAt.inst i hi).2⟩ }

/- The instance changes, and nothing else does. -/
theorem At.set
    [DecidableEq ι]
    (hAt : At path s p (some i) reg st)
    {x : Inst}
    (hx : st' x) :
    At path (s.set i x) p (some i) reg st' ∧
      SameElse path p s (s.set i x) := by
  have hPath := (hAt.inst i rfl).1
  have hElse : ∀ j, j ≠ i → (s.set i x).insts j = s.insts j := fun j hNe => update_of_ne hNe _ _
  refine ⟨⟨hAt.dbs, ?_, fun j hj hNe => ?_⟩, fun j hj => hElse j ?_, fun _ _ => rfl⟩
  · rintro j ⟨⟩
    have hSelf : (s.set i x).insts i = x := update_self ..
    exact ⟨hPath, hSelf.symm ▸ hx⟩
  · rw [hElse j fun hEq => hNe (congrArg some hEq.symm)]
    exact hAt.rest j hj hNe
  · rintro rfl
    exact hj hPath

/- A closed instance that is not listed is like any other. -/
theorem At.resting
    (hAt : At path s p (some i) reg (· = .closed)) :
    Resting path s p := by
  cases reg with
  | true => exact ⟨some i, hAt.imp fun x hx => Or.inl hx⟩
  | false =>
    refine ⟨none, hAt.dbs, nofun, fun j hj _ => ?_⟩
    by_cases hEq : some i = some j
    · exact (hAt.inst j hEq).2
    · exact hAt.rest j hj hEq

/- What another path's calls do is not seen. -/
theorem At.frame
    (hSame : SameElse path p s s')
    (hNe : q ≠ p)
    (hAt : At path s q cur reg st) :
    At path s' q cur reg st where
  dbs := (hSame.dbs q hNe).trans hAt.dbs
  inst i hi := by
    rw [hSame.insts i ((hAt.inst i hi).1 ▸ hNe)]
    exact hAt.inst i hi
  rest i hi hOther := by
    rw [hSame.insts i (hi ▸ hNe)]
    exact hAt.rest i hi hOther

theorem Resting.frame
    (hSame : SameElse path p s s')
    (hNe : q ≠ p) :
    Resting path s q → Resting path s' q :=
  Exists.imp fun _ => At.frame hSame hNe

theorem During.frame
    (hSame : SameElse path p s s')
    (hNe : q ≠ p)
    (hDuring : During path s q c) :
    During path s' q c := by
  cases c with
  | register i => exact ⟨hDuring.1, hDuring.2.frame hSame hNe⟩
  | unregister | find _ | closing _ | syncing _ =>
    exact Exists.imp (fun _ => At.frame hSame hNe) hDuring
  | _ => exact At.frame hSame hNe hDuring

/- No database of the path is listed. -/
theorem At.of_view_nil
    (hResting : Resting path s p)
    (hPath : path i = p)
    (hNone : s.view path p = []) :
    At path s p (some i) false (· = .closed) := by
  obtain ⟨cur, hAt⟩ := hResting
  have hCur : cur = none := by simpa [hAt.dbs] using hNone
  have hClosed : ∀ j, path j = p → s.insts j = .closed := fun j hj => hAt.rest j hj (by simp [hCur])
  refine ⟨hNone, ?_, fun j hj _ => hClosed j hj⟩
  rintro j ⟨⟩
  exact ⟨hPath, hClosed _ hPath⟩

/- The first one listed is the only one. -/
theorem At.of_head
    (hResting : Resting path s p)
    (hFirst : (s.view path p).head? = some i) :
    At path s p (some i) true Settled := by
  obtain ⟨cur, hAt⟩ := hResting
  have hCur : cur = some i := by simpa [hAt.dbs] using hFirst
  exact hCur ▸ hAt

/- An instance leaves the list. -/
theorem At.erase [DecidableEq ι] (hAt : At path s p (some i) true st) :
    At path { s with dbs := s.dbs.erase i } p (some i) false st ∧
      SameElse path p s { s with dbs := s.dbs.erase i } := by
  have hView : ∀ q, view path { s with dbs := s.dbs.erase i } q = (s.view path q).erase i :=
    fun q => (erase_filter ..).symm
  refine ⟨⟨?_, hAt.inst, hAt.rest⟩, fun _ _ => rfl, fun q hNe => ?_⟩
  · rw [hView, hAt.dbs]
    simp
  · rw [hView]
    apply erase_of_not_mem
    simp [view, (hAt.inst i rfl).1, hNe.symm]

/- An instance enters the list. -/
theorem At.append (hAt : At path s p (some i) false st) :
    At path { s with dbs := s.dbs ++ [i] } p (some i) true st ∧
      SameElse path p s { s with dbs := s.dbs ++ [i] } := by
  have hPath := (hAt.inst i rfl).1
  have hView : s.dbs.filter (path · = p) = [] := hAt.dbs
  refine ⟨⟨?_, hAt.inst, hAt.rest⟩, fun _ _ => rfl, fun q hNe => ?_⟩
  · simp [view, hView, hPath]
  · simp [view, hPath, hNe.symm]

theorem At.after
    (hAt : At path s p (some i) (!reg)
      (· = ⟨1, true, true⟩)) :
    After path s p (afterOpen i reg) := by
  cases reg with
  | true => exact hAt
  | false => exact ⟨some i, hAt.imp fun _ hx => Or.inr hx⟩

/- What a step of a call does to its path, and to no other one. -/
theorem next_during
    [DecidableEq ι]
    (fails : Bool)
    (hDuring : During path s p c) :
    After path (s.next path p fails c).1 p
      (s.next path p fails c).2 ∧ SameElse path p s
      (s.next path p fails c).1 := by
  cases c with
  | register i =>
    refine ⟨?_, .refl⟩
    simp only [next]
    split
    · exact At.of_view_nil hDuring.2 hDuring.1 (hDuring.1 ▸ ‹_›)
    · exact hDuring.2
  | unregister =>
    simp only [next]
    split
    · exact ⟨hDuring, .refl⟩
    · exact And.imp_left (Exists.intro false) (At.of_head hDuring ‹_›).erase
  | find enable =>
    refine ⟨?_, .refl⟩
    simp only [next]
    cases hFirst : (s.view path p).head? with
    | none => exact hDuring
    | some i => exact At.of_head hDuring hFirst
  | found i enable =>
    have hAt : At path s p (some i) true Settled := hDuring
    have hRest : Resting path s p := ⟨_, hAt⟩
    cases enable with
    | true =>
      refine ⟨?_, .refl⟩
      simp only [next]
      split
      · exact hRest
      split
      · exact hRest
      refine { hAt with inst := ?_ }
      rintro j ⟨⟩
      obtain ⟨hPath, hClosed | hOpened⟩ := hAt.inst i rfl
      · exact ⟨hPath, hClosed⟩
      · exact absurd (congrArg Inst.opened hOpened) ‹_›
    | false =>
      refine ⟨?_, .refl⟩
      simp only [next]
      split
      · exact ⟨true, hAt⟩
      · exact hRest
  | opening i reg =>
    have hAt : At path s p (some i) (!reg) (· = .closed) := hDuring
    refine ⟨?_, .refl⟩
    rw [next, (hAt.inst i rfl).2]
    exact hAt
  | starting i reg =>
    have hAt : At path s p (some i) (!reg) (· = .closed) := hDuring
    cases fails with
    | true => exact ⟨hAt.resting, .refl⟩
    | false =>
      rw [next, (hAt.inst i rfl).2]
      exact hAt.set rfl
  | marking i reg =>
    have hAt : At path s p (some i) (!reg) (· = ⟨1, false, true⟩) := hDuring
    rw [next, (hAt.inst i rfl).2]
    exact And.imp_left At.after (hAt.set rfl)
  | check i =>
    have hAt : At path s p (some i) false (· = ⟨1, true, true⟩) := hDuring
    simp only [next]
    split
    · obtain ⟨hListed, hSame⟩ := hAt.append
      exact ⟨⟨_, hListed.imp fun _ hx => Or.inr hx⟩, hSame⟩
    · exact ⟨⟨false, hAt.imp fun _ hx => Or.inr hx⟩, .refl⟩
  | closing i =>
    obtain ⟨reg, hAt⟩ := hDuring
    exact And.imp_left (Exists.intro reg) (hAt.set rfl)
  | syncing i =>
    obtain ⟨reg, hAt⟩ := hDuring
    rw [next, (hAt.inst i rfl).2]
    exact And.imp_left At.resting (hAt.set rfl)

/- Only one instance of the path can be live, and none has two monitors. -/
def One
    (path : ι → P)
    (s : Store ι)
    (p : P) : Prop :=
  ∃ cur, ∀ i, path i = p → (s.insts i).monitors ≤ 1 ∧ ((s.insts i).live = true → cur = some i)

theorem At.one
    (hSt : ∀ x, st x → x.monitors ≤ 1)
    (hAt : At path s p cur reg st) :
    One path s p := by
  refine ⟨cur, fun i hi => ?_⟩
  by_cases hCur : cur = some i
  · exact ⟨hSt _ (hAt.inst i hCur).2, fun _ => hCur⟩
  · rw [hAt.rest i hi hCur]
    exact ⟨Nat.zero_le 1, nofun⟩

theorem Resting.one
    (hResting : Resting path s p) :
    One path s p :=
  hResting.elim fun _ => At.one (by simp [Settled, Inst.closed])

theorem During.one
    (hDuring : During path s p c) :
    One path s p := by
  cases c with
  | register i => exact hDuring.2.one
  | unregister | find _ => exact Resting.one hDuring
  | closing i | syncing i =>
    exact hDuring.elim fun _ => At.one (by simp +contextual [Settled, Inst.closed])
  | _ => exact At.one (by simp [Settled, Inst.closed]) hDuring

end Store

------------------------------------------------------------
-- All Paths
------------------------------------------------------------

namespace StoreState

variable {path : ι → P} {s : StoreState ι P}

/- Calls in progress are on different paths, each at its place. -/
structure Inv
    (path : ι → P)
    (s : StoreState ι P) : Prop where
  nodup : (s.calls.map Prod.fst).Nodup
  during : ∀ c ∈ s.calls, s.store.During path c.1 c.2
  resting : ∀ p, s.Alone p → s.store.Resting path p

theorem Inv.begin
    (hInv : Inv path s)
    {p : P}
    {c}
    (hBegins : Begins path p c)
    (hAlone : s.Alone p) :
    Inv path { s with calls := (p, c) :: s.calls } := by
  have hResting := hInv.resting p hAlone
  refine ⟨nodup_cons.mpr ⟨hAlone, hInv.nodup⟩, forall_mem_cons.mpr ⟨?_, hInv.during⟩,
    fun q hq => hInv.resting q fun hMem => hq (mem_cons_of_mem _ hMem)⟩
  cases c with
  | register i => exact ⟨hBegins, hResting⟩
  | unregister | find _ => exact hResting
  | _ => exact hBegins.elim

theorem Inv.call
    [DecidableEq ι]
    (hInv : Inv path s)
    {p : P}
    {c rest}
    (fails : Bool)
    (hCall : s.calls.Perm ((p, c) :: rest)) :
    Inv path ⟨(s.store.next path p fails c).1,
      ((s.store.next path p fails c).2.map (p, ·)).toList ++
      rest⟩ := by
  have hPaths := hCall.map Prod.fst
  obtain ⟨hNew, hNodup⟩ := nodup_cons.mp (hPaths.nodup_iff.mp hInv.nodup)
  obtain ⟨hDuring, hRest⟩ :=
    forall_mem_cons.mp fun d hd => hInv.during d (hCall.mem_iff.mpr hd)
  obtain ⟨hAfter, hSame⟩ := Store.next_during fails hDuring
  have hOthers : ∀ d ∈ rest, (s.store.next path p fails c).1.During path d.1 d.2 := fun d hd =>
    (hRest d hd).frame hSame fun hEq => hNew (mem_map.mpr ⟨d, hd, hEq⟩)
  have hFree : ∀ q, q ≠ p → q ∉ rest.map Prod.fst →
    (s.store.next path p fails c).1.Resting path q := fun q hNe hq =>
    (hInv.resting q fun hMem => (mem_cons.mp (hPaths.mem_iff.mp hMem)).elim hNe hq).frame
      hSame hNe
  cases hNext : (s.store.next path p fails c).2 with
  | none =>
    rw [hNext] at hAfter
    refine ⟨hNodup, hOthers, fun q hq => ?_⟩
    by_cases hEq : q = p
    · exact hEq ▸ hAfter
    · exact hFree q hEq hq
  | some d =>
    rw [hNext] at hAfter
    refine ⟨nodup_cons.mpr ⟨hNew, hNodup⟩, forall_mem_cons.mpr ⟨hAfter, hOthers⟩, fun q hq => ?_⟩
    obtain ⟨hNe, hq⟩ := not_or.mp fun hMem => hq (mem_cons.mpr hMem)
    exact hFree q hNe hq

/- Calls that begin one at a time on a path keep all this. -/
theorem Inv.run
    [DecidableEq ι]
    (hRun : ReflTransGen (Step path Alone) empty s) :
    Inv path s := by
  induction hRun with
  | refl => exact ⟨nodup_nil, nofun, fun _ _ => ⟨none, rfl, nofun, fun _ _ _ => rfl⟩⟩
  | tail _ hStep hInv =>
    cases hStep with
    | begin _ hBegins hAlone => exact hInv.begin hBegins hAlone
    | call fails hCall => exact hInv.call fails hCall

theorem Inv.one
    (hInv : Inv path s)
    (p : P) :
    s.store.One path p := by
  by_cases hAlone : s.Alone p
  · exact (hInv.resting p hAlone).one
  · obtain ⟨c, hMem, rfl⟩ := mem_map.mp (not_not.mp hAlone)
    exact (hInv.during c hMem).one

/- Between calls every live instance is listed, once a path. -/
theorem Inv.listed
    (hInv : Inv path s)
    (hIdle : s.calls = []) :
    (s.store.dbs.map path).Nodup ∧ ∀ i,
      (s.store.insts i).live = true → i ∈ s.store.dbs := by
  have hResting : ∀ p, s.store.Resting path p := fun p => hInv.resting p (by simp [Alone, hIdle])
  constructor
  · rw [nodup_iff_count_le_one]
    intro p
    obtain ⟨cur, hAt⟩ := hResting p
    have hView : (s.store.view path p).length ≤ 1 := by
      rw [hAt.dbs]
      cases cur <;> simp
    rw [List.count, countP_map, countP_eq_length_filter]
    exact hView
  · intro i hLive
    obtain ⟨cur, hAt⟩ := hResting (path i)
    have hCur : cur = some i := by
      by_contra hNe
      rw [hAt.rest i rfl hNe] at hLive
      cases hLive
    have hMem : i ∈ s.store.view path (path i) := by simp [hAt.dbs, hCur]
    exact mem_of_mem_filter hMem

end StoreState

/-
  As long as a call on a path begins only when no other one
  is in progress, at most one instance of a path is live and
  it has one monitor.
-/
theorem one_live_replicator
    [DecidableEq ι]
    (path : ι → P)
    (s : StoreState ι P)
    (hRun : ReflTransGen
      (StoreState.Step path StoreState.Alone) .empty s) :
    (∀ i j, path i = path j → (s.store.insts i).live =
      true → (s.store.insts j).live = true → i = j) ∧
      (∀ i, (s.store.insts i).monitors ≤ 1) ∧
      (s.calls = [] → (s.store.dbs.map path).Nodup ∧ ∀ i,
      (s.store.insts i).live = true → i ∈ s.store.dbs) := by
  have hInv := StoreState.Inv.run hRun
  have hOne := fun i => hInv.one (path i)
  refine ⟨fun i j hPath hi hj => ?_, fun i => (hOne i).elim fun _ h => (h i rfl).1, hInv.listed⟩
  obtain ⟨cur, hCur⟩ := hOne j
  exact Option.some.inj (((hCur i hPath).2 hi).symm.trans ((hCur j rfl).2 hj))

/- The path of the second of three instances is another one. -/
def twoPaths (i : Fin 3) : Bool := i == 1

/-
  Two instances are registered side by side. The first one
  is unregistered, and the third one takes over its path.
-/
theorem one_live_replicator_reregistered :
    ∃ s : StoreState (Fin 3) Bool, s.calls = [] ∧
      s.store.dbs = [1, 2] ∧ (s.store.insts 0).live =
      false ∧ (s.store.insts 2).live = true ∧
      (∀ i, (s.store.insts i).monitors ≤ 1) ∧
      (s.store.dbs.map twoPaths).Nodup := by
  have hFirst : ReflTransGen (StoreState.Step twoPaths StoreState.Alone) .empty _ :=
    .single (.begin (p := false) (register 0) rfl nofun)
  have hSecond := hFirst.tail (.begin (p := true) (register 1) rfl (by simp [StoreState.Alone, StoreState.empty]))
  -- the calls take turns
  have hFound := (hSecond.tail (.call false (.swap ..))).tail (.call false (.swap ..))
  have hOpen := (hFound.tail (.call false (.swap ..))).tail (.call false (.swap ..))
  have hStart := (hOpen.tail (.call false (.swap ..))).tail (.call false (.swap ..))
  have hMark := (hStart.tail (.call false (.swap ..))).tail (.call false (.swap ..))
  have hListed := (hMark.tail (.call false (.refl _))).tail (.call false (.refl _))
  have hRemove := hListed.tail (.begin (p := false) unregister trivial nofun)
  have hClosed := ((hRemove.tail (.call false (.refl _))).tail (.call false (.refl _))).tail
    (.call false (.refl _))
  have hThird := hClosed.tail (.begin (p := false) (register 2) rfl nofun)
  have hAgain := ((hThird.tail (.call false (.refl _))).tail (.call false (.refl _))).tail
    (.call false (.refl _))
  have hDone := (hAgain.tail (.call false (.refl _))).tail (.call false (.refl _))
  obtain ⟨-, hMonitors, hIdle⟩ := one_live_replicator twoPaths _ hDone
  exact ⟨_, rfl, rfl, rfl, rfl, hMonitors, (hIdle rfl).1⟩

/- A second registration begins while the first one is about to mark its instance as open. -/
theorem two_registrations_live :
    ∃ s : StoreState Bool Unit,
      ReflTransGen (StoreState.Step (fun _ => ()) fun _ _ =>
      True) .empty s ∧ (s.store.insts true).live = true ∧
      (s.store.insts false).live = true :=
  ⟨_, (((((((ReflTransGen.refl.tail (.begin (p := ()) (register true) rfl trivial)).tail
    (.call false (.refl _))).tail (.call false (.refl _))).tail (.call false (.refl _))).tail
    (.begin (p := ()) (register false) rfl trivial)).tail
    (.call false (.refl _))).tail (.call false (.refl _))).tail (.call false (.refl _)),
    rfl, rfl⟩

end Replicate
