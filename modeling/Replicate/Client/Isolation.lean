import Replicate.Client.NATS

/-
  Two clients in one bucket.

  Every name that an S3 client writes, lists or deletes
  begins with its path and a slash, so clients whose paths
  are apart do not meet. The NATS client names and lists its
  files in the same way, but its `DeleteAll` takes every
  object of the bucket.

  Main declarations:
    * `Kind.key`, `Kind.info`, `StoreCall.run`
    * `clients_isolated`
    * `deleteAll_takes_other_client`
-/

open SlashPath

namespace Replicate

open NATS List

-- The Two Kinds Of Clients

/- `hex` is the `%04x` of a level. -/
inductive Kind where
  | s3 (hex : Nat → List Char)
  | nats

/- `path.Base` of a key -/
def baseName (p : List Char) : List Char :=
  ((p.splitOn '/').filter (· ≠ [])).getLastD ['/']

namespace Kind

def key (N : Naming) (path : List Char) (f : FileKey) : Kind → List Char
| s3 hex =>
  path ++ '/' :: (hex f.level ++
    '/' :: N.formatFilename f.minTXID f.maxTXID)
| nats => keyPath N path f

/- What a listing has for an object. -/
def info (N : Naming) (path : List Char) (level seek : Nat) (useMetadata : Bool) (obj : NATS.Object) :
    Kind → Option FileInfo
| s3 hex =>
  if ¬ path ++ '/' :: (hex level ++ ['/']) <+: obj.name then none
  else
    match N.parseFilename (baseName obj.name) with
    | none => none
    | some (minTXID, maxTXID) =>
      if minTXID < seek then none
      else some ⟨level, minTXID, maxTXID, obj.size,
        if useMetadata then obj.timestamp.getD obj.modTime else obj.modTime⟩
| nats => fileInfo N path level seek obj

/- What `DeleteAll` finds. -/
def deletes (path : List Char) (obj : NATS.Object) : Kind → Bool
| s3 _ => decide (path ++ ['/'] <+: obj.name)
| nats => true

end Kind

inductive StoreOp where
  | write (f : FileKey) (size modTime timestamp : Int)
  | delete (fs : List FileKey)
  | deleteAll

/-
  A call of an operation. One that fails has reached only
  some of the names, and one that succeeds all of them.
-/
structure StoreCall where
  op : StoreOp
  reached : List Char → Bool

def StoreCall.run
    (k : Kind)
    (N : Naming)
    (path : List Char)
    (objs : List NATS.Object)
    (call : StoreCall) : List NATS.Object :=
  match call.op with
  | .write f size modTime timestamp =>
    if call.reached (k.key N path f) then
      ⟨k.key N path f, size, modTime, some timestamp⟩ ::
        objs.filter (·.name ≠ k.key N path f)
    else objs
  | .delete fs =>
    objs.filter fun obj =>
      !((fs.map (k.key N path ·)).contains obj.name &&
        call.reached obj.name)
  | .deleteAll =>
    objs.filter fun obj =>
      !(k.deletes path obj && call.reached obj.name)

-- Paths That Are Apart

/- Neither path is a prefix of the other, element by element. -/
structure Apart (p q : List Char) : Prop where
  left : p = clean p ∧ p ≠ []
  right : q = clean q ∧ q ≠ []
  apart : rooted p = rooted q → ¬ segments p <+: segments q ∧ ¬ segments q <+: segments p

variable {N : Naming} {k : Kind} {p q t : List Char} {f g : FileKey} {objs : List NATS.Object}

theorem Apart.symm (hApart : Apart p q) : Apart q p :=
  ⟨hApart.right, hApart.left, fun hRoot => (hApart.apart hRoot.symm).symm⟩

theorem Apart.not_append (hApart : Apart p q) (hRoot : rooted p = rooted q) {xs ys} :
    segments p ++ xs ≠ segments q ++ ys := by
  intro hEq
  rcases prefix_or_prefix_of_prefix ⟨xs, hEq⟩ ⟨ys, rfl⟩ with hPre | hPre
  · exact (hApart.apart hRoot).1 hPre
  · exact (hApart.apart hRoot).2 hPre

theorem Apart.not_prefix (hApart : Apart p q) : ¬ p ++ ['/'] <+: q ++ '/' :: t := by
  rintro ⟨u, hEq⟩
  rw [append_assoc, singleton_append] at hEq
  have hFirst : ∀ {a b : List Char}, a ≠ [] → rooted (a ++ b) = rooted a := by
    intro a b ha
    obtain ⟨c, rest, rfl⟩ := exists_cons_of_ne_nil ha
    rfl
  have hRoot : rooted p = rooted q := by rw [← hFirst hApart.left.2, hEq, hFirst hApart.right.2]
  have hNe := hApart.apart hRoot
  have hSplit := congrArg (splitOn '/') hEq
  have hSegs : ∀ {a : List Char}, a = clean a → segments a ≠ [] →
    a.splitOn '/' = if rooted a then [] :: segments a else segments a := by
    intro a ha hSome
    conv_lhs => rw [ha]
    exact splitOn_render (cleaned_segments a) hSome
  rw [splitOn_append_cons_self, splitOn_append_cons_self,
    hSegs hApart.left.1 (fun hNil => hNe.1 (hNil ▸ nil_prefix)),
    hSegs hApart.right.1 (fun hNil => hNe.2 (hNil ▸ nil_prefix)), hRoot] at hSplit
  apply hApart.not_append hRoot
  split at hSplit
  · exact (List.cons.inj hSplit).2
  · exact hSplit

theorem Apart.key_ne (hApart : Apart p q) : k.key N p f ≠ k.key N q g := by
  cases k with
  | s3 hex =>
    intro hEq
    exact hApart.not_prefix ⟨_, (append_assoc _ _ _).trans hEq⟩
  | nats =>
    intro hEq
    obtain ⟨hRoot, hSegs, -⟩ := keyPath_inj hEq
    exact (hApart.apart hRoot).1 (hSegs ▸ prefix_rfl)

/- A listing does not see the other client's files. -/
theorem Apart.info_eq_none (hApart : Apart p q) {level seek : Nat} {m : Bool} {obj}
    (hName : obj.name = k.key N p f) : k.info N q level seek m obj = none := by
  cases k with
  | s3 hex =>
    apply if_pos
    rw [hName]
    intro hPre
    refine hApart.symm.not_prefix (IsPrefix.trans ⟨hex level ++ ['/'], ?_⟩ hPre)
    rw [append_assoc]
    rfl
  | nats =>
    apply if_pos
    rw [hName, Kind.key, keyPath, ltxFilePath_eq, ltxLevelDir_eq,
      dir_prefix_iff (cleaned_append plain_levelSegs) (by simp)
        (cleaned_append plain_fileSegs) (by simp [fileSegs])]
    rintro ⟨hRoot, seg, rest, hEq⟩
    rw [append_assoc] at hEq
    exact hApart.not_append hRoot.symm hEq

-- What The Other Client Has

open Classical in
/- The objects that a client may have written. -/
noncomputable def Kind.owned (k : Kind) (N : Naming) (path : List Char) (obj : NATS.Object) :
  Option NATS.Object :=
  if ∃ f, obj.name = k.key N path f then some obj else none

/- A client's objects and its listings are the same in both buckets. -/
structure SameFor (k : Kind) (N : Naming) (path : List Char)
    (objs objs' : List NATS.Object) : Prop where
  owned : objs'.filterMap (k.owned N path) = objs.filterMap (k.owned N path)
  infos : ∀ level seek m, objs'.filterMap (k.info N path level seek m) =
    objs.filterMap (k.info N path level seek m)

/- The view sees no file that the client with the path names. -/
def Blind {α : Type} (k : Kind) (N : Naming) (path : List Char) (view : NATS.Object → Option α) :
    Prop :=
  ∀ obj f, obj.name = k.key N path f → view obj = none

theorem Apart.blind_owned (hApart : Apart p q) : Blind k N p (k.owned N q) :=
  fun _ _ hName => if_neg fun ⟨_, hOther⟩ => hApart.key_ne (hName.symm.trans hOther)

theorem Apart.blind_info (hApart : Apart p q) {level seek : Nat} {m : Bool} :
    Blind k N p (k.info N q level seek m) :=
  fun _ _ hName => hApart.info_eq_none hName

/- An object that a `DeleteAll` takes. -/
def StoreCall.clears
    (k : Kind)
    (path : List Char)
    (call : StoreCall)
    (obj : NATS.Object) : Bool :=
  match call.op with
  | .deleteAll =>
    k.deletes path obj && call.reached obj.name
  | _ => false

/- The view without the objects of a set. -/
def without
    {α : Type}
    (view : NATS.Object → Option α)
    (gone : NATS.Object → Bool)
    (obj : NATS.Object) : Option α :=
  if gone obj then none else view obj

variable {α : Type} {view : NATS.Object → Option α}
  {gone : NATS.Object → Bool} {calls : List StoreCall}

theorem without_eq_none
    {obj : NATS.Object}
    (hView : view obj = none) :
    without view gone obj = none := by
  unfold without
  split
  · rfl
  · exact hView

theorem filterMap_filter_without :
    (objs.filter (!gone ·)).filterMap view =
      objs.filterMap (without view gone) := by
  rw [filterMap_filter]
  apply filterMap_congr
  intro obj _
  cases hGone : gone obj <;> simp [without, hGone]

theorem filterMap_filter_eq
    {keep : NATS.Object → Bool}
    (hView : ∀ obj, keep obj = false → view obj = none) :
    (objs.filter keep).filterMap view =
      objs.filterMap view := by
  rw [filterMap_filter]
  apply filterMap_congr
  intro obj _
  cases hKeep : keep obj with
  | true => simp
  | false => simp [hView obj hKeep]

/- A view loses nothing exactly if it saw nothing of what is gone. -/
theorem filterMap_without_iff :
    objs.filterMap (without view gone) = objs.filterMap view ↔
      ∀ obj ∈ objs, gone obj = true → view obj = none := by
  constructor
  · intro hEq
    induction objs with
    | nil => exact fun _ hMem => absurd hMem not_mem_nil
    | cons obj objs ih =>
      cases hView : without view gone obj with
      | some x =>
        have hKept : gone obj = false ∧ view obj = some x := by
          cases hGone : gone obj <;> simp_all [without]
        rw [filterMap_cons_some hView,
          filterMap_cons_some hKept.2] at hEq
        rw [forall_mem_cons, hKept.1]
        exact ⟨nofun, ih (List.cons.inj hEq).2⟩
      | none =>
        have hLength : (objs.filterMap (without view gone)).length ≤
          (objs.filterMap view).length := by
          rw [← filterMap_filter_without]
          exact (filter_sublist.filterMap view).length_le
        rw [filterMap_cons_none hView] at hEq
        cases hSeen : view obj with
        | none =>
          rw [filterMap_cons_none hSeen] at hEq
          exact forall_mem_cons.mpr ⟨fun _ => hSeen, ih hEq⟩
        | some x =>
          rw [hEq, filterMap_cons_some hSeen, length_cons] at hLength
          exact absurd hLength (Nat.not_succ_le_self _)
  · intro hGone
    apply filterMap_congr
    intro obj hMem
    unfold without
    split
    · next hTaken => exact (hGone obj hMem hTaken).symm
    · rfl

theorem Blind.without
    (hBlind : Blind k N p view) :
    Blind k N p (Replicate.without view gone) :=
  fun obj f hName => without_eq_none (hBlind obj f hName)

/- One call takes from a view only what a `DeleteAll` clears. -/
theorem Blind.run
    (hBlind : Blind k N p view)
    (call : StoreCall) :
    (call.run k N p objs).filterMap view =
      objs.filterMap (Replicate.without view (call.clears k p)) := by
  obtain ⟨op, reached⟩ := call
  cases op with
  | write f size modTime timestamp =>
    unfold StoreCall.run
    dsimp only
    split
    · rw [filterMap_cons_none (hBlind _ f rfl)]
      apply filterMap_filter_eq
      intro obj hDrop
      exact hBlind obj f (by simpa using hDrop)
    · rfl
  | delete fs =>
    apply filterMap_filter_eq
    intro obj hDrop
    rw [Bool.not_eq_false', Bool.and_eq_true, contains_iff_mem,
      mem_map] at hDrop
    obtain ⟨⟨f, -, hName⟩, -⟩ := hDrop
    exact hBlind obj f hName.symm
  | deleteAll => exact filterMap_filter_without

theorem Blind.runs
    (hBlind : Blind k N p view) :
    (calls.foldl (StoreCall.run k N p) objs).filterMap view =
      objs.filterMap (Replicate.without view fun obj =>
        calls.any (·.clears k p obj)) := by
  induction calls generalizing objs with
  | nil => rfl
  | cons call calls ih =>
    rw [foldl_cons, ih, hBlind.without.run]
    apply filterMap_congr
    intro obj _
    cases hClears : call.clears k p obj <;>
      simp [Replicate.without, hClears]

/- A client has no part in an object. -/
def Kind.Misses
    (k : Kind)
    (N : Naming)
    (path : List Char)
    (obj : NATS.Object) : Prop :=
  k.owned N path obj = none ∧
    ∀ level seek m, k.info N path level seek m obj = none

/- An S3 client finds nothing of the other one to delete. -/
theorem Apart.s3_deletes
    (hApart : Apart p q)
    {hex : Nat → List Char}
    {obj : NATS.Object}
    (hDel : (Kind.s3 hex).deletes p obj = true) :
    (Kind.s3 hex).Misses N q obj := by
  have hPre := of_decide_eq_true hDel
  constructor
  · apply if_neg
    rintro ⟨f, hName⟩
    rw [hName] at hPre
    exact hApart.not_prefix hPre
  · intro level seek m
    apply if_pos
    rintro ⟨rest, hName⟩
    rw [← hName, append_assoc] at hPre
    exact hApart.not_prefix hPre

theorem Apart.sameFor_iff
    (hApart : Apart p q) :
    SameFor k N q objs
      (calls.foldl (StoreCall.run k N p) objs) ↔
    ∀ obj ∈ objs, calls.any (·.clears k p obj) = true →
      k.Misses N q obj := by
  constructor
  · rintro ⟨hOwned, hInfos⟩ obj hObj hClears
    rw [hApart.blind_owned.runs, filterMap_without_iff] at hOwned
    refine ⟨hOwned obj hObj hClears, ?_⟩
    intro level seek m
    have hInfo := hInfos level seek m
    rw [hApart.blind_info.runs, filterMap_without_iff] at hInfo
    exact hInfo obj hObj hClears
  · intro hMisses
    constructor
    · rw [hApart.blind_owned.runs, filterMap_without_iff]
      exact fun obj hObj hClears =>
        (hMisses obj hObj hClears).1
    · intro level seek m
      rw [hApart.blind_info.runs, filterMap_without_iff]
      exact fun obj hObj hClears =>
        (hMisses obj hObj hClears).2 level seek m

/-
  The calls of one client leave another one alone exactly if
  they are those of an S3 client, or no `DeleteAll` reaches
  an object in which the other one has a part.
-/
theorem clients_isolated
    (N : Naming)
    (k : Kind)
    (p q : List Char)
    (objs : List NATS.Object)
    (calls : List StoreCall)
    (hApart : Apart p q) :
    SameFor k N q objs
      (calls.foldl (StoreCall.run k N p) objs) ↔
    (∃ hex, k = .s3 hex) ∨
    ∀ call ∈ calls,
      call.op = .deleteAll →
      ∀ obj ∈ objs,
        call.reached obj.name = true →
        k.Misses N q obj := by
  rw [hApart.sameFor_iff]
  cases k with
  | s3 hex =>
    refine iff_of_true ?_ (Or.inl ⟨hex, rfl⟩)
    intro obj _ hClears
    obtain ⟨⟨op, reached⟩, -, hClears⟩ := any_eq_true.mp hClears
    cases op with
    | write | delete => contradiction
    | deleteAll =>
      exact hApart.s3_deletes (Bool.and_eq_true_iff.mp hClears).1
  | nats =>
    simp only [reduceCtorEq, exists_false, false_or]
    constructor
    · rintro hMisses ⟨op, reached⟩ hCall rfl obj hObj hReached
      exact hMisses obj hObj (any_eq_true.mpr ⟨_, hCall, hReached⟩)
    · intro hMisses obj hObj hClears
      obtain ⟨⟨op, reached⟩, hCall, hClears⟩ :=
        any_eq_true.mp hClears
      cases op with
      | write | delete => contradiction
      | deleteAll => exact hMisses _ hCall rfl obj hObj hClears

theorem apart_db_db2 : Apart "db".toList "db2".toList :=
  ⟨by decide, by decide, fun _ => by decide⟩

/- The verb `%04x`. -/
def formatHex4 (level : Nat) : List Char :=
  (Nat.toDigits 16 level).leftpad 4 '0'

/-
  The names of the two paths begin with the same letters. A
  file is written, and a `DeleteAll` fails half-way.
-/
theorem clients_isolated_db :
    SameFor (.s3 formatHex4) ltxNaming "db2".toList
      [⟨(Kind.s3 formatHex4).key ltxNaming "db2".toList
          ⟨0, 1, 1⟩, 0, 0, none⟩]
      ([⟨.write ⟨0, 1, 1⟩ 0 0 0, fun _ => true⟩,
        ⟨.deleteAll, fun name => name.length < 46⟩].foldl
        (StoreCall.run (.s3 formatHex4) ltxNaming
          "db".toList)
        [⟨(Kind.s3 formatHex4).key ltxNaming "db2".toList
            ⟨0, 1, 1⟩, 0, 0, none⟩]) :=
  (clients_isolated _ _ _ _ _ _ apart_db_db2).mpr
    (Or.inl ⟨_, rfl⟩)

theorem deleteAll_takes_other_client :
    Apart "db".toList "db2".toList ∧
    Kind.nats.info ltxNaming "db2".toList 0 0 false
      ⟨keyPath ltxNaming "db2".toList ⟨0, 1, 1⟩, 0, 0,
        none⟩ = some ⟨0, 1, 1, 0, 0⟩ ∧
    StoreCall.run .nats ltxNaming "db".toList
      [⟨keyPath ltxNaming "db2".toList ⟨0, 1, 1⟩, 0, 0,
        none⟩] ⟨.deleteAll, fun _ => true⟩ = [] :=
  ⟨apart_db_db2, by decide +kernel, rfl⟩

end Replicate
