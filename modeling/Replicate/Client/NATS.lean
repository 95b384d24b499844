import Mathlib.Data.Set.Basic
import Replicate.LTX.FileInfo
import Replicate.Lib.HexDigits
import Replicate.Lib.SlashPath

/-
  The NATS replica client: how LTX files are named in the
  bucket, and how the names are listed.

  A name is joined and cleaned from the configured path. The
  reader strips the path as it was configured, so only a
  path that is clean already, or one that cleans to nothing,
  is found again. A client whose path leads through another
  client's file name appears in that one's listing.

  Main declarations:
    * `NATS.ltxFilePath`, `NATS.parseLTXPath`, `NATS.Lists`
    * `NATS.written_is_listed`, `NATS.slash_path_unlisted`
-/

open SlashPath

namespace Replicate

open List

-- Names Of LTX Files

/-
  `strconv.Itoa` and `Atoi`, and the names of files in the
  LTX library. Each pair reads back what it has written, the
  one in the range of an `int` and the other of a `uint64`.
-/
structure Naming where
  itoa : Nat → List Char
  atoi : List Char → Option Nat
  formatFilename : Nat → Nat → List Char
  parseFilename : List Char → Option (Nat × Nat)
  atoi_itoa : ∀ n < 2 ^ 63, atoi (itoa n) = some n
  parse_format : ∀ a < 2 ^ 64, ∀ b < 2 ^ 64,
    parseFilename (formatFilename a b) = some (a, b)
  plain_itoa : ∀ n, Plain (itoa n)
  plain_format : ∀ a b, Plain (formatFilename a b)
  atoi_ltx : atoi "ltx".toList = none
  parse_ltx : parseFilename "ltx".toList = none

namespace NATS

def ltxDir (root : List Char) : List Char := join root "ltx".toList

def ltxLevelDir (N : Naming) (root : List Char) (level : Nat) : List Char :=
  join (ltxDir root) (N.itoa level)

def ltxFilePath (N : Naming) (root : List Char) (level minTXID maxTXID : Nat) : List Char :=
  join (ltxLevelDir N root level) (N.formatFilename minTXID maxTXID)

/- The name without the path as it was configured. -/
def stripPath (path objPath : List Char) : List Char :=
  if path ≠ [] ∧ path ++ ['/'] <+: objPath then objPath.drop (path.length + 1) else objPath

def parseLTXPath (N : Naming) (path objPath : List Char) : Except Err (Nat × Nat × Nat) :=
  let objPath := stripPath path objPath
  match objPath.splitOn '/' with
  | dir :: level :: filename :: _ =>
    if dir ≠ "ltx".toList then .error (.text ("invalid ltx path: " ++ String.ofList objPath))
    else
      match N.atoi level, N.parseFilename filename with
      | none, _ => .error (.text ("invalid level in path " ++ String.ofList objPath))
      | some _, none => .error (.text ("invalid filename in path " ++ String.ofList objPath))
      | some level, some (minTXID, maxTXID) => .ok (level, minTXID, maxTXID)
  | _ => .error (.text ("invalid ltx path: " ++ String.ofList objPath))

/-
  The key of one file. A level is an `int` of the source and
  a TXID a `uint64`.
-/
structure FileKey where
  level : Fin (2 ^ 63)
  minTXID : Fin (2 ^ 64)
  maxTXID : Fin (2 ^ 64)
  deriving DecidableEq

/- What is read from the name of the file. -/
def FileKey.numbers
    (f : FileKey) : Nat × Nat × Nat :=
  (f.level, f.minTXID, f.maxTXID)

def keyPath
    (N : Naming)
    (path : List Char)
    (f : FileKey) : List Char :=
  ltxFilePath N path f.level f.minTXID f.maxTXID

variable {N : Naming} {path q : List Char} {level minTXID maxTXID seek : Nat}

/- The elements below a client's path. -/
def fileSegs (N : Naming) (level minTXID maxTXID : Nat) : List (List Char) :=
  ["ltx".toList, N.itoa level, N.formatFilename minTXID maxTXID]

theorem plain_ltx : Plain "ltx".toList :=
  ⟨by decide, by decide, by decide, by decide⟩

theorem plain_fileSegs : ∀ seg ∈ fileSegs N level minTXID maxTXID, Plain seg := by
  simp only [fileSegs, forall_mem_cons]
  exact ⟨plain_ltx, N.plain_itoa _, N.plain_format _ _, forall_mem_nil _⟩

theorem plain_levelSegs : ∀ seg ∈ ["ltx".toList, N.itoa level], Plain seg := by
  simp only [forall_mem_cons]
  exact ⟨plain_ltx, N.plain_itoa _, forall_mem_nil _⟩

theorem join_plain {seg p} (hSeg : Plain seg) :
    join p seg = render (rooted p) (segments p ++ [seg]) := by
  have hJoin := @join_intercalate p [seg] (by simpa using hSeg) (cons_ne_nil _ _)
  simpa using hJoin

theorem join_render {seg rs} (hRs : ∀ seg ∈ rs, Plain seg) (hSeg : Plain seg) :
    join (render (rooted path) (segments path ++ rs)) seg =
      render (rooted path) (segments path ++ (rs ++ [seg])) := by
  rw [join_plain hSeg, rooted_render (cleaned_append hRs), segments_render (cleaned_append hRs),
    append_assoc]

theorem ltxLevelDir_eq : ltxLevelDir N path level =
    render (rooted path) (segments path ++ ["ltx".toList, N.itoa level]) := by
  rw [ltxLevelDir, ltxDir, join_plain plain_ltx,
    join_render (by simpa using plain_ltx) (N.plain_itoa level)]
  rfl

theorem ltxFilePath_eq : ltxFilePath N path level minTXID maxTXID =
    render (rooted path) (segments path ++ fileSegs N level minTXID maxTXID) := by
  rw [ltxFilePath, ltxLevelDir_eq, join_render plain_levelSegs (N.plain_format minTXID maxTXID)]
  rfl

-- Reading A Name Back

theorem parseLTXPath_eq_ok_iff {objPath} :
    parseLTXPath N path objPath = .ok (level, minTXID, maxTXID) ↔ ∃ dir name rest,
      (stripPath path objPath).splitOn '/' = "ltx".toList :: dir :: name :: rest ∧
      N.atoi dir = some level ∧ N.parseFilename name = some (minTXID, maxTXID) := by
  unfold parseLTXPath
  dsimp only
  split
  · next first dir name rest hSplit =>
    rw [hSplit]
    by_cases hFirst : first = "ltx".toList
    · cases hDir : N.atoi dir <;> cases hName : N.parseFilename name <;>
        simp [hFirst, hDir, hName, Prod.ext_iff]
    rw [if_pos hFirst]
    refine iff_of_false nofun ?_
    rintro ⟨dir, name, rest, hEq, -⟩
    exact hFirst (List.cons.inj hEq).1
  · next hSplit => simpa using fun dir name rest hEq => absurd hEq (hSplit _ _ _ _)

/- The path is clean, or it denotes the directory itself. -/
def Readable (path : List Char) : Prop :=
  clean path = ['.'] ∨ path = clean path ∧ path ≠ ['/']

theorem readable_iff : Readable path ↔
    rooted path = false ∧ segments path = [] ∨ path = clean path ∧ segments path ≠ [] := by
  have hRooted := rooted_render (cleaned_segments path)
  have hSegs := segments_render (cleaned_segments path)
  rw [← clean] at hRooted hSegs
  constructor
  · rintro (hDot | ⟨hClean, hSlash⟩)
    · rw [hDot] at hRooted hSegs
      exact Or.inl ⟨hRooted.symm, hSegs.symm⟩
    · by_cases hNil : segments path = []
      · cases hRoot : rooted path with
        | false => exact Or.inl ⟨rfl, hNil⟩
        | true =>
          rw [clean, hRoot, hNil] at hClean
          exact absurd hClean hSlash
      · exact Or.inr ⟨hClean, hNil⟩
  · rintro (⟨hRoot, hNil⟩ | ⟨hClean, hSome⟩)
    · left
      rw [clean, hRoot, hNil]
      rfl
    · refine Or.inr ⟨hClean, ?_⟩
      rintro rfl
      exact hSome rfl

/- Where the path is stripped, it is clean. -/
theorem stripped {rs} (hRs : Cleaned (rooted path) (segments path ++ rs).reverse)
    (hNe : segments path ++ rs ≠ []) (hPath : path ≠ [])
    (hPre : path ++ ['/'] <+: render (rooted path) (segments path ++ rs)) :
    path = clean path ∧ segments path ≠ [] ∧ ((render (rooted path) (segments path ++ rs)).drop
      (path.length + 1)).splitOn '/' = rs := by
  obtain ⟨tail, hTail⟩ := hPre
  rw [append_assoc, singleton_append] at hTail
  have hSplit := congrArg (splitOn '/') hTail
  rw [splitOn_append_cons_self] at hSplit
  obtain ⟨-, hClean, hSegs, hRest⟩ := segments_of_splitOn hPath hRs hNe hSplit
  refine ⟨hClean, hSegs, ?_⟩
  rw [← hTail, append_cancel_left hRest]
  simp

/- Below a readable path the names are stripped to the elements of the file. -/
theorem splitOn_stripPath (hReadable : Readable path) {rs}
    (hRs : Cleaned (rooted path) (segments path ++ rs).reverse) (hNe : rs ≠ []) :
    (stripPath path (render (rooted path) (segments path ++ rs))).splitOn '/' = rs := by
  have hSome : segments path ++ rs ≠ [] := append_ne_nil_of_right_ne_nil _ hNe
  unfold stripPath
  split
  · next hPre => exact (stripped hRs hSome hPre.1 hPre.2).2.2
  next hPre =>
  rcases readable_iff.mp hReadable with ⟨hRoot, hNil⟩ | ⟨hClean, hSegs⟩
  · rw [splitOn_render hRs hSome, hRoot, hNil]
    rfl
  refine absurd ⟨?_, ?_⟩ hPre
  · rintro rfl
    exact hSegs rfl
  · rw [render_append hSegs hNe, ← clean, ← hClean]
    exact ⟨['/'].intercalate rs, by simp⟩

theorem parseLTXPath_keyPath
    (hReadable : Readable path)
    (f : FileKey) :
    parseLTXPath N path (keyPath N path f) =
      .ok f.numbers := by
  rw [keyPath, ltxFilePath_eq, FileKey.numbers,
    parseLTXPath_eq_ok_iff]
  exact ⟨_, _, [],
    splitOn_stripPath hReadable
      (cleaned_append plain_fileSegs) (cons_ne_nil _ _),
    N.atoi_itoa _ f.level.isLt,
    N.parse_format _ f.minTXID.isLt _ f.maxTXID.isLt⟩

/- Otherwise the names are read from an element of the path. -/
theorem readable_of_parse
    (hParse : ∀ level ∈ [0, 1],
      parseLTXPath N path (ltxFilePath N path level 1 1) =
        .ok (level, 1, 1)) :
    Readable path := by
  by_contra hNot
  rw [readable_iff, not_or] at hNot
  have hRead : ∀ level ∈ [0, 1], ∃ dir name rest, (if rooted path then
    [] :: (segments path ++ fileSegs N level 1 1) else segments path ++ fileSegs N level 1 1) =
    "ltx".toList :: dir :: name :: rest ∧ N.atoi dir = some level ∧
    N.parseFilename name = some (1, 1) := by
    intro level hMem
    have hSome : segments path ++ fileSegs N level 1 1 ≠ [] := by simp [fileSegs]
    have hLevel := parseLTXPath_eq_ok_iff.mp (hParse level hMem)
    rw [ltxFilePath_eq, stripPath, if_neg ?_,
      splitOn_render (cleaned_append plain_fileSegs) hSome] at hLevel
    · exact hLevel
    · rintro ⟨hPath, hPre⟩
      have hClean := stripped (cleaned_append plain_fileSegs) hSome hPath hPre
      exact hNot.2 ⟨hClean.1, hClean.2.1⟩
  obtain ⟨dir, name, rest, hZero, hDir, hName⟩ := hRead 0 (by decide)
  obtain ⟨dir', name', rest', hOne, hDir', -⟩ := hRead 1 (by decide)
  cases hRoot : rooted path with
  | true => simp [hRoot] at hZero
  | false =>
    rw [hRoot] at hNot hZero hOne
    -- which element is taken for the level depends on the length of the path
    match hSegs : segments path with
    | [] => exact hNot.1 ⟨rfl, hSegs⟩
    | [a] =>
      simp only [hSegs, fileSegs] at hZero
      cases hZero
      exact absurd (N.atoi_ltx.symm.trans hDir) nofun
    | [a, b] =>
      simp only [hSegs, fileSegs] at hZero
      cases hZero
      exact absurd (N.parse_ltx.symm.trans hName) nofun
    | a :: b :: c :: more =>
      rw [hSegs] at hZero hOne
      cases hZero
      cases hOne
      exact absurd (hDir.symm.trans hDir') nofun

-- Listing The Bucket

/- The timestamp is that of the object's header, if it has one. -/
structure Object where
  name : List Char
  size : Int
  modTime : Int
  timestamp : Option Int

def fileInfo (N : Naming) (path : List Char) (level seek : Nat) (obj : Object) : Option FileInfo :=
  if ¬ ltxLevelDir N path level ++ ['/'] <+: obj.name then none
  else
    match parseLTXPath N path obj.name with
    | .error _ => none
    | .ok (fileLevel, minTXID, maxTXID) =>
      if fileLevel ≠ level then none
      else if minTXID < seek then none
      else some ⟨fileLevel, minTXID, maxTXID, obj.size, obj.timestamp.getD obj.modTime⟩

/- What `LTXFiles` may return. Ties are left in any order by `sort.Slice`. -/
structure Lists (N : Naming) (path : List Char) (objs : List Object) (level seek : Nat)
    (items : List FileInfo) : Prop where
  perm : items.Perm (objs.filterMap (fileInfo N path level seek))
  sorted : items.Pairwise fun a b => ¬ b.minTXID < a.minTXID

theorem keyPath_inj
    {f g : FileKey}
    (hEq : keyPath N path f = keyPath N q g) :
    rooted path = rooted q ∧ segments path = segments q ∧
      f = g := by
  obtain ⟨l, a, b⟩ := f
  obtain ⟨l', a', b'⟩ := g
  simp only [keyPath, ltxFilePath_eq] at hEq
  have hRooted := congrArg rooted hEq
  have hSegs := congrArg segments hEq
  rw [rooted_render (cleaned_append plain_fileSegs), rooted_render
    (cleaned_append plain_fileSegs)] at hRooted
  rw [segments_render (cleaned_append plain_fileSegs), segments_render
    (cleaned_append plain_fileSegs)] at hSegs
  obtain ⟨hPath, hFile⟩ := append_inj' hSegs rfl
  simp only [fileSegs, List.cons.injEq, true_and, and_true] at hFile
  have hLevel := congrArg N.atoi hFile.1
  have hRange := congrArg N.parseFilename hFile.2
  rw [N.atoi_itoa _ l.isLt, N.atoi_itoa _ l'.isLt,
    Option.some.injEq, Fin.val_inj] at hLevel
  rw [N.parse_format _ a.isLt _ b.isLt,
    N.parse_format _ a'.isLt _ b'.isLt, Option.some.injEq,
    Prod.mk.injEq, Fin.val_inj, Fin.val_inj] at hRange
  obtain ⟨rfl, rfl⟩ := hRange
  exact ⟨hRooted, hPath, by rw [hLevel]⟩

/- A file of any client, seen by the client with a readable path. -/
theorem fileInfo_eq_some_iff
    (hReadable : Readable path)
    (hLevel : level < 2 ^ 63)
    {obj : Object}
    {f : FileKey}
    {info : FileInfo}
    (hName : obj.name = keyPath N q f) :
    fileInfo N path level seek obj = some info ↔ rooted path = rooted q ∧ ∃ name rest a b,
      segments q ++ fileSegs N f.level f.minTXID f.maxTXID =
        segments path ++ "ltx".toList :: N.itoa level :: name :: rest ∧
      N.parseFilename name = some (a, b) ∧ seek ≤ a ∧
      info = ⟨level, a, b, obj.size, obj.timestamp.getD obj.modTime⟩ := by
  have hFile : Cleaned (rooted q) (segments q ++ fileSegs N f.level f.minTXID f.maxTXID).reverse :=
    cleaned_append plain_fileSegs
  have hDirs : Cleaned (rooted path) (segments path ++ ["ltx".toList, N.itoa level]).reverse :=
    cleaned_append plain_levelSegs
  have hDir := dir_prefix_iff hDirs (by simp) hFile (by simp [fileSegs])
  rw [keyPath, ltxFilePath_eq] at hName
  rw [fileInfo, ltxLevelDir_eq, hName]
  by_cases hIn : rooted path = rooted q ∧ ∃ name rest, segments q ++ fileSegs N f.level f.minTXID f.maxTXID =
    (segments path ++ ["ltx".toList, N.itoa level]) ++ name :: rest
  · rw [if_neg (not_not.mpr (hDir.mpr hIn))]
    obtain ⟨hRoot, name, rest, hSegs⟩ := hIn
    rw [append_assoc] at hSegs
    rw [← hRoot, hSegs] at hFile ⊢
    have hSplit := splitOn_stripPath hReadable hFile (cons_ne_nil _ _)
    have hRead : (rooted path = rooted path ∧ ∃ name' rest' a b, segments path ++
      (["ltx".toList, N.itoa level] ++ name :: rest) =
      segments path ++ "ltx".toList :: N.itoa level :: name' :: rest' ∧
      N.parseFilename name' = some (a, b) ∧ seek ≤ a ∧
      info = ⟨level, a, b, obj.size, obj.timestamp.getD obj.modTime⟩) ↔
      ∃ a b, N.parseFilename name = some (a, b) ∧ seek ≤ a ∧
        info = ⟨level, a, b, obj.size, obj.timestamp.getD obj.modTime⟩ := by
      simp
    rw [hRead]
    cases hX : parseLTXPath N path (render (rooted path)
      (segments path ++ (["ltx".toList, N.itoa level] ++ name :: rest))) with
    | error err =>
      refine iff_of_false nofun ?_
      rintro ⟨a, b, hParse, -⟩
      rw [parseLTXPath_eq_ok_iff.mpr ⟨_, _, _, hSplit, N.atoi_itoa level hLevel, hParse⟩] at hX
      contradiction
    | ok r =>
      obtain ⟨l, a, b⟩ := r
      obtain ⟨dir, name', rest', hEq, hDir, hParse⟩ := parseLTXPath_eq_ok_iff.mp hX
      rw [hSplit] at hEq
      cases hEq
      cases (N.atoi_itoa level hLevel).symm.trans hDir
      by_cases hSeek : seek ≤ a
      · simp [hParse, hSeek, eq_comm]
      · simp [hParse, hSeek]
  · rw [if_pos (mt hDir.mp hIn)]
    refine iff_of_false nofun ?_
    rintro ⟨hRoot, name, rest, a, b, hSegs, -⟩
    exact hIn ⟨hRoot, name, rest, by rw [hSegs, append_assoc]; rfl⟩

-- What A Client Lists

/- The other path leads through a file of this one. -/
def BelowFile
    (N : Naming)
    (path q : List Char) : Prop :=
  rooted path = rooted q ∧ ∃ level < 2 ^ 63, ∃ name rest,
    segments q = segments path ++ "ltx".toList :: N.itoa level :: name :: rest ∧
    (N.parseFilename name).isSome

/- A client sees its own files of the level. -/
theorem fileInfo_own_iff
    (hReadable : Readable path)
    (hLevel : level < 2 ^ 63)
    {obj : Object}
    {f : FileKey}
    {info : FileInfo}
    (hName : obj.name = keyPath N path f) :
    fileInfo N path level seek obj = some info ↔
      f.level = level ∧ seek ≤ f.minTXID ∧
      info = ⟨f.level, f.minTXID, f.maxTXID, obj.size,
        obj.timestamp.getD obj.modTime⟩ := by
  obtain ⟨l, a, b⟩ := f
  have hRange := N.parse_format a a.isLt b b.isLt
  rw [fileInfo_eq_some_iff hReadable hLevel hName]
  constructor
  · rintro ⟨-, name, rest, a', b', hSegs, hParse, hSeek, rfl⟩
    have hFile := append_cancel_left hSegs
    simp only [fileSegs, List.cons.injEq, true_and] at hFile
    obtain ⟨hItoa, rfl, -⟩ := hFile
    have hSame := congrArg N.atoi hItoa
    rw [N.atoi_itoa _ l.isLt, N.atoi_itoa _ hLevel] at hSame
    cases hSame
    cases hRange.symm.trans hParse
    exact ⟨rfl, hSeek, rfl⟩
  · rintro ⟨rfl, hSeek, rfl⟩
    exact ⟨rfl, _, [], a, b, rfl, hRange, hSeek, rfl⟩

/- Of the other clients it sees only those below one of its files. -/
theorem belowFile_of_fileInfo
    (hReadable : Readable path)
    (hLevel : level < 2 ^ 63)
    {obj : Object}
    {f : FileKey}
    {info : FileInfo}
    (hName : obj.name = keyPath N q f)
    (hOther : clean q ≠ clean path)
    (hInfo : fileInfo N path level seek obj = some info) :
    BelowFile N path q := by
  obtain ⟨hRoot, name, rest, a, b, hSegs, hParse, -⟩ :=
    (fileInfo_eq_some_iff hReadable hLevel hName).mp hInfo
  have hSome : segments q ≠ segments path := by
    intro hSame
    rw [clean, clean, hRoot, hSame] at hOther
    exact hOther rfl
  rcases append_eq_append_iff.mp hSegs with ⟨more, hPath, hFile⟩ | ⟨more, hPath, hFile⟩
  · have hLength := congrArg List.length hFile
    simp only [fileSegs, length_cons, length_append, length_nil] at hLength
    have hNil : more = [] := eq_nil_of_length_eq_zero (by omega)
    rw [hNil, append_nil] at hPath
    exact absurd hPath.symm hSome
  rcases more with _ | ⟨x, _ | ⟨y, _ | ⟨z, more⟩⟩⟩
  · exact absurd (hPath.trans (append_nil _)) hSome
  · have hItoa := congrArg N.atoi (List.cons.inj (List.cons.inj hFile).2).1
    rw [N.atoi_itoa _ hLevel, N.atoi_ltx] at hItoa
    contradiction
  · have hName := (List.cons.inj (List.cons.inj (List.cons.inj hFile).2).2).1
    rw [hName, N.parse_ltx] at hParse
    contradiction
  · obtain ⟨rfl, rfl, rfl, -⟩ := hFile
    exact ⟨hRoot, level, hLevel, name, more, hPath, by rw [hParse]; rfl⟩

-- Writing And Deleting

inductive Op where
  | write (f : FileKey) (size modTime timestamp : Int)
  | delete (fs : List FileKey)

/- `WriteLTXFile` and `DeleteLTXFiles` on the bucket. -/
def Op.run (N : Naming) (path : List Char) (objs : List Object) : Op → List Object
| .write f size modTime timestamp =>
  ⟨keyPath N path f, size, modTime, some timestamp⟩ ::
    objs.filter fun obj => obj.name ≠ keyPath N path f
| .delete fs => objs.filter fun obj => obj.name ∉ fs.map (keyPath N path)

/- The files that were written and not deleted. -/
def Op.files (written : List FileKey) : Op → List FileKey
| .write f _ _ _ => f :: written
| .delete fs => written.filter fun f => f ∉ fs

/- The bucket holds the written files, and besides them files of other clients. -/
structure Holds (N : Naming) (path : List Char) (others : Set (List Char)) (objs : List Object)
    (written : List FileKey) : Prop where
  origin : ∀ obj ∈ objs, (∃ f ∈ written, obj.name = keyPath N path f) ∨
    ∃ q ∈ others, clean q ≠ clean path ∧ ∃ f, obj.name = keyPath N q f
  present : ∀ f ∈ written, ∃ obj ∈ objs, obj.name = keyPath N path f

theorem keyPath_mem_iff {f : FileKey} {fs : List FileKey} :
    keyPath N path f ∈ fs.map (keyPath N path) ↔ f ∈ fs :=
  mem_map_of_injective fun _ _ hEq => (keyPath_inj hEq).2.2

variable {others : Set (List Char)} {objs : List Object} {written : List FileKey}

theorem Holds.run (hHolds : Holds N path others objs written) (op : Op) :
    Holds N path others (op.run N path objs) (op.files written) := by
  cases op with
  | write f size modTime timestamp =>
    constructor
    · intro obj hMem
      rcases mem_cons.mp hMem with rfl | hMem
      · exact Or.inl ⟨f, mem_cons_self, rfl⟩
      · rcases hHolds.origin obj (mem_of_mem_filter hMem) with ⟨g, hg, hName⟩ | hOther
        · exact Or.inl ⟨g, mem_cons_of_mem f hg, hName⟩
        · exact Or.inr hOther
    · intro g hg
      by_cases hSame : g = f
      · exact ⟨_, mem_cons_self, by rw [hSame]⟩
      obtain ⟨obj, hMem, hName⟩ := hHolds.present g ((mem_cons.mp hg).resolve_left hSame)
      refine ⟨obj, mem_cons_of_mem _ (mem_filter.mpr ⟨hMem, ?_⟩), hName⟩
      rw [hName]
      exact decide_eq_true fun hEq => hSame (keyPath_inj hEq).2.2
  | delete fs =>
    constructor
    · intro obj hMem
      obtain ⟨hMem, hKept⟩ := mem_filter.mp hMem
      rcases hHolds.origin obj hMem with ⟨g, hg, hName⟩ | hOther
      · rw [hName, decide_eq_true_eq, keyPath_mem_iff] at hKept
        exact Or.inl ⟨g, mem_filter.mpr ⟨hg, decide_eq_true hKept⟩, hName⟩
      · exact Or.inr hOther
    · intro g hg
      obtain ⟨hg, hKept⟩ := mem_filter.mp hg
      obtain ⟨obj, hMem, hName⟩ := hHolds.present g hg
      refine ⟨obj, mem_filter.mpr ⟨hMem, ?_⟩, hName⟩
      rw [hName]
      exact decide_eq_true (mt keyPath_mem_iff.mp (of_decide_eq_true hKept))

theorem Holds.runs (hHolds : Holds N path others objs written) (ops : List Op) :
    Holds N path others (ops.foldl (Op.run N path) objs) (ops.foldl Op.files written) := by
  induction ops generalizing objs written with
  | nil => exact hHolds
  | cons op ops ih => exact ih (hHolds.run op)

/-
  The listing has the written files of one level from a TXID
  on, and nothing else.
-/
def ListsExactly
    (items : List FileInfo)
    (level seek : Nat)
    (written : List FileKey) : Prop :=
  ∀ numbers,
    (∃ info ∈ items,
      (info.level, info.minTXID, info.maxTXID) = numbers) ↔
    ∃ f ∈ written, f.numbers = numbers ∧
      f.level = level ∧ seek ≤ f.minTXID

theorem Holds.lists
    (hReadable : Readable path)
    (hLevel : level < 2 ^ 63)
    (hHolds : Holds N path others objs written)
    (hOthers : ∀ q ∈ others, clean q ≠ clean path →
      ¬ BelowFile N path q)
    {items : List FileInfo}
    (hLists : Lists N path objs level seek items) :
    ListsExactly items level seek written := by
  intro numbers
  constructor
  · rintro ⟨info, hMem, rfl⟩
    obtain ⟨obj, hObj, hInfo⟩ := mem_filterMap.mp (hLists.perm.subset hMem)
    rcases hHolds.origin obj hObj with ⟨g, hg, hName⟩ | ⟨q, hq, hNe, g, hName⟩
    · obtain ⟨hSame, hSeek, rfl⟩ :=
        (fileInfo_own_iff hReadable hLevel hName).mp hInfo
      exact ⟨g, hg, rfl, hSame, hSeek⟩
    · exact absurd
        (belowFile_of_fileInfo hReadable hLevel hName hNe hInfo)
        (hOthers q hq hNe)
  · rintro ⟨f, hf, rfl, hSame, hSeek⟩
    obtain ⟨obj, hObj, hName⟩ := hHolds.present f hf
    have hInfo := (fileInfo_own_iff hReadable hLevel hName).mpr
      ⟨hSame, hSeek, rfl⟩
    exact ⟨_, hLists.perm.mem_iff.mpr (mem_filterMap.mpr ⟨obj, hObj, hInfo⟩), rfl⟩

/-
  Every name is read back, and whatever is written is listed
  exactly, if and only if the path is readable and no other
  client's path leads through a file of this one.
-/
theorem written_is_listed
    (N : Naming)
    (path : List Char)
    (others : Set (List Char)) :
    ((∀ f : FileKey,
        parseLTXPath N path (keyPath N path f) =
          .ok f.numbers) ∧
      ∀ (objs : List Object) (ops : List Op) (level seek : Nat) (items : List FileInfo),
        level < 2 ^ 63 → Holds N path others objs [] →
        Lists N path (ops.foldl (Op.run N path) objs) level
          seek items →
        ListsExactly items level seek
          (ops.foldl Op.files [])) ↔
    Readable path ∧
    ∀ q ∈ others,
      clean q ≠ clean path → ¬ BelowFile N path q := by
  constructor
  · rintro ⟨hParse, hListed⟩
    have hReadable : Readable path := by
      apply @readable_of_parse N
      simp only [forall_mem_cons, not_mem_nil, false_implies,
        implies_true, and_true]
      exact ⟨hParse ⟨0, 1, 1⟩, hParse ⟨1, 1, 1⟩⟩
    refine ⟨hReadable, ?_⟩
    rintro q hq hNe ⟨hRoot, level, hLevel, name, rest, hSegs, hName⟩
    -- one object of the other client, and no operation
    obtain ⟨⟨a, b⟩, hName⟩ := Option.isSome_iff_exists.mp hName
    let obj : Object := ⟨keyPath N q ⟨0, 1, 1⟩, 0, 0, none⟩
    have hInfo : fileInfo N path level 0 obj =
      some ⟨level, a, b, 0, 0⟩ :=
      (fileInfo_eq_some_iff hReadable hLevel rfl).mpr
        ⟨hRoot, name, rest ++ fileSegs N 0 1 1, a, b,
          by simp [hSegs], hName, Nat.zero_le a, rfl⟩
    have hLists : Lists N path [obj] level 0 [⟨level, a, b, 0, 0⟩] :=
      ⟨by simp [hInfo], pairwise_singleton _ _⟩
    have hHolds : Holds N path others [obj] [] :=
      ⟨fun o ho => Or.inr ⟨q, hq, hNe, ⟨0, 1, 1⟩, by rw [mem_singleton.mp ho]⟩, by simp⟩
    obtain ⟨f, hf, -⟩ :=
      (hListed [obj] [] level 0 _ hLevel hHolds hLists (level, a, b)).mp
        ⟨_, mem_singleton_self _, rfl⟩
    exact absurd hf not_mem_nil
  · rintro ⟨hReadable, hOthers⟩
    refine ⟨parseLTXPath_keyPath hReadable, ?_⟩
    intro objs ops level seek items hLevel hHolds hLists
    exact (hHolds.runs ops).lists hReadable hLevel hOthers hLists

------------------------------------------------------------
-- The Names Of The Libraries
------------------------------------------------------------

/- A number of decimal digits in the range of an `int`. -/
def readDecimal
    (digits : List Char) : Option Nat :=
  if digits ≠ [] ∧ digits.all Char.isDigit ∧
      Nat.ofDigitChars 10 digits 0 < 2 ^ 63 then
    some (Nat.ofDigitChars 10 digits 0)
  else none

/- `strconv.Atoi`, where a negative number is no level. -/
def readLevel : List Char → Option Nat
| '+' :: digits => readDecimal digits
| '-' :: digits => (readDecimal digits).filter (· = 0)
| digits => readDecimal digits

theorem not_mem_decimal
    {n : Nat}
    {c : Char}
    (hSign : c.isDigit = false) :
    c ∉ Nat.toDigits 10 n := by
  intro hMem
  have hDigit := Nat.isDigit_of_mem_toDigits (by decide)
    (by decide) hMem
  rw [hSign] at hDigit
  contradiction

theorem readLevel_toDigits
    (n : Nat)
    (hInt : n < 2 ^ 63) :
    readLevel (Nat.toDigits 10 n) = some n := by
  have hRead : readDecimal (Nat.toDigits 10 n) = some n := by
    have hValue : Nat.ofDigitChars 10 (Nat.toDigits 10 n) 0 = n :=
      Nat.ofDigitChars_toDigits (by decide) (by decide)
    have hDigits : (Nat.toDigits 10 n).all Char.isDigit :=
      all_eq_true.mpr fun _ =>
        Nat.isDigit_of_mem_toDigits (by decide) (by decide)
    rw [readDecimal, hValue,
      if_pos ⟨Nat.toDigits_ne_nil, hDigits, hInt⟩]
  -- no digit is taken for a sign
  unfold readLevel
  split
  · next hSign =>
    exact absurd (hSign ▸ mem_cons_self)
      (@not_mem_decimal n '+' rfl)
  · next hSign =>
    exact absurd (hSign ▸ mem_cons_self)
      (@not_mem_decimal n '-' rfl)
  · exact hRead

/- Two numbers of sixteen hexadecimal digits. -/
def formatRange
    (minTXID maxTXID : Nat) : List Char :=
  HexDigits.fixed 16 minTXID ++
    '-' :: (HexDigits.fixed 16 maxTXID ++ ".ltx".toList)

/- The name of an LTX file as its pattern has it. -/
def readRange
    (name : List Char) : Option (Nat × Nat) :=
  let minDigits := name.take 16
  let maxDigits := (name.drop 17).take 16
  if name = minDigits ++ '-' :: (maxDigits ++ ".ltx".toList) ∧
      (minDigits ++ maxDigits).length = 32 ∧
      (minDigits ++ maxDigits).all HexDigits.chars.contains then
    some (HexDigits.value minDigits, HexDigits.value maxDigits)
  else none

theorem readRange_formatRange
    (a : Nat)
    (ha : a < 2 ^ 64)
    (b : Nat)
    (hb : b < 2 ^ 64) :
    readRange (formatRange a b) = some (a, b) := by
  have hMin : (formatRange a b).take 16 = HexDigits.fixed 16 a :=
    take_left' (HexDigits.length_fixed 16 a)
  have hMax : ((formatRange a b).drop 17).take 16 =
    HexDigits.fixed 16 b := by
    rw [formatRange, append_cons, drop_left' (by
      rw [length_append, HexDigits.length_fixed]; rfl)]
    exact take_left' (HexDigits.length_fixed 16 b)
  have hChars : (HexDigits.fixed 16 a ++ HexDigits.fixed 16 b).all
    HexDigits.chars.contains = true := by
    simp only [all_eq_true, contains_iff_mem, mem_append]
    rintro c (hMem | hMem)
    · exact HexDigits.mem_fixed hMem
    · exact HexDigits.mem_fixed hMem
  have hLength : (HexDigits.fixed 16 a ++
    HexDigits.fixed 16 b).length = 32 := by
    rw [length_append, HexDigits.length_fixed,
      HexDigits.length_fixed]
  unfold readRange
  dsimp only
  rw [hMin, hMax, if_pos ⟨rfl, hLength, hChars⟩,
    HexDigits.value_fixed ha, HexDigits.value_fixed hb]

/- Levels are decimal, and the names are those of the library. -/
def ltxNaming : Naming where
  itoa := Nat.toDigits 10
  atoi := readLevel
  formatFilename := formatRange
  parseFilename := readRange
  atoi_itoa := readLevel_toDigits
  parse_format := readRange_formatRange
  plain_itoa := by
    intro n
    have hDot := @not_mem_decimal n '.' rfl
    refine ⟨not_mem_decimal rfl, Nat.toDigits_ne_nil, ?_, ?_⟩
    · exact fun hEq => hDot (hEq ▸ mem_cons_self)
    · exact fun hEq => hDot (hEq ▸ mem_cons_self)
  plain_format := by
    intro a b
    have hLength : (formatRange a b).length = 37 := by
      simp [formatRange, HexDigits.length_fixed]
    refine ⟨?_, ?_, ?_, ?_⟩
    · simp only [formatRange, mem_append, mem_cons]
      rintro (hMem | hMem | hMem | hMem)
      · exact absurd (HexDigits.mem_fixed hMem) (by decide)
      · exact absurd hMem (by decide)
      · exact absurd (HexDigits.mem_fixed hMem) (by decide)
      · exact absurd hMem (by decide)
    all_goals
      intro hEq
      rw [hEq] at hLength
      contradiction
  atoi_ltx := by decide
  parse_ltx := by decide

/- The path has a slash at its end: nothing that is written is listed again. -/
theorem slash_path_unlisted :
    parseLTXPath ltxNaming "a/".toList
      (keyPath ltxNaming "a/".toList ⟨0, 1, 1⟩) ≠
      .ok (0, 1, 1) ∧
    Lists ltxNaming "a/".toList
      (Op.run ltxNaming "a/".toList []
        (.write ⟨0, 1, 1⟩ 0 0 0)) 0 0 [] := by
  have hName : keyPath ltxNaming "a/".toList ⟨0, 1, 1⟩ =
    "a/ltx/0/0000000000000001-0000000000000001.ltx".toList := by
    decide +kernel
  have hParse : parseLTXPath ltxNaming "a/".toList
    "a/ltx/0/0000000000000001-0000000000000001.ltx".toList ≠
      .ok (0, 1, 1) := by
    decide +kernel
  have hInfo : [⟨"a/ltx/0/0000000000000001-0000000000000001.ltx".toList,
      0, 0, some 0⟩].filterMap (fileInfo ltxNaming "a/".toList 0 0) = [] := by
    decide +kernel
  refine ⟨hName ▸ hParse, ?_, List.Pairwise.nil⟩
  rw [Op.run, hName, filter_nil, hInfo]

end NATS

end Replicate
