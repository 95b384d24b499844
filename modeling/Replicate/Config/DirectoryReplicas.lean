import Replicate.Config.ReplicaURL

/-
  The replicas of the databases found in a directory.

  Each database gets the configured destination with its
  path below the directory appended. An opaque URL such as
  `file:backup` is rendered without its path, so that all
  databases get the same destination. The fragment of a file
  URL is read as a part of the path, and may lead out of it
  again, as in `file:///r#/..`. A user whose name is `arn`
  makes an access point of the rendered URL.

  Main declarations:
    * `URLLibrary.cloneReplicaConfigWithRelativePath`
    * `deriveMetaPathForDirectoryEntry`
    * `directory_databases_apart`
    * `opaque_url_shared`
-/

open SlashPath

namespace Replicate

open List Function

------------------------------------------------------------
-- Destinations
------------------------------------------------------------

/-
  A replica by URL or by type and path. For every type the
  path is joined with slashes.
-/
structure ReplicaConfig where
  url : List Char
  path : List Char

/- The path of the database, below the one of the URL. -/
def appendRelativePathToURL
    (u : URL)
    (relPath : List Char) : URL :=
  let cleanRel := trimSlash relPath
  if cleanRel = [] ∨ cleanRel = ['.'] then u
  else
    let joined :=
      if u.path = [] then cleanRel
      else join u.path cleanRel
    { u with path := '/' :: trimSlash joined }

/- The directory of a database's own metadata. -/
def deriveMetaPathForDirectoryEntry
    (basePath relPath : List Char) : List Char :=
  match (segments relPath).reverse with
  | [] => basePath
  | relFile :: dirs =>
    join basePath (['/'].intercalate (dirs.reverse ++
      ['.' :: relFile ++ "-replicate".toList]))

namespace URLLibrary

/-
  The configuration of one database. The URL is parsed, its
  path extended and all of it written again.
-/
def cloneReplicaConfigWithRelativePath
    (lib : URLLibrary)
    (base : ReplicaConfig)
    (relPath : List Char) : Except Err ReplicaConfig :=
  if relPath = [] ∨ relPath = ['.'] then .ok base
  else if base.url ≠ [] then
    match lib.parse base.url with
    | .error err => .error (.wrap "parse replica url" err)
    | .ok u =>
      .ok { base with
        url := lib.render
          (appendRelativePathToURL u relPath) }
  else
    .ok { base with
      path := if base.path = [] then relPath
        else join base.path relPath }

/- Where a replica writes. -/
def destination
    (lib : URLLibrary)
    (c : ReplicaConfig) : Except Err ReplicaDest :=
  if c.url ≠ [] then lib.parseReplicaURLWithQuery c.url
  else .ok ⟨[], [], c.path, [], none⟩

/-
  The destination of the database with these path elements
  below the directory.
-/
def databaseDest
    (lib : URLLibrary)
    (base : ReplicaConfig)
    (rs : List (List Char)) : Except Err ReplicaDest := do
  lib.destination
    (← lib.cloneReplicaConfigWithRelativePath base
      (['/'].intercalate rs))

end URLLibrary

------------------------------------------------------------
-- URLs With A Scheme
------------------------------------------------------------

namespace URL

/- What `String` writes after the path when the query is cleared. -/
def tail (u : URL) : List Char :=
  (if u.forceQuery then ['?'] else []) ++
    if u.fragment = [] then [] else '#' :: u.fragment

/- The part of it that belongs to the last path element. -/
def mark (u : URL) : List Char :=
  u.tail.takeWhile (· ≠ '/')

/- The part of it that is read as further path elements. -/
def below (u : URL) : List Char :=
  (u.tail.dropWhile (· ≠ '/')).drop 1

/- The rendered URL begins like that of an access point. -/
def WritesARN (u : URL) : Prop :=
  u.scheme = "s3".toList ∧
    ∃ text, u.user = some text ∧ "arn:".toList <+: text.map Char.toLower

/- The URLs below which databases are kept apart. -/
structure Separates (u : URL) : Prop where
  hierarchical : u.opaquePart = []
  fragment : u.scheme = "file".toList →
    ['.', '.'] ∉ segments ('.' :: '/' :: u.below)
  user : ¬ u.WritesARN

end URL

namespace URLLibrary

/- A text that `url.Parse` reads as a URL with a scheme, and that is no access point. -/
structure NamesURL
    (lib : URLLibrary)
    (s : List Char)
    (u : URL) : Prop where
  parsed : lib.parse s = .ok u
  scheme : u.scheme ≠ []
  plain : ¬ IsAccessPoint s

/-
  What is assumed of `net/url`. A URL with a scheme has a
  rooted path or none. Parsing it after it was rendered with
  another path gives it back, but an opaque one is rendered
  without its path. Without scheme and query the rendered
  text has the escaped path between the authority and the
  fragment. Only a user named `arn` can make an access point
  of it.
-/
structure RoundTrips (lib : URLLibrary) : Prop where
  rootedPath : ∀ s u, lib.NamesURL s u → u.path = [] ∨ rooted u.path = true
  host : ∀ s u, lib.NamesURL s u → '/' ∉ u.host
  parse_render : ∀ s u segs, lib.NamesURL s u → segs ≠ [] → (∀ seg ∈ segs, Plain seg) →
    lib.parse (lib.render { u with path := SlashPath.render true segs }) =
      .ok { u with path := if u.opaquePart = [] then SlashPath.render true segs else [] }
  escaped : ∃ (esc : List Char → List Char) (front : URL → List Char),
    Injective esc ∧
    (∀ seg, Plain seg → Plain (esc seg)) ∧
    (∀ seg, '?' ∉ esc seg ∧ '#' ∉ esc seg) ∧
    ∀ s u segs, lib.NamesURL s u → u.opaquePart = [] → segs ≠ [] → (∀ seg ∈ segs, Plain seg) →
      lib.render { u with scheme := [], path := SlashPath.render true segs, query := [] } =
        front u ++ SlashPath.render true (segs.map esc) ++ u.tail
  accessPoint : ∀ s u segs, lib.NamesURL s u → segs ≠ [] → (∀ seg ∈ segs, Plain seg) →
    (IsAccessPoint (lib.render { u with path := SlashPath.render true segs }) ↔ u.WritesARN)
  empty : ∀ u, lib.parse [] = .ok u → u.scheme = []

end URLLibrary

------------------------------------------------------------
-- Elements
------------------------------------------------------------

variable {rs ss base : List (List Char)} {p : List Char} {lib : URLLibrary} {u : URL}
variable {c : ReplicaConfig}

/- A path of a database below the directory. -/
structure RelPath (rs : List (List Char)) : Prop where
  ne_nil : rs ≠ []
  plain : ∀ seg ∈ rs, Plain seg

theorem RelPath.cleaned
    (hRs : RelPath rs)
    (r : Bool) :
    Cleaned r rs.reverse := by
  have hNil : Cleaned r [] := trivial
  simpa using hNil.plain_append fun seg hMem => hRs.plain seg (mem_reverse.mp hMem)

theorem RelPath.text
    (hRs : RelPath rs) :
    ['/'].intercalate rs = render false rs := by
  simp [render, hRs.ne_nil]

theorem RelPath.segments_text
    (hRs : RelPath rs) :
    segments (['/'].intercalate rs) = rs := by
  rw [hRs.text, segments_render (hRs.cleaned false)]

theorem RelPath.text_ne
    (hRs : RelPath rs) :
    ¬ (['/'].intercalate rs = [] ∨
        ['/'].intercalate rs = ['.']) := by
  have hSegs := hRs.segments_text
  rintro (hEq | hEq) <;> rw [hEq] at hSegs <;> exact hRs.ne_nil hSegs.symm

theorem RelPath.trimSlash_text
    (hRs : RelPath rs) :
    trimSlash (['/'].intercalate rs) =
      ['/'].intercalate rs := by
  have hRooted : rooted (['/'].intercalate rs) = false := by
    rw [hRs.text, rooted_render (hRs.cleaned false)]
  unfold trimSlash
  split
  · next hEq =>
    rw [hEq] at hRooted
    contradiction
  · rfl

theorem RelPath.append
    (hRs : RelPath rs)
    (hp : p = [] ∨ rooted p = true) :
    RelPath (segments p ++ rs) := by
  refine ⟨by simp [hRs.ne_nil], fun seg hMem => ?_⟩
  rcases mem_append.mp hMem with hMem | hMem
  · obtain rfl | hp := hp
    · contradiction
    · have hCleaned := cleaned_segments p
      rw [hp] at hCleaned
      exact hCleaned.plain (mem_reverse.mpr hMem)
  · exact hRs.plain seg hMem

theorem RelPath.segments_join
    (hRs : RelPath rs) :
    segments (join p (['/'].intercalate rs)) =
      segments p ++ rs := by
  rw [join_intercalate hRs.plain hRs.ne_nil, segments_render (cleaned_append hRs.plain)]

------------------------------------------------------------
-- Metadata
------------------------------------------------------------

theorem segments_deriveMetaPath
    {init file}
    (hRs : RelPath (init ++ [file])) :
    segments
      (deriveMetaPathForDirectoryEntry p
        (['/'].intercalate (init ++ [file]))) =
      segments p ++
        (init ++ ['.' :: file ++ "-replicate".toList]) := by
  have hFile := hRs.plain file (by simp)
  have hMeta : RelPath (init ++ ['.' :: file ++ "-replicate".toList]) := by
    refine ⟨by simp, fun seg hMem => ?_⟩
    rcases mem_append.mp hMem with hMem | hMem
    · exact hRs.plain seg (mem_append_left _ hMem)
    obtain rfl := mem_singleton.mp hMem
    refine ⟨by simp [hFile.noSlash], by simp, by simp, fun hEq => ?_⟩
    have hLength := congrArg List.length hEq
    simp at hLength
  rw [deriveMetaPathForDirectoryEntry, hRs.segments_text, reverse_append]
  change segments (join p (['/'].intercalate (init.reverse.reverse ++ _))) = _
  rw [reverse_reverse, hMeta.segments_join]

theorem deriveMetaPath_ne
    (hRs : RelPath rs)
    (hSs : RelPath ss)
    (hNe : rs ≠ ss) :
    deriveMetaPathForDirectoryEntry p
      (['/'].intercalate rs) ≠
      deriveMetaPathForDirectoryEntry p
        (['/'].intercalate ss) := by
  obtain ⟨init, file, rfl⟩ := (eq_nil_or_concat' rs).resolve_left hRs.ne_nil
  obtain ⟨init', file', rfl⟩ := (eq_nil_or_concat' ss).resolve_left hSs.ne_nil
  intro hEq
  have hSegs := congrArg segments hEq
  rw [segments_deriveMetaPath hRs, segments_deriveMetaPath hSs] at hSegs
  simp at hSegs hNe
  exact hNe hSegs.1 hSegs.2

------------------------------------------------------------
-- Marked Paths
------------------------------------------------------------

/- The escaped elements of a path, with what a fragment adds to the last of them. -/
def marked
    (esc : List Char → List Char)
    (m : List Char) : List (List Char) → List (List Char)
| [] => []
| seg :: rest => (esc seg ++ if rest = [] then m else []) :: marked esc m rest

variable {esc : List Char → List Char} {m : List Char}

theorem marked_id : marked id [] rs = rs := by
  induction rs with
  | nil => rfl
  | cons seg rest ih => simp [marked, ih]

theorem marked_append
    (hRs : rs ≠ []) :
    marked esc m (base ++ rs) =
      base.map esc ++ marked esc m rs := by
  induction base with
  | nil => rfl
  | cons seg base ih => simp [marked, hRs, ih]

theorem intercalate_marked
    (hRs : rs ≠ []) :
    ['/'].intercalate (rs.map esc) ++ m =
      ['/'].intercalate (marked esc m rs) := by
  induction rs with
  | nil => contradiction
  | cons seg rest ih =>
    cases rest with
    | nil => simp [marked]
    | cons next rest =>
      have hRest := ih (cons_ne_nil _ _)
      rw [map_cons, map_cons, intercalate_cons_cons, append_assoc, append_assoc, ← map_cons, hRest]
      simp [marked, intercalate_cons_cons]

theorem RelPath.marked
    (hRs : RelPath rs)
    (hEsc : ∀ seg, Plain seg → Plain (esc seg))
    (hm : '/' ∉ m) :
    RelPath (marked esc m rs) := by
  obtain ⟨hNe, hPlain⟩ := hRs
  refine ⟨?_, ?_⟩
  · obtain ⟨seg, rest, rfl⟩ := exists_cons_of_ne_nil hNe
    exact cons_ne_nil _ _
  · clear hNe
    induction rs with
    | nil => simp [Replicate.marked]
    | cons seg rest ih =>
      rw [forall_mem_cons] at hPlain
      refine forall_mem_cons.mpr ⟨(hEsc seg hPlain.1).append ?_, ih hPlain.2⟩
      split <;> simp [hm]

/- The last element of one path is never an inner element of another. -/
structure TellsApart
    (esc : List Char → List Char)
    (m : List Char) : Prop where
  injective : Injective esc
  marks : ∀ a b, esc a ++ m = esc b → m = []

theorem TellsApart.eq
    {a b}
    (hApart : TellsApart esc m)
    {p q : Prop}
    [Decidable p]
    [Decidable q]
    (hEq :
      esc a ++ (if p then m else []) =
        esc b ++ if q then m else []) :
    a = b := by
  apply hApart.injective
  split at hEq <;> split at hEq
  · exact append_cancel_right hEq
  · rw [append_nil] at hEq
    simpa [hApart.marks _ _ hEq] using hEq
  · rw [append_nil] at hEq
    simpa [hApart.marks _ _ hEq.symm] using hEq
  · simpa using hEq

theorem TellsApart.prefix_or
    (hApart : TellsApart esc m)
    {xs ys}
    (hPrefix :
      marked esc m rs ++ xs <+: marked esc m ss ++ ys) :
    rs <+: ss ∨ ss <+: rs := by
  induction rs generalizing ss with
  | nil => exact Or.inl nil_prefix
  | cons seg rest ih =>
    cases ss with
    | nil => exact Or.inr nil_prefix
    | cons seg' rest' =>
      rw [marked, marked, cons_append, cons_append, cons_prefix_cons] at hPrefix
      rw [hApart.eq hPrefix.1, prefix_cons_inj, prefix_cons_inj]
      exact ih hPrefix.2

theorem slash_notMem_mark (u : URL) : '/' ∉ u.mark := by
  intro hMem
  have hAll := all_eq_true.mp (@all_takeWhile _ (· ≠ '/') u.tail) _ hMem
  simp at hAll

theorem tellsApart_mark
    (u : URL)
    (hInj : Injective esc)
    (hEsc : ∀ seg, '?' ∉ esc seg ∧ '#' ∉ esc seg) :
    TellsApart esc u.mark := by
  refine ⟨hInj, fun a b hEq => ?_⟩
  obtain hNil | ⟨ch, rest, hMark, hch⟩ : u.mark = [] ∨
      ∃ ch rest, u.mark = ch :: rest ∧ (ch = '?' ∨ ch = '#') := by
    unfold URL.mark URL.tail
    split
    · exact Or.inr ⟨'?', _, rfl, Or.inl rfl⟩
    · split
      · exact Or.inl rfl
      · exact Or.inr ⟨'#', _, rfl, Or.inr rfl⟩
  · exact hNil
  have hMem : ch ∈ esc b := by
    rw [← hEq, hMark]
    exact mem_append_right _ mem_cons_self
  rcases hch with rfl | rfl
  · exact absurd hMem (hEsc b).1
  · exact absurd hMem (hEsc b).2

theorem segments_append_render
    (hRs : RelPath rs)
    (front : List Char) :
    segments (front ++ SlashPath.render true rs) =
      segments front ++ rs := by
  by_cases hFront : front = []
  · rw [hFront, nil_append, segments_render (hRs.cleaned true)]
    rfl
  · rw [← hRs.segments_join, join, if_neg hFront, clean, segments_render (cleaned_segments _)]
    rfl

/-
  The elements of a file URL's path. The text is that of the
  marked path, and what follows in the fragment.
-/
theorem segments_fileText
    (hRs : RelPath rs)
    (hBase : base ++ rs = ss)
    (hSs : RelPath ss)
    (hEsc : ∀ seg, Plain seg → Plain (esc seg))
    (front : List Char)
    (u : URL) :
    ∃ text,
      text ≠ [] ∧
      rooted text = rooted (front ++ ['/']) ∧
      segments text =
        segments front ++
          (base.map esc ++ marked esc u.mark rs) ∧
      segments
        (front ++ SlashPath.render true (ss.map esc) ++
          u.tail) = segments (text ++ '/' :: u.below) := by
  have hMarked := hSs.marked hEsc (slash_notMem_mark u)
  refine ⟨front ++ SlashPath.render true (marked esc u.mark ss), by simp [SlashPath.render], ?_,
    ?_, ?_⟩
  · cases front <;> rfl
  · rw [segments_append_render hMarked, ← hBase, marked_append hRs.ne_nil]
  · have hText : SlashPath.render true (ss.map esc) ++ u.mark =
      SlashPath.render true (marked esc u.mark ss) :=
      congrArg (List.cons '/') (intercalate_marked hSs.ne_nil)
    rw [URL.below, ← segments_append_cut (by simp [SlashPath.render]), ← hText, append_assoc,
      append_assoc, append_assoc, URL.mark, takeWhile_append_dropWhile]

------------------------------------------------------------
-- Cloned URLs
------------------------------------------------------------

namespace URLLibrary

theorem appendRelativePathToURL_eq
    (hRs : RelPath rs)
    (hPath : u.path = [] ∨ rooted u.path = true) :
    appendRelativePathToURL u (['/'].intercalate rs) =
      { u with
        path := SlashPath.render true
          (segments u.path ++ rs) } := by
  rw [appendRelativePathToURL, hRs.trimSlash_text, if_neg hRs.text_ne]
  obtain hNil | hRooted := hPath
  · simp only [hNil, if_true, hRs.trimSlash_text]
    rfl
  have hNe : u.path ≠ [] := by
    intro hNil
    rw [hNil] at hRooted
    contradiction
  rw [if_neg hNe, join_intercalate hRs.plain hRs.ne_nil, hRooted]
  rfl

/- The decoded path of a URL after it was rendered and parsed. -/
def reparsed
    (u : URL)
    (rs : List (List Char)) : List Char :=
  if u.opaquePart = [] then SlashPath.render true (segments u.path ++ rs) else []

theorem databaseDest_eq
    (hNet : lib.RoundTrips)
    (hURL : c.url ≠ [])
    (hNames : lib.NamesURL c.url u)
    (hRs : RelPath rs) :
    lib.databaseDest c rs =
      lib.parseReplicaURLWithQuery
        (lib.render
          { u with
            path := SlashPath.render true
              (segments u.path ++ rs) }) := by
  have hPath := hNet.rootedPath _ _ hNames
  have hAll := hRs.append hPath
  have hBack := hNet.parse_render _ _ _ hNames hAll.ne_nil hAll.plain
  rw [databaseDest, cloneReplicaConfigWithRelativePath, if_neg hRs.text_ne, if_pos hURL,
    hNames.parsed]
  simp only [appendRelativePathToURL_eq hRs hPath]
  generalize lib.render { u with path := SlashPath.render true (segments u.path ++ rs) } = text
    at hBack
  have hText : text ≠ [] := by
    rintro rfl
    have hEmpty := hNet.empty _ hBack
    exact hNames.scheme hEmpty
  change lib.destination { c with url := text } = _
  rw [destination, if_pos hText]

theorem databaseDest_url
    (hNet : lib.RoundTrips)
    (hURL : c.url ≠ [])
    (hNames : lib.NamesURL c.url u)
    (hARN : ¬ u.WritesARN)
    (hRs : RelPath rs) :
    lib.databaseDest c rs =
      .ok
        (if u.scheme = "file".toList then
          ⟨u.scheme, [],
            clean
              (lib.render
                { u with
                  scheme := [],
                  path := reparsed u rs,
                  query := [] }), [], none⟩
        else
          ⟨u.scheme, u.host,
            trimSlash (clean (reparsed u rs)), u.query,
            u.user⟩) := by
  have hAll := hRs.append (hNet.rootedPath _ _ hNames)
  rw [databaseDest_eq hNet hURL hNames hRs, parseReplicaURLWithQuery,
    if_neg (mt (hNet.accessPoint _ _ _ hNames hAll.ne_nil hAll.plain).mp hARN)]
  simp only [hNet.parse_render _ _ _ hNames hAll.ne_nil hAll.plain, if_neg hNames.scheme]
  split <;> rfl

theorem destination_url
    (hURL : c.url ≠ [])
    (hNames : lib.NamesURL c.url u) :
    lib.destination c =
      .ok
        (if u.scheme = "file".toList then
          ⟨u.scheme, [],
            clean
              (lib.render
                { u with scheme := [], query := [] }), [],
            none⟩
        else
          ⟨u.scheme, u.host, trimSlash (clean u.path),
            u.query, u.user⟩) := by
  rw [destination, if_pos hURL, parseReplicaURLWithQuery, if_neg hNames.plain]
  simp only [hNames.parsed, if_neg hNames.scheme]
  split <;> rfl

/-
  All destinations begin with the same elements, which those
  of the database follow, and end with the same. Those of a
  file URL are escaped.
-/
theorem segments_databaseDest
    (hNet : lib.RoundTrips)
    (hValid : c.url ≠ [] → ∃ u, lib.NamesURL c.url u)
    (hSeparates :
      ∀ u,
        c.url ≠ [] → lib.parse c.url = .ok u →
        u.Separates) :
    ∃ base esc m rest,
      TellsApart esc m ∧
      ∀ rs,
        RelPath rs →
        ∃ d,
          lib.databaseDest c rs = .ok d ∧
          segments d.path =
            base ++ (marked esc m rs ++ rest) ∧
          ∀ b,
            lib.destination c = .ok b →
            d.host = b.host ∧ d.query = b.query := by
  have hPlainly : TellsApart id [] := ⟨injective_id, fun _ _ _ => rfl⟩
  by_cases hURL : c.url = []
  · refine ⟨segments c.path, id, [], [], hPlainly, fun rs hRs => ?_⟩
    simp only [databaseDest, cloneReplicaConfigWithRelativePath, if_neg hRs.text_ne, hURL, ne_eq,
      not_true, if_false, destination, marked_id, append_nil]
    refine ⟨_, rfl, ?_, fun b hb => ?_⟩
    · by_cases hPath : c.path = []
      · simp only [hPath, if_true, hRs.segments_text]
        rfl
      · rw [if_neg hPath, hRs.segments_join]
    · cases hb
      exact ⟨rfl, rfl⟩
  obtain ⟨u, hNames⟩ := hValid hURL
  obtain ⟨hPlain, hStays, hARN⟩ := hSeparates u hURL hNames.parsed
  have hPath := hNet.rootedPath _ _ hNames
  rw [destination_url hURL hNames]
  by_cases hFile : u.scheme = "file".toList
  · obtain ⟨esc, front, hInj, hEsc, hMarks, hRender⟩ := hNet.escaped
    refine ⟨segments (front u) ++ (segments u.path).map esc, esc, u.mark,
      segments ('.' :: '/' :: u.below), tellsApart_mark u hInj hMarks, fun rs hRs => ?_⟩
    have hAll := hRs.append hPath
    refine ⟨_, databaseDest_url hNet hURL hNames hARN hRs, ?_, ?_⟩
    · obtain ⟨text, hNe, -, hText, hTail⟩ := segments_fileText hRs rfl hAll hEsc (front u) u
      simp only [if_pos hFile, reparsed, if_pos hPlain, clean, segments_render (cleaned_segments _)]
      rw [hRender _ _ _ hNames hPlain hAll.ne_nil hAll.plain, hTail,
        segments_append_below hNe (hStays hFile), hText]
      simp only [append_assoc]
    · rintro b ⟨⟩
      simp [hFile]
  · refine ⟨segments u.path, id, [], [], hPlainly, fun rs hRs => ?_⟩
    have hAll := hRs.append hPath
    refine ⟨_, databaseDest_url hNet hURL hNames hARN hRs, ?_, ?_⟩
    · simp only [hFile, if_false, reparsed, hPlain, if_true, marked_id, append_nil,
        clean_of_cleaned (hAll.cleaned true)]
      exact hAll.segments_text
    · rintro b ⟨⟩
      simp only [if_neg hFile, and_self]

end URLLibrary

------------------------------------------------------------
-- Databases Of A Directory
------------------------------------------------------------

/-
  The databases of a directory have their own destinations,
  none inside of another, at the configured host and with
  the configured parameters, and their own metadata.
-/
def KeptApart
    (lib : URLLibrary)
    (c : ReplicaConfig)
    (basePath : List Char)
    (rs ss : List (List Char)) : Prop :=
  (∃ d e, lib.databaseDest c rs = .ok d ∧ lib.databaseDest c ss = .ok e ∧
    ¬ segments d.path <+: segments e.path ∧ ¬ segments e.path <+: segments d.path ∧
    ∀ b, lib.destination c = .ok b →
      d.host = b.host ∧ d.query = b.query ∧ e.host = b.host ∧ e.query = b.query) ∧
    deriveMetaPathForDirectoryEntry basePath (['/'].intercalate rs) ≠
      deriveMetaPathForDirectoryEntry basePath (['/'].intercalate ss)

/- Two databases whose clones are read alike share their keys. -/
theorem not_keptApart_of_eq
    {basePath}
    (hEq :
      ∀ d e,
        lib.databaseDest c rs = .ok d →
        lib.databaseDest c ss = .ok e →
        segments d.path = segments e.path) :
    ¬ KeptApart lib c basePath rs ss := by
  rintro ⟨⟨d, e, hd, he, hNot, -⟩, -⟩
  exact hNot (hEq d e hd he ▸ prefix_rfl)

theorem relPath_single
    (ch : Char)
    (hSlash : ch ≠ '/')
    (hDot : ch ≠ '.') :
    RelPath [[ch]] :=
  ⟨by simp, by simpa using ⟨by simp [hSlash.symm], by simp, by simp [hDot], by simp⟩⟩

theorem relPath_a : RelPath [['a']] :=
  relPath_single 'a' (by decide) (by decide)

theorem relPath_b : RelPath [['b']] :=
  relPath_single 'b' (by decide) (by decide)

theorem separates_of_keptApart
    {basePath}
    (hNet : lib.RoundTrips)
    (hURL : c.url ≠ [])
    (hNames : lib.NamesURL c.url u)
    (hKept : KeptApart lib c basePath [['a']] [['b']]) :
    u.Separates := by
  have hUser : ¬ u.WritesARN := by
    intro hARN
    obtain ⟨⟨d, e, hd, -, -, -, hHost⟩, -⟩ := hKept
    have hAll := relPath_a.append (hNet.rootedPath _ _ hNames)
    rw [URLLibrary.databaseDest_eq hNet hURL hNames relPath_a,
      URLLibrary.parseReplicaURLWithQuery,
      if_pos ((hNet.accessPoint _ _ _ hNames hAll.ne_nil hAll.plain).mpr hARN)] at hd
    have hSlash := URLLibrary.slash_mem_parseS3AccessPointURL hd
    have hNotFile : u.scheme ≠ "file".toList := by
      rw [hARN.1]
      decide
    have hBase := (hHost _ (URLLibrary.destination_url hURL hNames)).1
    rw [if_neg hNotFile] at hBase
    rw [hBase] at hSlash
    exact hNet.host _ _ hNames hSlash
  have hDest := @URLLibrary.databaseDest_url [['a']] lib u c hNet hURL hNames hUser relPath_a
  have hDest' := @URLLibrary.databaseDest_url [['b']] lib u c hNet hURL hNames hUser relPath_b
  refine ⟨?_, ?_, hUser⟩
  · by_contra hOpaque
    -- both are rendered without their path
    simp only [URLLibrary.reparsed, if_neg hOpaque] at hDest hDest'
    refine not_keptApart_of_eq (fun d e hd he => ?_) hKept
    rw [Except.ok.inj (hd.symm.trans (hDest.trans (hDest'.symm.trans he)))]
  · intro hFile hClimbs
    refine not_keptApart_of_eq (fun d e hd he => ?_) hKept
    by_cases hOpaque : u.opaquePart = []
    · cases hd.symm.trans hDest
      cases he.symm.trans hDest'
      obtain ⟨esc, front, -, hEsc, -, hRender⟩ := hNet.escaped
      have hAll := relPath_a.append (hNet.rootedPath _ _ hNames)
      have hAll' := relPath_b.append (hNet.rootedPath _ _ hNames)
      obtain ⟨text, hNe, hRooted, hText, hTail⟩ :=
        segments_fileText relPath_a rfl hAll hEsc (front u) u
      obtain ⟨text', hNe', hRooted', hText', hTail'⟩ :=
        segments_fileText relPath_b rfl hAll' hEsc (front u) u
      have hPlain : ∀ seg, Plain seg → esc seg ++ u.mark ≠ ['.', '.'] := by
        intro seg hSeg
        exact ((hEsc seg hSeg).append (slash_notMem_mark u)).ne_dots
      simp only [if_pos hFile, URLLibrary.reparsed, if_pos hOpaque, clean,
        segments_render (cleaned_segments _)]
      rw [hRender _ _ _ hNames hOpaque hAll.ne_nil hAll.plain,
        hRender _ _ _ hNames hOpaque hAll'.ne_nil hAll'.plain, hTail, hTail']
      rw [← append_assoc] at hText hText'
      exact segments_append_climb hNe hNe' (hRooted.trans hRooted'.symm)
        (hPlain _ (relPath_a.plain _ mem_cons_self)) (hPlain _ (relPath_b.plain _ mem_cons_self))
        hText hText' hClimbs
    · simp only [URLLibrary.reparsed, if_neg hOpaque] at hDest hDest'
      rw [Except.ok.inj (hd.symm.trans (hDest.trans (hDest'.symm.trans he)))]

theorem directory_databases_apart
    (lib : URLLibrary)
    (c : ReplicaConfig)
    (basePath : List Char)
    (hNet : lib.RoundTrips)
    (hValid : c.url ≠ [] → ∃ u, lib.NamesURL c.url u) :
    (∀ rs ss,
      RelPath rs → RelPath ss → ¬ rs <+: ss → ¬ ss <+: rs →
      KeptApart lib c basePath rs ss) ↔
    ∀ u,
      c.url ≠ [] → lib.parse c.url = .ok u →
      u.Separates := by
  constructor
  · intro hKept u hURL hParse
    obtain ⟨u', hNames⟩ := hValid hURL
    cases hParse.symm.trans hNames.parsed
    exact separates_of_keptApart hNet hURL hNames
      (hKept _ _ relPath_a relPath_b (by decide) (by decide))
  · intro hSeparates rs ss hRs hSs hApart hApart'
    obtain ⟨base, esc, m, rest, hTells, hDest⟩ :=
      URLLibrary.segments_databaseDest hNet hValid hSeparates
    obtain ⟨d, hd, hPath, hHost⟩ := hDest rs hRs
    obtain ⟨e, he, hPath', hHost'⟩ := hDest ss hSs
    refine ⟨⟨d, e, hd, he, ?_, ?_, fun b hb => ?_⟩, ?_⟩
    · rw [hPath, hPath', prefix_append_right_inj]
      exact fun hPrefix => (hTells.prefix_or hPrefix).elim hApart hApart'
    · rw [hPath, hPath', prefix_append_right_inj]
      exact fun hPrefix => (hTells.prefix_or hPrefix).elim hApart' hApart
    · exact ⟨(hHost b hb).1, (hHost b hb).2, (hHost' b hb).1, (hHost' b hb).2⟩
    · exact deriveMetaPath_ne hRs hSs fun hEq => hApart (hEq ▸ prefix_rfl)

/- As `net/url` escapes the characters that would end a path. -/
def escapeChar (ch : Char) : List Char :=
  if ch = '%' then "%25".toList
  else if ch = '#' then "%23".toList
  else if ch = '?' then "%3F".toList
  else [ch]

def unescapePath : List Char → List Char
| '%' :: '2' :: '5' :: s => '%' :: unescapePath s
| '%' :: '2' :: '3' :: s => '#' :: unescapePath s
| '%' :: '3' :: 'F' :: s => '?' :: unescapePath s
| ch :: s => ch :: unescapePath s
| [] => []

/- File URLs without an authority. -/
def fileURLs : URLLibrary where
  parse
  | 'f' :: 'i' :: 'l' :: 'e' :: ':' :: rest =>
    let front := rest.takeWhile (· ≠ '#')
    let fragment := (rest.dropWhile (· ≠ '#')).drop 1
    if rooted front then .ok ⟨"file".toList, [], none, [], unescapePath front, false, [], fragment⟩
    else .ok ⟨"file".toList, front, none, [], [], false, [], fragment⟩
  | _ => .error (.text "parse")
  render u := (if u.scheme = [] then [] else "file:".toList) ++
    ((if u.opaquePart = [] then u.path.flatMap escapeChar else u.opaquePart) ++
      if u.fragment = [] then [] else '#' :: u.fragment)
  parseQuery _ := .ok []
  pathEscape s := s.flatMap escapeChar
  queryEscape s := s

theorem unescape_escape
    (s : List Char) :
    unescapePath (s.flatMap escapeChar) = s := by
  induction s with
  | nil => rfl
  | cons ch s ih =>
    rw [flatMap_cons, escapeChar]
    split_ifs with hPercent hHash hMark
    · simp [unescapePath, ih, hPercent]
    · simp [unescapePath, ih, hHash]
    · simp [unescapePath, ih, hMark]
    · rw [singleton_append, unescapePath, ih]
      all_goals simp_all

theorem of_mem_escape
    {ch : Char}
    {s : List Char}
    (hDigit : ch ∉ "%235F".toList)
    (hMem : ch ∈ s.flatMap escapeChar) :
    ch ∈ s ∧ ch ≠ '#' ∧ ch ≠ '?' := by
  obtain ⟨a, ha, hMem⟩ := mem_flatMap.mp hMem
  unfold escapeChar at hMem
  split_ifs at hMem
  all_goals simp_all

theorem escape_intercalate
    (segs : List (List Char)) :
    (['/'].intercalate segs).flatMap escapeChar =
      ['/'].intercalate (segs.map (·.flatMap escapeChar)) :=
      by
  induction segs with
  | nil => rfl
  | cons seg rest ih =>
    cases rest with
    | nil => simp
    | cons next rest =>
      rw [map_cons] at ih
      rw [map_cons, map_cons, intercalate_cons_cons, intercalate_cons_cons, flatMap_append,
        flatMap_append, ih]
      rfl

theorem escape_render
    (segs : List (List Char)) :
    (SlashPath.render true segs).flatMap escapeChar =
      SlashPath.render true
        (segs.map (·.flatMap escapeChar)) :=
  congrArg (List.cons '/') (escape_intercalate segs)

theorem fileURLs_parse
    {front}
    (hFront : '#' ∉ front)
    (fragment : List Char) :
    fileURLs.parse
      ("file:".toList ++
        (front ++
          if fragment = [] then [] else '#' :: fragment)) =
      if rooted front then
        .ok
          ⟨"file".toList, [], none, [], unescapePath front,
            false, [], fragment⟩
      else
        .ok
          ⟨"file".toList, front, none, [], [], false, [],
            fragment⟩ := by
  have hKeep : ∀ ch ∈ front, decide (ch ≠ '#') = true := by
    intro ch hMem
    exact decide_eq_true fun hEq => hFront (hEq ▸ hMem)
  have hTake : (front ++ if fragment = [] then [] else '#' :: fragment).takeWhile (· ≠ '#') =
      front := by
    rw [takeWhile_append_of_pos hKeep]
    split <;> simp
  have hDrop : ((front ++ if fragment = [] then [] else '#' :: fragment).dropWhile
      (· ≠ '#')).drop 1 = fragment := by
    rw [dropWhile_append_of_pos hKeep]
    split <;> simp_all
  simp only [fileURLs, String.reduceToList, cons_append, nil_append, hTake, hDrop]

theorem fileURLs_names
    {s u}
    (hNames : fileURLs.NamesURL s u) :
    u.scheme = "file".toList ∧
    u.host = [] ∧
    u.forceQuery = false ∧
    u.query = [] ∧
    (u.path = [] ∨ rooted u.path = true) ∧
    '#' ∉ u.opaquePart ∧
    rooted u.opaquePart = false ∧
    u.user = none := by
  have hParse := hNames.parsed
  simp only [fileURLs] at hParse
  split at hParse
  · next rest =>
    have hHash : '#' ∉ rest.takeWhile (· ≠ '#') := by
      intro hMem
      have hAll := all_eq_true.mp (@all_takeWhile _ (· ≠ '#') rest) _ hMem
      simp at hAll
    split at hParse
    · next hRooted =>
      cases hParse
      obtain ⟨text, hText⟩ : ∃ text, rest.takeWhile (· ≠ '#') = '/' :: text := by
        simpa [rooted, head?_eq_some_iff] using hRooted
      refine ⟨rfl, rfl, rfl, rfl, Or.inr ?_, not_mem_nil, rfl, rfl⟩
      dsimp only
      rw [hText]
      rfl
    · next hRooted =>
      cases hParse
      exact ⟨rfl, rfl, rfl, rfl, Or.inl rfl, hHash, by simpa using hRooted, rfl⟩
  · contradiction

theorem plain_escape
    {seg}
    (hSeg : Plain seg) :
    Plain (seg.flatMap escapeChar) where
  noSlash := fun hMem => hSeg.noSlash (of_mem_escape (by decide) hMem).1
  ne_nil := fun hEq => hSeg.ne_nil (by rw [← unescape_escape seg, hEq]; rfl)
  ne_dot := fun hEq => hSeg.ne_dot (by rw [← unescape_escape seg, hEq]; rfl)
  ne_dots := fun hEq => hSeg.ne_dots (by rw [← unescape_escape seg, hEq]; rfl)

theorem fileURLs_roundTrips : fileURLs.RoundTrips where
  rootedPath s u hNames := (fileURLs_names hNames).2.2.2.2.1
  host s u hNames := by simp [(fileURLs_names hNames).2.1]
  parse_render s u segs hNames hNe hPlain := by
    obtain ⟨hScheme, hHost, hForce, hQuery, -, hHash, hRooted, hUser⟩ := fileURLs_names hNames
    obtain ⟨scheme, opaquePart, user, host, path, force, query, fragment⟩ := u
    dsimp only at hScheme hHost hForce hQuery hUser hHash hRooted
    subst hScheme hHost hForce hQuery hUser
    by_cases hOpaque : opaquePart = []
    · subst hOpaque
      refine (fileURLs_parse (fun hMem => (of_mem_escape (by decide) hMem).2.1 rfl)
        fragment).trans ?_
      rw [unescape_escape, escape_render]
      rfl
    · have hBack := fileURLs_parse hHash fragment
      simp only [hRooted, Bool.false_eq_true, if_false] at hBack
      simpa [fileURLs, hOpaque] using hBack
  escaped := by
    refine ⟨(·.flatMap escapeChar), fun _ => [], fun a b hEq => ?_, fun _ => plain_escape, ?_, ?_⟩
    · rw [← unescape_escape a, ← unescape_escape b]
      exact congrArg unescapePath hEq
    · exact fun seg => ⟨fun hMem => (of_mem_escape (by decide) hMem).2.2 rfl,
        fun hMem => (of_mem_escape (by decide) hMem).2.1 rfl⟩
    · intro s u segs hNames hOpaque hNe hPlain
      simp [fileURLs, hOpaque, escape_render, URL.tail, (fileURLs_names hNames).2.2.1]
  accessPoint s u segs hNames hNe hPlain := by
    have hScheme := (fileURLs_names hNames).1
    refine iff_of_false ?_ (by simp [URL.WritesARN, hScheme])
    simp [IsAccessPoint, fileURLs, hScheme]
  empty u hParse := by cases hParse

theorem directory_databases_apart_ab :
    KeptApart fileURLs ⟨"file:/r#x/y/../z".toList, []⟩ []
      [['a']] [['b', '#']] :=
  (directory_databases_apart _ _ _ fileURLs_roundTrips
    (fun _ => ⟨_, rfl, by decide, by decide⟩)).mpr
    (by rintro u - ⟨⟩; exact ⟨rfl, fun _ => by decide, fun hARN => by simp [URL.WritesARN] at hARN⟩)
    _ _ relPath_a ⟨by simp, by simpa using ⟨by simp, by simp, by simp, by simp⟩⟩
    (by decide) (by decide)

/- An opaque URL, and one whose fragment leads out of the database's path. -/
theorem opaque_url_shared :
    fileURLs.databaseDest ⟨"file:r".toList, []⟩ [['a']] =
      fileURLs.databaseDest ⟨"file:r".toList, []⟩ [['b']] ∧
    fileURLs.databaseDest ⟨"file:/r#/..".toList, []⟩
      [['a']] =
      fileURLs.databaseDest ⟨"file:/r#/..".toList, []⟩
        [['b']] := by
  decide

end Replicate
