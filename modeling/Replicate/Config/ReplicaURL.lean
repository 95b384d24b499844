import Replicate.LTX.FileInfo
import Replicate.Lib.SlashPath

/-
  Replica URLs, and the one that the SDK builds for a key
  prefix.

  The SDK escapes the prefix, so that no character of it can
  end the path or add a parameter. The reader of the URL
  then cleans the decoded path. Two prefixes that are one
  path after cleaning, such as `a` and `a/`, get the same
  keys. A bucket that begins like an access point is not
  read by `url.Parse` at all, and the key is lost.

  Main declarations:
    * `URLLibrary.parseReplicaURLWithQuery`
    * `URLLibrary.replicaURL`
    * `key_prefixes_apart`
    * `trailing_slash_shares_keys`
-/

open SlashPath

namespace Replicate

open List

------------------------------------------------------------
-- Reading A Replica URL
------------------------------------------------------------

/-
  A `url.URL`. The path is decoded and the query holds the
  decoded parameters in their order. The userinfo and the
  fragment are the texts that `String` writes for them.
-/
structure URL where
  scheme : List Char
  opaquePart : List Char
  user : Option (List Char)
  host : List Char
  path : List Char
  forceQuery : Bool
  query : List (List Char × List Char)
  fragment : List Char
  deriving DecidableEq

/- The functions of `net/url`. `render` is `URL.String`. -/
structure URLLibrary where
  parse : List Char → Except Err URL
  render : URL → List Char
  parseQuery :
    List Char → Except Err (List (List Char × List Char))
  pathEscape : List Char → List Char
  queryEscape : List Char → List Char

/- What a replica URL names. -/
structure ReplicaDest where
  scheme : List Char
  host : List Char
  path : List Char
  query : List (List Char × List Char)
  user : Option (List Char)
  deriving DecidableEq

/- `strings.TrimPrefix(p, "/")` -/
def trimSlash : List Char → List Char
| '/' :: p => p
| p => p

/- The key of a URL: no `/` in front, no `.` alone. -/
def cleanReplicaURLPath (p : List Char) : List Char :=
  if p = [] then []
  else
    let cleaned := trimSlash (clean ('/' :: p))
    if cleaned = ['.'] then [] else cleaned

/-
  The text up to the first occurrence of the marker, which
  is included, and the rest.
-/
def cutAfter
    (marker : List Char) :
    List Char → Option (List Char × List Char)
| [] => none
| c :: cs =>
  if marker <+: (c :: cs).map Char.toLower then
    some ((c :: cs).take marker.length,
      (c :: cs).drop marker.length)
  else (cutAfter marker cs).map fun r => (c :: r.1, r.2)

/-
  The bucket is the ARN up to the name of the access point,
  and the key is what follows the next slash.
-/
def splitS3AccessPointARN
    (s : List Char) : Except Err (List Char × List Char) :=
  match cutAfter ":accesspoint/".toList s with
  | none =>
    .error (.text
      ("invalid s3 access point arn: " ++ String.ofList s))
  | some (front, remainder) =>
    if remainder = [] then
      .error (.text
        ("invalid s3 access point arn: " ++ String.ofList s))
    else if '/' ∉ remainder then .ok (s, [])
    else
      .ok (front ++ remainder.takeWhile (· ≠ '/'),
        (remainder.dropWhile (· ≠ '/')).drop 1)

/- The text is an access point, not one for `url.Parse`. -/
def IsAccessPoint (s : List Char) : Prop :=
  "s3://arn:".toList <+: s.map Char.toLower

instance (s : List Char) : Decidable (IsAccessPoint s) :=
  inferInstanceAs (Decidable (_ <+: _))

namespace URLLibrary

/- An access point is read by hand, with its query. -/
def parseS3AccessPointURL
    (lib : URLLibrary)
    (s : List Char) : Except Err ReplicaDest :=
  let arnWithPath := (s.drop 5).takeWhile (· ≠ '?')
  let queryStr := ((s.drop 5).dropWhile (· ≠ '?')).drop 1
  match splitS3AccessPointARN arnWithPath with
  | .error err => .error err
  | .ok (bucket, key) =>
    (if queryStr = [] then .ok []
      else (lib.parseQuery queryStr).mapError
        (Err.wrap "parse query string")).map fun query =>
          ⟨"s3".toList, bucket, cleanReplicaURLPath key,
            query, none⟩

/-
  What a replica URL names. A `file` URL is rendered again
  and becomes a path.
-/
def parseReplicaURLWithQuery
    (lib : URLLibrary)
    (s : List Char) : Except Err ReplicaDest :=
  if IsAccessPoint s then lib.parseS3AccessPointURL s
  else
    match lib.parse s with
    | .error err => .error err
    | .ok u =>
      if u.scheme = "file".toList then
        -- the fragment, and a question mark that is
        -- forced, stay in the text
        .ok ⟨u.scheme, [],
          clean (lib.render
            { u with scheme := [], query := [] }), [], none⟩
      else if u.scheme = [] then
        .error (.text
          ("replica url scheme required: " ++
            String.ofList s))
      else
        .ok ⟨u.scheme, u.host, trimSlash (clean u.path),
          u.query, u.user⟩

------------------------------------------------------------
-- The URL Of A Key Prefix
------------------------------------------------------------

end URLLibrary

/- The `REPLICATE_S3_*` variables. An unset one is empty. -/
structure S3Env where
  endpoint : List Char
  bucket : List Char
  region : List Char
  path : List Char

/- The value of a variable, or its default. -/
def envOr (value fallback : List Char) : List Char :=
  if value = [] then fallback else value

namespace S3Env

def bucketName (env : S3Env) : List Char :=
  envOr env.bucket "replicate".toList

def regionName (env : S3Env) : List Char :=
  envOr env.region "us-central1".toList

/- The parameters that the SDK adds to its URL. -/
def query (env : S3Env) : List (List Char × List Char) :=
  [("endpoint".toList, env.endpoint),
    ("region".toList, env.regionName),
    ("force-path-style".toList, "true".toList)]

/- The configured destination, with some key path. -/
def dest
    (env : S3Env)
    (path : List Char) : ReplicaDest :=
  ⟨"s3".toList, env.bucketName, path, env.query, none⟩

end S3Env

namespace URLLibrary

/-
  The SDK's URL of a key, or nothing where no endpoint is
  set. An empty key stands for the configured path.
-/
def replicaURL
    (lib : URLLibrary)
    (env : S3Env)
    (key : List Char) : List Char :=
  if env.endpoint = [] then []
  else
    "s3://".toList ++ (lib.pathEscape env.bucketName ++
      '/' :: (lib.pathEscape
        (if key = [] then env.path else key) ++ '?' ::
        ("endpoint=".toList ++
          lib.queryEscape env.endpoint ++
          "&region=".toList ++
          lib.queryEscape env.regionName ++
          "&force-path-style=true".toList)))

/- Escaped text ends neither a path element nor a path. -/
def EscapesPath (lib : URLLibrary) : Prop :=
  ∀ s, '/' ∉ lib.pathEscape s ∧ '?' ∉ lib.pathEscape s

/- `Parse` and `Query` invert the SDK's escaping. -/
def InvertsS3
    (lib : URLLibrary)
    (env : S3Env)
    (key : List Char) : Prop :=
  ¬ IsAccessPoint (lib.replicaURL env key) →
    lib.parse (lib.replicaURL env key) =
      .ok ⟨"s3".toList, [], none, env.bucketName,
        '/' :: key, false, env.query, []⟩

variable {lib : URLLibrary} {env : S3Env} {key : List Char}

/- A cleaned path determines its elements. -/
theorem intercalate_segments_inj
    {p q}
    (hEq : ['/'].intercalate (segments ('/' :: p)) =
      ['/'].intercalate (segments ('/' :: q))) :
    segments ('/' :: p) = segments ('/' :: q) := by
  have hRender :
      SlashPath.render true (segments ('/' :: p)) =
        SlashPath.render true (segments ('/' :: q)) :=
    congrArg (List.cons '/') hEq
  rw [← segments_render (cleaned_segments ('/' :: p)),
    ← segments_render (cleaned_segments ('/' :: q))]
  exact congrArg segments hRender

/- The key that is read is the cleaned one. -/
theorem parse_replicaURL
    (hInverts : lib.InvertsS3 env key)
    (hPlain : ¬ IsAccessPoint (lib.replicaURL env key)) :
    lib.parseReplicaURLWithQuery (lib.replicaURL env key) =
      .ok (env.dest
        (['/'].intercalate (segments ('/' :: key)))) := by
  rw [parseReplicaURLWithQuery, if_neg hPlain,
    hInverts hPlain]
  rfl

------------------------------------------------------------
-- Access Points
------------------------------------------------------------

/- The marker ends the text that is cut off. -/
theorem cutAfter_eq
    {marker s front rest}
    (hCut : cutAfter marker s = some (front, rest)) :
    s = front ++ rest ∧
      marker <:+ front.map Char.toLower := by
  induction s generalizing front with
  | nil => contradiction
  | cons c cs ih =>
    rw [cutAfter] at hCut
    split at hCut
    · next hPrefix =>
      cases hCut
      refine ⟨(take_append_drop _ _).symm, ?_⟩
      rw [map_take]
      exact ⟨[], prefix_iff_eq_take.mp hPrefix⟩
    obtain ⟨⟨front', rest'⟩, hCut', hEq⟩ :=
      Option.map_eq_some_iff.mp hCut
    cases hEq
    obtain ⟨hText, hMarker⟩ := ih hCut'
    refine ⟨congrArg (List.cons c) hText, ?_⟩
    exact hMarker.trans (suffix_cons _ _)

theorem toLower_eq_slash
    {c : Char}
    (hLower : c.toLower = '/') :
    c = '/' := by
  unfold Char.toLower at hLower
  split at hLower
  · next hUpper =>
    have hVal :=
      congrArg (fun c : Char => c.val.toNat) hLower
    simp [UInt32.le_iff_toNat_le] at hVal hUpper
    omega
  · exact hLower

/- The marker of an access point has a slash. -/
theorem slash_mem_cutAfter
    {s front rest}
    (hCut : cutAfter ":accesspoint/".toList s =
      some (front, rest)) :
    '/' ∈ front := by
  have hMem : '/' ∈ front.map Char.toLower :=
    (cutAfter_eq hCut).2.subset (by decide)
  obtain ⟨c, hc, hLower⟩ := mem_map.mp hMem
  rwa [toLower_eq_slash hLower] at hc

/-
  The only slash stands before the key, so the key is taken
  for a part of the bucket's name.
-/
theorem splitS3AccessPointARN_key
    {a b bucket k}
    (ha : '/' ∉ a)
    (hb : '/' ∉ b)
    (hSplit : splitS3AccessPointARN (a ++ '/' :: b) =
      .ok (bucket, k)) :
    k = [] := by
  unfold splitS3AccessPointARN at hSplit
  split at hSplit
  · contradiction
  next front remainder hCut =>
  have hText := (cutAfter_eq hCut).1
  have hSlash := slash_mem_cutAfter hCut
  have hRest : '/' ∉ remainder := by
    intro hMem
    have hCount := congrArg (List.count '/') hText
    rw [count_append, count_append, count_cons_self,
      count_eq_zero.mpr ha, count_eq_zero.mpr hb] at hCount
    have hFront := count_pos_iff.mpr hSlash
    have hBack := count_pos_iff.mpr hMem
    omega
  split at hSplit
  · contradiction
  · cases hSplit
    rfl

/- The bucket of an access point can be no host. -/
theorem slash_mem_parseS3AccessPointURL
    {s d}
    (hParse : lib.parseS3AccessPointURL s = .ok d) :
    '/' ∈ d.host := by
  simp only [parseS3AccessPointURL] at hParse
  split at hParse
  · contradiction
  next bucket key hSplit =>
  have hBucket : '/' ∈ bucket := by
    unfold splitS3AccessPointARN at hSplit
    split at hSplit
    · contradiction
    next front remainder hCut =>
    have hFront := slash_mem_cutAfter hCut
    split_ifs at hSplit
    · cases hSplit
      exact mem_append_left _ hFront
    · cases hSplit
      rw [(cutAfter_eq hCut).1]
      exact mem_append_left _ hFront
  unfold Except.map at hParse
  split at hParse
  · contradiction
  · cases hParse
    exact hBucket

/- Read as an access point, the URL loses its key. -/
theorem parse_accessPoint
    {d}
    (hEndpoint : env.endpoint ≠ [])
    (hEscapes : lib.EscapesPath)
    (hARN : IsAccessPoint (lib.replicaURL env key))
    (hParse : lib.parseReplicaURLWithQuery
      (lib.replicaURL env key) = .ok d) :
    d.path = [] := by
  rw [parseReplicaURLWithQuery, if_pos hARN, replicaURL,
    if_neg hEndpoint, parseS3AccessPointURL] at hParse
  generalize
    (if key = [] then env.path else key) = key' at hParse
  obtain ⟨hSlash, hMark⟩ := hEscapes env.bucketName
  obtain ⟨hSlash', hMark'⟩ := hEscapes key'
  have hKeep :
      ∀ text : List Char, '?' ∉ text →
        ∀ c ∈ text, decide (c ≠ '?') = true := by
    rintro text hText c hc
    exact decide_eq_true fun hEq => hText (hEq ▸ hc)
  have hCut :
      ∀ rest : List Char,
        (("s3://".toList ++ (lib.pathEscape env.bucketName ++
          '/' :: (lib.pathEscape key' ++ '?' :: rest))).drop
            5).takeWhile (· ≠ '?') =
        lib.pathEscape env.bucketName ++
          '/' :: lib.pathEscape key' := by
    intro rest
    rw [drop_left' (by decide),
      takeWhile_append_of_pos (hKeep _ hMark),
      takeWhile_cons_of_pos (by decide),
      takeWhile_append_of_pos (hKeep _ hMark'),
      takeWhile_cons_of_neg (by decide), append_nil]
  simp only [hCut] at hParse
  split at hParse
  · contradiction
  next bucket k hSplit =>
  rw [splitS3AccessPointARN_key hSlash hSlash' hSplit]
    at hParse
  unfold Except.map at hParse
  split at hParse
  · contradiction
  · cases hParse
    rfl

/- The bucket's name alone decides how the URL is read. -/
theorem isAccessPoint_iff
    (hEndpoint : env.endpoint ≠ []) :
    IsAccessPoint (lib.replicaURL env key) ↔
      "arn:".toList <+:
        (lib.pathEscape env.bucketName).map
          Char.toLower := by
  have hScheme :
      "s3://arn:".toList =
        "s3://".toList.map Char.toLower ++ "arn:".toList := by
    decide
  rw [IsAccessPoint, replicaURL, if_neg hEndpoint,
    map_append, hScheme, prefix_append_right_inj,
    map_append, map_cons]
  constructor
  · intro hPrefix
    by_contra hNot
    have hLong :
        (lib.pathEscape env.bucketName).map Char.toLower ++
          [Char.toLower '/'] <+: "arn:".toList := by
      apply prefix_of_prefix_length_le _ hPrefix _
      · exact (prefix_append_right_inj _).mpr ⟨_, rfl⟩
      · rw [length_append]
        by_contra hLe
        exact hNot (prefix_of_prefix_length_le hPrefix
          (prefix_append _ _) (by simp at hLe ⊢; omega))
    exact absurd (hLong.subset
      (mem_append_right _ mem_cons_self)) (by decide)
  · exact fun hPrefix => hPrefix.trans (prefix_append _ _)

end URLLibrary

------------------------------------------------------------
-- Key Prefixes
------------------------------------------------------------

open URLLibrary

/-
  Two keys get different paths exactly if the bucket is no
  access point and the keys differ after cleaning.
-/
theorem key_prefixes_apart
    (lib : URLLibrary)
    (env : S3Env)
    (p q : List Char)
    (hEndpoint : env.endpoint ≠ [])
    (hEscapes : lib.EscapesPath)
    (hp : lib.InvertsS3 env p)
    (hq : lib.InvertsS3 env q) :
    (∃ a b,
      lib.parseReplicaURLWithQuery (lib.replicaURL env p) =
        .ok (env.dest a) ∧
      lib.parseReplicaURLWithQuery (lib.replicaURL env q) =
        .ok (env.dest b) ∧
      a ≠ b) ↔
    ¬ "arn:".toList <+:
        (lib.pathEscape env.bucketName).map Char.toLower ∧
      segments ('/' :: p) ≠ segments ('/' :: q) := by
  by_cases hARN :
      "arn:".toList <+:
        (lib.pathEscape env.bucketName).map Char.toLower
  · refine iff_of_false ?_ (fun hCond => hCond.1 hARN)
    rintro ⟨a, b, ha, hb, hNe⟩
    have hEmpty : a = [] :=
      parse_accessPoint hEndpoint hEscapes
        ((isAccessPoint_iff hEndpoint).mpr hARN) ha
    have hEmpty' : b = [] :=
      parse_accessPoint hEndpoint hEscapes
        ((isAccessPoint_iff hEndpoint).mpr hARN) hb
    exact hNe (hEmpty.trans hEmpty'.symm)
  · have hReadP := parse_replicaURL hp
      (mt (isAccessPoint_iff hEndpoint).mp hARN)
    have hReadQ := parse_replicaURL hq
      (mt (isAccessPoint_iff hEndpoint).mp hARN)
    constructor
    · rintro ⟨a, b, ha, hb, hNe⟩
      refine ⟨hARN, fun hSame => hNe ?_⟩
      rw [hReadP, hSame, ← hReadQ, hb] at ha
      exact congrArg ReplicaDest.path (Except.ok.inj ha).symm
    · intro hCond
      exact ⟨_, _, hReadP, hReadQ,
        mt intercalate_segments_inj hCond.2⟩

def sampleS3Env : S3Env := ⟨"h".toList, "b".toList, [], []⟩

/- Enough of `net/url` for the keys below. -/
def sampleURLs : URLLibrary where
  parse s :=
    let key := (s.drop 7).takeWhile (· ≠ '?')
    .ok ⟨"s3".toList, [], none, "b".toList,
      '/' :: if key = "a%2F".toList then "a/".toList
        else key, false, sampleS3Env.query, []⟩
  render u := u.path
  parseQuery _ := .ok []
  pathEscape s := s.flatMap fun c =>
    if c = '/' then "%2F".toList
    else if c = '?' then "%3F".toList else [c]
  queryEscape s := s

/- A slash and a question mark are both escaped. -/
theorem sampleURLs_escapesPath :
    sampleURLs.EscapesPath := by
  intro s
  simp only [sampleURLs, mem_flatMap, not_exists, not_and]
  constructor <;> intro c _ <;> split_ifs <;>
    simp_all [eq_comm]

theorem key_prefixes_apart_ab :
    ∃ a b,
      sampleURLs.parseReplicaURLWithQuery
        (sampleURLs.replicaURL sampleS3Env "a".toList) =
        .ok (sampleS3Env.dest a) ∧
      sampleURLs.parseReplicaURLWithQuery
        (sampleURLs.replicaURL sampleS3Env "b".toList) =
        .ok (sampleS3Env.dest b) ∧
      a ≠ b :=
  (key_prefixes_apart sampleURLs _ _ _ (by decide)
    sampleURLs_escapesPath (fun _ => by decide)
    (fun _ => by decide)).mpr (by decide)

/- The second key has a slash at its end. -/
theorem trailing_slash_shares_keys :
    ∃ d,
      sampleURLs.InvertsS3 sampleS3Env "a".toList ∧
      sampleURLs.InvertsS3 sampleS3Env "a/".toList ∧
      sampleURLs.parseReplicaURLWithQuery
        (sampleURLs.replicaURL sampleS3Env "a".toList) =
        .ok d ∧
      sampleURLs.parseReplicaURLWithQuery
        (sampleURLs.replicaURL sampleS3Env "a/".toList) =
        .ok d :=
  ⟨sampleS3Env.dest "a".toList, fun _ => by decide,
    fun _ => by decide, by decide, by decide⟩

end Replicate
