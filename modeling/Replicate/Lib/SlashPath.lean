import Mathlib.Data.List.Basic
import Mathlib.Tactic.Common

/-
  Slash-separated paths, cleaned and joined as Go's package
  `path` does it.

  Cleaning reads the elements one by one onto a stack. Empty
  elements and dots are dropped, two dots take the last
  element off, and stay where there is none and the path
  does not begin at the root. The top of the stack is its
  first element.

  Main declarations:
    * `SlashPath.clean`
    * `SlashPath.join`
    * `SlashPath.segments_render`
    * `SlashPath.join_intercalate`
    * `SlashPath.splitOn_render`
-/

namespace SlashPath

open List

-- Cleaning

/- An element that cleaning keeps. -/
structure Plain (seg : List Char) : Prop where
  noSlash : '/' ∉ seg
  ne_nil : seg ≠ []
  ne_dot : seg ≠ ['.']
  ne_dots : seg ≠ ['.', '.']

def push (rooted : Bool) (stack : List (List Char)) (seg : List Char) : List (List Char) :=
  if seg = [] ∨ seg = ['.'] then stack
  else if seg = ['.', '.'] then
    match stack with
    | [] => if rooted then [] else [seg]
    | top :: rest => if top = ['.', '.'] then seg :: top :: rest else rest
  else seg :: stack

def rooted (p : List Char) : Bool := p.head? == some '/'

def stack (p : List Char) : List (List Char) :=
  (p.splitOn '/').foldl (push (rooted p)) []

/- The elements of the cleaned path. -/
def segments (p : List Char) : List (List Char) :=
  (stack p).reverse

def render (rooted : Bool) (segs : List (List Char)) : List Char :=
  if rooted then '/' :: ['/'].intercalate segs
  else if segs = [] then ['.'] else ['/'].intercalate segs

/- `path.Clean` -/
def clean (p : List Char) : List Char :=
  render (rooted p) (segments p)

/- `path.Join` of two elements. -/
def join (a b : List Char) : List Char :=
  if a = [] then (if b = [] then [] else clean b) else clean (a ++ '/' :: b)

-- Cleaned Stacks

variable {r : Bool} {p seg : List Char} {st segs rs : List (List Char)}

/- Dots are left at the bottom only, and below the root not at all. -/
def Cleaned (r : Bool) : List (List Char) → Prop
| [] => True
| seg :: rest => (Plain seg ∨ seg = ['.', '.'] ∧ r = false ∧ ∀ s ∈ rest, s = ['.', '.']) ∧
  Cleaned r rest

theorem Plain.append {t} (hSeg : Plain seg) (ht : '/' ∉ t) : Plain (seg ++ t) := by
  refine ⟨by simp [hSeg.noSlash, ht], by simp [hSeg.ne_nil], ?_, ?_⟩
  · intro hEq
    rcases append_eq_singleton_iff.mp hEq with ⟨hNil, -⟩ | ⟨hDot, -⟩
    · exact hSeg.ne_nil hNil
    · exact hSeg.ne_dot hDot
  · intro hEq
    rcases append_eq_cons_iff.mp hEq with ⟨hNil, -⟩ | ⟨x, hx, hRest⟩
    · exact hSeg.ne_nil hNil
    rcases append_eq_singleton_iff.mp hRest.symm with ⟨rfl, -⟩ | ⟨rfl, -⟩
    · exact hSeg.ne_dot hx
    · exact hSeg.ne_dots hx

theorem push_plain (hSeg : Plain seg) : push r st seg = seg :: st := by
  simp [push, hSeg.ne_nil, hSeg.ne_dot, hSeg.ne_dots]

theorem Cleaned.push (hSt : Cleaned r st) (hSeg : '/' ∉ seg) : Cleaned r (push r st seg) := by
  unfold SlashPath.push
  split
  · exact hSt
  next hDot =>
  rw [not_or] at hDot
  split
  · next hDots =>
    cases st with
    | nil => cases r <;> simp [Cleaned, hDots]
    | cons top rest =>
      dsimp only
      split
      · next hTop =>
        rcases hSt.1 with hPlain | ⟨-, hRooted, hAll⟩
        · exact absurd hTop hPlain.ne_dots
        · exact ⟨Or.inr ⟨hDots, hRooted, forall_mem_cons.mpr ⟨hTop, hAll⟩⟩, hSt⟩
      · exact hSt.2
  · next hDots => exact ⟨Or.inl ⟨hSeg, hDot.1, hDot.2, hDots⟩, hSt⟩

theorem push_cleaned (hSt : Cleaned r (seg :: st)) : push r st seg = seg :: st := by
  rcases hSt.1 with hPlain | ⟨rfl, rfl, hAll⟩
  · exact push_plain hPlain
  · cases st with
    | nil => rfl
    | cons top rest => simp [push, hAll top mem_cons_self]

theorem foldl_push_reverse (hSt : Cleaned r st) : st.reverse.foldl (push r) [] = st := by
  induction st with
  | nil => rfl
  | cons seg st ih =>
    rw [reverse_cons, foldl_append, ih hSt.2]
    exact push_cleaned hSt

theorem foldl_push_plain (hPlain : ∀ seg ∈ rs, Plain seg) :
    rs.foldl (push r) st = rs.reverse ++ st := by
  induction rs generalizing st with
  | nil => rfl
  | cons seg rs ih =>
    rw [forall_mem_cons] at hPlain
    rw [foldl_cons, push_plain hPlain.1, ih hPlain.2, reverse_cons, append_assoc]
    rfl

theorem notMem_of_mem_splitOn (hMem : seg ∈ p.splitOn '/') : '/' ∉ seg := by
  induction p generalizing seg with
  | nil =>
    rw [splitOn_nil, mem_singleton] at hMem
    simp [hMem]
  | cons c p ih =>
    rw [splitOn_cons_eq_if_modifyHead] at hMem
    obtain ⟨first, rest, hSplit⟩ := exists_cons_of_ne_nil (splitOn_ne_nil '/' p)
    rw [hSplit] at hMem ih
    split at hMem
    · rcases mem_cons.mp hMem with rfl | hMem
      · exact not_mem_nil
      · exact ih hMem
    next hSlash =>
    rcases mem_cons.mp hMem with rfl | hMem
    · have hc : '/' ≠ c := by
        rintro rfl
        exact hSlash rfl
      exact not_mem_cons_of_ne_of_not_mem hc (ih mem_cons_self)
    · exact ih (mem_cons_of_mem _ hMem)

theorem cleaned_stack (p : List Char) : Cleaned (rooted p) (stack p) := by
  have hFold : ∀ (parts : List (List Char)) (st), (∀ seg ∈ parts, '/' ∉ seg) →
    Cleaned (rooted p) st → Cleaned (rooted p) (parts.foldl (push (rooted p)) st) := by
    intro parts
    induction parts with
    | nil => exact fun _ _ hSt => hSt
    | cons seg parts ih =>
      intro st hParts hSt
      rw [forall_mem_cons] at hParts
      exact ih _ hParts.2 (hSt.push hParts.1)
  exact hFold _ _ (fun _ => notMem_of_mem_splitOn) trivial

theorem Cleaned.elem (hSt : Cleaned r st) (hMem : seg ∈ st) :
    '/' ∉ seg ∧ seg ≠ [] ∧ seg ≠ ['.'] := by
  induction st with
  | nil => contradiction
  | cons top st ih =>
    rcases mem_cons.mp hMem with rfl | hMem
    · rcases hSt.1 with hPlain | ⟨rfl, -⟩
      · exact ⟨hPlain.noSlash, hPlain.ne_nil, hPlain.ne_dot⟩
      · decide
    · exact ih hSt.2 hMem

theorem Cleaned.plain (hSt : Cleaned true st) (hMem : seg ∈ st) : Plain seg := by
  induction st with
  | nil => contradiction
  | cons top st ih =>
    rcases mem_cons.mp hMem with rfl | hMem
    · exact hSt.1.resolve_right fun hDots => nomatch hDots.2.1
    · exact ih hSt.2 hMem

theorem Cleaned.of_append (hSt : Cleaned r (rs ++ st)) : Cleaned r st := by
  induction rs with
  | nil => exact hSt
  | cons seg rs ih => exact ih hSt.2

theorem Cleaned.plain_append (hSt : Cleaned r st) (hPlain : ∀ seg ∈ rs, Plain seg) :
    Cleaned r (rs ++ st) := by
  induction rs with
  | nil => exact hSt
  | cons seg rs ih =>
    rw [forall_mem_cons] at hPlain
    exact ⟨Or.inl hPlain.1, ih hPlain.2⟩

-- Rendering

theorem splitOn_render (hSegs : Cleaned r segs.reverse) (hNe : segs ≠ []) :
    (render r segs).splitOn '/' = if r then [] :: segs else segs := by
  have hSplit : (['/'].intercalate segs).splitOn '/' = segs :=
    splitOn_intercalate '/' (fun seg hMem => (hSegs.elem (mem_reverse.mpr hMem)).1) hNe
  cases r with
  | true => exact (splitOn_append_cons_self [] _).trans (by rw [hSplit]; rfl)
  | false => simp [render, hNe, hSplit]

theorem render_append (hSegs : segs ≠ []) (hRs : rs ≠ []) :
    render r (segs ++ rs) = render r segs ++ '/' :: ['/'].intercalate rs := by
  have hJoin : ['/'].intercalate (segs ++ rs) =
    ['/'].intercalate segs ++ '/' :: ['/'].intercalate rs := by
    obtain ⟨next, rs, rfl⟩ := exists_cons_of_ne_nil hRs
    induction segs with
    | nil => contradiction
    | cons seg segs ih =>
      cases segs with
      | nil => simp [intercalate_cons_cons]
      | cons seg' segs =>
        have hRest := ih (cons_ne_nil _ _)
        simp only [cons_append, intercalate_cons_cons, append_assoc] at hRest ⊢
        rw [hRest]
  cases r <;> simp [render, hSegs, hJoin]

theorem rooted_render (hSegs : Cleaned r segs.reverse) : rooted (render r segs) = r := by
  cases r with
  | true => rfl
  | false =>
    cases segs with
    | nil => rfl
    | cons seg segs =>
      obtain ⟨hSlash, hNe, -⟩ := hSegs.elem (mem_reverse.mpr mem_cons_self)
      obtain ⟨c, rest, rfl⟩ := exists_cons_of_ne_nil hNe
      have hHead : ∃ tail, render false ((c :: rest) :: segs) = c :: tail := by
        cases segs with
        | nil => exact ⟨rest, by simp [render]⟩
        | cons next segs => exact ⟨_, by simp [render, intercalate_cons_cons]; rfl⟩
      obtain ⟨tail, hTail⟩ := hHead
      rw [hTail]
      simp only [rooted, head?_cons, beq_eq_false_iff_ne]
      rintro hEq
      exact hSlash (Option.some.inj hEq ▸ mem_cons_self)

theorem segments_render (hSegs : Cleaned r segs.reverse) : segments (render r segs) = segs := by
  rw [segments, stack, rooted_render hSegs]
  by_cases hNe : segs = []
  · cases r <;> simp [hNe, render, splitOn_cons_eq_if_modifyHead, push]
  have hFold : segs.foldl (push r) [] = segs.reverse := by
    rw [← foldl_push_reverse hSegs, reverse_reverse]
  rw [splitOn_render hSegs hNe]
  cases r <;> simp [hFold, push]

theorem clean_of_cleaned (hSegs : Cleaned r segs.reverse) :
    clean (render r segs) = render r segs := by
  rw [clean, segments_render hSegs, rooted_render hSegs]

theorem cleaned_segments (p : List Char) : Cleaned (rooted p) (segments p).reverse := by
  rw [segments, reverse_reverse]
  exact cleaned_stack p

theorem cleaned_append (hPlain : ∀ seg ∈ rs, Plain seg) :
    Cleaned (rooted p) (segments p ++ rs).reverse := by
  rw [reverse_append]
  exact (cleaned_segments p).plain_append fun seg hMem => hPlain seg (mem_reverse.mp hMem)

/- Joining plain elements to a path appends them to its own. -/
theorem join_intercalate (hPlain : ∀ seg ∈ rs, Plain seg) (hNe : rs ≠ []) :
    join p (['/'].intercalate rs) = render (rooted p) (segments p ++ rs) := by
  have hSplit : (['/'].intercalate rs).splitOn '/' = rs :=
    splitOn_intercalate '/' (fun seg hMem => (hPlain seg hMem).noSlash) hNe
  by_cases hp : p = []
  · subst hp
    have hRs : Cleaned false rs.reverse := @cleaned_append [] rs hPlain
    have hRender : ['/'].intercalate rs = render false rs := by simp [render, hNe]
    have hSome : ['/'].intercalate rs ≠ [] := by
      intro hEq
      rw [hEq] at hSplit
      simp [← hSplit] at hPlain
      exact hPlain.ne_nil rfl
    rw [join, if_pos rfl, if_neg hSome, hRender, clean_of_cleaned hRs]
    rfl
  · have hRooted : rooted (p ++ '/' :: ['/'].intercalate rs) = rooted p := by
      obtain ⟨c, rest, rfl⟩ := exists_cons_of_ne_nil hp
      rfl
    rw [join, if_neg hp, clean, segments, stack, hRooted, splitOn_append_cons_self,
      foldl_append, hSplit, foldl_push_plain hPlain, reverse_append,
      reverse_reverse]
    rfl

-- Elements After A Path

/- Dots are at the bottom, and what is at the bottom is not taken off by dots. -/
theorem dots_mem_push (hDots : ['.', '.'] ∈ st) : ['.', '.'] ∈ push r st seg := by
  unfold push
  split
  · exact hDots
  split
  · cases st with
    | nil => contradiction
    | cons top rest =>
      dsimp only
      split
      · exact mem_cons_of_mem _ hDots
      · next hTop => exact mem_of_ne_of_mem (Ne.symm hTop) hDots
  · exact mem_cons_of_mem _ hDots

theorem dots_mem_foldl_push (hDots : ['.', '.'] ∈ st) : ['.', '.'] ∈ rs.foldl (push r) st := by
  induction rs generalizing st with
  | nil => exact hDots
  | cons seg rs ih => exact ih (dots_mem_push hDots)

theorem push_append (hDots : ['.', '.'] ∉ push false segs seg) :
    push r (segs ++ st) seg = push false segs seg ++ st := by
  unfold push at hDots ⊢
  split
  · rfl
  next hKeep =>
  rw [if_neg hKeep] at hDots
  split
  · next hSeg =>
    rw [if_pos hSeg] at hDots
    cases segs with
    | nil => simp [hSeg] at hDots
    | cons top rest =>
      dsimp only [cons_append] at hDots ⊢
      split
      · next hTop => simp [hTop] at hDots
      · rfl
  · rfl

theorem of_dots_mem_push (hSegs : ['.', '.'] ∉ segs) (hPush : ['.', '.'] ∈ push false segs seg) :
    segs = [] ∧ seg = ['.', '.'] := by
  unfold push at hPush
  split at hPush
  · contradiction
  split at hPush
  · next hSeg =>
    cases segs with
    | nil => exact ⟨rfl, hSeg⟩
    | cons top rest =>
      rw [mem_cons, not_or] at hSegs
      simp [Ne.symm hSegs.1, hSegs.2] at hPush
  · next hSeg => exact absurd ((mem_cons.mp hPush).resolve_right hSegs).symm hSeg

/- Elements that do not lead above where they begin are added to the path. -/
theorem foldl_push_append (hDots : ['.', '.'] ∉ rs.foldl (push false) segs) :
    rs.foldl (push r) (segs ++ st) = rs.foldl (push false) segs ++ st := by
  induction rs generalizing segs with
  | nil => rfl
  | cons seg rs ih =>
    rw [foldl_cons] at hDots
    rw [foldl_cons, push_append (mt dots_mem_foldl_push hDots), ih hDots, foldl_cons]

/- Elements that lead above it forget the element that they begin after. -/
theorem foldl_push_climb {a b} (ha : a ≠ ['.', '.']) (hb : b ≠ ['.', '.'])
    (hSegs : ['.', '.'] ∉ segs) (hDots : ['.', '.'] ∈ rs.foldl (push false) segs) :
    rs.foldl (push r) (segs ++ a :: st) = rs.foldl (push r) (segs ++ b :: st) := by
  induction rs generalizing segs with
  | nil => exact absurd hDots hSegs
  | cons seg rs ih =>
    rw [foldl_cons, foldl_cons]
    by_cases hPush : ['.', '.'] ∈ push false segs seg
    · -- the first element that leads above: nothing is left to take off but `a` or `b`
      obtain ⟨rfl, rfl⟩ := of_dots_mem_push hSegs hPush
      simp [push, ha, hb]
    · rw [push_append hPush, push_append hPush]
      exact ih hPush hDots

theorem stack_append (hp : p ≠ []) (q : List Char) :
    stack (p ++ '/' :: q) = (q.splitOn '/').foldl (push (rooted p)) (stack p) := by
  have hRooted : rooted (p ++ '/' :: q) = rooted p := by
    obtain ⟨c, rest, rfl⟩ := exists_cons_of_ne_nil hp
    rfl
  rw [stack, hRooted, splitOn_append_cons_self, foldl_append]
  rfl

theorem stack_below (q : List Char) :
    stack ('.' :: '/' :: q) = (q.splitOn '/').foldl (push false) [] :=
  stack_append (cons_ne_nil '.' []) q

/- A text after a path is cut at its first slash. -/
theorem segments_append_cut (hp : p ≠ []) (t : List Char) :
    segments (p ++ t.dropWhile (· ≠ '/')) =
      segments (p ++ '/' :: (t.dropWhile (· ≠ '/')).drop 1) := by
  cases hRest : t.dropWhile (· ≠ '/') with
  | nil =>
    rw [append_nil, drop_nil, segments, segments, stack_append hp]
    rfl
  | cons c rest =>
    have hSlash := head?_dropWhile_not (· ≠ '/') t
    rw [hRest] at hSlash
    obtain rfl : c = '/' := by simpa using hSlash
    rfl

theorem segments_append_below {q} (hp : p ≠ [])
    (hq : ['.', '.'] ∉ segments ('.' :: '/' :: q)) :
    segments (p ++ '/' :: q) = segments p ++ segments ('.' :: '/' :: q) := by
  rw [segments, mem_reverse, stack_below] at hq
  have hStack := @foldl_push_append (rooted p) (stack p) [] _ hq
  rw [nil_append] at hStack
  rw [segments, stack_append hp, hStack, reverse_append, segments, segments, stack_below]

theorem segments_append_climb {p' q a b} (hp : p ≠ []) (hp' : p' ≠ [])
    (hRooted : rooted p = rooted p') (ha : a ≠ ['.', '.']) (hb : b ≠ ['.', '.'])
    (hEq : segments p = segs ++ [a]) (hEq' : segments p' = segs ++ [b])
    (hq : ['.', '.'] ∈ segments ('.' :: '/' :: q)) :
    segments (p ++ '/' :: q) = segments (p' ++ '/' :: q) := by
  rw [segments, mem_reverse, stack_below] at hq
  rw [segments, reverse_eq_iff, reverse_append] at hEq hEq'
  rw [segments, segments, stack_append hp, stack_append hp', hEq, hEq', hRooted]
  exact congrArg reverse (foldl_push_climb ha hb not_mem_nil hq)

-- Paths Below A Path

/- Only cleaned paths lead to a cleaned path, and their elements begin its own. -/
theorem segments_of_splitOn (hp : p ≠ []) (hSegs : Cleaned r segs.reverse) (hNe : segs ≠ [])
    (hSplit : p.splitOn '/' ++ rs = (render r segs).splitOn '/') :
    rooted p = r ∧ p = clean p ∧ segments p ≠ [] ∧ segs = segments p ++ rs := by
  rw [splitOn_render hSegs hNe] at hSplit
  have hBack : ['/'].intercalate (p.splitOn '/') = p := intercalate_splitOn '/'
  cases r with
  | false =>
    subst hSplit
    rw [reverse_append] at hSegs
    have hRender : render false (p.splitOn '/') = p := by simp [render, hBack, splitOn_ne_nil]
    have hCleaned := hSegs.of_append
    rw [← hRender, clean_of_cleaned hCleaned, segments_render hCleaned, rooted_render hCleaned,
      hRender]
    exact ⟨rfl, rfl, splitOn_ne_nil '/' p, rfl⟩
  | true =>
    rw [if_pos rfl] at hSplit
    obtain ⟨first, parts, hParts⟩ := exists_cons_of_ne_nil (splitOn_ne_nil '/' p)
    rw [hParts, cons_append, List.cons.injEq] at hSplit
    obtain ⟨rfl, rfl⟩ := hSplit
    rw [reverse_append] at hSegs
    have hSome : parts ≠ [] := by
      rintro rfl
      rw [hParts] at hBack
      exact hp hBack.symm
    have hRender : render true parts = p := by
      obtain ⟨next, parts, rfl⟩ := exists_cons_of_ne_nil hSome
      rw [← hBack, hParts, intercalate_cons_cons]
      rfl
    have hCleaned := hSegs.of_append
    rw [← hRender, clean_of_cleaned hCleaned, segments_render hCleaned, rooted_render hCleaned]
    exact ⟨rfl, rfl, hSome, rfl⟩

/- What lies in a directory. -/
theorem dir_prefix_iff {r' : Bool} {dir} (hDir : Cleaned r dir.reverse) (hNe : dir ≠ [])
    (hSegs : Cleaned r' segs.reverse) (hSome : segs ≠ []) :
    render r dir ++ ['/'] <+: render r' segs ↔ r = r' ∧ ∃ seg rest, segs = dir ++ seg :: rest := by
  constructor
  · rintro ⟨rest, hEq⟩
    rw [append_assoc, singleton_append] at hEq
    have hSplit := congrArg (splitOn '/') hEq
    rw [splitOn_append_cons_self] at hSplit
    have hRender : render r dir ≠ [] := by
      intro hNil
      rw [← segments_render hDir, hNil] at hNe
      exact hNe rfl
    obtain ⟨hRooted, -, -, hTail⟩ := segments_of_splitOn hRender hSegs hSome hSplit
    rw [rooted_render hDir] at hRooted
    rw [segments_render hDir] at hTail
    obtain ⟨seg, rest', hRest⟩ := exists_cons_of_ne_nil (splitOn_ne_nil '/' rest)
    exact ⟨hRooted, seg, rest', hTail.trans (by rw [hRest])⟩
  · rintro ⟨rfl, seg, rest, rfl⟩
    rw [render_append hNe (cons_ne_nil _ _)]
    exact ⟨['/'].intercalate (seg :: rest), by simp⟩

end SlashPath
