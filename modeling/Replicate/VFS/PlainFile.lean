import Replicate.VFS.ConnectionRuns

/-
  The unsynced writes of a `VFSFile`, against a plain file.

  A dirty page is in the write buffer, at an offset that is
  kept for the page. Other pages come from the hydrated
  file, the cache or the replica. Here a page is made of
  bytes, and a plain file goes through the same successful
  calls. A call of `ReadAt` is in one page.

  Main declarations:
    * `WriteBuffer.Separate.lookup_write`
    * `BufferedFile.Represents.step`
    * `unsynced_writes_plain`
    * `failed_fetch_zeroes_page`
-/

-- The Write Buffer

namespace Replicate

open EntryList VFSConn Option Function

variable {B D : Type}

/- The buffer file by offsets, which count pages here. -/
structure WriteBuffer (D : Type) where
  dirty : List (Nat × Nat)
  file : Nat → D
  nextOff : Nat

namespace WriteBuffer

/- The dirty pages, as the buffer file has them. -/
def entries (b : WriteBuffer D) : List (Nat × D) :=
  b.dirty.map fun e => (e.1, b.file e.2)

/- The page keeps its offset, and a new one is appended. -/
def writeOffset (pgno : Nat) (b : WriteBuffer D) : Nat :=
  (b.dirty.lookup pgno).getD b.nextOff

def writeToBuffer (pgno : Nat) (d : D) (b : WriteBuffer D) : WriteBuffer D where
  dirty := (pgno, b.writeOffset pgno) :: b.dirty
  file := update b.file (b.writeOffset pgno) d
  nextOff := if (b.dirty.lookup pgno).isSome then b.nextOff else b.nextOff + 1

/- `Truncate` forgets dirty pages, and no space is reused. -/
def truncate (newCommit : Nat) (b : WriteBuffer D) : WriteBuffer D :=
  { b with dirty := restrict (fun pgno => decide (pgno ≤ newCommit)) b.dirty }

/- No two pages share an offset, and none has the next one. -/
structure Separate (b : WriteBuffer D) : Prop where
  below : ∀ p off, b.dirty.lookup p = some off → off < b.nextOff
  apart : ∀ p q off, b.dirty.lookup p = some off → b.dirty.lookup q = some off → p = q

variable {b : WriteBuffer D}

theorem lookup_entries (b : WriteBuffer D) (p : Nat) :
    b.entries.lookup p = (b.dirty.lookup p).map b.file :=
  lookup_map_values b.file b.dirty p

theorem Separate.writeOffset_ne (hSeparate : b.Separate) {p pgno off : Nat} (hNe : p ≠ pgno)
    (hOff : b.dirty.lookup p = some off) : off ≠ b.writeOffset pgno := by
  intro hEq
  unfold writeOffset at hEq
  cases hOld : b.dirty.lookup pgno with
  | none =>
    rw [hOld, getD_none] at hEq
    exact Nat.ne_of_lt (hSeparate.below p off hOff) hEq
  | some off' =>
    rw [hOld, getD_some] at hEq
    exact hNe (hSeparate.apart p pgno off hOff (hEq ▸ hOld))

theorem lookup_dirty_write (pgno : Nat) (d : D) (p : Nat) :
    (b.writeToBuffer pgno d).dirty.lookup p =
      if p = pgno then some (b.writeOffset pgno) else b.dirty.lookup p := by
  unfold writeToBuffer
  by_cases hSame : p = pgno
  · rw [if_pos hSame, hSame]
    exact List.lookup_cons_self
  · rw [if_neg hSame, List.lookup_cons, beq_eq_false_iff_ne.mpr hSame]

/- A write changes one page. -/
theorem Separate.lookup_write (hSeparate : b.Separate) (pgno : Nat) (d : D) (p : Nat) :
    (b.writeToBuffer pgno d).entries.lookup p = if p = pgno then some d else b.entries.lookup p := by
  rw [lookup_entries, lookup_dirty_write]
  split
  · exact congrArg some (update_self ..)
  rename_i hNe
  rw [lookup_entries]
  cases hOff : b.dirty.lookup p with
  | none => rfl
  | some off =>
    have hKept : update b.file (b.writeOffset pgno) d off = b.file off :=
      update_of_ne (hSeparate.writeOffset_ne hNe hOff) ..
    exact congrArg some hKept

theorem Separate.writeToBuffer (hSeparate : b.Separate) (pgno : Nat) (d : D) :
    (b.writeToBuffer pgno d).Separate := by
  constructor
  · intro p off hOff
    have hNext : b.writeOffset pgno < (b.writeToBuffer pgno d).nextOff ∧
      b.nextOff ≤ (b.writeToBuffer pgno d).nextOff := by
      unfold writeOffset WriteBuffer.writeToBuffer
      cases hOld : b.dirty.lookup pgno with
      | none => exact ⟨Nat.lt_succ_self _, Nat.le_succ _⟩
      | some off => exact ⟨hSeparate.below pgno off hOld, Nat.le_refl _⟩
    rw [lookup_dirty_write] at hOff
    split at hOff
    · exact some.inj hOff ▸ hNext.1
    · exact Nat.lt_of_lt_of_le (hSeparate.below p off hOff) hNext.2
  · intro p q off hP hQ
    rw [lookup_dirty_write] at hP hQ
    split at hP
    · split at hQ
      · omega
      · rename_i hSame hNe
        exact absurd (some.inj hP).symm (hSeparate.writeOffset_ne hNe hQ)
    split at hQ
    · rename_i hNe hSame
      exact absurd (some.inj hQ).symm (hSeparate.writeOffset_ne hNe hP)
    · exact hSeparate.apart p q off hP hQ

theorem lookup_entries_truncate (newCommit p : Nat) :
    (b.truncate newCommit).entries.lookup p = if p ≤ newCommit then b.entries.lookup p else none := by
  rw [lookup_entries, lookup_entries]
  simp only [truncate, lookup_restrict, decide_eq_true_eq]
  split
  · rfl
  · rfl

theorem Separate.truncate (hSeparate : b.Separate) (newCommit : Nat) :
    (b.truncate newCommit).Separate := by
  have hOld : ∀ p off, (b.truncate newCommit).dirty.lookup p = some off →
    b.dirty.lookup p = some off := by
    intro p off hOff
    simp only [WriteBuffer.truncate, lookup_restrict] at hOff
    split at hOff
    · exact hOff
    · cases hOff
  constructor
  · intro p off hOff
    exact hSeparate.below p off (hOld p off hOff)
  · intro p q off hP hQ
    exact hSeparate.apart p q off (hOld p off hP) (hOld q off hQ)

theorem maxKey_entries (b : WriteBuffer D) : maxKey b.entries = maxKey b.dirty :=
  maxKey_map_values b.file b.dirty

theorem maxKey_write (pgno : Nat) (d : D) :
    maxKey (b.writeToBuffer pgno d).entries = max pgno (maxKey b.entries) := by
  rw [maxKey_entries, maxKey_entries]
  rfl

end WriteBuffer

-- What A Page Holds

/- The replica's pages, which a fetch returns or fails. -/
def fetchOf (content : PageElem → Nat → D) (pageErr : PageElem → Nat → Option Err) (e : PageElem)
    (pgno : Nat) : Except Err D :=
  match pageErr e pgno with
  | some err => .error err
  | none => .ok (content e pgno)

/-
  The file is write-enabled, and the cache, the replica and
  the hydrated file have the pages of one image. Pages that
  the index does not have are holes.
-/
structure VFSConn.OnImage (lib : LtxLibrary D) (content : PageElem → Nat → D) (base : Nat → D)
    (c : VFSConn D) : Prop where
  writes : c.writeEnabled = true
  cached : ∀ p d, c.cache.lookup p = some d → d = base p
  indexed : ∀ p e, c.index.lookup p = some e → content e p = base p
  missing : ∀ p, c.index.lookup p = none → base p = lib.zero
  hydrated : ∀ h p, c.hydrated = some h → 1 ≤ p → h.readAt lib p = base p

namespace VFSConn.OnImage

variable {lib : LtxLibrary D} {content : PageElem → Nat → D} {base : Nat → D}
variable {c c' : VFSConn D} {pageErr : PageElem → Nat → Option Err} {pgno : Nat}

theorem cache_cons (hImage : c.OnImage lib content base) {p : Nat} {d : D}
    (hLookup : ((pgno, base pgno) :: c.cache).lookup p = some d) : d = base p := by
  rw [List.lookup_cons] at hLookup
  split at hLookup
  · rename_i hSame
    rw [beq_iff_eq.mp hSame]
    exact (some.inj hLookup).symm
  · exact hImage.cached p d hLookup

theorem fetched (hImage : c.OnImage lib content base) {e} {d : D}
    (hIndex : c.index.lookup pgno = some e) (hFetch : fetchOf content pageErr e pgno = .ok d) :
    d = base pgno := by
  unfold fetchOf at hFetch
  split at hFetch
  · cases hFetch
  · exact (Except.ok.inj hFetch).symm.trans (hImage.indexed pgno e hIndex)

/- A read returns the dirty page or that of the image. -/
theorem readAt (hImage : c.OnImage lib content base) (hPos : 1 ≤ pgno) {d : D}
    (hRead : c.readAt lib (fetchOf content pageErr) pgno = .ok (d, c')) :
    d = (c.dirty.lookup pgno).getD (base pgno) ∧
      ∃ cache, c' = { c with cache := cache } ∧ ∀ p d, cache.lookup p = some d → d = base p := by
  have hSame : ∀ {d'}, (.ok (d', c) : Except Err (D × VFSConn D)) = .ok (d, c') → d = d' ∧
    ∃ cache, c' = { c with cache := cache } ∧ ∀ p d, cache.lookup p = some d → d = base p := by
    intro d' hEq
    cases hEq
    exact ⟨rfl, c.cache, rfl, hImage.cached⟩
  unfold VFSConn.readAt dirtyPage at hRead
  rw [if_pos hImage.writes] at hRead
  cases hDirty : c.dirty.lookup pgno with
  | some d' =>
    rw [hDirty] at hRead
    exact hSame hRead
  | none =>
    rw [hDirty] at hRead
    dsimp only at hRead
    split at hRead
    · rename_i h hHydrated
      rw [← hImage.hydrated h pgno hHydrated hPos]
      exact hSame hRead
    split at hRead
    · rename_i d' hCache
      rw [← hImage.cached pgno d' hCache]
      exact hSame hRead
    split at hRead
    · rename_i hIndex
      rw [if_pos hImage.writes, ← hImage.missing pgno hIndex] at hRead
      exact hSame hRead
    · rename_i e hIndex
      split at hRead
      · cases hRead
      rename_i d' hFetch
      cases hRead
      cases hImage.fetched hIndex hFetch
      exact ⟨rfl, _, rfl, fun p d => hImage.cache_cons⟩

theorem pageForWrite (hImage : c.OnImage lib content base)
    (hFound : c.dirty.lookup pgno = none → c.cache.lookup pgno = none →
      ∀ e, c.index.lookup pgno = some e → pageErr e pgno = none) :
    (c.pageForWrite lib (fetchOf content pageErr) pgno).1 = (c.dirty.lookup pgno).getD (base pgno) ∧
      ∀ p d, (c.pageForWrite lib (fetchOf content pageErr) pgno).2.cache.lookup p = some d →
        d = base p := by
  unfold VFSConn.pageForWrite readPageForWrite
  cases hDirty : c.dirty.lookup pgno with
  | some d => exact ⟨rfl, hImage.cached⟩
  | none =>
    cases hCache : c.cache.lookup pgno with
    | some d => exact ⟨hImage.cached pgno d hCache, hImage.cached⟩
    | none =>
      cases hIndex : c.index.lookup pgno with
      | none => exact ⟨(hImage.missing pgno hIndex).symm, hImage.cached⟩
      | some e =>
        have hFetch : fetchOf content pageErr e pgno = .ok (base pgno) := by
          unfold fetchOf
          rw [hFound hDirty hCache e hIndex, ← hImage.indexed pgno e hIndex]
        dsimp only
        rw [hFetch]
        exact ⟨rfl, fun p d => hImage.cache_cons⟩

end VFSConn.OnImage

-- Files Of Bytes

/- A plain file, with zeros behind its end. -/
structure PlainFile (B : Type) where
  byte : Nat → B
  size : Nat

/- Bytes that are written from an offset on. -/
def writeBytes (off : Nat) (bytes : List B) (byte : Nat → B) (i : Nat) : B :=
  if i < off then byte i else bytes.getD (i - off) (byte i)

namespace PlainFile

def writeAt (off : Nat) (bytes : List B) (file : PlainFile B) : PlainFile B where
  byte := writeBytes off bytes file.byte
  size := if bytes = [] then file.size else max file.size (off + bytes.length)

def truncate (zero : B) (size : Nat) (file : PlainFile B) : PlainFile B where
  byte i := if i < size then file.byte i else zero
  size := size

end PlainFile

/- A `VFSFile`, its dirty pages in the write buffer. -/
structure BufferedFile (B : Type) where
  conn : VFSConn (Nat → B)
  buffer : WriteBuffer (Nat → B)

/- The bytes that `ReadAt` replaces at the start of a file. -/
def pretended : List Nat := [18, 19, 24, 25, 26, 27]

namespace BufferedFile

variable (lib : LtxLibrary (Nat → B)) (content : PageElem → Nat → Nat → B) (pageSize : Nat)
variable {off : Nat} {bytes : List B} {f : BufferedFile B}

/- The file as its methods find it. -/
def view (f : BufferedFile B) : VFSConn (Nat → B) :=
  { f.conn with dirty := f.buffer.entries }

/- `ReadAt` in one page, with what it puts in the header. -/
def readAt (off len : Nat) (pageErr : PageElem → Nat → Option Err) (noise : Nat → B)
    (f : BufferedFile B) : Except Err (List B × BufferedFile B) :=
  match f.view.readAt lib (fetchOf content pageErr) (off / pageSize + 1) with
  | .error err => .error err
  | .ok (page, c) =>
    .ok ((List.range len).map (fun k =>
      if off = 0 ∧ k ∈ pretended then noise k else page (off % pageSize + k)),
      { f with conn := c })

/- `WriteAt` in one page. -/
def writeAt (off : Nat) (bytes : List B) (pageErr : PageElem → Nat → Option Err)
    (f : BufferedFile B) : Except Err (BufferedFile B) :=
  let pgno := off / pageSize + 1
  let patch := writeBytes (off % pageSize) bytes
  match f.view.writeAt lib (fetchOf content pageErr) pgno patch with
  | .error err => .error err
  | .ok c =>
    let old := (f.view.pageForWrite lib (fetchOf content pageErr) pgno).1
    .ok ⟨c, f.buffer.writeToBuffer pgno (patch old)⟩

def truncate (size : Nat) (f : BufferedFile B) : Except Err (BufferedFile B) :=
  match f.view.truncate lib (size / pageSize) with
  | .error err => .error err
  | .ok c => .ok ⟨c, f.buffer.truncate (size / pageSize)⟩

def fileSize (f : BufferedFile B) : Nat :=
  f.view.fileSize pageSize

theorem fileSize_eq (f : BufferedFile B) : f.fileSize pageSize = max (maxKey f.buffer.entries)
      (maxKey (f.conn.pending ++ f.conn.index)) * pageSize :=
  VFSConn.fileSize_eq pageSize f.view

/- The calls, and what the cache does by itself. -/
inductive Op (B : Type) where
  | readAt (off len : Nat) (pageErr : PageElem → Nat → Option Err) (noise : Nat → B)
  | writeAt (off : Nat) (bytes : List B) (pageErr : PageElem → Nat → Option Err)
  | truncate (size : Nat)
  | evict (pgno : Nat)

/- The calls that succeed, on both files. -/
inductive Step : BufferedFile B × PlainFile B → Op B → BufferedFile B × PlainFile B → Prop where
  | readAt {f f' file off len pageErr noise bytes}
    (hRead : f.readAt lib content pageSize off len pageErr noise = .ok (bytes, f')) :
    Step (f, file) (.readAt off len pageErr noise) (f', file)
  | writeAt {f f' file off bytes pageErr}
    (hWrite : f.writeAt lib content pageSize off bytes pageErr = .ok f') :
    Step (f, file) (.writeAt off bytes pageErr) (f', file.writeAt off bytes)
  | truncate {f f' file size} (hTruncate : f.truncate lib pageSize size = .ok f') :
    Step (f, file) (.truncate size) (f', file.truncate (lib.zero 0) size)
  | evict {f file} (pgno : Nat) :
    Step (f, file) (.evict pgno) ({ f with conn := f.conn.evict pgno }, file)

/-
  A write is in one page, fetches the old page if that is
  neither dirty nor cached, and reaches the end of a page
  that it adds to the file. A truncation is to a number of
  pages, none of which the index or a pending poll is
  behind, and the last page is there.
-/
def KeepsPlain (f : BufferedFile B) : Op B → Prop
| .writeAt off bytes pageErr =>
  off % pageSize + bytes.length ≤ pageSize ∧ (f.view.dirty.lookup (off / pageSize + 1) = none →
    f.conn.cache.lookup (off / pageSize + 1) = none →
    ∀ e, f.conn.index.lookup (off / pageSize + 1) = some e →
      pageErr e (off / pageSize + 1) = none) ∧
    ((off / pageSize + 1) * pageSize ≤ f.fileSize pageSize ∨
      off % pageSize + bytes.length = pageSize)
| .truncate size =>
  size % pageSize = 0 ∧ (∀ p ∈ keys (f.conn.pending ++ f.conn.index), p ≤ size / pageSize) ∧
    (size = 0 ∨ size / pageSize ∈ keys f.view.dirty ∨
      size / pageSize ∈ keys (f.conn.pending ++ f.conn.index))
| _ => True

def Run : BufferedFile B × PlainFile B → BufferedFile B × PlainFile B → Prop :=
  Relation.ReflTransGen fun x y => ∃ op, KeepsPlain pageSize x.1 op ∧ Step lib content pageSize x op y

-- The Simulation

/- The plain file has the bytes and the size of the file. -/
structure Represents (base : Nat → Nat → B) (x : BufferedFile B × PlainFile B) : Prop where
  separate : x.1.buffer.Separate
  onImage : x.1.conn.OnImage lib content base
  byte : ∀ i, x.2.byte i =
    ((x.1.buffer.entries.lookup (i / pageSize + 1)).getD (base (i / pageSize + 1))) (i % pageSize)
  size : x.2.size = x.1.fileSize pageSize

variable {lib : LtxLibrary (Nat → B)} {content : PageElem → Nat → Nat → B} {pageSize : Nat}
variable {base : Nat → Nat → B} {x y : BufferedFile B × PlainFile B}

theorem Represents.view (hRep : Represents lib content pageSize base x) :
    x.1.view.OnImage lib content base :=
  ⟨hRep.onImage.writes, hRep.onImage.cached, hRep.onImage.indexed, hRep.onImage.missing,
    hRep.onImage.hydrated⟩

theorem writeBytes_page (hIn : off % pageSize + bytes.length ≤ pageSize) {byte page} {i : Nat}
    (hByte : byte i = page (i % pageSize)) : writeBytes off bytes byte i =
      if i / pageSize = off / pageSize then writeBytes (off % pageSize) bytes page (i % pageSize)
      else byte i := by
  have hI := Nat.div_add_mod i pageSize
  have hOff := Nat.div_add_mod off pageSize
  unfold writeBytes
  by_cases hSame : i / pageSize = off / pageSize
  · rw [hSame] at hI
    have hLt : i < off ↔ i % pageSize < off % pageSize := by omega
    have hSub : i - off = i % pageSize - off % pageSize := by omega
    simp only [if_pos hSame, hLt, hSub, hByte]
  rw [if_neg hSame]
  split
  · rfl
  have hMore : off / pageSize < i / pageSize :=
    Nat.lt_of_le_of_ne (Nat.div_le_div_right (by omega)) (Ne.symm hSame)
  have hNext : pageSize * (off / pageSize) + pageSize ≤ pageSize * (i / pageSize) := by
    exact Nat.mul_le_mul_left _ hMore
  exact List.getD_eq_default _ _ (by omega)

theorem Represents.writeAt (hRep : Represents lib content pageSize base x) (hPage : 0 < pageSize)
    {pageErr} (hAllowed : KeepsPlain pageSize x.1 (.writeAt off bytes pageErr))
    (hWrite : x.1.writeAt lib content pageSize off bytes pageErr = .ok f) :
    Represents lib content pageSize base (f, x.2.writeAt off bytes) := by
  obtain ⟨hIn, hFound, hEnd⟩ := hAllowed
  obtain ⟨hOld, hCache⟩ := hRep.view.pageForWrite hFound
  unfold BufferedFile.writeAt at hWrite
  dsimp only at hWrite
  split at hWrite
  · cases hWrite
  rename_i c hConn
  cases hWrite
  obtain ⟨-, -, rfl⟩ := writeAt_spec hConn
  have hImage := hRep.onImage
  refine ⟨hRep.separate.writeToBuffer .., ⟨hImage.writes, hCache, hImage.indexed, hImage.missing,
    hImage.hydrated⟩, ?_, ?_⟩
  · intro i
    refine (writeBytes_page hIn (hRep.byte i)).trans ?_
    rw [hRep.separate.lookup_write]
    split
    · rename_i hSame
      rw [if_pos (congrArg (· + 1) hSame), getD_some, hOld, hSame]
      rfl
    · rename_i hNe
      rw [if_neg (fun hEq => hNe (Nat.add_right_cancel hEq))]
      exact hRep.byte i
  · have hOff := Nat.div_add_mod off pageSize
    have hPgno : (off / pageSize + 1) * pageSize = pageSize * (off / pageSize) + pageSize := by
      rw [Nat.succ_mul, Nat.mul_comm]
    have hSize := hRep.size
    rw [fileSize_eq] at hEnd hSize ⊢
    rw [WriteBuffer.maxKey_write, Nat.max_assoc, ← Nat.mul_max_mul_right, hPgno]
    change (x.2.writeAt off bytes).size = max _ (max (maxKey x.1.buffer.entries)
      (maxKey (x.1.conn.pending ++ x.1.conn.index)) * pageSize)
    unfold PlainFile.writeAt
    dsimp only
    split
    · rename_i hNil
      rw [hNil, List.length_nil] at hEnd
      have hMod := Nat.mod_lt off hPage
      omega
    · omega

theorem Represents.truncate (hRep : Represents lib content pageSize base x)
    (hZero : ∀ j, lib.zero j = lib.zero 0) (hPage : 0 < pageSize) {size : Nat}
    (hAllowed : KeepsPlain pageSize x.1 (.truncate size))
    (hTruncate : x.1.truncate lib pageSize size = .ok f) :
    Represents lib content pageSize base (f, x.2.truncate (lib.zero 0) size) := by
  obtain ⟨hMod, hIndexed, hLast⟩ := hAllowed
  have hSize : size / pageSize * pageSize = size := Nat.div_mul_cancel (Nat.dvd_of_mod_eq_zero hMod)
  have hImage := hRep.onImage
  -- behind the new end there is no page of the index
  have hHole : ∀ p, ¬ p ≤ size / pageSize → base p = lib.zero := by
    intro p hBehind
    apply hImage.missing
    by_contra hSome
    have hKey := isSome_lookup_iff.mp (isSome_iff_ne_none.mpr hSome)
    exact hBehind (hIndexed p (by simp [keys] at hKey ⊢; exact Or.inr hKey))
  unfold BufferedFile.truncate at hTruncate
  split at hTruncate
  · cases hTruncate
  rename_i c hConn
  cases hTruncate
  obtain ⟨-, rfl⟩ := truncate_spec hConn
  refine ⟨hRep.separate.truncate _, ⟨hImage.writes, hImage.cached, hImage.indexed,
    hImage.missing, ?_⟩, ?_, ?_⟩
  · intro h p hHydrated hPos
    rw [hydrated_map (c := x.1.conn) (fun h => by split <;> rfl) rfl] at hHydrated
    obtain ⟨h', hOld, rfl⟩ := map_eq_some_iff.mp hHydrated
    rw [if_pos (complete_of_hydrated hOld)]
    have hResize := PagedFile.getD_resize lib.zero (size / pageSize) (p - 1) h'.file
    refine hResize.trans ?_
    split
    · exact hImage.hydrated h' p hOld hPos
    · exact (hHole p (by omega)).symm
  · intro i
    have hIn : i < size ↔ i / pageSize + 1 ≤ size / pageSize := by
      rw [Nat.succ_le_iff, Nat.div_lt_iff_lt_mul hPage, hSize]
    dsimp only [PlainFile.truncate]
    rw [WriteBuffer.lookup_entries_truncate]
    simp only [hIn]
    split
    · exact hRep.byte i
    · rename_i hBehind
      rw [getD_none, hHole _ hBehind]
      exact (hZero _).symm
  · rw [fileSize_eq]
    refine hSize.symm.trans (congrArg (· * pageSize) ?_)
    have hKeys : ∀ p, p ∈ keys (x.1.buffer.truncate (size / pageSize)).entries ↔
      p ≤ size / pageSize ∧ p ∈ keys x.1.buffer.entries := by
      intro p
      rw [← isSome_lookup_iff, ← isSome_lookup_iff, WriteBuffer.lookup_entries_truncate]
      by_cases hLe : p ≤ size / pageSize
      · rw [if_pos hLe, and_iff_right hLe]
      · rw [if_neg hLe]
        exact ⟨fun hSome => absurd hSome Bool.false_ne_true, fun hKey => absurd hKey.1 hLe⟩
    apply Nat.le_antisymm
    · rcases hLast with rfl | hDirty | hIndex
      · simp
      · have hLe := le_maxKey ((hKeys _).mpr ⟨Nat.le_refl _, hDirty⟩)
        exact Nat.le_trans hLe (Nat.le_max_left _ _)
      · exact Nat.le_trans (le_maxKey hIndex) (Nat.le_max_right _ _)
    · apply Nat.max_le.mpr
      exact ⟨maxKey_le_iff.mpr fun p hKey => ((hKeys p).mp hKey).1, maxKey_le_iff.mpr hIndexed⟩

theorem Represents.step (hRep : Represents lib content pageSize base x)
    (hZero : ∀ j, lib.zero j = lib.zero 0) (hPage : 0 < pageSize)
    {op : Op B} (hAllowed : KeepsPlain pageSize x.1 op) (hStep : Step lib content pageSize x op y) :
    Represents lib content pageSize base y := by
  have hImage := hRep.onImage
  cases hStep with
  | readAt hRead =>
    unfold BufferedFile.readAt at hRead
    split at hRead
    · cases hRead
    rename_i page c hConn
    cases hRead
    obtain ⟨-, cache, rfl, hCache⟩ := hRep.view.readAt (Nat.succ_pos _) hConn
    exact ⟨hRep.separate, ⟨hImage.writes, hCache, hImage.indexed, hImage.missing,
      hImage.hydrated⟩, hRep.byte, hRep.size⟩
  | writeAt hWrite => exact hRep.writeAt hPage hAllowed hWrite
  | truncate hTruncate => exact hRep.truncate hZero hPage hAllowed hTruncate
  | evict pgno =>
    refine ⟨hRep.separate, ⟨hImage.writes, ?_, hImage.indexed, hImage.missing, hImage.hydrated⟩,
      hRep.byte, hRep.size⟩
    intro p d hLookup
    simp only [VFSConn.evict, lookup_restrict] at hLookup
    split at hLookup
    · exact hImage.cached p d hLookup
    · cases hLookup

end BufferedFile

-- Files That Agree

open BufferedFile PageHistory

theorem unsynced_writes_plain
    {lib : LtxLibrary (Nat → B)}
    {content : PageElem → Nat → Nat → B}
    {pageSize : Nat}
    (hPage : 0 < pageSize)
    (hZero : ∀ j, lib.zero j = lib.zero 0)
    {c : VFSConn (Nat → B)}
    {base : Nat → Nat → B}
    (hBase : c.OnImage lib content base)
    {x : BufferedFile B × PlainFile B}
    (hRun :
      Run lib content pageSize
        (⟨c, [], fun _ => lib.zero, 0⟩,
          ⟨fun i => base (i / pageSize + 1) (i % pageSize),
            c.toVFSFile.fileSize pageSize⟩) x) :
    (∀ off len pageErr noise bytes f,
      off % pageSize + len ≤ pageSize →
      x.1.readAt lib content pageSize off len pageErr
        noise = .ok (bytes, f) →
      bytes.length = len ∧
      ∀ k,
        k < len → ¬ (off = 0 ∧ k ∈ pretended) →
        bytes[k]? = some (x.2.byte (off + k))) ∧
    x.1.fileSize pageSize = x.2.size := by
  have hRep : Represents lib content pageSize base x := by
    induction hRun with
    | refl => exact ⟨⟨nofun, nofun⟩, hBase, fun _ => rfl, rfl⟩
    | tail _ hLast ih =>
      obtain ⟨op, hAllowed, hStep⟩ := hLast
      exact ih.step hZero hPage hAllowed hStep
  refine ⟨?_, hRep.size.symm⟩
  intro off len pageErr noise bytes f hIn hRead
  unfold BufferedFile.readAt at hRead
  split at hRead
  · cases hRead
  rename_i page c' hConn
  cases hRead
  obtain ⟨rfl, -⟩ := hRep.view.readAt (Nat.succ_pos _) hConn
  refine ⟨by simp, fun k hLt hReal => ?_⟩
  have hPlace : off + k = pageSize * (off / pageSize) + (off % pageSize + k) := by
    rw [← Nat.add_assoc, Nat.div_add_mod]
  have hDiv : (off + k) / pageSize = off / pageSize := by
    have hZero : (off % pageSize + k) / pageSize = 0 := Nat.div_eq_of_lt (by omega)
    rw [hPlace, Nat.mul_add_div hPage, hZero, Nat.add_zero]
  have hMod : (off + k) % pageSize = off % pageSize + k := by
    rw [hPlace, Nat.mul_add_mod, Nat.mod_eq_of_lt (by omega)]
  rw [hRep.byte, hDiv, hMod]
  simp [hLt, hReal, BufferedFile.view]

/- Pages of four bytes in a replica with one page. -/
def byteLibrary : LtxLibrary (Nat → Nat) where
  zero _ := 0
  lockPgno := 262145
  compact inputs := .ok (stack inputs)
  decodeDatabaseTo file := .ok (image (fun _ => 0) file)
  compact_ok _ _ hOk := (Except.ok.inj hOk).symm
  decode_ok _ _ _ hOk := (Except.ok.inj hOk).symm

def onePageFile : VFSConn (Nat → Nat) :=
  { new true with index := [(1, ⟨0, 1, 1⟩)] }

def sevens (p : Nat) (_ : Nat) : Nat :=
  if p = 1 then 7 else 0

theorem onePageFile_onImage : onePageFile.OnImage byteLibrary (fun _ => sevens) sevens where
  writes := rfl
  cached := nofun
  indexed _ _ _ := rfl
  missing p hNone := by
    have hNe : p ≠ 1 := fun hEq => by simp [hEq, onePageFile] at hNone
    exact funext fun _ => if_neg hNe
  hydrated := nofun

def sevensFile : PlainFile Nat :=
  ⟨fun i => sevens (i / 4 + 1) (i % 4), 4⟩

/- The bytes around the written one are fetched and kept. -/
theorem fetched_page_kept :
    ∃ f f',
      BufferedFile.writeAt byteLibrary (fun _ => sevens) 4 1
        [9] (fun _ _ => none)
        ⟨onePageFile, [], fun _ _ => 0, 0⟩ = .ok f ∧
      f.readAt byteLibrary (fun _ => sevens) 4 0 4
        (fun _ _ => none) (fun _ => 0) =
        .ok ([7, 9, 7, 7], f') ∧
      (∀ k,
        k < 4 → ¬ (0 = 0 ∧ k ∈ pretended) →
        [7, 9, 7, 7][k]? =
          some ((sevensFile.writeAt 1 [9]).byte (0 + k))) ∧
      f.fileSize 4 = (sevensFile.writeAt 1 [9]).size := by
  have hRun : Run byteLibrary (fun _ => sevens) 4
    (⟨onePageFile, [], fun _ => byteLibrary.zero, 0⟩,
      sevensFile) _ :=
    .single ⟨.writeAt 1 [9] (fun _ _ => none),
      ⟨by decide, fun _ _ _ _ => rfl, Or.inl (by decide)⟩,
      .writeAt rfl⟩
  have hPlain := unsynced_writes_plain (by decide)
    (fun _ => rfl) onePageFile_onImage hRun
  refine ⟨_, _, rfl, rfl, ?_, hPlain.2⟩
  exact (hPlain.1 0 4 (fun _ _ => none) (fun _ => 0)
    [7, 9, 7, 7] _ (by decide) rfl).2

/- The write succeeds, and the first byte is lost. -/
theorem failed_fetch_zeroes_page :
    ∃ f f',
      onePageFile.OnImage byteLibrary (fun _ => sevens)
        sevens ∧
      BufferedFile.writeAt byteLibrary (fun _ => sevens) 4 1
        [9] (fun _ _ => some (.text "connection reset"))
        ⟨onePageFile, [], fun _ _ => 0, 0⟩ = .ok f ∧
      f.readAt byteLibrary (fun _ => sevens) 4 0 1
        (fun _ _ => none) (fun _ => 0) = .ok ([0], f') ∧
      (sevensFile.writeAt 1 [9]).byte 0 = 7 :=
  ⟨_, _, onePageFile_onImage, rfl, rfl, rfl⟩

end Replicate
