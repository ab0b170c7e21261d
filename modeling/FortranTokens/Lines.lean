import FortranTokens.Fault
import FortranTokens.Text

/-!
# Lines and columns

Messages carry byte offsets only.  A table of the offsets at which lines start turns an offset
into a line, found by binary search, and a column, counted in characters from the line's start.
Both are counted from one, and both are 32-bit words like the offsets.  Offsets and counts are cut
off to words as they are stored; one more than a count is a fault if no word is that large.
-/

namespace FortranTokens

/-- Where a word stands in an increasing array. -/
inductive Place where
  /-- It is the element at this index. -/
  | found (i : Nat)
  /-- It is no element, and this many elements are smaller. -/
  | gap (i : Nat)
  deriving DecidableEq, Repr

/-- Binary search for `x` among the elements at the indices from `lo` up to `hi`. -/
def Place.search (xs : Array UInt32) (x : UInt32) (lo hi : Nat) (h : hi ≤ xs.size) : Place :=
  if hlt : lo < hi then
    let mid := lo + (hi - lo) / 2
    have hmid : mid < xs.size := by omega
    if xs[mid] = x then .found mid
    else if xs[mid] < x then search xs x (mid + 1) hi h
    else search xs x lo mid (by omega)
  else .gap lo
termination_by hi - lo

/-- The byte offsets at which the lines of a source start, in increasing order. -/
structure LineTable where
  starts : Array UInt32
  deriving DecidableEq, Repr

namespace LineTable

/-- The table that knows of no line. -/
def empty : LineTable := ⟨#[]⟩

/-- The offsets just after the newline bytes of a text. -/
def newlineEnds (source : List Char) : List Nat :=
  (Text.bytes source).zipIdx.filterMap fun (byte, i) => if byte = 10 then some (i + 1) else none

/-- The table of a source: its start, and the offset after each newline. -/
def ofSource (source : List Char) : LineTable :=
  ⟨((0 :: newlineEnds source).map UInt32.ofNat).toArray⟩

/-- The number of lines. -/
def lineCount (t : LineTable) : Nat := t.starts.size

/-- The number, counted from one, of what comes after `n` others. -/
def ordinal (n : Nat) : Except Fault UInt32 :=
  let word := UInt32.ofNat n
  if word.toNat + 1 < UInt32.size then .ok (word + 1) else .error .sumTooLarge

theorem ordinal_eq_ok_iff {n : Nat} {w : UInt32} (h : n < UInt32.size) :
    ordinal n = .ok w ↔ w.toNat = n + 1 := by
  have hword : (UInt32.ofNat n).toNat = n := UInt32.toNat_ofNat_of_lt' h
  unfold ordinal
  simp only [hword]
  by_cases hn : n + 1 < UInt32.size
  · have hnext : (UInt32.ofNat n + 1).toNat = n + 1 := by
      rw [UInt32.toNat_add, hword, UInt32.toNat_one]
      exact Nat.mod_eq_of_lt hn
    rw [if_pos hn, Except.ok.injEq, ← UInt32.toNat_inj, hnext, eq_comm]
  · have hw : w.toNat < UInt32.size := w.toNat_lt
    rw [if_neg hn]
    exact ⟨nofun, fun heq => absurd (heq ▸ hw) hn⟩

theorem ordinal_eq_error {n : Nat} (h : n + 1 = UInt32.size) : ordinal n = .error .sumTooLarge := by
  have hword : (UInt32.ofNat n).toNat = n := UInt32.toNat_ofNat_of_lt' (h ▸ Nat.lt_succ_self n)
  unfold ordinal
  simp only [hword]
  exact if_neg (h ▸ Nat.lt_irrefl _)

theorem ordinal_cases (n : Nat) :
    ordinal n = .error .sumTooLarge ∨ ∃ w, ordinal n = .ok w := by
  unfold ordinal
  dsimp only
  split
  · exact .inr ⟨_, rfl⟩
  · exact .inl rfl

/-- The line in which an offset lies. -/
def lineAt (t : LineTable) (offset : UInt32) : Except Fault UInt32 :=
  match Place.search t.starts offset 0 t.starts.size (Nat.le_refl _) with
  | .found i => ordinal i
  | .gap i => ordinal (i - 1)

/-- The line and the column of an offset; an offset past the end counts as the end.  The column is
the first one when the text from the line's start to the offset cannot be cut out of the source. -/
def lineColumnAt (t : LineTable) (source : List Char) (offset : UInt32) :
    Except Fault (UInt32 × UInt32) := do
  let line ← t.lineAt offset
  let start := (t.starts[(line - 1).toNat]?).getD 0
  let stop := min offset.toNat (Text.byteSize source)
  let before := (Text.between? start.toNat stop source).getD []
  return (line, ← ordinal before.length)

end LineTable

end FortranTokens
