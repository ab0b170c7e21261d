import Mathlib.Data.Prod.Lex
import FortranTokens.Proofs.LineLookup
import FortranTokens.Proofs.Slices

/-!
# The order of lines and columns

One character more leads to the start of the next line or to the next column (`behind_snoc`), so
what stands behind a longer text has a larger line, or the same line and a larger column.  Places in
a source are therefore in the same order by their lines and columns as by their offsets, as far as
words can count these (`LineTable.lineColumnAt_ordered`).
-/

namespace FortranTokens

open Text (byteSize bytes IsBoundary)

namespace LineTable

variable {source text : List Char} {a b : UInt32} {p q : ℕ ×ₗ ℕ}

theorem behind_snoc (text : List Char) (c : Char) :
    behind (text ++ [c]) =
      if c = '\n' then ((behind text).1 + 1, 1) else ((behind text).1, (behind text).2 + 1) := by
  unfold behind
  rw [List.rtakeWhile_concat]
  by_cases hc : c = '\n'
  · subst hc
    rw [Text.bytes_append, Text.bytes_newline, List.count_append]
    simp
  · have hother : '\n' ∉ [c] := by simpa using Ne.symm hc
    rw [Text.count_newline_append text hother]
    simp [hc]

theorem behind_lt_snoc (text : List Char) (c : Char) :
    toLex (behind text) < toLex (behind (text ++ [c])) := by
  rw [behind_snoc, Prod.Lex.toLex_lt_toLex]
  split
  · exact .inl (Nat.lt_succ_self _)
  · exact .inr ⟨rfl, Nat.lt_succ_self _⟩

theorem behind_lt_append {more : List Char} (h : more ≠ []) :
    toLex (behind text) < toLex (behind (text ++ more)) := by
  induction more using List.reverseRecOn with
  | nil => exact absurd rfl h
  | append_singleton more c ih =>
    rw [← List.append_assoc]
    rcases eq_or_ne more [] with rfl | hne
    · rw [List.append_nil]
      exact behind_lt_snoc text c
    · exact (ih hne).trans (behind_lt_snoc (text ++ more) c)

/-- An offset of a source as its line and column, the line first. -/
def placeAt (source : List Char) (offset : UInt32) : Except Fault (ℕ ×ₗ ℕ) :=
  ((ofSource source).lineColumnAt source offset).map fun (line, column) =>
    toLex (line.toNat, column.toNat)

theorem placeAt_of_ok {line column : UInt32}
    (h : (ofSource source).lineColumnAt source a = .ok (line, column)) :
    placeAt source a = .ok (toLex (line.toNat, column.toNat)) := by
  unfold placeAt
  rw [h]
  rfl

theorem placeAt_of_error {e : Fault}
    (h : (ofSource source).lineColumnAt source a = .error e) : placeAt source a = .error e := by
  unfold placeAt
  rw [h]
  rfl

theorem exists_lineColumnAt_of_placeAt (h : placeAt source a = .ok p) : ∃ line column,
    (ofSource source).lineColumnAt source a = .ok (line, column) ∧
      p = toLex (line.toNat, column.toNat) := by
  rcases hplace : (ofSource source).lineColumnAt source a with e | ⟨line, column⟩
  · rw [placeAt_of_error hplace] at h
    cases h
  · rw [placeAt_of_ok hplace] at h
    exact ⟨line, column, rfl, (Except.ok.inj h).symm⟩

theorem min_of_boundary {n : Nat} (h : IsBoundary source n) : n = min n (byteSize source) :=
  (Nat.min_eq_left h.le_byteSize).symm

section

variable (hsize : byteSize source < UInt32.size)

include hsize

theorem exists_placeAt_iff (ha : IsBoundary source a.toNat) :
    (∃ p, placeAt source a = .ok p) ↔
      ¬Filled (· = '\n') source a ∧ ¬Filled (· ≠ '\n') source a := by
  have ⟨front, back, h, hfront⟩ := ha
  rw [← exists_lineColumnAt_iff hsize h (hfront.trans (min_of_boundary ha))]
  constructor
  · rintro ⟨p, hp⟩
    obtain ⟨line, column, hplace, -⟩ := exists_lineColumnAt_of_placeAt hp
    exact ⟨line, column, hplace⟩
  · rintro ⟨line, column, hplace⟩
    exact ⟨_, placeAt_of_ok hplace⟩

theorem placeAt_of_filled (ha : IsBoundary source a.toNat)
    (h : Filled (· = '\n') source a ∨ Filled (· ≠ '\n') source a) :
    placeAt source a = .error .sumTooLarge := by
  have ⟨front, back, hsource, hfront⟩ := ha
  have hend := hfront.trans (min_of_boundary ha)
  obtain ⟨hnewlines, hothers⟩ := behind_eq_size_iff hsize hsource hend
  exact placeAt_of_error
    (lineColumnAt_eq_error hsize hsource hend (h.imp hnewlines.2 hothers.2))

/-- The numbers of a place are those of the text before it. -/
theorem eq_behind_of_placeAt {front back : List Char} (h : source = front ++ back)
    (hfront : byteSize front = min a.toNat (byteSize source)) (hp : placeAt source a = .ok p) :
    p = toLex (behind front) := by
  obtain ⟨line, column, hplace, rfl⟩ := exists_lineColumnAt_of_placeAt hp
  obtain ⟨hline, hcolumn⟩ := (lineColumnAt_eq_ok_iff hsize h hfront).1 hplace
  rw [hline, hcolumn]

section

variable (ha : IsBoundary source a.toNat) (hb : IsBoundary source b.toNat)
  (hp : placeAt source a = .ok p) (hq : placeAt source b = .ok q)

include ha hb hp hq

theorem placeAt_lt (hab : a.toNat < b.toNat) : p < q := by
  obtain ⟨front, text, back, hsource, hfront, htext⟩ := Text.exists_between ha hb hab.le
  have hne : text ≠ [] := by
    rintro rfl
    rw [hfront, Text.byteSize_nil, Nat.add_zero] at htext
    exact Nat.ne_of_lt hab htext
  have hmore : source = front ++ text ++ back := by rw [hsource, List.append_assoc]
  rw [eq_behind_of_placeAt hsize hsource (hfront.trans (min_of_boundary ha)) hp,
    eq_behind_of_placeAt hsize hmore
      ((Text.byteSize_append _ _).trans (htext.trans (min_of_boundary hb))) hq]
  exact behind_lt_append hne

theorem placeAt_le_iff : p ≤ q ↔ a ≤ b := by
  rw [UInt32.le_iff_toNat_le]
  rcases Nat.lt_trichotomy a.toNat b.toNat with hlt | heq | hgt
  · exact iff_of_true (placeAt_lt hsize ha hb hp hq hlt).le hlt.le
  · obtain rfl : a = b := UInt32.toNat_inj.1 heq
    obtain rfl : p = q := Except.ok.inj (hp.symm.trans hq)
    exact iff_of_true le_rfl le_rfl
  · exact iff_of_false (placeAt_lt hsize hb ha hq hp hgt).not_ge hgt.not_ge

end

end

/-- The place of a later offset is later: on a later line, or further on in the same line.  The one
exception is the end of a source with as many characters as a word can count, if these are all
newlines or none of them is: it has no place.  No two offsets have one place, and whatever has
places is sorted by them as by its offsets. -/
theorem lineColumnAt_ordered (source : List Char) (hsize : byteSize source < UInt32.size) :
    (∀ a b, IsBoundary source a.toNat → IsBoundary source b.toNat → a < b →
      ((∃ p q, placeAt source a = .ok p ∧ placeAt source b = .ok q ∧ p < q) ↔
        ¬Filled (· = '\n') source b ∧ ¬Filled (· ≠ '\n') source b) ∧
      (Filled (· = '\n') source b ∨ Filled (· ≠ '\n') source b →
        placeAt source b = .error .sumTooLarge)) ∧
    (∀ a b p, IsBoundary source a.toNat → IsBoundary source b.toNat →
      placeAt source a = .ok p → placeAt source b = .ok p → a = b) ∧
    ∀ {α : Type} (items : List α) (offset : α → UInt32) (place : α → ℕ ×ₗ ℕ),
      (∀ x ∈ items, IsBoundary source (offset x).toNat ∧
        placeAt source (offset x) = .ok (place x)) →
      items.mergeSort (fun x y => offset x ≤ offset y) =
        items.mergeSort fun x y => place x ≤ place y := by
  refine ⟨fun a b ha hb hab => ⟨?_, placeAt_of_filled hsize hb⟩,
    fun a b p ha hb hp hq => ?_, fun items offset place h => ?_⟩
  · -- An offset before another one is not the last one, so that it has a place in any case.
    have hlast (c : Char → Prop) : ¬Filled c source a := fun hfilled => by
      have hend := hfilled.offset
      have hword : b.toNat < UInt32.size := b.toNat_lt
      have hlt : a.toNat < b.toNat := hab
      omega
    rw [← exists_placeAt_iff hsize hb]
    constructor
    · rintro ⟨p, q, -, hq, -⟩
      exact ⟨q, hq⟩
    · rintro ⟨q, hq⟩
      obtain ⟨p, hp⟩ := (exists_placeAt_iff hsize ha).2 ⟨hlast _, hlast _⟩
      exact ⟨p, q, hp, hq, placeAt_lt hsize ha hb hp hq hab⟩
  · have hle := (placeAt_le_iff hsize ha hb hp hq).1 le_rfl
    exact UInt32.le_antisymm hle ((placeAt_le_iff hsize hb ha hq hp).1 le_rfl)
  · have hsame := List.map_mergeSort (f := id) (l := items)
      (r := fun x y => offset x ≤ offset y) (s := fun x y => place x ≤ place y)
      fun x hx y hy => decide_eq_decide.2
        (placeAt_le_iff hsize (h x hx).1 (h y hy).1 (h x hx).2 (h y hy).2).symm
    rwa [List.map_id, List.map_id] at hsame

/-- A newline, the empty line behind it, a wide character and what stands behind it. -/
theorem places_in_order :
    let source := ['é', '\n', '\n', 'a', '😀', 'b']
    let items : List (UInt32 × (ℕ ×ₗ ℕ)) :=
      [(9, toLex (3, 3)), (3, toLex (2, 1)), (5, toLex (3, 2)), (2, toLex (1, 2))]
    byteSize source < UInt32.size ∧
      (∀ x ∈ items, IsBoundary source x.1.toNat ∧ placeAt source x.1 = .ok x.2) ∧
      (∃ p q, placeAt source 2 = .ok p ∧ placeAt source 3 = .ok q ∧ p < q) ∧
      (∃ p q, placeAt source 5 = .ok p ∧ placeAt source 9 = .ok q ∧ p < q) ∧
      (items.mergeSort fun x y => x.2 ≤ y.2).map Prod.fst = [2, 3, 5, 9] := by
  intro source items
  have hsize : byteSize source < UInt32.size := by decide +kernel
  have hshort (p : Char → Prop) (offset : UInt32) : ¬Filled p source offset := fun hfilled =>
    absurd hfilled.length (by decide)
  have hplace (offset line column : UInt32) (front back : List Char) (h : source = front ++ back)
      (hfront : byteSize front = offset.toNat)
      (hbehind : line.toNat = (behind front).1 ∧ column.toNat = (behind front).2) :
      IsBoundary source offset.toNat ∧
        placeAt source offset = .ok (toLex (line.toNat, column.toNat)) := by
    have hboundary : IsBoundary source offset.toNat := ⟨front, back, h, hfront⟩
    exact ⟨hboundary, placeAt_of_ok
      ((lineColumnAt_eq_ok_iff hsize h (hfront.trans (min_of_boundary hboundary))).2 hbehind)⟩
  have h2 := hplace 2 1 2 ['é'] _ rfl (by decide +kernel) (by decide +kernel)
  have h3 := hplace 3 2 1 ['é', '\n'] _ rfl (by decide +kernel) (by decide +kernel)
  have h5 := hplace 5 3 2 ['é', '\n', '\n', 'a'] _ rfl (by decide +kernel) (by decide +kernel)
  have h9 := hplace 9 3 3 ['é', '\n', '\n', 'a', '😀'] _ rfl (by decide +kernel)
    (by decide +kernel)
  have hitems : ∀ x ∈ items, IsBoundary source x.1.toNat ∧ placeAt source x.1 = .ok x.2 := by
    simp only [items, List.forall_mem_cons]
    exact ⟨h9, h3, h5, h2, List.forall_mem_nil _⟩
  obtain ⟨hlt, -, hsort⟩ := lineColumnAt_ordered source hsize
  refine ⟨hsize, hitems, (hlt 2 3 h2.1 h3.1 (by decide)).1.2 ⟨hshort _ _, hshort _ _⟩,
    (hlt 5 9 h5.1 h9.1 (by decide)).1.2 ⟨hshort _ _, hshort _ _⟩, ?_⟩
  rw [← hsort items Prod.fst Prod.snd hitems]
  simp [items, List.mergeSort, List.MergeSort.Internal.splitInTwo]

theorem behind_replicate {c : Char} (hc : c ≠ '\n') (n : Nat) :
    behind (List.replicate n c) = (1, n + 1) := by
  have hnone : '\n' ∉ List.replicate n c := fun h => hc (List.eq_of_mem_replicate h).symm
  have hself : (List.replicate n c).rtakeWhile (· ≠ '\n') = List.replicate n c :=
    List.rtakeWhile_eq_self_iff.2 fun d hd => by simpa [List.eq_of_mem_replicate hd] using hc
  rw [behind, Text.count_newline_of_not_mem hnone, hself, List.length_replicate]

/-- As many letters as a word can count: the place behind the last one has no column. -/
theorem last_column_too_large :
    let source := List.replicate 4294967295 'a'
    let a : UInt32 := 4294967294
    let b : UInt32 := 4294967295
    byteSize source < UInt32.size ∧
      IsBoundary source a.toNat ∧ IsBoundary source b.toNat ∧ a < b ∧
      placeAt source a = .ok (toLex (1, 4294967295)) ∧ placeAt source b = .error .sumTooLarge ∧
      ¬∃ p q, placeAt source a = .ok p ∧ placeAt source b = .ok q ∧ p < q := by
  intro source a b
  have hbytes : byteSize source = b.toNat := byteSize_replicate rfl _
  have hfront : byteSize (List.replicate 4294967294 'a') = a.toNat := byteSize_replicate rfl _
  have hsize : byteSize source < UInt32.size := hbytes ▸ b.toNat_lt
  have hsnoc : source = List.replicate 4294967294 'a' ++ ['a'] := List.replicate_succ'
  have hbefore : IsBoundary source a.toNat := ⟨_, _, hsnoc, hfront⟩
  have hlast : IsBoundary source b.toNat := ⟨source, [], (List.append_nil _).symm, hbytes⟩
  have hlookup : (ofSource source).lineColumnAt source a = .ok (1, 4294967295) := by
    rw [lineColumnAt_eq_ok_iff hsize hsnoc (hfront.trans (min_of_boundary hbefore)),
      behind_replicate (by decide : 'a' ≠ '\n')]
    exact ⟨rfl, rfl⟩
  have hfilled : Filled (· ≠ '\n') source b :=
    filled_replicate (by decide : 'a' ≠ '\n') rfl rfl
  have hnone : placeAt source b = .error .sumTooLarge :=
    placeAt_of_filled hsize hlast (.inr hfilled)
  refine ⟨hsize, hbefore, hlast, by decide, placeAt_of_ok hlookup, hnone, ?_⟩
  rintro ⟨p, q, -, hq, -⟩
  rw [hnone] at hq
  cases hq

end LineTable

end FortranTokens
