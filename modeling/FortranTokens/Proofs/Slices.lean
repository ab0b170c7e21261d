import FortranTokens.Cursor.Walk
import FortranTokens.Proofs.Frame

/-!
# Slices

A text can be cut at its boundaries and nowhere else (`Text.between?_eq_some_iff`), so two slices
that meet at a boundary make up one slice, and a slice with another end is empty.  A walk that never
returns to a saved copy only reads on, whichever moves it makes, and what it read is the text that
reading the characters one by one would give (`Cursor.readTo_of_ahead`).  Cut out of the source by
its offsets, this text is the same (`Walk.slices_of_run`).
-/

namespace FortranTokens

open Text (byteSize IsBoundary)

namespace Text

variable {cs front back text : List Char} {i j n start stop : Nat}

/-! ## Cutting at boundaries -/

theorem IsBoundary.le_byteSize (h : IsBoundary cs n) : n ≤ byteSize cs := by
  obtain ⟨front, back, rfl, rfl⟩ := h
  rw [byteSize_append]
  exact Nat.le_add_right _ _

theorem append_of_splitAtByte? (h : splitAtByte? n cs = some (front, back)) :
    cs = front ++ back ∧ byteSize front = n := by
  fun_induction splitAtByte? n cs generalizing front back with
  | case1 cs =>
    cases h
    exact ⟨rfl, rfl⟩
  | case2 n => cases h
  | case3 n c cs hc ih =>
    obtain ⟨⟨front', back'⟩, hsplit, hcons⟩ := Option.map_eq_some_iff.1 h
    cases hcons
    obtain ⟨rfl, hsize⟩ := ih hsplit
    refine ⟨rfl, ?_⟩
    rw [byteSize_cons, hsize]
    omega
  | case4 n c cs hc => cases h

/-- A text is cut out where whole characters stand before, within and after it. -/
theorem between?_eq_some_iff :
    between? start stop cs = some text ↔
      ∃ front back, cs = front ++ (text ++ back) ∧ byteSize front = start ∧
        byteSize front + byteSize text = stop := by
  constructor
  · intro h
    unfold between? at h
    split at h
    · obtain ⟨⟨front, rest⟩, hfront, h⟩ := Option.bind_eq_some_iff.1 h
      obtain ⟨⟨text', back⟩, htext, h⟩ := Option.bind_eq_some_iff.1 h
      cases h
      obtain ⟨rfl, hstart⟩ := append_of_splitAtByte? hfront
      obtain ⟨rfl, hstop⟩ := append_of_splitAtByte? htext
      exact ⟨front, back, rfl, hstart, by omega⟩
    · cases h
  · rintro ⟨front, back, rfl, rfl, rfl⟩
    exact between?_append front text back

theorem between?_eq_none (h : ¬IsBoundary cs start ∨ ¬IsBoundary cs stop) :
    between? start stop cs = none := by
  rw [Option.eq_none_iff_forall_ne_some]
  intro text htext
  obtain ⟨front, back, rfl, rfl, rfl⟩ := between?_eq_some_iff.1 htext
  rcases h with h | h
  · exact h ⟨front, text ++ back, rfl, rfl⟩
  · exact h ⟨front ++ text, back, (List.append_assoc _ _ _).symm, byteSize_append _ _⟩

/-- Whole characters stand between two boundaries. -/
theorem exists_between (hi : IsBoundary cs i) (hj : IsBoundary cs j) (hij : i ≤ j) :
    ∃ front text back, cs = front ++ (text ++ back) ∧ byteSize front = i ∧
      byteSize front + byteSize text = j := by
  obtain ⟨front, rest, rfl, rfl⟩ := hi
  obtain ⟨front', back, hcs, rfl⟩ := hj
  rcases List.append_eq_append_iff.1 hcs with ⟨text, rfl, rfl⟩ | ⟨text, rfl, rfl⟩
  · exact ⟨front, text, back, rfl, rfl, (byteSize_append _ _).symm⟩
  · -- The second boundary is not before the first one, so nothing stands between them.
    rw [byteSize_append] at hij
    have htext : text = [] := eq_nil_of_byteSize_eq_zero (by omega)
    subst htext
    exact ⟨front', [], rest, by simp, by simp, by simp⟩

end Text

namespace Cursor

variable {c d : Cursor} {i j k : Nat}

theorem slice_of_append (c : Cursor) {front text back : List Char}
    (h : c.source = front ++ (text ++ back)) (hi : byteSize front = i)
    (hj : byteSize front + byteSize text = j) : c.slice i j = .ok (String.ofList text) := by
  have hij : i ≤ j := by omega
  unfold slice
  rw [if_pos hij, Text.between?_eq_some_iff.2 ⟨front, back, h, hi, hj⟩]
  rfl

/-- Two slices that meet at a boundary make up one slice. -/
theorem slice_append (c : Cursor) (hij : i ≤ j) (hjk : j ≤ k) (hi : IsBoundary c.source i)
    (hj : IsBoundary c.source j) (hk : IsBoundary c.source k) :
    ∃ s t, c.slice i j = .ok s ∧ c.slice j k = .ok t ∧ c.slice i k = .ok (s ++ t) := by
  obtain ⟨front, text, rest, hsource, rfl, rfl⟩ := Text.exists_between hi hj hij
  obtain ⟨front', text', back, hsource', hfront', rfl⟩ := Text.exists_between hj hk hjk
  -- Both ways to cut the source at `j` are the same.
  have hcut := Text.splitAtByte?_append front' (text' ++ back)
  rw [← hsource', hsource, hfront', ← Text.byteSize_append, ← List.append_assoc,
    Text.splitAtByte?_append] at hcut
  obtain ⟨rfl, rfl⟩ := Prod.mk.inj (Option.some.inj hcut)
  have hboth : c.source = front ++ ((text ++ text') ++ back) := by
    rw [hsource, List.append_assoc]
  refine ⟨String.ofList text, String.ofList text', c.slice_of_append hsource rfl rfl,
    c.slice_of_append hsource' hfront' rfl, ?_⟩
  rw [← String.ofList_append]
  refine c.slice_of_append hboth rfl ?_
  rw [Text.byteSize_append, Text.byteSize_append, Nat.add_assoc]

theorem slice_of_not_boundary (c : Cursor) (hij : i ≤ j)
    (h : ¬IsBoundary c.source i ∨ ¬IsBoundary c.source j) : c.slice i j = .ok "" := by
  unfold slice
  rw [if_pos hij, Text.between?_eq_none h]
  rfl

/-! ## Reading one by one -/

/-- The characters that are read one by one up to an offset, and the place reached. -/
def readTo (stop : Nat) (c : Cursor) : List Char × Cursor :=
  if c.offset < stop then
    match _h : c.bump with
    | none => ([], c)
    | some (ch, d) =>
      let (text, e) := d.readTo stop
      (ch :: text, e)
  else ([], c)
termination_by c.rest.length
decreasing_by
  rw [(bump_eq_some _h).1]
  exact Nat.lt_succ_self _

theorem readTo_offset (c : Cursor) : c.readTo c.offset = ([], c) := by
  rw [readTo, if_neg (Nat.lt_irrefl _)]

theorem readTo_of_bump {ch : Char} {stop : Nat} (hstop : c.offset < stop)
    (h : c.bump = some (ch, d)) :
    c.readTo stop = (ch :: (d.readTo stop).1, (d.readTo stop).2) := by
  rw [readTo, if_pos hstop]
  split
  · rename_i hnone
    rw [h] at hnone
    cases hnone
  · rename_i ch' d' hsome
    rw [h] at hsome
    cases hsome
    rfl

/-- Reading one by one gives the text between two places, and leads from the one to the other. -/
theorem readTo_of_append {text : List Char} (hrest : c.rest = text ++ d.rest)
    (hpast : d.past = text.reverse ++ c.past) : c.readTo d.offset = (text, d) := by
  induction text generalizing c with
  | nil =>
    obtain rfl : c = d := ext_sides hpast.symm hrest
    exact readTo_offset c
  | cons ch text ih =>
    have hbump := bump_of_cons hrest
    obtain ⟨hrest', hpast'⟩ := bump_eq_some hbump
    rw [hrest] at hrest'
    have hmore : (c.advance 1).rest = text ++ d.rest := (List.cons.inj hrest').2.symm
    have hbehind : d.past = text.reverse ++ (c.advance 1).past := by
      rw [hpast, hpast', List.reverse_cons, List.append_assoc]
      rfl
    have hlt : c.offset < d.offset :=
      Nat.lt_of_lt_of_le (offset_lt_of_bump hbump) (Ahead.offset_le ⟨text, hmore, hbehind⟩)
    rw [readTo_of_bump hlt hbump, ih hmore hbehind]

/-- What was read between two places is the slice between them. -/
theorem sliceFrom_of_ahead (h : Ahead c d) :
    (c.readTo d.offset).2 = d ∧
      d.sliceFrom c.offset = .ok (String.ofList (c.readTo d.offset).1) := by
  obtain ⟨text, hrest, hpast⟩ := h
  rw [readTo_of_append hrest hpast]
  exact ⟨rfl, sliceFrom_offset hpast⟩

end Cursor

/-! ## Walks that read on -/

namespace Walk

open Cursor (Ahead)

variable {w : Walk}

/-- Only a return to a saved copy leads back. -/
theorem ahead_step {step : Step} (h : ∀ i, step ≠ .load i) :
    w.cursor.Ahead (w.step step).2.cursor := by
  cases step with
  | current | sourceSize | save => exact .refl _
  | bump =>
    simp only [Walk.step]
    split
    · exact Cursor.ahead_of_bump (by assumption)
    · exact .refl _
  | slice start stop =>
    simp only [Walk.step]
    split <;> exact .refl _
  | sliceFrom start =>
    simp only [Walk.step]
    split <;> exact .refl _
  | eatWhile p => exact Cursor.ahead_eatWhile p _
  | eatBlanks => exact Cursor.ahead_eatWhile _ _
  | eatPast goal =>
    simp only [Walk.step]
    split
    · exact Cursor.ahead_of_eatPast (by assumption)
    · exact .refl _
  | load i => exact absurd rfl (h i)

theorem ahead_run {steps : List Step} (h : ∀ i, .load i ∉ steps) :
    w.cursor.Ahead (w.run steps).cursor := by
  induction steps generalizing w with
  | nil => exact .refl _
  | cons step steps ih =>
    have hstep : ∀ i, step ≠ .load i := fun i heq => h i (heq ▸ List.mem_cons_self)
    exact (ahead_step hstep).trans (ih fun i hi => h i (List.mem_cons_of_mem _ hi))

/-- However a walk moved on from `c`, the slice from there to its place is what reading one by one
gives.  Slices that meet at a boundary make up one slice, and a slice is empty when one of its ends
is past the source or no boundary. -/
theorem slices_of_run (c : Cursor) (steps : List Step) (hsteps : ∀ i, .load i ∉ steps) :
    let d := ((ofCursor c).run steps).cursor
    (c.readTo d.offset).2 = d ∧
      d.sliceFrom c.offset = .ok (String.ofList (c.readTo d.offset).1) ∧
      (∀ i j k, i ≤ j → j ≤ k → IsBoundary c.source i → IsBoundary c.source j →
        IsBoundary c.source k →
        ∃ s t, d.slice i j = .ok s ∧ d.slice j k = .ok t ∧ d.slice i k = .ok (s ++ t)) ∧
      ∀ i j, i ≤ j →
        (byteSize c.source < i ∨ byteSize c.source < j ∨ ¬IsBoundary c.source i ∨
          ¬IsBoundary c.source j) →
        d.slice i j = .ok "" := by
  intro d
  have hahead : c.Ahead d := ahead_run (w := ofCursor c) hsteps
  obtain ⟨hplace, htext⟩ := Cursor.sliceFrom_of_ahead hahead
  rw [← hahead.source_eq]
  refine ⟨hplace, htext, fun i j k hij hjk => d.slice_append hij hjk, fun i j hij h => ?_⟩
  apply d.slice_of_not_boundary hij
  rcases h with h | h | h
  · exact .inl fun hi => Nat.not_lt.2 hi.le_byteSize h
  · exact .inr fun hj => Nat.not_lt.2 hj.le_byteSize h
  · exact h

/-- Blanks, a character of four bytes and a semicolon read from behind a character of two bytes;
no slice starts within the latter. -/
theorem slices_between_wide_characters :
    let c := (State.start ['é', ' ', '\t', '😀', ';', 'x'] {} (by decide)).cursor.advance 1
    let steps : List Step := [.eatBlanks, .bump, .eatPast 59]
    let d := ((ofCursor c).run steps).cursor
    (∀ i, .load i ∉ steps) ∧ d.sliceFrom 2 = .ok " \t😀;" ∧
      (IsBoundary c.source 0 ∧ IsBoundary c.source 2 ∧ IsBoundary c.source 8) ∧
      (∃ s t, d.slice 0 2 = .ok s ∧ d.slice 2 8 = .ok t ∧ d.slice 0 8 = .ok (s ++ t)) ∧
      ¬IsBoundary c.source 1 ∧ d.slice 1 4 = .ok "" := by
  intro c steps d
  have hsteps : ∀ i, .load i ∉ steps := by simp [steps]
  have hsource : c.source = ['é', ' ', '\t', '😀', ';', 'x'] := by decide +kernel
  have hread : (c.readTo d.offset).1 = [' ', '\t', '😀', ';'] := by decide +kernel
  have h0 : IsBoundary c.source 0 := ⟨[], c.source, rfl, rfl⟩
  have h2 : IsBoundary c.source 2 := c.isBoundary_offset
  have h8 : IsBoundary c.source 8 := ⟨['é', ' ', '\t', '😀'], [';', 'x'], hsource, rfl⟩
  have h1 : ¬IsBoundary c.source 1 := by
    rintro ⟨front, back, happend, hsize⟩
    rw [hsource] at happend
    rcases front with _ | ⟨ch, front⟩
    · cases hsize
    · have hwide : 'é'.utf8Size + byteSize front = 1 := (List.cons.inj happend).1 ▸ hsize
      have htwo : 'é'.utf8Size = 2 := rfl
      omega
  obtain ⟨-, htext, happend, hempty⟩ := slices_of_run c steps hsteps
  rw [hread] at htext
  exact ⟨hsteps, htext, ⟨h0, h2, h8⟩, happend 0 2 8 (by decide) (by decide) h0 h2 h8, h1,
    hempty 1 4 (by decide) (.inr (.inr (.inl h1)))⟩

end Walk

end FortranTokens
