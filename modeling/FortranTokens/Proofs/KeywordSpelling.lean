import Mathlib.Data.List.Forall2
import FortranTokens.Keyword
import FortranTokens.Proofs.Characters
import FortranTokens.Proofs.Reading

/-!
# The spellings of a keyword

The spaces in the text of a keyword divide it into pieces.  `Keyword.Spelled` lists what spells
them: each piece in either letter case, and after each of them any number of blanks.  The pass over
the text of a keyword comes to the same as reading piece after piece (`blanks_then_spelling`), for
the character that it reads too many is the first one of the next piece.  So a keyword is present
exactly where the text after the blanks begins with a spelling of its pieces (`keyword_run`).
-/

namespace FortranTokens

/-! ## Letters up to case -/

namespace CharClass

/-- The capital and the small form of one letter. -/
def CasePair (capital small : Char) : Prop :=
  65 ≤ capital.toNat ∧ capital.toNat ≤ 90 ∧ small.toNat = capital.toNat + 32

/-- The same character, or the same letter in the other case. -/
def SameUpToCase (a b : Char) : Prop := a = b ∨ CasePair a b ∨ CasePair b a

theorem sameLetter_iff {a b : Char} : sameLetter a b ↔ SameUpToCase a b := by
  unfold sameLetter SameUpToCase CasePair
  rw [beq_iff_eq, ← Char.toNat_inj, ← Char.toNat_inj, toNat_toLower, toNat_toLower]
  split <;> split <;> omega

end CharClass

open CharClass

/-! ## Pieces and spellings -/

namespace Keyword

/-- The stretches of a text between its spaces, none of them empty. -/
def pieces (text : List Char) : List (List Char) := (text.splitOn ' ').filter fun piece => piece ≠ []

/-- `Spelled pieces text after` says that the text spells the pieces where `after` follows it: all
the blanks after each piece belong to it. -/
inductive Spelled : List (List Char) → List Char → List Char → Prop where
  /-- No piece at all. -/
  | done (after : List Char) : Spelled [] [] after
  /-- One piece and the blanks after it, and then more. -/
  | piece {want got blanks rest after : List Char} {more : List (List Char)}
      (same : List.Forall₂ SameUpToCase got want) (all : ∀ c ∈ blanks, isBlank c)
      (maximal : ∀ c ∈ (rest ++ after).head?, ¬isBlank c) (others : Spelled more rest after) :
      Spelled (want :: more) (got ++ (blanks ++ rest)) after

end Keyword

open Keyword

namespace Parser

variable {α : Type} {s e : State} {want : Char} {more : List Char}

/-! ## The pass over the text, one character at a time -/

theorem next_then_pastBlanks : (next >>= pastBlanks) = (do skipBlanks; next : Parser Char) := by
  funext s
  rw [bind_of_present (skipBlanks_apply s)]
  rcases hs : s.rest with _ | ⟨c, cs⟩
  · rw [bind_of_absent (next_of_nil hs)]
    exact (next_of_nil hs).symm
  · rw [bind_of_present (next_of_cons hs)]
    have hcs : (s.advance 1).rest = cs := State.rest_advance_of_cons hs
    unfold pastBlanks
    by_cases hc : isBlank c
    · rw [if_pos hc, bind_of_present (skipBlanks_apply _), hcs, State.advance_advance,
        List.takeWhile_cons_of_pos hc, List.length_cons, Nat.add_comm]
    · rw [if_neg hc, List.takeWhile_cons_of_neg hc]
      exact (next_of_cons hs).symm

theorem spelling_of_ne_space (pending : Option Char) (h : want ≠ ' ') :
    spelling pending (want :: more) = (do
      let got ← pending.elim next pure
      if sameLetter got want then spelling none more else absent) := by
  rw [spelling, if_neg fun hspace => h hspace.1]
  simp only [if_neg h]

theorem spelling_of_space_space :
    spelling none (' ' :: ' ' :: more) = spelling none (' ' :: more) := by
  rw [spelling, if_pos ⟨rfl, .inr rfl⟩]

/-- The character that was read in search of the end of the blanks is the one that would have been
read next. -/
theorem spelling_of_space (h : want ≠ ' ') :
    spelling none (' ' :: want :: more) = (do
      skipBlanks
      spelling none (want :: more)) := by
  have hspace : ¬(' ' = ' ' ∧ ((want :: more).head? = none ∨ (want :: more).head? = some ' ')) := by
    simp [h]
  rw [spelling, if_neg hspace, spelling_of_ne_space none h]
  simp only [if_true, spelling_of_ne_space _ h, Option.elim_none, Option.elim_some]
  show (next >>= fun got => pastBlanks got >>= _) = _
  rw [← bind_assoc, next_then_pastBlanks, bind_assoc]
  rfl

/-! ## Piece after piece -/

/-- Reads the characters of one piece, in either letter case. -/
def piece : List Char → Parser Unit
  | [] => pure ()
  | want :: more => do
    let got ← next
    if sameLetter got want then piece more else absent

/-- Reads pieces, and the blanks after each of them. -/
def spacedPieces : List (List Char) → Parser Unit
  | [] => pure ()
  | first :: more => do
    piece first
    skipBlanks
    spacedPieces more

theorem skipBlanks_of_not_blank (h : ∀ c ∈ s.rest.head?, ¬isBlank c) :
    skipBlanks s = (.present (), s) := by
  unfold skipBlanks
  rw [State.skipBlanks_of_not_blank h]

theorem skipBlanks_then_skipBlanks (p : Parser α) :
    (do skipBlanks; skipBlanks; p : Parser α) = (do skipBlanks; p) := by
  funext s
  rw [bind_of_present (skipBlanks_apply s), bind_of_present (skipBlanks_apply s),
    bind_of_present (skipBlanks_of_not_blank (not_blank_after_blanks s))]

theorem spelling_space_then_blanks (text : List Char) :
    (do spelling none (' ' :: text); skipBlanks : Parser Unit) = (do
      skipBlanks
      spelling none text
      skipBlanks) := by
  induction text with
  | nil => exact (skipBlanks_then_skipBlanks (pure ())).symm
  | cons c text ih =>
    by_cases hc : c = ' '
    · subst hc
      rw [spelling_of_space_space, ih, skipBlanks_then_skipBlanks]
    · rw [spelling_of_space hc, bind_assoc]

/-- By induction on the text: a character goes to the piece in front, and a space ends it. -/
theorem spelling_then_blanks (text : List Char) {first : List Char} {others : List (List Char)}
    (h : text.splitOn ' ' = first :: others) :
    (do spelling none text; skipBlanks : Parser Unit) = (do
      piece first
      skipBlanks
      spacedPieces (others.filter fun piece => piece ≠ [])) := by
  induction text generalizing first others with
  | nil =>
    cases h
    rfl
  | cons c text ih =>
    obtain ⟨front, back, hfront⟩ := List.exists_cons_of_ne_nil (List.splitOn_ne_nil ' ' text)
    rw [List.splitOn_eq_splitOnP, List.splitOnP_cons_eq_if_modifyHead,
      ← List.splitOn_eq_splitOnP, hfront] at h
    by_cases hc : c = ' '
    · subst hc
      cases h
      rw [spelling_space_then_blanks, ih hfront]
      rcases front with _ | ⟨d, front⟩
      · exact skipBlanks_then_skipBlanks _
      · rfl
    · rw [if_neg (by simpa using hc), List.modifyHead_cons] at h
      cases h
      rw [spelling_of_ne_space none hc]
      show ((next >>= _) >>= _) = ((next >>= _) >>= _)
      rw [bind_assoc, bind_assoc]
      congr 1
      funext got
      split
      · exact ih hfront
      · rfl

/-- The pass over a text comes to the same as reading its pieces. -/
theorem blanks_then_spelling (text : List Char) :
    (do skipBlanks; spelling none text; skipBlanks : Parser Unit) = (do
      skipBlanks
      spacedPieces (pieces text)) := by
  obtain ⟨first, others, h⟩ := List.exists_cons_of_ne_nil (List.splitOn_ne_nil ' ' text)
  rw [spelling_then_blanks text h]
  unfold pieces
  rw [h]
  rcases first with _ | ⟨c, first⟩
  · exact skipBlanks_then_skipBlanks _
  · rfl

/-! ## What pieces are read from -/

theorem piece_eq_present_iff {want : List Char} :
    piece want s = (.present (), e) ↔
      ∃ got after, s.rest = got ++ after ∧ List.Forall₂ SameUpToCase got want ∧
        e = s.advance got.length := by
  induction want generalizing s with
  | nil =>
    constructor
    · intro h
      cases h
      exact ⟨[], e.rest, rfl, .nil, rfl⟩
    · rintro ⟨got, after, -, hsame, rfl⟩
      cases hsame
      rfl
  | cons want more ih =>
    show (next >>= _) s = _ ↔ _
    rw [bind_eq_present_iff]
    constructor
    · rintro ⟨c, t, hnext, h⟩
      obtain ⟨⟨cs, hcs⟩, rfl⟩ := next_eq_present_iff.1 hnext
      by_cases hc : sameLetter c want
      · rw [if_pos hc] at h
        obtain ⟨got, after, hrest, hsame, rfl⟩ := ih.1 h
        rw [State.rest_advance_of_cons hcs] at hrest
        refine ⟨c :: got, after, ?_, .cons (sameLetter_iff.1 hc) hsame, ?_⟩
        · rw [hcs, hrest]
          rfl
        · rw [State.advance_advance, List.length_cons, Nat.add_comm]
      · rw [if_neg hc] at h
        cases h
    · rintro ⟨got, after, hrest, hsame, rfl⟩
      cases hsame with
      | @cons c _ got _ hc hsame =>
        refine ⟨c, s.advance 1, next_of_cons hrest, ?_⟩
        rw [if_pos (sameLetter_iff.2 hc), ih]
        refine ⟨got, after, State.rest_advance_of_cons hrest, hsame, ?_⟩
        rw [State.advance_advance, List.length_cons, Nat.add_comm]

theorem spacedPieces_eq_present_iff {pieces : List (List Char)} :
    spacedPieces pieces s = (.present (), e) ↔
      ∃ front after, s.rest = front ++ after ∧ Spelled pieces front after ∧
        e = s.advance front.length := by
  induction pieces generalizing s with
  | nil =>
    constructor
    · intro h
      cases h
      exact ⟨[], e.rest, rfl, .done _, rfl⟩
    · rintro ⟨front, after, -, h, rfl⟩
      cases h
      rfl
  | cons want more ih =>
    show (piece want >>= fun _ => skipBlanks >>= fun _ => spacedPieces more) s = _ ↔ _
    rw [bind_eq_present_iff]
    constructor
    · rintro ⟨⟨⟩, t, hpiece, h⟩
      obtain ⟨got, cs, hcs, hsame, rfl⟩ := piece_eq_present_iff.1 hpiece
      have hrest : (s.advance got.length).rest = cs := State.rest_advance_of_append hcs
      have hmaximal := not_blank_after_blanks (s.advance got.length)
      rw [bind_of_present (skipBlanks_apply _)] at h
      obtain ⟨rest, after, hafter, hothers, rfl⟩ := ih.1 h
      rw [hafter] at hmaximal
      rw [State.rest_advance_takeWhile, hrest] at hafter
      refine ⟨got ++ (cs.takeWhile isBlank ++ rest), after, ?_,
        .piece hsame (fun c hc => List.mem_takeWhile_imp hc) hmaximal hothers, ?_⟩
      · rw [hcs, List.append_assoc, List.append_assoc, ← hafter, List.takeWhile_append_dropWhile]
      · rw [hrest, State.advance_advance, State.advance_advance, List.length_append,
          List.length_append]
    · rintro ⟨front, after, hfront, h, rfl⟩
      cases h with
      | @piece _ got blanks rest _ _ same all maximal others =>
        rw [List.append_assoc, List.append_assoc] at hfront
        refine ⟨(), s.advance got.length, piece_eq_present_iff.2 ⟨got, _, hfront, same, rfl⟩, ?_⟩
        have hrest : (s.advance got.length).rest = blanks ++ (rest ++ after) :=
          State.rest_advance_of_append hfront
        rw [bind_of_present (skipBlanks_apply _), hrest, (takeWhile_append_of_maximal all maximal).1,
          ih]
        refine ⟨rest, after, State.rest_advance_of_append hrest, others, ?_⟩
        rw [State.advance_advance, State.advance_advance, List.length_append, List.length_append]

/-! ## Keywords -/

theorem quiet_piece : ∀ want, Quiet (piece want)
  | [] => quiet_pure _
  | _ :: more => quiet_next.bind fun _ => (quiet_piece more).ite quiet_absent

theorem quiet_spacedPieces : ∀ pieces, Quiet (spacedPieces pieces)
  | [] => quiet_pure _
  | first :: more => (quiet_piece first).bind fun _ => quiet_skipBlanks.bind fun _ =>
    quiet_spacedPieces more

/-- A keyword is its pieces, after the blanks; without them it is reported there. -/
theorem keyword_apply (text : String) (s : State) :
    keyword text s =
      orSay (s.location + (s.rest.takeWhile isBlank).length) (.expectedToken text)
        (spacedPieces (pieces text.toList)) (s.advance (s.rest.takeWhile isBlank).length) := by
  have hpass := congrFun (blanks_then_spelling text.toList) s
  rw [bind_of_present (skipBlanks_apply s), bind_of_present (skipBlanks_apply s)] at hpass
  unfold orSay
  rw [← hpass, ← State.location_advance_blanks, bind_apply]
  unfold keyword expecting
  rw [bind_of_present (skipBlanks_apply s), bind_apply, location_bind]
  unfold orSay
  rcases spelling none text.toList (s.advance (s.rest.takeWhile isBlank).length) with ⟨_ | _ | e, t⟩
  · rfl
  · rfl
  · rfl

/-- A keyword is present where its pieces are spelled, and otherwise it is reported where it should
have started. -/
theorem keyword_run (text : String) (s : State) :
    (∀ e, keyword text s = (.present (), e) ↔
      ∃ front after, s.rest.dropWhile isBlank = front ++ after ∧
        Spelled (pieces text.toList) front after ∧
        e = s.advance ((s.rest.takeWhile isBlank).length + front.length)) ∧
    ((∃ e, keyword text s = (.present (), e)) ∨
      ∃ n, keyword text s =
        (.absent, (s.advance n).report
          [.ofOffset (s.location + (s.rest.takeWhile isBlank).length) (.expectedToken text)])) := by
  rw [keyword_apply]
  constructor
  · intro e
    rw [orSay_eq_present_iff, spacedPieces_eq_present_iff, State.rest_advance_takeWhile]
    simp only [State.advance_advance]
  · obtain ⟨n, h | ⟨a, h⟩⟩ :=
      quiet_spacedPieces (pieces text.toList) (s.advance (s.rest.takeWhile isBlank).length)
    · rw [State.advance_advance] at h
      exact .inr ⟨_, orSay_of_absent _ _ h⟩
    · exact .inl ⟨_, orSay_eq_present_iff.2 h⟩

end Parser

end FortranTokens
