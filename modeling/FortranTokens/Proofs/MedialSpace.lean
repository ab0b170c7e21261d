import FortranTokens.Grammar.Basic
import FortranTokens.Proofs.Frame
import FortranTokens.Proofs.KeywordSpelling

/-!
# A space inside a keyword

A space inside a keyword divides it: its pieces are those before the space and those behind it.
Reading one keyword after another looks for blanks twice at the seam, once behind the first keyword
and once before the second, and the second time there are none.  So a keyword with a space inside is
read where the text before the space and the text behind it are read one after the other
(`Grammar.keyword_space_run`).
-/

namespace FortranTokens

namespace Keyword

theorem pieces_append_space (front back : List Char) :
    pieces (front ++ ' ' :: back) = pieces front ++ pieces back := by
  unfold pieces
  rw [← List.filter_append]
  exact congrArg _ (List.splitOnP_append_cons front back (beq_self_eq_true ' '))

theorem pieces_space (a b : String) :
    pieces (a ++ " " ++ b).toList = pieces a.toList ++ pieces b.toList := by
  rw [String.toList_append, String.toList_append, List.append_assoc]
  exact pieces_append_space a.toList b.toList

end Keyword

open Keyword

namespace Parser

variable {s e : State} {text : String}

theorem spacedPieces_append (front back : List (List Char)) :
    spacedPieces (front ++ back) = (do spacedPieces front; spacedPieces back) := by
  induction front with
  | nil => rfl
  | cons first front ih =>
    show (do piece first; skipBlanks; spacedPieces (front ++ back)) =
      (do (do piece first; skipBlanks; spacedPieces front); spacedPieces back)
    rw [ih, bind_assoc]
    simp only [bind_assoc]

/-- A keyword is present where its pieces are, after the blanks. -/
theorem keyword_eq_present_iff :
    keyword text s = (.present (), e) ↔
      (do skipBlanks; spacedPieces (pieces text.toList) : Parser Unit) s = (.present (), e) := by
  rw [keyword_apply, orSay_eq_present_iff, bind_of_present (skipBlanks_apply s)]

/-- Behind a keyword no blank is left. -/
theorem keyword_then_skipBlanks {α : Type} (text : String) (p : Parser α) :
    (do keyword text; skipBlanks; p : Parser α) = (do keyword text; p) := by
  unfold keyword
  simp only [bind_assoc]
  rw [skipBlanks_then_skipBlanks]

/-- Two keywords are present where all their pieces are, after the blanks. -/
theorem keyword_then_keyword_eq_present_iff (a b : String) :
    (do keyword a; keyword b : Parser Unit) s = (.present (), e) ↔
      (do skipBlanks; spacedPieces (pieces a.toList ++ pieces b.toList) : Parser Unit) s =
        (.present (), e) :=
  calc (do keyword a; keyword b : Parser Unit) s = (.present (), e)
      ↔ (do keyword a; skipBlanks; spacedPieces (pieces b.toList) : Parser Unit) s =
          (.present (), e) :=
        bind_eq_present_congr (fun _ _ => Iff.rfl) fun _ _ => keyword_eq_present_iff
    _ ↔ (do keyword a; spacedPieces (pieces b.toList) : Parser Unit) s = (.present (), e) := by
        rw [keyword_then_skipBlanks]
    _ ↔ (do (do skipBlanks; spacedPieces (pieces a.toList)); spacedPieces (pieces b.toList) :
          Parser Unit) s = (.present (), e) :=
        bind_eq_present_congr (fun _ _ => keyword_eq_present_iff) fun _ _ => Iff.rfl
    _ ↔ _ := by rw [bind_assoc, spacedPieces_append]

end Parser

namespace Grammar

open FortranTokens.Parser

/-- A keyword with a space inside is present where what stands before the space and then what stands
behind it is; both ways of reading end in the same state, and nothing is reported. -/
theorem keyword_space_run (a b : String) (s : State) :
    (∀ e, (keyword (a ++ " " ++ b)).run s = (.present (), e) ↔
      (seqRight (keyword a) (keyword b)).run s = (.present (), e)) ∧
    ∀ e, (keyword (a ++ " " ++ b)).run s = (.present (), e) → ∃ n, e = s.advance n := by
  have hone : ∀ e, Parser.keyword (a ++ " " ++ b) s = (.present (), e) ↔
      (do skipBlanks; spacedPieces (pieces a.toList ++ pieces b.toList) : Parser Unit) s =
        (.present (), e) := by
    intro e
    rw [keyword_eq_present_iff, pieces_space]
  refine ⟨fun e => (hone e).trans (keyword_then_keyword_eq_present_iff a b).symm, fun e h => ?_⟩
  obtain ⟨n, hquiet⟩ := (quiet_skipBlanks.bind fun _ => quiet_spacedPieces _) s
  rcases hquiet with hquiet | ⟨⟨⟩, hquiet⟩
  · cases hquiet.symm.trans ((hone e).1 h)
  · cases hquiet.symm.trans ((hone e).1 h)
    exact ⟨n, rfl⟩

/-- Spaces at the edges of both texts, and a tab where they meet. -/
theorem end_if_across_tab :
    let s := State.start [' ', 'E', 'N', 'D', '\t', 'I', 'f', ' ', 'x'] {} (by decide)
    let e := ((keyword (" end " ++ " " ++ " if")).run s).2
    (keyword (" end " ++ " " ++ " if")).run s = (.present (), e) ∧
      (seqRight (keyword " end ") (keyword " if")).run s = (.present (), e) ∧
      (∃ n, e = s.advance n) ∧ e.rest = ['x'] := by
  intro s e
  have hpresent : ((keyword (" end " ++ " " ++ " if")).run s).1 = .present () := by decide +kernel
  have hrun : (keyword (" end " ++ " " ++ " if")).run s = (.present (), e) :=
    Prod.fst_eq_iff.1 hpresent
  obtain ⟨hsame, hquiet⟩ := keyword_space_run " end " " if" s
  exact ⟨hrun, (hsame e).1 hrun, hquiet e hrun, by decide +kernel⟩

end Grammar

end FortranTokens
