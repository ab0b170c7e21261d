import Mathlib.Data.Prod.Basic
import FortranTokens.Grammar.Idiom
import FortranTokens.Proofs.Engine
import FortranTokens.Proofs.KeywordSpelling

/-!
# The optional part before colons

The three alternatives of the optional part are told apart by the first text after the blanks.
Where a comma stands, the part has to follow it: the other two alternatives are absent, but of them
the one that looks for the colons has read the comma, and so it is heard as well if the first one
got no further (`Grammar.optionalBeforeColons_of_absent`).  Anywhere else the part is missing, and
nothing is ever reported.

Commas and colons are symbols: keywords that are spelled in one way only.
-/

namespace FortranTokens

open CharClass

/-! ## Symbols -/

namespace Keyword

/-- The text is one piece, and no letter in it could stand in the other case. -/
structure IsSymbol (text : List Char) : Prop where
  pieces_eq : pieces text = [text]
  caseless : ∀ c ∈ text, ¬isLetter c

theorem isSymbol_comma : IsSymbol ",".toList :=
  ⟨by decide +kernel, List.any_eq_false.1 (by decide +kernel)⟩

theorem isSymbol_colons : IsSymbol "::".toList :=
  ⟨by decide +kernel, List.any_eq_false.1 (by decide +kernel)⟩

theorem eq_of_sameUpToCase {a b : Char} (hb : ¬isLetter b) (h : SameUpToCase a b) : a = b := by
  have hA : 'A'.toNat = 65 := rfl
  have hZ : 'Z'.toNat = 90 := rfl
  have ha : 'a'.toNat = 97 := rfl
  have hz : 'z'.toNat = 122 := rfl
  simp only [isLetter, le_iff_toNat, Bool.or_eq_true, Bool.and_eq_true, decide_eq_true_eq] at hb
  rcases h with h | ⟨hle, hle', hsmall⟩ | ⟨hle, hle', hsmall⟩
  · exact h
  · omega
  · omega

theorem eq_of_forall₂_sameUpToCase {got want : List Char} (hwant : ∀ c ∈ want, ¬isLetter c)
    (h : List.Forall₂ SameUpToCase got want) : got = want := by
  induction h with
  | nil => rfl
  | cons hc hmore ih =>
    obtain ⟨hfirst, hothers⟩ := List.forall_mem_cons.1 hwant
    rw [eq_of_sameUpToCase hfirst hc, ih hothers]

end Keyword

open Keyword

namespace Parser

variable {s : State} {text : String} {after : List Char}

theorem keyword_of_symbol (h : IsSymbol text.toList)
    (hbody : s.rest.dropWhile isBlank = text.toList ++ after) :
    keyword text s =
      (.present (), s.advance ((s.rest.takeWhile isBlank).length + text.toList.length +
        (after.takeWhile isBlank).length)) := by
  have hspelled : Spelled (pieces text.toList) (text.toList ++ (after.takeWhile isBlank ++ []))
      (after.dropWhile isBlank) := by
    rw [h.pieces_eq]
    exact .piece (List.forall₂_same.2 fun c _ => .inl rfl) (fun c hc => List.mem_takeWhile_imp hc)
      (not_head_dropWhile isBlank after) (.done _)
  refine ((keyword_run text s).1 _).2 ⟨_, _, ?_, hspelled, ?_⟩
  · rw [hbody, List.append_nil, List.append_assoc, List.takeWhile_append_dropWhile]
  · rw [List.append_nil, List.length_append, Nat.add_assoc]

theorem keyword_of_no_symbol (h : IsSymbol text.toList)
    (hbody : ¬text.toList <+: s.rest.dropWhile isBlank) :
    ∃ n, keyword text s =
      (.absent, (s.advance n).report
        [.ofOffset (s.location + (s.rest.takeWhile isBlank).length) (.expectedToken text)]) := by
  refine (keyword_run text s).2.resolve_left ?_
  rintro ⟨e, hrun⟩
  obtain ⟨front, after, hfront, hspelled, -⟩ := ((keyword_run text s).1 e).1 hrun
  rw [h.pieces_eq] at hspelled
  cases hspelled with
  | piece same all maximal others =>
    apply hbody
    rw [hfront, eq_of_forall₂_sameUpToCase h.caseless same, List.append_assoc]
    exact List.prefix_append _ _

/-- A first character that does not fit is read, and no other. -/
theorem keyword_of_wrong_head {want c : Char} {ws cs : List Char} {more : List (List Char)}
    (hpieces : pieces text.toList = (want :: ws) :: more)
    (hbody : s.rest.dropWhile isBlank = c :: cs) (hc : ¬sameLetter c want) :
    keyword text s =
      (.absent, (s.advance ((s.rest.takeWhile isBlank).length + 1)).report
        [.ofOffset (s.location + (s.rest.takeWhile isBlank).length) (.expectedToken text)]) := by
  have hrest := (State.rest_advance_takeWhile isBlank s).trans hbody
  rw [keyword_apply, hpieces, ← State.advance_advance]
  apply orSay_of_absent
  apply bind_of_absent
  show (next >>= _) _ = _
  rw [bind_of_present (next_of_cons hrest), if_neg hc, absent_apply]

end Parser

namespace Grammar

open FortranTokens.Parser

variable {α : Type} {g : Grammar α} {default : α} {s : State} {after : List Char}

/-! ## The three alternatives -/

/-- The optional part, after a comma and before colons. -/
def afterComma (g : Grammar α) : Grammar α := seqLeft (seqRight (keyword ",") g) (keyword "::")

/-- The colons alone. -/
def onlyColons (default : α) : Grammar α := seqRight (keyword "::") (value default)

/-- Nothing, where no comma stands. -/
def noComma (default : α) : Grammar α :=
  seqRight (notFollowedBy (keyword ",")) (value default)

/-- What is said where the colons are missing. -/
def colonsMissing (s : State) : Message :=
  .ofOffset (s.location + (s.rest.takeWhile isBlank).length) (.expectedToken "::")

theorem run_comma (hbody : s.rest.dropWhile isBlank = ',' :: after) :
    (keyword ",").run s =
      (.present (), s.advance ((s.rest.takeWhile isBlank).length + 1 +
        (after.takeWhile isBlank).length)) :=
  keyword_of_symbol isSymbol_comma hbody

theorem run_no_comma (hbody : (s.rest.dropWhile isBlank).head? ≠ some ',') :
    ∃ t, (keyword ",").run s = (.absent, t) := by
  have hprefix : ¬",".toList <+: s.rest.dropWhile isBlank := by
    rintro ⟨after, hafter⟩
    rw [← hafter] at hbody
    exact hbody rfl
  obtain ⟨n, hrun⟩ := keyword_of_no_symbol isSymbol_comma hprefix
  exact ⟨_, hrun⟩

theorem afterComma_of_no_comma (g : Grammar α)
    (hbody : (s.rest.dropWhile isBlank).head? ≠ some ',') :
    ∃ t, (afterComma g).run s = (.absent, t) := by
  obtain ⟨t, hrun⟩ := run_no_comma hbody
  exact ⟨t, bind_of_absent (bind_of_absent hrun _) _⟩

/-- However the part after the comma ends, the comma has been read. -/
theorem lt_location_of_afterComma (g : Grammar α)
    (hbody : s.rest.dropWhile isBlank = ',' :: after) :
    s.location + (s.rest.takeWhile isBlank).length + 1 ≤ ((afterComma g).run s).2.location := by
  have hrun : (afterComma g).run s = (seqLeft g (keyword "::")).run
      (s.advance ((s.rest.takeWhile isBlank).length + 1 + (after.takeWhile isBlank).length)) := by
    show (((keyword ",").run >>= fun _ => g.run) >>= _) s = _
    rw [Parser.bind_assoc, bind_of_present (run_comma hbody)]
    rfl
  have hblanks := State.location_le_advance (after.takeWhile isBlank).length
    (s.advance ((s.rest.takeWhile isBlank).length + 1))
  rw [State.advance_advance, State.location_advance_past_blanks hbody rfl] at hblanks
  rw [hrun]
  exact hblanks.trans ((seqLeft g (keyword "::")).framed_run _).location_le

theorem onlyColons_of_colons (default : α)
    (hbody : s.rest.dropWhile isBlank = ':' :: ':' :: after) :
    (onlyColons default).run s =
      (.present default, s.advance ((s.rest.takeWhile isBlank).length + 2 +
        (after.takeWhile isBlank).length)) :=
  bind_of_present (keyword_of_symbol isSymbol_colons hbody) _

theorem onlyColons_of_no_colons (default : α) (hbody : ¬[':', ':'] <+: s.rest.dropWhile isBlank) :
    ∃ t, (onlyColons default).run s = (.absent, t) := by
  obtain ⟨n, hrun⟩ := keyword_of_no_symbol isSymbol_colons hbody
  exact ⟨_, bind_of_absent hrun _⟩

theorem onlyColons_of_comma (default : α) (hbody : s.rest.dropWhile isBlank = ',' :: after) :
    (onlyColons default).run s =
      (.absent, (s.advance ((s.rest.takeWhile isBlank).length + 1)).report [colonsMissing s]) :=
  bind_of_absent (keyword_of_wrong_head isSymbol_colons.pieces_eq hbody (by decide)) _

theorem noComma_of_comma (default : α) (hbody : s.rest.dropWhile isBlank = ',' :: after) :
    (noComma default).run s = (.absent, s) := by
  apply bind_of_absent
  show Parser.notFollowedBy (keyword ",").run s = _
  rw [(keyword ",").framed_run.notFollowedBy_apply, run_comma hbody]

theorem noComma_of_no_comma (default : α) (hbody : (s.rest.dropWhile isBlank).head? ≠ some ',') :
    (noComma default).run s = (.present default, s) := by
  obtain ⟨t, hrun⟩ := run_no_comma hbody
  refine bind_of_present (a := ()) ?_ _
  show Parser.notFollowedBy (keyword ",").run s = _
  rw [(keyword ",").framed_run.notFollowedBy_apply, hrun]

/-! ## The choice between them -/

/-- Where no comma stands, the colons alone are looked for, and without them nothing is. -/
theorem optionalBeforeColons_of_colons (g : Grammar α) (default : α)
    (hbody : s.rest.dropWhile isBlank = ':' :: ':' :: after) :
    (optionalBeforeColons g default).run s =
      (.present default, s.advance ((s.rest.takeWhile isBlank).length + 2 +
        (after.takeWhile isBlank).length)) := by
  obtain ⟨t, hcomma⟩ := afterComma_of_no_comma g (s := s) (by simp [hbody])
  have hinner := (afterComma g).framed_run.orElse_of_not_absent hcomma
    (onlyColons_of_colons default hbody) nofun
  exact orElse_of_present hinner _

theorem optionalBeforeColons_of_neither (g : Grammar α) (default : α)
    (hcomma : (s.rest.dropWhile isBlank).head? ≠ some ',')
    (hcolons : ¬[':', ':'] <+: s.rest.dropWhile isBlank) :
    (optionalBeforeColons g default).run s = (.present default, s) := by
  obtain ⟨t, ht⟩ := afterComma_of_no_comma g hcomma
  obtain ⟨u, hu⟩ := onlyColons_of_no_colons default hcolons
  have hinner := (afterComma g).framed_run.orElse_of_absent (onlyColons default).framed_run ht hu
  exact (orElse (afterComma g) (onlyColons default)).framed_run.orElse_of_not_absent hinner
    (noComma_of_no_comma default hcomma) nofun

/-- The colons are heard only where the optional part has stopped as early as the search for them,
which has read nothing but the comma. -/
theorem orElse_onlyColons_of_absent {t : State} (default : α)
    (hbody : s.rest.dropWhile isBlank = ',' :: after)
    (ht : (afterComma g).run s = (.absent, t)) :
    (orElse (afterComma g) (onlyColons default)).run s =
      (.absent, (s.advance ((s.rest.takeWhile isBlank).length + 1)).report
        ((t.takeSince s.mark).1 ++
          if t.location = s.location + (s.rest.takeWhile isBlank).length + 1 then [colonsMissing s]
          else [])) := by
  have hle := lt_location_of_afterComma g hbody
  rw [ht] at hle
  have hstop := State.location_advance_past_blanks hbody rfl
  have hsaid : (((s.advance ((s.rest.takeWhile isBlank).length + 1)).report
      [colonsMissing s]).takeSince s.mark).1 = [colonsMissing s] := State.takeSince_of_log_eq rfl
  refine ((afterComma g).framed_run.orElse_of_absent (onlyColons default).framed_run ht
    (onlyColons_of_comma default hbody)).trans ?_
  rw [hsaid, State.location_report, hstop, keepFurther_eq, if_pos hle]
  simp only [Nat.le_antisymm_iff, hle, and_true]
  rfl

/-- The last alternative goes back to the start and says nothing. -/
theorem optionalBeforeColons_of_absent {t : State} (default : α)
    (hbody : s.rest.dropWhile isBlank = ',' :: after)
    (ht : (afterComma g).run s = (.absent, t)) :
    (optionalBeforeColons g default).run s =
      (.absent, s.report ((t.takeSince s.mark).1 ++
        if t.location = s.location + (s.rest.takeWhile isBlank).length + 1 then [colonsMissing s]
        else [])) := by
  have hlt : s.location < (s.advance ((s.rest.takeWhile isBlank).length + 1)).location := by
    rw [State.location_advance_past_blanks hbody rfl]
    omega
  refine ((orElse (afterComma g) (onlyColons default)).framed_run.orElse_of_absent
    (noComma default).framed_run (orElse_onlyColons_of_absent default hbody ht)
    (noComma_of_comma default hbody)).trans ?_
  unfold keepFurther
  rw [State.location_report, if_pos hlt, State.takeSince_of_log_eq rfl]
  rfl

/-- The first text after the blanks decides.  Behind a comma the optional part has to follow, whose
value and whose faults are those of the whole.  Where it is absent nothing is read, and what it had
to say is kept; that there are no colons is said as well if it stopped directly behind the comma.
The colons alone are skipped, and without them nothing is read. -/
theorem optionalBeforeColons_run (g : Grammar α) (default : α) (s : State) :
    let blanks := (s.rest.takeWhile isBlank).length
    let body := s.rest.dropWhile isBlank
    let r := (optionalBeforeColons g default).run s
    (body.head? = some ',' →
      match (afterComma g).run s with
      | (.present a, t) => r = (.present a, t)
      | (.fault e, t) => r = (.fault e, t)
      | (.absent, t) => ∃ said, t.log = s.log ++ said ∧
        r = (.absent, s.report (said ++
          if t.location = s.location + blanks + 1 then
            [.ofOffset (s.location + blanks) (.expectedToken "::")]
          else []))) ∧
    (∀ after, body = ':' :: ':' :: after →
      r = (.present default, s.advance (blanks + 2 + (after.takeWhile isBlank).length))) ∧
    (body.head? ≠ some ',' → ¬[':', ':'] <+: body → r = (.present default, s)) := by
  intro blanks body r
  refine ⟨?comma, fun _ hbody => optionalBeforeColons_of_colons g default hbody,
    optionalBeforeColons_of_neither g default⟩
  case comma =>
    intro hhead
    obtain ⟨after, hbody⟩ := List.head?_eq_some_iff.1 hhead
    rcases ht : (afterComma g).run s with ⟨a | _ | e, t⟩
    · exact orElse_of_present (orElse_of_present ht _) _
    · exact ⟨_, ((afterComma g).framed_run.of_eq ht).log_eq,
        optionalBeforeColons_of_absent default hbody ht⟩
    · exact orElse_of_fault (orElse_of_fault ht _) _

/-- A part with its colons and one without them, a comma with nothing behind it, and no part. -/
theorem optional_parts_read :
    let name := map (fun _ => 1) (keyword "save")
    let s := State.start ", save :: x".toList {} (by decide +kernel)
    let s' := State.start ", save x".toList {} (by decide +kernel)
    let t := State.start " ,".toList {} (by decide +kernel)
    let t' := State.start " :: x".toList {} (by decide +kernel)
    let u := State.start " x".toList {} (by decide +kernel)
    ((optionalBeforeColons name 0).run s).1 = .present 1 ∧
      (optionalBeforeColons name 0).run s' =
        (.absent, s'.report [.ofOffset 7 (.expectedToken "::")]) ∧
      (optionalBeforeColons (value 1) 0).run t =
        (.absent, t.report [.ofOffset 2 (.expectedToken "::"), .ofOffset 1 (.expectedToken "::")]) ∧
      (optionalBeforeColons name 0).run t' = (.present 0, t'.advance 4) ∧
      (optionalBeforeColons name 0).run u = (.present 0, u) := by
  intro name s s' t t' u
  refine ⟨?part, ?noColons, ?nothing, ?colons, ?neither⟩
  case part =>
    have hpart : ((afterComma name).run s).1 = .present 1 := by decide +kernel
    obtain ⟨hrun, -⟩ := optionalBeforeColons_run name 0 s
    rw [Prod.fst_eq_iff.1 hpart] at hrun
    exact congrArg Prod.fst (hrun (by decide +kernel))
  case noColons =>
    have hpart : ((afterComma name).run s').1 = .absent := by decide +kernel
    have hstop : ((afterComma name).run s').2.location ≠
        s'.location + (s'.rest.takeWhile isBlank).length + 1 := by decide +kernel
    have hlog : ((afterComma name).run s').2.log = [.ofOffset 7 (.expectedToken "::")] := by
      decide +kernel
    obtain ⟨hrun, -⟩ := optionalBeforeColons_run name 0 s'
    rw [Prod.fst_eq_iff.1 hpart] at hrun
    obtain ⟨said, hsaid, hrun⟩ := hrun (by decide +kernel)
    rw [hlog] at hsaid
    obtain rfl : _ = said := hsaid
    rw [if_neg hstop, List.append_nil] at hrun
    exact hrun
  case nothing =>
    have hpart : ((afterComma (value 1)).run t).1 = .absent := by decide +kernel
    have hstop : ((afterComma (value 1)).run t).2.location =
        t.location + (t.rest.takeWhile isBlank).length + 1 := by decide +kernel
    have hlog : ((afterComma (value 1)).run t).2.log = [.ofOffset 2 (.expectedToken "::")] := by
      decide +kernel
    have hplace : t.location + (t.rest.takeWhile isBlank).length = 1 := by decide +kernel
    obtain ⟨hrun, -⟩ := optionalBeforeColons_run (value 1) 0 t
    rw [Prod.fst_eq_iff.1 hpart] at hrun
    obtain ⟨said, hsaid, hrun⟩ := hrun (by decide +kernel)
    rw [hlog] at hsaid
    obtain rfl : _ = said := hsaid
    rw [if_pos hstop, hplace] at hrun
    exact hrun
  case colons =>
    have hlength : (t'.rest.takeWhile isBlank).length + 2 + ([' ', 'x'].takeWhile isBlank).length =
        4 := by decide +kernel
    obtain ⟨-, hrun, -⟩ := optionalBeforeColons_run name 0 t'
    rw [← hlength]
    exact hrun [' ', 'x'] (by decide +kernel)
  case neither =>
    exact (optionalBeforeColons_run name 0 u).2.2 (by decide +kernel) (by decide +kernel)

end Grammar

end FortranTokens
