import Mathlib.Data.Prod.Basic
import FortranTokens.Proofs.LiteralRoundTrip
import FortranTokens.Proofs.NumeralRoundTrip

/-!
# Decoded values written and read again

A value that was read from some text, in whatever form it stood there, has a canonical text, and
from it the same parser in the same mode reads the same value (`decoded_reads_back`).  For this the
values that can be read have to lie among those that can be written: in the mode without escapes no
newline gets into a literal (`newline_not_mem_of_units`), and a Hollerith constant is never empty
and all printable (`printable_of_hollerith`).
-/

namespace FortranTokens

open CharClass LiteralText LiteralUnit

/-! ## What can be read -/

namespace LiteralText

variable {o : Options} {quote : Char} {text after : List Char} {us : List LiteralUnit}

theorem ch_ne_newline_of_isUnit {u : LiteralUnit} (hquote : quote ∈ quotes) (ho : ¬o.escapes)
    (h : IsUnit o quote u after) : u.ch ≠ '\n' := by
  cases h with
  | doubled => rcases mem_quotes_iff.1 hquote with rfl | rfl <;> decide
  | escape hescapes h => exact absurd hescapes ho
  | plain hne hnewline hbackslash => exact hnewline

/-- Without escapes a newline would have to stand for itself, and that ends the literal. -/
theorem newline_not_mem_of_units (hquote : quote ∈ quotes) (ho : ¬o.escapes)
    (h : Units o quote text us after) : '\n' ∉ us.map LiteralUnit.ch := by
  induction h with
  | done text => exact List.not_mem_nil
  | more first others ih =>
    rw [List.map_cons, List.mem_cons, not_or]
    exact ⟨(ch_ne_newline_of_isUnit hquote ho first).symm, ih⟩

end LiteralText

namespace Parser

variable {α : Type} {s e : State} {t : String}

theorem newline_not_mem_of_quotedLiteral (ho : ¬s.options.escapes)
    (h : quotedLiteral s = (.present t, e)) : '\n' ∉ t.toList := by
  obtain ⟨quote, body, us, after, hquote, -, hus, -, rfl, -⟩ := exists_closed_of_quotedLiteral h
  rw [String.toList_ofList]
  exact newline_not_mem_of_units hquote ho hus

theorem printable_of_hollerith (h : hollerith s = (.present t, e)) :
    t.toList ≠ [] ∧ ∀ c ∈ t.toList, isPrintable c := by
  obtain ⟨digits, marker, text, hcount, hmarker⟩ := exists_marker_of_hollerith h
  obtain ⟨hne, -, -, -, hall, -⟩ := (hollerith_of_marker_eq_present_iff hcount hmarker).1 h
  exact ⟨hne, hall⟩

/-! ## Reading back -/

/-- From the whole of the text, in this mode, the parser reads the value, and it leaves nothing
unread and reports nothing. -/
def ReadsBack (p : Parser α) (o : Options) (text : String) (a : α) : Prop :=
  ∀ s : State, s.options = o → s.rest = text.toList →
    ∃ e, p s = (.present a, e) ∧ e.rest = [] ∧ e.log = s.log

theorem readsBack_of_advance {p : Parser α} {o : Options} {text : String} {a : α}
    (h : ∀ s : State, s.options = o → s.rest = text.toList ++ [] →
      p s = (.present a, s.advance text.toList.length)) : ReadsBack p o text a := by
  intro s ho hrest
  rw [← List.append_nil text.toList] at hrest
  exact ⟨_, h s ho hrest, State.rest_advance_of_append hrest, rfl⟩

theorem decoded_reads_back (s : State) :
    (∀ t e, quotedLiteral s = (.present t, e) → ∀ quote ∈ quotes,
      ReadsBack quotedLiteral s.options (Render.quoted t quote s.options) t) ∧
    (∀ t e, hollerith s = (.present t, e) → ∀ o, ReadsBack hollerith o (Render.hollerith t) t) ∧
    (∀ v e, boz s = (.present v, e) → ∀ o, ReadsBack boz o (Render.bozHex v) v) ∧
    (∀ v e, digitString s = (.present ⟨v, false⟩, e) → ∀ o,
      ReadsBack digitString o (Render.digitString v) ⟨v, false⟩) := by
  refine ⟨?quoted, ?hollerith, ?boz, ?digits⟩
  case quoted =>
    intro t e h quote hquote
    refine readsBack_of_advance fun s' ho hrest => ?_
    have hwritten : s'.options.escapes ∨ '\n' ∉ t.toList := by
      rw [ho]
      exact or_iff_not_imp_left.2 fun ho => newline_not_mem_of_quotedLiteral ho h
    rw [← ho] at hrest ⊢
    have htext : s'.rest =
        quote :: (t.toList.flatMap (Render.quotedChar quote s'.options) ++ quote :: []) := by
      rw [hrest]
      simp [Render.quoted]
    rw [quotedLiteral_of_written hquote hwritten htext (by simp)]
    simp [Render.quoted]
  case hollerith =>
    intro t e h o
    obtain ⟨hne, hall⟩ := printable_of_hollerith h
    exact readsBack_of_advance fun s' _ hrest => hollerith_of_rendered hne hall hrest
  case boz =>
    intro v e _ o
    exact readsBack_of_advance fun s' _ hrest => boz_of_rendered hrest
  case digits =>
    intro v e _ o
    refine readsBack_of_advance fun s' _ hrest => digitString_of_rendered hrest ?_
    simp

/-- A literal with an escape and the other quote inside, a counted text after blanks, a constant with
its letter behind, and leading zeros; each of them is written in another way than it was read. -/
theorem literals_read_again :
    let s := State.start ['"', '\'', '\\', 'x', '0', 'a', '"'] { escapes := true } (by decide)
    let s' := State.start [' ', '0', '0', '3', 'h', 'a', 'b', 'c'] {} (by decide)
    let t := State.start ['\'', 'f', 'F', '\'', 'x'] {} (by decide)
    let t' := State.start ['0', '0', '7', ','] {} (by decide)
    (quotedLiteral s).1 = .present "'\n" ∧ (hollerith s').1 = .present "abc" ∧
      (boz t).1 = .present 255 ∧ (digitString t').1 = .present ⟨7, false⟩ ∧
      ReadsBack quotedLiteral { escapes := true } "'''\\n'" "'\n" ∧
      ReadsBack hollerith {} "3Habc" "abc" ∧ ReadsBack boz { strict := true } "Z'FF'" 255 ∧
      ReadsBack digitString {} "7" ⟨7, false⟩ := by
  intro s s' t t'
  have hquoted : (quotedLiteral s).1 = .present "'\n" := by decide +kernel
  have hhollerith : (hollerith s').1 = .present "abc" := by decide +kernel
  have hboz : (boz t).1 = .present 255 := by decide +kernel
  have hdigits : (digitString t').1 = .present ⟨7, false⟩ := by decide +kernel
  refine ⟨hquoted, hhollerith, hboz, hdigits, ?_, ?_, ?_, ?_⟩
  · have htext : Render.quoted "'\n" '\'' s.options = "'''\\n'" := by decide +kernel
    have hread := (decoded_reads_back s).1 _ _ (Prod.fst_eq_iff.1 hquoted) '\'' (by decide)
    rwa [htext] at hread
  · have htext : Render.hollerith "abc" = "3Habc" := by decide +kernel
    have hread := (decoded_reads_back s').2.1 _ _ (Prod.fst_eq_iff.1 hhollerith) {}
    rwa [htext] at hread
  · have htext : Render.bozHex 255 = "Z'FF'" := by decide +kernel
    have hread := (decoded_reads_back t).2.2.1 _ _ (Prod.fst_eq_iff.1 hboz) { strict := true }
    rwa [htext] at hread
  · have htext : Render.digitString 7 = "7" := by decide +kernel
    have hread := (decoded_reads_back t').2.2.2 _ _ (Prod.fst_eq_iff.1 hdigits) {}
    rwa [htext] at hread

end Parser

end FortranTokens
