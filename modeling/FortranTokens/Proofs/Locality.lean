import FortranTokens.Proofs.Twins

/-!
# Locality

A run depends on the unread text and the reading modes alone.  From two states that agree on these,
whatever was read before and whatever has been reported, a grammar gives the same reply, reads the
same number of bytes, and reports the same messages at the same distances from where it started
(`Grammar.run_local`).
-/

namespace FortranTokens

namespace Grammar

open FortranTokens.Parser

variable {α : Type}

theorem alike_run (o o' : State) (g : Grammar α) : Alike o o' g.run g.run :=
  (alike_rules o o').run g (fun goal _ _ => (Twins.lockstep o o').skipPast goal) 0

theorem run_local (g : Grammar α) (s s' : State) (hrest : s'.rest = s.rest)
    (hoptions : s'.options = s.options) :
    ∃ (n : Nat) (ms : List Message),
      (g.run s').1 = (g.run s).1 ∧
      (g.run s).2.location = s.location + n ∧ (g.run s').2.location = s'.location + n ∧
      (g.run s).2.log = s.log ++ ms.map (Message.shift s.location) ∧
      (g.run s').2.log = s'.log ++ ms.map (Message.shift s'.location) := by
  obtain ⟨hreply, htwins⟩ := alike_run s s' g s s' (.of_rest_eq hrest hoptions)
  obtain ⟨n, hn, hn'⟩ := htwins.location
  obtain ⟨ms, hms, hms'⟩ := htwins.log
  exact ⟨n, ms, hreply, hn, hn', hms, hms'⟩

/-- The same constant at the start of a source, and after other text and an earlier message. -/
theorem bad_digit_local :
    let g := orElse quotedLiteral (map (fun _ => "") boz)
    let s := State.start ['B', '\'', '1', '2', '\''] {} (by decide)
    let s' := ((State.start ['é', ' ', 'B', '\'', '1', '2', '\''] {} (by decide)).advance 2).say 0
      .expectedDigit
    s'.rest = s.rest ∧ s'.options = s.options ∧
      (∃ (n : Nat) (ms : List Message),
        (g.run s').1 = (g.run s).1 ∧
        (g.run s).2.location = s.location + n ∧ (g.run s').2.location = s'.location + n ∧
        (g.run s).2.log = s.log ++ ms.map (Message.shift s.location) ∧
        (g.run s').2.log = s'.log ++ ms.map (Message.shift s'.location)) ∧
      (g.run s).2.log = [.ofOffset 2 .badBozDigit] ∧
      (g.run s').2.log = [.ofOffset 0 .expectedDigit, .ofOffset 5 .badBozDigit] := by
  intro g s s'
  have hrest : s'.rest = s.rest := by decide +kernel
  have hoptions : s'.options = s.options := by decide +kernel
  refine ⟨hrest, hoptions, run_local g s s' hrest hoptions, ?_, ?_⟩ <;> decide +kernel

end Grammar

end FortranTokens
