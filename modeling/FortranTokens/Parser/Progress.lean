import FortranTokens.Parser.Chars

/-!
# Parsers that move on

A parser keeps its ground if it never ends before the place where it started, and it moves on if it
ends strictly after it whenever its value is present.  This file gives the rules by which a loop
over characters is seen to end: one rule for every step a parser is made of, and the rules for
running one parser after another and for going back.
-/

namespace FortranTokens.Parser

variable {α β : Type}

/-- The parser never ends before the place where it started. -/
def KeepsGround (p : Parser α) : Prop := ∀ s, s.location ≤ (p s).2.location

/-- Whenever its value is present, the parser ends after the place where it started. -/
def MovesOn (p : Parser α) : Prop :=
  ∀ s a t, p s = (.present a, t) → s.location < t.location

/-! ## Steps -/

theorem keepsGround_pure (a : α) : KeepsGround (pure a) := fun _ => Nat.le_refl _

theorem keepsGround_absent : KeepsGround (absent : Parser α) := fun _ => Nat.le_refl _

theorem keepsGround_location : KeepsGround location := fun _ => Nat.le_refl _

theorem keepsGround_options : KeepsGround options := fun _ => Nat.le_refl _

theorem keepsGround_say (n : Nat) (k : Kind) : KeepsGround (say n k) := fun _ => Nat.le_refl _

theorem keepsGround_next? : KeepsGround next? := State.location_le_next

/-! ## One parser after another -/

theorem KeepsGround.bind {p : Parser α} {f : α → Parser β} (hp : KeepsGround p)
    (hf : ∀ a, KeepsGround (f a)) : KeepsGround (p >>= f) := fun s => by
  have hs := hp s
  rw [bind_apply]
  rcases h : p s with ⟨a | _ | e, t⟩ <;> rw [h] at hs
  · exact Nat.le_trans hs (hf a t)
  · exact hs
  · exact hs

/-- A parser moves on when its first part does. -/
theorem MovesOn.bind {p : Parser α} {f : α → Parser β} (hp : MovesOn p)
    (hf : ∀ a, KeepsGround (f a)) : MovesOn (p >>= f) := fun s b u h => by
  rw [bind_apply] at h
  rcases hps : p s with ⟨a | _ | e, t⟩ <;> rw [hps] at h
  · have hft := hf a t
    rw [show f a t = (.present b, u) from h] at hft
    exact Nat.lt_of_lt_of_le (hp s a t hps) hft
  · simp at h
  · simp at h

/-- A parser moves on when its second part does. -/
theorem KeepsGround.bind_movesOn {p : Parser α} {f : α → Parser β} (hp : KeepsGround p)
    (hf : ∀ a, MovesOn (f a)) : MovesOn (p >>= f) := fun s b u h => by
  have hs := hp s
  rw [bind_apply] at h
  rcases hps : p s with ⟨a | _ | e, t⟩ <;> rw [hps] at h hs
  · exact Nat.lt_of_le_of_lt hs (hf a t b u h)
  · simp at h
  · simp at h

theorem KeepsGround.ite {c : Prop} [Decidable c] {p q : Parser α} (hp : KeepsGround p)
    (hq : KeepsGround q) : KeepsGround (if c then p else q) := by
  split
  · exact hp
  · exact hq

theorem keepsGround_failAt (n : Nat) (k : Kind) : KeepsGround (failAt n k : Parser α) :=
  (keepsGround_say n k).bind fun _ => keepsGround_absent

theorem keepsGround_next : KeepsGround next :=
  keepsGround_next?.bind fun c => match c with
    | some c => keepsGround_pure c
    | none => keepsGround_absent

theorem movesOn_next : MovesOn next := fun s c t h => by
  change (next? >>= _) s = _ at h
  rw [bind_apply] at h
  rcases hn : s.next with ⟨_ | d, u⟩
  · simp [next?, hn, absent] at h
  · simp only [next?, hn, pure_apply, Prod.mk.injEq, Reply.present.injEq] at h
    exact h.2 ▸ State.location_lt_of_next hn

theorem KeepsGround.orSay {p : Parser α} (hp : KeepsGround p) (n : Nat) (k : Kind) :
    KeepsGround (orSay n k p) := fun s => by
  have hs := hp s
  unfold Parser.orSay
  rcases h : p s with ⟨a | _ | e, t⟩ <;> rw [h] at hs <;> exact hs

theorem keepsGround_satisfy (p : Char → Bool) (k : Kind) : KeepsGround (satisfy p k) :=
  keepsGround_location.bind fun _ => KeepsGround.orSay
    (keepsGround_next.bind fun _ => (keepsGround_pure _).ite keepsGround_absent) _ _

theorem keepsGround_char (c : Char) : KeepsGround (char c) := keepsGround_satisfy _ _

theorem keepsGround_octalDigit : KeepsGround octalDigit := keepsGround_satisfy _ _

theorem keepsGround_hexDigit : KeepsGround hexDigit := keepsGround_satisfy _ _

/-! ## Going back -/

/-- Going back ends where the attempt started, and not before. -/
theorem KeepsGround.attempt {p : Parser α} (hp : KeepsGround p) : KeepsGround (attempt p) :=
  fun s => by
    have hs := hp s
    unfold Parser.attempt
    rcases h : p s with ⟨a | _ | e, t⟩ <;> rw [h] at hs
    · exact hs
    · exact Nat.le_refl _
    · exact hs

theorem KeepsGround.optional {p : Parser α} (hp : KeepsGround p) : KeepsGround (optional p) :=
  fun s => by
    have hs := hp.attempt s
    unfold Parser.optional
    rcases h : Parser.attempt p s with ⟨a | _ | e, t⟩ <;> rw [h] at hs <;> exact hs

theorem KeepsGround.manyUpTo {p : Parser α} (hp : KeepsGround p) :
    ∀ n, KeepsGround (manyUpTo n p)
  | 0 => keepsGround_pure _
  | n + 1 => hp.optional.bind fun a => match a with
    | some _ => (KeepsGround.manyUpTo hp n).bind fun _ => keepsGround_pure _
    | none => keepsGround_pure _

end FortranTokens.Parser
