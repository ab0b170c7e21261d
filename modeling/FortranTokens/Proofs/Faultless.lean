import FortranTokens.Proofs.Engine

/-!
# Runs without faults

A caller can break a contract in two ways only: by searching for a byte that is no character, and by
cutting out a text from behind the place reached.  The digits of a constant are cut from where they
were begun to be read, so that only the search remains (`Grammar.faultless_run`).
-/

namespace FortranTokens

namespace Parser

variable {α β γ : Type} {p q : Parser α} {f : α → Parser β} {s t : State}

/-- No run of the parser ends in a fault. -/
def Faultless (p : Parser α) : Prop := ∀ s e, (p s).1 ≠ .fault e

theorem present_ne_fault (a : α) (e : Fault) : Reply.present a ≠ .fault e := nofun

theorem absent_ne_fault (e : Fault) : (.absent : Reply α) ≠ .fault e := nofun

theorem Faultless.ne_fault (hp : Faultless p) {r : Reply α} (h : p s = (r, t)) (e : Fault) :
    r ≠ .fault e := by
  have hs := hp s e
  rwa [h] at hs

theorem Faultless.present_or_absent (hp : Faultless p) (s : State) :
    (∃ a t, p s = (.present a, t)) ∨ ∃ t, p s = (.absent, t) := by
  rcases h : p s with ⟨a | _ | e, t⟩
  · exact .inl ⟨a, t, rfl⟩
  · exact .inr ⟨t, rfl⟩
  · exact absurd rfl (hp.ne_fault h e)

/-! ## Steps -/

theorem faultless_endOfInput : Faultless endOfInput := by
  intro s e
  rw [endOfInput_apply]
  split <;> nofun

theorem faultless_skipPast {goal : UInt8} (h : goal < 128) : Faultless (skipPast goal) := by
  intro s e
  rw [skipPast_apply, if_pos h]
  split <;> nofun

/-! ## One parser after another -/

theorem Faultless.bind (hp : Faultless p) (hf : ∀ a, Faultless (f a)) : Faultless (p >>= f) := by
  intro s e
  obtain ⟨a, t, h⟩ | ⟨t, h⟩ := hp.present_or_absent s
  · rw [bind_of_present h]
    exact hf a t e
  · rw [bind_of_absent h]
    nofun

theorem Faultless.orSay (hp : Faultless p) (n : Nat) (k : Kind) : Faultless (orSay n k p) := by
  intro s e
  unfold Parser.orSay
  obtain ⟨a, t, h⟩ | ⟨t, h⟩ := hp.present_or_absent s <;> rw [h] <;> nofun

/-! ## Going back and choosing -/

theorem Faultless.attempt (hp : Faultless p) : Faultless (attempt p) := by
  intro s e
  unfold Parser.attempt
  obtain ⟨a, t, h⟩ | ⟨t, h⟩ := hp.present_or_absent s <;> rw [h] <;> nofun

theorem Faultless.optional (hp : Faultless p) : Faultless (optional p) := by
  intro s e
  rw [optional_apply]
  obtain ⟨a, t, h⟩ | ⟨t, h⟩ := hp.attempt.present_or_absent s <;> rw [h] <;> nofun

theorem Faultless.lookahead (hp : Faultless p) : Faultless (lookahead p) := by
  intro s e
  unfold Parser.lookahead
  obtain ⟨a, t, h⟩ | ⟨t, h⟩ := hp.present_or_absent s <;> rw [h] <;> nofun

theorem Faultless.notFollowedBy (hp : Faultless p) : Faultless (notFollowedBy p) := by
  intro s e
  unfold Parser.notFollowedBy
  obtain ⟨a, t, h⟩ | ⟨t, h⟩ := hp.present_or_absent s <;> rw [h] <;> nofun

theorem Faultless.orElse (hp : Faultless p) (hq : Faultless q) : Faultless (orElse p q) := by
  intro s e
  unfold Parser.orElse
  obtain ⟨a, t, h⟩ | ⟨t, h⟩ := hp.present_or_absent s
  · rw [h]
    nofun
  · obtain ⟨b, u, h'⟩ | ⟨u, h'⟩ :=
      hq.present_or_absent ((t.takeSince s.mark).2.rollback s.mark)
    · simp only [h, h']
      nofun
    · simp only [h, h']
      split
      · nofun
      · split <;> nofun

/-! ## Repetition -/

theorem Faultless.foldMany (hp : Faultless p) (g : γ → α → γ) (b : γ) :
    Faultless (foldMany g b p) := by
  intro s e
  fun_induction Parser.foldMany g b p s with
  | case1 b s a t hrun honward ih => exact ih
  | case2 b s a t hrun hstay => exact present_ne_fault _ e
  | case3 b s t hrun => exact present_ne_fault _ e
  | case4 b s e' t hrun => exact absurd rfl (hp.attempt.ne_fault hrun e')

theorem Faultless.separatedItems {sep : Parser β} (hp : Faultless p) (hsep : Faultless sep)
    (items : List α) : Faultless (separatedItems p sep items) := by
  have hround : Faultless (sep >>= fun _ => p) := hsep.bind fun _ => hp
  intro s e
  fun_induction Parser.separatedItems p sep items s with
  | case1 items s a t hrun honward ih => exact ih
  | case2 items s a t hrun hstay => exact present_ne_fault _ e
  | case3 items s t hrun => exact present_ne_fault _ e
  | case4 items s e' t hrun => exact absurd rfl (hround.ne_fault hrun e')

/-! ## Every parser -/

theorem Faultless.closing (hchar : Faultless literalChar) {quote : Char}
    (hquote : Faultless (Parser.optional (char quote))) (start : Nat) (read : List Char) :
    Faultless (closing quote start read) := by
  have hattempt : Faultless (Parser.attempt literalChar) := hchar.attempt
  intro s e
  fun_induction Parser.closing quote start read s with
  | case1 read s c t hrun hclose again u hnext ih => exact ih
  | case2 read s c t hrun hclose u hnext => exact present_ne_fault _ e
  | case3 read s c t hrun hclose u hnext => exact absent_ne_fault e
  | case4 read s c t hrun hclose e' u hnext => exact absurd rfl (hquote.ne_fault hnext e')
  | case5 read s c t hrun hopen ih => exact ih
  | case6 read s t hrun => exact absent_ne_fault e
  | case7 read s e' t hrun => exact absurd rfl (hattempt.ne_fault hrun e')

theorem faultless_rules : Rules Cursor.offset Cursor.offset fun _ p _ => Faultless p where
  lt_iff _ _ := Iff.rfl
  pure _ _ := fun _ _ => nofun
  absent _ := fun _ _ => nofun
  options _ := fun _ _ => nofun
  peek? _ := fun _ _ => nofun
  next? _ := fun _ _ => nofun
  readWhile _ _ := fun _ _ => nofun
  skipBlanks _ := fun _ _ => nofun
  endOfInput _ := faultless_endOfInput
  say _ _ := fun _ _ => nofun
  location_bind _ _ _ hf := fun s => hf s.cursor s
  bind hp hf := hp.bind hf
  orSay k hp := hp.orSay _ k
  attempt hp := hp.attempt
  optional hp := hp.optional
  lookahead hp := hp.lookahead
  notFollowedBy hp := hp.notFollowedBy
  orElse hp hq := hp.orElse hq
  foldMany f b hp := hp.foldMany f b
  separatedItems items hp hsep := hp.separatedItems hsep items
  closing _ read hchar hquote := hchar.closing hquote _ read

end Parser

/-! ## Grammars -/

namespace Grammar

open FortranTokens.Parser

variable {α : Type}

/-- Every byte that the grammar searches for is a character. -/
def AsciiGoals : {α : Type} → Grammar α → Prop
  | _, skipPast goal => goal < 128
  | _, seqRight g h => g.AsciiGoals ∧ h.AsciiGoals
  | _, seqLeft g h => g.AsciiGoals ∧ h.AsciiGoals
  | _, pair g h => g.AsciiGoals ∧ h.AsciiGoals
  | _, orElse g h => g.AsciiGoals ∧ h.AsciiGoals
  | _, map _ g => g.AsciiGoals
  | _, attempt g => g.AsciiGoals
  | _, optional g => g.AsciiGoals
  | _, many g => g.AsciiGoals
  | _, many1 g => g.AsciiGoals
  | _, skipMany g => g.AsciiGoals
  | _, lookahead g => g.AsciiGoals
  | _, notFollowedBy g => g.AsciiGoals
  | _, sepBy1 g sep => g.AsciiGoals ∧ sep.AsciiGoals
  | _, _ => True

theorem AsciiGoals.lt_of_uses {g : Grammar α} (goals : g.AsciiGoals) {byte : UInt8}
    (h : g.Uses (.search byte)) : byte < 128 := by
  induction g with
  | skipPast goal =>
    cases h
    exact goals
  | seqRight f g hf hg => exact h.elim (hf goals.1) (hg goals.2)
  | seqLeft f g hf hg => exact h.elim (hf goals.1) (hg goals.2)
  | pair f g hf hg => exact h.elim (hf goals.1) (hg goals.2)
  | orElse f g hf hg => exact h.elim (hf goals.1) (hg goals.2)
  | sepBy1 g sep hg hsep => exact h.elim (hg goals.1) (hsep goals.2)
  | map f g hg => exact hg goals h
  | attempt g hg => exact hg goals h
  | optional g hg => exact hg goals h
  | many g hg => exact hg goals h
  | many1 g hg => exact hg goals h
  | skipMany g hg => exact hg goals h
  | lookahead g hg => exact hg goals h
  | notFollowedBy g hg => exact hg goals h
  | _ => cases h

theorem faultless_run (g : Grammar α) (goals : g.AsciiGoals) : Faultless g.run := fun s =>
  faultless_rules.run g (fun _ hu _ => faultless_skipPast (goals.lt_of_uses hu)) s.cursor s

end Grammar

end FortranTokens
