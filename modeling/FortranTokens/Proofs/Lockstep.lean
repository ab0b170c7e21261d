import FortranTokens.Proofs.GoingBack
import FortranTokens.Proofs.Reading
import FortranTokens.Proofs.Rules

/-!
# Two runs in step

A relation between the states of two runs is a `Lockstep` if related states have the same text
ahead, and if they stay related when both runs read as many characters, report a message at the same
place, or go back to places where they were related before.  Two parsers are `InStep` if from
related states they give the same reply and end in related states.  Every step and every combinator
has its rule (`Lockstep.rules`): no part of a parser but a look at the modes can tell the two runs
apart.
-/

namespace FortranTokens

namespace Parser

/-- What has to be shown of a relation between states so that parsers keep it.  A place `o` has the
offset `here o` in the first run and `here' o` in the second one. -/
structure Lockstep {ι : Type} (here here' : ι → Nat) (R : State → State → Prop) : Prop where
  /-- The two runs agree which of two places is further on. -/
  lt_iff (c d : ι) : here c < here d ↔ here' c < here' d
  rest {s s' : State} (hs : R s s') : s'.rest = s.rest
  location {s s' : State} (hs : R s s') : ∃ c, s.location = here c ∧ s'.location = here' c
  advance {s s' : State} (hs : R s s') (n : Nat) : R (s.advance n) (s'.advance n)
  say {s s' : State} (hs : R s s') (c : ι) (k : Kind) : R (s.say (here c) k) (s'.say (here' c) k)
  /-- Going back to a mark, which both runs took when they were related. -/
  rollback {s s' t t' : State} (hs : R s s') (ht : R t t') :
    R (t.rollback s.mark) (t'.rollback s'.mark)
  takeSince {s s' t t' : State} (hs : R s s') (ht : R t t') :
    R (t.takeSince s.mark).2 (t'.takeSince s'.mark).2
  /-- Reporting once more what was reported between two pairs of related states. -/
  restore {s s' t t' u u' : State} (hs : R s s') (ht : R t t') (hu : R u u') :
    R (u.restore (t.takeSince s.mark).1) (u'.restore (t'.takeSince s'.mark).1)

/-- From related states the two parsers give the same reply and end in related states. -/
def InStep {α : Type} (R : State → State → Prop) (p p' : Parser α) : Prop :=
  ∀ s s', R s s' → (p' s').1 = (p s).1 ∧ R (p s).2 (p' s').2

variable {ι : Type} {here here' : ι → Nat} {R : State → State → Prop} {α β γ : Type}
  {s s' t t' : State} {p p' q q' : Parser α} {f f' : α → Parser β}

theorem InStep.of_eq (hp : InStep R p p') (hs : R s s') {r : Reply α} (hrun : p s = (r, t)) :
    ∃ t', p' s' = (r, t') ∧ R t t' := by
  obtain ⟨hreply, hrel⟩ := hp s s' hs
  rw [hrun] at hreply hrel
  exact ⟨(p' s').2, Prod.ext hreply rfl, hrel⟩

theorem InStep.bind (hp : InStep R p p') (hf : ∀ a, InStep R (f a) (f' a)) :
    InStep R (p >>= f) (p' >>= f') := fun s s' hs => by
  rcases hrun : p s with ⟨a | _ | e, t⟩ <;> obtain ⟨t', hrun', ht⟩ := hp.of_eq hs hrun <;>
    rw [bind_apply, bind_apply, hrun, hrun']
  · exact hf a t t' ht
  · exact ⟨rfl, ht⟩
  · exact ⟨rfl, ht⟩

namespace Lockstep

variable (h : Lockstep here here' R)

include h

theorem location_lt_iff (hs : R s s') (ht : R t t') :
    s'.location < t'.location ↔ s.location < t.location := by
  obtain ⟨c, hc, hc'⟩ := h.location hs
  obtain ⟨d, hd, hd'⟩ := h.location ht
  rw [hc, hc', hd, hd']
  exact (h.lt_iff c d).symm

theorem location_eq_iff (hs : R s s') (ht : R t t') :
    s'.location = t'.location ↔ s.location = t.location := by
  have hlt := h.location_lt_iff hs ht
  have hgt := h.location_lt_iff ht hs
  omega

/-! ### Steps -/

theorem peek? : InStep R Parser.peek? Parser.peek? := fun s s' hs => by
  refine ⟨?_, hs⟩
  show Reply.present s'.rest.head? = Reply.present s.rest.head?
  rw [h.rest hs]

theorem next? : InStep R Parser.next? Parser.next? := fun s s' hs => by
  rcases hrest : s.rest with _ | ⟨c, cs⟩
  · rw [next?_of_nil hrest, next?_of_nil ((h.rest hs).trans hrest)]
    exact ⟨rfl, hs⟩
  · rw [next?_of_cons hrest, next?_of_cons ((h.rest hs).trans hrest)]
    exact ⟨rfl, h.advance hs 1⟩

theorem readWhile (c : Char → Bool) : InStep R (Parser.readWhile c) (Parser.readWhile c) :=
  fun s s' hs => by
    rw [readWhile_apply, readWhile_apply, h.rest hs]
    exact ⟨rfl, h.advance hs _⟩

theorem skipBlanks : InStep R Parser.skipBlanks Parser.skipBlanks := fun s s' hs => by
  rw [skipBlanks_apply, skipBlanks_apply, h.rest hs]
  exact ⟨rfl, h.advance hs _⟩

theorem endOfInput : InStep R Parser.endOfInput Parser.endOfInput := fun s s' hs => by
  rw [endOfInput_apply, endOfInput_apply, h.rest hs]
  exact ⟨rfl, hs⟩

theorem skipPast (goal : UInt8) : InStep R (Parser.skipPast goal) (Parser.skipPast goal) :=
  fun s s' hs => by
    rw [skipPast_apply, skipPast_apply, h.rest hs]
    split
    · split
      · exact ⟨rfl, h.advance hs _⟩
      · exact ⟨rfl, h.advance hs _⟩
    · exact ⟨rfl, hs⟩

theorem location_bind {f f' : Nat → Parser β} (hf : ∀ c, InStep R (f (here c)) (f' (here' c))) :
    InStep R (Parser.location >>= f) (Parser.location >>= f') := fun s s' hs => by
  obtain ⟨c, hc, hc'⟩ := h.location hs
  rw [Parser.location_bind, Parser.location_bind, hc, hc']
  exact hf c s s' hs

theorem orSay (hp : InStep R p p') (c : ι) (k : Kind) :
    InStep R (Parser.orSay (here c) k p) (Parser.orSay (here' c) k p') := fun s s' hs => by
  unfold Parser.orSay
  rcases hrun : p s with ⟨a | _ | e, t⟩ <;> obtain ⟨t', hrun', ht⟩ := hp.of_eq hs hrun <;>
    rw [hrun']
  · exact ⟨rfl, ht⟩
  · exact ⟨rfl, h.say ht c k⟩
  · exact ⟨rfl, ht⟩

/-! ### Going back and choosing -/

theorem attempt (hp : InStep R p p') : InStep R (Parser.attempt p) (Parser.attempt p') :=
  fun s s' hs => by
    unfold Parser.attempt
    rcases hrun : p s with ⟨a | _ | e, t⟩ <;> obtain ⟨t', hrun', ht⟩ := hp.of_eq hs hrun <;>
      rw [hrun']
    · exact ⟨rfl, ht⟩
    · exact ⟨rfl, h.rollback hs ht⟩
    · exact ⟨rfl, ht⟩

theorem optional (hp : InStep R p p') : InStep R (Parser.optional p) (Parser.optional p') :=
  fun s s' hs => by
    have hattempt := h.attempt hp
    rw [optional_apply, optional_apply]
    rcases hrun : Parser.attempt p s with ⟨a | _ | e, t⟩ <;>
      obtain ⟨t', hrun', ht⟩ := hattempt.of_eq hs hrun <;> rw [hrun'] <;> exact ⟨rfl, ht⟩

theorem lookahead (hp : InStep R p p') : InStep R (Parser.lookahead p) (Parser.lookahead p') :=
  fun s s' hs => by
    unfold Parser.lookahead
    rcases hrun : p s with ⟨a | _ | e, t⟩ <;> obtain ⟨t', hrun', ht⟩ := hp.of_eq hs hrun <;>
      rw [hrun']
    · exact ⟨rfl, h.rollback hs ht⟩
    · exact ⟨rfl, h.rollback hs ht⟩
    · exact ⟨rfl, ht⟩

theorem notFollowedBy (hp : InStep R p p') :
    InStep R (Parser.notFollowedBy p) (Parser.notFollowedBy p') := fun s s' hs => by
  unfold Parser.notFollowedBy
  rcases hrun : p s with ⟨a | _ | e, t⟩ <;> obtain ⟨t', hrun', ht⟩ := hp.of_eq hs hrun <;>
    rw [hrun']
  · exact ⟨rfl, h.rollback hs ht⟩
  · exact ⟨rfl, h.rollback hs ht⟩
  · exact ⟨rfl, ht⟩

/-- The two runs agree which of two absent alternatives stopped further on. -/
theorem orElse (hp : InStep R p p') (hq : InStep R q q') :
    InStep R (Parser.orElse p q) (Parser.orElse p' q') := fun s s' hs => by
  unfold Parser.orElse
  rcases hrun : p s with ⟨a | _ | e, t⟩ <;> obtain ⟨t', hrun', ht⟩ := hp.of_eq hs hrun <;>
    rw [hrun']
  · exact ⟨rfl, ht⟩
  · have hback := h.rollback hs (h.takeSince hs ht)
    rcases hagain : q ((t.takeSince s.mark).2.rollback s.mark) with ⟨b | _ | e, u⟩ <;>
      obtain ⟨u', hagain', hu⟩ := hq.of_eq hback hagain
    · simp only [hagain, hagain']
      exact ⟨trivial, hu⟩
    · have hkept := h.takeSince hs hu
      have hfirst := h.restore hs ht hkept
      simp only [hagain, hagain', h.location_lt_iff hu ht, h.location_eq_iff ht hu]
      split
      · exact ⟨rfl, hfirst⟩
      · split
        · exact ⟨rfl, h.restore hs hu hfirst⟩
        · exact ⟨rfl, hu⟩
    · simp only [hagain, hagain']
      exact ⟨trivial, hu⟩
  · exact ⟨rfl, ht⟩

/-! ### Repetition -/

-- The inductions follow the first run; each of its rounds has its counterpart in the second one.

theorem foldMany (hp : InStep R p p') (f : γ → α → γ) (b : γ) :
    InStep R (Parser.foldMany f b p) (Parser.foldMany f b p') := fun s s' hs => by
  have hattempt : InStep R (Parser.attempt p) (Parser.attempt p') := h.attempt hp
  fun_induction Parser.foldMany f b p s generalizing s' with
  | case1 b s a t hrun honward ih =>
    obtain ⟨t', hrun', ht⟩ := hattempt.of_eq hs hrun
    rw [Parser.foldMany, hrun']
    simp only [if_pos ((h.location_lt_iff hs ht).2 honward)]
    exact ih t' ht
  | case2 b s a t hrun hstay =>
    obtain ⟨t', hrun', ht⟩ := hattempt.of_eq hs hrun
    rw [Parser.foldMany, hrun']
    simp only [if_neg (mt (h.location_lt_iff hs ht).1 hstay)]
    exact ⟨trivial, ht⟩
  | case3 b s t hrun =>
    obtain ⟨t', hrun', ht⟩ := hattempt.of_eq hs hrun
    rw [Parser.foldMany, hrun']
    exact ⟨rfl, ht⟩
  | case4 b s e t hrun =>
    obtain ⟨t', hrun', ht⟩ := hattempt.of_eq hs hrun
    rw [Parser.foldMany, hrun']
    exact ⟨rfl, ht⟩

theorem separatedItems {sep sep' : Parser β} (hp : InStep R p p') (hsep : InStep R sep sep')
    (items : List α) :
    InStep R (Parser.separatedItems p sep items) (Parser.separatedItems p' sep' items) :=
  fun s s' hs => by
    have hround : InStep R (sep >>= fun _ => p) (sep' >>= fun _ => p') := hsep.bind fun _ => hp
    fun_induction Parser.separatedItems p sep items s generalizing s' with
    | case1 items s a t hrun honward ih =>
      obtain ⟨t', hrun', ht⟩ := hround.of_eq hs hrun
      rw [Parser.separatedItems, hrun']
      simp only [if_pos ((h.location_lt_iff hs ht).2 honward)]
      exact ih t' ht
    | case2 items s a t hrun hstay =>
      obtain ⟨t', hrun', ht⟩ := hround.of_eq hs hrun
      rw [Parser.separatedItems, hrun']
      simp only [if_neg (mt (h.location_lt_iff hs ht).1 hstay)]
      exact ⟨trivial, ht⟩
    | case3 items s t hrun =>
      obtain ⟨t', hrun', ht⟩ := hround.of_eq hs hrun
      rw [Parser.separatedItems, hrun']
      exact ⟨rfl, h.rollback hs ht⟩
    | case4 items s e t hrun =>
      obtain ⟨t', hrun', ht⟩ := hround.of_eq hs hrun
      rw [Parser.separatedItems, hrun']
      exact ⟨rfl, ht⟩

theorem closing (hchar : InStep R literalChar literalChar) {quote : Char}
    (hquote : InStep R (Parser.optional (char quote)) (Parser.optional (char quote))) (c : ι)
    (read : List Char) :
    InStep R (Parser.closing quote (here c) read) (Parser.closing quote (here' c) read) := by
  have hattempt : InStep R (Parser.attempt literalChar) (Parser.attempt literalChar) :=
    h.attempt hchar
  intro s s' hs
  fun_induction Parser.closing quote (here c) read s generalizing s' with
  | case1 read s c t hrun hclose again u hnext ih =>
    obtain ⟨t', hrun', ht⟩ := hattempt.of_eq hs hrun
    obtain ⟨u', hnext', hu⟩ := hquote.of_eq ht hnext
    rw [closing_apply, hrun']
    simp only [if_pos hclose, hnext']
    exact ih u' hu
  | case2 read s c t hrun hclose u hnext =>
    obtain ⟨t', hrun', ht⟩ := hattempt.of_eq hs hrun
    obtain ⟨u', hnext', hu⟩ := hquote.of_eq ht hnext
    rw [closing_apply, hrun']
    simp only [if_pos hclose, hnext']
    exact ⟨trivial, hu⟩
  | case3 read s c t hrun hclose u hnext =>
    obtain ⟨t', hrun', ht⟩ := hattempt.of_eq hs hrun
    obtain ⟨u', hnext', hu⟩ := hquote.of_eq ht hnext
    rw [closing_apply, hrun']
    simp only [if_pos hclose, hnext']
    exact ⟨trivial, hu⟩
  | case4 read s c t hrun hclose e u hnext =>
    obtain ⟨t', hrun', ht⟩ := hattempt.of_eq hs hrun
    obtain ⟨u', hnext', hu⟩ := hquote.of_eq ht hnext
    rw [closing_apply, hrun']
    simp only [if_pos hclose, hnext']
    exact ⟨trivial, hu⟩
  | case5 read s c t hrun hopen ih =>
    obtain ⟨t', hrun', ht⟩ := hattempt.of_eq hs hrun
    rw [closing_apply, hrun']
    simp only [if_neg hopen]
    exact ih t' ht
  | case6 read s t hrun =>
    obtain ⟨t', hrun', ht⟩ := hattempt.of_eq hs hrun
    rw [closing_apply, hrun']
    exact ⟨rfl, h.say ht c _⟩
  | case7 read s e t hrun =>
    obtain ⟨t', hrun', ht⟩ := hattempt.of_eq hs hrun
    rw [closing_apply, hrun']
    exact ⟨rfl, ht⟩

/-! ### All parsers that look at no mode -/

theorem rules : StepRules here here' fun _ p p' => InStep R p p' where
  lt_iff := h.lt_iff
  pure _ _ := fun _ _ hs => ⟨rfl, hs⟩
  absent _ := fun _ _ hs => ⟨rfl, hs⟩
  peek? _ := h.peek?
  next? _ := h.next?
  readWhile _ c := h.readWhile c
  skipBlanks _ := h.skipBlanks
  endOfInput _ := h.endOfInput
  say o k := fun _ _ hs => ⟨rfl, h.say hs o k⟩
  location_bind _ _ _ hf := h.location_bind hf
  bind hp hf := hp.bind hf
  orSay k hp := h.orSay hp _ k
  attempt hp := h.attempt hp
  optional hp := h.optional hp
  lookahead hp := h.lookahead hp
  notFollowedBy hp := h.notFollowedBy hp
  orElse hp hq := h.orElse hp hq
  foldMany f b hp := h.foldMany hp f b
  separatedItems items hp hsep := h.separatedItems hp hsep items
  closing _ read hchar hquote := h.closing hchar hquote _ read

end Lockstep

end Parser

end FortranTokens
