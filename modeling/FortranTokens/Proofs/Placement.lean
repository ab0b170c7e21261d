import FortranTokens.Proofs.Engine

/-!
# Where messages point

A message is about one place of the text that was tried: not before the place where the parser
started, and, when its value is present, not after the place where it ended.  An absent choice may
keep messages about places after the one where it left the cursor, but whatever makes a value out of
an absence drops the messages first, so that the second bound is kept as well
(`Grammar.messages_placed`).
-/

namespace FortranTokens

/-! ## Messages about places -/

namespace State

variable {R R' : Cursor → Prop} {s t u : State}

/-- What was reported from `s` to `t`: each message is about one place, of which `R` is true. -/
def Reports (R : Cursor → Prop) (s t : State) : Prop :=
  ∃ ms : List Message, t.log = s.log ++ ms ∧ ∀ m ∈ ms, ∃ c, R c ∧ m.span = .ofOffset c.offset

namespace Reports

theorem of_log_eq (h : t.log = s.log) : Reports R s t :=
  ⟨[], h.trans (List.append_nil _).symm, List.forall_mem_nil _⟩

theorem mono (hR : ∀ c, R c → R' c) (h : Reports R s t) : Reports R' s t := by
  obtain ⟨ms, hlog, hms⟩ := h
  refine ⟨ms, hlog, fun m hm => ?_⟩
  obtain ⟨c, hc, hspan⟩ := hms m hm
  exact ⟨c, hR c hc, hspan⟩

theorem trans (h : Reports R s t) (h' : Reports R t u) : Reports R s u := by
  obtain ⟨ms, hlog, hms⟩ := h
  obtain ⟨ms', hlog', hms'⟩ := h'
  refine ⟨ms ++ ms', ?_, ?_⟩
  · rw [hlog', hlog, List.append_assoc]
  · intro m hm
    rcases List.mem_append.1 hm with hm | hm
    · exact hms m hm
    · exact hms' m hm

theorem say {c : Cursor} (hc : R c) (k : Kind) (s : State) : Reports R s (s.say c.offset k) := by
  refine ⟨[.ofOffset c.offset k], rfl, ?_⟩
  intro m hm
  obtain rfl := List.mem_singleton.1 hm
  exact ⟨c, hc, rfl⟩

/-- Of what two runs from the same state reported, any part may be kept. -/
theorem keepFurther (ht : Reports R s t) (hu : Reports R s u) (m n : Nat) (v : State) :
    Reports R s { v with
      log := s.log ++ Parser.keepFurther m n (t.takeSince s.mark).1 (u.takeSince s.mark).1 } := by
  obtain ⟨ms, hlog, hms⟩ := ht
  obtain ⟨ns, hlog', hns⟩ := hu
  rw [State.takeSince_of_log_eq hlog, State.takeSince_of_log_eq hlog']
  refine ⟨Parser.keepFurther m n ms ns, rfl, fun a ha => ?_⟩
  unfold Parser.keepFurther at ha
  split at ha
  · exact hms a ha
  · split at ha
    · exact hns a ha
    · rcases List.mem_append.1 ha with ha | ha
      · exact hms a ha
      · exact hns a ha

end Reports

theorem log_next (s : State) : s.next.2.log = s.log := by
  unfold next
  split <;> rfl

end State

/-! ## Parsers -/

namespace Parser

open State (Frame Reports)

variable {α β γ : Type} {o : Cursor} {p q : Parser α} {s t : State}

/-- What a run from `s` reports is about places from `o` on, and up to the one where it ended unless
it is absent. -/
def Located (o : Cursor) (s : State) : Reply α × State → Prop
  | (.absent, t) => Reports o.Ahead s t
  | (_, t) => Reports (fun c => o.Ahead c ∧ c.Ahead t.cursor) s t

theorem Located.of_log_eq {r : Reply α × State} (h : r.2.log = s.log) : Located o s r := by
  rcases r with ⟨a | _ | e, t⟩ <;> exact Reports.of_log_eq h

theorem Located.mono {c : Cursor} (ho : o.Ahead c) {r : Reply α × State} (h : Located c s r) :
    Located o s r := by
  rcases r with ⟨a | _ | e, t⟩
  · exact Reports.mono (fun d hd => ⟨ho.trans hd.1, hd.2⟩) h
  · exact Reports.mono (fun d hd => ho.trans hd) h
  · exact Reports.mono (fun d hd => ⟨ho.trans hd.1, hd.2⟩) h

theorem Located.reports {r : Reply α × State} (h : Located o s r) :
    Reports (fun c => o.Ahead c ∧ (r.1 ≠ .absent → c.Ahead r.2.cursor)) s r.2 := by
  rcases r with ⟨a | _ | e, t⟩
  · exact Reports.mono (fun c hc => ⟨hc.1, fun _ => hc.2⟩) h
  · exact Reports.mono (fun c hc => ⟨hc, fun hr => absurd rfl hr⟩) h
  · exact Reports.mono (fun c hc => ⟨hc.1, fun _ => hc.2⟩) h

/-- A run that goes on where another one was present. -/
theorem Located.after {a : α} {r : Reply β × State} (h : Located o s (.present a, t))
    (hframe : Frame t r.2) (hr : Located o t r) : Located o s r := by
  have hon : ∀ c, o.Ahead c ∧ c.Ahead t.cursor → o.Ahead c ∧ c.Ahead r.2.cursor :=
    fun c hc => ⟨hc.1, hc.2.trans hframe.cursor⟩
  rcases r with ⟨b | _ | e, u⟩
  · exact (Reports.mono hon h).trans hr
  · exact (Reports.mono (fun c hc => hc.1) h).trans hr
  · exact (Reports.mono hon h).trans hr

/-- The parser leaves alone what no run may touch, and from `o` on its messages are about places of
the text that it tried. -/
structure Placed (o : Cursor) (p : Parser α) : Prop where
  framed : Framed p
  located : ∀ s, o.Ahead s.cursor → Located o s (p s)

theorem Placed.of_eq (hp : Placed o p) (ho : o.Ahead s.cursor) {r : Reply α × State}
    (h : p s = r) : Located o s r := h ▸ hp.located s ho

/-- A parser that reports nothing. -/
theorem Framed.placed (hp : Framed p) (hlog : ∀ s, (p s).2.log = s.log) : Placed o p :=
  ⟨hp, fun s _ => .of_log_eq (hlog s)⟩

theorem placed_skipPast (goal : UInt8) : Placed o (skipPast goal) := by
  refine (framed_skipPast goal).placed fun s => ?_
  rw [skipPast_apply]
  split
  · split <;> rfl
  · rfl

theorem placed_say (o : Cursor) (k : Kind) : Placed o (say o.offset k) :=
  ⟨framed_say _ k, fun s ho => .say ⟨.refl o, ho⟩ k s⟩

/-! ### One parser after another -/

theorem placed_location_bind {f : Nat → Parser α} (hf : ∀ c, Placed c (f c.offset)) :
    Placed o (location >>= f) :=
  ⟨fun s => (hf s.cursor).framed s, fun s ho => .mono ho ((hf s.cursor).located s (.refl _))⟩

theorem Placed.bind {f : α → Parser β} (hp : Placed o p) (hf : ∀ a, Placed o (f a)) :
    Placed o (p >>= f) := by
  refine ⟨hp.framed.bind fun a => (hf a).framed, fun s ho => ?_⟩
  rw [bind_apply]
  rcases hs : p s with ⟨a | _ | e, t⟩
  · have hframe : Frame s t := hp.framed.of_eq hs
    exact (hp.of_eq ho hs).after ((hf a).framed t) ((hf a).located t (ho.trans hframe.cursor))
  · exact hp.of_eq ho hs
  · exact hp.of_eq ho hs

theorem Placed.orSay (hp : Placed o p) (k : Kind) : Placed o (orSay o.offset k p) := by
  refine ⟨hp.framed.orSay _ k, fun s ho => ?_⟩
  unfold Parser.orSay
  rcases hs : p s with ⟨a | _ | e, t⟩
  · exact hp.of_eq ho hs
  · exact Reports.trans (hp.of_eq ho hs) (.say (.refl o) k t)
  · exact hp.of_eq ho hs

/-! ### Going back and choosing -/

theorem Placed.attempt (hp : Placed o p) : Placed o (attempt p) := by
  refine ⟨hp.framed.attempt, fun s ho => ?_⟩
  rw [hp.framed.attempt_apply]
  rcases hs : p s with ⟨a | _ | e, t⟩
  · exact hp.of_eq ho hs
  · exact .of_log_eq rfl
  · exact hp.of_eq ho hs

theorem Placed.optional (hp : Placed o p) : Placed o (optional p) := by
  refine ⟨hp.framed.optional, fun s ho => ?_⟩
  rw [optional_apply, hp.framed.attempt_apply]
  rcases hs : p s with ⟨a | _ | e, t⟩
  · exact hp.of_eq ho hs
  · exact .of_log_eq rfl
  · exact hp.of_eq ho hs

theorem Placed.lookahead (hp : Placed o p) : Placed o (lookahead p) := by
  refine ⟨hp.framed.lookahead, fun s ho => ?_⟩
  rw [hp.framed.lookahead_apply]
  rcases hs : p s with ⟨a | _ | e, t⟩
  · exact .of_log_eq rfl
  · exact .of_log_eq rfl
  · exact hp.of_eq ho hs

theorem Placed.notFollowedBy (hp : Placed o p) : Placed o (notFollowedBy p) := by
  refine ⟨hp.framed.notFollowedBy, fun s ho => ?_⟩
  rw [hp.framed.notFollowedBy_apply]
  rcases hs : p s with ⟨a | _ | e, t⟩
  · exact .of_log_eq rfl
  · exact .of_log_eq rfl
  · exact hp.of_eq ho hs

theorem Placed.orElse (hp : Placed o p) (hq : Placed o q) : Placed o (orElse p q) := by
  refine ⟨hp.framed.orElse hq.framed, fun s ho => ?_⟩
  rw [hp.framed.orElse_apply hq.framed]
  rcases hs : p s with ⟨a | _ | e, t⟩
  · exact hp.of_eq ho hs
  · rcases hu : q s with ⟨b | _ | e, u⟩
    · exact hq.of_eq ho hu
    · exact Reports.keepFurther (hp.of_eq ho hs) (hq.of_eq ho hu) _ _ u
    · exact hq.of_eq ho hu
  · exact hp.of_eq ho hs

/-! ### Repetition -/

theorem Placed.of_rounds (hp : Placed o p) {as : List α} (h : Rounds p s as t)
    (ho : o.Ahead s.cursor) : Frame s t ∧ Located o s (.present as, t) := by
  induction h with
  | done s => exact ⟨.refl s, .of_log_eq rfl⟩
  | more hrun _ _ ih =>
    have hframe : Frame _ _ := hp.framed.of_eq hrun
    obtain ⟨hrest, hlocated⟩ := ih (ho.trans hframe.cursor)
    exact ⟨hframe.trans hrest, (hp.of_eq ho hrun).after hrest hlocated⟩

theorem Placed.of_lastRound (hp : Placed o p) (ho : o.Ahead t.cursor) (result : List α → β)
    (as : List α) : Frame t (lastRound p t result as).2 ∧ Located o t (lastRound p t result as) := by
  unfold lastRound
  rcases ht : p t with ⟨a | _ | e, u⟩
  · exact ⟨hp.framed.of_eq ht, hp.of_eq ho ht⟩
  · exact ⟨.refl t, .of_log_eq rfl⟩
  · exact ⟨hp.framed.of_eq ht, hp.of_eq ho ht⟩

/-- What ends in the last one of some rounds. -/
theorem Placed.located_lastRound (hp : Placed o p) (ho : o.Ahead s.cursor) {as : List α}
    (h : Rounds p s as t) (result : List α → β) : Located o s (lastRound p t result as) := by
  obtain ⟨hframe, hlocated⟩ := hp.of_rounds h ho
  obtain ⟨hlastFrame, hlast⟩ := hp.of_lastRound (ho.trans hframe.cursor) result as
  exact hlocated.after hlastFrame hlast

theorem Placed.foldMany (hp : Placed o p) (f : γ → α → γ) (b : γ) : Placed o (foldMany f b p) := by
  refine ⟨hp.framed.foldMany f b, fun s ho => ?_⟩
  obtain ⟨as, u, h, hu⟩ := exists_rounds p s
  rw [hp.framed.foldMany_of_rounds h hu]
  exact hp.located_lastRound ho h _

theorem Placed.separatedItems {sep : Parser β} (hp : Placed o p) (hsep : Placed o sep)
    (items : List α) : Placed o (separatedItems p sep items) := by
  have hround : Placed o (sep >>= fun _ => p) := hsep.bind fun _ => hp
  refine ⟨hp.framed.separatedItems hsep.framed items, fun s ho => ?_⟩
  obtain ⟨as, u, h, hu⟩ := exists_rounds (sep >>= fun _ => p) s
  rw [hp.framed.separatedItems_of_rounds hsep.framed h hu]
  exact hround.located_lastRound ho h _

/-! ### Quoted literals -/

theorem Placed.closing (hchar : Placed o literalChar) {quote : Char}
    (hquote : Placed o (Parser.optional (char quote))) (read : List Char) :
    Placed o (closing quote o.offset read) := by
  have hframed (read : List Char) : Framed (Parser.closing quote o.offset read) :=
    hchar.framed.closing hquote.framed o.offset read
  have hattempt : Placed o (Parser.attempt literalChar) := hchar.attempt
  have hquoted :
      Placed o (Parser.attempt literalChar >>= fun _ => Parser.optional (char quote)) :=
    hattempt.bind fun _ => hquote
  refine ⟨hframed read, fun s ho => ?_⟩
  fun_induction Parser.closing quote o.offset read s with
  | case1 read s c t hrun hclose again u hnext ih =>
    have hsu : (Parser.attempt literalChar >>= fun _ => Parser.optional (char quote)) s =
        (.present (some again), u) :=
      (bind_of_present hrun _).trans hnext
    have hframe : Frame s u := hquoted.framed.of_eq hsu
    exact (hquoted.of_eq ho hsu).after (hframed _ u)
      (ih (ho.trans hframe.cursor))
  | case2 read s c t hrun hclose u hnext =>
    exact hquoted.of_eq ho ((bind_of_present hrun _).trans hnext)
  | case3 read s c t hrun hclose u hnext =>
    exact hquoted.of_eq ho ((bind_of_present hrun _).trans hnext)
  | case4 read s c t hrun hclose e u hnext =>
    exact hquoted.of_eq ho ((bind_of_present hrun _).trans hnext)
  | case5 read s c t hrun hopen ih =>
    have hframe : Frame s t := hattempt.framed.of_eq hrun
    exact (hattempt.of_eq ho hrun).after (hframed _ t)
      (ih (ho.trans hframe.cursor))
  | case6 read s t hrun => exact Reports.trans (hattempt.of_eq ho hrun) (.say (.refl o) _ t)
  | case7 read s e t hrun => exact hattempt.of_eq ho hrun

theorem placed_rules : Rules Cursor.offset Cursor.offset fun o p _ => Placed o p where
  lt_iff _ _ := Iff.rfl
  pure _ a := (framed_pure a).placed fun _ => rfl
  absent _ := framed_absent.placed fun _ => rfl
  options _ := framed_options.placed fun _ => rfl
  peek? _ := framed_peek?.placed fun _ => rfl
  next? _ := framed_next?.placed State.log_next
  readWhile _ c := (framed_readWhile c).placed fun _ => rfl
  skipBlanks _ := framed_skipBlanks.placed fun _ => rfl
  endOfInput _ := framed_endOfInput.placed fun _ => rfl
  say o k := placed_say o k
  location_bind _ _ _ hf := placed_location_bind hf
  bind hp hf := hp.bind hf
  orSay k hp := hp.orSay k
  attempt hp := hp.attempt
  optional hp := hp.optional
  lookahead hp := hp.lookahead
  notFollowedBy hp := hp.notFollowedBy
  orElse hp hq := hp.orElse hq
  foldMany f b hp := hp.foldMany f b
  separatedItems items hp hsep := hp.separatedItems hsep items
  closing _ read hchar hquote := hchar.closing hquote read

end Parser

namespace Grammar

open FortranTokens.Parser

variable {α : Type}

theorem placed_run (g : Grammar α) (o : Cursor) : Placed o g.run :=
  placed_rules.run g (fun goal _ _ => placed_skipPast goal) o

theorem messages_placed (g : Grammar α) (s : State) :
    ∃ ms, (g.run s).2.log = s.log ++ ms ∧
      ∀ m ∈ ms, m.span.isEmpty ∧ Text.IsBoundary s.cursor.source m.span.start ∧
        s.location ≤ m.span.start ∧ m.span.start ≤ s.cursor.sourceSize ∧
        ∀ a, (g.run s).1 = .present a → m.span.start ≤ (g.run s).2.location := by
  have h : Located s.cursor s (g.run s) := (g.placed_run s.cursor).located s (.refl _)
  obtain ⟨ms, hlog, hms⟩ := h.reports
  refine ⟨ms, hlog, fun m hm => ?_⟩
  obtain ⟨c, ⟨hc, hend⟩, hspan⟩ := hms m hm
  rw [hspan]
  refine ⟨beq_self_eq_true c.offset, ?boundary, hc.offset_le, ?inside, ?before⟩
  case boundary =>
    rw [← hc.source_eq]
    exact c.isBoundary_offset
  case inside =>
    rw [← hc.sourceSize_eq]
    exact c.offset_le_sourceSize
  case before =>
    intro a ha
    exact (hend (by rw [ha]; nofun)).offset_le

/-- An absent choice may keep a message about a place after the one where it left the cursor: the
quoted literal read on to the end of the source, but the choice stops where its second alternative
did. -/
example :
    let s := State.start ['\'', 'x'] {} (by decide)
    let g := orElse quotedLiteral hollerith
    (g.run s).1 = .absent ∧ (g.run s).2.location = 0 ∧
      (g.run s).2.log = [.ofOffset 1 .unclosedCharConstant] := by
  decide +kernel

end Grammar

end FortranTokens
