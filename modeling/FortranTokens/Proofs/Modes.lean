import FortranTokens.Proofs.LiteralReading
import FortranTokens.Proofs.Lockstep

/-!
# What the reading modes reach

Two runs over one source, in different modes, stay in step until one of them finds a use for the
switch in which the modes differ.  Strict conformance is of use to binary, octal and hexadecimal
constants only, escapes to quoted literals only, and to these only where a backslash is read.  A
switch that is of no use to a grammar does not change what is seen of its runs
(`Grammar.seen_run_of_unused_mode`).
-/

namespace FortranTokens

namespace Parser

variable {α : Type} {source : List Char} {m m' : Options}

/-- What is seen of a run: the reply, the place reached, and the messages. -/
def seen (run : Reply α × State) : Reply α × Cursor × Log := (run.1, run.2.cursor, run.2.log)

/-- The states of two runs over one source, in the modes `m` and `m'`, that differ in nothing
else. -/
structure OtherMode (source : List Char) (m m' : Options) (s s' : State) : Prop where
  cursor : s'.cursor = s.cursor
  log : s'.log = s.log
  source : s.cursor.source = source
  first : s.options = m
  second : s'.options = m'

namespace OtherMode

variable {s s' t t' : State}

theorem mem_source {c : Char} {cs : List Char} (h : OtherMode source m m' s s')
    (hrest : s.rest = c :: cs) : c ∈ source := by
  have hmem : c ∈ s.cursor.rest := by
    show c ∈ s.rest
    rw [hrest]
    exact List.mem_cons_self
  rw [← h.source]
  exact List.mem_append_right _ hmem

/-- The messages reported since a mark are the same in both runs. -/
theorem takeSince_eq (h : OtherMode source m m' s s') (h' : OtherMode source m m' t t') :
    (t'.takeSince s'.mark).1 = (t.takeSince s.mark).1 := by
  show t'.log.drop s'.log.length = t.log.drop s.log.length
  rw [h.log, h'.log]

theorem log_take (h : OtherMode source m m' s s') (h' : OtherMode source m m' t t') :
    t'.log.take s'.log.length = t.log.take s.log.length := by
  rw [h.log, h'.log]

/-- No step but a look at the modes tells the two runs apart. -/
theorem lockstep (source : List Char) (m m' : Options) :
    Lockstep id id (OtherMode source m m') where
  lt_iff _ _ := Iff.rfl
  rest h := congrArg Cursor.rest h.cursor
  location h := ⟨_, rfl, congrArg Cursor.offset h.cursor⟩
  advance h n :=
    { h with
      cursor := congrArg (Cursor.advance n) h.cursor
      source := (Cursor.source_advance n _).trans h.source }
  say h n k := { h with log := congrArg (fun log => log.push (.ofOffset n k)) h.log }
  rollback h h' := { h with log := h.log_take h', first := h'.first, second := h'.second }
  takeSince h h' := { h' with log := h.log_take h' }
  restore h h' hu := by
    rw [h.takeSince_eq h']
    exact { hu with log := congrArg (· ++ _) hu.log }

end OtherMode

/-! ## The two literals that look at the modes -/

theorem looksUp_of_eq {view : Options → Bool} (hview : view m = view m') :
    LooksUp (fun (_ : Nat) p p' => InStep (OtherMode source m m') p p') view := by
  intro α _ f f' hf s s' hs
  rw [options_bind, options_bind]
  refine hf s.options s'.options ?_ s s' hs
  rw [hs.first, hs.second, hview]

theorem inStep_next_bind {f f' : Char → Parser α}
    (hf : ∀ c ∈ source, InStep (OtherMode source m m') (f c) (f' c)) :
    InStep (OtherMode source m m') (next >>= f) (next >>= f') := fun s s' hs => by
  have h := OtherMode.lockstep source m m'
  rcases hrest : s.rest with _ | ⟨c, cs⟩
  · have hrest' : s'.rest = [] := (h.rest hs).trans hrest
    rw [bind_of_absent (next_of_nil hrest), bind_of_absent (next_of_nil hrest')]
    exact ⟨rfl, hs⟩
  · have hrest' : s'.rest = c :: cs := (h.rest hs).trans hrest
    rw [bind_of_present (next_of_cons hrest), bind_of_present (next_of_cons hrest')]
    exact hf c (hs.mem_source hrest) _ _ (h.advance hs 1)

/-- The modes are looked at after the character, and count for a backslash only. -/
theorem inStep_literalChar (hno : '\\' ∉ source) :
    InStep (OtherMode source m m') literalChar literalChar := by
  have h := OtherMode.lockstep source m m'
  refine h.location_bind fun start => inStep_next_bind fun c hc => ?_
  have hplain : c ≠ '\\' := by
    rintro rfl
    exact hno hc
  split
  · exact h.rules.failAt start _
  · intro s s' hs
    rw [options_bind, options_bind]
    simp only [hplain, false_and, if_false]
    exact ⟨rfl, hs⟩

end Parser

/-! ## Grammars -/

namespace Grammar

open FortranTokens.Parser

variable {α : Type} {source : List Char} {m m' : Options}

/-- Runs in two modes stay in step if the grammar has no use for the switches in which the modes
differ. -/
theorem inStep_run (g : Grammar α) (hstrict : g.Uses .boz → m.strict = m'.strict)
    (hescapes : g.Uses .quoted → m.escapes = m'.escapes ∨ '\\' ∉ source) :
    InStep (OtherMode source m m') g.run g.run := by
  have h := OtherMode.lockstep source m m'
  refine h.rules.run g (fun part hu => ?_) 0
  cases part with
  | search goal => exact fun _ => h.skipPast goal
  | boz => exact h.rules.boz (looksUp_of_eq (hstrict hu))
  | quoted =>
    rcases hescapes hu with heq | hno
    · exact h.rules.literalChar (looksUp_of_eq heq)
    · exact fun _ => inStep_literalChar hno

theorem seen_run_eq (g : Grammar α) (s : State) (hstrict : g.Uses .boz → m.strict = m'.strict)
    (hescapes : g.Uses .quoted → m.escapes = m'.escapes ∨ '\\' ∉ s.cursor.source) :
    seen (g.run { s with options := m }) = seen (g.run { s with options := m' }) := by
  have hstart : OtherMode s.cursor.source m m' { s with options := m } { s with options := m' } :=
    ⟨rfl, rfl, rfl, rfl, rfl⟩
  obtain ⟨hreply, hend⟩ := g.inStep_run hstrict hescapes _ _ hstart
  unfold seen
  rw [hreply, hend.cursor, hend.log]

/-- Escapes do not change what is seen of a run where no backslash is in the source, or no quoted
literal in the grammar; nor does strict conformance where no binary, octal or hexadecimal constant
is in the grammar. -/
theorem seen_run_of_unused_mode (g : Grammar α) (s : State) :
    ('\\' ∉ s.cursor.source ∨ ¬g.Uses .quoted →
      seen (g.run { s with options := s.options.set .escapes true }) =
        seen (g.run { s with options := s.options.set .escapes false })) ∧
    (¬g.Uses .boz →
      seen (g.run { s with options := s.options.set .strict true }) =
        seen (g.run { s with options := s.options.set .strict false })) := by
  constructor
  · intro hunused
    refine g.seen_run_eq s (fun _ => rfl) fun hquoted => ?_
    rcases hunused with hno | hnot
    · exact .inr hno
    · exact absurd hquoted hnot
  · intro hnot
    exact g.seen_run_eq s (fun hboz => absurd hboz hnot) fun _ => .inl rfl

/-- A quoted literal without a backslash, in which neither switch is asked for anything, and a
hexadecimal constant with a backslash behind it. -/
theorem literals_seen_in_all_modes :
    let s := State.start ['\'', 'a', '\'', '\'', 'b', '\''] {} (by decide)
    let t := State.start ['Z', '"', '1', 'F', '"', '\\'] {} (by decide)
    ('\\' ∉ s.cursor.source ∧ ¬quotedLiteral.Uses .boz ∧
      (quotedLiteral.run s).1 = .present "a'b" ∧
      seen (quotedLiteral.run { s with options := s.options.set .escapes true }) =
        seen (quotedLiteral.run { s with options := s.options.set .escapes false }) ∧
      seen (quotedLiteral.run { s with options := s.options.set .strict true }) =
        seen (quotedLiteral.run { s with options := s.options.set .strict false })) ∧
    '\\' ∈ t.cursor.source ∧ ¬boz.Uses .quoted ∧ (boz.run t).1 = .present 31 ∧
      seen (boz.run { t with options := t.options.set .escapes true }) =
        seen (boz.run { t with options := t.options.set .escapes false }) := by
  intro s t
  have hsource : '\\' ∉ s.cursor.source := by decide +kernel
  have hliteral : ¬quotedLiteral.Uses .boz := nofun
  have hboz : ¬boz.Uses .quoted := nofun
  obtain ⟨hescapes, hstrict⟩ := quotedLiteral.seen_run_of_unused_mode s
  exact ⟨⟨hsource, hliteral, by decide +kernel, hescapes (.inl hsource), hstrict hliteral⟩,
    by decide +kernel, hboz, by decide +kernel,
    (boz.seen_run_of_unused_mode t).1 (.inr hboz)⟩

/-- A literal with a backslash is where escapes do matter. -/
example :
    let s := State.start ['\'', '\\', 'n', '\''] {} (by decide)
    (quotedLiteral.run { s with options := s.options.set .escapes true }).1 = .present "\n" ∧
      (quotedLiteral.run { s with options := s.options.set .escapes false }).1 =
        .present "\\n" := by
  decide +kernel

end Grammar

end FortranTokens
