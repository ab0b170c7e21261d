import FortranTokens.Proofs.Lockstep

/-!
# Runs in two places

Two states are twins, seen from two origins, if the same text has been read and the same messages
have been reported since the origins, and the same text lies ahead in the same mode (`Twins`).
Offsets are counted from the origins, so that the twins may stand at different places of different
sources.  Two parsers are `Alike` if from twins they give the same reply and end in twins; a parser
whose text does not mention offsets is alike to itself (`alike_rules`).
-/

namespace FortranTokens

open Text (byteSize)

/-! ## Shifted messages -/

theorem Span.add_start_le_add_stop (n : Nat) (s : Span) : n + s.start ≤ n + s.stop :=
  Nat.add_le_add_left s.start_le_stop n

/-- The span `n` bytes further on. -/
def Span.shift (n : Nat) (s : Span) : Span := ⟨n + s.start, n + s.stop, s.add_start_le_add_stop n⟩

/-- The same message `n` bytes further on. -/
def Message.shift (n : Nat) (m : Message) : Message := ⟨m.kind, m.span.shift n⟩

/-! ## Twins -/

/-- Seen from the origins `o` and `o'` the states `s` and `s'` are the same. -/
structure Twins (o o' s s' : State) : Prop where
  rest : s'.rest = s.rest
  options : s'.options = s.options
  past : ∃ text, s.cursor.past = text ++ o.cursor.past ∧ s'.cursor.past = text ++ o'.cursor.past
  log : ∃ ms : List Message, s.log = o.log ++ ms.map (Message.shift o.location) ∧
    s'.log = o'.log ++ ms.map (Message.shift o'.location)

namespace Twins

variable {o o' s s' t t' : State}

theorem of_rest_eq (hrest : s'.rest = s.rest) (ho : s'.options = s.options) : Twins s s' s s' :=
  ⟨hrest, ho, ⟨[], rfl, rfl⟩, ⟨[], (List.append_nil _).symm, (List.append_nil _).symm⟩⟩

theorem location (h : Twins o o' s s') :
    ∃ n, s.location = o.location + n ∧ s'.location = o'.location + n := by
  obtain ⟨text, hs, hs'⟩ := h.past
  refine ⟨byteSize text, ?_, ?_⟩
  · show s.cursor.offset = o.cursor.offset + _
    rw [Cursor.offset_eq, Cursor.offset_eq, hs, Text.byteSize_append, Nat.add_comm]
  · show s'.cursor.offset = o'.cursor.offset + _
    rw [Cursor.offset_eq, Cursor.offset_eq, hs', Text.byteSize_append, Nat.add_comm]

theorem advance (h : Twins o o' s s') (n : Nat) : Twins o o' (s.advance n) (s'.advance n) := by
  obtain ⟨text, hs, hs'⟩ := h.past
  refine ⟨?_, h.options, ⟨(s.rest.take n).reverse ++ text, ?_, ?_⟩, h.log⟩
  · rw [State.rest_advance, State.rest_advance, h.rest]
  · show (s.cursor.advance n).past = _
    rw [Cursor.past_advance, hs, List.append_assoc]
    rfl
  · show (s'.cursor.advance n).past = _
    rw [Cursor.past_advance, hs', List.append_assoc, ← h.rest]
    rfl

theorem report (h : Twins o o' s s') (ms : List Message) :
    Twins o o' (s.report (ms.map (Message.shift o.location)))
      (s'.report (ms.map (Message.shift o'.location))) := by
  obtain ⟨before, hs, hs'⟩ := h.log
  refine ⟨h.rest, h.options, h.past, ⟨before ++ ms, ?_, ?_⟩⟩
  · rw [State.log_report, hs, List.append_assoc, List.map_append]
  · rw [State.log_report, hs', List.append_assoc, List.map_append]

theorem say (h : Twins o o' s s') (n : Nat) (k : Kind) :
    Twins o o' (s.say (o.location + n) k) (s'.say (o'.location + n) k) :=
  h.report [.ofOffset n k]

theorem log_take (h : Twins o o' s s') (h' : Twins o o' t t') :
    ∃ ms : List Message,
      t.log.take s.log.length = o.log ++ ms.map (Message.shift o.location) ∧
        t'.log.take s'.log.length = o'.log ++ ms.map (Message.shift o'.location) := by
  obtain ⟨ms, hs, hs'⟩ := h.log
  obtain ⟨ns, ht, ht'⟩ := h'.log
  refine ⟨ns.take ms.length, ?_, ?_⟩
  · rw [ht, hs, List.length_append, List.take_length_add_append, List.length_map, List.map_take]
  · rw [ht', hs', List.length_append, List.take_length_add_append, List.length_map, List.map_take]

/-- Going back to a mark keeps twins, for the twins had reported the same messages by then. -/
theorem rollback (h : Twins o o' s s') (h' : Twins o o' t t') :
    Twins o o' (t.rollback s.mark) (t'.rollback s'.mark) :=
  ⟨h.rest, h'.options, h.past, h.log_take h'⟩

theorem takeSince_snd (h : Twins o o' s s') (h' : Twins o o' t t') :
    Twins o o' (t.takeSince s.mark).2 (t'.takeSince s'.mark).2 :=
  ⟨h'.rest, h'.options, h'.past, h.log_take h'⟩

/-- The messages reported between two pairs of twins are the same. -/
theorem takeSince (h : Twins o o' s s') (h' : Twins o o' t t') :
    ∃ ms : List Message, (t.takeSince s.mark).1 = ms.map (Message.shift o.location) ∧
      (t'.takeSince s'.mark).1 = ms.map (Message.shift o'.location) := by
  obtain ⟨ms, hs, hs'⟩ := h.log
  obtain ⟨ns, ht, ht'⟩ := h'.log
  refine ⟨ns.drop ms.length, ?_, ?_⟩
  · show t.log.drop s.log.length = _
    rw [ht, hs, List.length_append, List.drop_append, List.length_map, List.map_drop]
    simp
  · show t'.log.drop s'.log.length = _
    rw [ht', hs', List.length_append, List.drop_append, List.length_map, List.map_drop]
    simp

/-- Twins read on in step.  Places are counted from the origins. -/
theorem lockstep (o o' : State) :
    Parser.Lockstep (fun n => o.location + n) (fun n => o'.location + n) (Twins o o') where
  lt_iff m n := by omega
  rest h := h.rest
  location h := h.location
  advance h n := h.advance n
  say h n k := h.say n k
  rollback h h' := h.rollback h'
  takeSince h h' := h.takeSince_snd h'
  restore h h' hu := by
    obtain ⟨ms, hms, hms'⟩ := h.takeSince h'
    rw [hms, hms']
    exact hu.report ms

end Twins

/-! ## Parsers -/

namespace Parser

/-- From twins the two parsers give the same reply and end in twins. -/
def Alike {α : Type} (o o' : State) (p p' : Parser α) : Prop := InStep (Twins o o') p p'

theorem alike_options (o o' : State) : Alike o o' options options := fun s s' h => by
  refine ⟨?_, h⟩
  show Reply.present s'.options = Reply.present s.options
  rw [h.options]

theorem alike_rules (o o' : State) :
    Rules (fun n => o.location + n) (fun n => o'.location + n) fun _ p p' => Alike o o' p p' where
  toStepRules := (Twins.lockstep o o').rules
  options _ := alike_options o o'

end Parser

end FortranTokens
