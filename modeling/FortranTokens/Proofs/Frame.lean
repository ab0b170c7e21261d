import FortranTokens.Parser.Chars

/-!
# What a run leaves alone

A run never touches the source or the reading modes, never goes back behind the place where it
started, and only adds to the messages it found: `State.Frame s t` says this of a run from `s` to
`t`.  A parser all of whose runs are like this is `Framed`.  This file gives the rule for every
step that parsers are made of, and for running one parser after another.

The frame is what makes a mark work.  A mark keeps the number of messages only, so rolling back
restores the messages because no run in between has cut or changed the ones counted
(`Frame.rollback`).
-/

namespace FortranTokens

open Text (byteSize)

/-- The offset `n` lies between two characters of a text, or at one of its ends. -/
def Text.IsBoundary (cs : List Char) (n : Nat) : Prop :=
  ∃ front back, cs = front ++ back ∧ byteSize front = n

/-! ## Cursors that read on -/

namespace Cursor

/-- The place `d` is reached from `c` by reading on. -/
def Ahead (c d : Cursor) : Prop :=
  ∃ text, c.rest = text ++ d.rest ∧ d.past = text.reverse ++ c.past

theorem isBoundary_offset (c : Cursor) : Text.IsBoundary c.source c.offset :=
  ⟨c.past.reverse, c.rest, rfl, by rw [Text.byteSize_reverse, offset_eq]⟩

theorem sourceSize_eq (c : Cursor) : c.sourceSize = byteSize c.past + byteSize c.rest := c.size_eq

theorem offset_le_sourceSize (c : Cursor) : c.offset ≤ c.sourceSize := by
  rw [sourceSize_eq, offset_eq]
  exact Nat.le_add_right _ _

namespace Ahead

variable {c d e : Cursor}

theorem refl (c : Cursor) : Ahead c c := ⟨[], rfl, rfl⟩

theorem trans (h₁ : Ahead c d) (h₂ : Ahead d e) : Ahead c e := by
  obtain ⟨t₁, hr₁, hp₁⟩ := h₁
  obtain ⟨t₂, hr₂, hp₂⟩ := h₂
  refine ⟨t₁ ++ t₂, ?_, ?_⟩
  · rw [hr₁, hr₂, List.append_assoc]
  · rw [hp₂, hp₁, List.reverse_append, List.append_assoc]

theorem source_eq (h : Ahead c d) : d.source = c.source := by
  obtain ⟨text, hrest, hpast⟩ := h
  unfold source
  rw [hrest, hpast, List.reverse_append, List.reverse_reverse, List.append_assoc]

theorem offset_le (h : Ahead c d) : c.offset ≤ d.offset := by
  obtain ⟨text, -, hpast⟩ := h
  rw [offset_eq, offset_eq, hpast, Text.byteSize_append]
  exact Nat.le_add_left _ _

/-- Reading on without reading a byte is staying. -/
theorem eq_of_offset_eq (h : Ahead c d) (hoffset : d.offset = c.offset) : d = c := by
  obtain ⟨text, hrest, hpast⟩ := h
  rw [offset_eq, offset_eq, hpast, Text.byteSize_append, Text.byteSize_reverse] at hoffset
  have htext : text = [] := Text.eq_nil_of_byteSize_eq_zero (by omega)
  subst htext
  exact ext_sides hpast hrest.symm

theorem sourceSize_eq (h : Ahead c d) : d.sourceSize = c.sourceSize := by
  obtain ⟨text, hrest, hpast⟩ := h
  rw [Cursor.sourceSize_eq, Cursor.sourceSize_eq, hrest, hpast]
  simp only [Text.byteSize_append, Text.byteSize_reverse]
  omega

end Ahead

theorem ahead_advance (n : Nat) (c : Cursor) : Ahead c (c.advance n) := by
  refine ⟨c.rest.take n, ?_, past_advance n c⟩
  rw [rest_advance, List.take_append_drop]

theorem ahead_of_bump {c d : Cursor} {ch : Char} (h : c.bump = some (ch, d)) : Ahead c d := by
  obtain ⟨hrest, hpast⟩ := bump_eq_some h
  exact ⟨[ch], hrest, hpast⟩

theorem ahead_eatWhile (p : Char → Bool) (c : Cursor) : Ahead c (c.eatWhile p).2 := by
  rw [eatWhile_apply]
  exact ahead_advance _ c

theorem ahead_of_eatPast {goal : UInt8} {c d : Cursor} {found : Bool}
    (h : c.eatPast goal = .ok (found, d)) : Ahead c d := by
  unfold eatPast at h
  split at h
  · split at h <;> cases h <;> exact ahead_advance _ _
  · cases h

end Cursor

/-! ## States -/

namespace State

/-- What was added to the messages since a mark is what is detached at it. -/
theorem takeSince_of_log_eq {s t : State} {ms : List Message} (h : t.log = s.log ++ ms) :
    (t.takeSince s.mark).1 = ms := by
  show t.log.drop s.log.length = ms
  rw [h, List.drop_left]

/-- A run from `s` to `t` reads on, adds to the messages and keeps the reading modes. -/
structure Frame (s t : State) : Prop where
  cursor : s.cursor.Ahead t.cursor
  log : s.log <+: t.log
  options : t.options = s.options

namespace Frame

variable {s t u : State}

theorem refl (s : State) : Frame s s := ⟨.refl _, List.prefix_rfl, rfl⟩

theorem trans (h₁ : Frame s t) (h₂ : Frame t u) : Frame s u :=
  ⟨h₁.cursor.trans h₂.cursor, h₁.log.trans h₂.log, h₂.options.trans h₁.options⟩

theorem of_ahead {c : Cursor} (h : s.cursor.Ahead c) : Frame s { s with cursor := c } :=
  ⟨h, List.prefix_rfl, rfl⟩

theorem of_append (s : State) (ms : List Message) : Frame s { s with log := s.log ++ ms } :=
  ⟨.refl _, List.prefix_append _ _, rfl⟩

theorem location_le (h : Frame s t) : s.location ≤ t.location := h.cursor.offset_le

/-- The messages are the old ones and then those reported since the mark. -/
theorem log_eq (h : Frame s t) : t.log = s.log ++ (t.takeSince s.mark).1 :=
  (List.prefix_iff_eq_append.1 h.log).symm

theorem take_log (h : Frame s t) : t.log.take s.log.length = s.log :=
  (List.prefix_iff_eq_take.1 h.log).symm

/-- A mark leads back to the very state it was taken in. -/
theorem rollback (h : Frame s t) : t.rollback s.mark = s := by
  unfold State.rollback Log.truncate
  show ({ t with cursor := s.cursor, log := t.log.take s.log.length } : State) = s
  rw [h.take_log, h.options]

/-- Detaching the messages reported since a mark leaves the old ones. -/
theorem takeSince_snd (h : Frame s t) : (t.takeSince s.mark).2 = { t with log := s.log } := by
  show ({ t with log := t.log.take s.log.length } : State) = _
  rw [h.take_log]

/-- A mark leads back as well once the messages are detached. -/
theorem rollback_takeSince (h : Frame s t) : (t.takeSince s.mark).2.rollback s.mark = s := by
  have hcut : Frame s { t with log := s.log } := ⟨h.cursor, List.prefix_rfl, h.options⟩
  rw [h.takeSince_snd, hcut.rollback]

end Frame

theorem frame_say (n : Nat) (k : Kind) (s : State) : Frame s (s.say n k) := .of_append s _

theorem frame_next (s : State) : Frame s s.next.2 := by
  unfold next
  split
  · exact .refl s
  · exact .of_ahead (Cursor.ahead_of_bump (by assumption))

theorem frame_skipWhile (p : Char → Bool) (s : State) : Frame s (s.skipWhile p).2 :=
  .of_ahead (Cursor.ahead_eatWhile p s.cursor)

theorem frame_skipBlanks (s : State) : Frame s s.skipBlanks.2 :=
  .of_ahead (Cursor.ahead_eatWhile _ s.cursor)

theorem frame_of_skipPast {goal : UInt8} {s t : State} {found : Bool}
    (h : s.skipPast goal = .ok (found, t)) : Frame s t := by
  unfold skipPast at h
  split at h
  · cases h
    exact .of_ahead (Cursor.ahead_of_eatPast (by assumption))
  · cases h

/-! ### The start of a text -/

theorem toNat_zero_eq_byteSize : (0 : UInt32).toNat = byteSize [] := rfl

theorem toNat_ofNat_byteSize (cs : List Char) (h : byteSize cs < UInt32.size) :
    (UInt32.ofNat (byteSize cs)).toNat = byteSize [] + byteSize cs := by
  rw [UInt32.toNat_ofNat', Nat.mod_eq_of_lt h, Text.byteSize_nil, Nat.zero_add]

/-- The state at the start of a text that is short enough for 32-bit offsets. -/
def start (cs : List Char) (o : Options) (h : byteSize cs < UInt32.size) : State where
  cursor :=
    { past := [], rest := cs, pos := 0, size := UInt32.ofNat (byteSize cs)
      pos_eq := toNat_zero_eq_byteSize
      size_eq := toNat_ofNat_byteSize cs h }
  log := []
  options := o

theorem ofSource?_eq_start {source : String} (o : Options)
    (h : byteSize source.toList < UInt32.size) :
    ofSource? source o = .ok (start source.toList o h) := by
  unfold ofSource? Cursor.ofSource?
  rw [dif_pos h]
  rfl

end State

/-! ## Parsers -/

namespace Parser

open State (Frame)

variable {α β : Type} {p : Parser α} {q : Parser β} {f : α → Parser β}

/-- Every run of the parser leaves alone what no run may touch. -/
def Framed (p : Parser α) : Prop := ∀ s, Frame s (p s).2

theorem Framed.of_eq (hp : Framed p) {s t : State} {r : Reply α} (h : p s = (r, t)) :
    Frame s t := by
  have hs := hp s
  rwa [h] at hs

/-! ### Steps -/

theorem framed_pure (a : α) : Framed (pure a) := fun s => .refl s

theorem framed_absent : Framed (absent : Parser α) := fun s => .refl s

theorem framed_location : Framed location := fun s => .refl s

theorem framed_options : Framed options := fun s => .refl s

theorem framed_peek? : Framed peek? := fun s => .refl s

theorem framed_endOfInput : Framed endOfInput := fun s => .refl s

theorem framed_next? : Framed next? := State.frame_next

theorem framed_readWhile (c : Char → Bool) : Framed (readWhile c) := State.frame_skipWhile c

theorem framed_skipBlanks : Framed skipBlanks := State.frame_skipBlanks

theorem framed_say (n : Nat) (k : Kind) : Framed (say n k) := State.frame_say n k

theorem framed_skipPast (goal : UInt8) : Framed (skipPast goal) := by
  intro s
  unfold skipPast
  split
  · exact State.frame_of_skipPast (by assumption)
  · exact State.frame_of_skipPast (by assumption)
  · exact .refl s

/-! ### One parser after another -/

theorem Framed.bind (hp : Framed p) (hf : ∀ a, Framed (f a)) : Framed (p >>= f) := by
  intro s
  rw [bind_apply]
  rcases h : p s with ⟨a | _ | e, t⟩
  · exact (hp.of_eq h).trans (hf a t)
  · exact hp.of_eq h
  · exact hp.of_eq h

theorem Framed.map (hp : Framed p) (g : α → β) : Framed (g <$> p) := by
  intro s
  rw [map_apply]
  exact hp s

theorem Framed.ite {c : Prop} [Decidable c] {p₁ p₂ : Parser α} (h₁ : Framed p₁) (h₂ : Framed p₂) :
    Framed (if c then p₁ else p₂) := by
  split
  · exact h₁
  · exact h₂

theorem Framed.orSay (hp : Framed p) (n : Nat) (k : Kind) : Framed (orSay n k p) := by
  intro s
  unfold Parser.orSay
  rcases h : p s with ⟨a | _ | e, t⟩
  · exact hp.of_eq h
  · exact (hp.of_eq h).trans (State.frame_say n k t)
  · exact hp.of_eq h

theorem Framed.expecting (hp : Framed p) (k : Kind) : Framed (expecting k p) :=
  framed_location.bind fun start => hp.orSay start k

theorem framed_next : Framed next :=
  framed_next?.bind fun c => match c with
    | some c => framed_pure c
    | none => framed_absent

/-! ### Single characters -/

theorem framed_satisfy (c : Char → Bool) (k : Kind) : Framed (satisfy c k) :=
  Framed.expecting (framed_next.bind fun _ => (framed_pure _).ite framed_absent) k

theorem framed_letter : Framed letter := (framed_satisfy _ _).map _

end Parser

end FortranTokens
