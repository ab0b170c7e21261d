import FortranTokens.Proofs.Faultless
import FortranTokens.Proofs.Locality

/-!
# Repetitions, run by run

`Repeated p s items e` is the record of a repetition of `p` from `s` to `e`: the value and the
messages of every run, in order.  For a parser without faults there is always such a record
(`exists_repeated`), and it decides what the repetition yields and where it ends
(`Framed.many_of_repeated`).  A repetition that is run again where it ended stays there
(`Repeated.again`): its last run was absent there, or was present there without reading, and so
it is again.
-/

namespace FortranTokens

namespace Parser

open State (Frame)

variable {α β γ : Type} {p : Parser α} {s t e u : State} {items : List (α × List Message)}

/-- Runs of `p` one after the other, each from where the one before it ended, with their values and
messages.  They end before a run that is absent, which leaves no trace, or with one that does not
move on. -/
inductive Repeated (p : Parser α) : State → List (α × List Message) → State → Prop where
  /-- A run would be absent. -/
  | absent {s t : State} (run : p s = (.absent, t)) : Repeated p s [] s
  /-- One run, which does not move on. -/
  | inPlace {s t : State} {a : α} {ms : List Message} (run : p s = (.present a, t))
      (said : t.log = s.log ++ ms) (still : t.location = s.location) : Repeated p s [(a, ms)] t
  /-- One run, which moves on, and then the others. -/
  | onward {s t e : State} {a : α} {ms : List Message} {items : List (α × List Message)}
      (run : p s = (.present a, t)) (said : t.log = s.log ++ ms)
      (moved : s.location < t.location) (others : Repeated p t items e) :
      Repeated p s ((a, ms) :: items) e

/-! ## Every repetition has its record -/

theorem Framed.repeated_of_rounds (hp : Framed p) (hfault : Faultless p) {as : List α}
    (h : Rounds p s as u) (hu : Stops p u) : ∃ items e, Repeated p s items e := by
  induction h with
  | done s =>
    obtain ⟨a, t, hs⟩ | ⟨t, hs⟩ := hfault.present_or_absent s
    · have hframe : Frame s t := hp.of_eq hs
      have hstill : t.location = s.location :=
        Nat.le_antisymm (Nat.le_of_not_lt (hu a t hs)) hframe.location_le
      exact ⟨_, t, .inPlace hs hframe.log_eq hstill⟩
    · exact ⟨[], s, .absent hs⟩
  | more hrun honward hrest ih =>
    obtain ⟨items, e, hothers⟩ := ih hu
    exact ⟨_, e, .onward hrun (hp.of_eq hrun).log_eq honward hothers⟩

theorem Framed.exists_repeated (hp : Framed p) (hfault : Faultless p) (s : State) :
    ∃ items e, Repeated p s items e := by
  obtain ⟨as, u, h, hu⟩ := exists_rounds p s
  exact hp.repeated_of_rounds hfault h hu

/-! ## What the record tells -/

theorem Framed.foldMany_of_repeated (hp : Framed p) (h : Repeated p s items e) (f : γ → α → γ)
    (b : γ) : Parser.foldMany f b p s = (.present ((items.map Prod.fst).foldl f b), e) := by
  induction h generalizing b with
  | absent hrun =>
    rw [Parser.foldMany, hp.attempt_of_absent hrun]
    rfl
  | inPlace hrun hsaid hstill =>
    rw [Parser.foldMany, attempt_of_present hrun]
    exact if_neg (by omega)
  | onward hrun hsaid hmoved hothers ih =>
    rw [Parser.foldMany, attempt_of_present hrun]
    simp only [if_pos hmoved]
    exact ih (f b _)

theorem Framed.many_of_repeated (hp : Framed p) (h : Repeated p s items e) :
    Parser.many p s = (.present (items.map Prod.fst), e) := by
  rw [many_apply, hp.foldMany_of_repeated h]
  show (Reply.present ((items.map Prod.fst).foldl (fun as a => a :: as) []).reverse, e) = _
  rw [List.foldl_flip_cons_eq_append', List.append_nil, List.reverse_reverse]

theorem Repeated.log_eq (h : Repeated p s items e) : e.log = s.log ++ items.flatMap Prod.snd := by
  induction h with
  | absent hrun => exact (List.append_nil _).symm
  | inPlace hrun hsaid hstill =>
    rw [hsaid, List.flatMap_singleton]
  | onward hrun hsaid hmoved hothers ih =>
    rw [ih, hsaid, List.flatMap_cons, List.append_assoc]

/-- Every run but the last one reads a byte at least. -/
theorem Repeated.length_le (h : Repeated p s items e) :
    s.location + items.length ≤ e.location + 1 := by
  induction h with
  | absent hrun => exact Nat.le_succ _
  | inPlace hrun hsaid hstill =>
    rw [hstill]
    exact Nat.le_refl _
  | onward hrun hsaid hmoved hothers ih =>
    rw [List.length_cons]
    omega

/-! ## Once more -/

/-- A run that does not move on does the same again where it ended. -/
theorem Framed.present_again (hp : Framed p) (halike : ∀ o o', Alike o o' p p) {a : α}
    (hrun : p s = (.present a, t)) (hstill : t.location = s.location) :
    ∃ u, p t = (.present a, u) ∧ u.location = t.location := by
  have hframe : Frame s t := hp.of_eq hrun
  have hcursor : t.cursor = s.cursor := hframe.cursor.eq_of_offset_eq hstill
  have htwins : Twins s t s t := .of_rest_eq (congrArg Cursor.rest hcursor) hframe.options
  obtain ⟨u, hrun', hu⟩ := (halike s t).of_eq htwins hrun
  obtain ⟨n, hn, hn'⟩ := hu.location
  exact ⟨u, hrun', by omega⟩

/-- A repetition run again where it ended stays there. -/
theorem Repeated.again (hp : Framed p) (halike : ∀ o o', Alike o o' p p)
    (h : Repeated p s items e) : ∃ items' u, Repeated p e items' u ∧ u.cursor = e.cursor := by
  induction h with
  | @absent s t hrun => exact ⟨[], s, .absent hrun, rfl⟩
  | @inPlace s t a ms hrun hsaid hstill =>
    obtain ⟨u, hrun', hstill'⟩ := hp.present_again halike hrun hstill
    have hframe : Frame t u := hp.of_eq hrun'
    exact ⟨_, u, .inPlace hrun' hframe.log_eq hstill', hframe.cursor.eq_of_offset_eq hstill'⟩
  | onward hrun hsaid hmoved hothers ih => exact ih

end Parser

namespace Grammar

open FortranTokens.Parser

variable {α : Type}

/-- A repetition always ends, and its value is present.  It has read at least one byte in every run
but the last, reported what the runs reported, and has no more to read. -/
theorem many_run (g : Grammar α) (goals : g.AsciiGoals) (s : State) :
    ∃ items e, (many g).run s = (.present (items.map Prod.fst), e) ∧
      Repeated g.run s items e ∧
      e.log = s.log ++ items.flatMap Prod.snd ∧
      s.location + items.length ≤ e.location + 1 ∧
      ((many g).run e).2.cursor = e.cursor := by
  have hp : Framed g.run := g.framed_run
  obtain ⟨items, e, h⟩ := hp.exists_repeated (g.faultless_run goals) s
  obtain ⟨items', u, hagain, hcursor⟩ := h.again hp fun o o' => g.alike_run o o'
  have hrun' : (many g).run e = (.present (items'.map Prod.fst), u) := hp.many_of_repeated hagain
  refine ⟨items, e, hp.many_of_repeated h, h, h.log_eq, h.length_le, ?_⟩
  rw [hrun']
  exact hcursor

/-- Digits up to a semicolon that may be missing: the last run of three reads nothing and is kept. -/
theorem digits_between_semicolons :
    let g := seqLeft (many digit) (optional (skipPast 59))
    let s := State.start ['1', '2', ';', '3'] {} (by decide)
    g.AsciiGoals ∧
      (∃ items e, (many g).run s = (.present (items.map Prod.fst), e) ∧
        Repeated g.run s items e ∧
        e.log = s.log ++ items.flatMap Prod.snd ∧
        s.location + items.length ≤ e.location + 1 ∧
        ((many g).run e).2.cursor = e.cursor) ∧
      ((many g).run s).1 = .present [['1', '2'], ['3'], []] ∧
      ((many g).run s).2.location = 4 := by
  intro g s
  have goals : g.AsciiGoals := ⟨trivial, show (59 : UInt8) < 128 by decide⟩
  refine ⟨goals, many_run g goals s, ?_, ?_⟩ <;> decide +kernel

end Grammar

end FortranTokens
