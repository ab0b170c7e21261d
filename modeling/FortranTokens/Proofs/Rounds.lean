import FortranTokens.Parser.Repeat
import FortranTokens.Proofs.GoingBack

/-!
# The rounds of a repetition

A repetition runs one parser again and again.  `Rounds p s as u` says that runs of `p`, one after
the other, lead from `s` to `u` with the values `as`, each of them present and moving on.  Every
repetition is such a sequence of rounds and one last run that is absent, or present in place, or
faulty (`exists_rounds`); its value and the state it ends in are read off that last run by
`lastRound`, in the same way for all four repetitions (`Framed.many_eq_lastRound` and its like).
When the last run is absent the repetition ends in the state from which that run started.
-/

namespace FortranTokens.Parser

open State (Frame)

variable {α β γ : Type} {p : Parser α} {sep : Parser β} {s t u v : State}

/-- Runs of `p` lead from the one state to the other, each of them present and moving on; the list
has their values. -/
inductive Rounds (p : Parser α) : State → List α → State → Prop where
  /-- No run at all. -/
  | done (s : State) : Rounds p s [] s
  /-- One run, and then more. -/
  | more {s t u : State} {a : α} {as : List α} (run : p s = (.present a, t))
      (onward : s.location < t.location) (rest : Rounds p t as u) : Rounds p s (a :: as) u

/-- What a loop over rounds of `p` does in the state that the last round led to: the value of a run
in place is kept, and an absent run leaves no trace. -/
def lastRound (p : Parser α) (u : State) (result : List α → β) (as : List α) : Reply β × State :=
  match p u with
  | (.present a, v) => (.present (result (as ++ [a])), v)
  | (.absent, _) => (.present (result as), u)
  | (.fault e, v) => (.fault e, v)

/-- An absent run after the last round leaves no trace. -/
theorem lastRound_of_absent (hu : p u = (.absent, v)) (result : List α → β) (as : List α) :
    lastRound p u result as = (.present (result as), u) := by
  unfold lastRound
  rw [hu]

theorem lastRound_map (p : Parser α) (u : State) (result : List α → β) (f : β → γ)
    (as : List α) :
    ((lastRound p u result as).1.map f, (lastRound p u result as).2) =
      lastRound p u (fun as => f (result as)) as := by
  unfold lastRound
  rcases p u with ⟨a | _ | e, v⟩ <;> rfl

theorem lastRound_cons (p : Parser α) (u : State) (result : List α → β) (a : α) (as : List α) :
    lastRound p u result (a :: as) = lastRound p u (fun as => result (a :: as)) as := by
  unfold lastRound
  rcases p u with ⟨b | _ | e, v⟩ <;> rfl

/-- A run from `u` would not be one more round. -/
def Stops (p : Parser α) (u : State) : Prop :=
  ∀ a v, p u = (.present a, v) → ¬ u.location < v.location

theorem stops_of_absent (h : p u = (.absent, v)) : Stops p u := by
  intro a w hw
  rw [h] at hw
  cases hw

theorem exists_onward_of_not_stops (h : ¬Stops p s) :
    ∃ a t, p s = (.present a, t) ∧ s.location < t.location := by
  simp only [Stops, Classical.not_forall, Classical.not_not] at h
  obtain ⟨a, t, hrun, honward⟩ := h
  exact ⟨a, t, hrun, honward⟩

/-- Rounds come to an end, for the offset rises in each of them. -/
theorem exists_rounds (p : Parser α) (s : State) : ∃ as u, Rounds p s as u ∧ Stops p u := by
  by_cases hstop : Stops p s
  · exact ⟨[], s, .done s, hstop⟩
  · obtain ⟨a, t, hrun, honward⟩ := exists_onward_of_not_stops hstop
    obtain ⟨as, u, hrest, hu⟩ := exists_rounds p t
    exact ⟨a :: as, u, .more hrun honward hrest, hu⟩
termination_by UInt32.size - s.location
decreasing_by
  have := t.location_lt
  omega

/-! ## Repetitions through their loops -/

theorem many_apply (p : Parser α) (s : State) :
    many p s =
      ((foldMany (fun as a => a :: as) [] p s).1.map List.reverse,
        (foldMany (fun as a => a :: as) [] p s).2) :=
  map_apply _ _ _

theorem many1_apply (p : Parser α) (s : State) :
    many1 p s =
      match p s with
      | (.present a, t) =>
        if s.location < t.location then
          ((foldMany (fun as a => a :: as) [a] p t).1.map List.reverse,
            (foldMany (fun as a => a :: as) [a] p t).2)
        else (.present [a], t)
      | (.absent, t) => (.absent, t)
      | (.fault e, t) => (.fault e, t) := by
  unfold many1
  rw [bind_apply]
  show (p >>= _) s = _
  rw [bind_apply]
  rcases h : p s with ⟨a | _ | e, t⟩
  · show (ite (s.location < t.location) _ _ : Parser (List α)) t = ite _ _ _
    split
    · exact map_apply _ _ _
    · rfl
  · rfl
  · rfl

theorem many1_of_stops (h : Stops p s) : many1 p s = ((p s).1.map fun a => [a], (p s).2) := by
  rw [many1_apply]
  rcases hs : p s with ⟨a | _ | e, t⟩
  · exact if_neg (h a t hs)
  · rfl
  · rfl

theorem sepBy1_apply (p : Parser α) (sep : Parser β) (s : State) :
    sepBy1 p sep s =
      match p s with
      | (.present a, t) =>
        ((separatedItems p sep [a] t).1.map List.reverse, (separatedItems p sep [a] t).2)
      | (.absent, t) => (.absent, t)
      | (.fault e, t) => (.fault e, t) := by
  unfold sepBy1
  rw [bind_apply]
  rcases h : p s with ⟨a | _ | e, t⟩
  · exact map_apply _ _ _
  · rfl
  · rfl

/-! ## Folds over rounds -/

/-- A fold over the rounds of `p` ends with the last one. -/
theorem Framed.foldMany_of_rounds (hp : Framed p) {as : List α} (h : Rounds p s as u)
    (hu : Stops p u) (f : γ → α → γ) (b : γ) :
    foldMany f b p s = lastRound p u (fun as => as.foldl f b) as := by
  induction h generalizing b with
  | done s =>
    rw [foldMany, hp.attempt_apply]
    unfold lastRound
    rcases hs : p s with ⟨a | _ | e, v⟩
    · exact if_neg (hu a v hs)
    · rfl
    · rfl
  | more hrun honward hrest ih =>
    rw [foldMany, attempt_of_present hrun]
    simp only [if_pos honward]
    exact ih hu (f b _)

theorem Framed.foldMany (hp : Framed p) (f : γ → α → γ) (b : γ) : Framed (foldMany f b p) := by
  intro s
  fun_induction Parser.foldMany f b p s with
  | case1 b s a t hrun honward ih => exact (hp.attempt.of_eq hrun).trans ih
  | case2 b s a t hrun hstay => exact hp.attempt.of_eq hrun
  | case3 b s t hrun => exact hp.attempt.of_eq hrun
  | case4 b s e t hrun => exact hp.attempt.of_eq hrun

theorem Framed.many1 (hp : Framed p) : Framed (many1 p) :=
  framed_location.bind fun _ => hp.bind fun _ => framed_location.bind fun _ =>
    ((hp.foldMany _ _).map _).ite (framed_pure _)

/-! ### The four repetitions -/

theorem Framed.many_eq_lastRound (hp : Framed p) {as : List α} (h : Rounds p s as u)
    (hu : Stops p u) : Parser.many p s = lastRound p u (fun as => as) as := by
  have hresult : (fun as : List α => (as.foldl (fun xs x => x :: xs) []).reverse) =
      fun as => as := by
    funext as
    rw [List.foldl_flip_cons_eq_append', List.append_nil, List.reverse_reverse]
  rw [many_apply, hp.foldMany_of_rounds h hu, lastRound_map, hresult]

theorem Framed.skipMany_eq_lastRound (hp : Framed p) {as : List α} (h : Rounds p s as u)
    (hu : Stops p u) : Parser.skipMany p s = lastRound p u (fun _ => ()) as :=
  hp.foldMany_of_rounds h hu _ _

/-- The first run is no attempt, but it is like a round in that the loop begins only once it has
moved on. -/
theorem Framed.many1_eq_lastRound (hp : Framed p) {a : α} {as : List α} (h : Rounds p s (a :: as) u)
    (hu : Stops p u) : Parser.many1 p s = lastRound p u (fun as => as) (a :: as) := by
  have hresult : (fun as : List α => (as.foldl (fun xs x => x :: xs) [a]).reverse) =
      fun as => a :: as := by
    funext as
    rw [List.foldl_flip_cons_eq_append', List.reverse_append, List.reverse_reverse]
    rfl
  cases h with
  | more hrun honward hrest =>
    rw [many1_apply, hrun]
    simp only [if_pos honward]
    rw [hp.foldMany_of_rounds hrest hu, lastRound_map, hresult, lastRound_cons]

/-! ### Ending with an absent run -/

theorem Framed.many_of_rounds (hp : Framed p) {as : List α} (h : Rounds p s as u)
    (hu : p u = (.absent, v)) : Parser.many p s = (.present as, u) := by
  rw [hp.many_eq_lastRound h (stops_of_absent hu), lastRound_of_absent hu]

theorem Framed.skipMany_of_rounds (hp : Framed p) {as : List α} (h : Rounds p s as u)
    (hu : p u = (.absent, v)) : Parser.skipMany p s = (.present (), u) := by
  rw [hp.skipMany_eq_lastRound h (stops_of_absent hu), lastRound_of_absent hu]

theorem Framed.many1_of_rounds (hp : Framed p) {a : α} {as : List α} (h : Rounds p s (a :: as) u)
    (hu : p u = (.absent, v)) : Parser.many1 p s = (.present (a :: as), u) := by
  rw [hp.many1_eq_lastRound h (stops_of_absent hu), lastRound_of_absent hu]

/-! ## Separated items -/

/-- Items after separators end with the last round of a separator and an item. -/
theorem Framed.separatedItems_of_rounds (hp : Framed p) (hsep : Framed sep) {as : List α}
    (h : Rounds (sep >>= fun _ => p) s as u) (hu : Stops (sep >>= fun _ => p) u)
    (items : List α) :
    separatedItems p sep items s =
      lastRound (sep >>= fun _ => p) u (fun as => as.reverse ++ items) as := by
  have hround : Framed (sep >>= fun _ => p) := hsep.bind fun _ => hp
  induction h generalizing items with
  | done s =>
    rw [separatedItems]
    unfold lastRound
    rcases hs : (sep >>= fun _ => p) s with ⟨a | _ | e, v⟩
    · exact if_neg (hu a v hs)
    · show (Reply.present items, v.rollback s.mark) = _
      rw [(hround.of_eq hs).rollback]
      rfl
    · rfl
  | more hrun honward hrest ih =>
    rename_i a _
    have hresult : (fun as => as.reverse ++ a :: items) =
        fun as => (a :: as).reverse ++ items := by
      funext as
      rw [List.reverse_cons, List.append_assoc]
      rfl
    rw [separatedItems, hrun]
    simp only [if_pos honward]
    rw [ih hu, hresult]
    rfl

theorem Framed.sepBy1_eq_lastRound (hp : Framed p) (hsep : Framed sep) {a : α} {as : List α}
    (hrun : p s = (.present a, t)) (h : Rounds (sep >>= fun _ => p) t as u)
    (hu : Stops (sep >>= fun _ => p) u) :
    Parser.sepBy1 p sep s = lastRound (sep >>= fun _ => p) u (fun as => a :: as) as := by
  have hresult : (fun as => (as.reverse ++ [a]).reverse) = fun as => a :: as := by
    funext as
    rw [List.reverse_append, List.reverse_reverse]
    rfl
  rw [sepBy1_apply, hrun]
  simp only
  rw [hp.separatedItems_of_rounds hsep h hu, lastRound_map, hresult]

theorem Framed.sepBy1_of_rounds (hp : Framed p) (hsep : Framed sep) {a : α} {as : List α}
    (hrun : p s = (.present a, t)) (h : Rounds (sep >>= fun _ => p) t as u)
    (hu : (sep >>= fun _ => p) u = (.absent, v)) :
    Parser.sepBy1 p sep s = (.present (a :: as), u) := by
  rw [hp.sepBy1_eq_lastRound hsep hrun h (stops_of_absent hu), lastRound_of_absent hu]

theorem Framed.separatedItems (hp : Framed p) (hsep : Framed sep) (items : List α) :
    Framed (separatedItems p sep items) := by
  have hround : Framed (sep >>= fun _ => p) := hsep.bind fun _ => hp
  intro s
  fun_induction Parser.separatedItems p sep items s with
  | case1 items s a t hrun honward ih => exact (hround.of_eq hrun).trans ih
  | case2 items s a t hrun hstay => exact hround.of_eq hrun
  | case3 items s t hrun =>
    rw [(hround.of_eq hrun).rollback]
    exact .refl s
  | case4 items s e t hrun => exact hround.of_eq hrun

end FortranTokens.Parser
