import Mathlib.Data.Fin.VecNotation
import Mathlib.Data.Fintype.EquivFin
import Mathlib.Data.Fintype.Lattice
import FortranTokens.Proofs.Engine

/-!
# Chains of alternatives

A chain of choices, grouped to the left, of which every branch is absent.  Each choice compares the
place where its second branch stopped with the place where the chain so far left the cursor, and
that is where the branch just before stopped, not where the one stopped whose messages are kept.
So a branch keeps its messages if it stopped no earlier than the branch just before it and no later
branch stopped further than the one just before *it* (`Kept`).

These need not be the branches that stopped furthest of all: `kept_eq_furthest_iff` says for which
stops they are, and `literal_message_dropped` is a chain of literals in which the message of a
literal that stopped furthest is lost.
-/

namespace FortranTokens

/-! ## Stops -/

namespace Chain

variable {n : Nat}

/-- Branch `i` stopped no earlier than any other. -/
def Furthest (stop : Fin n → Nat) (i : Fin n) : Prop := ∀ j, stop j ≤ stop i

/-- Branch `i` stopped no earlier than the branch just before it, and from there on no branch
stopped further than the branch just before it. -/
def Kept (stop : Fin n → Nat) (i : Fin n) : Prop :=
  (∀ j, j.val + 1 = i.val → stop j ≤ stop i) ∧
    ∀ j k, i ≤ j → j.val + 1 = k.val → stop k ≤ stop j

/-- After a branch that stopped furthest every branch stops before the branch just before it, unless
both of them stopped furthest. -/
def Falling (stop : Fin n → Nat) : Prop :=
  ∀ i j k, Furthest stop i → i ≤ j → j.val + 1 = k.val →
    stop k < stop j ∨ Furthest stop j ∧ Furthest stop k

instance (stop : Fin n → Nat) : DecidablePred (Furthest stop) := fun i => by
  unfold Furthest
  infer_instance

instance (stop : Fin n → Nat) : DecidablePred (Kept stop) := fun i => by
  unfold Kept
  infer_instance

instance (stop : Fin n → Nat) : Decidable (Falling stop) := by
  unfold Falling
  infer_instance

/-- The branches that stopped furthest, in their order. -/
def furthest (stop : Fin n → Nat) : List (Fin n) := (List.finRange n).filter (Furthest stop ·)

/-- The branches whose messages a chain keeps, in their order. -/
def kept (stop : Fin n → Nat) : List (Fin n) := (List.finRange n).filter (Kept stop ·)

/-! ### One more branch -/

theorem kept_castSucc_iff (stop : Fin (n + 2) → Nat) (i : Fin (n + 1)) :
    Kept stop i.castSucc ↔
      stop (Fin.last (n + 1)) ≤ stop (Fin.last n).castSucc ∧
        Kept (fun j => stop j.castSucc) i := by
  constructor
  · rintro ⟨hbefore, hafter⟩
    refine ⟨hafter _ _ (Fin.castSucc_le_castSucc_iff.2 (Fin.le_last i)) rfl, ?_, ?_⟩
    · intro j hj
      exact hbefore j.castSucc hj
    · intro j k hij hjk
      exact hafter j.castSucc k.castSucc hij hjk
  · rintro ⟨hlast, hbefore, hafter⟩
    constructor
    · intro j hj
      induction j using Fin.lastCases with
      | last =>
        simp only [Fin.val_last, Fin.val_castSucc] at hj
        omega
      | cast j => exact hbefore j hj
    · intro j k hij hjk
      induction j using Fin.lastCases with
      | last =>
        simp only [Fin.val_last] at hjk
        omega
      | cast j =>
        induction k using Fin.lastCases with
        | last =>
          have hj : j = Fin.last n := by
            apply Fin.ext
            simp only [Fin.val_last, Fin.val_castSucc] at hjk ⊢
            omega
          rw [hj]
          exact hlast
        | cast k => exact hafter j k hij hjk

theorem kept_last_iff (stop : Fin (n + 2) → Nat) :
    Kept stop (Fin.last (n + 1)) ↔ stop (Fin.last n).castSucc ≤ stop (Fin.last (n + 1)) := by
  constructor
  · rintro ⟨hbefore, -⟩
    exact hbefore (Fin.last n).castSucc rfl
  · intro hlast
    constructor
    · intro j hj
      have hj' : j = (Fin.last n).castSucc := by
        apply Fin.ext
        simp only [Fin.val_last, Fin.val_castSucc] at hj ⊢
        omega
      rw [hj']
      exact hlast
    · intro j k hij hjk
      have hle : n + 1 ≤ j.val := hij
      omega

theorem kept_succ (stop : Fin (n + 2) → Nat) :
    kept stop =
      (if stop (Fin.last (n + 1)) ≤ stop (Fin.last n).castSucc then
          (kept fun j => stop j.castSucc).map Fin.castSucc
        else []) ++
      if stop (Fin.last n).castSucc ≤ stop (Fin.last (n + 1)) then [Fin.last (n + 1)] else [] := by
  unfold kept
  rw [List.finRange_succ_last, List.filter_append, List.filter_map]
  congr 1
  · by_cases hlast : stop (Fin.last (n + 1)) ≤ stop (Fin.last n).castSucc
    · rw [if_pos hlast]
      congr 1
      apply List.filter_congr
      intro i _
      simp [kept_castSucc_iff, hlast]
    · rw [if_neg hlast, List.map_eq_nil_iff, List.filter_eq_nil_iff]
      intro i _
      simp [kept_castSucc_iff, hlast]
  · simp [kept_last_iff, List.filter_singleton]

theorem kept_one (stop : Fin 1 → Nat) : kept stop = [0] := by
  have hkept : Kept stop 0 := by
    refine ⟨fun j hj => ?_, fun j k _ hjk => ?_⟩
    · cases hj
    · omega
  have hrange : List.finRange 1 = [0] := rfl
  unfold kept
  rw [hrange]
  simp [hkept]

/-! ### When the furthest branches are the ones kept -/

theorem exists_furthest (stop : Fin (n + 1) → Nat) : ∃ i, Furthest stop i := by
  exact Finite.exists_max stop

/-- Where the stops never rise from a branch on, no later branch stopped further than that one. -/
theorem stop_le_of_steps {stop : Fin n → Nat} {i : Fin n}
    (h : ∀ j k, i ≤ j → j.val + 1 = k.val → stop k ≤ stop j) :
    ∀ (d : Nat) (m : Fin n), m.val = i.val + d → stop m ≤ stop i
  | 0, m, hm => by
    have him : m = i := Fin.ext hm
    rw [him]
  | d + 1, m, hm => by
    have hj : i.val + d < n := by omega
    calc stop m ≤ stop ⟨i.val + d, hj⟩ := h _ m (Fin.le_def.2 (Nat.le_add_right _ _)) hm.symm
      _ ≤ stop i := stop_le_of_steps h d _ rfl

theorem Falling.kept_iff {stop : Fin (n + 1) → Nat} (h : Falling stop) (i : Fin (n + 1)) :
    Kept stop i ↔ Furthest stop i := by
  constructor
  · rintro ⟨hbefore, hafter⟩
    obtain ⟨m, hm⟩ := exists_furthest stop
    rcases Nat.lt_trichotomy i.val m.val with hlt | heq | hgt
    · have hmi : stop m ≤ stop i := stop_le_of_steps hafter (m.val - i.val) m (by omega)
      intro j
      exact (hm j).trans hmi
    · rw [Fin.ext heq]
      exact hm
    · have hj : i.val - 1 < n + 1 := by omega
      have hji : (⟨i.val - 1, hj⟩ : Fin (n + 1)).val + 1 = i.val := by
        show i.val - 1 + 1 = i.val
        omega
      rcases h m _ i hm (Fin.le_def.2 (show m.val ≤ i.val - 1 by omega)) hji with hfall | ⟨-, hi⟩
      · exact absurd (hbefore _ hji) (Nat.not_le.2 hfall)
      · exact hi
  · intro hi
    constructor
    · intro j _
      exact hi j
    · intro j k hij hjk
      rcases h i j k hi hij hjk with hlt | ⟨hj, -⟩
      · exact Nat.le_of_lt hlt
      · exact hj k

theorem falling_of_kept_iff {stop : Fin n → Nat} (h : ∀ i, Kept stop i ↔ Furthest stop i) :
    Falling stop := by
  intro i j k hi hij hjk
  obtain ⟨-, hafter⟩ := (h i).2 hi
  have hle : stop k ≤ stop j := hafter j k hij hjk
  by_cases hlt : stop k < stop j
  · exact Or.inl hlt
  · right
    have hk : Furthest stop k := by
      refine (h k).1 ⟨?_, ?_⟩
      · intro l hl
        have hlj : l = j := Fin.ext (by omega)
        rw [hlj]
        omega
      · intro l m hkl hlm
        exact hafter l m (hij.trans (le_trans (Fin.le_def.2 (by omega)) hkl)) hlm
    refine ⟨?_, hk⟩
    intro l
    exact (hk l).trans hle

theorem kept_eq_furthest_iff (stop : Fin (n + 1) → Nat) :
    kept stop = furthest stop ↔ Falling stop := by
  constructor
  · intro h
    apply falling_of_kept_iff
    intro i
    have hi : i ∈ kept stop ↔ i ∈ furthest stop := by rw [h]
    simpa [kept, furthest] using hi
  · intro h
    apply List.filter_congr
    intro i _
    simp [h.kept_iff i]

end Chain

/-! ## Chains -/

namespace Grammar

open FortranTokens.Parser

variable {α : Type} {n : Nat}

/-- The first of several alternatives that is present: a chain of choices, grouped to the left. -/
def firstOf : {n : Nat} → (Fin (n + 1) → Grammar α) → Grammar α
  | 0, gs => gs 0
  | _ + 1, gs => orElse (firstOf fun i => gs i.castSucc) (gs (Fin.last _))

/-- The offset at which a grammar stops when it is run from `s`. -/
def stop (s : State) (g : Grammar α) : Nat := (g.run s).2.location

/-- The messages that a grammar reports when it is run from `s`. -/
def said (s : State) (g : Grammar α) : List Message := ((g.run s).2.takeSince s.mark).1

theorem log_run (g : Grammar α) (s : State) : (g.run s).2.log = s.log ++ g.said s :=
  (g.framed_run s).log_eq

theorem said_eq {g : Grammar α} {s : State} {ms : List Message}
    (h : (g.run s).2.log = s.log ++ ms) : g.said s = ms := State.takeSince_of_log_eq h

theorem orElse_of_absent {g h : Grammar α} {s : State} (hg : (g.run s).1 = .absent)
    (hh : (h.run s).1 = .absent) :
    ((orElse g h).run s).1 = .absent ∧ (orElse g h).stop s = h.stop s ∧
      (orElse g h).said s = keepFurther (g.stop s) (h.stop s) (g.said s) (h.said s) := by
  have hrun : (orElse g h).run s = (.absent, { (h.run s).2 with
      log := s.log ++ keepFurther (g.stop s) (h.stop s) (g.said s) (h.said s) }) :=
    g.framed_run.orElse_of_absent h.framed_run (Prod.ext hg rfl) (Prod.ext hh rfl)
  refine ⟨by rw [hrun], ?_, said_eq ?_⟩
  · unfold stop
    rw [hrun]
    rfl
  · rw [hrun]

theorem firstOf_of_absent : ∀ {n : Nat} (gs : Fin (n + 1) → Grammar α) (s : State),
    (∀ i, ((gs i).run s).1 = .absent) →
    ((firstOf gs).run s).1 = .absent ∧ (firstOf gs).stop s = (gs (Fin.last n)).stop s ∧
      (firstOf gs).said s = (Chain.kept fun i => (gs i).stop s).flatMap fun i => (gs i).said s
  | 0, gs, s, h => by
    refine ⟨h 0, rfl, ?_⟩
    rw [Chain.kept_one]
    exact (List.flatMap_singleton _ _).symm
  | n + 1, gs, s, h => by
    obtain ⟨habsent, hstop, hsaid⟩ := firstOf_of_absent (fun i => gs i.castSucc) s fun i => h _
    obtain ⟨habsent', hstop', hsaid'⟩ := orElse_of_absent habsent (h (Fin.last (n + 1)))
    refine ⟨habsent', hstop', ?_⟩
    show (orElse _ _).said s = _
    -- Where the chain so far stopped is where its last branch did, which `kept_succ` speaks of.
    rw [hsaid', hstop, hsaid, keepFurther_eq, Chain.kept_succ, List.flatMap_append]
    congr 1
    · split
      · rw [List.flatMap_map]
      · rfl
    · split
      · exact (List.flatMap_singleton _ _).symm
      · rfl

/-- A chain of absent alternatives keeps the messages of the branches in `Chain.kept`, and these are
the branches that stopped furthest exactly if the stops are `Chain.Falling`. -/
theorem firstOf_log_of_absent (gs : Fin (n + 1) → Grammar α) (s : State)
    (h : ∀ i, ((gs i).run s).1 = .absent) :
    let stops := fun i => (gs i).stop s
    ((firstOf gs).run s).1 = .absent ∧
      ((firstOf gs).run s).2.log =
        s.log ++ (Chain.kept stops).flatMap (fun i => (gs i).said s) ∧
      (Chain.Falling stops → ((firstOf gs).run s).2.log =
        s.log ++ (Chain.furthest stops).flatMap fun i => (gs i).said s) ∧
      (Chain.kept stops = Chain.furthest stops ↔ Chain.Falling stops) := by
  intro stops
  obtain ⟨habsent, -, hsaid⟩ := firstOf_of_absent gs s h
  have hlog : ((firstOf gs).run s).2.log =
      s.log ++ (Chain.kept stops).flatMap fun i => (gs i).said s := by
    rw [log_run, hsaid]
  refine ⟨habsent, hlog, ?_, Chain.kept_eq_furthest_iff stops⟩
  intro hfall
  rw [hlog, (Chain.kept_eq_furthest_iff stops).2 hfall]

/-- The three kinds of literals that can begin with a quote or a digit, without their values. -/
def literals : Fin 3 → Grammar Unit :=
  ![map (fun _ => ()) quotedLiteral, map (fun _ => ()) hollerith, map (fun _ => ()) boz]

/-- With the quoted literal at the end of the chain its message is kept. -/
theorem literal_message_kept :
    let s := State.start ['\'', 'x', 'y', 'z'] {} (by decide)
    let gs : Fin 3 → Grammar Unit := ![literals 1, literals 2, literals 0]
    (∀ i, ((gs i).run s).1 = .absent) ∧ Chain.Falling (fun i => (gs i).stop s) ∧
      ((firstOf gs).run s).2.log = [.ofOffset 1 .unclosedCharConstant] := by
  intro s gs
  have habsent : ∀ i, ((gs i).run s).1 = .absent := by decide +kernel
  have hfall : Chain.Falling fun i => (gs i).stop s := by decide +kernel
  obtain ⟨-, -, hlog, -⟩ := firstOf_log_of_absent gs s habsent
  refine ⟨habsent, hfall, (hlog hfall).trans ?_⟩
  decide +kernel

/-- The quoted literal stops furthest, but the chain ends without its message: the second branch
stops at the start, so that the third one seems to have got further. -/
theorem literal_message_dropped :
    let s := State.start ['\'', 'x', 'y', 'z'] {} (by decide)
    (∀ i, ((literals i).run s).1 = .absent) ∧
      (fun i => (literals i).stop s) = ![4, 0, 2] ∧
      (Chain.furthest fun i => (literals i).stop s).flatMap (fun i => (literals i).said s) =
        [.ofOffset 1 .unclosedCharConstant] ∧
      ((firstOf literals).run s).2.log = [] := by
  decide +kernel

end Grammar

end FortranTokens
