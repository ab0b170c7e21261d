import FortranTokens.Literal.DigitString
import FortranTokens.Proofs.Characters
import FortranTokens.Proofs.Reading

/-!
# Values of decimal digit strings

A digit string keeps its number modulo the size of a word, and marks it as soon as a step wraps
around.  From then on the number itself is beyond a word, so that the mark tells exactly whether it
is (`ofDigits_eq`).  `digitString_of_digits` is the run of the parser in these terms.
-/

namespace FortranTokens

open CharClass

namespace DigitString

/-- The digit string of a number. -/
def ofNat (n : Nat) : DigitString := ⟨UInt64.ofNat n, decide (UInt64.size ≤ n)⟩

/-- What the number at an offset has to say: it is reported if it needs more than a word. -/
def messages (offset n : Nat) : List Message :=
  if UInt64.size ≤ n then [.ofOffset offset .decimalOverflow] else []

theorem messages_eq_nil_iff {offset n : Nat} : messages offset n = [] ↔ n < UInt64.size := by
  unfold messages
  split
  · simp [*]
  · simpa using Nat.lt_of_not_le ‹_›

theorem append_ofNat (n : Nat) (c : Char) :
    (ofNat n).append c = ofNat (n * 10 + digitValue c) := by
  have hdigit := digitValue_lt c
  have hvalue : UInt64.ofNat n * 10 + UInt64.ofNat (digitValue c) =
      UInt64.ofNat (n * 10 + digitValue c) := by
    rw [UInt64.ofNat_add, UInt64.ofNat_mul]
    rfl
  -- A number below a word is its own value, and one beyond it stays beyond it.
  have hoverflow : (UInt64.size ≤ n ∨ UInt64.size ≤ (UInt64.ofNat n).toNat * 10 ∨
      UInt64.size ≤ (UInt64.ofNat n * 10).toNat + (UInt64.ofNat (digitValue c)).toNat) ↔
      UInt64.size ≤ n * 10 + digitValue c := by
    have hten : (10 : UInt64).toNat = 10 := rfl
    rw [UInt64.toNat_mul, UInt64.toNat_ofNat', UInt64.toNat_ofNat', hten]
    simp only [UInt64.size]
    omega
  unfold append ofNat
  simp only [hvalue, ← hoverflow, Bool.decide_or, Bool.or_assoc]

theorem ofDigits_eq (digits : List Char) : ofDigits digits = ofNat (denoted 10 digits) := by
  induction digits using List.reverseRecOn with
  | nil => rfl
  | append_singleton digits d ih =>
    rw [denoted_snoc, ← append_ofNat, ← ih]
    unfold ofDigits
    rw [List.foldl_append]
    rfl

theorem toNat_value_ofNat {n : Nat} (h : n < UInt64.size) : (ofNat n).value.toNat = n := by
  unfold ofNat
  rw [UInt64.toNat_ofNat', Nat.mod_eq_of_lt h]

end DigitString

namespace Parser

variable {s : State} {digits after : List Char}

theorem digitString_of_no_digit (h : s.rest.takeWhile isDecimalDigit = []) :
    digitString s = (.absent, s) := by
  have hhead : ∀ d ∈ s.rest.head?, ¬isDecimalDigit d := by
    intro d hd hdigit
    obtain ⟨cs, hcs⟩ := List.head?_eq_some_iff.1 hd
    simp [hcs, hdigit] at h
  unfold digitString digit
  rw [location_bind, bind_of_absent (attempt_satisfy_of_not_head _ hhead)]

theorem digitString_of_digits (hrest : s.rest = digits ++ after) (hne : digits ≠ [])
    (hdigits : ∀ d ∈ digits, isDecimalDigit d) (hafter : ∀ c ∈ after.head?, ¬isDecimalDigit c) :
    digitString s =
      (.present (.ofNat (denoted 10 digits)),
        (s.advance digits.length).report
          (DigitString.messages s.location (denoted 10 digits))) := by
  obtain ⟨first, more, rfl⟩ := List.exists_cons_of_ne_nil hne
  obtain ⟨hfirst, hmore⟩ := List.forall_mem_cons.1 hdigits
  have hnext : (s.advance 1).rest = more ++ after := State.rest_advance_of_cons hrest
  unfold digitString digit
  rw [location_bind, bind_of_present (attempt_satisfy_of_head _ hrest hfirst),
    bind_of_present (readWhile_of_maximal hnext hmore hafter), DigitString.ofDigits_eq,
    State.advance_advance, Nat.add_comm, ← List.length_cons (a := first)]
  unfold DigitString.ofNat DigitString.messages
  by_cases hsize : UInt64.size ≤ denoted 10 (first :: more)
  · simp only [hsize, decide_true, if_true]
    rfl
  · simp only [hsize, decide_false, Bool.false_eq_true, if_false, State.report_nil]
    rfl

/-- The longest run of digits is read, if there is one.  Its value is the number that it denotes,
taken modulo the size of a word, and the mark and the one message tell whether that made a
difference. -/
theorem digitString_run (s : State) :
    let digits := s.rest.takeWhile isDecimalDigit
    let n := denoted 10 digits
    ∃ d : DigitString,
      d.value.toNat = n % UInt64.size ∧ (d.overflow = true ↔ UInt64.size ≤ n) ∧
      digitString s =
        if digits = [] then (.absent, s)
        else
          (.present d,
            (s.advance digits.length).report
              (if UInt64.size ≤ n then [.ofOffset s.location .decimalOverflow] else [])) := by
  intro digits n
  refine ⟨.ofNat n, UInt64.toNat_ofNat', decide_eq_true_iff, ?_⟩
  by_cases hdigits : digits = []
  · rw [if_pos hdigits]
    exact digitString_of_no_digit hdigits
  · rw [if_neg hdigits]
    exact digitString_of_digits List.takeWhile_append_dropWhile.symm hdigits
      (fun d hd => List.mem_takeWhile_imp hd) (not_head_dropWhile _ _)

end Parser

end FortranTokens
