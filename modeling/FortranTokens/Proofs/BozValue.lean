import Mathlib.Order.Basic
import FortranTokens.Literal.Boz
import FortranTokens.Proofs.Characters

/-!
# Values of binary, octal and hexadecimal digits

A value grows by moving up and filling the bits that become free.  In numbers that is a product and
a sum (`toNat_shiftLeft_or`), and moving down again tells whether the product still was below the
size of a word (`shift_back_eq_iff`).  So the value of digits is the number that they denote as long
as each of them is below the radix and the number is below the size of a word (`value_of_fits`), and
the first digit with which they are not decides the error (`value_of_flaw`).
-/

namespace FortranTokens.Boz

open CharClass

variable {base : Base} {digits : List Char} {kind : Kind}

/-- The number of values that a digit can take. -/
def Base.radix : Base → Nat
  | .binary => 2
  | .octal => 8
  | .hexadecimal => 16

theorem Base.radix_eq (base : Base) : base.radix = 2 ^ base.bits.toNat := by
  cases base <;> rfl

theorem Base.radix_pos (base : Base) : 0 < base.radix := by
  cases base <;> decide

theorem Base.bits_mod (base : Base) : base.bits.toNat % 64 = base.bits.toNat := by
  cases base <;> rfl

/-! ### Moving up and down -/

theorem toNat_shiftLeft (base : Base) (value : UInt64) :
    (value <<< base.bits).toNat = value.toNat * base.radix % UInt64.size := by
  rw [UInt64.toNat_shiftLeft, base.bits_mod, Nat.shiftLeft_eq, ← base.radix_eq]

theorem toNat_shiftRight (base : Base) (value : UInt64) :
    (value >>> base.bits).toNat = value.toNat / base.radix := by
  rw [UInt64.toNat_shiftRight, base.bits_mod, Nat.shiftRight_eq_div_pow, ← base.radix_eq]

theorem shift_back_eq_iff (base : Base) (value : UInt64) :
    value <<< base.bits >>> base.bits = value ↔ value.toNat * base.radix < UInt64.size := by
  have hlt := value.toNat_lt
  rw [← UInt64.toNat_inj, toNat_shiftRight, toNat_shiftLeft]
  cases base <;> simp only [Base.radix, UInt64.size] <;> omega

theorem toNat_ofNat_digitValue (c : Char) : (UInt64.ofNat (digitValue c)).toNat = digitValue c := by
  have hc := digitValue_lt c
  rw [UInt64.toNat_ofNat', Nat.mod_eq_of_lt (by omega)]

theorem digit_shift_eq_zero_iff (base : Base) (c : Char) :
    UInt64.ofNat (digitValue c) >>> base.bits = 0 ↔ digitValue c < base.radix := by
  rw [← UInt64.toNat_inj, toNat_shiftRight, toNat_ofNat_digitValue]
  show digitValue c / base.radix = 0 ↔ _
  cases base <;> simp only [Base.radix] <;> omega

theorem toNat_shiftLeft_or (base : Base) (value : UInt64) (c : Char)
    (hvalue : value.toNat * base.radix < UInt64.size) (hc : digitValue c < base.radix) :
    (value <<< base.bits ||| UInt64.ofNat (digitValue c)).toNat =
      value.toNat * base.radix + digitValue c := by
  rw [UInt64.toNat_or, toNat_shiftLeft, Nat.mod_eq_of_lt hvalue, toNat_ofNat_digitValue,
    base.radix_eq, ← Nat.shiftLeft_eq]
  rw [base.radix_eq] at hc
  exact (Nat.shiftLeft_add_eq_or_of_lt hc _).symm

/-- The size of a word is a multiple of every radix, so that a value moved up leaves room for the
digit. -/
theorem mul_radix_add_lt_iff (base : Base) (n : Nat) {d : Nat} (hd : d < base.radix) :
    n * base.radix + d < UInt64.size ↔ n * base.radix < UInt64.size := by
  cases base <;> simp only [Base.radix, UInt64.size] at hd ⊢ <;> omega

/-! ### Appending digits -/

theorem append_eq (base : Base) (value : UInt64) (c : Char) :
    append base value c =
      if base.radix ≤ digitValue c then .error .badBozDigit
      else if UInt64.size ≤ value.toNat * base.radix then .error .excessiveBozDigits
      else .ok (UInt64.ofNat (value.toNat * base.radix + digitValue c)) := by
  unfold append
  simp only [ne_eq, digit_shift_eq_zero_iff, shift_back_eq_iff, Nat.not_lt]
  by_cases hc : base.radix ≤ digitValue c
  · rw [if_pos hc, if_pos hc]
  rw [if_neg hc, if_neg hc]
  by_cases hvalue : UInt64.size ≤ value.toNat * base.radix
  · rw [if_pos hvalue, if_pos hvalue]
  rw [if_neg hvalue, if_neg hvalue, ← toNat_shiftLeft_or base value c (Nat.lt_of_not_le hvalue)
    (Nat.lt_of_not_le hc), UInt64.ofNat_toNat]

theorem value_snoc (base : Base) (digits : List Char) (d : Char) :
    value base (digits ++ [d]) = value base digits >>= fun v => append base v d := by
  unfold value
  rw [List.foldlM_append]
  simp

/-- Behind digits with a value, a further digit is judged by the number that it leads to. -/
theorem value_snoc_of_value {n : Nat} (hn : n < UInt64.size)
    (h : value base digits = .ok (UInt64.ofNat n)) (d : Char) :
    value base (digits ++ [d]) =
      if base.radix ≤ digitValue d then .error .badBozDigit
      else if UInt64.size ≤ n * base.radix + digitValue d then .error .excessiveBozDigits
      else .ok (UInt64.ofNat (n * base.radix + digitValue d)) := by
  rw [value_snoc, h]
  refine (append_eq base _ d).trans ?_
  rw [UInt64.toNat_ofNat', Nat.mod_eq_of_lt hn]
  by_cases hd : base.radix ≤ digitValue d
  · rw [if_pos hd, if_pos hd]
  · have hroom := mul_radix_add_lt_iff base n (Nat.lt_of_not_le hd)
    simp only [← Nat.not_lt, hroom]

theorem value_append_of_error (back : List Char) (h : value base digits = .error kind) :
    value base (digits ++ back) = .error kind := by
  unfold value at h ⊢
  rw [List.foldlM_append, h]
  rfl

/-! ### Digits that fit -/

/-- Every digit is below the radix, and the number that the digits denote fits into a word. -/
structure Fits (base : Base) (digits : List Char) : Prop where
  below : ∀ d ∈ digits, digitValue d < base.radix
  fits : denoted base.radix digits < UInt64.size

theorem fits_nil : Fits base [] where
  below := List.forall_mem_nil _
  fits := by
    rw [denoted_nil]
    decide

theorem fits_snoc_iff {d : Char} :
    Fits base (digits ++ [d]) ↔
      Fits base digits ∧ digitValue d < base.radix ∧
        denoted base.radix (digits ++ [d]) < UInt64.size := by
  constructor
  · rintro ⟨hbelow, hfits⟩
    obtain ⟨hdigits, hd⟩ := List.forall_mem_append.1 hbelow
    have hle : denoted base.radix digits ≤ denoted base.radix (digits ++ [d]) := by
      rw [denoted_snoc]
      exact Nat.le_add_right_of_le (Nat.le_mul_of_pos_right _ base.radix_pos)
    exact ⟨⟨hdigits, lt_of_le_of_lt hle hfits⟩, hd d (List.mem_singleton_self d), hfits⟩
  · rintro ⟨⟨hdigits, -⟩, hd, hfits⟩
    exact ⟨List.forall_mem_append.2 ⟨hdigits, List.forall_mem_singleton.2 hd⟩, hfits⟩

theorem value_of_fits (h : Fits base digits) :
    value base digits = .ok (UInt64.ofNat (denoted base.radix digits)) := by
  induction digits using List.reverseRecOn with
  | nil => rfl
  | append_singleton digits d ih =>
    obtain ⟨hdigits, hd, hfits⟩ := fits_snoc_iff.1 h
    rw [denoted_snoc] at hfits ⊢
    rw [value_snoc_of_value hdigits.fits (ih hdigits), if_neg (Nat.not_le.2 hd),
      if_neg (Nat.not_le.2 hfits)]

/-- The largest number that fits into a word, in octal digits, and the next one. -/
example :
    value .octal "1777777777777777777777".toList = .ok 0xFFFFFFFFFFFFFFFF ∧
      value .octal "2000000000000000000000".toList = .error .excessiveBozDigits := by
  decide +kernel

/-! ### Digits with a value, and digits without -/

/-- The digits of a constant have a value: there are some, each of them is below the radix, and the
number that they denote fits into a word and is the value. -/
structure HasValue (base : Base) (digits : List Char) (v : UInt64) : Prop where
  nonempty : digits ≠ []
  below : ∀ d ∈ digits, digitValue d < base.radix
  fits : denoted base.radix digits < UInt64.size
  toNat_eq : v.toNat = denoted base.radix digits

/-- `Flaw base digits kind` says why the digits of a constant have no value. -/
inductive Flaw (base : Base) : List Char → Kind → Prop where
  /-- There are none. -/
  | noDigit : Flaw base [] .noBozDigit
  /-- The first digit that does not fit behind those before it is not below the radix. -/
  | tooLarge {front back : List Char} {d : Char} (hfront : Fits base front)
      (hd : base.radix ≤ digitValue d) : Flaw base (front ++ d :: back) .badBozDigit
  /-- The first digit that does not fit makes the number too large for a word. -/
  | tooMany {front back : List Char} {d : Char} (hfront : Fits base front)
      (hd : digitValue d < base.radix)
      (hnumber : UInt64.size ≤ denoted base.radix (front ++ [d])) :
      Flaw base (front ++ d :: back) .excessiveBozDigits

theorem HasValue.value_eq {v : UInt64} (h : HasValue base digits v) :
    value base digits = .ok v := by
  rw [value_of_fits ⟨h.below, h.fits⟩, ← h.toNat_eq, UInt64.ofNat_toNat]

theorem value_of_flaw (h : Flaw base digits kind) (hne : digits ≠ []) :
    value base digits = .error kind := by
  cases h with
  | noDigit => exact absurd rfl hne
  | @tooLarge front back d hfront hd =>
    rw [List.append_cons]
    apply value_append_of_error
    rw [value_snoc_of_value hfront.fits (value_of_fits hfront), if_pos hd]
  | @tooMany front back d hfront hd hnumber =>
    rw [denoted_snoc] at hnumber
    rw [List.append_cons]
    apply value_append_of_error
    rw [value_snoc_of_value hfront.fits (value_of_fits hfront), if_neg (Nat.not_le.2 hd),
      if_pos hnumber]

theorem exists_first_misfit (h : ¬Fits base digits) :
    ∃ front d back, digits = front ++ d :: back ∧ Fits base front ∧ ¬Fits base (front ++ [d]) := by
  induction digits using List.reverseRecOn with
  | nil => exact absurd fits_nil h
  | append_singleton digits d ih =>
    by_cases hdigits : Fits base digits
    · exact ⟨digits, d, [], rfl, hdigits, h⟩
    · obtain ⟨front, c, back, rfl, hfront, hmisfit⟩ := ih hdigits
      exact ⟨front, c, back ++ [d], by simp, hfront, hmisfit⟩

theorem exists_flaw_or_value (base : Base) (digits : List Char) :
    (∃ kind, Flaw base digits kind) ∨ ∃ v, HasValue base digits v := by
  by_cases hne : digits = []
  · subst hne
    exact .inl ⟨_, .noDigit⟩
  by_cases hfits : Fits base digits
  · refine .inr ⟨UInt64.ofNat (denoted base.radix digits), hne, hfits.below, hfits.fits, ?_⟩
    rw [UInt64.toNat_ofNat', Nat.mod_eq_of_lt hfits.fits]
  · obtain ⟨front, d, back, rfl, hfront, hmisfit⟩ := exists_first_misfit hfits
    rcases Nat.lt_or_ge (digitValue d) base.radix with hd | hd
    · refine .inl ⟨_, .tooMany hfront hd (Nat.le_of_not_lt fun hnumber => ?_)⟩
      exact hmisfit (fits_snoc_iff.2 ⟨hfront, hd, hnumber⟩)
    · exact .inl ⟨_, .tooLarge hfront hd⟩

end FortranTokens.Boz
