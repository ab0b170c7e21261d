import Mathlib.Data.List.Induction
import Mathlib.Data.Nat.Digits.Defs
import FortranTokens.CharClass

/-!
# Letters, quotes, digits and the numbers that digits denote

Two letters differ by case only where their codes differ by 32, and the digits of every base are a
few ranges of codes.  `denoted base digits` is the number that digits denote, the first digit
counting most.  The decoders compute it by different loops, one for each kind of literal; here it
is that number itself, and each loop is compared with it digit by digit (`denoted_snoc`).
-/

namespace FortranTokens.CharClass

variable {c : Char}

theorem le_iff_toNat (a b : Char) : a ≤ b ↔ a.toNat ≤ b.toNat := by
  rw [Char.le_def, UInt32.le_iff_toNat_le]
  rfl

/-! ### Letters -/

theorem toNat_toLower (c : Char) :
    (toLower c).toNat = if 65 ≤ c.toNat ∧ c.toNat ≤ 90 then c.toNat + 32 else c.toNat := by
  have hc : c.val.toNat = c.toNat := rfl
  have hA : 'A'.val.toNat = 65 := rfl
  have hZ : 'Z'.val.toNat = 90 := rfl
  unfold toLower Char.toLower
  simp only [ge_iff_le, UInt32.le_iff_toNat_le, hA, hZ, hc]
  split
  · show (c.val + ('a'.val - 'A'.val)).toNat = _
    rw [UInt32.toNat_add, hc]
    show (c.toNat + 32) % 2 ^ 32 = _
    omega
  · rfl

theorem toLower_eq (up : Char) {low : Char} (hup : up.toNat + 32 = low.toNat)
    (h : toLower c = low) : c = up ∨ c = low := by
  have hlow := toNat_toLower c
  rw [h] at hlow
  split at hlow
  · left
    exact Char.toNat_inj.1 (by omega)
  · right
    exact Char.toNat_inj.1 hlow.symm

/-! ### Quotes -/

/-- The quotes that the digits of a constant or the text of a literal can stand between. -/
def quotes : List Char := ['\'', '"']

theorem mem_quotes_iff : c ∈ quotes ↔ c = '\'' ∨ c = '"' := by
  simp [quotes]

theorem utf8Size_of_mem_quotes (h : c ∈ quotes) : c.utf8Size = 1 := by
  rcases mem_quotes_iff.1 h with rfl | rfl <;> rfl

/-! ### Ranges of digits -/

theorem isDecimalDigit_iff : isDecimalDigit c ↔ 48 ≤ c.toNat ∧ c.toNat ≤ 57 := by
  simp [isDecimalDigit, le_iff_toNat]

theorem isOctalDigit_iff : isOctalDigit c ↔ 48 ≤ c.toNat ∧ c.toNat ≤ 55 := by
  simp [isOctalDigit, le_iff_toNat]

/-! ### Values of digits -/

theorem digitValue_of_isDecimalDigit (h : isDecimalDigit c) : digitValue c = c.toNat - 48 := by
  unfold digitValue digitValue?
  rw [if_pos h]
  rfl

theorem digitValue_lt_of_isOctalDigit (h : isOctalDigit c) : digitValue c < 8 := by
  rw [isOctalDigit_iff] at h
  rw [digitValue_of_isDecimalDigit (isDecimalDigit_iff.2 (by omega))]
  omega

theorem digitValue_lt (c : Char) : digitValue c < 16 := by
  unfold digitValue digitValue?
  simp only [isDecimalDigit, le_iff_toNat, Bool.and_eq_true, decide_eq_true_eq]
  have h0 : '0'.toNat = 48 := rfl
  have h9 : '9'.toNat = 57 := rfl
  have ha : 'a'.toNat = 97 := rfl
  have hf : 'f'.toNat = 102 := rfl
  have hA : 'A'.toNat = 65 := rfl
  have hF : 'F'.toNat = 70 := rfl
  split
  · simp only [Option.getD_some]
    omega
  · split
    · simp only [Option.getD_some]
      omega
    · split
      · simp only [Option.getD_some]
        omega
      · simp

theorem isOctalDigit_digitChar : ∀ n < 8, isOctalDigit n.digitChar := by
  decide

theorem digitValue_digitChar : ∀ n < 16, digitValue n.digitChar = n := by
  decide

/-! ### Numbers -/

/-- The number that digits denote in a base, the first digit counting most. -/
def denoted (base : Nat) (digits : List Char) : Nat :=
  Nat.ofDigits base (digits.map digitValue).reverse

@[simp] theorem denoted_nil (base : Nat) : denoted base [] = 0 := rfl

theorem denoted_snoc (base : Nat) (digits : List Char) (d : Char) :
    denoted base (digits ++ [d]) = denoted base digits * base + digitValue d := by
  unfold denoted
  simp [Nat.ofDigits_cons, Nat.mul_comm, Nat.add_comm]

theorem denoted_cons (base : Nat) (d : Char) (digits : List Char) :
    denoted base (d :: digits) = digitValue d * base ^ digits.length + denoted base digits := by
  unfold denoted
  simp [Nat.ofDigits_append, Nat.mul_comm, Nat.add_comm]

theorem denoted_lt {base : Nat} {digits : List Char} (hbase : 1 < base)
    (h : ∀ d ∈ digits, digitValue d < base) : denoted base digits < base ^ digits.length := by
  have hlt := Nat.ofDigits_lt_base_pow_length (l := (digits.map digitValue).reverse) hbase
    (by simpa using h)
  rwa [List.length_reverse, List.length_map] at hlt

theorem foldl_eq_denoted (base : Nat) (digits : List Char) :
    digits.foldl (fun n c => n * base + digitValue c) 0 = denoted base digits := by
  induction digits using List.reverseRecOn with
  | nil => rfl
  | append_singleton digits d ih =>
    rw [List.foldl_append, ih, denoted_snoc]
    rfl

end FortranTokens.CharClass
