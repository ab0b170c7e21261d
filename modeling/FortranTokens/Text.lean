/-!
# Texts and their bytes

A text is a list of characters; offsets into it count bytes of its UTF-8 form.  This file measures
texts in bytes, searches their bytes, and cuts them at byte offsets.  A cut is possible only at a
boundary between characters.
-/

namespace FortranTokens.Text

/-- The number of bytes of a text. -/
def byteSize : List Char → Nat
  | [] => 0
  | c :: cs => c.utf8Size + byteSize cs

@[simp] theorem byteSize_nil : byteSize [] = 0 := rfl

@[simp] theorem byteSize_cons (c : Char) (cs : List Char) :
    byteSize (c :: cs) = c.utf8Size + byteSize cs := rfl

@[simp] theorem byteSize_append (as bs : List Char) :
    byteSize (as ++ bs) = byteSize as + byteSize bs := by
  induction as with
  | nil => simp
  | cons a as ih => simp [ih, Nat.add_assoc]

@[simp] theorem byteSize_reverse (cs : List Char) : byteSize cs.reverse = byteSize cs := by
  induction cs with
  | nil => rfl
  | cons c cs ih => simp [ih, Nat.add_comm]

theorem length_le_byteSize (cs : List Char) : cs.length ≤ byteSize cs := by
  induction cs with
  | nil => exact Nat.le_refl 0
  | cons c cs ih =>
    have hpos := c.utf8Size_pos
    rw [List.length_cons, byteSize_cons]
    omega

theorem eq_nil_of_byteSize_eq_zero {cs : List Char} (h : byteSize cs = 0) : cs = [] :=
  List.eq_nil_of_length_eq_zero (Nat.le_zero.1 (h ▸ length_le_byteSize cs))

theorem byteSize_eq_length {cs : List Char} (h : ∀ c ∈ cs, c.utf8Size = 1) :
    byteSize cs = cs.length := by
  induction cs with
  | nil => rfl
  | cons c cs ih =>
    rw [byteSize_cons, ih fun d hd => h d (List.mem_cons_of_mem c hd), h c List.mem_cons_self,
      List.length_cons, Nat.add_comm]

/-- The bytes of a text. -/
def bytes (cs : List Char) : List UInt8 := cs.flatMap String.utf8EncodeChar

/-- The index of the first byte of a text that equals `goal`.  Searching bytes is left to a library,
which is taken at its documented result: this definition says what is assumed of it. -/
def findByte? (goal : UInt8) (cs : List Char) : Option Nat := (bytes cs).findIdx? (· == goal)

/-- The number of characters at the front of a text that lie within its first `n` bytes. -/
def charsWithin : Nat → List Char → Nat
  | _, [] => 0
  | n, c :: cs => if c.utf8Size ≤ n then charsWithin (n - c.utf8Size) cs + 1 else 0

/-- A text cut in two after exactly `n` bytes; none when that is past its end or inside a
character. -/
def splitAtByte? : Nat → List Char → Option (List Char × List Char)
  | 0, cs => some ([], cs)
  | _ + 1, [] => none
  | n + 1, c :: cs =>
    if c.utf8Size ≤ n + 1 then
      (splitAtByte? (n + 1 - c.utf8Size) cs).map fun (front, back) => (c :: front, back)
    else none

theorem splitAtByte?_append (as bs : List Char) :
    splitAtByte? (byteSize as) (as ++ bs) = some (as, bs) := by
  induction as with
  | nil => simp [splitAtByte?]
  | cons a as ih =>
    have hpos := a.utf8Size_pos
    obtain ⟨n, hn⟩ : ∃ n, a.utf8Size + byteSize as = n + 1 := ⟨_, (Nat.succ_pred (by omega)).symm⟩
    have hback : n + 1 - a.utf8Size = byteSize as := by omega
    rw [byteSize_cons, hn, List.cons_append, splitAtByte?, if_pos (by omega), hback, ih]
    rfl

/-- The characters between two byte offsets; none when the offsets are out of order, or when one of
them is past the end or inside a character. -/
def between? (start stop : Nat) (cs : List Char) : Option (List Char) :=
  if start ≤ stop then do
    let (_, back) ← splitAtByte? start cs
    let (front, _) ← splitAtByte? (stop - start) back
    return front
  else none

theorem between?_append (as bs cs : List Char) :
    between? (byteSize as) (byteSize as + byteSize bs) (as ++ (bs ++ cs)) = some bs := by
  unfold between?
  rw [if_pos (Nat.le_add_right _ _), splitAtByte?_append, Nat.add_sub_cancel_left]
  show (splitAtByte? (byteSize bs) (bs ++ cs) >>= _) = _
  rw [splitAtByte?_append]
  rfl

end FortranTokens.Text
