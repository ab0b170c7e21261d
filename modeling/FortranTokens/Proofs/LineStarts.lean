import FortranTokens.Lines
import FortranTokens.Proofs.ByteSearch

/-!
# Where lines start

The starts of the lines stand in the table in increasing order, so binary search finds how many of
them are at most an offset (`Place.upTo_search`).  All starts but the first one are the places just
behind newlines, and up to an offset there are as many of these as there are newline bytes before it
(`LineTable.countP_endsFrom`).  In a source that is short enough for 32-bit offsets the starts are
words without a loss, so the line of an offset comes after as many others as there are newline bytes
before it (`LineTable.lineAt_ofSource`).
-/

namespace FortranTokens

open Text (byteSize bytes)

/-! ## Binary search -/

namespace Place

variable {xs : Array UInt32} {x : UInt32} {lo hi n : Nat}

/-- How many elements are at most the word that stands at a place. -/
def upTo : Place → Nat
  | found i => i + 1
  | gap i => i

/-- The first `n` elements are at most `x`, and all others are larger. -/
structure Splits (xs : Array UInt32) (x : UInt32) (n : Nat) : Prop where
  le_size : n ≤ xs.size
  below : ∀ i (h : i < xs.size), i < n → xs[i] ≤ x
  above : ∀ i (h : i < xs.size), n ≤ i → x < xs[i]

theorem getElem_lt_of_lt (hxs : xs.toList.Pairwise (· < ·)) {i j : Nat} (hij : i < j)
    (hj : j < xs.size) : xs[i] < xs[j] := by
  have hlt := List.pairwise_iff_getElem.1 hxs i j (by simpa using Nat.lt_trans hij hj)
    (by simpa using hj) hij
  simpa using hlt

/-- All elements before the window are smaller than `x`, and all elements behind it are larger. -/
theorem splits_search (hxs : xs.toList.Pairwise (· < ·)) (h : hi ≤ xs.size) (hlohi : lo ≤ hi)
    (below : ∀ i (hi : i < xs.size), i < lo → xs[i] < x)
    (above : ∀ i (h : i < xs.size), hi ≤ i → x < xs[i]) :
    Splits xs x (search xs x lo hi h).upTo := by
  fun_induction search xs x lo hi h with
  | case1 lo hi h hlt mid hmid heq =>
    refine ⟨hmid, fun i hi hle => ?_, fun i hi hle => ?_⟩
    · rcases Nat.lt_or_eq_of_le (Nat.le_of_lt_succ hle) with hlt | rfl
      · exact UInt32.le_of_lt (heq ▸ getElem_lt_of_lt hxs hlt hmid)
      · exact UInt32.le_of_eq heq
    · exact heq ▸ getElem_lt_of_lt hxs hle hi
  | case2 lo hi h hlt mid hmid hne hless ih =>
    refine ih (by omega) (fun i hi hle => ?_) above
    rcases Nat.lt_or_eq_of_le (Nat.le_of_lt_succ hle) with hlt | rfl
    · exact UInt32.lt_trans (getElem_lt_of_lt hxs hlt hmid) hless
    · exact hless
  | case3 lo hi h hlt mid hmid hne hless ih =>
    have hmore : x < xs[mid] := UInt32.lt_of_le_of_ne (UInt32.not_lt.1 hless) (Ne.symm hne)
    refine ih (by omega) below (fun i hi hle => ?_)
    rcases Nat.lt_or_eq_of_le hle with hlt | rfl
    · exact UInt32.lt_trans hmore (getElem_lt_of_lt hxs hlt hi)
    · exact hmore
  | case4 lo hi h hempty =>
    have heq : hi = lo := Nat.le_antisymm (Nat.not_lt.1 hempty) hlohi
    subst heq
    exact ⟨h, fun i hi hlt => UInt32.le_of_lt (below i hi hlt), above⟩

theorem Splits.countP_eq (h : Splits xs x n) : xs.toList.countP (· ≤ x) = n := by
  have hfront : (xs.toList.take n).countP (· ≤ x) = (xs.toList.take n).length := by
    rw [List.countP_eq_length]
    intro y hy
    obtain ⟨i, hi, rfl⟩ := List.mem_take_iff_getElem.1 hy
    rw [Nat.lt_min, Array.length_toList] at hi
    simpa using h.below i hi.2 hi.1
  have hback : (xs.toList.drop n).countP (· ≤ x) = 0 := by
    rw [List.countP_eq_zero]
    intro y hy
    obtain ⟨i, hi, rfl⟩ := List.mem_drop_iff_getElem.1 hy
    rw [Array.length_toList] at hi
    simpa using h.above (n + i) (by omega) (Nat.le_add_right _ _)
  rw [← List.take_append_drop n xs.toList, List.countP_append, hfront, hback, List.length_take,
    Array.length_toList]
  exact Nat.min_eq_left h.le_size

theorem upTo_search (hxs : xs.toList.Pairwise (· < ·)) :
    (search xs x 0 xs.size (Nat.le_refl _)).upTo = xs.toList.countP (· ≤ x) :=
  (splits_search hxs (Nat.le_refl _) (Nat.zero_le _) (fun i _ hi => absurd hi (Nat.not_lt_zero i))
    fun _ hi hle => absurd hi (Nat.not_lt.2 hle)).countP_eq.symm

end Place

/-! ## Newlines among bytes -/

namespace Text

variable {cs : List Char}

theorem bytes_append (as bs : List Char) : bytes (as ++ bs) = bytes as ++ bytes bs :=
  List.flatMap_append

theorem length_bytes (cs : List Char) : (bytes cs).length = byteSize cs := by
  induction cs with
  | nil => rfl
  | cons c cs ih =>
    unfold bytes at ih ⊢
    rw [List.flatMap_cons, List.length_append, String.length_utf8EncodeChar, ih, byteSize_cons]

theorem bytes_newline : bytes ['\n'] = [10] := by decide +kernel

/-- A newline byte is a newline: it is no part of another character. -/
theorem count_newline_of_not_mem (h : '\n' ∉ cs) : (bytes cs).count 10 = 0 := by
  rw [List.count_eq_zero]
  intro hmem
  obtain ⟨c, hc, hbyte⟩ := List.mem_flatMap.1 hmem
  have hne : c.toNat ≠ (10 : UInt8).toNat := fun heq =>
    h ((Char.toNat_inj (c := c) (d := '\n')).1 heq ▸ hc)
  have hascii : (10 : UInt8) < 128 := by decide
  have hnone := findIdx?_utf8EncodeChar_eq_none hascii hne
  simpa using List.findIdx?_eq_none_iff.1 hnone 10 hbyte

theorem count_newline (cs : List Char) : (bytes cs).count 10 = cs.count '\n' := by
  induction cs with
  | nil => rfl
  | cons c cs ih =>
    rw [← List.singleton_append, bytes_append, List.count_append, List.count_append, ih]
    by_cases hc : c = '\n'
    · rw [hc, bytes_newline]
      rfl
    · have hnone : '\n' ∉ [c] := by simpa using Ne.symm hc
      rw [count_newline_of_not_mem hnone, List.count_eq_zero_of_not_mem hnone]

theorem count_newline_le (cs : List Char) : (bytes cs).count 10 ≤ byteSize cs :=
  length_bytes cs ▸ List.count_le_length

theorem count_newline_append (front : List Char) (h : '\n' ∉ cs) :
    (bytes (front ++ cs)).count 10 = (bytes front).count 10 := by
  rw [bytes_append, List.count_append, count_newline_of_not_mem h, Nat.add_zero]

end Text

namespace LineTable

variable {n m : Nat} {source : List Char}

/-- The offsets just after the newlines among bytes that stand from offset `n` on. -/
def endsFrom (n : Nat) (bs : List UInt8) : List Nat :=
  (bs.zipIdx n).filterMap fun (byte, i) => if byte = 10 then some (i + 1) else none

theorem endsFrom_cons (n : Nat) (b : UInt8) (bs : List UInt8) :
    endsFrom n (b :: bs) =
      if b = 10 then (n + 1) :: endsFrom (n + 1) bs else endsFrom (n + 1) bs := by
  unfold endsFrom
  rw [List.zipIdx_cons, List.filterMap_cons]
  by_cases hb : b = 10
  · simp [hb]
  · simp [hb]

theorem endsFrom_append (n : Nat) (as bs : List UInt8) :
    endsFrom n (as ++ bs) = endsFrom n as ++ endsFrom (n + as.length) bs := by
  unfold endsFrom
  rw [List.zipIdx_append, List.filterMap_append]

theorem length_endsFrom (n : Nat) (bs : List UInt8) : (endsFrom n bs).length = bs.count 10 := by
  induction bs generalizing n with
  | nil => rfl
  | cons b bs ih =>
    rw [endsFrom_cons, List.count_cons]
    by_cases hb : b = 10
    · simp [hb, ih]
    · simp [hb, ih]

theorem bounds_of_mem_endsFrom {bs : List UInt8} (h : m ∈ endsFrom n bs) :
    n < m ∧ m ≤ n + bs.length := by
  induction bs generalizing n with
  | nil => cases h
  | cons b bs ih =>
    rw [List.length_cons]
    have hmore (hm : m ∈ endsFrom (n + 1) bs) : n < m ∧ m ≤ n + (bs.length + 1) := by
      obtain ⟨hlt, hle⟩ := ih hm
      omega
    rw [endsFrom_cons] at h
    split at h
    · rcases List.mem_cons.1 h with rfl | h
      · omega
      · exact hmore h
    · exact hmore h

theorem pairwise_endsFrom (n : Nat) (bs : List UInt8) : (endsFrom n bs).Pairwise (· < ·) := by
  induction bs generalizing n with
  | nil => exact .nil
  | cons b bs ih =>
    rw [endsFrom_cons]
    split
    · exact .cons (fun m hm => (bounds_of_mem_endsFrom hm).1) (ih _)
    · exact ih _

/-- The newlines that end up to `k` bytes further on are those among the next `k` bytes. -/
theorem countP_endsFrom (n k : Nat) (bs : List UInt8) :
    (endsFrom n bs).countP (· ≤ n + k) = (bs.take k).count 10 := by
  induction k generalizing n bs with
  | zero =>
    rw [List.take_zero, List.count_nil, List.countP_eq_zero]
    intro m hm
    simpa using (bounds_of_mem_endsFrom hm).1
  | succ k ih =>
    rcases bs with _ | ⟨b, bs⟩
    · rfl
    · have hsum : n + (k + 1) = n + 1 + k := by omega
      rw [endsFrom_cons, List.take_succ_cons, List.count_cons, ← ih (n + 1) bs, hsum]
      by_cases hb : b = 10
      · rw [if_pos hb, List.countP_cons_of_pos (by simp), if_pos (by simp [hb])]
      · rw [if_neg hb, if_neg (by simp [hb])]
        rfl

/-! ## Lines -/

theorem starts_ofSource (source : List Char) :
    (ofSource source).starts.toList = (0 :: endsFrom 0 (bytes source)).map UInt32.ofNat := rfl

/-- The starts before they are cut off to words, which changes none of them. -/
theorem le_of_mem_starts (h : n ∈ 0 :: endsFrom 0 (bytes source)) : n ≤ byteSize source := by
  rcases List.mem_cons.1 h with rfl | h
  · exact Nat.zero_le _
  · have hle := (bounds_of_mem_endsFrom h).2
    rwa [Text.length_bytes, Nat.zero_add] at hle

section

variable (hsize : byteSize source < UInt32.size)

include hsize

theorem toNat_of_mem_starts (h : n ∈ 0 :: endsFrom 0 (bytes source)) :
    (UInt32.ofNat n).toNat = n :=
  UInt32.toNat_ofNat_of_lt' (Nat.lt_of_le_of_lt (le_of_mem_starts h) hsize)

/-- No line starts beyond the end of the source. -/
theorem toNat_le_of_mem_starts {w : UInt32} (h : w ∈ (ofSource source).starts) :
    w.toNat ≤ byteSize source := by
  rw [← Array.mem_toList_iff, starts_ofSource] at h
  obtain ⟨n, hn, rfl⟩ := List.mem_map.1 h
  rw [toNat_of_mem_starts hsize hn]
  exact le_of_mem_starts hn

theorem pairwise_starts : (ofSource source).starts.toList.Pairwise (· < ·) := by
  have hnumbers : (0 :: endsFrom 0 (bytes source)).Pairwise (· < ·) :=
    .cons (fun m hm => (bounds_of_mem_endsFrom hm).1) (pairwise_endsFrom 0 _)
  rw [starts_ofSource, List.pairwise_map]
  refine hnumbers.imp_of_mem fun hm hn hlt => ?_
  rwa [UInt32.lt_iff_toNat_lt, toNat_of_mem_starts hsize hm, toNat_of_mem_starts hsize hn]

/-- The start of the source comes first, and it is at most any offset. -/
theorem countP_starts (offset : UInt32) :
    (ofSource source).starts.toList.countP (· ≤ offset) =
      ((bytes source).take offset.toNat).count 10 + 1 := by
  have hwords : (ofSource source).starts.toList.countP (· ≤ offset) =
      (0 :: endsFrom 0 (bytes source)).countP (· ≤ offset.toNat) := by
    rw [starts_ofSource, List.countP_map]
    refine List.countP_congr fun n hn => ?_
    simp only [Function.comp_apply, decide_eq_true_iff]
    rw [UInt32.le_iff_toNat_le, toNat_of_mem_starts hsize hn]
  have hends := countP_endsFrom 0 offset.toNat (bytes source)
  rw [Nat.zero_add] at hends
  rw [hwords, List.countP_cons_of_pos (by simp), hends]

/-- The first line starts at the first byte, so that every offset has a line. -/
theorem lineAt_ofSource (offset : UInt32) :
    (ofSource source).lineAt offset = ordinal (((bytes source).take offset.toNat).count 10) := by
  have hcount := Place.upTo_search (x := offset) (pairwise_starts hsize)
  rw [countP_starts hsize offset] at hcount
  unfold lineAt
  split
  · rename_i i hi
    rw [hi] at hcount
    exact congrArg ordinal (Nat.succ.inj hcount)
  · rename_i i hi
    rw [hi] at hcount
    exact congrArg ordinal (Nat.sub_eq_of_eq_add hcount)

end

end LineTable

end FortranTokens
