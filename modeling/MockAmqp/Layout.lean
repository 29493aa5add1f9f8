import MockAmqp.Lib.Placed
import MockAmqp.Text

/-!
# Fields of a buffer

What `struct` and the text codecs write, and what they read back where it stands in a buffer.
-/

namespace MockAmqp

theorem beNat_snoc (b : Bytes) (x : UInt8) : beNat (b ++ [x]) = beNat b * 256 + x.toNat := by
  rw [beNat, List.foldl_append]
  rfl

theorem beNat_lt (b : Bytes) : beNat b < 256 ^ b.length := by
  induction b using List.reverseRecOn with
  | nil => decide
  | append_singleton b x ih =>
      have digit := x.toNat_lt
      rw [beNat_snoc, List.length_append, List.length_singleton, Nat.pow_succ]
      omega

theorem beNat_beBytes (width n : Nat) (h : n < 256 ^ width) : beNat (beBytes width n) = n := by
  induction width generalizing n with
  | zero =>
      have zero : n = 0 := by simpa using h
      rw [zero]
      rfl
  | succ width ih =>
      have high : n / 256 < 256 ^ width := by
        rw [Nat.div_lt_iff_lt_mul (by decide)]
        simpa [Nat.pow_succ] using h
      have low : (UInt8.ofNat n).toNat = n % 256 := by simp
      rw [beBytes, beNat_snoc, ih _ high, low]
      omega

theorem slice_of_split {buf : Bytes} {start stop : Nat} (l m r : Bytes) (split : buf = l ++ m ++ r)
    (hstart : start = l.length) (hstop : stop = l.length + m.length) : slice buf start stop = m := by
  subst hstart hstop split
  have size : l.length + m.length - l.length = m.length := by omega
  rw [slice, List.append_assoc, List.drop_left, size, List.take_left]

theorem slice_append {p : Bytes} {start stop : Nat} (h : stop ≤ p.length) (q : Bytes) :
    slice (p ++ q) start stop = slice p start stop := by
  by_cases hs : start ≤ p.length
  · rw [slice, slice, List.drop_append_of_le_length hs, List.take_append_of_le_length]
    rw [List.length_drop]
    omega
  · have none : stop - start = 0 := by omega
    rw [slice, slice, none, List.take_zero, List.take_zero]

/-! ## Fixed fields -/

section
variable {buf b : Bytes} {offset width n : Nat} {i : Int}

theorem slice_placed (h : Placed buf offset b) : slice buf offset (offset + b.length) = b := by
  rw [slice, Nat.add_sub_cancel_left]
  exact h.take_eq

theorem unpackFrom_placed (h : Placed buf offset b) (proper : b ≠ []) :
    unpackFrom b.length buf offset = .ok (beNat b) := by
  rw [unpackFrom, if_pos (h.length_le proper), slice_placed h]

/-- A field that was written in range is read back. -/
theorem unpackFrom_beBytes (h : Placed buf offset (beBytes (width + 1) n))
    (fits : n < 256 ^ (width + 1)) : unpackFrom (width + 1) buf offset = .ok n := by
  have proper : beBytes (width + 1) n ≠ [] := by
    rw [← List.length_pos_iff, length_beBytes]
    omega
  have read := unpackFrom_placed h proper
  rwa [length_beBytes, beNat_beBytes _ _ fits] at read

theorem two_pow_width (width : Nat) : (2 : Nat) ^ (8 * width) = 256 ^ width := by
  rw [Nat.pow_mul]

theorem packUnsigned_ok (fits : n < 256 ^ width) :
    packUnsigned width n = .ok (beBytes width n) := by
  have bound : (n : Int) < 2 ^ (8 * width) := by
    rw [← two_pow_width] at fits
    exact_mod_cast fits
  rw [packUnsigned, if_pos ⟨Int.natCast_nonneg n, bound⟩, Int.toNat_natCast]

theorem packSigned_ok (low : -2 ^ (8 * width - 1) ≤ i) (high : i < 2 ^ (8 * width - 1)) :
    packSigned width i = .ok (beBytes width (i % 2 ^ (8 * width)).toNat) :=
  if_pos ⟨low, high⟩

theorem emod_fits (width : Nat) (i : Int) : (i % 2 ^ (8 * width)).toNat < 256 ^ width := by
  have positive : (0 : Int) < 2 ^ (8 * width) := Int.pow_pos (by decide)
  have bound := Int.emod_lt_of_pos i positive
  rw [← two_pow_width, Int.toNat_lt (Int.emod_nonneg i positive.ne')]
  exact_mod_cast bound

/-- The two's complement of a number in range, read as an unsigned field. -/
theorem toSigned_emod (proper : 0 < width) (low : -2 ^ (8 * width - 1) ≤ i)
    (high : i < 2 ^ (8 * width - 1)) : toSigned width (i % 2 ^ (8 * width)).toNat = i := by
  obtain ⟨w, rfl⟩ : ∃ w, width = w + 1 := ⟨width - 1, by omega⟩
  have double : (2 : Int) ^ (8 * (w + 1)) = 2 * 2 ^ (8 * w + 7) := by ring
  have half : 8 * (w + 1) - 1 = 8 * w + 7 := by omega
  rw [half] at low high
  rw [toSigned, half, double]
  have cast : ((2 ^ (8 * w + 7) : Nat) : Int) = 2 ^ (8 * w + 7) := by
    push_cast
    rfl
  generalize (2 : Int) ^ (8 * w + 7) = m at low high cast ⊢
  generalize 2 ^ (8 * w + 7) = k at cast ⊢
  subst cast
  by_cases sign : 0 ≤ i
  · rw [Int.emod_eq_of_lt sign (by omega), if_pos (by omega)]
    omega
  · have wrapped : i % (2 * k : Int) = i + 2 * k := by
      rw [← Int.add_emod_right, Int.emod_eq_of_lt (by omega) (by omega)]
    rw [wrapped, if_neg (by omega)]
    omega

end

end MockAmqp
