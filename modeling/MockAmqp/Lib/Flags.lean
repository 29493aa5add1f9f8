import Mathlib.Algebra.BigOperators.Group.List.Basic
import Mathlib.Data.Nat.Bitwise

/-!
# Flag words

A table gives each of its entries a flag, in descending order. The sum of the flags of some
entries tells which ones they are.
-/

namespace Flags

variable {α : Type} {place : α → Nat} {present : α → Bool} {table : List α}

def word (place : α → Nat) (present : α → Bool) (table : List α) : Nat :=
  ((table.filter present).map fun a => 2 ^ place a).sum

def Descending (place : α → Nat) (table : List α) : Prop :=
  table.Pairwise fun a b => place b < place a

theorem word_cons (a : α) : word place present (a :: table) =
    (if present a then 2 ^ place a else 0) + word place present table := by
  rw [word, List.filter_cons]
  split
  · rw [List.map_cons, List.sum_cons]
    rfl
  · rw [Nat.zero_add]
    rfl

theorem word_lt {bound : Nat} (descending : Descending place table)
    (below : ∀ a ∈ table, place a < bound) : word place present table < 2 ^ bound := by
  induction table generalizing bound with
  | nil => exact Nat.two_pow_pos bound
  | cons a table ih =>
      obtain ⟨first, rest⟩ := List.pairwise_cons.mp descending
      have low := ih rest first
      have high := Nat.pow_le_pow_right (show 0 < 2 by decide)
        (Nat.succ_le_of_lt (below a List.mem_cons_self))
      rw [Nat.succ_eq_add_one, Nat.pow_succ] at high
      rw [word_cons]
      split
      · omega
      · omega

theorem testBit_word (descending : Descending place table) {a : α} (member : a ∈ table) :
    (word place present table).testBit (place a) = present a := by
  induction table with
  | nil => cases member
  | cons b table ih =>
      obtain ⟨first, rest⟩ := List.pairwise_cons.mp descending
      have low : word place present table < 2 ^ place b := word_lt rest first
      rw [word_cons]
      rcases List.mem_cons.mp member with rfl | later
      · have unset : (word place present table).testBit (place a) = false :=
          Nat.testBit_lt_two_pow low
        cases given : present a with
        | false => rw [if_neg (by simp), Nat.zero_add, unset]
        | true => rw [if_pos rfl, Nat.testBit_two_pow_add_eq, unset, Bool.not_false]
      · rw [← ih rest later]
        split
        · exact Nat.testBit_two_pow_add_gt (first a later) _
        · rw [Nat.zero_add]

/-- The entries whose flags are set are the ones that were put into the word. -/
theorem filter_word (descending : Descending place table) :
    (table.filter fun a => word place present table &&& 2 ^ place a ≠ 0) =
      table.filter present := by
  apply List.filter_congr
  intro a member
  rw [Nat.and_two_pow, testBit_word descending member]
  cases present a with
  | false => simp
  | true => simp

end Flags
