import Mathlib.Data.List.Basic
import Mathlib.Data.List.Infix

/-!
# Parts of a list at a position

A part stands in a list at a position when the list goes on with it from there, whatever comes
before and after.
-/

variable {α : Type} {l a b : List α} {n : Nat}

def Placed (l : List α) (n : Nat) (part : List α) : Prop := part <+: l.drop n

namespace Placed
open List

theorem between (before part later : List α) :
    Placed (before ++ part ++ later) before.length part := by
  rw [Placed, append_assoc, drop_left]
  exact prefix_append _ _

theorem nil : Placed l n [] := nil_prefix

theorem append_iff : Placed l n (a ++ b) ↔ Placed l n a ∧ Placed l (n + a.length) b := by
  rw [Placed, Placed, Placed, ← drop_drop]
  constructor
  · rintro ⟨later, whole⟩
    rw [append_assoc] at whole
    rw [← whole, drop_left]
    exact ⟨prefix_append _ _, prefix_append _ _⟩
  · rintro ⟨⟨later, first⟩, second⟩
    rw [← first, drop_left] at second
    rw [← first]
    exact (prefix_append_right_inj a).mpr second

theorem left (h : Placed l n (a ++ b)) : Placed l n a := (append_iff.mp h).1

theorem right (h : Placed l n (a ++ b)) : Placed l (n + a.length) b := (append_iff.mp h).2

theorem take_eq (h : Placed l n a) : (l.drop n).take a.length = a := (prefix_iff_eq_take.mp h).symm

theorem getElem?_eq {x : α} (h : Placed l n (x :: a)) : l[n]? = some x := by
  obtain ⟨later, whole⟩ := h
  have first : (l.drop n)[0]? = some x := by
    rw [← whole]
    rfl
  rwa [getElem?_drop] at first

theorem tail {x : α} (h : Placed l n (x :: a)) : Placed l (n + 1) a :=
  right (a := [x]) h

theorem length_le (h : Placed l n a) (proper : a ≠ []) : n + a.length ≤ l.length := by
  have fits := IsPrefix.length_le h
  have some := length_pos_iff.mpr proper
  rw [length_drop] at fits
  omega

end Placed
