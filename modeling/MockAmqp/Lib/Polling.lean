/-!
# Polling tasks

A coroutine looks at a shared state and sleeps in turn, a limited number of times. Others change
the state while it sleeps.
-/

namespace Polling

variable {σ ρ : Type}

/-- The looks still allowed, or what the coroutine has ended with. -/
inductive Task (ρ : Type) where
  | looking (left : Nat)
  | ended (result : ρ)

/-- The coroutine goes on until it sleeps again or ends. -/
def Task.resume (look : σ → Option ρ) (timeout : ρ) : Task ρ → σ → Task ρ
  | ended r, _ => ended r
  | looking 0, _ => ended timeout
  | looking (left + 1), s =>
      match look s with
      | some r => ended r
      | none => looking left

/-- What is found in the states seen, or the timeout. -/
def outcome (look : σ → Option ρ) (timeout : ρ) (seen : List σ) : ρ :=
  (seen.findSome? look).getD timeout

section
variable {look : σ → Option ρ} {timeout : ρ}

theorem resumed_ended (r : ρ) (seen : List σ) :
    seen.foldl (Task.resume look timeout) (.ended r) = .ended r := by
  induction seen with
  | nil => rfl
  | cons s rest ih => exact ih

/-- A task by the states in which it has been resumed. -/
theorem resumed_eq (left : Nat) (seen : List σ) :
    seen.foldl (Task.resume look timeout) (.looking left) =
      match (seen.take left).findSome? look with
      | some r => .ended r
      | none => if left < seen.length then .ended timeout else .looking (left - seen.length) := by
  induction seen generalizing left with
  | nil => simp
  | cons s rest ih =>
      rw [List.foldl_cons]
      cases left with
      | zero => exact resumed_ended timeout rest
      | succ left =>
          rw [List.take_succ_cons, List.findSome?_cons, List.length_cons]
          cases found : look s with
          | some r =>
              simp only [Task.resume, found]
              exact resumed_ended r rest
          | none =>
              simp only [Task.resume, found]
              rw [ih]
              simp only [Nat.add_lt_add_iff_right, Nat.add_sub_add_right]

/-- A task ends with the outcome of the looks that it was allowed. -/
theorem outcome_of_ended {left : Nat} {seen : List σ} {r : ρ}
    (ended : seen.foldl (Task.resume look timeout) (.looking left) = .ended r) :
    r = outcome look timeout (seen.take left) := by
  rw [resumed_eq] at ended
  unfold outcome
  cases found : (seen.take left).findSome? look with
  | some r' =>
      rw [found] at ended
      exact (Task.ended.inj ended).symm
  | none =>
      rw [found] at ended
      dsimp only at ended
      split at ended
      · exact (Task.ended.inj ended).symm
      · cases ended

/-- Resumed once more than it may look, a task has ended. -/
theorem ended_of_length {left : Nat} {seen : List σ} (enough : left < seen.length) :
    ∃ r, seen.foldl (Task.resume look timeout) (.looking left) = .ended r := by
  rw [resumed_eq, if_pos enough]
  cases (seen.take left).findSome? look with
  | some r => exact ⟨r, rfl⟩
  | none => exact ⟨timeout, rfl⟩

end

end Polling
