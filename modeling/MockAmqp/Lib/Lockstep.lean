import MockAmqp.Lib.Framing

/-!
# Two computations side by side

A relation between the states of two computations that is kept while both run, with the same
outcome on both sides. The rules follow the primitives of `Exec`, the loop over a byte stream and
runs of a transition function.
-/

namespace Exec

variable {ε σ σ' τ τ' α α' β β' : Type}

/-- Both results are values, related by `Q`, or both are the same exception; the states left are
related by `R` either way. -/
inductive Alongside (R : σ → σ' → Prop) (Q : α → α' → Prop) :
    EStateM.Result ε σ α → EStateM.Result ε σ' α' → Prop
  | ok {a : α} {a' : α'} {t : σ} {t' : σ'} (values : Q a a') (states : R t t') :
      Alongside R Q (.ok a t) (.ok a' t')
  | error {e : ε} {t : σ} {t' : σ'} (states : R t t') : Alongside R Q (.error e t) (.error e t')

/-- Both are values, related by `P`, or both are the same exception. -/
inductive Together (P : α → α' → Prop) : Except ε α → Except ε α' → Prop
  | ok {a : α} {a' : α'} (values : P a a') : Together P (.ok a) (.ok a')
  | error (e : ε) : Together P (.error e) (.error e)

theorem together_refl (x : Except ε α) : Together Eq x x := by
  cases x with
  | ok a => exact .ok rfl
  | error e => exact .error e

theorem together_bind {P : α → α' → Prop} {Q : β → β' → Prop} {x : Except ε α}
    {y : Except ε α'} {f : α → Except ε β} {g : α' → Except ε β'} (first : Together P x y)
    (later : ∀ a a', P a a' → Together Q (f a) (g a')) : Together Q (x >>= f) (y >>= g) := by
  cases first with
  | ok values => exact later _ _ values
  | error e => exact .error e

/-- From related states the computations end alongside each other. -/
def Lockstep (R : σ → σ' → Prop) (Q : α → α' → Prop) (x : EStateM ε σ α)
    (y : EStateM ε σ' α') : Prop := ∀ s s', R s s' → Alongside R Q (x s) (y s')

section Rules
variable {R : σ → σ' → Prop} {P : α → α' → Prop} {Q : β → β' → Prop}

theorem Alongside.mono {P' : α → α' → Prop} {r : EStateM.Result ε σ α}
    {r' : EStateM.Result ε σ' α'} (h : Alongside R P r r') (weaker : ∀ a a', P a a' → P' a a') :
    Alongside R P' r r' := by
  cases h with
  | ok values states => exact .ok (weaker _ _ values) states
  | error states => exact .error states

theorem Alongside.states {x : EStateM ε σ α} {y : EStateM ε σ' α'} {s : σ} {s' : σ'}
    (h : Alongside R P (x s) (y s')) : R (after x s) (after y s') := by
  unfold Exec.after
  generalize x s = r at h
  generalize y s' = r' at h
  cases h with
  | ok _ states => exact states
  | error states => exact states

theorem Lockstep.after {x : EStateM ε σ α} {y : EStateM ε σ' α'} (h : Lockstep R P x y) {s : σ}
    {s' : σ'} (related : R s s') : R (after x s) (after y s') := (h s s' related).states

/-- A further relation that the ends of both computations keep. -/
theorem Lockstep.and {T : σ → σ' → Prop} {x : EStateM ε σ α} {y : EStateM ε σ' α'}
    (h : Lockstep R P x y)
    (kept : ∀ s s', R s s' → T s s' → T (Exec.after x s) (Exec.after y s')) :
    Lockstep (fun s s' => R s s' ∧ T s s') P x y := by
  rintro s s' ⟨related, also⟩
  have ended := h s s' related
  have still := kept s s' related also
  unfold Exec.after at still
  generalize x s = r at ended still
  generalize y s' = r' at ended still
  cases ended with
  | ok values states => exact .ok values ⟨states, still⟩
  | error states => exact .error ⟨states, still⟩

theorem lockstep_pure {a : α} {a' : α'} (values : P a a') :
    Lockstep R P (pure a : EStateM ε σ α) (pure a') := fun _ _ related => .ok values related

theorem lockstep_raise (e : ε) :
    Lockstep R P (raise e : EStateM ε σ α) (raise e : EStateM ε σ' α') :=
  fun _ _ related => .error related

theorem lockstep_together {x : Except ε α} {y : Except ε α'} (h : Together P x y) :
    Lockstep R P (attempt x : EStateM ε σ α) (attempt y) := by
  intro s s' related
  cases h with
  | ok values => exact .ok values related
  | error e => exact .error related

theorem lockstep_attempt (x : Except ε α) :
    Lockstep R Eq (attempt x : EStateM ε σ α) (attempt x) := lockstep_together (together_refl x)

theorem lockstep_read {f : σ → α} {g : σ' → α'} (h : ∀ s s', R s s' → P (f s) (g s')) :
    Lockstep R P (read f : EStateM ε σ α) (read g) :=
  fun s s' related => .ok (h s s' related) related

theorem lockstep_update {f : σ → σ} {g : σ' → σ'} (h : ∀ s s', R s s' → R (f s) (g s')) :
    Lockstep R Eq (update f : EStateM ε σ Unit) (update g) :=
  fun s s' related => .ok rfl (h s s' related)

theorem lockstep_bind {x : EStateM ε σ α} {y : EStateM ε σ' α'} {f : α → EStateM ε σ β}
    {g : α' → EStateM ε σ' β'} (first : Lockstep R P x y)
    (later : ∀ a a', P a a' → Lockstep R Q (f a) (g a')) : Lockstep R Q (x >>= f) (y >>= g) := by
  intro s s' related
  have ended := first s s' related
  rw [bind_apply, bind_apply]
  cases hx : x s with
  | ok a t =>
      cases hy : y s' with
      | ok a' t' =>
          rw [hx, hy] at ended
          cases ended with
          | ok values states => exact later a a' values t t' states
      | error e t' =>
          rw [hx, hy] at ended
          cases ended
  | error e t =>
      cases hy : y s' with
      | ok a' t' =>
          rw [hx, hy] at ended
          cases ended
      | error e' t' =>
          rw [hx, hy] at ended
          cases ended with
          | error states => exact .error states

/-- The second computations depend on the same result. -/
theorem lockstep_bind_eq {x : EStateM ε σ α} {y : EStateM ε σ' α} {f : α → EStateM ε σ β}
    {g : α → EStateM ε σ' β'} (first : Lockstep R Eq x y)
    (later : ∀ a, Lockstep R Q (f a) (g a)) : Lockstep R Q (x >>= f) (y >>= g) := by
  refine lockstep_bind first ?_
  rintro a _ rfl
  exact later a

theorem lockstep_ite {c : Prop} [Decidable c] {x x' : EStateM ε σ β} {y y' : EStateM ε σ' β'}
    (yes : Lockstep R Q x y) (no : Lockstep R Q x' y') :
    Lockstep R Q (if c then x else x') (if c then y else y') := by
  split
  · exact yes
  · exact no

/-- Computations on parts of the states. -/
theorem lockstep_zoom {T : τ → τ' → Prop} {get : σ → τ} {put : τ → σ → σ} {get' : σ' → τ'}
    {put' : τ' → σ' → σ'} {x : EStateM ε τ α} {y : EStateM ε τ' α'} (inner : Lockstep T P x y)
    (shows : ∀ s s', R s s' → T (get s) (get' s'))
    (puts : ∀ s s' t t', R s s' → T t t' → R (put t s) (put' t' s')) :
    Lockstep R P (zoom get put x) (zoom get' put' y) := by
  intro s s' related
  have ended := inner _ _ (shows s s' related)
  unfold zoom
  generalize x (get s) = r at ended
  generalize y (get' s') = r' at ended
  cases ended with
  | ok values states => exact .ok values (puts _ _ _ _ related states)
  | error states => exact .error (puts _ _ _ _ related states)

end Rules

end Exec

namespace Framing
open Exec

variable {ε σ σ' β α : Type} {R : σ → σ' → Prop}

/-- Loops over the same stream, with handlers in lockstep, take the same items and leave the same
bytes. -/
theorem drain_lockstep {r : Reader ε β α} {handle : α → EStateM ε σ Bool}
    {handle' : α → EStateM ε σ' Bool} (h : ∀ a, Lockstep R Eq (handle a) (handle' a)) (n : Nat)
    (buf : List β) {s : σ} {s' : σ'} (related : R s s') :
    Alongside (fun p p' => p.1 = p'.1 ∧ R p.2 p'.2) Eq (drain r handle n (buf, s))
      (drain r handle' n (buf, s')) := by
  induction n generalizing buf s s' with
  | zero => exact .ok rfl ⟨rfl, related⟩
  | succ n ih =>
      unfold drain
      by_cases hb : buf = []
      · rw [if_pos hb, if_pos hb]
        exact .ok rfl ⟨rfl, related⟩
      · rw [if_neg hb, if_neg hb]
        cases r.read buf with
        | error e => exact .error ⟨rfl, related⟩
        | ok o =>
            cases o with
            | none => exact .ok rfl ⟨rfl, related⟩
            | some a =>
                have ended := h a s s' related
                dsimp only
                generalize handle a s = x at ended
                generalize handle' a s' = y at ended
                cases ended with
                | error states => exact .error ⟨rfl, states⟩
                | @ok go go' t t' same states =>
                    subst same
                    cases go with
                    | false => exact .ok rfl ⟨rfl, states⟩
                    | true => exact ih _ states

end Framing

namespace Runs

variable {σ σ' ι : Type} {step : σ → ι → σ} {step' : σ' → ι → σ'} {R : σ → σ' → Prop}

/-- What related steps keep, related runs keep. -/
theorem related_on {P : ι → Prop} (one : ∀ s s' a, P a → R s s' → R (step s a) (step' s' a))
    {s : σ} {s' : σ'} (start : R s s') {actions : List ι} (allowed : ∀ a ∈ actions, P a) :
    R (run step s actions) (run step' s' actions) := by
  induction actions generalizing s s' with
  | nil => exact start
  | cons a rest ih =>
      obtain ⟨first, later⟩ := List.forall_mem_cons.mp allowed
      exact ih (one s s' a first start) later

theorem related (one : ∀ s s' a, R s s' → R (step s a) (step' s' a)) {s : σ} {s' : σ'}
    (start : R s s') (actions : List ι) : R (run step s actions) (run step' s' actions) :=
  related_on (P := fun _ => True) (fun s s' a _ => one s s' a) start fun _ _ => trivial

/-- A run is related to the one that leaves out the steps that make no difference. -/
theorem related_filter_on {P : ι → Prop} {p : ι → Bool}
    (one : ∀ s s' a, p a = true → R s s' → R (step s a) (step' s' a))
    (idle : ∀ s s' a, P a → p a = false → R s s' → R (step s a) s') {s : σ} {s' : σ'}
    (start : R s s') {actions : List ι} (allowed : ∀ a ∈ actions, P a) :
    R (run step s actions) (run step' s' (actions.filter p)) := by
  induction actions generalizing s s' with
  | nil => exact start
  | cons a rest ih =>
      obtain ⟨first, later⟩ := List.forall_mem_cons.mp allowed
      cases h : p a with
      | true =>
          rw [List.filter_cons_of_pos h]
          exact ih (one s s' a h start) later
      | false =>
          rw [List.filter_cons_of_neg (by simp [h])]
          exact ih (idle s s' a first h start) later

theorem related_filter {p : ι → Bool}
    (one : ∀ s s' a, p a = true → R s s' → R (step s a) (step' s' a))
    (idle : ∀ s s' a, p a = false → R s s' → R (step s a) s') {s : σ} {s' : σ'}
    (start : R s s') (actions : List ι) :
    R (run step s actions) (run step' s' (actions.filter p)) :=
  related_filter_on (P := fun _ => True) one (fun s s' a _ => idle s s' a) start fun _ _ => trivial

end Runs
