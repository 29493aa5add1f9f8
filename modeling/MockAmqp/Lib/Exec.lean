import Mathlib.Logic.Basic

/-!
# Stateful computations that may raise

`EStateM` keeps the state that was reached when an exception was raised, which is how
mutation and exceptions meet in a language where nothing is rolled back. This file gives
the primitives, their evaluation rules, and the rules for a relation that every outcome
of a computation respects.
-/

namespace Exec

variable {ε σ τ α β : Type}

def read (f : σ → α) : EStateM ε σ α := fun s => .ok (f s) s

def update (f : σ → σ) : EStateM ε σ Unit := fun s => .ok () (f s)

def raise (e : ε) : EStateM ε σ α := fun s => .error e s

/-- A computation that neither reads nor writes the state. -/
def attempt : Except ε α → EStateM ε σ α
  | .ok a, s => .ok a s
  | .error e, s => .error e s

/-- Run a computation on the part of the state that `get` shows. -/
def zoom (get : σ → τ) (put : τ → σ → σ) (x : EStateM ε τ α) : EStateM ε σ α := fun s =>
  match x (get s) with
  | .ok a t => .ok a (put t s)
  | .error e t => .error e (put t s)

@[simp] theorem read_apply (f : σ → α) (s : σ) :
    (read f : EStateM ε σ α) s = .ok (f s) s := rfl

@[simp] theorem update_apply (f : σ → σ) (s : σ) :
    (update f : EStateM ε σ Unit) s = .ok () (f s) := rfl

@[simp] theorem raise_apply (e : ε) (s : σ) : (raise e : EStateM ε σ α) s = .error e s := rfl

@[simp] theorem pure_apply (a : α) (s : σ) : (pure a : EStateM ε σ α) s = .ok a s := rfl

@[simp] theorem attempt_ok (a : α) (s : σ) :
    (attempt (.ok a) : EStateM ε σ α) s = .ok a s := rfl

@[simp] theorem attempt_error (e : ε) (s : σ) :
    (attempt (.error e) : EStateM ε σ α) s = .error e s := rfl

@[simp] theorem bind_apply (x : EStateM ε σ α) (f : α → EStateM ε σ β) (s : σ) :
    (x >>= f) s = match x s with
      | .ok a t => f a t
      | .error e t => .error e t := rfl

@[simp] theorem attempt_bind_ok (a : α) (f : α → EStateM ε σ β) :
    (attempt (.ok a) >>= f : EStateM ε σ β) = f a := rfl

theorem attempt_bind (x : Except ε α) (f : α → Except ε β) :
    (attempt (x >>= f) : EStateM ε σ β) = attempt x >>= fun a => attempt (f a) := by
  cases x <;> rfl

@[simp] theorem ite_apply (c : Prop) [Decidable c] (x y : EStateM ε σ α) (s : σ) :
    (if c then x else y) s = if c then x s else y s := by
  split <;> rfl

theorem bind_ok {x : EStateM ε σ α} {f : α → EStateM ε σ β} {s t : σ} {a : α}
    (h : x s = .ok a t) : (x >>= f) s = f a t := by rw [bind_apply, h]

theorem bind_eq_ok {x : EStateM ε σ α} {f : α → EStateM ε σ β} {s u : σ} {b : β} :
    (x >>= f) s = .ok b u ↔ ∃ a t, x s = .ok a t ∧ f a t = .ok b u := by
  rw [bind_apply]
  cases x s with
  | ok a t =>
      constructor
      · intro h
        exact ⟨a, t, rfl, h⟩
      · rintro ⟨_, _, same, h⟩
        cases same
        exact h
  | error e t => simp

theorem except_bind_eq_ok {x : Except ε α} {f : α → Except ε β} {b : β} :
    (x >>= f) = .ok b ↔ ∃ a, x = .ok a ∧ f a = .ok b := by
  cases x with
  | ok a =>
      constructor
      · intro h
        exact ⟨a, rfl, h⟩
      · rintro ⟨_, same, h⟩
        cases same
        exact h
  | error e =>
      constructor
      · intro h
        cases h
      · rintro ⟨_, no, _⟩
        cases no

theorem attempt_eq_ok {x : Except ε α} {s t : σ} {a : α}
    (h : (attempt x : EStateM ε σ α) s = .ok a t) : s = t := by
  cases x with
  | ok b =>
      cases h
      rfl
  | error e => cases h

/-- The state left behind, whether the computation returned or raised. -/
def after (x : EStateM ε σ α) (s : σ) : σ :=
  match x s with
  | .ok _ t => t
  | .error _ t => t

@[simp] theorem after_ok {x : EStateM ε σ α} {s t : σ} {a : α} (h : x s = .ok a t) :
    after x s = t := by simp only [after, h]

@[simp] theorem after_error {x : EStateM ε σ α} {s t : σ} {e : ε} (h : x s = .error e t) :
    after x s = t := by simp only [after, h]

theorem after_congr {x y : EStateM ε σ α} {s t : σ} (h : x s = y t) : after x s = after y t := by
  simp only [after, h]

theorem after_bind_pure (x : EStateM ε σ α) (g : α → β) (s : σ) :
    after (x >>= fun a => pure (g a)) s = after x s := by
  simp only [after, bind_apply]
  cases x s <;> rfl

theorem after_zoom (get : σ → τ) (put : τ → σ → σ) (x : EStateM ε τ α) (s : σ) :
    after (zoom get put x) s = put (after x (get s)) s := by
  unfold after zoom
  cases x (get s) <;> rfl

theorem zoom_bind {get : σ → τ} {put : τ → σ → σ} (hget : ∀ t s, get (put t s) = t)
    (hput : ∀ t u s, put u (put t s) = put u s) (x : EStateM ε τ α) (f : α → EStateM ε τ β) :
    zoom get put (x >>= f) = zoom get put x >>= fun a => zoom get put (f a) := by
  funext s
  simp only [zoom, bind_apply]
  cases x (get s) with
  | ok a t => simp only [hget, hput]
  | error e t => rfl

/-- A relation between earlier and later states. -/
structure Progress (R : σ → σ → Prop) : Prop where
  refl : ∀ s, R s s
  trans : ∀ {s t u}, R s t → R t u → R s u

/-- Whatever the outcome, the state moves only as `R` allows. -/
def Within (R : σ → σ → Prop) (x : EStateM ε σ α) : Prop := ∀ s, R s (after x s)

section Rules
variable {R : σ → σ → Prop}

theorem within_pure (hR : Progress R) (a : α) : Within R (pure a : EStateM ε σ α) := hR.refl

theorem within_read (hR : Progress R) (f : σ → α) : Within R (read f : EStateM ε σ α) := hR.refl

theorem within_raise (hR : Progress R) (e : ε) : Within R (raise e : EStateM ε σ α) := hR.refl

theorem within_attempt (hR : Progress R) (x : Except ε α) :
    Within R (attempt x : EStateM ε σ α) := by
  intro s
  cases x <;> exact hR.refl s

theorem within_update {f : σ → σ} (h : ∀ s, R s (f s)) :
    Within R (update f : EStateM ε σ Unit) := h

/-- The second computation need only respect `R` from the states the first one returns in. -/
theorem after_bind (hR : Progress R) {x : EStateM ε σ α} {f : α → EStateM ε σ β} {s : σ}
    (hx : R s (after x s)) (hf : ∀ a t, x s = .ok a t → R t (after (f a) t)) :
    R s (after (x >>= f) s) := by
  cases h : x s with
  | ok a t =>
      have hs : after (x >>= f) s = after (f a) t := by simp only [after, bind_apply, h]
      rw [after_ok h] at hx
      rw [hs]
      exact hR.trans hx (hf a t h)
  | error e t =>
      have hs : after (x >>= f) s = t := by simp only [after, bind_apply, h]
      rw [after_error h] at hx
      rwa [hs]

theorem within_bind (hR : Progress R) {x : EStateM ε σ α} {f : α → EStateM ε σ β}
    (hx : Within R x) (hf : ∀ a, Within R (f a)) : Within R (x >>= f) :=
  fun s => after_bind hR (hx s) (fun a t _ => hf a t)

theorem within_ite {c : Prop} [Decidable c] {x y : EStateM ε σ α}
    (hx : Within R x) (hy : Within R y) : Within R (if c then x else y) := by
  split
  · exact hx
  · exact hy

theorem Within.mono {S : σ → σ → Prop} {x : EStateM ε σ α} (hx : Within R x)
    (h : ∀ s t, R s t → S s t) : Within S x := fun s => h _ _ (hx s)

theorem within_attempt_bind (hR : Progress R) {x : Except ε α} {f : α → EStateM ε σ β}
    (hf : ∀ a, x = .ok a → Within R (f a)) : Within R (attempt x >>= f) := by
  cases x with
  | ok a => exact hf a rfl
  | error e => exact hR.refl

end Rules

/-- Whenever the computation returns, `P` holds. -/
def Returning (P : σ → Prop) (x : EStateM ε σ α) : Prop := ∀ s a t, x s = .ok a t → P t

section ReturningRules
variable {P : σ → Prop}

theorem returning_raise (e : ε) : Returning P (raise e : EStateM ε σ α) := by
  intro s a t returned
  cases returned

theorem returning_bind {x : EStateM ε σ α} {f : α → EStateM ε σ β}
    (hf : ∀ a, Returning P (f a)) : Returning P (x >>= f) := by
  intro s b u returned
  obtain ⟨a, t, _, later⟩ := bind_eq_ok.mp returned
  exact hf a t b u later

theorem returning_ite {c : Prop} [Decidable c] {x y : EStateM ε σ α}
    (hx : Returning P x) (hy : Returning P y) : Returning P (if c then x else y) := by
  split
  · exact hx
  · exact hy

end ReturningRules

/-- A step of `K` with moves of `R` before and after it, or moves of `R` only. -/
def Once (R K : σ → σ → Prop) (s u : σ) : Prop := R s u ∨ ∃ m n, R s m ∧ K m n ∧ R n u

/-- Whatever the outcome, at most one step is not a move of `R`, and that is one of `K`. -/
def WithinOnce (R K : σ → σ → Prop) (x : EStateM ε σ α) : Prop := ∀ s, Once R K s (after x s)

section OnceRules
variable {R K : σ → σ → Prop}

theorem Once.within (hR : Progress R) (hK : ∀ s t, K s t → R s t) {s u : σ}
    (h : Once R K s u) : R s u := by
  rcases h with h | ⟨m, n, hm, hk, hn⟩
  · exact h
  · exact hR.trans hm (hR.trans (hK m n hk) hn)

theorem Once.after_move (hR : Progress R) {s t u : σ} (h : R s t) (k : Once R K t u) :
    Once R K s u := by
  rcases k with k | ⟨m, n, hm, hk, hn⟩
  · exact .inl (hR.trans h k)
  · exact .inr ⟨m, n, hR.trans h hm, hk, hn⟩

theorem Once.then_move (hR : Progress R) {s t u : σ} (h : Once R K s t) (k : R t u) :
    Once R K s u := by
  rcases h with h | ⟨m, n, hm, hk, hn⟩
  · exact .inl (hR.trans h k)
  · exact .inr ⟨m, n, hm, hk, hR.trans hn k⟩

theorem after_bind_cases (x : EStateM ε σ α) (f : α → EStateM ε σ β) (s : σ) :
    (∃ a t, x s = .ok a t ∧ after (x >>= f) s = after (f a) t) ∨
      after (x >>= f) s = after x s := by
  cases h : x s with
  | ok a t => exact .inl ⟨a, t, rfl, by simp only [after, bind_apply, h]⟩
  | error e t => exact .inr (by simp only [after, bind_apply, h])

theorem once_after_bind (hR : Progress R) {x : EStateM ε σ α} {f : α → EStateM ε σ β} {s : σ}
    (hx : R s (after x s)) (hf : ∀ a t, x s = .ok a t → Once R K t (after (f a) t)) :
    Once R K s (after (x >>= f) s) := by
  rcases after_bind_cases x f s with ⟨a, t, h, hs⟩ | hs
  · rw [after_ok h] at hx
    rw [hs]
    exact (hf a t h).after_move hR hx
  · rw [hs]
    exact .inl hx

theorem withinOnce_of_within {x : EStateM ε σ α} (hx : Within R x) : WithinOnce R K x :=
  fun s => .inl (hx s)

theorem withinOnce_step (hR : Progress R) {x : EStateM ε σ α} (hx : Within K x) :
    WithinOnce R K x := fun s => .inr ⟨s, _, hR.refl s, hx s, hR.refl _⟩

/-- The step of `K` may come in the second computation. -/
theorem withinOnce_bind (hR : Progress R) {x : EStateM ε σ α} {f : α → EStateM ε σ β}
    (hx : Within R x) (hf : ∀ a, WithinOnce R K (f a)) : WithinOnce R K (x >>= f) :=
  fun s => once_after_bind hR (hx s) (fun a t _ => hf a t)

/-- The step of `K` may come in the first computation. -/
theorem withinOnce_then (hR : Progress R) {x : EStateM ε σ α} {f : α → EStateM ε σ β}
    (hx : WithinOnce R K x) (hf : ∀ a, Within R (f a)) : WithinOnce R K (x >>= f) := by
  intro s
  rcases after_bind_cases x f s with ⟨a, t, h, hs⟩ | hs
  · have moved := hx s
    rw [after_ok h] at moved
    rw [hs]
    exact moved.then_move hR (hf a t)
  · rw [hs]
    exact hx s

theorem withinOnce_ite {c : Prop} [Decidable c] {x y : EStateM ε σ α}
    (hx : WithinOnce R K x) (hy : WithinOnce R K y) : WithinOnce R K (if c then x else y) := by
  split
  · exact hx
  · exact hy

theorem withinOnce_attempt (hR : Progress R) {x : Except ε α} {f : α → EStateM ε σ β}
    (hf : ∀ a, x = .ok a → WithinOnce R K (f a)) : WithinOnce R K (attempt x >>= f) := by
  cases x with
  | ok a => exact hf a rfl
  | error e => exact fun s => .inl (hR.refl s)

end OnceRules

end Exec
