import MockAmqp.Lib.Framing

/-!
# Conversations

A sender plays a script of items, and other things happen in between. What holds of the receiver
is indexed by what is still to come.
-/

namespace Runs

variable {σ ι β : Type}

theorem invariant_on {step : σ → ι → σ} {P : ι → Prop} {I : σ → Prop}
    (keep : ∀ s a, P a → I s → I (step s a)) {actions : List ι} (allowed : ∀ a ∈ actions, P a)
    {s : σ} (start : I s) : I (run step s actions) := by
  induction actions generalizing s with
  | nil => exact start
  | cons a rest ih =>
      rw [run_cons]
      apply ih fun a' member => allowed a' (List.mem_cons_of_mem _ member)
      exact keep s a (allowed a List.mem_cons_self) start

/-- What holds of a state with all of the input ahead, and is kept as the input arrives, holds with
nothing ahead once it has arrived. -/
theorem arrived {step : σ → ι → σ} {input : ι → List β} {P : ι → Prop} {I : List β → σ → Prop}
    (keep : ∀ rest s a, P a → I (input a ++ rest) s → I rest (step s a)) {actions : List ι}
    (allowed : ∀ a ∈ actions, P a) {s : σ} (start : I (actions.flatMap input) s) :
    I [] (run step s actions) := by
  induction actions generalizing s with
  | nil => exact start
  | cons a rest ih =>
      rw [run_cons]
      apply ih (fun a' member => allowed a' (List.mem_cons_of_mem _ member))
      exact keep _ s a (allowed a List.mem_cons_self) start

end Runs

namespace Framing
open Exec

variable {ε σ β α : Type}

/-- Handling the first of the items still to come does not raise, and leaves what holds with the
others to come. Only the last item may end a delivery. -/
def Plays (handle : α → EStateM ε σ Bool) (Q : List α → σ → Prop) : Prop :=
  ∀ a todo s, Q (a :: todo) s →
    ∃ go t, handle a s = .ok go t ∧ (go = true ∨ todo = []) ∧ Q todo t

/-- One delivery of a script. -/
theorem drain_plays {r : Reader ε β α} {handle : α → EStateM ε σ Bool} {Q : List α → σ → Prop}
    (plays : Plays handle Q) {items : List (List β × α)} (exact : ∀ i ∈ items, Exact r i.1 i.2)
    {x y : List β} (cut : x ++ y = (items.map Prod.fst).flatten) {s : σ}
    (here : Q (items.map Prod.snd) s) {n : Nat} (hn : x.length ≤ n) :
    ∃ todo left t, todo <:+ items ∧ Waiting r left ∧ left ++ y = (todo.map Prod.fst).flatten ∧
      Q (todo.map Prod.snd) t ∧ drain r handle n (x, s) = .ok () (left, t) := by
  induction items generalizing x s n with
  | nil =>
      have none : x = [] := (List.append_eq_nil_iff.mp cut).1
      have waiting : Waiting r x := .inl none
      exact ⟨[], x, s, List.suffix_rfl, waiting, cut, here, drain_waiting waiting n s⟩
  | cons i items ih =>
      obtain ⟨bytes, a⟩ := i
      have item : Exact r bytes a := exact (bytes, a) List.mem_cons_self
      have first : x ++ y = bytes ++ (items.map Prod.fst).flatten := by simpa using cut
      by_cases whole : bytes.length ≤ x.length
      · obtain ⟨z, rfl, ahead⟩ := prefix_of_append_eq first whole
        have some : 0 < bytes.length := List.length_pos_iff.mpr item.pos
        rw [List.length_append] at hn
        obtain ⟨n, rfl⟩ : ∃ m, n = m + 1 := ⟨n - 1, by omega⟩
        obtain ⟨go, t, handled, goes, later⟩ := plays a _ s here
        cases go with
        | true =>
            obtain ⟨todo, left, u, suffix, waiting, split, last, ran⟩ :=
              ih (fun i member => exact i (List.mem_cons_of_mem _ member)) ahead.symm later
                (show z.length ≤ n by omega)
            exact ⟨todo, left, u, suffix.trans (List.suffix_cons _ _), waiting, split, last,
              by rw [drain_item item handled, ran]⟩
        | false =>
            have ended : items = [] := by simpa using goes
            subst ended
            have none : z = [] := (List.append_eq_nil_iff.mp ahead.symm).1
            refine ⟨[], z, t, List.suffix_cons _ _, .inl none, ahead.symm, later, ?_⟩
            exact drain_stop item handled n z
      · -- the first item is still incomplete
        have part : x <+: bytes := by
          obtain ⟨z, split, _⟩ := prefix_of_append_eq first.symm (by omega)
          exact ⟨z, split.symm⟩
        have waiting : Waiting r x := .inr (item.part x part (by omega))
        exact ⟨_, x, s, List.suffix_rfl, waiting, cut, here, drain_waiting waiting n s⟩

/-- A receiver that waits with nothing to come has played the whole script. -/
theorem Waiting.finished {r : Reader ε β α} {items : List (List β × α)}
    (exact : ∀ i ∈ items, Exact r i.1 i.2) (waiting : Waiting r (items.map Prod.fst).flatten) :
    items = [] := by
  cases items with
  | nil => rfl
  | cons i items =>
      have item : Exact r i.1 i.2 := exact i List.mem_cons_self
      rw [List.map_cons, List.flatten_cons] at waiting
      rcases waiting with none | unread
      · exact absurd (List.append_eq_nil_iff.mp none).1 item.pos
      · rw [item.whole] at unread
        cases unread

end Framing
