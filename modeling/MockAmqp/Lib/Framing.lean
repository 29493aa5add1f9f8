import MockAmqp.Lib.Exec
import MockAmqp.Lib.Runs
import Mathlib.Data.List.Basic
import Mathlib.Data.List.Infix

/-!
# Reading items off a byte stream

A receiver appends each chunk to a buffer and takes complete items off its front, until
the reader asks for more input. The main result says that for a reader whose answers do
not change when more input follows, the items handled and the bytes left over do not
depend on how the stream was cut.
-/

namespace Framing
open Exec

variable {ε σ β α : Type}

/-- `none` asks for more input; `size` is the number of elements an item takes. -/
structure Reader (ε β α : Type) where
  read : List β → Except ε (Option α)
  size : α → Nat

/-- Take items off the buffer while the handler wants to go on. An item leaves the buffer
before it is handled, so a raising handler does not see it again. -/
def drain (r : Reader ε β α) (handle : α → EStateM ε σ Bool) :
    Nat → EStateM ε (List β × σ) Unit
  | 0, s => .ok () s
  | fuel + 1, (buf, s) =>
      if buf = [] then .ok () (buf, s)
      else match r.read buf with
        | .error e => .error e (buf, s)
        | .ok none => .ok () (buf, s)
        | .ok (some a) =>
            match handle a s with
            | .error e t => .error e (buf.drop (r.size a), t)
            | .ok false t => .ok () (buf.drop (r.size a), t)
            | .ok true t => drain r handle fuel (buf.drop (r.size a), t)

/-- The items that `drain` hands to the handler. -/
def taken (r : Reader ε β α) (handle : α → EStateM ε σ Bool) : Nat → List β × σ → List α
  | 0, _ => []
  | fuel + 1, (buf, s) =>
      if buf = [] then []
      else match r.read buf with
        | .ok (some a) => a :: match handle a s with
            | .ok true t => taken r handle fuel (buf.drop (r.size a), t)
            | _ => []
        | _ => []

/-- The handler sees nothing but what the reader returned. -/
theorem mem_taken {r : Reader ε β α} {handle : α → EStateM ε σ Bool} {n : Nat} {s : List β × σ}
    {a : α} (h : a ∈ taken r handle n s) : ∃ buf, r.read buf = .ok (some a) := by
  induction n generalizing s with
  | zero => cases h
  | succ n ih =>
      obtain ⟨buf, s⟩ := s
      unfold taken at h
      split at h
      · cases h
      · split at h
        · rename_i first hr
          rcases List.mem_cons.mp h with rfl | later
          · exact ⟨buf, hr⟩
          · split at later
            · exact ih later
            · cases later
        · cases h

theorem after_drain (r : Reader ε β α) (handle : α → EStateM ε σ Bool) (n : Nat)
    (buf : List β) (s : σ) :
    (after (drain r handle n) (buf, s)).2 =
      Runs.run (fun s a => after (handle a) s) s (taken r handle n (buf, s)) := by
  induction n generalizing buf s with
  | zero => rfl
  | succ n ih =>
      by_cases hb : buf = []
      · simp only [after, drain, taken, if_pos hb, Runs.run_nil]
      · cases hr : r.read buf with
        | error e => simp only [after, drain, taken, if_neg hb, hr, Runs.run_nil]
        | ok o =>
            cases o with
            | none => simp only [after, drain, taken, if_neg hb, hr, Runs.run_nil]
            | some a =>
                cases h : handle a s with
                | error e t =>
                    simp only [after, drain, taken, if_neg hb, hr, h, Runs.run_cons, Runs.run_nil]
                | ok go t =>
                    cases go with
                    | false =>
                        simp only [after, drain, taken, if_neg hb, hr, h, Runs.run_cons,
                          Runs.run_nil]
                    | true =>
                        have step := ih (buf.drop (r.size a)) t
                        simp only [after, drain, taken, if_neg hb, hr, h, Runs.run_cons] at step ⊢
                        exact step

/-- What stands at the front of a buffer that the reader finds an item in. -/
def Fronts (r : Reader ε β α) (P : List β → α → Prop) : Prop :=
  ∀ buf a, r.read buf = .ok (some a) →
    ∃ bytes rest, buf = bytes ++ rest ∧ r.size a = bytes.length ∧ P bytes a

/-- The items taken stood at the front of the buffer, one behind the other, and what is left
stood behind them. -/
theorem drain_consumes {r : Reader ε β α} (handle : α → EStateM ε σ Bool)
    {P : List β → α → Prop} (fronts : Fronts r P) (n : Nat) (buf : List β) (s : σ) :
    ∃ items : List (List β × α), (∀ i ∈ items, P i.1 i.2) ∧
      items.map Prod.snd = taken r handle n (buf, s) ∧
      buf = (items.map Prod.fst).flatten ++ (after (drain r handle n) (buf, s)).1 := by
  induction n generalizing buf s with
  | zero => exact ⟨[], by simp, rfl, rfl⟩
  | succ n ih =>
      by_cases hb : buf = []
      · exact ⟨[], by simp, by simp [taken, hb], by simp [after, drain, hb]⟩
      · cases hr : r.read buf with
        | error e => exact ⟨[], by simp, by simp [taken, hb, hr], by simp [after, drain, hb, hr]⟩
        | ok o =>
            cases o with
            | none => exact ⟨[], by simp, by simp [taken, hb, hr], by simp [after, drain, hb, hr]⟩
            | some a =>
                obtain ⟨bytes, rest, split, size, holds⟩ := fronts buf a hr
                have dropped : buf.drop (r.size a) = rest := by
                  rw [split, size, List.drop_left]
                cases h : handle a s with
                | error e t =>
                    refine ⟨[(bytes, a)], by simpa using holds, ?_, ?_⟩
                    · simp only [taken, if_neg hb, hr, h, List.map_cons, List.map_nil]
                    · simpa [after, drain, hb, hr, h, dropped] using split
                | ok go t =>
                    cases go with
                    | false =>
                        refine ⟨[(bytes, a)], by simpa using holds, ?_, ?_⟩
                        · simp only [taken, if_neg hb, hr, h, List.map_cons, List.map_nil]
                        · simpa [after, drain, hb, hr, h, dropped] using split
                    | true =>
                        obtain ⟨items, all, took, left⟩ := ih rest t
                        refine ⟨(bytes, a) :: items, List.forall_mem_cons.mpr ⟨holds, all⟩, ?_, ?_⟩
                        · simp only [taken, if_neg hb, hr, h, dropped, List.map_cons, took]
                        · have step : after (drain r handle (n + 1)) (buf, s) =
                              after (drain r handle n) (rest, t) := by
                            simp only [after, drain, if_neg hb, hr, h, dropped]
                          rw [step, List.map_cons, List.flatten_cons, List.append_assoc, ← left]
                          exact split

/-- One delivery: append the chunk, then drain. -/
def feed (r : Reader ε β α) (handle : α → EStateM ε σ Bool) (chunk : List β) :
    EStateM ε (List β × σ) Unit := fun s =>
  drain r handle (s.1 ++ chunk).length (s.1 ++ chunk, s.2)

/-- Deliveries in a row, up to the first that raises. -/
def feedAll (r : Reader ε β α) (handle : α → EStateM ε σ Bool) :
    List (List β) → EStateM ε (List β × σ) Unit
  | [] => pure ()
  | chunk :: rest => feed r handle chunk >>= fun _ => feedAll r handle rest

/-- Handle items in a row, each of which must want to go on. -/
def handleAll (handle : α → EStateM ε σ Bool) : List α → σ → Option σ
  | [], s => some s
  | a :: rest, s =>
      match handle a s with
      | .ok true t => handleAll handle rest t
      | _ => none

theorem handleAll_append (handle : α → EStateM ε σ Bool) (l r : List α) (s : σ) :
    handleAll handle (l ++ r) s = (handleAll handle l s).bind (handleAll handle r) := by
  induction l generalizing s with
  | nil => rfl
  | cons a rest ih =>
      simp only [List.cons_append, handleAll]
      split
      · exact ih _
      · rfl

/-- The reader answers for a complete item and for nothing less, whatever follows it. -/
structure Exact (r : Reader ε β α) (bytes : List β) (a : α) : Prop where
  pos : bytes ≠ []
  size : r.size a = bytes.length
  whole : ∀ rest, r.read (bytes ++ rest) = .ok (some a)
  part : ∀ p, p <+: bytes → p.length < bytes.length → r.read p = .ok none

/-- Input that holds no complete item. -/
def Waiting (r : Reader ε β α) (buf : List β) : Prop := buf = [] ∨ r.read buf = .ok none

theorem drain_waiting {r : Reader ε β α} {handle : α → EStateM ε σ Bool} {buf : List β}
    (h : Waiting r buf) (fuel : Nat) (s : σ) :
    drain r handle fuel (buf, s) = .ok () (buf, s) := by
  cases fuel with
  | zero => rfl
  | succ fuel =>
      rcases h with rfl | h
      · simp [drain]
      · simp [drain, h]

theorem drain_item {r : Reader ε β α} {handle : α → EStateM ε σ Bool} {bytes : List β} {a : α}
    (h : Exact r bytes a) {s t : σ} (handled : handle a s = .ok true t) (fuel : Nat)
    (rest : List β) :
    drain r handle (fuel + 1) (bytes ++ rest, s) = drain r handle fuel (rest, t) := by
  have hne : bytes ++ rest ≠ [] := by simp [h.pos]
  simp only [drain, if_neg hne, h.whole, handled, h.size, List.drop_left]

/-- A handler that does not want to go on ends the loop. -/
theorem drain_stop {r : Reader ε β α} {handle : α → EStateM ε σ Bool} {bytes : List β} {a : α}
    (h : Exact r bytes a) {s t : σ} (handled : handle a s = .ok false t) (fuel : Nat)
    (rest : List β) : drain r handle (fuel + 1) (bytes ++ rest, s) = .ok () (rest, t) := by
  have hne : bytes ++ rest ≠ [] := by simp [h.pos]
  simp only [drain, if_neg hne, h.whole, handled, h.size, List.drop_left]

/-- A handler that raises ends it too. -/
theorem drain_raise {r : Reader ε β α} {handle : α → EStateM ε σ Bool} {bytes : List β} {a : α}
    (h : Exact r bytes a) {s t : σ} {e : ε} (handled : handle a s = .error e t) (fuel : Nat)
    (rest : List β) : drain r handle (fuel + 1) (bytes ++ rest, s) = .error e (rest, t) := by
  have hne : bytes ++ rest ≠ [] := by simp [h.pos]
  simp only [drain, if_neg hne, h.whole, handled, h.size, List.drop_left]

theorem prefix_of_append_eq {x y p q : List β} (h : x ++ y = p ++ q)
    (hlen : p.length ≤ x.length) : ∃ z, x = p ++ z ∧ q = z ++ y := by
  rcases List.append_eq_append_iff.mp h with ⟨z, rfl, rfl⟩ | ⟨z, rfl, rfl⟩
  · have hz : z = [] := by
      rw [List.length_append] at hlen
      exact List.length_eq_zero_iff.mp (by omega)
    exact ⟨[], by simp [hz], by simp [hz]⟩
  · exact ⟨z, rfl, rfl⟩

/-- What one delivery does to a buffer that is a cut of complete items and a tail. -/
theorem drain_exact {r : Reader ε β α} {handle : α → EStateM ε σ Bool}
    {tail : List β} (htail : ∀ p, p <+: tail → Waiting r p)
    {items : List (List β × α)} (exact : ∀ i ∈ items, Exact r i.1 i.2)
    {x y : List β} (cut : x ++ y = (items.map Prod.fst).flatten ++ tail)
    {s t : σ} (handled : handleAll handle (items.map Prod.snd) s = some t)
    {n : Nat} (hn : x.length ≤ n) :
    ∃ done todo left u, items = done ++ todo ∧ Waiting r left ∧
      left ++ y = (todo.map Prod.fst).flatten ++ tail ∧
      handleAll handle (done.map Prod.snd) s = some u ∧
      drain r handle n (x, s) = .ok () (left, u) := by
  induction items generalizing x s n with
  | nil =>
      have hw : Waiting r x := htail x ⟨y, by simpa using cut⟩
      exact ⟨[], [], x, s, rfl, hw, cut, rfl, drain_waiting hw n s⟩
  | cons i items ih =>
      obtain ⟨bytes, a⟩ := i
      have hx : Exact r bytes a := exact (bytes, a) (by simp)
      have cut' : x ++ y = bytes ++ ((items.map Prod.fst).flatten ++ tail) := by
        simpa using cut
      by_cases hlen : bytes.length ≤ x.length
      · obtain ⟨z, rfl, hz⟩ := prefix_of_append_eq cut' hlen
        have hb : 0 < bytes.length := List.length_pos_iff.mpr hx.pos
        rw [List.length_append] at hn
        simp only [List.map_cons, handleAll] at handled
        split at handled
        · rename_i u hu
          obtain ⟨k, rfl⟩ := Nat.exists_eq_add_of_lt (show 0 < n by omega)
          obtain ⟨done, todo, left, v, rfl, hw, hleft, hdone, hdrain⟩ :=
            ih (fun i hi => exact i (List.mem_cons_of_mem _ hi)) hz.symm handled
              (n := 0 + k) (by omega)
          refine ⟨(bytes, a) :: done, todo, left, v, rfl, hw, hleft, ?_, ?_⟩
          · simp only [List.map_cons, handleAll, hu, hdone]
          · rw [drain_item hx hu, hdrain]
        · cases handled
      · -- the first item is still incomplete
        have hpre : x <+: bytes := by
          obtain ⟨z, hz, _⟩ := prefix_of_append_eq cut'.symm (by omega)
          exact ⟨z, hz.symm⟩
        have hw : Waiting r x := .inr (hx.part x hpre (by omega))
        exact ⟨[], (bytes, a) :: items, x, s, rfl, hw, cut, rfl, drain_waiting hw n s⟩

/-- However complete items and a partial tail are cut into deliveries, exactly the items are
handled, in order, and exactly the tail is left in the buffer. -/
theorem feedAll_exact {r : Reader ε β α} {handle : α → EStateM ε σ Bool}
    {tail : List β} (htail : ∀ p, p <+: tail → Waiting r p)
    {items : List (List β × α)} (exact : ∀ i ∈ items, Exact r i.1 i.2)
    {buf : List β} (hbuf : Waiting r buf) {chunks : List (List β)}
    (cut : buf ++ chunks.flatten = (items.map Prod.fst).flatten ++ tail)
    {s t : σ} (handled : handleAll handle (items.map Prod.snd) s = some t) :
    feedAll r handle chunks (buf, s) = .ok () (tail, t) := by
  induction chunks generalizing buf items s with
  | nil =>
      obtain ⟨done, todo, left, u, rfl, _, hleft, hdone, hdrain⟩ :=
        drain_exact htail exact cut handled (Nat.le_refl _)
      rw [drain_waiting hbuf] at hdrain
      cases hdrain
      cases todo with
      | nil =>
          have hsu : s = t := by
            rw [List.append_nil] at handled
            exact Option.some.inj (hdone.symm.trans handled)
          have hb : buf = tail := by simpa using hleft
          subst hsu hb
          rfl
      | cons i todo =>
          -- a waiting buffer holds no complete item
          have hi : Exact r i.1 i.2 := exact i (by simp)
          have hsplit : buf = i.1 ++ ((todo.map Prod.fst).flatten ++ tail) := by
            simpa using hleft
          rcases hbuf with rfl | hbuf
          · exact absurd hsplit.symm (by simp [hi.pos])
          · rw [hsplit, hi.whole] at hbuf
            cases hbuf
  | cons chunk chunks ih =>
      have cut' : (buf ++ chunk) ++ chunks.flatten = (items.map Prod.fst).flatten ++ tail := by
        simpa using cut
      obtain ⟨done, todo, left, u, rfl, hw, hleft, hdone, hdrain⟩ :=
        drain_exact htail exact cut' handled (Nat.le_refl _)
      rw [List.map_append, handleAll_append, hdone] at handled
      have hfeed : feed r handle chunk (buf, s) = .ok () (left, u) := hdrain
      rw [feedAll, bind_apply, hfeed]
      exact ih (fun i hi => exact i (List.mem_append_right _ hi)) hw hleft handled

end Framing
