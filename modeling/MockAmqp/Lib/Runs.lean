import Mathlib.Data.List.Induction

/-!
# Runs and histories

Runs of a deterministic transition function over a list of actions, and properties of the
history of events that such a run leaves behind.
-/

namespace Runs

variable {σ ι : Type}

/-- The state after all the actions, in order. -/
def run (step : σ → ι → σ) (s : σ) (actions : List ι) : σ := actions.foldl step s

/-- Every step of the run starts in a state that allows its action. -/
def Along (step : σ → ι → σ) (P : σ → ι → Prop) : σ → List ι → Prop
  | _, [] => True
  | s, a :: rest => P s a ∧ Along step P (step s a) rest

@[simp] theorem run_nil (step : σ → ι → σ) (s : σ) : run step s [] = s := rfl

@[simp] theorem run_cons (step : σ → ι → σ) (s : σ) (a : ι) (rest : List ι) :
    run step s (a :: rest) = run step (step s a) rest := rfl

theorem run_append (step : σ → ι → σ) (s : σ) (l r : List ι) :
    run step s (l ++ r) = run step (run step s l) r := List.foldl_append

/-- An invariant kept by every allowed step holds after every run of allowed steps. -/
theorem invariant_along {step : σ → ι → σ} {P : σ → ι → Prop} {I : σ → Prop}
    (keep : ∀ s a, I s → P s a → I (step s a)) {s : σ} {actions : List ι}
    (start : I s) (allowed : Along step P s actions) : I (run step s actions) := by
  induction actions generalizing s with
  | nil => exact start
  | cons a rest ih => exact ih (keep s a start allowed.1) allowed.2

theorem invariant {step : σ → ι → σ} {I : σ → Prop} (keep : ∀ s a, I s → I (step s a))
    {s : σ} (start : I s) (actions : List ι) : I (run step s actions) := by
  induction actions generalizing s with
  | nil => exact start
  | cons a rest ih => exact ih (keep s a start)

/-- What is so after a run was so before it or came with one of its actions. -/
theorem provenance {step : σ → ι → σ} {Q : σ → Prop} {B : ι → Prop}
    (one : ∀ s a, Q (step s a) → Q s ∨ B a) {s : σ} {actions : List ι}
    (h : Q (run step s actions)) : Q s ∨ ∃ a ∈ actions, B a := by
  induction actions generalizing s with
  | nil => exact .inl h
  | cons a rest ih =>
      rcases ih h with here | ⟨later, mem, came⟩
      · rcases one s a here with old | came
        · exact .inl old
        · exact .inr ⟨a, List.mem_cons_self, came⟩
      · exact .inr ⟨later, List.mem_cons_of_mem a mem, came⟩

instance {step : σ → ι → σ} {P : σ → ι → Prop} [∀ s a, Decidable (P s a)] :
    ∀ (s : σ) (actions : List ι), Decidable (Along step P s actions)
  | _, [] => isTrue trivial
  | s, a :: rest =>
      haveI : Decidable (Along step P (step s a) rest) := instDecidableAlong _ rest
      inferInstanceAs (Decidable (P s a ∧ Along step P (step s a) rest))

theorem along_append {step : σ → ι → σ} {P : σ → ι → Prop} {s : σ} {l r : List ι} :
    Along step P s (l ++ r) ↔ Along step P s l ∧ Along step P (run step s l) r := by
  induction l generalizing s with
  | nil => simp [Along]
  | cons a rest ih => simp [Along, ih, and_assoc]

/-- What the steps of a run put out, in order. -/
def trail {β : Type} (step : σ → ι → σ) (out : σ → ι → List β) : σ → List ι → List β
  | _, [] => []
  | s, a :: rest => out s a ++ trail step out (step s a) rest

@[simp] theorem trail_nil {β : Type} (step : σ → ι → σ) (out : σ → ι → List β) (s : σ) :
    trail step out s [] = [] := rfl

@[simp] theorem trail_cons {β : Type} (step : σ → ι → σ) (out : σ → ι → List β) (s : σ) (a : ι)
    (rest : List ι) :
    trail step out s (a :: rest) = out s a ++ trail step out (step s a) rest := rfl

theorem mem_trail {β : Type} {step : σ → ι → σ} {out : σ → ι → List β} {s : σ} {actions : List ι}
    {x : β} (h : x ∈ trail step out s actions) : ∃ before a later,
      actions = before ++ a :: later ∧ x ∈ out (run step s before) a := by
  induction actions generalizing s with
  | nil => cases h
  | cons a rest ih =>
      rcases List.mem_append.mp h with here | there
      · exact ⟨[], a, rest, rfl, here⟩
      · obtain ⟨before, b, later, rfl, mem⟩ := ih there
        exact ⟨a :: before, b, later, rfl, mem⟩

/-- What is so after a run was so before it or came about in one of its steps. -/
theorem came_about {step : σ → ι → σ} {Q : σ → Prop} {B : σ → ι → Prop}
    (one : ∀ s a, Q (step s a) → Q s ∨ B s a) {s : σ} {actions : List ι}
    (h : Q (run step s actions)) : Q s ∨ ∃ before a later,
      actions = before ++ a :: later ∧ B (run step s before) a := by
  induction actions generalizing s with
  | nil => exact .inl h
  | cons a rest ih =>
      rcases ih h with here | ⟨before, b, later, rfl, came⟩
      · rcases one s a here with old | came
        · exact .inl old
        · exact .inr ⟨[], a, rest, rfl, came⟩
      · exact .inr ⟨a :: before, b, later, rfl, came⟩

/-- A record that every step extends by what it puts out is extended by the trail of the run. -/
theorem accumulates {β : Type} {step : σ → ι → σ} {out : σ → ι → List β} (record : σ → List β)
    (one : ∀ s a, record (step s a) = record s ++ out s a) (s : σ) (actions : List ι) :
    record (run step s actions) = record s ++ trail step out s actions := by
  induction actions generalizing s with
  | nil => simp
  | cons a rest ih => rw [run_cons, ih, one, trail_cons, List.append_assoc]

/-- Two conditions on steps that agree wherever the first has held so far hold along the same
runs. -/
theorem along_iff {step : σ → ι → σ} {P Q : σ → ι → Prop} {I : σ → Prop}
    (same : ∀ s a, I s → (P s a ↔ Q s a)) (keep : ∀ s a, I s → P s a → I (step s a)) {s : σ}
    (start : I s) (actions : List ι) : Along step P s actions ↔ Along step Q s actions := by
  induction actions generalizing s with
  | nil => exact Iff.rfl
  | cons a rest ih =>
      constructor
      · intro h
        exact ⟨(same s a start).mp h.1, (ih (keep s a start h.1)).mp h.2⟩
      · intro h
        have here := (same s a start).mpr h.1
        exact ⟨here, (ih (keep s a start here)).mpr h.2⟩

/-- When a step keeps `Q` exactly if it is allowed, and `Q` once lost stays lost, `Q` holds
after a run exactly if every step was allowed. -/
theorem run_iff_along {step : σ → ι → σ} {P : σ → ι → Prop} {I Q : σ → Prop}
    (keep : ∀ s a, I s → P s a → I (step s a)) (good : ∀ s, I s → Q s)
    (bad : ∀ s a, I s → ¬ P s a → ¬ Q (step s a)) (lost : ∀ s a, ¬ Q s → ¬ Q (step s a))
    {s : σ} (start : I s) (actions : List ι) :
    Q (run step s actions) ↔ Along step P s actions := by
  have never : ∀ (actions : List ι) (s : σ), ¬ Q s → ¬ Q (run step s actions) := by
    intro actions
    induction actions with
    | nil => exact fun _ h => h
    | cons a rest ih => exact fun s h => ih _ (lost s a h)
  induction actions generalizing s with
  | nil => exact ⟨fun _ => trivial, fun _ => good s start⟩
  | cons a rest ih =>
      by_cases h : P s a
      · have rest_iff := ih (keep s a start h)
        exact ⟨fun hq => ⟨h, rest_iff.mp hq⟩, fun hr => rest_iff.mpr hr.2⟩
      · exact ⟨fun hq => absurd hq (never rest _ (bad s a start h)), fun hr => absurd hr.1 h⟩

end Runs

namespace History

variable {α : Type}

/-- Every event of the second kind comes after one of the first kind. -/
def PrecededBy (gate event : α → Prop) (h : List α) : Prop :=
  ∀ before e later, h = before ++ e :: later → event e → ∃ g ∈ before, gate g

/-- Some `stop` has not been followed by a `renew`. -/
def Stopped (stop renew : α → Prop) (h : List α) : Prop :=
  ∃ before e later, h = before ++ e :: later ∧ stop e ∧ ∀ r ∈ later, ¬ renew r

/-- Once stopped, an event of kind `act` needs a `renew` in between. -/
def QuietAfter (stop renew act : α → Prop) (h : List α) : Prop :=
  ∀ before s mid e later, h = before ++ s :: (mid ++ e :: later) → stop s → act e →
    ∃ r ∈ mid, renew r

theorem snoc_eq_split {l before later : List α} {x e : α}
    (h : l ++ [x] = before ++ e :: later) :
    (later = [] ∧ l = before ∧ x = e) ∨ ∃ rest, later = rest ++ [x] ∧ l = before ++ e :: rest := by
  rcases List.eq_nil_or_concat later with rfl | ⟨rest, y, rfl⟩
  · obtain ⟨hl, hx⟩ := List.append_inj' h rfl
    exact .inl ⟨rfl, hl, by simpa using hx⟩
  · rw [List.concat_eq_append, ← List.cons_append, ← List.append_assoc] at h
    obtain ⟨hl, hx⟩ := List.append_inj' h rfl
    have hy : x = y := by simpa using hx
    exact .inr ⟨rest, by rw [List.concat_eq_append, hy], hl⟩

@[simp] theorem precededBy_nil (gate event : α → Prop) : PrecededBy gate event [] := by
  intro before e later h
  simp at h

theorem precededBy_snoc {gate event : α → Prop} {h : List α} {x : α} :
    PrecededBy gate event (h ++ [x]) ↔
      PrecededBy gate event h ∧ (event x → ∃ g ∈ h, gate g) := by
  constructor
  · intro hp
    refine ⟨?_, fun hx => hp h x [] rfl hx⟩
    intro before e later split he
    exact hp before e (later ++ [x]) (by simp [split]) he
  · rintro ⟨hp, hx⟩ before e later split he
    rcases snoc_eq_split split with ⟨_, rfl, rfl⟩ | ⟨rest, _, rfl⟩
    · exact hx he
    · exact hp before e rest rfl he

theorem PrecededBy.of_append {gate event : α → Prop} {h new : List α}
    (hp : PrecededBy gate event (h ++ new)) : PrecededBy gate event h := by
  intro before e later split he
  exact hp before e (later ++ new) (by simp [split]) he

/-- The new events come after a gate that was passed before them. -/
theorem PrecededBy.append_gated {gate event : α → Prop} {h new : List α}
    (hp : PrecededBy gate event h) (gated : ∀ e ∈ new, event e → ∃ g ∈ h, gate g) :
    PrecededBy gate event (h ++ new) := by
  induction new generalizing h with
  | nil => simpa using hp
  | cons x rest ih =>
      have split : h ++ x :: rest = (h ++ [x]) ++ rest := by simp
      rw [split]
      refine ih (precededBy_snoc.mpr ⟨hp, gated x List.mem_cons_self⟩) ?_
      intro e he happens
      obtain ⟨g, hg, passed⟩ := gated e (List.mem_cons_of_mem _ he) happens
      exact ⟨g, List.mem_append_left _ hg, passed⟩

theorem PrecededBy.append_idle {gate event : α → Prop} {h new : List α}
    (hp : PrecededBy gate event h) (idle : ∀ e ∈ new, ¬ event e) :
    PrecededBy gate event (h ++ new) :=
  hp.append_gated fun e he happens => absurd happens (idle e he)

@[simp] theorem not_stopped_nil (stop renew : α → Prop) : ¬ Stopped stop renew [] := by
  rintro ⟨before, e, later, h, _⟩
  simp at h

theorem stopped_snoc {stop renew : α → Prop} {h : List α} {x : α} :
    Stopped stop renew (h ++ [x]) ↔ stop x ∨ (Stopped stop renew h ∧ ¬ renew x) := by
  constructor
  · rintro ⟨before, e, later, split, he, quiet⟩
    rcases snoc_eq_split split with ⟨_, _, rfl⟩ | ⟨rest, rfl, rfl⟩
    · exact .inl he
    · exact .inr ⟨⟨before, e, rest, rfl, he, fun r hr => quiet r (by simp [hr])⟩,
        quiet x (by simp)⟩
  · rintro (hx | ⟨⟨before, e, later, rfl, he, quiet⟩, hx⟩)
    · exact ⟨h, x, [], rfl, hx, by simp⟩
    · refine ⟨before, e, later ++ [x], by simp, he, ?_⟩
      intro r hr
      rcases List.mem_append.mp hr with old | new
      · exact quiet r old
      · rw [List.mem_singleton.mp new]; exact hx

@[simp] theorem quietAfter_nil (stop renew act : α → Prop) : QuietAfter stop renew act [] := by
  intro before s mid e later h
  simp at h

theorem quietAfter_snoc {stop renew act : α → Prop} {h : List α} {x : α} :
    QuietAfter stop renew act (h ++ [x]) ↔
      QuietAfter stop renew act h ∧ (act x → ¬ Stopped stop renew h) := by
  constructor
  · intro hq
    refine ⟨?_, ?_⟩
    · intro before s mid e later split hs he
      exact hq before s mid e (later ++ [x]) (by simp [split]) hs he
    · rintro hx ⟨before, s, later, rfl, hs, quiet⟩
      obtain ⟨r, hr, renewed⟩ := hq before s later x [] (by simp) hs hx
      exact quiet r hr renewed
  · rintro ⟨hq, hx⟩ before s mid e later split hs he
    rw [← List.cons_append, ← List.append_assoc] at split
    rcases snoc_eq_split split with ⟨_, rfl, rfl⟩ | ⟨rest, _, hl⟩
    · by_contra none
      refine hx he ⟨before, s, mid, rfl, hs, ?_⟩
      intro r hr renewed
      exact none ⟨r, hr, renewed⟩
    · exact hq before s mid e rest (by simpa using hl) hs he

/-- More events, none of which stops, leave what is stopped and not renewed. -/
theorem stopped_append_cases {stop renew : α → Prop} {h new : List α}
    (hs : Stopped stop renew (h ++ new)) :
    (∃ e ∈ new, stop e) ∨ (Stopped stop renew h ∧ ∀ e ∈ new, ¬ renew e) := by
  induction new generalizing h with
  | nil => exact .inr ⟨by simpa using hs, by simp⟩
  | cons x rest ih =>
      have split : h ++ x :: rest = (h ++ [x]) ++ rest := by simp
      rw [split] at hs
      rcases ih hs with ⟨e, he, stops⟩ | ⟨before, quiet⟩
      · exact .inl ⟨e, List.mem_cons_of_mem _ he, stops⟩
      · rcases stopped_snoc.mp before with stops | ⟨earlier, hx⟩
        · exact .inl ⟨x, List.mem_cons_self, stops⟩
        · refine .inr ⟨earlier, ?_⟩
          intro e he
          rcases List.mem_cons.mp he with rfl | later
          · exact hx
          · exact quiet e later

theorem quietAfter_append_idle {stop renew act : α → Prop} {h new : List α}
    (hq : QuietAfter stop renew act h) (idle : ∀ e ∈ new, ¬ act e) :
    QuietAfter stop renew act (h ++ new) := by
  induction new generalizing h with
  | nil => simpa using hq
  | cons x rest ih =>
      have split : h ++ x :: rest = (h ++ [x]) ++ rest := by simp
      rw [split]
      refine ih (quietAfter_snoc.mpr ⟨hq, ?_⟩) (fun e he => idle e (List.mem_cons_of_mem _ he))
      exact fun acts => absurd acts (idle x List.mem_cons_self)

/-- Acts are allowed while nothing is stopped, and acts do not stop. -/
theorem quietAfter_append {stop renew act : α → Prop} {h new : List α}
    (hq : QuietAfter stop renew act h) (allowed : ∀ e ∈ new, act e → ¬ Stopped stop renew h)
    (going : ∀ e ∈ new, ¬ stop e) : QuietAfter stop renew act (h ++ new) := by
  induction new generalizing h with
  | nil => simpa using hq
  | cons x rest ih =>
      have split : h ++ x :: rest = (h ++ [x]) ++ rest := by simp
      rw [split]
      refine ih (quietAfter_snoc.mpr ⟨hq, allowed x List.mem_cons_self⟩) ?_
        (fun e he => going e (List.mem_cons_of_mem _ he))
      intro e he acts stopped
      rcases stopped_snoc.mp stopped with stops | ⟨before, _⟩
      · exact going x List.mem_cons_self stops
      · exact allowed e (List.mem_cons_of_mem _ he) acts before

section Scan
variable (stop renew act gate event : α → Prop) [DecidablePred stop] [DecidablePred renew]
  [DecidablePred act] [DecidablePred gate] [DecidablePred event]

/-- Whether something is stopped, and whether it has been quiet all along. -/
def scanQuiet (h : List α) : Bool × Bool :=
  h.foldl (fun r x => (decide (stop x) || (r.1 && !decide (renew x)),
    r.2 && !(decide (act x) && r.1))) (false, true)

theorem scanQuiet_spec (h : List α) :
    ((scanQuiet stop renew act h).1 = true ↔ Stopped stop renew h) ∧
      ((scanQuiet stop renew act h).2 = true ↔ QuietAfter stop renew act h) := by
  induction h using List.reverseRecOn with
  | nil => simp [scanQuiet]
  | append_singleton l x ih =>
      have step : scanQuiet stop renew act (l ++ [x]) =
          (decide (stop x) || ((scanQuiet stop renew act l).1 && !decide (renew x)),
            (scanQuiet stop renew act l).2 &&
              !(decide (act x) && (scanQuiet stop renew act l).1)) := by
        simp [scanQuiet, List.foldl_append]
      rw [step, stopped_snoc, quietAfter_snoc, ← ih.1, ← ih.2]
      simp [imp_iff_not_or]

instance (h : List α) : Decidable (QuietAfter stop renew act h) :=
  decidable_of_iff _ (scanQuiet_spec stop renew act h).2

/-- Whether a gate has been passed, and whether every event so far came after one. -/
def scanGate (h : List α) : Bool × Bool :=
  h.foldl (fun r x => (r.1 || decide (gate x), r.2 && (!decide (event x) || r.1))) (false, true)

theorem scanGate_spec (h : List α) :
    ((scanGate gate event h).1 = true ↔ ∃ g ∈ h, gate g) ∧
      ((scanGate gate event h).2 = true ↔ PrecededBy gate event h) := by
  induction h using List.reverseRecOn with
  | nil => simp [scanGate]
  | append_singleton l x ih =>
      have step : scanGate gate event (l ++ [x]) =
          ((scanGate gate event l).1 || decide (gate x),
            (scanGate gate event l).2 && (!decide (event x) || (scanGate gate event l).1)) := by
        simp [scanGate, List.foldl_append]
      rw [step, precededBy_snoc, ← ih.1, ← ih.2]
      constructor
      · simp only [Bool.or_eq_true, decide_eq_true_eq, ih.1, List.mem_append,
          List.mem_singleton]
        constructor
        · rintro (⟨g, hg, passed⟩ | here)
          · exact ⟨g, .inl hg, passed⟩
          · exact ⟨x, .inr rfl, here⟩
        · rintro ⟨g, hg | rfl, passed⟩
          · exact .inl ⟨g, hg, passed⟩
          · exact .inr passed
      · simp only [Bool.and_eq_true, Bool.or_eq_true, Bool.not_eq_true', decide_eq_false_iff_not]
        rw [imp_iff_not_or]

instance (h : List α) : Decidable (PrecededBy gate event h) :=
  decidable_of_iff _ (scanGate_spec gate event h).2

end Scan

/-! ## What earlier events leave behind -/

variable {β : Type}

/-- Every event, with what came before it and what came after. -/
def splits : List α → List (List α × α × List α)
  | [] => []
  | x :: rest => ([], x, rest) :: (splits rest).map fun s => (x :: s.1, s.2)

theorem splits_snoc (h : List α) (x : α) :
    splits (h ++ [x]) = (splits h).map (fun s => (s.1, s.2.1, s.2.2 ++ [x])) ++ [(h, x, [])] := by
  induction h with
  | nil => rfl
  | cons y rest ih => simp [splits, ih]

/-- What the events contribute and no later event wipes out, in order. -/
def kept (contribution : List α → α → List β) (wipes : α → Bool) (h : List α) : List β :=
  (splits h).flatMap fun s => if s.2.2.any wipes then [] else contribution s.1 s.2.1

/-- Some event causes it and no later event wipes it out. -/
def holds (causes : List α → α → Bool) (wipes : α → Bool) (h : List α) : Bool :=
  (splits h).any fun s => causes s.1 s.2.1 && !s.2.2.any wipes

@[simp] theorem kept_nil (contribution : List α → α → List β) (wipes : α → Bool) :
    kept contribution wipes [] = [] := rfl

@[simp] theorem holds_nil (causes : List α → α → Bool) (wipes : α → Bool) :
    holds causes wipes [] = false := rfl

theorem kept_snoc (contribution : List α → α → List β) (wipes : α → Bool) (h : List α) (x : α) :
    kept contribution wipes (h ++ [x]) =
      (if wipes x then [] else kept contribution wipes h) ++ contribution h x := by
  unfold kept
  rw [splits_snoc, List.flatMap_append, List.flatMap_map]
  cases wiped : wipes x with
  | true => simp [wiped]
  | false => simp [wiped]

theorem holds_snoc (causes : List α → α → Bool) (wipes : α → Bool) (h : List α) (x : α) :
    holds causes wipes (h ++ [x]) = ((holds causes wipes h && !wipes x) || causes h x) := by
  unfold holds
  rw [splits_snoc, List.any_append, List.any_map]
  cases wiped : wipes x with
  | true => simp [Function.comp_def, wiped]
  | false => simp [Function.comp_def, wiped]

/-- What is so after two stretches of events: so before the second and not wiped out by it, or
caused within it. -/
theorem holds_append (causes : List α → α → Bool) (wipes : α → Bool) (h new : List α) :
    holds causes wipes (h ++ new) = ((holds causes wipes h && !new.any wipes) ||
      holds (fun before x => causes (h ++ before) x) wipes new) := by
  induction new using List.reverseRecOn with
  | nil => simp
  | append_singleton new x ih =>
      rw [← List.append_assoc, holds_snoc, ih, holds_snoc, List.any_append, List.any_cons,
        List.any_nil]
      cases new.any wipes <;> cases wipes x <;> simp [Bool.or_assoc]

end History
