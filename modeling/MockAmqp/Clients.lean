import MockAmqp.Input
import MockAmqp.Lib.Script

/-!
# What a client plays

Frames sent to one connection, cut in any way, among other actions. What is known of the broker
while frames are still to come is kept by each of them and by the other actions.
-/

namespace MockAmqp
open Exec

/-- The payload of a heartbeat. -/
theorem empty_fits : ([] : Bytes).length < 2 ^ 32 := by decide

/-- What the action brings to `c`. -/
def Action.sentTo (c : ConnId) : Action → Bytes
  | .dataReceived c' data => if c' = c then data else []
  | _ => []

/-- What is known while frames are still to come to `c`, and actions of some kind happen. -/
structure Script (env : Env) (c : ConnId) (P : Action → Prop)
    (Q : List FrameValue → Broker → Prop) : Prop where
  kept : ∀ {a}, P a → a ≠ .connectionLost c
  plays : Framing.Plays (dispatch env c) Q
  live : ∀ {todo b}, Q todo b → b.isClosing c = false
  started : ∀ {todo b}, Q todo b → (b.trackers c).parserState ≠ .waitingProtocolHeader
  others : ∀ {todo s a}, P a → (∀ data, a ≠ .dataReceived c data) → Q todo s.broker →
    Q todo (Server.step env s a).broker

/-- What is in the buffer and what is still to arrive are the frames still to come. -/
def Playing (c : ConnId) (Q : List FrameValue → Broker → Prop) (rest : Bytes) (s : Server) : Prop :=
  ∃ todo : List (RawFrame × FrameValue), (∀ p ∈ todo, p.1.Decodes p.2) ∧
    Framing.Waiting frameReader (s.buffers c) ∧
    s.buffers c ++ rest = (todo.map fun p => p.1.bytes).flatten ∧ Q (todo.map Prod.snd) s.broker

/-- The actions bring these frames to `c`, cut in any way, and are all of some kind. -/
structure Brings (c : ConnId) (P : Action → Prop) (frames : List (RawFrame × FrameValue))
    (actions : List Action) : Prop where
  decodes : ∀ p ∈ frames, p.1.Decodes p.2
  sent : actions.flatMap (Action.sentTo c) = (frames.map fun p => p.1.bytes).flatten
  allowed : ∀ a ∈ actions, P a

section
variable {env : Env} {c : ConnId} {P : Action → Prop} {Q : List FrameValue → Broker → Prop}
variable {s : Server}

theorem Action.sentTo_other {a : Action} (other : ∀ data, a ≠ .dataReceived c data) :
    a.sentTo c = [] := by
  cases a with
  | dataReceived c' data =>
      refine if_neg ?_
      rintro rfl
      exact other data rfl
  | _ => rfl

theorem exact_frames {todo : List (RawFrame × FrameValue)} (decodes : ∀ p ∈ todo, p.1.Decodes p.2) :
    ∀ i ∈ todo.map fun p => (p.1.bytes, p.2), Framing.Exact frameReader i.1 i.2 := by
  intro i member
  obtain ⟨p, mem, rfl⟩ := List.mem_map.mp member
  exact RawFrame.exact (decodes p mem)

theorem Script.arrive (script : Script env c P Q) {data rest : Bytes}
    (h : Playing c Q (data ++ rest) s) :
    Playing c Q rest (Server.step env s (.dataReceived c data)) := by
  obtain ⟨todo, decodes, _, split, here⟩ := h
  have cut : (s.buffers c ++ data) ++ rest =
      ((todo.map fun p => (p.1.bytes, p.2)).map Prod.fst).flatten := by
    rw [List.append_assoc, split, List.map_map]
    rfl
  have come : Q ((todo.map fun p => (p.1.bytes, p.2)).map Prod.snd) s.broker := by
    rwa [List.map_map]
  obtain ⟨items, left, b', suffix, waiting, later, next, ran⟩ :=
    Framing.drain_plays script.plays (exact_frames decodes) cut come (Nat.le_refl _)
  obtain ⟨done, todo', rfl, rfl⟩ : ∃ done todo', todo = done ++ todo' ∧
      todo'.map (fun p => (p.1.bytes, p.2)) = items := by
    obtain ⟨done, whole⟩ := suffix
    obtain ⟨l, l', split, _, last⟩ := List.map_eq_append_iff.mp whole.symm
    exact ⟨l, l', split, last⟩
  have open_ : ¬ s.broker.isClosing c = true := by simp [script.live here]
  have step : Server.step env s (.dataReceived c data) =
      { broker := b', buffers := Function.update s.buffers c left } := by
    have received : dataReceived env c data (s.buffers c, s.broker) = .ok () (left, b') :=
      (dataReceived_frames (script.started here)).trans ran
    simp only [Server.step, if_neg open_]
    rw [after_ok received]
  rw [step]
  refine ⟨todo', fun p member => decodes p (List.mem_append_right _ member), ?_, ?_, ?_⟩
  · simpa using waiting
  · simpa [Function.comp_def] using later
  · simpa [Function.comp_def] using next

theorem Script.step (script : Script env c P Q) {rest : Bytes} {a : Action}
    (allowed : P a) (h : Playing c Q (a.sentTo c ++ rest) s) :
    Playing c Q rest (Server.step env s a) := by
  by_cases own : ∃ data, a = .dataReceived c data
  · obtain ⟨data, rfl⟩ := own
    rw [Action.sentTo, if_pos rfl] at h
    exact script.arrive h
  · have other : ∀ data, a ≠ .dataReceived c data := fun data same => own ⟨data, same⟩
    rw [Action.sentTo_other other, List.nil_append] at h
    obtain ⟨todo, decodes, waiting, split, here⟩ := h
    have buffer : (Server.step env s a).buffers c = s.buffers c :=
      (Server.step_other other (script.kept allowed)).1
    exact ⟨todo, decodes, buffer ▸ waiting, buffer ▸ split, script.others allowed other here⟩

theorem Playing.finished (h : Playing c Q [] s) : s.buffers c = [] ∧ Q [] s.broker := by
  obtain ⟨todo, decodes, waiting, split, here⟩ := h
  rw [List.append_nil] at split
  have ended : todo.map (fun p => (p.1.bytes, p.2)) = [] := by
    refine Framing.Waiting.finished (exact_frames decodes) ?_
    rw [split] at waiting
    simpa [Function.comp_def] using waiting
  rw [List.map_eq_nil_iff] at ended
  subst ended
  exact ⟨split, here⟩

/-- A script is played to its end. -/
theorem Script.completes (script : Script env c P Q) {frames : List (RawFrame × FrameValue)}
    {actions : List Action} (brings : Brings c P frames actions) (empty : s.buffers c = [])
    (start : Q (frames.map Prod.snd) s.broker) :
    (Runs.run (Server.step env) s actions).buffers c = [] ∧
      Q [] (Runs.run (Server.step env) s actions).broker := by
  have ready : Playing c Q (actions.flatMap (Action.sentTo c)) s :=
    ⟨frames, brings.decodes, .inl empty, by rw [empty, brings.sent, List.nil_append], start⟩
  exact (Runs.arrived (fun _ _ _ => script.step) brings.allowed ready).finished

end

end MockAmqp
