import MockAmqp.Acknowledgements
import MockAmqp.Lib.Polling
import MockAmqp.Responses

/-!
# The whole service

What `_main` starts: one event loop calls the protocols of both servers, which share a state, and
the coroutines that HTTP requests wait for. A call that never comes back stops all of them.
-/

namespace MockAmqp
open Exec

/-- The looks of a wait, a second apart. -/
def Wait.timeout : Nat := 10

/-- What a look at the state ends the wait with. -/
def Wait.look (w : Wait) (s : State) : Option (Except PyError Bool) :=
  match w.poll s with
  | .error e => some (.error e)
  | .ok none => none
  | .ok (some r) => some (.ok r)

/-- Whether the loop of a call of `data_received` ends. -/
def Http.returns (env : Env) (refuses : Option PyError) (s : HttpProtocol × Broker)
    (chunk : Chunk) : Bool :=
  s.1.closing || match dataReceived env refuses (enough s.1 chunk) chunk s with
    | .ok ended _ => ended
    | .error _ _ => true

/-- A wait on its way. -/
structure Coroutine where
  wait : Wait
  task : Polling.Task (Except PyError Bool)

namespace Coroutine

/-- `asyncio.ensure_future` -/
def start (w : Wait) : Coroutine := { wait := w, task := .looking Wait.timeout }

def resume (s : State) (t : Coroutine) : Coroutine :=
  { t with task := t.task.resume t.wait.look (.error .waitTimeout) s }

end Coroutine

structure Service where
  server : Server
  http : ConnId → Http.HttpProtocol
  /-- Those of each HTTP connection whose callback has not run. -/
  coroutines : ConnId → List Coroutine
  /-- No call has failed to come back. -/
  running : Bool

/-- What the event loop calls: protocols, coroutines after a sleep, and the callbacks of those
that have ended. -/
inductive Callback where
  | dataReceived (c : ConnId) (data : Bytes)
  | connectionLost (c : ConnId)
  | httpDataReceived (i : ConnId) (chunk : Http.Chunk)
  | resume (i : ConnId) (k : Nat)
  | getDone (i : ConnId) (k : Nat)

/-- The callback is one of an HTTP connection. -/
def Callback.calls (i : ConnId) : Callback → Bool
  | .httpDataReceived j _ | .resume j _ | .getDone j _ => j = i
  | _ => false

namespace Service

def init (env : Env) (draws : Nat → Draw) : Service where
  server := Server.init env draws
  http := fun _ => .init
  coroutines := fun _ => []
  running := true

/-- An HTTP connection with its futures, and the state it shares. -/
def connection (p : Service) (i : ConnId) : Http.HttpProtocol × Broker :=
  ({ p.http i with futures := (p.coroutines i).map Coroutine.wait }, p.server.broker)

/-- An HTTP connection has been called. -/
def called (p : Service) (i : ConnId) (s : Http.HttpProtocol × Broker)
    (coroutines : List Coroutine) : Service :=
  { p with
    server := { p.server with broker := s.2 }
    http := Function.update p.http i s.1
    coroutines := Function.update p.coroutines i coroutines }

def step (env : Env) (refuses : Option PyError) (p : Service) (a : Callback) : Service :=
  if p.running then
    match a with
    | .dataReceived c data => { p with server := Server.step env p.server (.dataReceived c data) }
    | .connectionLost c => { p with server := Server.step env p.server (.connectionLost c) }
    | .httpDataReceived i chunk =>
        let s := p.connection i
        let s' := Http.step env refuses s (.dataReceived chunk)
        let created := s'.1.futures.drop s.1.futures.length
        { p.called i s' (p.coroutines i ++ created.map .start) with
          running := Http.returns env refuses s chunk }
    | .resume i k =>
        let resumed := (p.coroutines i).modify k (Coroutine.resume p.server.broker.state)
        { p with coroutines := Function.update p.coroutines i resumed }
    | .getDone i k =>
        match (p.coroutines i)[k]? with
        | some { wait := _, task := .ended result } =>
            p.called i (after (Http.onGetDone result) (p.connection i))
              ((p.coroutines i).eraseIdx k)
        | _ => p
  else p

end Service

/-! ## Calls that come back -/

namespace Http
section
variable {env : Env} {refuses : Option PyError} {s : HttpProtocol × Broker}

theorem returns_open (opened : s.1.closing = false) (chunk : Chunk) :
    returns env refuses s chunk =
      match eventLoop env refuses (enough s.1 chunk) (received chunk s) with
      | .ok ended _ => ended
      | .error _ _ => true := by
  have loop : dataReceivedWithin env refuses (enough s.1 chunk) chunk s =
      eventLoop env refuses (enough s.1 chunk) (received chunk s) := rfl
  rw [returns, opened, Bool.false_or]
  unfold dataReceived
  simp only [tryCatch, tryCatchThe, MonadExceptOf.tryCatch, EStateM.tryCatch, loop]
  cases eventLoop env refuses (enough s.1 chunk) (received chunk s) with
  | ok ended t => rfl
  | error e t =>
      dsimp only
      generalize EStateM.Backtrackable.restore t _ = u
      rw [bind_apply]
      cases sendHttpInternalServerError u <;> rfl

/-- The bound on the turns of the loop shows whether it ends. -/
theorem returns_iff (chunk : Chunk) :
    returns env refuses s chunk = true ↔ LoopEnds env refuses s (.dataReceived chunk) := by
  cases opened : s.1.closing with
  | true =>
      refine iff_of_true ?_ fun no => ?_
      · rw [returns, opened, Bool.true_or]
      · rw [opened] at no
        cases no
  | false =>
      have bound : (received chunk s).1.httpParser.pending.length < enough s.1 chunk := by
        simp only [received, enough, List.length_append]
        omega
      rw [returns_open opened]
      constructor
      · intro ends _
        refine ⟨enough s.1 chunk, fun t stops => ?_⟩
        rw [dataReceivedWithin_eq] at stops
        rw [stops] at ends
        cases ends
      · intro ends
        obtain ⟨n, comes⟩ := ends opened
        have ended : ∀ t, eventLoop env refuses n (received chunk s) ≠ .ok false t := comes
        have more := eventLoop_enough (m := enough s.1 chunk) ended
        rw [eventLoop_eq (Nat.lt_add_left n bound)] at more
        cases looped : eventLoop env refuses (enough s.1 chunk) (received chunk s) with
        | error e t => rfl
        | ok finished t =>
            cases finished with
            | true => rfl
            | false =>
                rw [eventLoop_eq bound] at looped
                exact absurd (more.symm.trans looped) (ended t)

/-- Without bytes of another request the call comes back. -/
theorem returns_alone {chunk : Chunk}
    (alone : (s.1.httpParser.following || chunk.following) = false) :
    returns env refuses s chunk = true := by
  rw [returns_iff, loopEnds_iff]
  intro stalls
  have pipelined := stalls.2.1
  rw [pipelines, alone, Bool.false_and] at pipelined
  cases pipelined

/-- Futures are only added. -/
def Adds (s s' : HttpProtocol × Broker) : Prop := s.1.futures <+: s'.1.futures

theorem adds_progress : Progress Adds where
  refl := fun _ => List.prefix_rfl
  trans := fun h k => h.trans k

theorem nextEvent_adds : Within Adds (nextEvent refuses) := by
  intro s
  cases blocked : s.1.httpParser.blocked with
  | true =>
      unfold after
      rw [nextEvent_blocked blocked]
      cases refuses with
      | none => exact adds_progress.refl s
      | some e => cases s.1.httpParser.responded <;> exact adds_progress.refl s
  | false =>
      cases pending : s.1.httpParser.pending with
      | nil =>
          rw [after_ok (nextEvent_empty blocked pending)]
          exact adds_progress.refl s
      | cons e rest =>
          rw [after_congr (nextEvent_free blocked e rest pending), after_bind_pure]
          cases e <;> exact adds_progress.refl s

theorem eventLoop_adds (n : Nat) : Within Adds (eventLoop env refuses n) := by
  have hp := adds_progress
  induction n with
  | zero => exact within_pure hp _
  | succ n ih =>
      rw [eventLoop]
      apply within_bind hp nextEvent_adds
      intro next
      cases next with
      | needData => exact within_pure hp _
      | paused => exact ih
      | event e =>
          apply within_bind hp _ fun _ => ih
          exact fun s => (treatEvent_handled env e s).futures

theorem failed_adds (s : HttpProtocol × Broker) : Adds s (failed s) := by
  cases answered : s.1.httpParser.responded with
  | true =>
      rw [failed_answered answered]
      exact adds_progress.refl s
  | false =>
      obtain ⟨r, _, same⟩ := failed_unanswered answered
      rw [same]
      exact adds_progress.refl s

variable (env refuses s) in
theorem step_adds (chunk : Chunk) : Adds s (step env refuses s (.dataReceived chunk)) := by
  cases opened : s.1.closing with
  | true =>
      simp only [step, opened, if_true]
      exact adds_progress.refl s
  | false =>
      have loop : Adds s (after (eventLoop env refuses (enough s.1 chunk)) (received chunk s)) :=
        eventLoop_adds _ (received chunk s)
      rw [step_open opened]
      cases looped : eventLoop env refuses (enough s.1 chunk) (received chunk s) with
      | ok ended t =>
          rw [after_ok looped] at loop
          exact loop
      | error e t =>
          rw [after_error looped] at loop
          exact adds_progress.trans loop (failed_adds t)

end

end Http

/-! ## The service as a server and its HTTP connections -/

namespace Service
section
variable {env : Env} {refuses : Option PyError} {p : Service}

theorem step_stopped (stopped : p.running = false) (a : Callback) : step env refuses p a = p := by
  simp only [step, stopped, Bool.false_eq_true, if_false]

variable (env refuses) in
/-- What goes on has gone on so far. -/
theorem running_of_run (cs : List Callback)
    (going : (Runs.run (step env refuses) p cs).running = true) : p.running = true := by
  induction cs generalizing p with
  | nil => exact going
  | cons a rest ih =>
      have next := ih going
      by_contra stopped
      rw [step_stopped (Bool.not_eq_true _ ▸ stopped)] at next
      exact stopped next

theorem called_connection (i : ConnId) (s : Http.HttpProtocol × Broker) (l : List Coroutine)
    (futures : s.1.futures = l.map Coroutine.wait) : (p.called i s l).connection i = s := by
  simp only [connection, called, Function.update_self, ← futures]

/-! ### What a callback does -/

variable {i : ConnId} {k : Nat}

variable (env refuses) in
theorem step_httpDataReceived (going : p.running = true) {chunk : Http.Chunk}
    (returns : Http.returns env refuses (p.connection i) chunk = true) :
    step env refuses p (.httpDataReceived i chunk) =
      p.called i (Http.step env refuses (p.connection i) (.dataReceived chunk)) (p.coroutines i ++
        ((Http.step env refuses (p.connection i) (.dataReceived chunk)).1.futures.drop
          (p.coroutines i).length).map .start) := by
  have length : (p.connection i).1.futures.length = (p.coroutines i).length := List.length_map ..
  simp only [step, going, if_true, returns, length]
  simp only [called, going]

variable (env refuses) in
theorem step_resume (going : p.running = true) (i : ConnId) (k : Nat) :
    step env refuses p (.resume i k) = { p with
      coroutines := Function.update p.coroutines i
        ((p.coroutines i).modify k (Coroutine.resume p.server.broker.state)) } := by
  simp only [step, going, if_true]

theorem step_getDone (going : p.running = true) {v : Wait}
    {result : Except PyError Bool} (found : (p.coroutines i)[k]? = some ⟨v, .ended result⟩) :
    step env refuses p (.getDone i k) = p.called i (after (Http.onGetDone result) (p.connection i))
      ((p.coroutines i).eraseIdx k) := by
  simp only [step, going, if_true, found]

theorem step_getDone_early (going : p.running = true)
    (early : ¬ ∃ v result, (p.coroutines i)[k]? = some ⟨v, .ended result⟩) :
    step env refuses p (.getDone i k) = p := by
  simp only [step, going, if_true]
  split
  · rename_i v result found
    exact absurd ⟨v, result, found⟩ early
  · rfl

variable (env refuses) in
theorem step_connection (going : p.running = true) (i : ConnId) (chunk : Http.Chunk) :
    (step env refuses p (.httpDataReceived i chunk)).connection i =
      Http.step env refuses (p.connection i) (.dataReceived chunk) := by
  obtain ⟨created, adds⟩ := Http.step_adds env refuses (p.connection i) chunk
  simp only [step, going, if_true]
  refine called_connection i _ _ ?_
  rw [← adds, List.drop_left, List.map_append, List.map_map]
  have same : (fun w => (Coroutine.start w).wait) = id := rfl
  simp only [Function.comp_def, same, List.map_id]
  rfl

variable (env refuses p) in
/-- A callback leaves other HTTP connections as they are. -/
theorem step_other {i : ConnId} {a : Callback} (other : a.calls i = false) :
    (step env refuses p a).http i = p.http i ∧
      (step env refuses p a).coroutines i = p.coroutines i := by
  unfold step
  split
  · cases a with
    | dataReceived c data => exact ⟨rfl, rfl⟩
    | connectionLost c => exact ⟨rfl, rfl⟩
    | httpDataReceived j chunk =>
        have apart : i ≠ j := fun same => by simp [Callback.calls, same] at other
        exact ⟨Function.update_of_ne apart _ _, Function.update_of_ne apart _ _⟩
    | resume j k =>
        have apart : i ≠ j := fun same => by simp [Callback.calls, same] at other
        exact ⟨rfl, Function.update_of_ne apart _ _⟩
    | getDone j k =>
        have apart : i ≠ j := fun same => by simp [Callback.calls, same] at other
        dsimp only
        split
        · exact ⟨Function.update_of_ne apart _ _, Function.update_of_ne apart _ _⟩
        · exact ⟨rfl, rfl⟩
  · exact ⟨rfl, rfl⟩

end
end Service

/-! ## Refinement -/

/-- What a callback amounts to on the server. -/
inductive Callback.Does : Callback → List Action → Prop
  | dataReceived (c : ConnId) (data : Bytes) : Does (.dataReceived c data) [.dataReceived c data]
  | connectionLost (c : ConnId) : Does (.connectionLost c) [.connectionLost c]
  | httpDataReceived (i : ConnId) (chunk : Http.Chunk) (ops : List HttpOp) :
      Does (.httpDataReceived i chunk) (ops.map .http)
  | resume (i : ConnId) (k : Nat) : Does (.resume i k) []
  | getDone (i : ConnId) (k : Nat) : Does (.getDone i k) []

theorem Server.run_http (env : Env) (s : Server) (ops : List HttpOp) :
    Runs.run (Server.step env) s (ops.map .http) =
      { s with broker := Http.operated env s.broker ops } := by
  induction ops generalizing s with
  | nil => rfl
  | cons op rest ih =>
      rw [List.map_cons, Runs.run_cons, ih]
      rfl

section
variable {env : Env} {refuses : Option PyError} {p : Service}

variable (env refuses) in
/-- Each callback is some actions of the server. -/
theorem step_does (going : p.running = true) (a : Callback) : ∃ part, a.Does part ∧
    (Service.step env refuses p a).server = Runs.run (Server.step env) p.server part := by
  cases a with
  | dataReceived c data => exact ⟨_, .dataReceived c data, by simp [Service.step, going]⟩
  | connectionLost c => exact ⟨_, .connectionLost c, by simp [Service.step, going]⟩
  | resume i k => exact ⟨_, .resume i k, by simp [Service.step, going]⟩
  | httpDataReceived i chunk =>
      obtain ⟨_, ops, ran⟩ := Http.step_proceeds env refuses (p.connection i) (.dataReceived chunk)
      refine ⟨_, .httpDataReceived i chunk ops, ?_⟩
      rw [Server.run_http]
      simp only [Service.step, going, if_true, Service.called, ran]
      rfl
  | getDone i k =>
      refine ⟨_, .getDone i k, ?_⟩
      simp only [Service.step, going, if_true, Runs.run_nil]
      split
      · rename_i result _
        have same := (Http.onGetDone_handled result (p.connection i)).2
        simp only [Service.called, same]
        rfl
      · rfl

end

/-- Whatever the callbacks and their order, the service is its server under the actions that the
callbacks amount to, until one of them does not come back. -/
theorem service_refines (env : Env) (refuses : Option PyError) (p : Service) (cs : List Callback) :
    ∃ ran parts, ran <+: cs ∧
      ((Runs.run (Service.step env refuses) p cs).running = true → ran = cs) ∧
      List.Forall₂ Callback.Does ran parts ∧
      (Runs.run (Service.step env refuses) p cs).server =
        Runs.run (Server.step env) p.server parts.flatten := by
  induction cs generalizing p with
  | nil => exact ⟨[], [], List.prefix_rfl, fun _ => rfl, .nil, rfl⟩
  | cons a rest ih =>
      rw [Runs.run_cons]
      cases going : p.running with
      | false =>
          have stays : ∀ l, Runs.run (Service.step env refuses) p l = p := by
            intro l
            exact Runs.invariant (I := (· = p))
              (fun q b same => by rw [same, Service.step_stopped going]) rfl l
          refine ⟨[], [], List.nil_prefix, fun no => ?_, .nil, ?_⟩
          · rw [Service.step_stopped going, stays, going] at no
            cases no
          · rw [Service.step_stopped going, stays]
            rfl
      | true =>
          obtain ⟨part, does, same⟩ := step_does env refuses going a
          obtain ⟨ran, parts, begins, all, each, ended⟩ := ih (Service.step env refuses p a)
          have more : a :: ran <+: a :: rest := (List.prefix_cons_inj a).mpr begins
          refine ⟨a :: ran, part :: parts, more, ?_, .cons does each, ?_⟩
          · intro still
            rw [all still]
          · rw [ended, same, List.flatten_cons, Runs.run_append]

end MockAmqp
