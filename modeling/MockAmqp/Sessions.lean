import MockAmqp.EventLoop

/-!
# Sessions on one HTTP connection

The events of a request come in any number of calls of `data_received`, between which futures
finish. A property of the events that are still to come is followed through such a session; an
exception ends the call it is raised in and leaves the events behind it to the next one.
-/

namespace MockAmqp
namespace Http
open Exec

/-- What the parser holds of the bytes. -/
def reparse (pending : List H11Event) (following readAll : Bool) (s : HttpProtocol × Broker) :
    HttpProtocol × Broker :=
  ({ s.1 with httpParser := { s.1.httpParser with pending, following, readAll } }, s.2)

/-- `data_received` after an exception: the error response, and the closing of the transport
if the response could be sent. -/
def failed (s : HttpProtocol × Broker) : HttpProtocol × Broker :=
  after (do sendHttpInternalServerError; closeTransport) s

/-- The events that the calls of `data_received` bring. -/
def incoming : List Action → List H11Event
  | [] => []
  | .dataReceived chunk :: rest => chunk.events ++ incoming rest
  | .getDone _ :: rest => incoming rest

/-- A future has finished by returning a value or raising `WaitTimeout`. -/
def Finished : Except PyError Bool → Prop
  | .ok _ => True
  | .error e => e = .waitTimeout

/-- No bytes of another request follow, and every future returns or raises `WaitTimeout`. -/
def Alone (actions : List Action) : Prop :=
  (∀ chunk, .dataReceived chunk ∈ actions → chunk.following = false) ∧
    ∀ result, .getDone result ∈ actions → Finished result

section
variable {env : Env} {refuses : Option PyError} {s t : HttpProtocol × Broker}

theorem takeEvent_ok {e : H11Event} (proper : ∀ x, e ≠ .malformed x) (rest : List H11Event)
    (s : HttpProtocol × Broker) : takeEvent e rest s =
      .ok () (reparse rest s.1.httpParser.following (s.1.httpParser.readAll || e.isEnd) s) := by
  cases e with
  | malformed x => exact absurd rfl (proper x)
  | request m target headers => rfl
  | data piece => rfl
  | endOfMessage => rfl

theorem failed_answered (answered : s.1.httpParser.responded = true) : failed s = s := by
  unfold failed after
  simp only [bind_apply, sendHttpInternalServerError, sendHttpResponseWithBody, send, answered,
    if_true]

theorem failed_unanswered (unanswered : s.1.httpParser.responded = false) :
    ∃ r : Response, r.statusCode = 500 ∧ failed s = ({ s.1 with
      httpParser := { s.1.httpParser with responded := true }
      responses := s.1.responses ++ [r]
      closing := true }, s.2) := by
  refine ⟨{ statusCode := 500, headers := (ascii "Server", ascii "whatever") ::
    contentLength (.bytes (ascii "internal server error\n")) ++
      [(ascii "Connection", ascii "close")], body := .bytes (ascii "internal server error\n") },
    rfl, ?_⟩
  unfold failed after
  simp only [bind_apply, sendHttpInternalServerError, sendHttpResponseWithBody, send, unanswered,
    Bool.false_eq_true, if_false]
  rfl

theorem failed_pending (s : HttpProtocol × Broker) :
    (failed s).1.httpParser.pending = s.1.httpParser.pending ∧
      (failed s).1.httpParser.following = s.1.httpParser.following := by
  cases answered : s.1.httpParser.responded with
  | true =>
      rw [failed_answered answered]
      exact ⟨rfl, rfl⟩
  | false =>
      obtain ⟨r, _, same⟩ := failed_unanswered answered
      rw [same]
      exact ⟨rfl, rfl⟩

theorem failed_raise (e : PyError) (s : HttpProtocol × Broker) :
    after (do sendHttpInternalServerError; closeTransport; raise e : OnHttp Bool) s =
      failed s := by
  unfold failed after
  simp only [bind_apply]
  cases sendHttpInternalServerError s <;> rfl

/-- A call of `data_received`. -/
theorem step_open (opened : s.1.closing = false) (chunk : Chunk) :
    step env refuses s (.dataReceived chunk) =
      match eventLoop env refuses (enough s.1 chunk) (received chunk s) with
      | .ok _ t => t
      | .error _ t => failed t := by
  have loop : dataReceivedWithin env refuses (enough s.1 chunk) chunk s =
      eventLoop env refuses (enough s.1 chunk) (received chunk s) := rfl
  have runs : step env refuses s (.dataReceived chunk) =
      after (dataReceived env refuses (enough s.1 chunk) chunk) s := by
    simp only [step, opened, Bool.false_eq_true, if_false]
  rw [runs]
  cases looped : eventLoop env refuses (enough s.1 chunk) (received chunk s) with
  | ok ended t =>
      rw [looped] at loop
      unfold after dataReceived
      simp only [tryCatch, tryCatchThe, MonadExceptOf.tryCatch, EStateM.tryCatch, loop]
  | error e t =>
      rw [looped] at loop
      refine Eq.trans ?_ (failed_raise e t)
      unfold after dataReceived
      simp only [tryCatch, tryCatchThe, MonadExceptOf.tryCatch, EStateM.tryCatch, loop]
      rfl

/-- A call of `data_received` without bytes of another request. -/
theorem step_chunk (opened : s.1.closing = false) {chunk : Chunk}
    (alone : (s.1.httpParser.following || chunk.following) = false) :
    step env refuses s (.dataReceived chunk) =
      match treatPending env (s.1.httpParser.pending ++ chunk.events) (received chunk s) with
      | .ok _ t => t
      | .error _ t => failed t := by
  let l := s.1.httpParser.pending ++ chunk.events
  have loop : eventLoop env refuses (enough s.1 chunk) (received chunk s) =
      (treatPending env l >>= fun _ => comeToRest refuses) (received chunk s) := by
    refine eventLoop_eq ?_
    simp only [received, enough, List.length_append]
    omega
  rw [step_open opened, loop, bind_apply]
  cases treated : treatPending env l (received chunk s) with
  | ok u t =>
      have free : t.1.httpParser.blocked = false := by
        unfold Connection.blocked
        rw [(treatPending_ok treated).1]
        simp only [received, alone, Bool.and_false]
      simp only [comeToRest_free free]
  | error e t => rfl

end

/-! ## What every session does -/

/-- The broker after operations of HTTP requests, in order. -/
def operated (env : Env) (b : Broker) (ops : List HttpOp) : Broker :=
  Runs.run (Turn.step env) b (ops.map .http)

/-- At most one response, and operations on the broker. -/
def Proceeds (env : Env) (s s' : HttpProtocol × Broker) : Prop :=
  Answers s.1 s'.1 ∧ ∃ ops, s'.2 = operated env s.2 ops

section
variable {env : Env} {refuses : Option PyError}

theorem proceeds_progress : Progress (Proceeds env) where
  refl := fun s => ⟨.inl ⟨rfl, rfl⟩, [], rfl⟩
  trans := by
    rintro s t u ⟨first, ops, ran⟩ ⟨second, more, ranOn⟩
    refine ⟨answers_progress.trans first second, ops ++ more, ?_⟩
    rw [ranOn, ran, operated, operated, operated, List.map_append, Runs.run_append]

theorem treatEvent_proceeds (e : H11Event) : Within (Proceeds env) (treatEvent env e) := by
  intro s
  refine ⟨(treatEvent_handled env e s).answer, ?_⟩
  rcases treatEvent_operates env e s with same | ⟨op, ran⟩
  · exact ⟨[], same⟩
  · exact ⟨[op], ran⟩

theorem takeEvent_proceeds (e : H11Event) (rest : List H11Event) :
    Within (Proceeds env) (takeEvent e rest) := by
  cases e with
  | malformed x => exact within_raise proceeds_progress x
  | request m target headers => exact fun s => ⟨.inl ⟨rfl, rfl⟩, [], rfl⟩
  | data d => exact fun s => ⟨.inl ⟨rfl, rfl⟩, [], rfl⟩
  | endOfMessage => exact fun s => ⟨.inl ⟨rfl, rfl⟩, [], rfl⟩

variable (env) in
theorem treatPending_proceeds (l : List H11Event) : Within (Proceeds env) (treatPending env l) := by
  have hp : Progress (Proceeds env) := proceeds_progress
  induction l with
  | nil => exact within_pure hp _
  | cons e rest ih =>
      refine within_bind hp (within_read hp _) fun blocked => within_ite (within_pure hp _) ?_
      exact within_bind hp (takeEvent_proceeds e rest) fun _ =>
        within_bind hp (treatEvent_proceeds e) fun _ => ih

theorem nextEvent_proceeds : Within (Proceeds env) (nextEvent refuses) := by
  intro s
  have stays : Proceeds env s s := proceeds_progress.refl s
  cases blocked : s.1.httpParser.blocked with
  | true =>
      unfold after
      rw [nextEvent_blocked blocked]
      cases refuses with
      | none => exact stays
      | some e => cases s.1.httpParser.responded <;> exact stays
  | false =>
      cases pending : s.1.httpParser.pending with
      | nil =>
          rw [after_ok (nextEvent_empty blocked pending)]
          exact stays
      | cons e rest =>
          rw [after_congr (nextEvent_free blocked e rest pending), after_bind_pure]
          exact takeEvent_proceeds e rest s

theorem eventLoop_proceeds (n : Nat) : Within (Proceeds env) (eventLoop env refuses n) := by
  have hp : Progress (Proceeds env) := proceeds_progress
  induction n with
  | zero => exact within_pure hp _
  | succ n ih =>
      rw [eventLoop]
      refine within_bind hp nextEvent_proceeds fun next => ?_
      cases next with
      | needData => exact within_pure hp _
      | paused => exact ih
      | event e => exact within_bind hp (treatEvent_proceeds e) fun _ => ih

theorem onGetDone_handled (result : Except PyError Bool) : Within OnProtocol (onGetDone result) := by
  unfold onGetDone
  split
  · exact within_ite (send_onProtocol _) (send_onProtocol _)
  · exact send_onProtocol _
  · exact within_raise onProtocol_progress _

theorem failed_proceeds (s : HttpProtocol × Broker) : Proceeds env s (failed s) := by
  cases answered : s.1.httpParser.responded with
  | true =>
      rw [failed_answered answered]
      exact proceeds_progress.refl s
  | false =>
      obtain ⟨r, _, same⟩ := failed_unanswered answered
      rw [same]
      exact ⟨.inr ⟨answered, rfl, r, rfl⟩, [], rfl⟩

variable (env refuses) in
theorem step_proceeds (s : HttpProtocol × Broker) (a : Action) :
    Proceeds env s (step env refuses s a) := by
  cases a with
  | getDone result =>
      cases futures : s.1.futures with
      | nil =>
          simp only [step, futures]
          exact proceeds_progress.refl s
      | cons w rest =>
          simp only [step, futures]
          have done := onGetDone_handled result ({ s.1 with futures := rest }, s.2)
          exact ⟨done.1.answer, [], done.2⟩
  | dataReceived chunk =>
      cases opened : s.1.closing with
      | true =>
          simp only [step, opened, if_true]
          exact proceeds_progress.refl s
      | false =>
          have loop : Proceeds env s (after (eventLoop env refuses (enough s.1 chunk))
              (received chunk s)) := eventLoop_proceeds (enough s.1 chunk) (received chunk s)
          rw [step_open opened]
          cases looped : eventLoop env refuses (enough s.1 chunk) (received chunk s) with
          | ok ended t =>
              rw [after_ok looped] at loop
              exact loop
          | error e t =>
              rw [after_error looped] at loop
              exact proceeds_progress.trans loop (failed_proceeds t)

variable (env refuses) in
theorem run_proceeds (s : HttpProtocol × Broker) (actions : List Action) :
    Proceeds env s (Runs.run (step env refuses) s actions) :=
  Runs.invariant (fun t a sofar => proceeds_progress.trans sofar (step_proceeds env refuses t a))
    (proceeds_progress.refl s) actions

/-- A connection writes no more than one response. -/
theorem at_most_one_response (b : Broker) (actions : List Action) :
    (Runs.run (step env refuses) (HttpProtocol.init, b) actions).1.responses.length ≤ 1 := by
  rcases (run_proceeds env refuses (HttpProtocol.init, b) actions).1 with
    ⟨_, same⟩ | ⟨_, _, r, responses⟩
  · simp only [same]
    exact Nat.zero_le 1
  · simp only [responses]
    exact Nat.le_refl 1

theorem run_operations (server : Server) (ops : List HttpOp) :
    (Runs.run (Server.step env) server (ops.map .http)).broker =
      operated env server.broker ops := by
  induction ops generalizing server with
  | nil => rfl
  | cons op rest ih => exact ih (Server.step env server (.http op))

/-- What a connection does to the broker is part of a run of the server. -/
theorem session_keepsReachable {b : Broker} (reachable : Reachable env b) (actions : List Action) :
    Reachable env (Runs.run (step env refuses) (HttpProtocol.init, b) actions).2 := by
  obtain ⟨_, ops, ran⟩ := run_proceeds env refuses (HttpProtocol.init, b) actions
  obtain ⟨draws, before, rfl⟩ := reachable
  refine ⟨draws, before ++ ops.map .http, ?_⟩
  rw [ran, Runs.run_append, run_operations]

end

/-! ## What holds of the events still to come -/

/-- A property of the events still to come and the state, before and after the first failure,
that the treatment of the next event and the end of a wait keep. -/
structure Tracks (env : Env) (I : Bool → List H11Event → HttpProtocol × Broker → Prop) :
    Prop where
  parsed : ∀ {f left s} p more all, I f left s → I f left (reparse p more all s)
  proper : ∀ {f x left s}, s.1.closing = false → ¬ I f (.malformed x :: left) s
  opened : ∀ {left s}, I false left s → s.1.closing = false
  treat : ∀ {f e left s}, s.1.closing = false → I f (e :: left) s → match treatEvent env e s with
    | .ok _ t => I f left t
    | .error _ t => I true left (failed t)
  done : ∀ {f left s w rest result}, I f left s → s.1.futures = w :: rest → Finished result →
    I f left (after (onGetDone result) ({ s.1 with futures := rest }, s.2))

section
variable {env : Env} {refuses : Option PyError} {s t : HttpProtocol × Broker}
variable {I : Bool → List H11Event → HttpProtocol × Broker → Prop}

theorem Tracks.allTreated (tracks : Tracks env I) {f : Bool} {l future : List H11Event}
    (pending : s.1.httpParser.pending = l) (alone : s.1.httpParser.following = false)
    (opened : s.1.closing = false) (holds : I f (l ++ future) s) :
    match treatPending env l s with
    | .ok _ t => t.1.httpParser.pending = [] ∧ t.1.httpParser.following = false ∧ I f future t
    | .error _ t => t.1.httpParser.following = false ∧
        I true (t.1.httpParser.pending ++ future) (failed t) := by
  induction l generalizing s with
  | nil => exact ⟨pending, alone, holds⟩
  | cons e rest ih =>
      have free : s.1.httpParser.blocked = false := by
        rw [Connection.blocked, alone, Bool.and_false]
      let s' := reparse rest s.1.httpParser.following (s.1.httpParser.readAll || e.isEnd) s
      have takes : takeEvent e rest s = .ok () s' := by
        cases e with
        | malformed x => exact absurd holds (tracks.proper opened)
        | request m target headers => rfl
        | data d => rfl
        | endOfMessage => rfl
      have treats := tracks.treat (s := s') opened (tracks.parsed rest s.1.httpParser.following
        (s.1.httpParser.readAll || e.isEnd) holds)
      have handled := treatEvent_handled env e s'
      rw [treatPending_free free, bind_ok takes, bind_apply]
      change match treatEvent env e s' with
        | .ok _ t => I f (rest ++ future) t
        | .error _ t => I true (rest ++ future) (failed t) at treats
      cases result : treatEvent env e s' with
      | ok u t =>
          rw [after_ok result] at handled
          rw [result] at treats
          exact ih handled.pending (handled.following.trans alone) (handled.closing.trans opened) treats
      | error x t =>
          rw [after_error result] at handled
          rw [result] at treats
          exact ⟨handled.following.trans alone, handled.pending.symm ▸ treats⟩

/-- What holds between two calls of `data_received`. -/
def Stands (I : Bool → List H11Event → HttpProtocol × Broker → Prop) (future : List H11Event)
    (s : HttpProtocol × Broker) : Prop :=
  s.1.httpParser.following = false ∧ (s.1.httpParser.pending = [] ∧ I false future s ∨
    ∃ left, I true left s ∧ (s.1.closing = false → left = s.1.httpParser.pending ++ future))

variable (refuses) in
theorem Tracks.chunk (tracks : Tracks env I) {f : Bool} {chunk : Chunk} {future : List H11Event}
    (opened : s.1.closing = false)
    (alone : (s.1.httpParser.following || chunk.following) = false)
    (holds : I f (s.1.httpParser.pending ++ chunk.events ++ future) s) :
    (step env refuses s (.dataReceived chunk)).1.httpParser.following = false ∧
      ((step env refuses s (.dataReceived chunk)).1.httpParser.pending = [] ∧
          I f future (step env refuses s (.dataReceived chunk)) ∨
        I true ((step env refuses s (.dataReceived chunk)).1.httpParser.pending ++ future)
          (step env refuses s (.dataReceived chunk))) := by
  have treated := tracks.allTreated (s := received chunk s) rfl alone opened
    (tracks.parsed _ _ _ holds)
  rw [step_chunk opened alone]
  change match treatPending env (s.1.httpParser.pending ++ chunk.events) (received chunk s) with
    | .ok _ t => t.1.httpParser.pending = [] ∧ t.1.httpParser.following = false ∧ I f future t
    | .error _ t => t.1.httpParser.following = false ∧
        I true (t.1.httpParser.pending ++ future) (failed t) at treated
  cases result : treatPending env (s.1.httpParser.pending ++ chunk.events) (received chunk s) with
  | ok u t =>
      rw [result] at treated
      exact ⟨treated.2.1, .inl ⟨treated.1, treated.2.2⟩⟩
  | error e t =>
      rw [result] at treated
      obtain ⟨pending, following⟩ := failed_pending t
      dsimp only at treated ⊢
      rw [pending, following]
      exact ⟨treated.1, .inr treated.2⟩

theorem Tracks.turn (tracks : Tracks env I) {a : Action} {future : List H11Event}
    (alone : Alone [a]) (stands : Stands I (incoming [a] ++ future) s) :
    Stands I future (step env refuses s a) := by
  obtain ⟨following, holds⟩ := stands
  cases a with
  | getDone result =>
      have finished := alone.2 result (List.mem_singleton_self _)
      change s.1.httpParser.pending = [] ∧ I false future s ∨ ∃ left, I true left s ∧
        (s.1.closing = false → left = s.1.httpParser.pending ++ future) at holds
      cases futures : s.1.futures with
      | nil =>
          have same : step env refuses s (.getDone result) = s := by simp only [step, futures]
          rw [same]
          exact ⟨following, holds⟩
      | cons w rest =>
          have ended : step env refuses s (.getDone result) =
              after (onGetDone result) ({ s.1 with futures := rest }, s.2) := by
            simp only [step, futures]
          have handled := (onGetDone_handled result ({ s.1 with futures := rest }, s.2)).1
          rw [ended]
          refine ⟨handled.following.trans following, ?_⟩
          rcases holds with ⟨pending, holds⟩ | ⟨left, holds, same⟩
          · exact .inl ⟨handled.pending.trans pending, tracks.done holds futures finished⟩
          · refine .inr ⟨left, tracks.done holds futures finished, fun opened => ?_⟩
            rw [handled.pending]
            exact same (handled.closing.symm.trans opened)
  | dataReceived chunk =>
      have only := alone.1 chunk (List.mem_singleton_self _)
      have events : incoming [.dataReceived chunk] ++ future = chunk.events ++ future := by
        rw [incoming, incoming, List.append_nil]
      rw [events, ← List.append_assoc] at holds
      cases opened : s.1.closing with
      | true =>
          have same : step env refuses s (.dataReceived chunk) = s := by
            simp only [step, opened, if_true]
          rw [same]
          rcases holds with ⟨_, holds⟩ | ⟨left, holds, _⟩
          · exact absurd ((tracks.opened holds).symm.trans opened) (by simp)
          · exact ⟨following, .inr ⟨left, holds, by simp [opened]⟩⟩
      | false =>
          have none : (s.1.httpParser.following || chunk.following) = false := by
            rw [following, only, Bool.or_self]
          rcases holds with ⟨pending, holds⟩ | ⟨left, holds, same⟩
          · have first : I false (s.1.httpParser.pending ++ chunk.events ++ future) s := by
              rwa [pending]
            obtain ⟨parser, next | next⟩ := tracks.chunk refuses opened none first
            · exact ⟨parser, .inl next⟩
            · exact ⟨parser, .inr ⟨_, next, fun _ => rfl⟩⟩
          · rw [same opened] at holds
            obtain ⟨parser, ⟨pending, next⟩ | next⟩ :=
              tracks.chunk refuses opened none holds
            · exact ⟨parser, .inr ⟨_, next, fun _ => by rw [pending]; rfl⟩⟩
            · exact ⟨parser, .inr ⟨_, next, fun _ => rfl⟩⟩

theorem incoming_cons (a : Action) (rest : List Action) :
    incoming (a :: rest) = incoming [a] ++ incoming rest := by
  cases a with
  | dataReceived chunk => rw [incoming, incoming, incoming, List.append_nil]
  | getDone result => rfl

variable (refuses) in
/-- What holds of a whole session: of no event when none has failed, and of those left over
when one has. -/
theorem Tracks.session (tracks : Tracks env I) {actions : List Action} (alone : Alone actions)
    (stands : Stands I (incoming actions) s) :
    I false [] (Runs.run (step env refuses) s actions) ∨
      ∃ left, I true left (Runs.run (step env refuses) s actions) := by
  induction actions generalizing s with
  | nil =>
      rcases stands.2 with ⟨_, holds⟩ | ⟨left, holds, _⟩
      · exact .inl holds
      · exact .inr ⟨left, holds⟩
  | cons a rest ih =>
      have first : Alone [a] := by
        constructor
        · intro chunk mem
          exact alone.1 chunk (List.mem_singleton.mp mem ▸ List.mem_cons_self)
        · intro result mem
          exact alone.2 result (List.mem_singleton.mp mem ▸ List.mem_cons_self)
      have later : Alone rest := by
        constructor
        · intro chunk mem
          exact alone.1 chunk (List.mem_cons_of_mem a mem)
        · intro result mem
          exact alone.2 result (List.mem_cons_of_mem a mem)
      rw [incoming_cons] at stands
      exact ih later (tracks.turn first stands)

end

end Http
end MockAmqp
