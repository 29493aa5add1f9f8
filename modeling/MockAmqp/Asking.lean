import MockAmqp.Acknowledgements
import MockAmqp.Posts

/-!
# Asking for a wait

A GET request for a wait creates one future and answers nothing until it finishes. Whatever else
comes with the request is ignored.
-/

namespace MockAmqp
open Exec

namespace Http

/-- The events behind the headers of a request without a body that is read. -/
def H11Event.Quiet : H11Event → Prop
  | .data _ | .endOfMessage => True
  | _ => False

/-- All events so far have been treated. -/
structure Idle (h : HttpProtocol) : Prop where
  opened : h.closing = false
  waiting : h.state = .waitingHeaders
  pending : h.httpParser.pending = []
  alone : h.httpParser.following = false

/-- Neither answers, nor futures, nor the broker have changed. -/
structure Unmoved (s t : HttpProtocol × Broker) : Prop where
  futures : t.1.futures = s.1.futures
  responses : t.1.responses = s.1.responses
  responded : t.1.httpParser.responded = s.1.httpParser.responded
  broker : t.2 = s.2

theorem Unmoved.trans {s t u : HttpProtocol × Broker} (h : Unmoved s t) (k : Unmoved t u) :
    Unmoved s u where
  futures := k.futures.trans h.futures
  responses := k.responses.trans h.responses
  responded := k.responded.trans h.responded
  broker := k.broker.trans h.broker

section
variable {env : Env} {refuses : Option PyError} {s : HttpProtocol × Broker}

variable (env) in
theorem treatEvent_quiet (waiting : s.1.state = .waitingHeaders) {e : H11Event} (quiet : e.Quiet) :
    ∃ t, treatEvent env e s = .ok () t ∧ t.1.state = .waitingHeaders ∧ Unmoved s t := by
  cases e with
  | request m target headers => cases quiet
  | malformed x => cases quiet
  | data piece => exact ⟨s, treatEvent_ignores waiting piece, waiting, rfl, rfl, rfl, rfl⟩
  | endOfMessage => exact ⟨_, rfl, rfl, rfl, rfl, rfl, rfl⟩

variable (env) in
theorem treatPending_quiet {l : List H11Event} (quiet : ∀ e ∈ l, e.Quiet)
    (opened : s.1.closing = false) (waiting : s.1.state = .waitingHeaders)
    (pending : s.1.httpParser.pending = l) (alone : s.1.httpParser.following = false) :
    ∃ t, treatPending env l s = .ok () t ∧ Idle t.1 ∧ Unmoved s t := by
  induction l generalizing s with
  | nil => exact ⟨s, rfl, ⟨opened, waiting, pending, alone⟩, rfl, rfl, rfl, rfl⟩
  | cons e rest ih =>
      have here := quiet e List.mem_cons_self
      have free : s.1.httpParser.blocked = false := by
        rw [Connection.blocked, alone, Bool.and_false]
      have proper : ∀ x, e ≠ .malformed x := by
        rintro x rfl
        cases here
      let s' := reparse rest s.1.httpParser.following (s.1.httpParser.readAll || e.isEnd) s
      obtain ⟨t, treats, waits, same⟩ := treatEvent_quiet env (s := s') waiting here
      have handled := treatEvent_handled env e s'
      rw [after_ok treats] at handled
      obtain ⟨u, ended, idle, later⟩ := ih (s := t) (fun e' member =>
        quiet e' (List.mem_cons_of_mem e member)) (handled.closing.trans opened) waits
        handled.pending (handled.following.trans alone)
      refine ⟨u, ?_, idle, ?_⟩
      · rw [treatPending_free free, bind_ok (takeEvent_ok proper rest s), bind_ok treats]
        exact ended
      · exact Unmoved.trans ⟨same.futures, same.responses, same.responded, same.broker⟩ later

variable (env refuses) in
/-- Quiet events change nothing that a client can tell. -/
theorem step_quiet (idle : Idle s.1) {chunk : Chunk} (quiet : ∀ e ∈ chunk.events, e.Quiet)
    (alone : chunk.following = false) :
    Idle (step env refuses s (.dataReceived chunk)).1 ∧
      Unmoved s (step env refuses s (.dataReceived chunk)) := by
  have none : (s.1.httpParser.following || chunk.following) = false := by
    rw [idle.alone, alone, Bool.or_self]
  have all : s.1.httpParser.pending ++ chunk.events = chunk.events := by
    rw [idle.pending, List.nil_append]
  obtain ⟨t, treats, rests, same⟩ := treatPending_quiet env (s := received chunk s) quiet
    idle.opened idle.waiting all none
  rw [step_chunk idle.opened none, all, treats]
  exact ⟨rests, same.futures, same.responses, same.responded, same.broker⟩

variable (env) in
theorem treatEvent_asks {target : Bytes} {w : Wait} (asks : onGet target = ensureFuture w)
    (waiting : s.1.state = .waitingHeaders) (headers : Headers) :
    treatEvent env (.request (ascii "GET") target headers) s = .ok () ({ s.1 with
      method := some (ascii "GET"), target := some target, headers := some headers
      futures := s.1.futures ++ [w] }, s.2) := by
  rw [treatEvent_request waiting, if_neg (by decide), if_pos rfl, asks]
  rfl

variable (env) in
theorem treatPending_asks {target : Bytes} {headers : Headers} {w : Wait}
    (asks : onGet target = ensureFuture w) {l : List H11Event} (quiet : ∀ e ∈ l, e.Quiet)
    (opened : s.1.closing = false) (waiting : s.1.state = .waitingHeaders)
    (alone : s.1.httpParser.following = false) :
    ∃ t, treatPending env (.request (ascii "GET") target headers :: l) s = .ok () t ∧ Idle t.1 ∧
      Unmoved ({ s.1 with futures := s.1.futures ++ [w] }, s.2) t := by
  let asked : H11Event := .request (ascii "GET") target headers
  let s' := reparse l s.1.httpParser.following (s.1.httpParser.readAll || asked.isEnd) s
  let t := ({ s'.1 with
    method := some (ascii "GET"), target := some target, headers := some headers
    futures := s'.1.futures ++ [w] }, s'.2)
  have free : s.1.httpParser.blocked = false := by
    rw [Connection.blocked, alone, Bool.and_false]
  have takes : takeEvent asked l s = .ok () s' := takeEvent_ok (by simp [asked]) l s
  have treats : treatEvent env asked s' = .ok () t :=
    treatEvent_asks env (s := s') asks waiting headers
  obtain ⟨u, ended, idle, same⟩ := treatPending_quiet env (s := t) quiet opened waiting rfl alone
  refine ⟨u, ?_, idle, same.futures, same.responses, same.responded, same.broker⟩
  rw [treatPending_free free, bind_ok takes, bind_ok treats]
  exact ended

variable (env refuses) in
/-- A request for a wait creates its future. -/
theorem step_asks {target : Bytes} {headers : Headers} {w : Wait}
    (asks : onGet target = ensureFuture w) (idle : Idle s.1) {chunk : Chunk}
    {rest : List H11Event} (asked : chunk.events = .request (ascii "GET") target headers :: rest)
    (quiet : ∀ e ∈ rest, e.Quiet) (alone : chunk.following = false) :
    Idle (step env refuses s (.dataReceived chunk)).1 ∧
      Unmoved ({ s.1 with futures := s.1.futures ++ [w] }, s.2)
        (step env refuses s (.dataReceived chunk)) := by
  have none : (s.1.httpParser.following || chunk.following) = false := by
    rw [idle.alone, alone, Bool.or_self]
  have all : s.1.httpParser.pending ++ chunk.events =
      .request (ascii "GET") target headers :: rest := by
    rw [idle.pending, asked, List.nil_append]
  obtain ⟨t, treats, rests, same⟩ := treatPending_asks env (s := received chunk s)
    asks quiet idle.opened idle.waiting none
  rw [step_chunk idle.opened none, all, treats]
  exact ⟨rests, same.futures, same.responses, same.responded, same.broker⟩

/-- The response to a wait that has ended. Another exception than a timeout is not answered. -/
def statusOf : Except PyError Bool → List Nat
  | .ok true => [204]
  | .ok false => [403]
  | .error .waitTimeout => [504]
  | .error _ => []

theorem statusOf_noContent {result : Except PyError Bool} (h : 204 ∈ statusOf result) :
    result = .ok true := by
  cases result with
  | ok success =>
      cases success with
      | true => rfl
      | false => simp [statusOf] at h
  | error e => cases e <;> simp [statusOf] at h

/-- The request being received and the broker stay as they are. -/
structure Reads (s t : HttpProtocol × Broker) : Prop where
  state : t.1.state = s.1.state
  method : t.1.method = s.1.method
  broker : t.2 = s.2

theorem reads_progress : Progress Reads where
  refl := fun _ => ⟨rfl, rfl, rfl⟩
  trans := fun h k =>
    ⟨k.state.trans h.state, k.method.trans h.method, k.broker.trans h.broker⟩

theorem send_reads (r : Response) : Within Reads (send r) := by
  intro s
  unfold after send
  cases s.1.httpParser.responded <;> exact ⟨rfl, rfl, rfl⟩

theorem onGetDone_reads (result : Except PyError Bool) : Within Reads (onGetDone result) := by
  unfold onGetDone
  split
  · exact within_ite (send_reads _) (send_reads _)
  · exact send_reads _
  · exact within_raise reads_progress _

theorem onGetDone_status (silent : s.1.responses = [])
    (unanswered : s.1.httpParser.responded = false) (result : Except PyError Bool) :
    (after (onGetDone result) s).1.responses.map Response.statusCode = statusOf result := by
  have sent : ∀ r : Response, (after (send r) s).1.responses = [r] := by
    intro r
    unfold after send
    simp [unanswered, silent]
  unfold onGetDone
  cases result with
  | ok success =>
      cases success
      · exact congrArg (List.map Response.statusCode) (sent _)
      · exact congrArg (List.map Response.statusCode) (sent _)
  | error e =>
      cases e <;> first
        | exact congrArg (List.map Response.statusCode) (sent _)
        | exact congrArg (List.map Response.statusCode) silent

/-- The path of the requests for a verdict. -/
def verdictPath : Verdict → String
  | .acknowledged => "/messages-acknowledged/"
  | .notAcknowledged => "/messages-not-acknowledged/"
  | .requeued => "/messages-requeued/"

theorem onGet_verdict {k : Verdict} {target text : Bytes} {tag : Int}
    (path : startsWith target (verdictPath k) = true) (named : lastPart target = .ok text)
    (read : readTag text = .ok tag) : onGet target = ensureFuture (k.wait tag) := by
  have other : ∀ word, (ascii (verdictPath k)).isPrefixOf (ascii word) = false ∧
      (ascii word).isPrefixOf (ascii (verdictPath k)) = false →
      ¬ startsWith target word = true := by
    intro word apart
    rw [startsWith_unique (p := (verdictPath k, word)) path apart]
    simp
  have root : target ≠ ascii "/" := by
    rintro rfl
    cases k <;> exact absurd path (by decide)
  have login := other "/authentification-done-with-success-on/" (by cases k <;> decide)
  have waits : ∀ w : Int → Wait, (attempt (lastPart target) >>= fun text =>
      attempt (readTag text) >>= fun tag => ensureFuture (w tag)) = ensureFuture (w tag) := by
    intro w
    rw [named]
    show (attempt (readTag text) >>= fun tag => ensureFuture (w tag)) = _
    rw [read]
    rfl
  unfold onGet
  rw [if_neg root, if_neg login]
  cases k with
  | acknowledged => exact (if_pos path).trans (waits _)
  | notAcknowledged =>
      rw [if_neg (other "/messages-acknowledged/" (by decide))]
      exact (if_pos path).trans (waits _)
  | requeued =>
      rw [if_neg (other "/messages-acknowledged/" (by decide)),
        if_neg (other "/messages-not-acknowledged/" (by decide))]
      exact (if_pos path).trans (waits _)

end
end Http

end MockAmqp
