import MockAmqp.Operations
import MockAmqp.Posts
import MockAmqp.Wire

/-!
# Publications over HTTP

The two endpoints that publish: what a piece of a body makes them store, whether the publication
succeeds, and what is left when it does not.
-/

namespace MockAmqp
namespace Http
open Exec

/-- The endpoints for messages. -/
inductive Endpoint where
  | exchange
  | queue
  deriving DecidableEq

namespace Endpoint

def path : Endpoint → String
  | exchange => "/add-message-on/"
  | queue => "/add-message-in-queue/"

def publish (env : Env) : Endpoint → Str → Publication → OnBroker (Option Nat)
  | exchange => publishMessage env
  | queue => publishMessageInQueue

def operation : Endpoint → Str → Publication → HttpOp
  | exchange => .publishMessage
  | queue => .publishMessageInQueue

def declares (s : State) (name : Str) : Endpoint → Bool
  | exchange => s.exchanges.contains name
  | queue => s.queues.contains name

def messages (s : State) (name : Str) : Endpoint → List StoredMessage
  | exchange => s.messagesOn name
  | queue => s.messagesIn name

/-- The queue whose consumers are served, and the exchange that their deliveries name. -/
def serving (env : Env) (s : State) (name : Str) : Endpoint → Option (Str × Str)
  | exchange => (s.boundQueues env name).head?.map (·, name)
  | queue => some (name, str "dummy-exchange")

end Endpoint

/-- The destination and the message of a request. -/
def readRequest (target : Bytes) (headers : Headers) (data : Bytes) :
    Except PyError (Str × Publication) := do
  readPublication (← lastPart target) data headers

/-- The name at the end of the target. -/
def destination (target : Bytes) : Except PyError Str := do
  decodeUtf8 false (← lastPart target)

/-- Serving the queue ends in a delivery tag: every consumer there is has gone, or the first
that has not can be pushed to. -/
def CanServe (b : Broker) (queueName : Str) (pub : Publication) (exchangeName : Str) : Prop :=
  (b.state.consumersOf queueName ≠ [] ∧
      ∀ p ∈ b.state.consumersOf queueName, b.isClosing p.2.protocol = true) ∨
    ∃ p ∈ b.nextPush queueName pub exchangeName, p.delivers = true ∧ p.encodes = true

/-- The publication ends in a delivery tag. -/
def Succeeds (env : Env) (b : Broker) (endpoint : Endpoint) (name : Str) (pub : Publication) :
    Prop :=
  ∃ served ∈ endpoint.serving env b.state name, CanServe b served.1 pub served.2

section
variable {env : Env} {b : Broker} {endpoint : Endpoint} {name : Str} {pub : Publication}
variable {target data : Bytes} {headers : Headers} {queueName exchangeName : Str}

theorem onPost_message (asked : startsWith target endpoint.path = true) :
    onPost env target data headers =
      onGlobalState (addMessageResponse (endpoint.publish env) target headers data) >>= send := by
  cases endpoint with
  | exchange => exact onPost_messageOn asked
  | queue => exact onPost_messageInQueue asked

theorem addMessageResponse_apply (publish : Str → Publication → OnBroker (Option Nat)) :
    addMessageResponse publish target headers data b =
      match readRequest target headers data with
      | .error e => .error e b
      | .ok (name, pub) => match publish name pub b with
          | .ok tag t => .ok (publicationResponse tag) t
          | .error e t => .error e t := by
  unfold addMessageResponse readRequest
  cases lastPart target with
  | error e => rfl
  | ok last =>
      have joined : (do readPublication (← Except.ok last) data headers) =
          readPublication last data headers := rfl
      rw [joined, attempt_bind_ok]
      cases readPublication last data headers with
      | error e => rfl
      | ok message =>
          obtain ⟨name, pub⟩ := message
          rw [attempt_bind_ok]
          dsimp only
          rw [bind_apply]
          cases publish name pub b <;> rfl

theorem readRequest_name (read : readRequest target headers data = .ok (name, pub)) :
    destination target = .ok name := by
  unfold readRequest at read
  obtain ⟨last, parts, read⟩ := except_bind_eq_ok.mp read
  unfold readPublication at read
  obtain ⟨message, _, read⟩ := except_bind_eq_ok.mp read
  obtain ⟨decoded, decodes, read⟩ := except_bind_eq_ok.mp read
  obtain ⟨_, _, read⟩ := except_bind_eq_ok.mp read
  obtain ⟨_, _, read⟩ := except_bind_eq_ok.mp read
  obtain ⟨_, _, read⟩ := except_bind_eq_ok.mp read
  cases read
  unfold destination
  rw [parts]
  exact decodes

/-! ## Whether a publication succeeds -/

theorem push_sent_iff (p : Push) (t : Transport) :
    (∃ t', p.send t = .ok () t') ↔ p.delivers = true ∧ p.encodes = true := by
  rw [p.send_eq]
  cases delivers : p.delivers with
  | false =>
      obtain ⟨e, failed⟩ := Push.deliver_whole.2 delivers
      simp [failed]
  | true =>
      obtain ⟨deliver, _, sent⟩ := Push.deliver_whole.1 delivers
      have small := Push.delivers_channel delivers
      rw [bind_ok (sent t)]
      cases encodes : p.encodes with
      | true =>
          obtain ⟨header, body, _, _, whole⟩ := Push.content_whole small encodes
          simp [whole]
      | false =>
          obtain ⟨cut, ⟨e, failed⟩, _⟩ := Push.content_cut small encodes
          simp [failed]

variable (b pub queueName exchangeName) in
/-- Serving a queue returns a tag exactly if it can. -/
theorem serveQueue_tag_iff :
    (∃ tag t, serveQueue queueName pub exchangeName b = .ok (some tag) t) ↔
      CanServe b queueName pub exchangeName := by
  cases hq : b.state.queues.get? queueName with
  | none =>
      have nobody : b.state.consumersOf queueName = [] := by simp only [State.consumersOf, hq]
      have table : getConsumers queueName b = .error .keyError b := by simp only [getConsumers, hq]
      have raised : serveQueue queueName pub exchangeName b = .error .keyError b := by
        simp only [serveQueue, bind_apply, table]
      have dead : b.nextPush queueName pub exchangeName = none :=
        Broker.nextPush_dead (by simp [nobody])
      simp [raised, CanServe, nobody, dead]
  | some q =>
      have here := State.consumersOf_eq hq
      have served : Serves b queueName pub exchangeName q.consumers.entries _ :=
        serveQueue_serves hq
      unfold CanServe
      rw [here]
      generalize serveQueue queueName pub exchangeName b = r at served
      have someLive : ∀ {dead rest p}, q.consumers.entries = dead ++ p :: rest →
          b.isClosing p.2.protocol = false →
          ¬ ∀ p ∈ q.consumers.entries, b.isClosing p.2.protocol = true := by
        intro dead rest p split live all
        have closed := all p (by simp [split])
        rw [live] at closed
        cases closed
      cases served with
      | nobody closing =>
          have dead : b.nextPush queueName pub exchangeName = none :=
            Broker.nextPush_dead (by rw [here]; exact closing)
          rw [dead]
          cases entries : q.consumers.entries with
          | nil => simp [Broker.lastTag]
          | cons p rest =>
              rw [entries] at closing
              refine iff_of_true ⟨_, _, rfl⟩ (.inl ⟨List.cons_ne_nil p rest, closing⟩)
      | unencoded split closing live failed =>
          have dead : b.nextPush queueName pub exchangeName = none := by
            rw [Broker.nextPush_live (here.trans split) closing live, failed]
          rw [dead]
          refine iff_of_false (by simp) ?_
          rintro (⟨_, all⟩ | ⟨p, no, _⟩)
          · exact someLive split live all
          · cases no
      | pushed split closing live payload sent =>
          rw [Broker.nextPush_live (here.trans split) closing live, payload]
          exact iff_of_true ⟨_, _, rfl⟩ (.inr ⟨_, rfl, (push_sent_iff _ _).mp ⟨_, sent⟩⟩)
      | unsent split closing live payload failed =>
          rw [Broker.nextPush_live (here.trans split) closing live, payload]
          refine iff_of_false (by simp) ?_
          rintro (⟨_, all⟩ | ⟨p, made, sendable⟩)
          · exact someLive split live all
          · cases made
            obtain ⟨t', sent⟩ := (push_sent_iff _ _).mpr sendable
            rw [failed] at sent
            cases sent

/-- What is asked of a queue does not depend on the messages that are stored. -/
theorem canServe_congr {s : State} (same : s.consumersOf queueName = b.state.consumersOf queueName) :
    CanServe { b with state := s } queueName pub exchangeName ↔
      CanServe b queueName pub exchangeName := by
  unfold CanServe Broker.nextPush Broker.isClosing
  rw [same]

/-- A publication to a declared destination returns a tag exactly if it succeeds. -/
theorem publish_tag_iff (declared : endpoint.declares b.state name = true) :
    (∃ tag t, endpoint.publish env name pub b = .ok (some tag) t) ↔
      Succeeds env b endpoint name pub := by
  cases endpoint with
  | exchange =>
      obtain ⟨e, he⟩ := Option.isSome_iff_exists.mp declared
      have start : Endpoint.exchange.publish env name pub b = _ := publishMessage_declared he
      rw [start]
      unfold Succeeds Endpoint.serving
      cases b.state.boundQueues env name with
      | nil => simp [serveBoundQueues]
      | cons queueName rest =>
          have same : (b.state.setExchange name
              { e with messages := e.messages ++ [pub.stored] }).consumersOf queueName =
              b.state.consumersOf queueName := State.consumersOf_setExchange _ _ _ _
          have served := (serveQueue_tag_iff _ pub queueName name).trans (canServe_congr same)
          simpa [serveBoundQueues] using served
  | queue =>
      obtain ⟨q, hq⟩ := Option.isSome_iff_exists.mp declared
      have start : Endpoint.queue.publish env name pub b = _ := publishMessageInQueue_declared hq
      have same : (b.state.setQueue name
          { q with messages := q.messages ++ [pub.stored] }).consumersOf name =
          b.state.consumersOf name := by
        rw [State.consumersOf_setQueue, if_pos rfl, State.consumersOf_eq hq]
      have served := (serveQueue_tag_iff _ pub name (str "dummy-exchange")).trans
        (canServe_congr same)
      rw [start, served]
      simp [Succeeds, Endpoint.serving]

theorem publish_undeclared (undeclared : endpoint.declares b.state name = false) :
    endpoint.publish env name pub b = .ok none b := by
  cases endpoint with
  | exchange => exact publishMessage_undeclared undeclared
  | queue => exact publishMessageInQueue_undeclared undeclared

/-! ## What a publication stores -/

/-- The messages of a declared destination after a publication, and of every other place. -/
theorem publish_messages (declared : endpoint.declares b.state name = true) :
    endpoint.messages (after (endpoint.publish env name pub) b).state name =
      endpoint.messages b.state name ++ [pub.stored] := by
  cases endpoint with
  | exchange =>
      have effect := (effect_publishMessage env b name pub).messagesOn name
      refine effect.trans ?_
      have here : b.state.exchanges.contains name = true := declared
      simp [Operation.purgesExchange, Operation.forExchange, State.names, State.declared, here,
        Endpoint.messages]
  | queue =>
      have effect := (effect_publishMessageInQueue b name pub).messagesIn name
      refine effect.trans ?_
      have here : b.state.queues.contains name = true := declared
      simp [Operation.purgesQueue, Operation.forQueue, State.names, State.declared, here,
        Endpoint.messages]

theorem publish_declares : endpoint.declares (after (endpoint.publish env name pub) b).state name =
    endpoint.declares b.state name := by
  cases endpoint with
  | exchange => exact (publishMessage_after env b).1.names.exchanges name
  | queue => exact (publishMessageInQueue_after b).1.names.queues name

/-- The message that a piece of a body makes its destination store. -/
def storedBy (target : Bytes) (headers : Headers) (data : Bytes) : List StoredMessage :=
  match readRequest target headers data with
  | .ok (_, pub) => [pub.stored]
  | .error _ => []

/-- The posting of a piece, on an endpoint. -/
abbrev Endpoint.post (env : Env) (endpoint : Endpoint) (target : Bytes) (headers : Headers) :
    Bytes → OnBroker Response :=
  addMessageResponse (endpoint.publish env) target headers

theorem post_unread {e : PyError} (unread : readRequest target headers data = .error e) :
    endpoint.post env target headers data b = .error e b := by
  rw [Endpoint.post, addMessageResponse_apply, unread]

theorem after_post (read : readRequest target headers data = .ok (name, pub)) :
    after (endpoint.post env target headers data) b = after (endpoint.publish env name pub) b := by
  unfold after
  rw [Endpoint.post, addMessageResponse_apply, read]
  dsimp only
  cases endpoint.publish env name pub b <;> rfl

theorem posted_messages (named : destination target = .ok name)
    (declared : endpoint.declares b.state name = true) (pieces : List Bytes) :
    endpoint.messages (posted (endpoint.post env target headers) b pieces).state name =
      endpoint.messages b.state name ++ pieces.flatMap (storedBy target headers) := by
  induction pieces generalizing b with
  | nil => simp [posted]
  | cons piece rest ih =>
      have moved : posted (endpoint.post env target headers) b (piece :: rest) =
          posted (endpoint.post env target headers)
            (after (endpoint.post env target headers piece) b) rest := rfl
      rw [moved, List.flatMap_cons]
      cases read : readRequest target headers piece with
      | error e =>
          rw [after_error (post_unread read), ih declared, storedBy, read, List.nil_append]
      | ok message =>
          obtain ⟨name', pub⟩ := message
          have same := named.symm.trans (readRequest_name read)
          cases same
          rw [after_post read, ih (publish_declares.trans declared), publish_messages declared,
            storedBy, read, List.append_assoc]

/-- Without its destination, or without a piece that can be read, a POST leaves the broker
alone. -/
theorem posted_idle (pieces : List Bytes)
    (idle : ∀ piece ∈ pieces, ∀ name pub, readRequest target headers piece = .ok (name, pub) →
      endpoint.declares b.state name = false) :
    posted (endpoint.post env target headers) b pieces = b := by
  induction pieces with
  | nil => rfl
  | cons piece rest ih =>
      have moved : posted (endpoint.post env target headers) b (piece :: rest) =
          posted (endpoint.post env target headers)
            (after (endpoint.post env target headers piece) b) rest := rfl
      have still : after (endpoint.post env target headers piece) b = b := by
        cases read : readRequest target headers piece with
        | error e => exact after_error (post_unread read)
        | ok message =>
            obtain ⟨name, pub⟩ := message
            rw [after_post read,
              after_ok (publish_undeclared (idle piece List.mem_cons_self name pub read))]
      rw [moved, still]
      exact ih fun p mem => idle p (List.mem_cons_of_mem piece mem)

/-! ## Failed publications -/

/-- A request that is answered 404 or 500 has stored nothing and written nothing to a consumer. -/
def FailsCleanly (b : Broker) (s : HttpProtocol × Broker) : Prop :=
  (∃ r ∈ s.1.responses, r.statusCode = 404 ∨ r.statusCode = 500) →
    (∀ e, s.2.state.messagesOn e = b.state.messagesOn e) ∧
      (∀ q, s.2.state.messagesIn q = b.state.messagesIn q) ∧
      ∀ c, (s.2.trackers c).transport.written = (b.trackers c).transport.written

theorem failsCleanly_of_same {s : HttpProtocol × Broker} (same : s.2 = b) : FailsCleanly b s := by
  intro _
  rw [same]
  exact ⟨fun _ => rfl, fun _ => rfl, fun _ => rfl⟩

theorem FailsCleanly.messages {s : HttpProtocol × Broker} (clean : FailsCleanly b s)
    (failed : ∃ r ∈ s.1.responses, r.statusCode = 404 ∨ r.statusCode = 500)
    (endpoint : Endpoint) (name : Str) :
    endpoint.messages s.2.state name = endpoint.messages b.state name := by
  cases endpoint with
  | exchange => exact (clean failed).1 name
  | queue => exact (clean failed).2.1 name

variable (env) in
/-- The posting of a message that can be read, for a declared destination. -/
theorem post_cases (read : readRequest target headers data = .ok (name, pub))
    (declared : endpoint.declares b.state name = true) :
    (Succeeds env b endpoint name pub ∧
        ∃ tag t, endpoint.post env target headers data b = .ok (okText (decimal tag)) t) ∨
      ¬ Succeeds env b endpoint name pub ∧
        ((∃ t, endpoint.post env target headers data b = .ok notFound t) ∨
          ∃ e t, endpoint.post env target headers data b = .error e t) := by
  have tagged : (∃ tag t, endpoint.publish env name pub b = .ok (some tag) t) ↔
      Succeeds env b endpoint name pub := publish_tag_iff declared
  rw [Endpoint.post, addMessageResponse_apply, read]
  dsimp only
  cases published : endpoint.publish env name pub b with
  | error e t =>
      refine .inr ⟨fun succeeds => ?_, .inr ⟨e, t, rfl⟩⟩
      obtain ⟨tag, t', returned⟩ := tagged.mpr succeeds
      rw [published] at returned
      cases returned
  | ok tag t =>
      cases tag with
      | some tag => exact .inl ⟨tagged.mp ⟨tag, t, published⟩, tag, t, rfl⟩
      | none =>
          refine .inr ⟨fun succeeds => ?_, .inl ⟨t, rfl⟩⟩
          obtain ⟨tag, t', returned⟩ := tagged.mpr succeeds
          rw [published] at returned
          cases returned

variable {actions : List Action} {pieces : List Bytes}

/-- A POST to one of the endpoints fails cleanly exactly if its first piece cannot be read as a
message, its destination is not declared, or its publication succeeds. -/
theorem fails_cleanly_iff (env : Env) (refuses : Option PyError) (b : Broker)
    (endpoint : Endpoint) (asked : startsWith target endpoint.path = true)
    (carries : Carries actions (ascii "POST") target headers pieces) :
    FailsCleanly b (Runs.run (step env refuses) (HttpProtocol.init, b) actions) ↔
      ∀ first ∈ pieces.head?, ∀ name pub,
        readRequest target headers first = .ok (name, pub) →
          endpoint.declares b.state name = true → Succeeds env b endpoint name pub := by
  cases pieces with
  | nil =>
      have silent := post_without_body env refuses b carries
      refine iff_of_true ?_ (by simp)
      rintro ⟨r, mem, _⟩
      rw [silent] at mem
      cases mem
  | cons first later =>
      obtain ⟨done, _, broker, outcome⟩ := post_session refuses (fun p => onPost_message asked) b
        carries
      generalize Runs.run (step env refuses) (HttpProtocol.init, b) actions = s at *
      simp only [List.head?_cons, Option.mem_some_iff, forall_eq']
      constructor
      · intro clean name pub read declared
        by_contra fails
        have failed : ∃ r ∈ s.1.responses, r.statusCode = 404 ∨ r.statusCode = 500 := by
          rcases outcome with ⟨r, t, returned, responses⟩ | ⟨e, t, r, _, _, error, responses⟩
          · rcases post_cases env read declared with ⟨yes, _⟩ | ⟨_, ⟨t', none⟩ | ⟨e, t', raised⟩⟩
            · exact absurd yes fails
            · cases none.symm.trans returned
              exact ⟨notFound, by simp [responses], .inl rfl⟩
            · cases raised.symm.trans returned
          · exact ⟨r, by simp [responses], .inr error⟩
        have kept := clean.messages failed endpoint name
        rw [broker, posted_messages (readRequest_name read) declared, List.flatMap_cons, storedBy,
          read] at kept
        have length := congrArg List.length kept
        simp at length
      · intro condition
        cases read : readRequest target headers first with
        | error e =>
            rcases outcome with ⟨r, t, returned, _⟩ | ⟨e, t, r, raised, rfl, _⟩
            · cases (post_unread read).symm.trans returned
            · refine failsCleanly_of_same (broker.trans (posted_idle _ ?_))
              intro piece mem name pub read'
              cases List.mem_singleton.mp mem
              cases read.symm.trans read'
        | ok message =>
            obtain ⟨name, pub⟩ := message
            cases declared : endpoint.declares b.state name with
            | false =>
                refine failsCleanly_of_same (broker.trans (posted_idle _ ?_))
                intro piece _ name' pub' read'
                cases (readRequest_name read).symm.trans (readRequest_name read')
                exact declared
            | true =>
                have succeeds := condition name pub read declared
                rcases post_cases env read declared with ⟨_, tag, t, returned⟩ | ⟨fails, _⟩
                · rcases outcome with ⟨r, t', answered, responses⟩ | ⟨e, t', r, raised, _⟩
                  · cases returned.symm.trans answered
                    rintro ⟨r, mem, status⟩
                    rw [responses] at mem
                    cases List.mem_singleton.mp mem
                    revert status
                    simp [okText]
                  · cases returned.symm.trans raised
                · exact absurd succeeds fails

end

def octetStream : Headers := [(ascii "content-type", ascii "application/octet-stream")]

/-- Two bytes for queue `q`. -/
def postHi : List Action :=
  [arrival (whole (ascii "POST") (ascii "/add-message-in-queue/q") octetStream [ascii "hi"])]

theorem postHi_carries :
    Carries postHi (ascii "POST") (ascii "/add-message-in-queue/q") octetStream [ascii "hi"] where
  events := by
    rw [postHi, arrival, incoming, incoming, List.append_nil]
    rfl
  alone := by simp [Alone, postHi, arrival]

/-- Without the queue nothing is stored. -/
theorem stray_message_fails_cleanly :
    FailsCleanly (session []).broker
      (Runs.run (step guestEnv none) (HttpProtocol.init, (session []).broker) postHi) := by
  refine (fails_cleanly_iff guestEnv none (session []).broker .queue (by decide)
    postHi_carries).mpr ?_
  intro first _ name pub read declared
  have named : destination (ascii "/add-message-in-queue/q") = .ok (str "q") := by
    decide +kernel
  have undeclared : Endpoint.queue.declares (session []).broker.state (str "q") = false := by
    decide +kernel
  cases (readRequest_name read).symm.trans named
  rw [undeclared] at declared
  cases declared

/-- The message stays in a queue that has no consumer, although the answer is 404. -/
theorem unserved_message_stays :
    let b := (session [.http (.declareQueue (str "q"))]).broker
    Reachable guestEnv b ∧ Carries postHi (ascii "POST") (ascii "/add-message-in-queue/q") octetStream
      [ascii "hi"] ∧ ¬ FailsCleanly b
      (Runs.run (step guestEnv none) (HttpProtocol.init, b) postHi) := by
  refine ⟨session_reachable _, postHi_carries, fun clean => ?_⟩
  have failed : ∃ r ∈ (Runs.run (step guestEnv none) (HttpProtocol.init,
      (session [.http (.declareQueue (str "q"))]).broker) postHi).1.responses,
      r.statusCode = 404 ∨ r.statusCode = 500 := by
    decide +kernel
  have kept := congrArg List.length ((clean failed).2.1 (str "q"))
  have grown : ((Runs.run (step guestEnv none) (HttpProtocol.init,
      (session [.http (.declareQueue (str "q"))]).broker) postHi).2.state.messagesIn
        (str "q")).length ≠
      ((session [.http (.declareQueue (str "q"))]).broker.state.messagesIn (str "q")).length := by
    decide +kernel
  exact grown kept

end Http
end MockAmqp
