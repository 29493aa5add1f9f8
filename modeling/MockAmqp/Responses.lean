import MockAmqp.Sessions

/-!
# One response for a request

A request is answered when its headers arrive, when the first piece of its body does, or when
the future it waits for finishes. Some requests reach none of these.
-/

namespace MockAmqp
namespace Http
open Exec

/-- The actions bring one whole request, cut in any way, and the ends of its waits. -/
structure Carries (actions : List Action) (method target : Bytes) (headers : Headers)
    (pieces : List Bytes) : Prop where
  events : incoming actions =
    .request method target headers :: (pieces.map .data ++ [.endOfMessage])
  alone : Alone actions

/-- There is a response, or there will be one when the first future finishes. -/
def Settled (s : HttpProtocol × Broker) : Prop :=
  s.1.httpParser.responded = true ∨ s.1.futures ≠ []

section
variable {env : Env} {refuses : Option PyError} {s t : HttpProtocol × Broker}

theorem send_settles (r : Response) : Returning Settled (send r) := by
  intro s u t sent
  unfold send at sent
  split at sent
  · cases sent
  · cases sent
    exact .inl rfl

theorem sendHttpResponseOk_settles (b : Body) : Returning Settled (sendHttpResponseOk b) := by
  cases b <;> exact send_settles _

theorem ensureFuture_settles (w : Wait) : Returning Settled (ensureFuture w) := by
  intro s u t waited
  cases waited
  exact .inr (by simp)

theorem sendMessages_settles (messages : Option (List Val)) :
    Returning Settled (sendMessages messages) := by
  cases messages with
  | none => exact send_settles _
  | some messages => exact returning_ite (sendHttpResponseOk_settles _) (returning_raise _)

theorem onGet_settles (target : Bytes) : Returning Settled (onGet target) := by
  have future : ∀ {α : Type} {x : OnHttp α} {w : α → Wait},
      Returning Settled (x >>= fun a => ensureFuture (w a)) :=
    returning_bind fun _ => ensureFuture_settles _
  unfold onGet
  apply returning_ite
  · apply returning_bind
    intro state
    exact returning_ite (send_settles _) (returning_raise _)
  apply returning_ite future
  apply returning_ite (returning_bind fun _ => future)
  apply returning_ite (returning_bind fun _ => future)
  apply returning_ite (returning_bind fun _ => future)
  apply returning_ite
  · exact returning_bind fun _ => returning_bind fun _ => returning_bind fun _ =>
      returning_bind fun _ => sendMessages_settles _
  apply returning_ite
  · exact returning_bind fun _ => returning_bind fun _ => returning_bind fun _ =>
      returning_bind fun _ => sendMessages_settles _
  apply returning_ite
  · split
    · exact returning_bind fun _ => future
    · exact returning_raise _
  exact send_settles _

theorem addMessage_settles (publish : Str → Publication → OnBroker (Option Nat))
    (target data : Bytes) (headers : Headers) :
    Returning Settled (addMessage publish target data headers) := by
  apply returning_bind
  intro name
  apply returning_bind
  intro message
  apply returning_bind
  intro deliveryTag
  cases deliveryTag with
  | none => exact send_settles _
  | some deliveryTag => exact sendHttpResponseOk_settles _

theorem onPost_settles (target data : Bytes) (headers : Headers) :
    Returning Settled (onPost env target data headers) := by
  have ok : ∀ {α : Type} {x : OnHttp α} {b : Body},
      Returning Settled (x >>= fun _ => sendHttpResponseOk b) :=
    returning_bind fun _ => sendHttpResponseOk_settles _
  unfold onPost
  apply returning_ite (addMessage_settles _ _ _ _)
  apply returning_ite (addMessage_settles _ _ _ _)
  apply returning_ite
  · exact returning_bind fun _ => returning_bind fun _ => returning_bind fun _ =>
      returning_bind fun _ => ok
  apply returning_ite
  · exact returning_bind fun _ => returning_bind fun _ => ok
  exact send_settles _

theorem onDelete_settles (target : Bytes) : Returning Settled (onDelete target) := by
  have done : ∀ {α : Type} {x : OnHttp α},
      Returning Settled (x >>= fun _ => sendHttpResponseNoContent) :=
    returning_bind fun _ => send_settles _
  unfold onDelete
  apply returning_ite
  · exact returning_bind fun _ => returning_bind fun _ => done
  apply returning_ite
  · exact returning_bind fun _ => returning_bind fun _ => done
  exact send_settles _

theorem failed_responded (s : HttpProtocol × Broker) :
    (failed s).1.httpParser.responded = true := by
  cases answered : s.1.httpParser.responded with
  | true => rwa [failed_answered answered]
  | false =>
      obtain ⟨r, _, same⟩ := failed_unanswered answered
      rw [same]

/-- What has been settled stays so. -/
theorem Settled.handled {h : HttpProtocol} (settled : Settled s) (handled : Handled s.1 h)
    (b : Broker) : Settled (h, b) := by
  rcases settled with answered | waits
  · exact .inl (handled.responded answered)
  · refine .inr fun none => waits ?_
    have futures := handled.futures
    rw [none] at futures
    exact List.prefix_nil.mp futures

/-! ## The events of a request -/

variable {method target : Bytes} {headers : Headers} {pieces : List Bytes}

/-- What `h11` finds in a whole request. -/
def whole (method target : Bytes) (headers : Headers) (pieces : List Bytes) : List H11Event :=
  .request method target headers :: (pieces.map .data ++ [.endOfMessage])

theorem whole_proper {x : PyError} {left : List H11Event}
    (rest : (.malformed x :: left) <:+ whole method target headers pieces) : False := by
  have mem := rest.subset List.mem_cons_self
  simp [whole] at mem

theorem treatEvent_request (waiting : s.1.state = .waitingHeaders) :
    treatEvent env (.request method target headers) s = (
      if method = ascii "MOCK_FLUSH" then do
        onGlobalState (updateState (State.reset env))
        sendHttpResponseNoContent
      else if method = ascii "GET" then onGet target
      else if method = ascii "DELETE" then onDelete target
      else if method = ascii "POST" ∨ method = ascii "PUT" then
        updateProtocol fun h => { h with state := .waitingBody }
      else pure () : OnHttp Unit)
      ({ s.1 with method := some method, target := some target, headers := some headers }, s.2) := by
  simp only [treatEvent, bind_apply, read_apply, if_pos waiting, updateProtocol, update_apply]

/-- A method that is answered without a body. -/
def AtOnce (method : Bytes) : Prop :=
  method = ascii "MOCK_FLUSH" ∨ method = ascii "GET" ∨ method = ascii "DELETE"

/-- A method that is answered when the first piece of the body arrives. -/
def WithBody (method : Bytes) : Prop := method = ascii "POST" ∨ method = ascii "PUT"

theorem request_settles (waiting : s.1.state = .waitingHeaders) (now : AtOnce method)
    (treated : treatEvent env (.request method target headers) s = .ok () t) : Settled t := by
  rw [treatEvent_request waiting] at treated
  rcases now with rfl | rfl | rfl
  · rw [if_pos rfl] at treated
    exact returning_bind (fun _ => send_settles _) _ _ _ treated
  · rw [if_neg (by decide), if_pos rfl] at treated
    exact onGet_settles _ _ _ _ treated
  · rw [if_neg (by decide), if_neg (by decide), if_pos rfl] at treated
    exact onDelete_settles _ _ _ _ treated

theorem treatEvent_withBody (waiting : s.1.state = .waitingHeaders) (body : WithBody method) :
    treatEvent env (.request method target headers) s = .ok () ({ s.1 with
      method := some method, target := some target, headers := some headers
      state := .waitingBody }, s.2) := by
  have either : method = ascii "POST" ∨ method = ascii "PUT" := body
  rw [treatEvent_request waiting, if_neg, if_neg, if_neg, if_pos either]
  · rfl
  · rcases body with rfl | rfl <;> decide
  · rcases body with rfl | rfl <;> decide
  · rcases body with rfl | rfl <;> decide

theorem treatEvent_unknown (waiting : s.1.state = .waitingHeaders) (later : ¬ AtOnce method)
    (none : ¬ WithBody method) : treatEvent env (.request method target headers) s =
      .ok () ({ s.1 with
        method := some method, target := some target, headers := some headers }, s.2) := by
  have neither : ¬ (method = ascii "POST" ∨ method = ascii "PUT") := none
  unfold AtOnce at later
  push Not at later
  rw [treatEvent_request waiting, if_neg later.1, if_neg later.2.1, if_neg later.2.2, if_neg neither]
  rfl

theorem treatEvent_ignores (waiting : s.1.state = .waitingHeaders) (piece : Bytes) :
    treatEvent env (.data piece) s = .ok () s := by
  have other : ¬ s.1.state = .waitingBody := by rw [waiting]; decide
  simp only [treatEvent, bind_apply, read_apply, if_neg other, pure_apply]

theorem treatEvent_data (waiting : s.1.state = .waitingBody) (asked : s.1.target = some target)
    (described : s.1.headers = some headers) (piece : Bytes) :
    treatEvent env (.data piece) s =
      (if s.1.method = some (ascii "POST") then onPost env target piece headers
      else if s.1.method = some (ascii "PUT") then onPut target piece
      else pure ()) s := by
  simp only [treatEvent, bind_apply, read_apply, if_pos waiting, asked, described]

/-- The first piece of a body is what answers the request. -/
theorem piece_settles (waiting : s.1.state = .waitingBody) (asked : s.1.target = some target)
    (described : s.1.headers = some headers) (used : s.1.method = some method)
    (body : WithBody method) {piece : Bytes}
    (treated : treatEvent env (.data piece) s = .ok () t) : Settled t := by
  rw [treatEvent_data waiting asked described] at treated
  rcases body with rfl | rfl
  · rw [if_pos used] at treated
    exact onPost_settles _ _ _ _ _ _ treated
  · rw [if_neg (by rw [used]; decide), if_pos used] at treated
    exact send_settles _ _ _ _ treated

/-- A finished wait leaves an answered request. -/
theorem send_responded (r : Response) (s : HttpProtocol × Broker) :
    (after (send r) s).1.httpParser.responded = true := by
  unfold after send
  cases answered : s.1.httpParser.responded with
  | true => simpa using answered
  | false => simp

theorem getDone_responded {result : Except PyError Bool} (finished : Finished result)
    (s : HttpProtocol × Broker) : (after (onGetDone result) s).1.httpParser.responded = true := by
  cases result with
  | ok success =>
      unfold onGetDone
      cases success
      · exact send_responded _ s
      · exact send_responded _ s
  | error e =>
      cases finished
      exact send_responded _ s

/-! ## Requests that are answered -/

/-- The methods and bodies of the requests that are answered. -/
def Answered (method : Bytes) (pieces : List Bytes) : Prop :=
  AtOnce method ∨ WithBody method ∧ pieces ≠ []

/-- A request has been settled, or what settles it is still to come. -/
def OnTheWay (method target : Bytes) (headers : Headers) (pieces : List Bytes) (f : Bool)
    (left : List H11Event) (s : HttpProtocol × Broker) : Prop :=
  (f = false → s.1.closing = false) ∧ left <:+ whole method target headers pieces ∧
    (Settled s ∨ f = false ∧
      (s.1.state = .waitingHeaders ∧ left = whole method target headers pieces ∨
        s.1.state = .waitingBody ∧ s.1.method = some method ∧ s.1.target = some target ∧
          s.1.headers = some headers ∧ WithBody method ∧ ∃ piece rest, left = .data piece :: rest))

theorem onTheWay_tracks (answered : Answered method pieces) :
    Tracks env (OnTheWay method target headers pieces) where
  parsed := fun p more all holds => holds
  proper := fun _ holds => whole_proper holds.2.1
  opened := fun holds => holds.1 rfl
  done := by
    intro f left s w rest result holds futures finished
    have handled := (onGetDone_handled result ({ s.1 with futures := rest }, s.2)).1
    exact ⟨fun first => handled.closing.trans (holds.1 first), holds.2.1,
      .inl (.inl (getDone_responded finished _))⟩
  treat := by
    intro f e left s _ holds
    obtain ⟨opened, sofar, progress⟩ := holds
    have remains : left <:+ whole method target headers pieces :=
      (List.suffix_cons e left).trans sofar
    have handled := treatEvent_handled env e s
    cases result : treatEvent env e s with
    | error x t => exact ⟨fun no => (by cases no), remains, .inl (.inl (failed_responded t))⟩
    | ok u t =>
        rw [after_ok result] at handled
        refine ⟨fun first => handled.closing.trans (opened first), remains, ?_⟩
        rcases progress with settled | ⟨first, ⟨waiting, all⟩ |
          ⟨waiting, used, asked, described, body, p, rest, next⟩⟩
        · exact .inl (settled.handled handled t.2)
        · cases all
          rcases answered with now | ⟨body, nonempty⟩
          · exact .inl (request_settles waiting now result)
          · obtain ⟨p, ps, rfl⟩ := List.exists_cons_of_ne_nil nonempty
            rw [treatEvent_withBody waiting body] at result
            cases result
            exact .inr ⟨first, .inr ⟨rfl, rfl, rfl, rfl, body, p, _, rfl⟩⟩
        · cases next
          exact .inl (piece_settles waiting asked described used body result)

/-! ## Requests that are not -/

/-- Nothing has answered the request, and nothing that is still to come will. -/
def Unheard (method target : Bytes) (headers : Headers) (pieces : List Bytes) (f : Bool)
    (left : List H11Event) (s : HttpProtocol × Broker) : Prop :=
  f = false ∧ s.1.closing = false ∧ s.1.httpParser.responded = false ∧ s.1.futures = [] ∧
    left <:+ whole method target headers pieces ∧
    (s.1.state = .waitingHeaders ∨ pieces = [] ∧ left ≠ whole method target headers pieces)

theorem unheard_tracks (unanswered : ¬ Answered method pieces) :
    Tracks env (Unheard method target headers pieces) where
  parsed := fun p more all holds => holds
  proper := fun _ holds => whole_proper holds.2.2.2.2.1
  opened := fun holds => holds.2.1
  done := by
    intro f left s w rest result holds futures finished
    rw [holds.2.2.2.1] at futures
    cases futures
  treat := by
    intro f e left s _ holds
    obtain ⟨first, opened, silent, idle, sofar, waiting⟩ := holds
    have remains : left <:+ whole method target headers pieces :=
      (List.suffix_cons e left).trans sofar
    have shorter : left ≠ whole method target headers pieces := by
      intro all
      have length := sofar.length_le
      rw [all, List.length_cons] at length
      omega
    have quiet : ¬ AtOnce method ∧ (WithBody method → pieces = []) := by
      constructor
      · exact fun now => unanswered (.inl now)
      · exact fun body => of_not_not fun nonempty => unanswered (.inr ⟨body, nonempty⟩)
    cases e with
    | malformed x => exact (whole_proper sofar).elim
    | endOfMessage => exact ⟨first, opened, silent, idle, remains, .inl rfl⟩
    | data piece =>
        have waits : s.1.state = .waitingHeaders := by
          rcases waiting with waits | ⟨rfl, _⟩
          · exact waits
          · have mem := sofar.subset List.mem_cons_self
            simp [whole] at mem
        rw [treatEvent_ignores waits piece]
        exact ⟨first, opened, silent, idle, remains, .inl waits⟩
    | request m t hs =>
        rcases List.suffix_cons_iff.mp sofar with all | inside
        · cases all
          have waits : s.1.state = .waitingHeaders := by
            rcases waiting with waits | ⟨_, no⟩
            · exact waits
            · exact absurd rfl no
          by_cases body : WithBody method
          · rw [treatEvent_withBody waits body]
            exact ⟨first, opened, silent, idle, remains, .inr ⟨quiet.2 body, shorter⟩⟩
          · rw [treatEvent_unknown waits quiet.1 body]
            exact ⟨first, opened, silent, idle, remains, .inl waits⟩
        · have mem := inside.subset List.mem_cons_self
          simp at mem

/-! ## Sessions that bring one request -/

variable {actions : List Action}

variable (env refuses) in
theorem session_settles (b : Broker) (carries : Carries actions method target headers pieces)
    (answered : Answered method pieces) :
    Settled (Runs.run (step env refuses) (HttpProtocol.init, b) actions) := by
  have events : incoming actions = whole method target headers pieces := carries.events
  have start : Stands (OnTheWay method target headers pieces) (incoming actions)
      (HttpProtocol.init, b) :=
    ⟨rfl, .inl ⟨rfl, fun _ => rfl, by rw [events], .inr ⟨rfl, .inl ⟨rfl, events⟩⟩⟩⟩
  have tracks : Tracks env (OnTheWay method target headers pieces) := onTheWay_tracks answered
  rcases tracks.session refuses carries.alone start with holds | ⟨left, holds⟩
  · rcases holds.2.2 with settled | ⟨_, ⟨_, all⟩ | ⟨_, _, _, _, _, p, rest, next⟩⟩
    · exact settled
    · cases all
    · cases next
  · rcases holds.2.2 with settled | ⟨first, _⟩
    · exact settled
    · cases first

variable (env refuses) in
theorem session_unheard (b : Broker) (carries : Carries actions method target headers pieces)
    (unanswered : ¬ Answered method pieces) :
    (Runs.run (step env refuses) (HttpProtocol.init, b) actions).1.httpParser.responded = false := by
  have events : incoming actions = whole method target headers pieces := carries.events
  have start : Stands (Unheard method target headers pieces) (incoming actions)
      (HttpProtocol.init, b) :=
    ⟨rfl, .inl ⟨rfl, rfl, rfl, rfl, rfl, by rw [events], .inl rfl⟩⟩
  have tracks : Tracks env (Unheard method target headers pieces) := unheard_tracks unanswered
  rcases tracks.session refuses carries.alone start with holds | ⟨left, holds⟩
  · exact holds.2.2.1
  · cases holds.1

/-- A whole request, with every wait it starts finished, gets one response exactly if its method
is answered at once or it has a body. -/
theorem answered_once_iff (env : Env) (refuses : Option PyError) (b : Broker)
    (carries : Carries actions method target headers pieces)
    (finished : (Runs.run (step env refuses) (HttpProtocol.init, b) actions).1.futures = []) :
    (Runs.run (step env refuses) (HttpProtocol.init, b) actions).1.responses.length = 1 ↔
      method = ascii "MOCK_FLUSH" ∨ method = ascii "GET" ∨ method = ascii "DELETE" ∨
        (method = ascii "POST" ∨ method = ascii "PUT") ∧ pieces ≠ [] := by
  have condition : Answered method pieces ↔ method = ascii "MOCK_FLUSH" ∨ method = ascii "GET" ∨
      method = ascii "DELETE" ∨ (method = ascii "POST" ∨ method = ascii "PUT") ∧ pieces ≠ [] := by
    unfold Answered AtOnce WithBody
    tauto
  rw [← condition]
  have counted := (run_proceeds env refuses (HttpProtocol.init, b) actions).1
  have settles := session_settles env refuses b carries
  have unheard := session_unheard env refuses b carries
  generalize Runs.run (step env refuses) (HttpProtocol.init, b) actions = s at *
  constructor
  · intro one
    by_contra unanswered
    rcases counted with ⟨_, none⟩ | ⟨_, yes, _⟩
    · rw [none] at one
      cases one
    · rw [unheard unanswered] at yes
      cases yes
  · intro answered
    rcases counted with ⟨same, _⟩ | ⟨_, _, r, responses⟩
    · rcases settles answered with yes | waits
      · rw [same] at yes
        cases yes
      · exact absurd finished waits
    · rw [responses]
      rfl

end

/-- Bytes of a request, and none of a following one. -/
def arrival (events : List H11Event) : Action := .dataReceived { events, following := false }

/-- A wait for an acknowledgement that comes. -/
def acknowledgedWait : List Action :=
  [arrival [.request (ascii "GET") (ascii "/messages-acknowledged/7") []],
    arrival [.endOfMessage], .getDone (.ok true)]

theorem acknowledgedWait_carries :
    Carries acknowledgedWait (ascii "GET") (ascii "/messages-acknowledged/7") [] [] where
  events := rfl
  alone := by simp [Alone, acknowledgedWait, arrival, Finished]

theorem acknowledged_wait_answered :
    (Runs.run (step guestEnv none) (HttpProtocol.init, (session []).broker)
      acknowledgedWait).1.responses.length = 1 :=
  (answered_once_iff guestEnv none _ acknowledgedWait_carries (by decide +kernel)).mpr
    (.inr (.inl rfl))

/-- The creation of a queue, without a body. -/
def createQueue : List Action :=
  [arrival [.request (ascii "POST") (ascii "/create-queue/q") [], .endOfMessage]]

/-- The request is whole and waits for nothing, and it gets no response. -/
theorem create_queue_unanswered :
    let final := Runs.run (step guestEnv none) (HttpProtocol.init, (session []).broker) createQueue
    Carries createQueue (ascii "POST") (ascii "/create-queue/q") [] [] ∧
      final.1.futures = [] ∧ ¬ final.1.responses.length = 1 := by
  refine ⟨⟨rfl, ?_⟩, ?_, ?_⟩
  · simp [Alone, createQueue, arrival]
  · decide +kernel
  · decide +kernel

end Http
end MockAmqp
