import MockAmqp.Responses

/-!
# What a POST does

Each piece of a body is posted on its own. The first one is what the response is about, and the
later ones act on the broker before their response is refused.
-/

namespace MockAmqp
namespace Http
open Exec

/-- The broker after some pieces have been posted, whatever became of their responses. -/
def posted (act : Bytes → OnBroker Response) (b : Broker) (pieces : List Bytes) : Broker :=
  pieces.foldl (fun b piece => after (act piece) b) b

/-- The protocol waits for the body of a POST. -/
def Listening (target : Bytes) (headers : Headers) (s : HttpProtocol × Broker) : Prop :=
  s.1.state = .waitingBody ∧ s.1.method = some (ascii "POST") ∧ s.1.target = some target ∧
    s.1.headers = some headers

/-- Nothing has been posted or answered. -/
def Fresh (b : Broker) (s : HttpProtocol × Broker) : Prop :=
  s.1.closing = false ∧ s.1.httpParser.responded = false ∧ s.1.responses = [] ∧ s.2 = b

/-- The first piece has been answered, and these have been posted after it. -/
def PostedOn (act : Bytes → OnBroker Response) (b : Broker) (first : Bytes) (done : List Bytes)
    (s : HttpProtocol × Broker) : Prop :=
  s.1.closing = false ∧ s.1.httpParser.responded = true ∧ s.2 = posted act b (first :: done) ∧
    ∃ r t, act first b = .ok r t ∧ s.1.responses = [r]

/-- The first piece has raised. -/
def Broken (act : Bytes → OnBroker Response) (b : Broker) (first : Bytes)
    (s : HttpProtocol × Broker) : Prop :=
  s.1.closing = true ∧ ∃ e t r, act first b = .error e t ∧ s.2 = t ∧ r.statusCode = 500 ∧
    s.1.responses = [r]

/-- How far a POST has come: to its headers, to its first piece, to a later one, to its end, or
to the exception that the first piece raised. -/
def Posting (act : Bytes → OnBroker Response) (b : Broker) (target : Bytes) (headers : Headers)
    (first : Bytes) (later : List Bytes) (f : Bool) (left : List H11Event)
    (s : HttpProtocol × Broker) : Prop :=
  s.1.futures = [] ∧
    (f = false ∧ Fresh b s ∧ s.1.state = .waitingHeaders ∧
        left = whole (ascii "POST") target headers (first :: later) ∨
      f = false ∧ Fresh b s ∧ Listening target headers s ∧
        left = .data first :: (later.map .data ++ [.endOfMessage]) ∨
      (∃ done rest, later = done ++ rest ∧ PostedOn act b first done s ∧
        Listening target headers s ∧ left = rest.map .data ++ [.endOfMessage]) ∨
      (∃ done rest, later = done ++ rest ∧ PostedOn act b first done s ∧ left = []) ∨
      f = true ∧ Broken act b first s)

section
variable {env : Env} {refuses : Option PyError} {s : HttpProtocol × Broker} {b : Broker}
variable {act : Bytes → OnBroker Response} {target : Bytes} {headers : Headers}
variable {first : Bytes} {later : List Bytes} {actions : List Action}

/-- An action on the broker that ends with its response. -/
theorem onGlobalState_send (act : OnBroker Response) (s : HttpProtocol × Broker) :
    (onGlobalState act >>= send) s = match act s.2 with
      | .ok r t => send r (s.1, t)
      | .error e t => .error e (s.1, t) := by
  rw [bind_apply]
  unfold onGlobalState zoom
  cases act s.2 <;> rfl

theorem treatEvent_posts
    (posts : ∀ p, onPost env target p headers = onGlobalState (act p) >>= send)
    (listening : Listening target headers s) (piece : Bytes) :
    treatEvent env (.data piece) s = match act piece s.2 with
      | .ok r t => send r (s.1, t)
      | .error e t => .error e (s.1, t) := by
  obtain ⟨waiting, method, asked, described⟩ := listening
  rw [treatEvent_data waiting asked described, if_pos method, posts, onGlobalState_send]

theorem posted_snoc (done : List Bytes) (piece : Bytes) :
    posted act b (done ++ [piece]) = after (act piece) (posted act b done) := by
  unfold posted
  rw [List.foldl_append]
  rfl

/-- The first piece is posted and answered. -/
theorem first_posted
    (posts : ∀ p, onPost env target p headers = onGlobalState (act p) >>= send)
    (listening : Listening target headers s) (idle : s.1.futures = []) (fresh : Fresh b s)
    (f : Bool) :
    match treatEvent env (.data first) s with
    | .ok _ t => Posting act b target headers first later f (later.map .data ++ [.endOfMessage]) t
    | .error _ t => Posting act b target headers first later true
        (later.map .data ++ [.endOfMessage]) (failed t) := by
  obtain ⟨opened, silent, none, rfl⟩ := fresh
  have run := treatEvent_posts posts listening first
  cases acted : act first s.2 with
  | error e t =>
      obtain ⟨r, error, same⟩ := failed_unanswered (s := (s.1, t)) silent
      rw [acted] at run
      rw [run]
      dsimp only
      rw [same]
      exact ⟨idle, .inr (.inr (.inr (.inr ⟨rfl, rfl, e, t, r, acted, rfl, error, by
        simp only [none, List.nil_append]⟩)))⟩
  | ok r t =>
      rw [acted] at run
      rw [run.trans (send_accepted (s := (s.1, t)) silent r)]
      exact ⟨idle, .inr (.inr (.inl ⟨[], later, rfl, ⟨opened, rfl, by
        simp only [posted, List.foldl_cons, List.foldl_nil, after_ok acted], r, t, acted, by
        simp only [none, List.nil_append]⟩, listening, rfl⟩))⟩

/-- A later piece is posted, and its response refused. -/
theorem later_posted
    (posts : ∀ p, onPost env target p headers = onGlobalState (act p) >>= send)
    (listening : Listening target headers s) (idle : s.1.futures = []) {done rest : List Bytes}
    {piece : Bytes} (split : later = done ++ piece :: rest) (sofar : PostedOn act b first done s)
    (f : Bool) :
    match treatEvent env (.data piece) s with
    | .ok _ t => Posting act b target headers first later f (rest.map .data ++ [.endOfMessage]) t
    | .error _ t => Posting act b target headers first later true
        (rest.map .data ++ [.endOfMessage]) (failed t) := by
  obtain ⟨opened, answered, broker, r, t, acted, responses⟩ := sofar
  have refused : ∃ e, treatEvent env (.data piece) s = .error e (s.1, after (act piece) s.2) := by
    rw [treatEvent_posts posts listening]
    cases act' : act piece s.2 with
    | error e t => exact ⟨e, by rw [after_error act']⟩
    | ok r t => exact ⟨.localProtocolError, by
        rw [after_ok act']
        exact send_refused (s := (s.1, t)) answered r⟩
  obtain ⟨e, run⟩ := refused
  rw [run]
  dsimp only
  rw [failed_answered (s := (s.1, after (act piece) s.2)) answered]
  refine ⟨idle, .inr (.inr (.inl ⟨done ++ [piece], rest, by simp [split], ⟨opened, answered, ?_, r,
    t, acted, responses⟩, listening, rfl⟩))⟩
  rw [← List.cons_append, posted_snoc, ← broker]

theorem posting_tracks
    (posts : ∀ p, onPost env target p headers = onGlobalState (act p) >>= send) :
    Tracks env (Posting act b target headers first later) where
  parsed := fun p more all holds => holds
  proper := by
    intro f x left s opened holds
    rcases holds.2 with ⟨_, _, _, no⟩ | ⟨_, _, _, no⟩ | ⟨done, rest, _, _, _, no⟩ |
      ⟨_, _, _, _, no⟩ | ⟨_, closed, _⟩
    · cases no
    · cases no
    · cases rest <;> cases no
    · cases no
    · rw [opened] at closed
      cases closed
  opened := by
    intro left s holds
    rcases holds.2 with ⟨_, fresh, _⟩ | ⟨_, fresh, _⟩ | ⟨_, _, _, sofar, _⟩ | ⟨_, _, _, sofar, _⟩ | ⟨no, _⟩
    · exact fresh.1
    · exact fresh.1
    · exact sofar.1
    · exact sofar.1
    · cases no
  done := by
    intro f left s w rest result holds futures finished
    rw [holds.1] at futures
    cases futures
  treat := by
    intro f e left s opened holds
    obtain ⟨idle, progress⟩ := holds
    rcases progress with ⟨rfl, fresh, waiting, all⟩ | ⟨rfl, fresh, listening, next⟩ |
      ⟨done, rest, split, sofar, listening, next⟩ | ⟨_, _, _, _, no⟩ | ⟨_, closed, _⟩
    · cases all
      rw [treatEvent_withBody waiting (.inl rfl)]
      exact ⟨idle, .inr (.inl ⟨rfl, fresh, ⟨rfl, rfl, rfl, rfl⟩, rfl⟩)⟩
    · cases next
      exact first_posted posts listening idle fresh false
    · cases rest with
      | nil =>
          cases next
          exact ⟨idle, .inr (.inr (.inr (.inl ⟨done, [], split, sofar, rfl⟩)))⟩
      | cons piece rest =>
          cases next
          exact later_posted posts listening idle split sofar f
    · cases no
    · rw [opened] at closed
      cases closed

variable (refuses) in
/-- A session that brings a POST posts the first piece of its body and some of the next ones, in
order, and the response is about the first. -/
theorem post_session
    (posts : ∀ p, onPost env target p headers = onGlobalState (act p) >>= send) (b : Broker)
    (carries : Carries actions (ascii "POST") target headers (first :: later)) :
    ∃ done, done <+: later ∧
      (Runs.run (step env refuses) (HttpProtocol.init, b) actions).2 =
        posted act b (first :: done) ∧
      ((∃ r t, act first b = .ok r t ∧
          (Runs.run (step env refuses) (HttpProtocol.init, b) actions).1.responses = [r]) ∨
        ∃ e t r, act first b = .error e t ∧ done = [] ∧ r.statusCode = 500 ∧
          (Runs.run (step env refuses) (HttpProtocol.init, b) actions).1.responses = [r]) := by
  have events : incoming actions = whole (ascii "POST") target headers (first :: later) :=
    carries.events
  have tracks : Tracks env (Posting act b target headers first later) := posting_tracks posts
  have start : Stands (Posting act b target headers first later) (incoming actions)
      (HttpProtocol.init, b) :=
    ⟨rfl, .inl ⟨rfl, rfl, .inl ⟨rfl, ⟨rfl, rfl, rfl, rfl⟩, rfl, events⟩⟩⟩
  have ended := tracks.session refuses carries.alone start
  generalize Runs.run (step env refuses) (HttpProtocol.init, b) actions = s at ended ⊢
  have goesOn : ∀ done rest, later = done ++ rest → PostedOn act b first done s →
      ∃ done, done <+: later ∧ s.2 = posted act b (first :: done) ∧
        ((∃ r t, act first b = .ok r t ∧ s.1.responses = [r]) ∨
          ∃ e t r, act first b = .error e t ∧ done = [] ∧ r.statusCode = 500 ∧
            s.1.responses = [r]) := by
    intro done rest split sofar
    obtain ⟨_, _, broker, answered⟩ := sofar
    exact ⟨done, ⟨rest, split.symm⟩, broker, .inl answered⟩
  obtain ⟨f, left, fresh, holds⟩ : ∃ f left, (f = false → left = []) ∧
      Posting act b target headers first later f left s := by
    rcases ended with holds | ⟨left, holds⟩
    · exact ⟨false, [], fun _ => rfl, holds⟩
    · exact ⟨true, left, fun no => (by cases no), holds⟩
  rcases holds.2 with ⟨rfl, _, _, all⟩ | ⟨rfl, _, _, next⟩ | ⟨done, rest, split, sofar, _⟩ |
    ⟨done, rest, split, sofar, _⟩ | ⟨_, _, e, t, r, raised, broker, error, responses⟩
  · rw [fresh rfl] at all
    cases all
  · rw [fresh rfl] at next
    cases next
  · exact goesOn done rest split sofar
  · exact goesOn done rest split sofar
  · refine ⟨[], List.nil_prefix, ?_, .inr ⟨e, t, r, raised, rfl, error, responses⟩⟩
    rw [broker, posted, List.foldl_cons, List.foldl_nil, after_error raised]

variable (env refuses) in
/-- Nothing answers a POST without a body. -/
theorem post_without_body (b : Broker) (carries : Carries actions (ascii "POST") target headers []) :
    (Runs.run (step env refuses) (HttpProtocol.init, b) actions).1.responses = [] := by
  have unanswered : ¬ Answered (ascii "POST") [] := by
    rintro (now | ⟨_, body⟩)
    · revert now
      unfold AtOnce
      decide
    · exact body rfl
  have silent := session_unheard env refuses b carries unanswered
  rcases (run_proceeds env refuses (HttpProtocol.init, b) actions).1 with ⟨_, none⟩ | ⟨_, yes, _⟩
  · exact none
  · rw [silent] at yes
    cases yes

end

/-! ## The handlers as operations on the broker -/

/-- The response of a handler that finds nothing. -/
def notFound : Response where
  statusCode := 404
  headers := [(ascii "Server", ascii "whatever"), (ascii "Content-Length", decimal 10),
    (ascii "Connection", ascii "close")]
  body := .bytes (ascii "not found\n")

/-- The response of a handler that has succeeded. -/
def okText (text : Bytes) : Response where
  statusCode := 200
  headers := [(ascii "Server", ascii "whatever"),
    (ascii "Content-Length", decimal (text ++ ascii "\n").length),
    (ascii "Connection", ascii "close")]
  body := .bytes (text ++ ascii "\n")

/-- What a publication is answered. -/
def publicationResponse : Option Nat → Response
  | none => notFound
  | some deliveryTag => okText (decimal deliveryTag)

/-- A publication and the response to it. -/
def addMessageResponse (publish : Str → Publication → OnBroker (Option Nat)) (target : Bytes)
    (headers : Headers) (data : Bytes) : OnBroker Response := do
  let (name, pub) ← attempt (readPublication (← attempt (lastPart target)) data headers)
  return publicationResponse (← publish name pub)

/-- A declaration of an exchange and the response to it. -/
def createExchangeResponse (target : Bytes) : OnBroker Response := do
  let exchangeName ← attempt (part (splitSlash 3 target) 2)
  let exchangeType ← attempt (part (splitSlash 3 target) 3)
  let exchangeName ← attempt (decodeUtf8 false exchangeName)
  let exchangeType ← attempt (decodeUtf8 false exchangeType)
  updateState fun s => (s.declareExchange exchangeName exchangeType).2
  return okText (ascii "ok")

section
variable {env : Env} {target data : Bytes} {headers : Headers}

theorem onGlobalState_bind {α β : Type} (x : OnBroker α) (k : α → OnBroker β) :
    onGlobalState (x >>= k) = onGlobalState x >>= fun a => onGlobalState (k a) := by
  have shown : ∀ (t : Broker) (s : HttpProtocol × Broker), (fun s : HttpProtocol × Broker => s.2)
      ((fun (b : Broker) (s : HttpProtocol × Broker) => (s.1, b)) t s) = t := fun _ _ => rfl
  exact zoom_bind shown (fun _ _ _ => rfl) x k

theorem onGlobalState_attempt {α : Type} (x : Except PyError α) :
    onGlobalState (attempt x) = attempt x := by
  funext s
  cases x <;> rfl

theorem onGlobalState_pure {α : Type} (a : α) : onGlobalState (pure a) = pure a := rfl

theorem addMessage_posts (publish : Str → Publication → OnBroker (Option Nat)) :
    addMessage publish target data headers =
      onGlobalState (addMessageResponse publish target headers data) >>= send := by
  unfold addMessage addMessageResponse
  simp only [onGlobalState_bind, onGlobalState_attempt, onGlobalState_pure, bind_assoc, pure_bind]
  congr 1
  funext parts
  congr 1
  funext message
  congr 1
  funext deliveryTag
  cases deliveryTag <;> rfl

theorem onPost_messageOn (asked : startsWith target "/add-message-on/" = true) :
    onPost env target data headers =
      onGlobalState (addMessageResponse (publishMessage env) target headers data) >>= send := by
  unfold onPost
  rw [if_pos asked]
  exact addMessage_posts _

/-- No target begins with two different paths of the same length or longer. -/
theorem startsWith_unique {p : String × String} (asked : startsWith target p.1 = true)
    (other : (ascii p.1).isPrefixOf (ascii p.2) = false ∧
      (ascii p.2).isPrefixOf (ascii p.1) = false) : startsWith target p.2 = false := by
  cases also : startsWith target p.2 with
  | false => rfl
  | true =>
      unfold startsWith at asked also
      rcases List.prefix_or_prefix_of_prefix (List.isPrefixOf_iff_prefix.mp asked)
        (List.isPrefixOf_iff_prefix.mp also) with shorter | shorter
      · rw [List.isPrefixOf_iff_prefix.mpr shorter] at other
        cases other.1
      · rw [List.isPrefixOf_iff_prefix.mpr shorter] at other
        cases other.2

theorem onPost_messageInQueue (asked : startsWith target "/add-message-in-queue/" = true) :
    onPost env target data headers =
      onGlobalState (addMessageResponse publishMessageInQueue target headers data) >>= send := by
  have other := startsWith_unique (p := ("/add-message-in-queue/", "/add-message-on/")) asked
    (by decide)
  unfold onPost
  rw [if_neg (by rw [other]; decide), if_pos asked]
  exact addMessage_posts _

theorem onPost_createExchange (asked : startsWith target "/create-exchange/" = true) :
    onPost env target data headers = onGlobalState (createExchangeResponse target) >>= send := by
  have onExchange := startsWith_unique (p := ("/create-exchange/", "/add-message-on/")) asked
    (by decide)
  have inQueue := startsWith_unique (p := ("/create-exchange/", "/add-message-in-queue/")) asked
    (by decide)
  unfold onPost createExchangeResponse
  rw [if_neg (by rw [onExchange]; decide), if_neg (by rw [inQueue]; decide), if_pos asked]
  simp only [onGlobalState_bind, onGlobalState_attempt, onGlobalState_pure, bind_assoc, pure_bind]
  rfl

end

end Http
end MockAmqp
