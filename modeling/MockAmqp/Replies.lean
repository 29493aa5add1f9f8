import MockAmqp.Answers
import MockAmqp.Consumers
import MockAmqp.Operations
import MockAmqp.Posts

/-!
# What success replies promise

A reply to a declaration, a binding or a consumer says that the state now holds what was asked
for. Two of the operations are answered alike when they fail.
-/

namespace MockAmqp
open Exec

/-- The state holds what the reply to the operation says. -/
def Reply.Truthful (c : ConnId) (s : State) (asked : Option Call) : Reply → Prop
  | exchangeDeclareOk _ => ∃ name type e, asked = some (.declareExchange name type) ∧
      s.exchanges.get? name = some e ∧ e.type = type
  | queueDeclareOk _ queueName _ _ => asked = some (.declareQueue queueName) ∧
      s.queues.contains queueName = true
  | queueBindOk _ => ∃ queue exchange, asked = some (.bindQueue queue exchange) ∧
      s.isBound exchange queue = true
  | basicConsumeOk n consumerTag => ∃ queueName q,
      asked = some (.registerConsumer c consumerTag queueName n) ∧
        s.queues.get? queueName = some q ∧
          q.consumers.get? consumerTag = some { protocol := c, channelNumber := n }
  | _ => True

/-- Every reply made in treating the frame is truthful about the state it leaves. -/
def RepliesTruthfully (env : Env) (b : Broker) (c : ConnId) (f : FrameValue) : Prop :=
  let b' := after (dispatch env c f) b
  ∀ r, .reply c r ∈ b'.trace.drop b.trace.length → r.Truthful c b'.state (b.asks c f)

/-- The operation will succeed. -/
def Call.granted (s : State) : Call → Bool
  | declareExchange name type =>
      match s.exchanges.get? name with
      | some e => e.type = type
      | none => true
  | bindQueue queue withExchange => s.exchanges.contains withExchange && s.queues.contains queue
  | registerConsumer _ _ queueName _ => s.queues.contains queueName
  | _ => true

/-- The operation that a frame asks for will succeed, or there is nothing to write when it
fails. -/
def Grants (b : Broker) (c : ConnId) (f : FrameValue) : Prop :=
  ∀ op ∈ b.asks c f, op.granted b.state = true ∨
    ∀ r ∈ op.reply f.channelNumber false, r.encoded = none

instance (b : Broker) (c : ConnId) (f : FrameValue) : Decidable (Grants b c f) :=
  decidable_of_iff (∀ op ∈ (b.asks c f).toList, op.granted b.state = true ∨
      ∀ r ∈ (op.reply f.channelNumber false).toList, r.encoded = none)
    (by simp only [Option.mem_toList, Option.mem_def, Grants])

section
variable {env : Env} {b : Broker} {c : ConnId} {f : FrameValue} {n : Nat} {s : State}

/-- What a reply leaves in the record. -/
def announced (c : ConnId) (n : Nat) : Option Reply → List Event
  | none => []
  | some r =>
      match r.encoded with
      | some _ => .reply c r :: r.opening c n
      | none => []

theorem View.answered_record (v : View) (o : Option Reply) :
    (v.answered c n o).trace = v.trace ++ announced c n o := by
  cases o with
  | none => exact (List.append_nil _).symm
  | some r =>
      dsimp only [View.answered, announced]
      cases r.encoded with
      | none => exact (List.append_nil _).symm
      | some bytes => rfl

theorem reply_announced {o : Option Reply} {r : Reply} :
    .reply c r ∈ announced c n o ↔ o = some r ∧ r.encoded.isSome = true := by
  cases o with
  | none => simp [announced]
  | some r' =>
      have opens : .reply c r ∉ r'.opening c n := by
        cases r' <;> simp [Reply.opening]
      dsimp only [announced]
      cases encoded : r'.encoded with
      | none =>
          refine iff_of_false List.not_mem_nil ?_
          rintro ⟨same, some⟩
          cases same
          rw [encoded] at some
          cases some
      | some bytes =>
          rw [List.mem_cons, or_iff_left opens]
          constructor
          · intro same
            cases same
            exact ⟨rfl, by rw [encoded]; rfl⟩
          · rintro ⟨same, _⟩
            cases same
            rfl

/-- The replies made in treating a frame. -/
theorem dispatch_replies {r : Reply} :
    .reply c r ∈ (after (dispatch env c f) b).trace.drop b.trace.length ↔
      b.answer env c f = some r ∧ r.encoded.isSome = true := by
  obtain ⟨new, grown, _⟩ := (dispatch_byConn env c f b).events
  have recorded : (after (dispatch env c f) b).view.trace = b.view.trace ++
      announced c f.channelNumber (b.answer env c f) := by
    rw [dispatch_view]
    unfold View.served Broker.answer
    cases b.asks c f with
    | none => exact View.answered_record _ _
    | some op => exact View.answered_record _ _
  have visible : (after (dispatch env c f) b).view.trace =
      b.view.trace ++ new.filter Event.visible := by
    show (after (dispatch env c f) b).trace.filter Event.visible = _
    rw [grown, List.filter_append]
    rfl
  rw [grown, List.drop_left, ← reply_announced, ← List.append_cancel_left (recorded.symm.trans visible).symm,
    List.mem_filter]
  exact ⟨fun mem => ⟨mem, rfl⟩, And.left⟩

theorem dispatch_state : (after (dispatch env c f) b).state =
    match b.asks c f with
    | some op => after (op.run env) b.state
    | none => b.state := by
  have state : (after (dispatch env c f) b).state = (after (dispatch env c f) b).view.state := rfl
  rw [state, dispatch_view]
  unfold View.served
  cases b.asks c f with
  | none => exact View.answered_state _ _ _
  | some op => exact View.answered_state _ _ _

/-! ## Operations and the replies to them -/

/-- A completed message is to be stored. -/
theorem Channel.completed_stores {channel : Channel} {op : Call}
    (completed : channel.completed f = some op) :
    ∃ exchangeName headers data, op = .storeMessage exchangeName headers (.bytes data) := by
  cases f with
  | body body =>
      unfold Channel.completed at completed
      dsimp only at completed
      split at completed
      · split at completed
        · cases completed
          exact ⟨_, _, _, rfl⟩
        · cases completed
      · cases completed
  | _ => cases completed

/-- A channel asks for what the method requests, or for a message to be stored. -/
theorem Channel.asks_cases {channel : Channel} {op : Call} (asks : channel.asks c f = some op) :
    f.request c = .ok op ∨
      ∃ exchangeName headers data, op = .storeMessage exchangeName headers (.bytes data) := by
  unfold Channel.asks at asks
  split at asks
  · cases read : f.request c with
    | error e =>
        rw [read] at asks
        cases asks
    | ok op' =>
        rw [read] at asks
        cases asks
        exact .inl rfl
  · exact .inr (Channel.completed_stores asks)
  · cases asks

/-- The operation that is asked for on a channel. -/
theorem asked_request {op : Call} (asks : b.asks c f = some op) :
    f.request c = .ok op ∨
      (∃ exchangeName headers data, op = .storeMessage exchangeName headers (.bytes data)) ∨
      ∃ username password, op = .checkCredentials username password := by
  unfold Broker.asks at asks
  split at asks
  · rcases Channel.asks_cases asks with read | stored
    · exact .inl read
    · exact .inr (.inl stored)
  · split at asks
    · obtain ⟨login, _, same⟩ := Option.map_eq_some_iff.mp asks
      exact .inr (.inr ⟨_, _, same.symm⟩)
    · cases asks

/-- A method asks for no message to be stored and no login, and consumers for its own channel. -/
theorem request_own {op : Call} (read : f.request c = .ok op) :
    match op with
    | .registerConsumer consumer _ _ k => consumer = c ∧ k = f.channelNumber
    | .storeMessage _ _ _ | .checkCredentials _ _ => False
    | _ => True := by
  unfold FrameValue.request at read
  split at read
  · obtain ⟨_, _, read⟩ := except_bind_eq_ok.mp read
    obtain ⟨_, _, read⟩ := except_bind_eq_ok.mp read
    cases read
    trivial
  · obtain ⟨_, _, read⟩ := except_bind_eq_ok.mp read
    cases read
    trivial
  · obtain ⟨_, _, read⟩ := except_bind_eq_ok.mp read
    obtain ⟨_, _, read⟩ := except_bind_eq_ok.mp read
    cases read
    trivial
  · obtain ⟨_, _, read⟩ := except_bind_eq_ok.mp read
    obtain ⟨_, _, read⟩ := except_bind_eq_ok.mp read
    cases read
    exact ⟨rfl, rfl⟩
  · obtain ⟨_, _, read⟩ := except_bind_eq_ok.mp read
    cases read
    trivial
  · obtain ⟨_, _, read⟩ := except_bind_eq_ok.mp read
    obtain ⟨_, _, read⟩ := except_bind_eq_ok.mp read
    cases read
    trivial
  · cases read

/-- A consumer is registered for the connection and the channel of the frame. -/
theorem asked_own {consumer : ConnId} {consumerTag queueName : Str} {k : Nat}
    (asks : b.asks c f = some (.registerConsumer consumer consumerTag queueName k)) :
    consumer = c ∧ k = f.channelNumber := by
  rcases asked_request asks with read | ⟨_, _, _, no⟩ | ⟨_, _, no⟩
  · exact request_own read
  · cases no
  · cases no

/-- A message that comes over AMQP is stored as bytes. -/
theorem asked_bytes {exchangeName : Str} {headers body : Val}
    (asks : b.asks c f = some (.storeMessage exchangeName headers body)) :
    ∃ data, body = .bytes data := by
  rcases asked_request asks with read | ⟨_, _, data, same⟩ | ⟨_, _, no⟩
  · exact (request_own read).elim
  · cases same
    exact ⟨data, rfl⟩
  · cases no

/-- A reply that is not to one of the four operations promises nothing. -/
theorem acknowledged_truthful {r : Reply} (acknowledged : b.acknowledges c f = some r) :
    r.Truthful c s none := by
  unfold Broker.acknowledges at acknowledged
  split at acknowledged
  · cases acknowledged
    trivial
  · split at acknowledged
    · unfold Channel.acknowledges at acknowledged
      split at acknowledged
      · split at acknowledged
        · cases acknowledged
          trivial
        · cases acknowledged
      · split at acknowledged
        · cases acknowledged
          trivial
        · split at acknowledged
          · unfold FrameValue.acknowledged at acknowledged
            split at acknowledged
            · cases acknowledged
              trivial
            · obtain ⟨tag, _, same⟩ := Option.map_eq_some_iff.mp acknowledged
              cases same
              trivial
            · cases acknowledged
          · cases acknowledged
    · split at acknowledged
      · cases acknowledged
        trivial
      · split at acknowledged
        · cases acknowledged
          trivial
        · cases acknowledged

theorem declareExchange_found (name type : Str) :
    ∃ e, (s.declareExchange name type).2.exchanges.get? name = some e ∧
      e.type = match s.exchanges.get? name with
        | some e => e.type
        | none => type := by
  unfold State.declareExchange
  cases known : s.exchanges.get? name with
  | none => exact ⟨_, OrderedDict.get?_insert_self _ _ _, rfl⟩
  | some e => exact ⟨e, known, rfl⟩

theorem declareQueue_found (name : Str) :
    (s.declareQueue name).2.queues.contains name = true := by
  unfold State.declareQueue
  split
  · next known => exact known
  · dsimp only
    rw [(State.bindQueue_rest _ _ _).1, OrderedDict.contains, State.setQueue,
      OrderedDict.get?_insert_self]
    rfl

theorem registerConsumer_found {consumer : ConnId} {consumerTag queueName : Str} {k : Nat}
    (declared : s.queues.contains queueName = true) :
    ∃ q, (s.registerConsumer consumer consumerTag queueName k).2.queues.get? queueName = some q ∧
      q.consumers.get? consumerTag = some { protocol := consumer, channelNumber := k } := by
  obtain ⟨q, known⟩ := Option.isSome_iff_exists.mp declared
  unfold State.registerConsumer
  rw [known]
  exact ⟨_, OrderedDict.get?_insert_self _ _ _, OrderedDict.get?_insert_self _ _ _⟩

theorem bindQueue_found {queue exchange : Str} (ok : (s.bindQueue queue exchange).1 = true) :
    (s.bindQueue queue exchange).2.isBound exchange queue = true := by
  rw [State.isBound_bindQueue]
  unfold State.bindQueue at ok
  split at ok
  · cases ok
  · next known =>
      split at ok
      · cases ok
      · next known' =>
          rw [of_not_not known, of_not_not known']
          simp

/-- The reply to an operation is truthful exactly if the operation is granted or nothing is
written when it fails. -/
theorem answered_truthful_iff {op : Call}
    (own : ∀ consumer tag queueName k, op = .registerConsumer consumer tag queueName k →
      consumer = c ∧ k = n) :
    (∀ r, (op.result env s).bind (fun ok => op.reply n ok) = some r → r.encoded.isSome = true →
        r.Truthful c (after (op.run env) s) (some op)) ↔
      op.granted s = true ∨ ∀ r ∈ op.reply n false, r.encoded = none := by
  have plain : ∀ {o : Option Reply}, (∀ r ∈ o, r.Truthful c (after (op.run env) s) (some op)) →
      op.granted s = true →
      ((∀ r, o = some r → r.encoded.isSome = true →
        r.Truthful c (after (op.run env) s) (some op)) ↔
      op.granted s = true ∨ ∀ r ∈ op.reply n false, r.encoded = none) := fun truthful granted =>
    iff_of_true (fun r same _ => truthful r same) (.inl granted)
  have constant : ∀ r0 : Reply, (op.result env s).bind (fun ok => op.reply n ok) = some r0 →
      op.reply n false = some r0 →
      (r0.Truthful c (after (op.run env) s) (some op) ↔ op.granted s = true) →
      ((∀ r, (op.result env s).bind (fun ok => op.reply n ok) = some r →
        r.encoded.isSome = true → r.Truthful c (after (op.run env) s) (some op)) ↔
      op.granted s = true ∨ ∀ r ∈ op.reply n false, r.encoded = none) := by
    intro r0 answer refusal truthful
    rw [answer, refusal, ← truthful]
    simp only [Option.some.injEq, forall_eq', Option.mem_def]
    cases r0.encoded <;> simp
  cases op with
  | checkCredentials username password =>
      refine plain (fun r mem => ?_) rfl
      obtain ⟨ok, _, same⟩ := Option.bind_eq_some_iff.mp mem
      cases ok
      · cases same
      · cases same
        trivial
  | declareExchange name type =>
      obtain ⟨e, found, typed⟩ := declareExchange_found (s := s) name type
      refine constant (.exchangeDeclareOk n) rfl rfl ?_
      constructor
      · rintro ⟨_, _, e', same, found', typed'⟩
        cases same
        cases found.symm.trans found'
        dsimp only [Call.granted]
        cases known : s.exchanges.get? name with
        | none => rfl
        | some e =>
            rw [known] at typed
            exact decide_eq_true (typed.symm.trans typed')
      · intro granted
        refine ⟨name, type, e, rfl, found, ?_⟩
        rw [typed]
        dsimp only [Call.granted] at granted
        cases known : s.exchanges.get? name with
        | none => rfl
        | some e =>
            rw [known] at granted
            exact of_decide_eq_true granted
  | declareQueue name =>
      refine plain (fun r mem => ?_) rfl
      cases mem
      exact ⟨rfl, declareQueue_found name⟩
  | bindQueue queue withExchange =>
      refine iff_of_true ?_ (.inr (by simp [Call.reply]))
      intro r same _
      obtain ⟨ok, ran, same⟩ := Option.bind_eq_some_iff.mp same
      cases ok
      · cases same
      · cases same
        exact ⟨queue, withExchange, rfl, bindQueue_found (Option.some.inj ran)⟩
  | registerConsumer consumer tag queueName k =>
      obtain ⟨rfl, rfl⟩ := own _ _ _ _ rfl
      refine constant (.basicConsumeOk k tag) rfl rfl ?_
      constructor
      · rintro ⟨queueName', q, same, found, _⟩
        cases same
        dsimp only [Call.granted]
        by_contra undeclared
        have missing : s.queues.get? queueName = none := by
          simpa [OrderedDict.contains] using undeclared
        have same : (s.registerConsumer consumer tag queueName k).2 = s := by
          unfold State.registerConsumer
          rw [missing]
        have here : (s.registerConsumer consumer tag queueName k).2.queues.get? queueName =
          some q := found
        rw [same, missing] at here
        cases here
      · intro granted
        obtain ⟨q, found, registered⟩ := registerConsumer_found granted
        exact ⟨queueName, q, rfl, found, registered⟩
  | storeMessage exchangeName headers data =>
      refine plain (fun r mem => ?_) rfl
      obtain ⟨ok, _, same⟩ := Option.bind_eq_some_iff.mp mem
      cases same
  | messageAck tag => exact plain (fun r mem => (by cases mem)) rfl
  | messageNack tag requeue => exact plain (fun r mem => (by cases mem)) rfl

/-- The replies to a frame are truthful exactly if what it asks for is granted. -/
theorem repliesTruthfully_iff (env : Env) (b : Broker) (c : ConnId) (f : FrameValue) :
    RepliesTruthfully env b c f ↔ Grants b c f := by
  unfold RepliesTruthfully Grants
  simp only [dispatch_replies, dispatch_state, and_imp]
  cases asks : b.asks c f with
  | none =>
      refine iff_of_true (fun r same _ => ?_) (fun op no => (by cases no))
      have acknowledged : b.acknowledges c f = some r := by
        unfold Broker.answer at same
        rwa [asks] at same
      exact acknowledged_truthful acknowledged
  | some op =>
      have answer : b.answer env c f =
          (op.result env b.state).bind fun ok => op.reply f.channelNumber ok := by
        unfold Broker.answer
        rw [asks]
      rw [answer]
      simp only [Option.mem_some_iff, forall_eq']
      refine answered_truthful_iff fun consumer tag queueName k same => ?_
      rw [same] at asks
      exact asked_own asks

end

namespace Http

/-! ## Declarations over HTTP -/

/-- The name and the type of an exchange to create. -/
def readExchange (target : Bytes) : Except PyError (Str × Str) := do
  let exchangeName ← part (splitSlash 3 target) 2
  let exchangeType ← part (splitSlash 3 target) 3
  let exchangeName ← decodeUtf8 false exchangeName
  let exchangeType ← decodeUtf8 false exchangeType
  return (exchangeName, exchangeType)

/-- A request that is answered 200 has left the exchange it asks for. -/
def CreatesTruthfully (target : Bytes) (s : HttpProtocol × Broker) : Prop :=
  (∃ r ∈ s.1.responses, r.statusCode = 200) → ∃ name type e,
    readExchange target = .ok (name, type) ∧ s.2.state.exchanges.get? name = some e ∧ e.type = type

/-- No exchange of that name and another type is declared. -/
def CanCreate (b : Broker) (target : Bytes) : Prop :=
  ∀ name type, readExchange target = .ok (name, type) →
    ∀ e ∈ b.state.exchanges.get? name, e.type = type

section
variable {env : Env} {b : Broker} {target : Bytes} {headers : Headers} {pieces : List Bytes}
variable {actions : List Action}

variable (b target) in
theorem createExchangeResponse_apply : createExchangeResponse target b =
    match readExchange target with
    | .error e => .error e b
    | .ok (name, type) => .ok (okText (ascii "ok"))
        { b with state := (b.state.declareExchange name type).2 } := by
  unfold createExchangeResponse readExchange
  cases part (splitSlash 3 target) 2 with
  | error e => rfl
  | ok first =>
      cases part (splitSlash 3 target) 3 with
      | error e => rfl
      | ok second =>
          have joined : (do
              let exchangeName ← Except.ok first
              let exchangeType ← Except.ok second
              let exchangeName ← decodeUtf8 false exchangeName
              let exchangeType ← decodeUtf8 false exchangeType
              return (exchangeName, exchangeType)) = (do
              let exchangeName ← decodeUtf8 false first
              let exchangeType ← decodeUtf8 false second
              return (exchangeName, exchangeType)) := rfl
          rw [joined, attempt_bind_ok, attempt_bind_ok]
          cases decodeUtf8 false first with
          | error e => rfl
          | ok name =>
              rw [attempt_bind_ok]
              cases decodeUtf8 false second <;> rfl

/-- Creating an exchange again changes nothing. -/
theorem created_again (pieces : List Bytes) {name type : Str}
    (known : b.state.exchanges.contains name = true)
    (read : readExchange target = .ok (name, type)) :
    posted (fun _ => createExchangeResponse target) b pieces = b := by
  obtain ⟨e, found⟩ := Option.isSome_iff_exists.mp known
  have same : after (createExchangeResponse target) b = b := by
    unfold after
    rw [createExchangeResponse_apply, read]
    dsimp only [State.declareExchange]
    rw [found]
  induction pieces with
  | nil => rfl
  | cons piece rest ih =>
      rw [posted, List.foldl_cons, same]
      exact ih

/-- A POST that creates an exchange is answered truthfully exactly if it has no body or the
exchange can be created. -/
theorem createsTruthfully_iff (env : Env) (refuses : Option PyError) (b : Broker)
    (asked : startsWith target "/create-exchange/" = true)
    (carries : Carries actions (ascii "POST") target headers pieces) :
    CreatesTruthfully target (Runs.run (step env refuses) (HttpProtocol.init, b) actions) ↔
      pieces = [] ∨ CanCreate b target := by
  cases pieces with
  | nil =>
      refine iff_of_true ?_ (.inl rfl)
      rintro ⟨r, mem, _⟩
      rw [post_without_body env refuses b carries] at mem
      cases mem
  | cons first later =>
      have posts : ∀ p : Bytes, onPost env target p headers =
          onGlobalState (createExchangeResponse target) >>= send := fun _ =>
        onPost_createExchange asked
      obtain ⟨done, _, broker, outcome⟩ := post_session refuses posts b carries
      generalize Runs.run (step env refuses) (HttpProtocol.init, b) actions = s at *
      rw [or_iff_right (List.cons_ne_nil first later)]
      have applied := createExchangeResponse_apply b target
      cases read : readExchange target with
      | error e =>
          rw [read] at applied
          refine iff_of_true ?_ (fun name type no => by rw [read] at no; cases no)
          rintro ⟨r, mem, status⟩
          rcases outcome with ⟨r', t, returned, _⟩ | ⟨e', t, r', _, _, error, responses⟩
          · cases applied.symm.trans returned
          · rw [responses] at mem
            cases List.mem_singleton.mp mem
            rw [error] at status
            cases status
      | ok asked =>
          obtain ⟨name, type⟩ := asked
          rw [read] at applied
          dsimp only at applied
          obtain ⟨e, found, typed⟩ := declareExchange_found (s := b.state) name type
          have final : s.2.state = (b.state.declareExchange name type).2 := by
            rw [broker, posted, List.foldl_cons, after_ok applied]
            have known : (b.state.declareExchange name type).2.exchanges.contains name = true := by
              rw [OrderedDict.contains, found]
              rfl
            exact congrArg Broker.state (created_again (b := { b with
              state := (b.state.declareExchange name type).2 }) done known read)
          have answered : ∃ r ∈ s.1.responses, r.statusCode = 200 := by
            rcases outcome with ⟨r', t, returned, responses⟩ | ⟨e', t, r', raised, _⟩
            · cases applied.symm.trans returned
              exact ⟨_, by rw [responses]; exact List.mem_singleton_self _, rfl⟩
            · cases applied.symm.trans raised
          have only : ∀ {n k}, readExchange target = .ok (n, k) → n = name ∧ k = type := by
            intro n k same
            cases read.symm.trans same
            exact ⟨rfl, rfl⟩
          constructor
          · intro truthful n k same e' known
            obtain ⟨rfl, rfl⟩ := only same
            obtain ⟨n', k', e'', same', found', typed'⟩ := truthful answered
            obtain ⟨rfl, rfl⟩ := only same'
            rw [final] at found'
            cases found.symm.trans found'
            rw [known] at typed
            exact typed.symm.trans typed'
          · intro free _
            refine ⟨name, type, e, read, by rw [final, found], ?_⟩
            rw [typed]
            cases known : b.state.exchanges.get? name with
            | none => rfl
            | some e' => exact free name type read e' known

end

end Http

/-- The success replies to a frame, and the success response to the creation of an exchange, are
truthful exactly if what is asked for is granted. -/
theorem success_truthful_iff (env : Env) (b : Broker) :
    (∀ c f, RepliesTruthfully env b c f ↔ Grants b c f) ∧
      ∀ refuses target headers pieces actions, Http.startsWith target "/create-exchange/" = true →
        Http.Carries actions (ascii "POST") target headers pieces →
          (Http.CreatesTruthfully target
              (Runs.run (Http.step env refuses) (Http.HttpProtocol.init, b) actions) ↔
            pieces = [] ∨ Http.CanCreate b target) :=
  ⟨fun c f => repliesTruthfully_iff env b c f, fun refuses _ _ _ _ asked carries =>
    Http.createsTruthfully_iff env refuses b asked carries⟩

/-- A POST that creates exchange `e` of type `direct`. -/
def createDirect : List Http.Action :=
  [Http.arrival (Http.whole (ascii "POST") (ascii "/create-exchange/e/direct") [] [ascii "x"])]

theorem createDirect_carries :
    Http.Carries createDirect (ascii "POST") (ascii "/create-exchange/e/direct") [] [ascii "x"] where
  events := by
    rw [createDirect, Http.arrival, Http.incoming, Http.incoming, List.append_nil]
    rfl
  alone := by simp [Http.Alone, createDirect, Http.arrival]

/-- The consumer of a declared queue and the creation of a new exchange. -/
theorem granted_requests_truthful :
    let b := (session oneConsumer).broker
    RepliesTruthfully guestEnv b 0 (consumeFrame "u") ∧
      Http.CreatesTruthfully (ascii "/create-exchange/e/direct")
        (Runs.run (Http.step guestEnv none) (Http.HttpProtocol.init, b) createDirect) := by
  intro b
  have truthful := success_truthful_iff guestEnv b
  refine ⟨(truthful.1 0 (consumeFrame "u")).mpr (by decide +kernel), ?_⟩
  refine (truthful.2 none _ _ _ _ (by decide) createDirect_carries).mpr (.inr ?_)
  intro name type read e known
  have new : b.state.exchanges.get? (str "e") = none := by decide +kernel
  have named : Http.readExchange (ascii "/create-exchange/e/direct") =
      .ok (str "e", str "direct") := by decide +kernel
  cases named.symm.trans read
  cases new.symm.trans known

/-- A consumer is confirmed on a queue that does not exist. -/
theorem consumer_of_no_queue_confirmed :
    Reachable guestEnv (session (logIn 0)).broker ∧
      ¬ RepliesTruthfully guestEnv (session (logIn 0)).broker 0 (consumeFrame "t") := by
  refine ⟨session_reachable _, ?_⟩
  rw [repliesTruthfully_iff]
  decide +kernel

end MockAmqp
