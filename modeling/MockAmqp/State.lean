import MockAmqp.Lib.Exec
import MockAmqp.Values

/-!
# The shared state

The dictionaries of `State` and its operations, apart from the two publications, which
also write to the consumers' transports.
-/

namespace MockAmqp
open Exec

/-- An index for the `TrackerProtocol` objects, one per connection. -/
abbrev ConnId := Nat

/-- What the state takes from its surroundings: the default account and the order in which
a set of queue names is iterated, which Python leaves open. -/
structure Env where
  defaultUser : Str
  defaultPassword : Str
  setOrder : List Str → List Str
  setOrder_perm : ∀ l, (setOrder l).Perm l

/-- The dictionary `{'headers': ..., 'body': ...}` of a stored message. -/
structure StoredMessage where
  headers : Val
  body : Val

structure Exchange where
  type : Str
  messages : List StoredMessage

structure Consumer where
  protocol : ConnId
  channelNumber : Nat
  deriving DecidableEq

structure Queue where
  messages : List StoredMessage
  consumers : OrderedDict Str Consumer

structure State where
  users : OrderedDict Str Str
  exchanges : OrderedDict Str Exchange
  queues : OrderedDict Str Queue
  queuesBoundExchanges : OrderedDict Str (OrderedSet Str)
  authenticationTriedOn : OrderedDict Str Bool
  messageAcknowledged : OrderedSet Int
  messageNotAcknowledged : OrderedSet Int
  messageRequeued : OrderedSet Int

namespace State

/-- `State.__init__` -/
def init (env : Env) : State where
  users := .ofList [(env.defaultUser, env.defaultPassword)]
  exchanges := .ofList [([], { type := str "direct", messages := [] })]
  queues := .empty
  queuesBoundExchanges := .empty
  authenticationTriedOn := .empty
  messageAcknowledged := .empty
  messageNotAcknowledged := .empty
  messageRequeued := .empty

/-- `reset` assigns the same fields as `__init__`. -/
def reset (env : Env) (_s : State) : State := init env

/-- `self._exchanges[exchange_name] = ...` -/
def setExchange (exchangeName : Str) (e : Exchange) (s : State) : State :=
  { s with exchanges := s.exchanges.insert exchangeName e }

/-- `self._queues[queue_name] = ...`, also for a change made inside a queue. -/
def setQueue (queueName : Str) (q : Queue) (s : State) : State :=
  { s with queues := s.queues.insert queueName q }

def checkCredentials (username password : Str) (s : State) : Bool × State :=
  let isAuthenticated : Bool := s.users.get? username = some password
  (isAuthenticated,
    { s with authenticationTriedOn := s.authenticationTriedOn.insert username isAuthenticated })

def declareExchange (exchangeName exchangeType : Str) (s : State) : Bool × State :=
  match s.exchanges.get? exchangeName with
  | none => (true, s.setExchange exchangeName { type := exchangeType, messages := [] })
  | some e => (e.type = exchangeType, s)

def bindQueue (queue withExchange : Str) (s : State) : Bool × State :=
  if ¬ s.exchanges.contains withExchange then (false, s)
  else if ¬ s.queues.contains queue then (false, s)
  else
    let bound := (s.queuesBoundExchanges.get? withExchange).getD .empty
    (true, { s with
      queuesBoundExchanges := s.queuesBoundExchanges.insert withExchange (bound.add queue) })

/-- The first component of the result; the two counts returned with it are always 0. -/
def declareQueue (queueName : Str) (s : State) : Bool × State :=
  if s.queues.contains queueName then (true, s)
  else
    let s := s.setQueue queueName { messages := [], consumers := .empty }
    (true, (s.bindQueue queueName []).2)

def registerConsumer (consumer : ConnId) (consumerTag queueName : Str) (channelNumber : Nat)
    (s : State) : Bool × State :=
  match s.queues.get? queueName with
  | none => (false, s)
  | some q =>
      let consumers := q.consumers.insert consumerTag { protocol := consumer, channelNumber }
      (true, s.setQueue queueName { q with consumers })

def deleteMessagesOfQueue (queueName : Str) (s : State) : State :=
  match s.queues.get? queueName with
  | none => s
  | some q => s.setQueue queueName { q with messages := [] }

def deleteMessagesOfExchange (exchangeName : Str) (s : State) : State :=
  match s.exchanges.get? exchangeName with
  | none => s
  | some e => s.setExchange exchangeName { e with messages := [] }

/-- `self._queues[queue_name]['messages'].append(message)` -/
def appendToQueue (queueName : Str) (message : StoredMessage) : EStateM PyError State Unit :=
  fun s => match s.queues.get? queueName with
    | none => .error .keyError s
    | some q => .ok () (s.setQueue queueName { q with messages := q.messages ++ [message] })

/-- `self._exchanges[exchange_name]['messages'].append(message)` -/
def appendToExchange (exchangeName : Str) (message : StoredMessage) :
    EStateM PyError State Unit :=
  fun s => match s.exchanges.get? exchangeName with
    | none => .error .keyError s
    | some e => .ok () (s.setExchange exchangeName { e with messages := e.messages ++ [message] })

/-- The queues bound to an exchange, in the order a loop over the set visits them. -/
def boundQueues (env : Env) (exchangeName : Str) (s : State) : List Str :=
  env.setOrder ((s.queuesBoundExchanges.get? exchangeName).getD .empty).elems

def appendToQueues (message : StoredMessage) : List Str → EStateM PyError State Unit
  | [] => pure ()
  | queueName :: rest => do
      appendToQueue queueName message
      appendToQueues message rest

def storeMessage (env : Env) (exchangeName : Str) (headers messageData : Val) :
    EStateM PyError State Bool := do
  if ¬ (← read fun s : State => s.exchanges.contains exchangeName) then
    return false
  let message := { headers, body := messageData }
  appendToExchange exchangeName message
  appendToQueues message (← read fun s => s.boundQueues env exchangeName)
  return true

def storeMessageInQueue (queueName : Str) (headers messageData : Val) :
    EStateM PyError State Bool := do
  if ¬ (← read fun s : State => s.queues.contains queueName) then
    return false
  appendToQueue queueName { headers, body := messageData }
  return true

def messageAck (deliveryTag : Int) (s : State) : State :=
  { s with messageAcknowledged := s.messageAcknowledged.add deliveryTag }

def messageNack (deliveryTag : Int) (requeue : Bool) (s : State) : State :=
  if requeue then { s with messageRequeued := s.messageRequeued.add deliveryTag }
  else { s with messageNotAcknowledged := s.messageNotAcknowledged.add deliveryTag }

/-- The consumers of a queue in the order of their registration. -/
def consumersOf (queueName : Str) (s : State) : List (Str × Consumer) :=
  match s.queues.get? queueName with
  | some q => q.consumers.entries
  | none => []

theorem consumersOf_eq {s : State} {queueName : Str} {q : Queue}
    (h : s.queues.get? queueName = some q) : s.consumersOf queueName = q.consumers.entries := by
  simp only [consumersOf, h]

@[simp] theorem consumersOf_setQueue (s : State) (n m : Str) (q : Queue) :
    (s.setQueue n q).consumersOf m = if m = n then q.consumers.entries else s.consumersOf m := by
  by_cases h : m = n
  · simp [consumersOf, setQueue, h]
  · simp [consumersOf, setQueue, h]

@[simp] theorem consumersOf_setExchange (s : State) (n m : Str) (e : Exchange) :
    (s.setExchange n e).consumersOf m = s.consumersOf m := rfl

/-- The declared names and the bindings are the same. -/
structure SameNames (s s' : State) : Prop where
  exchanges : ∀ e, s'.exchanges.contains e = s.exchanges.contains e
  queues : ∀ q, s'.queues.contains q = s.queues.contains q
  bound : s'.queuesBoundExchanges = s.queuesBoundExchanges

theorem sameNames_progress : Progress SameNames where
  refl := fun _ => ⟨fun _ => rfl, fun _ => rfl, rfl⟩
  trans := fun h k => ⟨fun e => (k.exchanges e).trans (h.exchanges e),
    fun q => (k.queues q).trans (h.queues q), k.bound.trans h.bound⟩

theorem sameNames_setQueue {s : State} {n : Str} {q q' : Queue}
    (h : s.queues.get? n = some q) : SameNames s (s.setQueue n q') := by
  refine ⟨fun _ => rfl, fun m => ?_, rfl⟩
  by_cases hm : m = n
  · simp [setQueue, OrderedDict.contains, hm, h]
  · simp [setQueue, OrderedDict.contains, hm]

theorem sameNames_setExchange {s : State} {n : Str} {e e' : Exchange}
    (h : s.exchanges.get? n = some e) : SameNames s (s.setExchange n e') := by
  refine ⟨fun m => ?_, fun _ => rfl, rfl⟩
  by_cases hm : m = n
  · simp [setExchange, OrderedDict.contains, hm, h]
  · simp [setExchange, OrderedDict.contains, hm]

/-! ## Inspection -/

/-- One message of `base64encode_message_in_list_when_appliable`. Its fallback for bytes that
are not UTF-8 names the module `base64`, which is never imported. -/
def encodeForListing (m : StoredMessage) : Except PyError Val :=
  match m.body with
  | .bytes b =>
      match decodeUtf8 false b with
      | .ok s => .ok (.dict [(str "headers", m.headers), (str "body", .str s)])
      | .error _ => .error .nameError
  | _ => .error .attributeError

def getMessagesOfQueue (queueName : Str) (s : State) : Except PyError (Option (List Val)) :=
  match s.queues.get? queueName with
  | none => .ok none
  | some q => (q.messages.mapM encodeForListing).map some

def getMessagesOfExchange (exchangeName : Str) (s : State) :
    Except PyError (Option (List Val)) :=
  match s.exchanges.get? exchangeName with
  | none => .ok none
  | some e => (e.messages.mapM encodeForListing).map some

end State

/-- A document given to `json.dumps`, with the objects it does not know how to write. -/
inductive Doc where
  | val (v : Val)
  | list (items : List Doc)
  | dict (entries : List (Str × Doc))
  | deque (items : List Doc)
  | set (items : List Str)
  | protocol (c : ConnId)

mutual

def Val.isJson : Val → Bool
  | .none | .bool _ | .int _ | .float _ | .str _ => true
  | .decimal _ _ | .datetime _ | .bytes _ => false
  | .list items => allJson items
  | .dict entries => entriesJson entries

def allJson : List Val → Bool
  | [] => true
  | v :: rest => v.isJson && allJson rest

def entriesJson : List (Str × Val) → Bool
  | [] => true
  | (_, v) :: rest => v.isJson && entriesJson rest

end

mutual

def Doc.isJson : Doc → Bool
  | .val v => v.isJson
  | .list items => allDocs items
  | .dict entries => entryDocs entries
  | .deque _ | .set _ | .protocol _ => false

def allDocs : List Doc → Bool
  | [] => true
  | d :: rest => d.isJson && allDocs rest

def entryDocs : List (Str × Doc) → Bool
  | [] => true
  | (_, d) :: rest => d.isJson && entryDocs rest

end

namespace State

def messageDoc (m : StoredMessage) : Doc :=
  .dict [(str "headers", .val m.headers), (str "body", .val m.body)]

def exchangeDoc (e : Exchange) : Doc :=
  .dict [(str "type", .val (.str e.type)), (str "messages", .list (e.messages.map messageDoc))]

def consumerDoc (k : Consumer) : Doc :=
  .dict [(str "protocol", .protocol k.protocol),
    (str "channel_number", .val (.int k.channelNumber))]

def queueDoc (q : Queue) : Doc :=
  .dict [(str "messages", .deque (q.messages.map messageDoc)),
    (str "consumers", .dict (q.consumers.entries.map fun p => (p.1, consumerDoc p.2)))]

def tagsDoc (tags : OrderedSet Int) : Doc := .list (tags.elems.map fun t => .val (.int t))

/-- The document `to_json` hands to `json.dumps`. -/
def document (s : State) : Doc :=
  .dict [
    (str "users", .dict (s.users.entries.map fun p => (p.1, .val (.str p.2)))),
    (str "exchanges", .dict (s.exchanges.entries.map fun p => (p.1, exchangeDoc p.2))),
    (str "queues", .dict (s.queues.entries.map fun p => (p.1, queueDoc p.2))),
    (str "queues_bound_exchanges",
      .dict (s.queuesBoundExchanges.entries.map fun p => (p.1, .set p.2.elems))),
    (str "authentication_tried_on",
      .dict (s.authenticationTriedOn.entries.map fun p => (p.1, .val (.bool p.2)))),
    (str "messages_acknowledged", tagsDoc s.messageAcknowledged),
    (str "messages_not_acknowledged", tagsDoc s.messageNotAcknowledged),
    (str "messages_requeued", tagsDoc s.messageRequeued)]

end State

/-! ## Waits -/

/-- The five `wait_*` coroutines with their arguments. -/
inductive Wait where
  | authenticationPerformedOn (username : Bytes)
  | messageAcknowledged (deliveryTag : Int)
  | messageNotAcknowledged (deliveryTag : Int)
  | messageRequeued (deliveryTag : Int)
  | queueBound (queue exchange : Str)

/-- One turn of the polling loop: a result to return, or `none` to sleep. -/
def Wait.poll (s : State) : Wait → Except PyError (Option Bool)
  | .authenticationPerformedOn username => do
      let decodedUsername ← decodeUtf8 false username
      return s.authenticationTriedOn.get? decodedUsername
  | .messageAcknowledged t =>
      .ok (if t ∈ s.messageAcknowledged.elems then some true else none)
  | .messageNotAcknowledged t =>
      .ok (if t ∈ s.messageNotAcknowledged.elems then some true else none)
  | .messageRequeued t =>
      .ok (if t ∈ s.messageRequeued.elems then some true else none)
  | .queueBound queue exchange =>
      .ok (if queue ∈ ((s.queuesBoundExchanges.get? exchange).getD .empty).elems then some true
        else none)

/-- The polling loop of a wait, by the states that its polls see. -/
def Wait.result (w : Wait) : List State → Except PyError Bool
  | [] => .error .waitTimeout
  | s :: rest => do
      match ← w.poll s with
      | some r => .ok r
      | none => w.result rest

end MockAmqp
