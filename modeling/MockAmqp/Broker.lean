import Mathlib.Logic.Function.Basic
import MockAmqp.Sender
import MockAmqp.State

/-!
# Connections and the state they share

Everything a frame or an HTTP request can read or change, apart from the bytes a connection
has received and not treated yet, and a trace of what happened. Here are also the two
publications, which push to the consumers' transports.
-/

namespace MockAmqp
open Exec

/-- `_ConnectionState` -/
inductive ConnectionState where
  | waitingProtocolHeader
  | waitingStartOk
  | waitingTuneOk
  | waitingOpen
  | opened
  | waitingOther
  deriving DecidableEq, Repr

/-- `_ChannelState` -/
inductive ChannelState where
  | waitingOpen
  | opened
  | waitingHeader
  | waitingBody
  deriving DecidableEq, Repr

structure Message where
  headers : Header
  content : Bytes

namespace Message

def make (headers : Header) : Message := { headers, content := [] }

def addContent (m : Message) (content : Bytes) : Message :=
  { m with content := m.content ++ content }

def isComplete (m : Message) : Bool := m.headers.bodySize = m.content.length

end Message

/-- The dictionary kept for a channel; the last three keys are set by a publish. -/
structure Channel where
  state : ChannelState
  number : Nat
  exchange : Option Str
  routingKey : Option Str
  onGoingMessage : Option Message

/-- A `TrackerProtocol`, without its buffer. -/
structure Tracker where
  transport : Transport
  parserState : ConnectionState
  channels : OrderedDict Nat Channel

def Tracker.init : Tracker where
  transport := { written := [], closing := false }
  parserState := .waitingProtocolHeader
  channels := .empty

/-- The calls of `send_*` made while treating frames. -/
inductive Reply where
  | heartbeat
  | connectionStart
  | connectionCloseOk
  | connectionTune
  | connectionOk
  | channelOpenOk (channelNumber : Nat)
  | channelCloseOk (channelNumber : Nat)
  | exchangeDeclareOk (channelNumber : Nat)
  | queueDeclareOk (channelNumber : Nat) (queueName : Str) (messageCount consumerCount : Nat)
  | queueBindOk (channelNumber : Nat)
  | basicQosOk (channelNumber : Nat)
  | basicConsumeOk (channelNumber : Nat) (consumerTag : Str)
  | basicCancelOk (channelNumber : Nat) (consumerTag : Str)
  deriving DecidableEq

def Reply.send : Reply → Send Unit
  | heartbeat => sendHeartbeat
  | connectionStart => sendConnectionStart
  | connectionCloseOk => sendConnectionCloseOk
  | connectionTune => sendConnectionTune
  | connectionOk => sendConnectionOk
  | channelOpenOk n => sendChannelOpenOk n (str "42")
  | channelCloseOk n => sendChannelCloseOk n
  | exchangeDeclareOk n => sendExchangeDeclareOk n
  | queueDeclareOk n queueName messages consumers =>
      sendQueueDeclareOk n queueName messages consumers
  | queueBindOk n => sendQueueBindOk n
  | basicQosOk n => sendBasicQosOk n
  | basicConsumeOk n consumerTag => sendBasicConsumeOk n consumerTag
  | basicCancelOk n consumerTag => sendBasicCancelOk n consumerTag

/-- The operations of the shared state that a frame can call. -/
inductive Call where
  | checkCredentials (username password : Str)
  | declareExchange (exchangeName exchangeType : Str)
  | declareQueue (queueName : Str)
  | bindQueue (queue withExchange : Str)
  | registerConsumer (consumer : ConnId) (consumerTag queueName : Str) (channelNumber : Nat)
  | storeMessage (exchangeName : Str) (headers messageData : Val)
  | messageAck (deliveryTag : Int)
  | messageNack (deliveryTag : Int) (requeue : Bool)

/-- Operations without a result count as returning `True`. -/
def Call.run (env : Env) : Call → EStateM PyError State Bool
  | checkCredentials username password => fun s =>
      let r := s.checkCredentials username password
      .ok r.1 r.2
  | declareExchange name type => fun s => let r := s.declareExchange name type; .ok r.1 r.2
  | declareQueue name => fun s => let r := s.declareQueue name; .ok r.1 r.2
  | bindQueue queue withExchange => fun s => let r := s.bindQueue queue withExchange; .ok r.1 r.2
  | registerConsumer consumer tag queueName n => fun s =>
      let r := s.registerConsumer consumer tag queueName n
      .ok r.1 r.2
  | storeMessage exchangeName headers data => State.storeMessage env exchangeName headers data
  | messageAck tag => fun s => .ok true (s.messageAck tag)
  | messageNack tag requeue => fun s => .ok true (s.messageNack tag requeue)

/-- The arguments of a call of `push_message` on the protocol of a consumer of `queue`. -/
structure Push where
  queue : Str
  protocol : ConnId
  channelNumber : Nat
  consumerTag : Str
  deliveryTag : Nat
  headers : Val
  message : Val
  exchangeName : Str

/-- What the trace records. A frame comes with the parser state it was read in, and a call
with its result, `none` when it raised. -/
inductive Event where
  | frame (c : ConnId) (s : ConnectionState) (f : FrameValue)
  | parser (c : ConnId) (s : ConnectionState)
  | channelOpened (c : ConnId) (n : Nat)
  | call (c : ConnId) (op : Call) (result : Option Bool)
  | reply (c : ConnId) (r : Reply)
  | push (p : Push)

/-- A result of `randint(1, 2**31)`. -/
abbrev Draw := { n : Nat // 1 ≤ n ∧ n ≤ 2 ^ 31 }

structure Broker where
  state : State
  trackers : ConnId → Tracker
  draws : Nat → Draw
  trace : List Event

def Broker.init (env : Env) (draws : Nat → Draw) : Broker where
  state := State.init env
  trackers := fun _ => Tracker.init
  draws := draws
  trace := []

abbrev OnBroker := EStateM PyError Broker

def log (e : Event) : OnBroker Unit := update fun b => { b with trace := b.trace ++ [e] }

def onState {α : Type} (x : EStateM PyError State α) : OnBroker α :=
  zoom Broker.state (fun s b => { b with state := s }) x

def Broker.setTracker (b : Broker) (c : ConnId) (t : Tracker) : Broker :=
  { b with trackers := Function.update b.trackers c t }

def onTransport (c : ConnId) (x : Send Unit) : OnBroker Unit :=
  zoom (fun b => (b.trackers c).transport)
    (fun t b => b.setTracker c { b.trackers c with transport := t }) x

/-- `self.transport.close()` -/
def close (c : ConnId) : OnBroker Unit := onTransport c (update fun t => { t with closing := true })

def Broker.isClosing (b : Broker) (c : ConnId) : Bool := (b.trackers c).transport.closing

def reply (c : ConnId) (r : Reply) : OnBroker Unit := do
  onTransport c r.send
  log (.reply c r)

def call (env : Env) (c : ConnId) (op : Call) : OnBroker Bool := fun b =>
  match op.run env b.state with
  | .ok result s =>
      .ok result { b with state := s, trace := b.trace ++ [.call c op (some result)] }
  | .error e s => .error e { b with state := s, trace := b.trace ++ [.call c op none] }

def setParserState (c : ConnId) (s : ConnectionState) : OnBroker Unit := do
  update fun b => b.setTracker c { b.trackers c with parserState := s }
  log (.parser c s)

/-- `self._channels[n]` -/
def getChannel (c : ConnId) (n : Nat) : OnBroker Channel := fun b =>
  match (b.trackers c).channels.get? n with
  | some channel => .ok channel b
  | none => .error .keyError b

/-- Assignments to keys of `self._channels[n]`. -/
def setChannel (c : ConnId) (n : Nat) (channel : Channel) : OnBroker Unit :=
  update fun b => b.setTracker c
    { b.trackers c with channels := (b.trackers c).channels.insert n channel }

def deleteChannel (c : ConnId) (n : Nat) : OnBroker Unit :=
  update fun b => b.setTracker c
    { b.trackers c with channels := (b.trackers c).channels.erase n }

def randint : OnBroker Nat := fun b =>
  .ok (b.draws 0).val { b with draws := fun n => b.draws (n + 1) }

/-! ## Publications -/

def Push.send (p : Push) : Send Unit := do
  sendBasicDeliver p.channelNumber p.consumerTag p.deliveryTag false p.exchangeName []
  sendContentHeader p.channelNumber p.headers (← attempt p.message.len)
  sendContentBody p.channelNumber p.message

/-- `TrackerProtocol.push_message` -/
def pushMessage (p : Push) : OnBroker Unit := do
  log (.push p)
  onTransport p.protocol p.send

/-- The arguments shared by the two publications. -/
structure Publication where
  headers : Val
  messageData : Val
  isBinary : Bool

def Publication.stored (pub : Publication) : StoredMessage :=
  { headers := pub.headers, body := pub.messageData }

/-- `message_data.encode('utf8') if not is_binary else message_data` -/
def Publication.payload (pub : Publication) : Except PyError Val :=
  if pub.isBinary then .ok pub.messageData
  else match pub.messageData with
    | .str s => (encodeUtf8 s).map .bytes
    | _ => .error .attributeError

/-- The call of `push_message` on a consumer of `queueName`. -/
def pushTo (queueName : Str) (pub : Publication) (exchangeName : Str) (p : Str × Consumer)
    (deliveryTag : Nat) (message : Val) : Push where
  queue := queueName
  protocol := p.2.protocol
  channelNumber := p.2.channelNumber
  consumerTag := p.1
  deliveryTag := deliveryTag
  headers := pub.headers
  message := message
  exchangeName := exchangeName

/-- The loop over `consumers.items()`, with `delivery_tag` and `dead_consumers` as they are
when it ends. -/
def offer (queueName : Str) (pub : Publication) (exchangeName : Str) :
    List (Str × Consumer) → Option Nat → List Str → OnBroker (Option Nat × List Str)
  | [], deliveryTag, deadConsumers => pure (deliveryTag, deadConsumers)
  | (consumerTag, consumer) :: rest, _, deadConsumers => do
      let deliveryTag ← randint
      if ← read fun b : Broker => b.isClosing consumer.protocol then
        offer queueName pub exchangeName rest (some deliveryTag) (deadConsumers ++ [consumerTag])
      else
        let message ← attempt pub.payload
        pushMessage (pushTo queueName pub exchangeName (consumerTag, consumer) deliveryTag message)
        -- a message is only sent to one consumer per queue
        return (some deliveryTag, deadConsumers)

def getConsumers (queueName : Str) : OnBroker (OrderedDict Str Consumer) := fun b =>
  match b.state.queues.get? queueName with
  | some q => .ok q.consumers b
  | none => .error .keyError b

def State.deleteConsumers (queueName : Str) (dead : List Str) (s : State) : State :=
  match s.queues.get? queueName with
  | none => s
  | some q => s.setQueue queueName
      { q with consumers := dead.foldl (fun d tag => d.erase tag) q.consumers }

/-- What both publications do with one queue: offer the message to its consumers in order,
then forget the dead ones that were passed over. -/
def serveQueue (queueName : Str) (pub : Publication) (exchangeName : Str) :
    OnBroker (Option Nat) := do
  let consumers ← getConsumers queueName
  let (deliveryTag, deadConsumers) ←
    offer queueName pub exchangeName consumers.entries none []
  update fun b => { b with state := b.state.deleteConsumers queueName deadConsumers }
  return deliveryTag

/-- The loop over the queues bound to an exchange. Its `return delivery_tag` ends it in the
first turn. -/
def serveBoundQueues (pub : Publication) (exchangeName : Str) :
    List Str → OnBroker (Option Nat)
  | [] => return none
  | queueName :: _ => serveQueue queueName pub exchangeName

/-- `State.publish_message` -/
def publishMessage (env : Env) (exchangeName : Str) (pub : Publication) :
    OnBroker (Option Nat) := do
  if ¬ (← read fun b : Broker => b.state.exchanges.contains exchangeName) then
    return none
  onState (State.appendToExchange exchangeName pub.stored)
  serveBoundQueues pub exchangeName
    (← read fun b : Broker => b.state.boundQueues env exchangeName)

/-- `State.publish_message_in_queue` -/
def publishMessageInQueue (queueName : Str) (pub : Publication) : OnBroker (Option Nat) := do
  if ¬ (← read fun b : Broker => b.state.queues.contains queueName) then
    return none
  onState (State.appendToQueue queueName pub.stored)
  serveQueue queueName pub (str "dummy-exchange")

end MockAmqp
