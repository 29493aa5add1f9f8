import MockAmqp.Serialization

/-!
# Frames and their payloads

The objects `read_frame` returns, the decoders of method arguments and content headers,
and `read_frame` itself.
-/

namespace MockAmqp

/-- The methods of `_ID_TO_METHOD`. `MethodIDs.OPEN` and `MethodIDs.CLOSE` are the
connection's; `MethodIDs.HEART_BEAT` is an alias of `TUNE_OK`. -/
inductive MethodId where
  | startOk
  | tuneOk
  | connectionOpen
  | connectionClose
  | channelOpen
  | channelClose
  | basicCancel
  | basicQos
  | basicPublish
  | basicConsume
  | basicAck
  | basicNack
  | exchangeDeclare
  | queueDeclare
  | queueBind
  deriving DecidableEq, Repr

namespace MethodId

def code : MethodId → Nat
  | startOk => 0x000A000B
  | tuneOk => 0x000A001F
  | connectionOpen => 0x000A0028
  | connectionClose => 0x000A0032
  | channelOpen => 0x0014000A
  | channelClose => 0x00140028
  | basicCancel => 0x003C001E
  | basicQos => 0x003C000A
  | basicPublish => 0x003C0028
  | basicConsume => 0x003C0014
  | basicAck => 0x003C0050
  | basicNack => 0x003C0078
  | exchangeDeclare => 0x0028000A
  | queueDeclare => 0x0032000A
  | queueBind => 0x00320014

def all : List MethodId :=
  [startOk, tuneOk, connectionOpen, connectionClose, channelOpen, channelClose, basicCancel,
    basicQos, basicPublish, basicConsume, basicAck, basicNack, exchangeDeclare, queueDeclare,
    queueBind]

/-- `_ID_TO_METHOD[method_id]` -/
def ofCode (n : Nat) : Except PyError MethodId :=
  match all.find? (·.code = n) with
  | some m => .ok m
  | none => .error .keyError

theorem ofCode_code (m : MethodId) : ofCode m.code = .ok m := by
  cases m <;> rfl

end MethodId

/-- The keys of the dictionaries the decoders build. -/
inductive ArgName where
  | peerProperties | mechanism | response | locale
  | channelMax | frameMax | heartbeat
  | vhost | capabilities | insist
  | reserved1 | replyCode | replyText | classId | methodId
  | prefetchSize | prefetchCount | global
  | exchangeName | type | passive | durable | autoDelete | internal | noWait | arguments
  | routingKey | mandatory | immediate
  | queueName | consumerTag | noLocal | noAck | exclusive
  | deliveryTag | multiple | requeue
  deriving DecidableEq, Repr

abbrev Args := OrderedDict ArgName Val

/-- `values[i]` under each name, after `loads(format, payload, offset=4)`. -/
def decodeArgs (format : String) (names : List (ArgName × Nat)) (payload : Bytes) :
    Except PyError Args := do
  let (values, _) ← loads format.toList payload 4
  let entries ← names.mapM fun p =>
    match values[p.2]? with
    | some v => .ok (p.1, v)
    | none => .error .indexError
  return .ofList entries

def decodeStartOk : Bytes → Except PyError Args :=
  decodeArgs "FsSs" [(.peerProperties, 0), (.mechanism, 1), (.response, 2), (.locale, 3)]

def decodeTuneOk : Bytes → Except PyError Args :=
  decodeArgs "BlB" [(.channelMax, 0), (.frameMax, 1), (.heartbeat, 2)]

def decodeOpen : Bytes → Except PyError Args :=
  decodeArgs "ssb" [(.vhost, 0), (.capabilities, 1), (.insist, 2)]

def decodeClose (_payload : Bytes) : Except PyError Args := .ok .empty

def decodeChannelOpen : Bytes → Except PyError Args := decodeArgs "s" [(.reserved1, 0)]

def decodeChannelClose : Bytes → Except PyError Args :=
  decodeArgs "BsBB" [(.replyCode, 0), (.replyText, 1), (.classId, 2), (.methodId, 3)]

def decodeBasicQos : Bytes → Except PyError Args :=
  decodeArgs "lBb" [(.prefetchSize, 0), (.prefetchCount, 1), (.global, 2)]

-- `values[6]` is read for both 'internal' and 'no-wait', and `values[7]` for 'arguments'
def decodeExchangeDeclare : Bytes → Except PyError Args :=
  decodeArgs "BssbbbbbF" [(.reserved1, 0), (.exchangeName, 1), (.type, 2), (.passive, 3),
    (.durable, 4), (.autoDelete, 5), (.internal, 6), (.noWait, 6), (.arguments, 7)]

def decodeBasicPublish : Bytes → Except PyError Args :=
  decodeArgs "Bssbb" [(.reserved1, 0), (.exchangeName, 1), (.routingKey, 2), (.mandatory, 3),
    (.immediate, 4)]

def decodeBasicConsume : Bytes → Except PyError Args :=
  decodeArgs "BssbbbbF" [(.reserved1, 0), (.queueName, 1), (.consumerTag, 2), (.noLocal, 3),
    (.noAck, 4), (.exclusive, 5), (.noWait, 6), (.arguments, 7)]

def decodeQueueDeclare : Bytes → Except PyError Args :=
  decodeArgs "BsbbbbbF" [(.reserved1, 0), (.queueName, 1), (.passive, 2), (.durable, 3),
    (.exclusive, 4), (.autoDelete, 5), (.noWait, 6), (.arguments, 7)]

def decodeQueueBind : Bytes → Except PyError Args :=
  decodeArgs "BsssbF" [(.reserved1, 0), (.queueName, 1), (.exchangeName, 2), (.routingKey, 3),
    (.noWait, 4), (.arguments, 5)]

def decodeBasicAck : Bytes → Except PyError Args :=
  decodeArgs "Lb" [(.deliveryTag, 0), (.multiple, 1)]

def decodeBasicNack : Bytes → Except PyError Args :=
  decodeArgs "Lbb" [(.deliveryTag, 0), (.multiple, 1), (.requeue, 2)]

def decodeBasicCancel : Bytes → Except PyError Args :=
  decodeArgs "sb" [(.consumerTag, 0), (.noWait, 1)]

/-- The values of `_ID_TO_METHOD`. -/
def MethodId.decoder : MethodId → Bytes → Except PyError Args
  | .startOk => decodeStartOk
  | .tuneOk => decodeTuneOk
  | .connectionOpen => decodeOpen
  | .connectionClose => decodeClose
  | .channelOpen => decodeChannelOpen
  | .channelClose => decodeChannelClose
  | .basicCancel => decodeBasicCancel
  | .basicQos => decodeBasicQos
  | .basicPublish => decodeBasicPublish
  | .basicConsume => decodeBasicConsume
  | .basicAck => decodeBasicAck
  | .basicNack => decodeBasicNack
  | .exchangeDeclare => decodeExchangeDeclare
  | .queueDeclare => decodeQueueDeclare
  | .queueBind => decodeQueueBind

structure Method where
  channelNumber : Nat
  size : Nat
  methodId : MethodId
  properties : Args

structure Header where
  channelNumber : Nat
  size : Nat
  classId : Nat
  bodySize : Nat
  properties : OrderedDict Str Val

structure Body where
  channelNumber : Nat
  size : Nat
  content : Bytes

/-- What `read_frame` returns. -/
inductive FrameValue where
  | method (m : Method)
  | header (h : Header)
  | body (b : Body)
  | heartBeat (size : Nat)

/-- `Method.__init__` -/
def Method.make (channelNumber size code : Nat) (payload : Bytes) : Except PyError Method := do
  let methodId ← MethodId.ofCode code
  return { channelNumber, size, methodId, properties := ← methodId.decoder payload }

/-- `Header.PROPERTIES` -/
def Header.PROPERTIES : List (Str × Char × Nat) :=
  [(str "content_type", 's', 2 ^ 15),
    (str "content_encoding", 's', 2 ^ 14),
    (str "application_headers", 'F', 2 ^ 13),
    (str "delivery_mode", 'o', 2 ^ 12),
    (str "priority", 'o', 2 ^ 11),
    (str "correlation_id", 's', 2 ^ 10),
    (str "reply_to", 's', 2 ^ 9),
    (str "expiration", 's', 2 ^ 8),
    (str "message_id", 's', 2 ^ 7),
    (str "timestamp", 'L', 2 ^ 6),
    (str "type", 's', 2 ^ 5),
    (str "user_id", 's', 2 ^ 4),
    (str "app_id", 's', 2 ^ 3),
    (str "cluster_id", 's', 2 ^ 2)]

/-- `Header.__init__` -/
def Header.make (channelNumber size classId bodySize propertyFlags : Nat) (payload : Bytes) :
    Except PyError Header := do
  let present := Header.PROPERTIES.filter fun p => propertyFlags &&& p.2.2 ≠ 0
  let (values, _) ← loads (present.map (·.2.1)) payload 14
  return { channelNumber, size, classId, bodySize,
           properties := .ofList ((present.map (·.1)).zip values) }

namespace FrameValue

def size : FrameValue → Nat
  | .method m => m.size
  | .header h => h.size
  | .body b => b.size
  | .heartBeat n => n

/-- `frame_value.method_id`, which headers and bodies have as `None`. -/
def methodId : FrameValue → Option MethodId
  | .method m => some m.methodId
  | _ => none

/-- `frame_value.channel_number`; heartbeats are treated before it is read. -/
def channelNumber : FrameValue → Nat
  | .method m => m.channelNumber
  | .header h => h.channelNumber
  | .body b => b.channelNumber
  | .heartBeat _ => 0

/-- `frame_value.properties[name]`. The properties of a header are under other names, and
a body has none. -/
def arg (name : ArgName) : FrameValue → Except PyError Val
  | .method m =>
      match m.properties.get? name with
      | some v => .ok v
      | none => .error .keyError
  | .header _ => .error .keyError
  | _ => .error .attributeError

def argStr (name : ArgName) (f : FrameValue) : Except PyError Str := do
  match ← f.arg name with
  | .str s => .ok s
  | _ => .error .typeError

def argInt (name : ArgName) (f : FrameValue) : Except PyError Int := do
  match ← f.arg name with
  | .int i => .ok i
  | _ => .error .typeError

end FrameValue

/-! ## `read_frame` -/

/-- `struct.unpack('>BHL', data_in[0:7])`: type, channel number and payload size. -/
def frameHead (data : Bytes) : Option (Nat × Nat × Nat) :=
  if 7 ≤ data.length then
    some (beNat (slice data 0 1), beNat (slice data 1 3), beNat (slice data 3 7))
  else none

def decodePayload (frameType channelNumber frameSize : Nat) (payload : Bytes) :
    Except PyError (Option FrameValue) :=
  if frameType = 1 then do
    let methodId ← unpackFrom 4 payload 0
    return some (.method (← Method.make channelNumber frameSize methodId payload))
  else if frameType = 8 then .ok (some (.heartBeat frameSize))
  else if frameType = 2 then do
    let classId ← unpackFrom 2 (slice payload 0 14) 0
    let bodySize ← unpackFrom 8 (slice payload 0 14) 4
    let propertyFlags ← unpackFrom 2 (slice payload 0 14) 12
    return some (.header
      (← Header.make channelNumber frameSize classId bodySize propertyFlags payload))
  else if frameType = 3 then
    .ok (some (.body { channelNumber, size := frameSize, content := payload }))
  else .ok none

def readFrame (data : Bytes) : Except PyError (Option FrameValue) :=
  match frameHead data with
  | none => .ok none
  | some (frameType, channelNumber, payloadSize) =>
      let frameSize := 7 + payloadSize + 1
      if data.length < frameSize then .ok none
      else if slice data (frameSize - 1) frameSize ≠ [0xCE] then
        .error (.invalidFrameError "Invalid FRAME_END marker")
      else decodePayload frameType channelNumber frameSize (slice data 7 (frameSize - 1))

end MockAmqp
