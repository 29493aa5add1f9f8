import MockAmqp.Broker
import MockAmqp.Lib.Framing

/-!
# The AMQP side

The treatment of frames by `TrackerProtocol` and its `data_received`.
-/

namespace MockAmqp
open Exec

def PROTOCOL_HEADER : Bytes := [0x41, 0x4D, 0x51, 0x50, 0, 0, 9, 1]

/-- `s.split('\x00', 3)` -/
def splitNul : Nat → Str → List Str
  | 0, s => [s]
  | n + 1, s =>
      match s.dropWhile (· ≠ 0) with
      | [] => [s]
      | _ :: rest => s.takeWhile (· ≠ 0) :: splitNul n rest

/-- The user name and password of a PLAIN response. -/
def plainCredentials (response : Str) : Except PyError (Str × Str) :=
  match splitNul 3 response with
  | [_, username, password] => .ok (username, password)
  | _ => .error .valueError

/-- The user name and password of an AMQPLAIN response. -/
def amqplainCredentials (response : Str) : Except PyError (Str × Str) := do
  let (values, _) ← loads "soSsoS".toList (← encodeUtf8 response) 0
  match values with
  | [_, _, .str username, _, _, .str password] => .ok (username, password)
  | _ => .error .valueError

/-- A channel as `_upsert_channel` creates it. -/
def newChannel (channelNumber : Nat) : Channel where
  state := .waitingOpen
  number := channelNumber
  exchange := none
  routingKey := none
  onGoingMessage := none

section
variable (env : Env) (c : ConnId)

def checkStartOk (frame : FrameValue) : OnBroker Bool := do
  let mechanism ← attempt (frame.argStr .mechanism)
  if mechanism = str "PLAIN" then
    let (username, password) ← attempt (plainCredentials (← attempt (frame.argStr .response)))
    call env c (.checkCredentials username password)
  else if mechanism = str "AMQPLAIN" then
    let (username, password) ← attempt (amqplainCredentials (← attempt (frame.argStr .response)))
    call env c (.checkCredentials username password)
  else return false

def checkOpen (_frame : FrameValue) : Bool := true

def checkChannelOpen (_frame : FrameValue) : Bool := true

def upsertChannel (channelNumber : Nat) : OnBroker Unit := do
  if ¬ (← read fun b : Broker => (b.trackers c).channels.contains channelNumber) then
    setChannel c channelNumber (newChannel channelNumber)

/-- The branch of `_treat_channel_frame` for a channel in state OPENED. -/
def treatOpenedChannelFrame (channelNumber : Nat) (channel : Channel) (frame : FrameValue) :
    OnBroker Unit :=
  match frame.methodId with
  | some .exchangeDeclare => do
      let ok ← call env c (.declareExchange (← attempt (frame.argStr .exchangeName))
        (← attempt (frame.argStr .type)))
      if ¬ ok then close c
      reply c (.exchangeDeclareOk channelNumber)
  | some .queueDeclare => do
      let queueName ← attempt (frame.argStr .queueName)
      let ok ← call env c (.declareQueue queueName)
      if ¬ ok then close c
      reply c (.queueDeclareOk channelNumber queueName 0 0)
  | some .queueBind => do
      let ok ← call env c (.bindQueue (← attempt (frame.argStr .queueName))
        (← attempt (frame.argStr .exchangeName)))
      if ¬ ok then close c
      else reply c (.queueBindOk channelNumber)
  | some .basicQos => reply c (.basicQosOk channelNumber)
  | some .basicPublish => do
      let channel := { channel with state := .waitingHeader }
      setChannel c channelNumber channel
      let channel := { channel with exchange := ← attempt (frame.argStr .exchangeName) }
      setChannel c channelNumber channel
      setChannel c channelNumber
        { channel with routingKey := ← attempt (frame.argStr .routingKey) }
  | some .basicConsume => do
      let consumerTag ← attempt (frame.argStr .consumerTag)
      let _ ← call env c (.registerConsumer c consumerTag (← attempt (frame.argStr .queueName))
        channelNumber)
      reply c (.basicConsumeOk channelNumber consumerTag)
  | some .basicAck => do
      let _ ← call env c (.messageAck (← attempt (frame.argInt .deliveryTag)))
  | some .basicNack => do
      let _ ← call env c (.messageNack (← attempt (frame.argInt .deliveryTag))
        (← attempt (frame.arg .requeue)).truthy)
  | some .basicCancel => do
      reply c (.basicCancelOk channelNumber (← attempt (frame.argStr .consumerTag)))
  | _ => pure ()

/-- The branch of `_treat_channel_frame` for a channel in state WAITING_BODY. -/
def treatBodyFrame (channelNumber : Nat) (channel : Channel) : FrameValue → OnBroker Unit
  | .body b => do
      match channel.onGoingMessage with
      | none => raise .keyError
      | some message =>
          let message := message.addContent b.content
          let channel := { channel with onGoingMessage := some message }
          setChannel c channelNumber channel
          if message.isComplete then
            match channel.exchange with
            | none => raise .keyError
            | some exchange =>
                let ok ← call env c (.storeMessage exchange
                  (.dict message.headers.properties.entries) (.bytes message.content))
                if ¬ ok then close c
                else
                  setChannel c channelNumber
                    { channel with state := .opened, onGoingMessage := none }
  | _ => pure ()

/-- `_treat_channel_frame` once the channel has been looked up. -/
def treatFrameOn (channel : Channel) (frame : FrameValue) : OnBroker Unit := do
  let channelNumber := frame.channelNumber
  if channel.state = .waitingOpen then
    if frame.methodId ≠ some .channelOpen then close c
    else if ¬ checkChannelOpen frame then close c
    else
      reply c (.channelOpenOk channel.number)
      setChannel c channelNumber { channel with state := .opened }
      log (.channelOpened c channelNumber)
  else if frame.methodId = some .channelClose then
    deleteChannel c channelNumber
    reply c (.channelCloseOk channelNumber)
    close c
  else match channel.state with
    | .waitingOpen => pure ()
    | .opened => treatOpenedChannelFrame env c channelNumber channel frame
    | .waitingHeader =>
        match frame with
        | .header h =>
            -- the new state lets the frame fall through to the branch for bodies
            let channel := { channel with
              state := .waitingBody, onGoingMessage := some (Message.make h) }
            setChannel c channelNumber channel
            treatBodyFrame env c channelNumber channel frame
        | _ => pure ()
    | .waitingBody => treatBodyFrame env c channelNumber channel frame

def treatChannelFrame (frame : FrameValue) : OnBroker Unit := do
  treatFrameOn env c (← getChannel c frame.channelNumber) frame

/-- One turn of the loop of `data_received`, after the frame left the buffer. The result
tells `continue` from `return`. -/
def dispatch (frame : FrameValue) : OnBroker Bool := do
  let parserState ← read fun b : Broker => (b.trackers c).parserState
  log (.frame c parserState frame)
  match frame with
  | .heartBeat _ =>
      reply c .heartbeat
      return true
  | _ =>
      if frame.channelNumber ≠ 0 then
        upsertChannel c frame.channelNumber
        treatChannelFrame env c frame
        return true
      else if frame.methodId = some .connectionClose then
        reply c .connectionCloseOk
        close c
        return false
      else match parserState with
        | .waitingStartOk =>
            if ¬ (← checkStartOk env c frame) then
              close c
              return false
            else
              reply c .connectionTune
              setParserState c .waitingTuneOk
              return false
        | .waitingTuneOk =>
            if frame.methodId ≠ some .tuneOk then
              close c
              return false
            else
              setParserState c .waitingOpen
              return true
        | .waitingOpen =>
            if frame.methodId ≠ some .connectionOpen then
              close c
              return false
            else if ¬ checkOpen frame then
              close c
              return false
            else
              reply c .connectionOk
              setParserState c .opened
              return true
        | _ => return true

def frameReader : Framing.Reader PyError UInt8 FrameValue where
  read := readFrame
  size := FrameValue.size

/-- The receive buffer of the connection and everything else. -/
abbrev Receiver := Bytes × Broker

def onBroker {α : Type} (x : OnBroker α) : EStateM PyError Receiver α :=
  zoom Prod.snd (fun b r => (r.1, b)) x

def checkProtocolHeader : EStateM PyError Receiver Bool := do
  let buffer ← read Prod.fst
  if buffer.length < PROTOCOL_HEADER.length then return false
  else if buffer ≠ PROTOCOL_HEADER then
    onBroker (close c)
    update fun r => ([], r.2)
    return false
  else
    update fun r => ([], r.2)
    return true

/-- What `data_received` does once the protocol header is complete. -/
def greet : OnBroker Unit := do
  reply c .connectionStart
  setParserState c .waitingStartOk

def dataReceived (data : Bytes) : EStateM PyError Receiver Unit := do
  update fun r => (r.1 ++ data, r.2)
  let buffer ← read Prod.fst
  if (← read fun r : Receiver => (r.2.trackers c).parserState) = .waitingProtocolHeader then
    if ¬ (← checkProtocolHeader c) then return
    onBroker (greet c)
  else
    Framing.drain frameReader (dispatch env c) buffer.length

end

end MockAmqp
