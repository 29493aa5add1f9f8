import MockAmqp.Json
import MockAmqp.Server

/-!
# The HTTP side

`HTTPProtocol`, its loop over the events of h11 and its handlers. Of h11 only the documented
contract is used: it finds events in the bytes it is given and returns them one at a time,
accepts one response for a request, and pauses on bytes behind a request that has been read.
-/

namespace MockAmqp
namespace Http
open Exec

abbrev Headers := List (Bytes × Bytes)

/-- What h11 finds in the bytes of a request. Malformed bytes make `next_event` raise. -/
inductive H11Event where
  | request (method target : Bytes) (headers : Headers)
  | data (data : Bytes)
  | endOfMessage
  | malformed (e : PyError)

/-- The result of `next_event`. -/
inductive NextEvent where
  | event (e : H11Event)
  | needData
  | paused

/-- The bytes of one call of `data_received`: what they add to the current request, and whether
they go on with a following one. -/
structure Chunk where
  events : List H11Event
  following : Bool

/-- `h11.Connection(h11.SERVER)`: the events not returned yet, whether bytes of a following
request are buffered, whether `EndOfMessage` has been returned, and whether a response has been
accepted. -/
structure Connection where
  pending : List H11Event
  following : Bool
  readAll : Bool
  responded : Bool

/-- The body of a response. What `json.dumps` writes is left as the document it writes. -/
inductive Body where
  | bytes (b : Bytes)
  | json (d : Doc)
  deriving Inhabited

/-- A response, without its date. -/
structure Response where
  statusCode : Nat
  headers : Headers
  body : Body

inductive RequestState where
  | waitingHeaders
  | waitingBody
  deriving DecidableEq

structure HttpProtocol where
  httpParser : Connection
  state : RequestState
  method : Option Bytes
  target : Option Bytes
  headers : Option Headers
  /-- What has been written to the transport. -/
  responses : List Response
  closing : Bool
  /-- The futures whose callback is `_on_get_done`. -/
  futures : List Wait

def HttpProtocol.init : HttpProtocol where
  httpParser := { pending := [], following := false, readAll := false, responded := false }
  state := .waitingHeaders
  method := none
  target := none
  headers := none
  responses := []
  closing := false
  futures := []

abbrev OnHttp := EStateM PyError (HttpProtocol × Broker)

def onGlobalState {α : Type} (x : OnBroker α) : OnHttp α :=
  zoom Prod.snd (fun b s => (s.1, b)) x

def updateProtocol (g : HttpProtocol → HttpProtocol) : OnHttp Unit := update fun s => (g s.1, s.2)

def closeTransport : OnHttp Unit := updateProtocol fun h => { h with closing := true }

/-! ## Responses -/

/-- `http_parser.send` of a response, and the writing of it. -/
def send (r : Response) : OnHttp Unit := fun s =>
  if s.1.httpParser.responded then .error .localProtocolError s
  else .ok () ({ s.1 with
    httpParser := { s.1.httpParser with responded := true }
    responses := s.1.responses ++ [r] }, s.2)

def decimal (n : Nat) : Bytes := ascii (toString n)

/-- The length is left out where the body is a JSON text. -/
def contentLength : Body → Headers
  | .bytes b => [(ascii "Content-Length", decimal b.length)]
  | .json _ => []

def sendHttpResponseNoContent : OnHttp Unit := send {
  statusCode := 204
  headers := [(ascii "Server", ascii "whatever"), (ascii "Content-Length", ascii "0"),
    (ascii "Connection", ascii "close")]
  body := .bytes [] }

def sendHttpResponseWithBody (statusCode : Nat) (body : Body) : OnHttp Unit := send {
  statusCode
  headers := (ascii "Server", ascii "whatever") :: contentLength body ++
    [(ascii "Connection", ascii "close")]
  body }

def sendHttpResponseWithJsonBody (statusCode : Nat) (body : Body) : OnHttp Unit := send {
  statusCode
  headers := (ascii "Server", ascii "whatever") :: contentLength body ++
    [(ascii "Content-Type", ascii "application/json"), (ascii "Connection", ascii "close")]
  body }

def sendHttpResponseForbidden : OnHttp Unit :=
  sendHttpResponseWithBody 403 (.bytes (ascii "forbidden\n"))

def sendHttpResponseTimeout : OnHttp Unit :=
  sendHttpResponseWithBody 504 (.bytes (ascii "timeout\n"))

def sendHttpResponseNotFound : OnHttp Unit :=
  sendHttpResponseWithBody 404 (.bytes (ascii "not found\n"))

/-- The body and a line break, which is left out behind a JSON text. -/
def sendHttpResponseOk : Body → OnHttp Unit
  | .bytes b => sendHttpResponseWithBody 200 (.bytes (b ++ ascii "\n"))
  | .json d => sendHttpResponseWithBody 200 (.json d)

def sendHttpInternalServerError : OnHttp Unit :=
  sendHttpResponseWithBody 500 (.bytes (ascii "internal server error\n"))

/-! ## Reading requests -/

/-- `target.split(b'/', maxsplit=n)` -/
def splitSlash : Nat → Bytes → List Bytes
  | 0, s => [s]
  | n + 1, s =>
      match s.dropWhile (· ≠ 0x2F) with
      | [] => [s]
      | _ :: rest => s.takeWhile (· ≠ 0x2F) :: splitSlash n rest

/-- `parts[i]` -/
def part (parts : List Bytes) (i : Nat) : Except PyError Bytes :=
  match parts[i]? with
  | some p => .ok p
  | none => .error .indexError

def startsWith (s : Bytes) (word : String) : Bool := (ascii word).isPrefixOf s

/-- `target.split(b'/', maxsplit=2)[2]` -/
def lastPart (target : Bytes) : Except PyError Bytes := part (splitSlash 2 target) 2

/-- `s.replace(word, b'')`, with the length of `s` as a bound on the steps. -/
def removeAll (word : Bytes) : Nat → Bytes → Bytes
  | 0, s => s
  | _, [] => []
  | n + 1, c :: rest =>
      if word.isPrefixOf (c :: rest) then removeAll word n ((c :: rest).drop word.length)
      else c :: removeAll word n rest

/-- The loop over the headers in `_build_message`. -/
def keepHeaders : Headers → Bool → List (Str × Val) → Except PyError (Bool × List (Str × Val))
  | [], hasOctetStream, keptHeaders => .ok (hasOctetStream, keptHeaders)
  | (type, value) :: rest, hasOctetStream, keptHeaders =>
      if type = ascii "content-type" ∧ value = ascii "application/octet-stream" then
        keepHeaders rest true keptHeaders
      else if startsWith type "amqp_header_" then do
        let value ← decodeUtf8 false value
        let name ← decodeUtf8 false (removeAll (ascii "amqp_header_") type.length type)
        keepHeaders rest hasOctetStream (assocSet keptHeaders name (.str value))
      else keepHeaders rest hasOctetStream keptHeaders

def buildMessage (data : Bytes) (headers : Headers) : Except PyError Val := do
  let (hasOctetStream, keptHeaders) ← keepHeaders headers false []
  if hasOctetStream then
    return .dict [(str "body", .bytes data), (str "headers", .dict keptHeaders),
      (str "binary", .bool true)]
  else jsonLoads (← decodeUtf8 false data)

/-- `'binary' in full_message and full_message['binary']` -/
def isBinary (fullMessage : Val) : Except PyError Bool := do
  if ← fullMessage.contains (str "binary") then
    return (← fullMessage.subscript (str "binary")).truthy
  else return false

/-- The arguments of a publication, in the order they are evaluated. -/
def readPublication (name data : Bytes) (headers : Headers) :
    Except PyError (Str × Publication) := do
  let fullMessage ← buildMessage data headers
  let name ← decodeUtf8 false name
  let headers ← fullMessage.subscript (str "headers")
  let messageData ← fullMessage.subscript (str "body")
  return (name, { headers, messageData, isBinary := ← isBinary fullMessage })

/-! ## Handlers -/

/-- `asyncio.ensure_future` of a wait, with its callback. -/
def ensureFuture (w : Wait) : OnHttp Unit :=
  updateProtocol fun h => { h with futures := h.futures ++ [w] }

/-- `int(delivery_tag.decode('utf-8'))` -/
def readTag (deliveryTag : Bytes) : Except PyError Int := do
  intOfStr (← decodeUtf8 false deliveryTag)

/-- The answer to a request for stored messages. -/
def sendMessages (messages : Option (List Val)) : OnHttp Unit :=
  match messages with
  | none => sendHttpResponseNotFound
  | some messages =>
      let body := Doc.list (messages.map .val)
      if body.isJson then sendHttpResponseOk (.json body) else raise .typeError

def onGet (target : Bytes) : OnHttp Unit := do
  if target = ascii "/" then
    let body := (← read fun s : HttpProtocol × Broker => s.2.state).document
    if body.isJson then sendHttpResponseWithJsonBody 200 (.json body) else raise .typeError
  else if startsWith target "/authentification-done-with-success-on/" then
    ensureFuture (.authenticationPerformedOn (← attempt (lastPart target)))
  else if startsWith target "/messages-acknowledged/" then
    ensureFuture (.messageAcknowledged (← attempt (readTag (← attempt (lastPart target)))))
  else if startsWith target "/messages-not-acknowledged/" then
    ensureFuture (.messageNotAcknowledged (← attempt (readTag (← attempt (lastPart target)))))
  else if startsWith target "/messages-requeued/" then
    ensureFuture (.messageRequeued (← attempt (readTag (← attempt (lastPart target)))))
  else if startsWith target "/messages-in-queue/" then
    let queueName ← attempt (decodeUtf8 false (← attempt (lastPart target)))
    let s ← read fun s : HttpProtocol × Broker => s.2.state
    sendMessages (← attempt (s.getMessagesOfQueue queueName))
  else if startsWith target "/messages-in-exchange/" then
    let exchangeName ← attempt (decodeUtf8 false (← attempt (lastPart target)))
    let s ← read fun s : HttpProtocol × Broker => s.2.state
    sendMessages (← attempt (s.getMessagesOfExchange exchangeName))
  else if startsWith target "/queue-bound-to-exchange/" then
    match splitSlash 3 target with
    | [_, _, queue, exchange] =>
        ensureFuture (.queueBound (← attempt (decodeUtf8 false queue))
          (← attempt (decodeUtf8 false exchange)))
    | _ => raise .valueError
  else sendHttpResponseNotFound

/-- What `_on_post` does with a message for an exchange or for a queue. -/
def addMessage (publish : Str → Publication → OnBroker (Option Nat)) (target data : Bytes)
    (headers : Headers) : OnHttp Unit := do
  let (name, pub) ← attempt (readPublication (← attempt (lastPart target)) data headers)
  match ← onGlobalState (publish name pub) with
  | none => sendHttpResponseNotFound
  | some deliveryTag => sendHttpResponseOk (.bytes (decimal deliveryTag))

def onPost (env : Env) (target data : Bytes) (headers : Headers) : OnHttp Unit := do
  if startsWith target "/add-message-on/" then
    addMessage (publishMessage env) target data headers
  else if startsWith target "/add-message-in-queue/" then
    addMessage publishMessageInQueue target data headers
  else if startsWith target "/create-exchange/" then
    let exchangeName ← attempt (part (splitSlash 3 target) 2)
    let exchangeType ← attempt (part (splitSlash 3 target) 3)
    let exchangeName ← attempt (decodeUtf8 false exchangeName)
    let exchangeType ← attempt (decodeUtf8 false exchangeType)
    onGlobalState (updateState fun s => (s.declareExchange exchangeName exchangeType).2)
    sendHttpResponseOk (.bytes (ascii "ok"))
  else if startsWith target "/create-queue/" then
    let queueName ← attempt (decodeUtf8 false (← attempt (lastPart target)))
    onGlobalState (updateState fun s => (s.declareQueue queueName).2)
    sendHttpResponseOk (.bytes (ascii "ok"))
  else sendHttpResponseNotFound

def onDelete (target : Bytes) : OnHttp Unit := do
  if startsWith target "/messages-in-queue/" then
    let queueName ← attempt (decodeUtf8 false (← attempt (lastPart target)))
    onGlobalState (updateState fun s => s.deleteMessagesOfQueue queueName)
    sendHttpResponseNoContent
  else if startsWith target "/messages-in-exchange/" then
    let exchangeName ← attempt (decodeUtf8 false (← attempt (lastPart target)))
    onGlobalState (updateState fun s => s.deleteMessagesOfExchange exchangeName)
    sendHttpResponseNoContent
  else sendHttpResponseNotFound

def onPut (_target _data : Bytes) : OnHttp Unit := sendHttpResponseNotFound

/-- The callback of a future that has finished with this result. -/
def onGetDone (result : Except PyError Bool) : OnHttp Unit :=
  match result with
  | .ok success => if ¬ success then sendHttpResponseForbidden else sendHttpResponseNoContent
  | .error .waitTimeout => sendHttpResponseTimeout
  | .error e => raise e

/-! ## The event loop -/

def H11Event.isEnd : H11Event → Bool
  | .endOfMessage => true
  | _ => false

/-- `http_parser.next_event()`. Behind a request that has been read h11 pauses, but it may refuse
the bytes with an exception when the response it has accepted announced the connection's end. -/
def nextEvent (refuses : Option PyError) : OnHttp NextEvent := fun s =>
  let p := s.1.httpParser
  if p.readAll && p.following then
    match refuses with
    | some e => if p.responded then .error e s else .ok .paused s
    | none => .ok .paused s
  else match p.pending with
    | [] => .ok .needData s
    | .malformed e :: _ => .error e s
    | e :: rest => .ok (.event e) ({ s.1 with
        httpParser := { p with pending := rest, readAll := p.readAll || e.isEnd } }, s.2)

/-- The body of the loop in `_data_received`, for an event of a request. -/
def treatEvent (env : Env) : H11Event → OnHttp Unit
  | .request method target headers => do
      if (← read fun s : HttpProtocol × Broker => s.1.state) = .waitingHeaders then
        updateProtocol fun h =>
          { h with method := some method, target := some target, headers := some headers }
        if method = ascii "MOCK_FLUSH" then
          onGlobalState (updateState (State.reset env))
          sendHttpResponseNoContent
        else if method = ascii "GET" then onGet target
        else if method = ascii "DELETE" then onDelete target
        else if method = ascii "POST" ∨ method = ascii "PUT" then
          updateProtocol fun h => { h with state := .waitingBody }
  | .data data => do
      let h ← read Prod.fst
      if h.state = .waitingBody then
        match h.target, h.headers with
        | some target, some headers =>
            if h.method = some (ascii "POST") then onPost env target data headers
            else if h.method = some (ascii "PUT") then onPut target data
        | _, _ => raise .attributeError
  | .endOfMessage =>
      updateProtocol fun h =>
        { h with state := .waitingHeaders, method := none, target := none, headers := none }
  | .malformed _ => pure ()

/-- At most `n` turns of the loop; the result tells whether it has ended. -/
def eventLoop (env : Env) (refuses : Option PyError) : Nat → OnHttp Bool
  | 0 => return false
  | n + 1 => do
      match ← nextEvent refuses with
      | .needData => return true
      | .paused => eventLoop env refuses n
      | .event e =>
          treatEvent env e
          eventLoop env refuses n

def receiveData (chunk : Chunk) : OnHttp Unit :=
  updateProtocol fun h => { h with httpParser := { h.httpParser with
    pending := h.httpParser.pending ++ chunk.events
    following := h.httpParser.following || chunk.following } }

/-- `_data_received`, with a bound on the turns of its loop. -/
def dataReceivedWithin (env : Env) (refuses : Option PyError) (n : Nat) (chunk : Chunk) : OnHttp Bool := do
  receiveData chunk
  eventLoop env refuses n

/-- `data_received` -/
def dataReceived (env : Env) (refuses : Option PyError) (n : Nat) (chunk : Chunk) : OnHttp Bool :=
  tryCatch (dataReceivedWithin env refuses n chunk) fun e => do
    sendHttpInternalServerError
    closeTransport
    raise e

/-! ## Sessions -/

/-- What happens to a connection: bytes arrive, or a future finishes. -/
inductive Action where
  | dataReceived (chunk : Chunk)
  | getDone (result : Except PyError Bool)

/-- A bound on the turns of the loop that is reached only when it goes on for ever. -/
def enough (h : HttpProtocol) (chunk : Chunk) : Nat :=
  h.httpParser.pending.length + chunk.events.length + 1

/-- The event loop delivers nothing after `transport.close()`. -/
def step (env : Env) (refuses : Option PyError) (s : HttpProtocol × Broker) :
    Action → HttpProtocol × Broker
  | .dataReceived chunk =>
      if s.1.closing then s
      else after (dataReceived env refuses (enough s.1 chunk) chunk) s
  | .getDone result =>
      match s.1.futures with
      | [] => s
      | _ :: rest => after (onGetDone result) ({ s.1 with futures := rest }, s.2)

end Http
end MockAmqp
