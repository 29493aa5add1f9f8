import MockAmqp.Lib.Exec
import MockAmqp.Method

/-!
# Frames written by the server

Each `send_*` function hands bytes to `transport.write` and may raise half-way.
-/

namespace MockAmqp
open Exec

/-- The bytes handed to `write`, and whether `close` was called or the peer went away. -/
structure Transport where
  written : Bytes
  closing : Bool
  deriving DecidableEq

abbrev Send := EStateM PyError Transport

def write (b : Bytes) : Send Unit := update fun t => { t with written := t.written ++ b }

/-- `bytearray([kind, 0, channel_number])` -/
def frameStart (kind channelNumber : Nat) : Except PyError Bytes :=
  if channelNumber < 256 then .ok [UInt8.ofNat kind, 0, UInt8.ofNat channelNumber]
  else .error .valueError

/-- The writes shared by the senders of method frames. -/
def sendMethod (channelNumber classId methodId : Nat) (arguments : Bytes) : Send Unit := do
  write (← attempt (frameStart 1 channelNumber))
  write (← attempt (packUnsigned 4 (4 + arguments.length : Nat)))
  write [0, UInt8.ofNat classId, 0, UInt8.ofNat methodId]
  write arguments
  write [0xCE]

def sendMethodArgs (channelNumber classId methodId : Nat) (format : String)
    (values : List Val) : Send Unit := do
  let arguments ← attempt (dumps format.toList values)
  sendMethod channelNumber classId methodId arguments

def sendHeartbeat : Send Unit := do
  write [8, 0, 0]
  write (← attempt (packUnsigned 4 0))
  write [0xCE]

def peerProperties : Val := .dict [
  (str "capabilities", .dict [
    (str "authentication_failure_close", .bool true),
    (str "consumer_priorities", .bool true),
    (str "exchange_exchange_bindings", .bool true),
    (str "direct_reply_to", .bool true),
    (str "per_consumer_qos", .bool true),
    (str "basic.nack", .bool true),
    (str "publisher_confirms", .bool true),
    (str "consumer_cancel_notify", .bool true),
    (str "connection.blocked", .bool true)]),
  (str "information", .str (str "Licensed under the MPL.  See http://www.rabbitmq.com/")),
  (str "cluster_name", .str (str "rabbit@60b584cb4c1b")),
  (str "product", .str (str "RabbitMQ")),
  (str "version", .str (str "3.7.4")),
  (str "copyright", .str (str "Copyright (C) 2007-2018 Pivotal Software, Inc.")),
  (str "platform", .str (str "Erlang/OTP 20.2.4"))]

def sendConnectionStart : Send Unit :=
  sendMethodArgs 0 10 10 "ooFSS"
    [.int 0, .int 9, peerProperties, .str (str "PLAIN AMQPLAIN"), .str (str "en_US")]

def sendConnectionCloseOk : Send Unit := sendMethod 0 10 51 []

def sendConnectionTune : Send Unit :=
  sendMethodArgs 0 10 30 "BlB" [.int 0, .int 131072, .int 10]

def sendConnectionOk : Send Unit := sendMethodArgs 0 10 41 "s" [.str (str "")]

def sendBasicCancelOk (channelNumber : Nat) (consumerTag : Str) : Send Unit :=
  sendMethodArgs channelNumber 60 31 "s" [.str consumerTag]

def sendChannelOpenOk (channelNumber : Nat) (channelId : Str) : Send Unit :=
  sendMethodArgs channelNumber 20 11 "S" [.str channelId]

def sendChannelCloseOk (channelNumber : Nat) : Send Unit := sendMethod channelNumber 20 41 []

def sendExchangeDeclareOk (channelNumber : Nat) : Send Unit := sendMethod channelNumber 40 11 []

def sendQueueDeclareOk (channelNumber : Nat) (queueName : Str)
    (messageCount consumerCount : Nat) : Send Unit :=
  sendMethodArgs channelNumber 50 11 "sll" [.str queueName, .int messageCount, .int consumerCount]

def sendQueueBindOk (channelNumber : Nat) : Send Unit := sendMethod channelNumber 50 21 []

def sendBasicQosOk (channelNumber : Nat) : Send Unit := sendMethod channelNumber 60 11 []

def sendBasicConsumeOk (channelNumber : Nat) (consumerTag : Str) : Send Unit :=
  sendMethodArgs channelNumber 60 21 "s" [.str consumerTag]

def sendBasicDeliver (channelNumber : Nat) (consumerTag : Str) (deliveryTag : Nat)
    (redelivered : Bool) (exchangeName routingKey : Str) : Send Unit :=
  sendMethodArgs channelNumber 60 60 "sLbss"
    [.str consumerTag, .int deliveryTag, .bool redelivered, .str exchangeName, .str routingKey]

/-- `PROPERTIES` of the sender, a table of its own. -/
def PROPERTIES : List (Str × Char × Nat) :=
  [(str "content_type", 's', 2 ^ 15),
    (str "content_encoding", 's', 2 ^ 14),
    (str "application_headers", 'F', 2 ^ 13),
    (str "delivery_mode", 'o', 2 ^ 12),
    (str "priority", 'o', 2 ^ 11),
    (str "correlation_id", 's', 2 ^ 10),
    (str "reply_to", 's', 2 ^ 9),
    (str "expiration", 's', 2 ^ 8),
    (str "message_id", 's', 2 ^ 7),
    (str "timestamp", 'L', 2 ^ 6),
    (str "type", 's', 2 ^ 5),
    (str "user_id", 's', 2 ^ 4),
    (str "app_id", 's', 2 ^ 3),
    (str "cluster_id", 's', 2 ^ 2)]

/-- The flag word, the formats and the values of the properties that are present. -/
def collectProperties (properties : Val) :
    List (Str × Char × Nat) → Except PyError (Nat × List Char × List Val)
  | [] => .ok (0, [], [])
  | (name, format, bit) :: rest => do
      if ← properties.contains name then
        let value ← properties.subscript name
        let (flags, formats, values) ← collectProperties properties rest
        return (bit + flags, format :: formats, value :: values)
      else collectProperties properties rest

def sendContentHeader (channelNumber : Nat) (properties : Val) (bodySize : Nat) : Send Unit := do
  write (← attempt (frameStart 2 channelNumber))
  let (propertyFlags, formats, values) ← attempt (collectProperties properties PROPERTIES)
  let arguments ← attempt (dumps ("BBLB".toList ++ formats)
    ([.int 60, .int 0, .int bodySize, .int propertyFlags] ++ values))
  write (← attempt (packUnsigned 4 arguments.length))
  write arguments
  write [0xCE]

/-- The argument of `transport.write`, which takes no text. -/
def writable : Val → Except PyError Bytes
  | .bytes b => .ok b
  | _ => .error .typeError

def sendContentBody (channelNumber : Nat) (body : Val) : Send Unit := do
  write (← attempt (frameStart 3 channelNumber))
  write (← attempt (packUnsigned 4 (← attempt body.len)))
  write (← attempt (writable body))
  write [0xCE]

/-! ## Senders only write -/

/-- Bytes are only added, and the transport is neither closed nor reopened. -/
def Wrote (t u : Transport) : Prop := t.written <+: u.written ∧ u.closing = t.closing

theorem wrote_progress : Progress Wrote where
  refl := fun _ => ⟨List.prefix_rfl, rfl⟩
  trans := fun h k => ⟨h.1.trans k.1, k.2.trans h.2⟩

theorem write_within (b : Bytes) : Within Wrote (write b) :=
  within_update fun _ => ⟨List.prefix_append _ _, rfl⟩

theorem write_attempt_within (x : Except PyError Bytes) {f : Unit → Send Unit}
    (hf : Within Wrote (f ())) : Within Wrote (do f (← write (← attempt x))) :=
  within_bind wrote_progress (within_attempt wrote_progress x) fun b =>
    within_bind wrote_progress (write_within b) fun _ => hf

theorem sendMethod_within (n classId methodId : Nat) (arguments : Bytes) :
    Within Wrote (sendMethod n classId methodId arguments) := by
  have rest : Within Wrote (do
      write [0, UInt8.ofNat classId, 0, UInt8.ofNat methodId]
      write arguments
      write [0xCE]) :=
    within_bind wrote_progress (write_within _) fun _ =>
      within_bind wrote_progress (write_within _) fun _ => write_within _
  exact write_attempt_within _ (write_attempt_within _ rest)

theorem sendMethodArgs_within (n classId methodId : Nat) (format : String) (values : List Val) :
    Within Wrote (sendMethodArgs n classId methodId format values) :=
  within_bind wrote_progress (within_attempt wrote_progress _) fun _ => sendMethod_within _ _ _ _

theorem sendHeartbeat_within : Within Wrote sendHeartbeat :=
  within_bind wrote_progress (write_within _) fun _ => write_attempt_within _ (write_within _)

theorem sendContentHeader_within (n : Nat) (properties : Val) (bodySize : Nat) :
    Within Wrote (sendContentHeader n properties bodySize) := by
  refine write_attempt_within _ ?_
  refine within_bind wrote_progress (within_attempt wrote_progress _) fun _ => ?_
  refine within_bind wrote_progress (within_attempt wrote_progress _) fun _ => ?_
  refine write_attempt_within _ ?_
  exact within_bind wrote_progress (write_within _) fun _ => write_within _

theorem sendContentBody_within (n : Nat) (body : Val) :
    Within Wrote (sendContentBody n body) := by
  refine write_attempt_within _ ?_
  refine within_bind wrote_progress (within_attempt wrote_progress _) fun _ => ?_
  exact write_attempt_within _ (write_attempt_within _ (write_within _))

/-! ## Channel numbers that fit one byte -/

theorem frameStart_large {kind n : Nat} (h : 256 ≤ n) : frameStart kind n = .error .valueError :=
  if_neg (by omega)

theorem frameStart_small {kind n : Nat} (h : n < 256) :
    frameStart kind n = .ok [UInt8.ofNat kind, 0, UInt8.ofNat n] := if_pos h

/-- On a channel number from 256 on, a method frame is not even begun. -/
theorem sendMethodArgs_large {n : Nat} (h : 256 ≤ n) (classId methodId : Nat) (format : String)
    (values : List Val) (t : Transport) :
    ∃ e, sendMethodArgs n classId methodId format values t = .error e t := by
  unfold sendMethodArgs sendMethod
  cases dumps format.toList values with
  | error e => exact ⟨e, rfl⟩
  | ok arguments =>
      rw [frameStart_large h]
      exact ⟨.valueError, rfl⟩

theorem sendMethodArgs_small {n : Nat} (h : n < 256) {classId methodId : Nat} {format : String}
    {values : List Val} {arguments : Bytes} (encoded : dumps format.toList values = .ok arguments)
    (fits : arguments.length < 2 ^ 31) (t : Transport) :
    ∃ t', sendMethodArgs n classId methodId format values t = .ok () t' := by
  have size : packUnsigned 4 (4 + arguments.length : Nat) =
      .ok (beBytes 4 (4 + arguments.length)) := by
    unfold packUnsigned
    rw [if_pos ⟨by omega, by omega⟩]
    rfl
  unfold sendMethodArgs sendMethod
  rw [encoded, attempt_bind_ok, frameStart_small h, size]
  exact ⟨_, rfl⟩

end MockAmqp
