import MockAmqp.Channels
import MockAmqp.Wire

/-!
# Requests and answers

What a frame asks of the shared state, and what is answered to it. Together they tell all that
the treatment of the frame lets others see.
-/

namespace MockAmqp
open Exec

/-! ## What others see -/

/-- The shared state, the bytes written to each transport, and the record of the replies made
and the channels opened. -/
structure View where
  state : State
  written : ConnId → Bytes
  trace : List Event

def Event.visible : Event → Bool
  | .reply _ _ => true
  | .channelOpened _ _ => true
  | _ => false

def Broker.view (b : Broker) : View where
  state := b.state
  written := fun c => (b.trackers c).transport.written
  trace := b.trace.filter Event.visible

def SameView (b b' : Broker) : Prop := b'.view = b.view

/-- The bytes of a reply whose values fit their formats. -/
def Reply.encoded (r : Reply) : Option Bytes :=
  match r.send { written := [], closing := false } with
  | .ok _ t => some t.written
  | .error _ _ => none

/-- The event that follows the reply to a channel.open. -/
def Reply.opening (c : ConnId) (n : Nat) : Reply → List Event
  | .channelOpenOk _ => [.channelOpened c n]
  | _ => []

namespace View

/-- The view after an operation on the shared state. -/
def asked (env : Env) (v : View) (op : Call) : View :=
  { v with state := after (op.run env) v.state }

/-- The view after a reply on channel `n`. -/
def answered (c : ConnId) (n : Nat) (v : View) : Option Reply → View
  | none => v
  | some r =>
      match r.encoded with
      | none => v
      | some bytes => { v with
          written := Function.update v.written c (v.written c ++ bytes)
          trace := v.trace ++ .reply c r :: r.opening c n }

end View

/-! ## What a frame asks and gets -/

/-- The result of an operation that does not raise. -/
def Call.result (env : Env) (op : Call) (s : State) : Option Bool :=
  match op.run env s with
  | .ok r _ => some r
  | .error _ _ => none

/-- The reply to an operation with this result. -/
def Call.reply (n : Nat) (ok : Bool) : Call → Option Reply
  | checkCredentials _ _ => if ok then some .connectionTune else none
  | declareExchange _ _ => some (.exchangeDeclareOk n)
  | declareQueue queueName => some (.queueDeclareOk n queueName 0 0)
  | bindQueue _ _ => if ok then some (.queueBindOk n) else none
  | registerConsumer _ consumerTag _ _ => some (.basicConsumeOk n consumerTag)
  | _ => none

/-- The credentials in a start-ok. -/
def FrameValue.credentials (f : FrameValue) : Except PyError (Str × Str) := do
  let mechanism ← f.argStr .mechanism
  if mechanism = str "PLAIN" then plainCredentials (← f.argStr .response)
  else if mechanism = str "AMQPLAIN" then amqplainCredentials (← f.argStr .response)
  else .error .valueError

/-- The operation that a frame asks for on an opened channel. -/
def FrameValue.request (c : ConnId) (f : FrameValue) : Except PyError Call :=
  match f.methodId with
  | some .exchangeDeclare => do
      return .declareExchange (← f.argStr .exchangeName) (← f.argStr .type)
  | some .queueDeclare => do return .declareQueue (← f.argStr .queueName)
  | some .queueBind => do return .bindQueue (← f.argStr .queueName) (← f.argStr .exchangeName)
  | some .basicConsume => do
      return .registerConsumer c (← f.argStr .consumerTag) (← f.argStr .queueName) f.channelNumber
  | some .basicAck => do return .messageAck (← f.argInt .deliveryTag)
  | some .basicNack => do
      return .messageNack (← f.argInt .deliveryTag) (← f.arg .requeue).truthy
  | _ => .error .keyError

/-- The reply to a method that asks for nothing on an opened channel. -/
def FrameValue.acknowledged (f : FrameValue) : Option Reply :=
  match f.methodId with
  | some .basicQos => some (.basicQosOk f.channelNumber)
  | some .basicCancel =>
      (f.argStr .consumerTag).toOption.map fun tag => .basicCancelOk f.channelNumber tag
  | _ => none

/-- The message that a body frame completes. -/
def Channel.completed (channel : Channel) : FrameValue → Option Call
  | .body b =>
      match channel.onGoingMessage, channel.exchange with
      | some message, some exchange =>
          let message := message.addContent b.content
          if message.isComplete then
            some (.storeMessage exchange (.dict message.headers.properties.entries)
              (.bytes message.content))
          else none
      | _, _ => none
  | _ => none

/-- The operation that a frame asks for on a channel. -/
def Channel.asks (c : ConnId) (channel : Channel) (f : FrameValue) : Option Call :=
  match channel.state with
  | .opened => (f.request c).toOption
  | .waitingBody => channel.completed f
  | _ => none

/-- The reply on a channel to a frame that asks for nothing. -/
def Channel.acknowledges (channel : Channel) (f : FrameValue) : Option Reply :=
  if channel.state = .waitingOpen then
    if f.methodId = some .channelOpen then some (.channelOpenOk channel.number) else none
  else if f.methodId = some .channelClose then some (.channelCloseOk f.channelNumber)
  else if channel.state = .opened then f.acknowledged
  else none

/-- The operation that a frame asks of the shared state. -/
def Broker.asks (b : Broker) (c : ConnId) (f : FrameValue) : Option Call :=
  if f.channelNumber ≠ 0 then (b.channel c f.channelNumber).asks c f
  else if (b.trackers c).parserState = .waitingStartOk ∧ f.methodId ≠ some .connectionClose then
    f.credentials.toOption.map fun login => .checkCredentials login.1 login.2
  else none

/-- The reply to a frame that asks nothing of the shared state. -/
def Broker.acknowledges (b : Broker) (c : ConnId) (f : FrameValue) : Option Reply :=
  match f with
  | .heartBeat _ => some .heartbeat
  | _ =>
      if f.channelNumber ≠ 0 then (b.channel c f.channelNumber).acknowledges f
      else if f.methodId = some .connectionClose then some .connectionCloseOk
      else if (b.trackers c).parserState = .waitingOpen ∧ f.methodId = some .connectionOpen then
        some .connectionOk
      else none

/-- The reply to a frame, if its values can be encoded. -/
def Broker.answer (env : Env) (b : Broker) (c : ConnId) (f : FrameValue) : Option Reply :=
  match b.asks c f with
  | some op => (op.result env b.state).bind fun ok => op.reply f.channelNumber ok
  | none => b.acknowledges c f

/-- The view after an operation and the reply to its result, or after a reply alone. -/
def View.served (env : Env) (c : ConnId) (n : Nat) (v : View) (asks : Option Call)
    (acknowledges : Option Reply) : View :=
  match asks with
  | some op => (v.asked env op).answered c n
      ((op.result env v.state).bind fun ok => op.reply n ok)
  | none => v.answered c n acknowledges

/-! ## Steps as others see them -/

section
variable {env : Env} {c : ConnId} {n : Nat} {f : FrameValue}

theorem sameView_progress : Progress SameView := ⟨fun _ => rfl, fun h k => k.trans h⟩

theorem sameView_log {e : Event} (h : e.visible = false) : Within SameView (log e) := by
  intro b
  have trace : (b.trace ++ [e]).filter Event.visible = b.trace.filter Event.visible := by
    simp [h]
  show View.mk b.state _ ((b.trace ++ [e]).filter Event.visible) = b.view
  rw [trace]
  rfl

theorem sameView_setTracker {b : Broker} {t : Tracker}
    (same : t.transport.written = (b.trackers c).transport.written) :
    SameView b (b.setTracker c t) := by
  have written : (fun c' => ((b.setTracker c t).trackers c').transport.written) =
      fun c' => (b.trackers c').transport.written := by
    funext c'
    by_cases h : c' = c
    · rw [h, Broker.setTracker_self, same]
    · rw [Broker.setTracker_ne _ h]
  show View.mk b.state _ _ = b.view
  rw [written]
  rfl

theorem sameView_close : Within SameView (close c) := fun _ => sameView_setTracker rfl

theorem sameView_setChannel (channel : Channel) : Within SameView (setChannel c n channel) :=
  fun _ => sameView_setTracker rfl

theorem sameView_deleteChannel : Within SameView (deleteChannel c n) :=
  fun _ => sameView_setTracker rfl

theorem sameView_setParserState (s : ConnectionState) : Within SameView (setParserState c s) :=
  within_bind sameView_progress (within_update fun _ => sameView_setTracker rfl)
    (fun _ => sameView_log rfl)

theorem sameView_received (b : Broker) : SameView b (b.received c f) := by
  have logged : SameView b { b with trace := b.trace ++ [.frame c (b.trackers c).parserState f] } :=
    sameView_log rfl b
  unfold Broker.received
  split
  · exact logged
  · exact sameView_progress.trans logged (sameView_setTracker rfl)

/-- A reply is made, or it raises and is not seen. -/
theorem reply_view (r : Reply) (b : Broker) :
    (∃ bytes b', r.encoded = some bytes ∧ reply c r b = .ok () b' ∧
      b'.view = { b.view with
        written := Function.update b.view.written c (b.view.written c ++ bytes)
        trace := b.view.trace ++ [.reply c r] }) ∨
    ∃ e b', r.encoded = none ∧ reply c r b = .error e b' ∧ b'.view = b.view := by
  obtain ⟨_, ⟨e, failed⟩ | ⟨raw, _, sent⟩⟩ := r.send_whole
  · refine .inr ⟨e, _, ?_, reply_error (failed _), sameView_setTracker rfl⟩
    simp only [Reply.encoded, failed]
  · refine .inl ⟨raw.bytes, _, ?_, reply_ok (sent _), ?_⟩
    · simp only [Reply.encoded, sent, Transport.put_written, List.nil_append]
    · have written : (fun c' => ((b.setTracker c { b.trackers c with
          transport := (b.trackers c).transport.put raw.bytes }).trackers c').transport.written) =
          Function.update b.view.written c (b.view.written c ++ raw.bytes) := by
        funext c'
        by_cases h : c' = c
        · rw [h, Broker.setTracker_self, Function.update_self]
          rfl
        · rw [Broker.setTracker_ne _ h, Function.update_of_ne h]
          rfl
      have trace : (b.trace ++ [Event.reply c r]).filter Event.visible =
          b.view.trace ++ [.reply c r] := by
        rw [List.filter_append]
        rfl
      show View.mk b.state _ ((b.trace ++ [Event.reply c r]).filter Event.visible) = _
      rw [trace, ← written]
      rfl

/-- A reply followed by what is not seen. -/
theorem reply_then_view {α : Type} {r : Reply} (plain : r.opening c n = [])
    {k : Unit → OnBroker α} (hk : ∀ u, Within SameView (k u)) (b : Broker) :
    (after (reply c r >>= k) b).view = b.view.answered c n (some r) := by
  rcases reply_view r b with ⟨bytes, b', encoded, sent, view⟩ | ⟨e, b', encoded, failed, view⟩
  · rw [after_congr (bind_ok sent), hk () b', view]
    simp only [View.answered, encoded, plain]
  · have stopped : after (reply c r >>= k) b = b' := by
      simp only [after, bind_apply, failed]
    rw [stopped, view]
    simp only [View.answered, encoded]

theorem reply_only_view {r : Reply} (plain : r.opening c n = []) (b : Broker) :
    (after (reply c r) b).view = b.view.answered c n (some r) := by
  have same : after (reply c r) b = after (reply c r >>= fun _ => (pure () : OnBroker Unit)) b :=
    (after_bind_pure _ _ _).symm
  rw [same]
  exact reply_then_view plain (fun _ => within_pure sameView_progress _) b

variable (env c) in
theorem call_view (op : Call) (b : Broker) :
    (after (call env c op) b).view = b.view.asked env op := by
  rw [after_call]
  have trace : (b.trace ++ [Event.call c op (op.result env b.state)]).filter Event.visible =
      b.trace.filter Event.visible := by
    rw [List.filter_append]
    exact List.append_nil _
  show View.mk _ _ ((b.trace ++ [Event.call c op (op.result env b.state)]).filter Event.visible) = _
  rw [trace]
  rfl

variable (n) in
/-- An operation, and then what depends on its result. -/
theorem call_then_view {α : Type} (op : Call) {k : Bool → OnBroker α}
    (hk : ∀ ok b, (after (k ok) b).view = b.view.answered c n (op.reply n ok)) (b : Broker) :
    (after (call env c op >>= k) b).view = (b.view.asked env op).answered c n
      ((op.result env b.state).bind fun ok => op.reply n ok) := by
  have called := call_view env c op b
  cases ran : op.run env b.state with
  | ok r s =>
      have done : call env c op b = .ok r { b with
          state := s, trace := b.trace ++ [.call c op (some r)] } := by
        simp only [call, ran]
      rw [after_ok done] at called
      rw [after_congr (bind_ok done), hk, called]
      simp only [Call.result, ran, Option.bind_some]
  | error e s =>
      have failed : call env c op b = .error e { b with
          state := s, trace := b.trace ++ [.call c op none] } := by
        simp only [call, ran]
      have stopped : after (call env c op >>= k) b = after (call env c op) b := by
        simp only [after, bind_apply, failed]
      rw [stopped, called]
      simp only [Call.result, ran, Option.bind_none, View.answered]

/-! ## The treatment of a frame as others see it -/

/-- The close before the reply, when an operation has failed, is not seen. -/
theorem close_then_view {r : Reply} (plain : r.opening c n = []) (ok : Bool) (b : Broker) :
    (after (if ¬ ok then do close c; reply c r else reply c r) b).view =
      b.view.answered c n (some r) := by
  cases ok with
  | false =>
      have closed : after (do close c; reply c r) b = after (reply c r) (after (close c) b) := rfl
      have same := sameView_close (c := c) b
      rw [if_pos (by simp), closed, reply_only_view plain, same]
  | true =>
      rw [if_neg (by simp)]
      exact reply_only_view plain b

theorem treatOpenedChannelFrame_view (channel : Channel) (b : Broker) :
    (after (treatOpenedChannelFrame env c f.channelNumber channel f) b).view =
      b.view.served env c f.channelNumber (f.request c).toOption f.acknowledged := by
  have bound : ∀ ok b, (after (if ¬ ok = true then close c else reply c (.queueBindOk
      f.channelNumber)) b).view = b.view.answered c f.channelNumber
        (if ok = true then some (.queueBindOk f.channelNumber) else none) := by
    intro ok b
    cases ok with
    | false => exact sameView_close b
    | true => exact reply_only_view rfl b
  unfold treatOpenedChannelFrame FrameValue.request FrameValue.acknowledged
  cases hm : f.methodId with
  | none => rfl
  | some m =>
      cases m with
      | exchangeDeclare =>
          dsimp only
          cases f.argStr .exchangeName with
          | error e => rfl
          | ok exchangeName =>
              cases f.argStr .type with
              | error e => rfl
              | ok exchangeType =>
                  exact call_then_view f.channelNumber (.declareExchange exchangeName exchangeType)
                    (close_then_view rfl) b
      | queueDeclare =>
          dsimp only
          cases f.argStr .queueName with
          | error e => rfl
          | ok queueName =>
              exact call_then_view f.channelNumber (.declareQueue queueName)
                (close_then_view rfl) b
      | queueBind =>
          dsimp only
          cases f.argStr .queueName with
          | error e => rfl
          | ok queueName =>
              cases f.argStr .exchangeName with
              | error e => rfl
              | ok exchangeName =>
                  exact call_then_view f.channelNumber (.bindQueue queueName exchangeName)
                    bound b
      | basicQos => exact reply_only_view rfl b
      | basicPublish =>
          -- the three assignments are not seen, however many of them are made
          refine within_bind sameView_progress (sameView_setChannel _) (fun _ => ?_) b
          refine within_attempt_bind sameView_progress (fun _ _ => ?_)
          refine within_bind sameView_progress (sameView_setChannel _) (fun _ => ?_)
          exact within_attempt_bind sameView_progress (fun _ _ => sameView_setChannel _)
      | basicConsume =>
          dsimp only
          cases f.argStr .consumerTag with
          | error e => rfl
          | ok consumerTag =>
              cases f.argStr .queueName with
              | error e => rfl
              | ok queueName =>
                  exact call_then_view f.channelNumber
                    (.registerConsumer c consumerTag queueName f.channelNumber)
                    (fun _ => reply_only_view rfl) b
      | basicAck =>
          dsimp only
          cases f.argInt .deliveryTag with
          | error e => rfl
          | ok deliveryTag =>
              exact call_then_view (k := fun _ => pure ()) f.channelNumber (.messageAck deliveryTag)
                (fun _ _ => rfl) b
      | basicNack =>
          dsimp only
          cases f.argInt .deliveryTag with
          | error e => rfl
          | ok deliveryTag =>
              cases f.arg .requeue with
              | error e => rfl
              | ok requeue =>
                  exact call_then_view (k := fun _ => pure ()) f.channelNumber
                    (.messageNack deliveryTag requeue.truthy) (fun _ _ => rfl) b
      | basicCancel =>
          dsimp only
          cases f.argStr .consumerTag with
          | error e => rfl
          | ok consumerTag => exact reply_only_view rfl b
      | _ => rfl

theorem treatBodyFrame_view (channel : Channel) (b : Broker) :
    (after (treatBodyFrame env c n channel f) b).view =
      b.view.served env c n (channel.completed f) none := by
  have stored : ∀ (channel : Channel) (ok : Bool) b,
      (after (if ¬ ok = true then close c else setChannel c n channel) b).view = b.view := by
    intro channel ok b
    cases ok with
    | false => exact sameView_close b
    | true => exact sameView_setChannel _ b
  cases f with
  | body body =>
      unfold treatBodyFrame Channel.completed
      cases channel.onGoingMessage with
      | none => rfl
      | some message =>
          have kept := sameView_setChannel (c := c) (n := n)
            { channel with onGoingMessage := some (message.addContent body.content) } b
          rw [← kept]
          by_cases whole : (message.addContent body.content).isComplete = true
          · cases channel.exchange with
            | none =>
                simp only [whole, if_true]
                rfl
            | some exchangeName =>
                simp only [whole, if_true]
                exact call_then_view n _ (stored _) _
          · cases channel.exchange with
            | none =>
                simp only [whole]
                rfl
            | some exchangeName =>
                simp only [whole]
                rfl
  | _ => rfl

theorem treatFrameOn_open (channel : Channel) (b : Broker) :
    (after (do
        reply c (.channelOpenOk channel.number)
        setChannel c n { channel with state := .opened }
        log (.channelOpened c n) : OnBroker Unit) b).view =
      b.view.answered c n (some (.channelOpenOk channel.number)) := by
  rcases reply_view (c := c) (.channelOpenOk channel.number) b with
    ⟨bytes, b', encoded, sent, view⟩ | ⟨e, b', encoded, failed, view⟩
  · rw [after_congr (bind_ok sent)]
    have kept := sameView_setChannel (c := c) (n := n) { channel with state := .opened } b'
    have trace : (after (do
        setChannel c n { channel with state := .opened }
        log (.channelOpened c n) : OnBroker Unit) b').view =
        { b'.view with trace := b'.view.trace ++ [.channelOpened c n] } := by
      rw [← kept]
      show View.mk _ _ ((b'.trace ++ [Event.channelOpened c n]).filter Event.visible) = _
      rw [List.filter_append]
      rfl
    rw [trace, view]
    simp only [View.answered, encoded, Reply.opening, List.append_assoc]
    rfl
  · have stopped : after (reply c (.channelOpenOk channel.number) >>= fun _ => do
        setChannel c n { channel with state := .opened }
        log (.channelOpened c n) : OnBroker Unit) b = b' := by
      simp only [after, bind_apply, failed]
    rw [stopped, view]
    simp only [View.answered, encoded]

theorem treatFrameOn_view (channel : Channel) (b : Broker) :
    (after (treatFrameOn env c channel f) b).view =
      b.view.served env c f.channelNumber (channel.asks c f) (channel.acknowledges f) := by
  unfold treatFrameOn Channel.asks Channel.acknowledges
  by_cases waiting : channel.state = .waitingOpen
  · rw [if_pos waiting, if_pos waiting, waiting]
    by_cases opens : f.methodId = some .channelOpen
    · rw [if_neg (not_not_intro opens), if_neg (show ¬ ¬ checkChannelOpen f = true from
        not_not_intro rfl), if_pos opens]
      exact treatFrameOn_open channel b
    · rw [if_pos opens, if_neg opens]
      exact sameView_close b
  · rw [if_neg waiting, if_neg waiting]
    by_cases closes : f.methodId = some .channelClose
    · rw [if_pos closes, if_pos closes]
      have nothing : (match channel.state with
          | .opened => (f.request c).toOption
          | .waitingBody => channel.completed f
          | _ => none) = none := by
        cases channel.state with
        | opened =>
            unfold FrameValue.request
            rw [closes]
            rfl
        | waitingBody =>
            cases f with
            | method m => rfl
            | _ => cases closes
        | _ => rfl
      have deleted := sameView_deleteChannel (c := c) (n := f.channelNumber) b
      rw [nothing, ← deleted]
      exact reply_then_view rfl (fun _ => sameView_close) _
    · rw [if_neg closes, if_neg closes]
      cases state : channel.state with
      | waitingOpen => exact absurd state waiting
      | opened => exact treatOpenedChannelFrame_view channel b
      | waitingHeader =>
          cases f with
          | header h =>
              exact sameView_setChannel
                { channel with state := .waitingBody, onGoingMessage := some (Message.make h) } b
          | _ => rfl
      | waitingBody => exact treatBodyFrame_view channel b

variable (env c f) in
/-- A start-ok with readable credentials has them checked; any other is refused or raises. -/
theorem checkStartOk_run (b : Broker) :
    (∃ login, f.credentials = .ok login ∧
        checkStartOk env c f b = call env c (.checkCredentials login.1 login.2) b) ∨
      ∃ e, f.credentials = .error e ∧
        (checkStartOk env c f b = .error e b ∨ checkStartOk env c f b = .ok false b) := by
  have login : ∀ credentials : Except PyError (Str × Str),
      (∃ login, credentials = .ok login ∧
          checkLogin env c credentials b = call env c (.checkCredentials login.1 login.2) b) ∨
        ∃ e, credentials = .error e ∧ (checkLogin env c credentials b = .error e b ∨
          checkLogin env c credentials b = .ok false b) := by
    intro credentials
    cases credentials with
    | error e => exact .inr ⟨e, rfl, .inl rfl⟩
    | ok login => exact .inl ⟨login, rfl, rfl⟩
  rw [checkStartOk_eq]
  unfold FrameValue.credentials
  cases f.argStr .mechanism with
  | error e => exact .inr ⟨e, rfl, .inl rfl⟩
  | ok mechanism =>
      rw [attempt_bind_ok]
      by_cases plain : mechanism = str "PLAIN"
      · rw [if_pos plain]
        have read : (do
            let mechanism ← (Except.ok mechanism : Except PyError Str)
            if mechanism = str "PLAIN" then plainCredentials (← f.argStr .response)
            else if mechanism = str "AMQPLAIN" then amqplainCredentials (← f.argStr .response)
            else .error .valueError) = f.argStr .response >>= plainCredentials := if_pos plain
        rw [read]
        exact login _
      · rw [if_neg plain]
        by_cases amqplain : mechanism = str "AMQPLAIN"
        · rw [if_pos amqplain]
          have read : (do
              let mechanism ← (Except.ok mechanism : Except PyError Str)
              if mechanism = str "PLAIN" then plainCredentials (← f.argStr .response)
              else if mechanism = str "AMQPLAIN" then amqplainCredentials (← f.argStr .response)
              else .error .valueError) = f.argStr .response >>= amqplainCredentials :=
            (if_neg plain).trans (if_pos amqplain)
          rw [read]
          exact login _
        · rw [if_neg amqplain]
          exact .inr ⟨.valueError, (if_neg plain).trans (if_neg amqplain), .inr rfl⟩

/-- What `data_received` does with a start-ok. -/
theorem startOk_view (b : Broker) :
    (after (do
        if ¬ (← checkStartOk env c f) then
          close c
          return false
        else
          reply c .connectionTune
          setParserState c .waitingTuneOk
          return false : OnBroker Bool) b).view =
      b.view.served env c n
        (f.credentials.toOption.map fun login => .checkCredentials login.1 login.2) none := by
  let next : Bool → OnBroker Bool := fun ok =>
    if ¬ ok then do
      close c
      return false
    else do
      reply c .connectionTune
      setParserState c .waitingTuneOk
      return false
  have refused : ∀ b, (after (next false) b).view = b.view :=
    fun b => within_bind sameView_progress sameView_close
      (fun _ => within_pure sameView_progress _) b
  have checked : ∀ ok b, (after (next ok) b).view =
      b.view.answered c n (if ok then some .connectionTune else none) := by
    intro ok b
    cases ok with
    | false => exact refused b
    | true =>
        exact reply_then_view rfl (fun _ => within_bind sameView_progress
          (sameView_setParserState _) fun _ => within_pure sameView_progress _) b
  have shape : (do
      if ¬ (← checkStartOk env c f) then
        close c
        return false
      else
        reply c .connectionTune
        setParserState c .waitingTuneOk
        return false : OnBroker Bool) = checkStartOk env c f >>= next := rfl
  rw [shape]
  rcases checkStartOk_run env c f b with
    ⟨login, read, run⟩ | ⟨e, unread, raised | denied⟩
  · have same : after (checkStartOk env c f >>= next) b =
        after (call env c (.checkCredentials login.1 login.2) >>= next) b := by
      simp only [after, bind_apply, run]
    rw [same, read]
    exact call_then_view n (.checkCredentials login.1 login.2) checked b
  · have stopped : after (checkStartOk env c f >>= next) b = b := by
      simp only [after, bind_apply, raised]
    rw [stopped, unread]
    rfl
  · rw [after_congr (bind_ok denied), refused, unread]
    rfl

/-- The treatment of a frame of the connection itself. -/
theorem connection_view (hn : f.channelNumber = 0) (b : Broker) :
    (after (dispatch env c f) b).view =
      b.view.served env c f.channelNumber (b.asks c f) (b.acknowledges c f) := by
  have quiet : ∀ (x : OnBroker Unit) (r : Bool), Within SameView x →
      Within SameView (x >>= fun _ => return r) := fun _ _ hx =>
    within_bind sameView_progress hx fun _ => within_pure sameView_progress _
  by_cases beat : ∀ size, f ≠ .heartBeat size
  · have logged := sameView_log (e := .frame c (b.trackers c).parserState f) rfl b
    have acknowledges : b.acknowledges c f =
        if f.methodId = some .connectionClose then some .connectionCloseOk
        else if (b.trackers c).parserState = .waitingOpen ∧ f.methodId = some .connectionOpen then
          some .connectionOk
        else none := by
      cases f with
      | heartBeat size => exact absurd rfl (beat size)
      | _ => exact if_neg (not_not_intro hn)
    have asks : b.asks c f = if (b.trackers c).parserState = .waitingStartOk ∧
        f.methodId ≠ some .connectionClose then
          f.credentials.toOption.map fun login => .checkCredentials login.1 login.2
        else none := if_neg (not_not_intro hn)
    rw [after_congr (dispatch_of_connection hn beat b), ← logged]
    by_cases closes : f.methodId = some .connectionClose
    · rw [if_neg (fun h => h.2 closes)] at asks
      rw [if_pos closes] at acknowledges
      rw [if_pos closes, asks, acknowledges]
      exact reply_then_view rfl (fun _ => quiet _ false sameView_close) _
    · rw [if_neg closes] at acknowledges
      rw [if_neg closes]
      cases state : (b.trackers c).parserState with
      | waitingStartOk =>
          rw [state, if_pos ⟨rfl, closes⟩] at asks
          rw [state, if_neg (fun h => (by cases h.1))] at acknowledges
          rw [asks, acknowledges]
          exact startOk_view _
      | waitingTuneOk =>
          rw [state, if_neg (fun h => (by cases h.1))] at asks acknowledges
          rw [asks, acknowledges]
          dsimp only
          by_cases tuned : f.methodId = some .tuneOk
          · rw [if_neg (not_not_intro tuned)]
            exact quiet _ true (sameView_setParserState _) _
          · rw [if_pos tuned]
            exact quiet _ false sameView_close _
      | waitingOpen =>
          rw [state, if_neg (fun h => (by cases h.1))] at asks
          rw [asks]
          dsimp only
          by_cases opens : f.methodId = some .connectionOpen
          · rw [state, if_pos ⟨rfl, opens⟩] at acknowledges
            rw [if_neg (not_not_intro opens), acknowledges]
            exact reply_then_view rfl (fun _ => quiet _ true (sameView_setParserState _)) _
          · rw [if_neg (fun h => opens h.2)] at acknowledges
            rw [if_pos opens, acknowledges]
            exact quiet _ false sameView_close _
      | _ =>
          rw [state, if_neg (fun h => (by cases h.1))] at asks acknowledges
          rw [asks, acknowledges]
          rfl
  · push Not at beat
    obtain ⟨size, rfl⟩ := beat
    have asks : b.asks c (.heartBeat size) = none := by
      unfold Broker.asks
      rw [if_neg (not_not_intro hn)]
      split
      · rfl
      · rfl
    have logged := sameView_log (e := .frame c (b.trackers c).parserState (.heartBeat size)) rfl b
    rw [asks, ← logged]
    exact reply_then_view (k := fun _ => return true) (r := .heartbeat) rfl
      (fun _ => within_pure sameView_progress _) _

/-- The treatment of a frame, as others see it: the operation it asks for, then its reply. -/
theorem dispatch_view (env : Env) (c : ConnId) (f : FrameValue) (b : Broker) :
    (after (dispatch env c f) b).view =
      b.view.served env c f.channelNumber (b.asks c f) (b.acknowledges c f) := by
  by_cases hn : f.channelNumber = 0
  · exact connection_view hn b
  · have asks : b.asks c f = (b.channel c f.channelNumber).asks c f := if_pos hn
    have acknowledges : b.acknowledges c f = (b.channel c f.channelNumber).acknowledges f := by
      cases f with
      | heartBeat => exact absurd rfl hn
      | _ => exact if_pos hn
    have received := sameView_received (c := c) (f := f) b
    rw [after_dispatch_channel hn, treatFrameOn_view, received, asks, acknowledges]

theorem View.answered_state (n : Nat) (v : View) (o : Option Reply) :
    (v.answered c n o).state = v.state := by
  cases o with
  | none => rfl
  | some r =>
      dsimp only [View.answered]
      cases r.encoded with
      | none => rfl
      | some bytes => rfl

end

end MockAmqp
