import MockAmqp.Channels

/-!
# Runs of the server

The event loop delivers bytes to connections and HTTP requests to the shared state, in any
order. Every such run is also a run of smaller turns, in which a connection treats one frame
at a time.
-/

namespace MockAmqp
open Exec

/-- What an HTTP request can do to the broker. -/
inductive HttpOp where
  | reset
  | declareExchange (exchangeName exchangeType : Str)
  | declareQueue (queueName : Str)
  | deleteMessagesOfQueue (queueName : Str)
  | deleteMessagesOfExchange (exchangeName : Str)
  | publishMessage (exchangeName : Str) (pub : Publication)
  | publishMessageInQueue (queueName : Str) (pub : Publication)

def updateState (f : State → State) : OnBroker Unit :=
  update fun b => { b with state := f b.state }

def HttpOp.run (env : Env) : HttpOp → OnBroker Unit
  | reset => updateState (State.reset env)
  | declareExchange name type => updateState fun s => (s.declareExchange name type).2
  | declareQueue name => updateState fun s => (s.declareQueue name).2
  | deleteMessagesOfQueue name => updateState fun s => s.deleteMessagesOfQueue name
  | deleteMessagesOfExchange name => updateState fun s => s.deleteMessagesOfExchange name
  | publishMessage name pub => do let _ ← MockAmqp.publishMessage env name pub
  | publishMessageInQueue name pub => do let _ ← MockAmqp.publishMessageInQueue name pub

structure Server where
  broker : Broker
  buffers : ConnId → Bytes

inductive Action where
  | dataReceived (c : ConnId) (data : Bytes)
  | connectionLost (c : ConnId)
  | http (op : HttpOp)

/-- One thing that happens to the broker: a connection treats a frame or a protocol header,
its transport closes, or a request acts on the state. -/
inductive Turn where
  | frame (c : ConnId) (f : FrameValue)
  | start (c : ConnId)
  | lost (c : ConnId)
  | http (op : HttpOp)

def Turn.step (env : Env) (b : Broker) : Turn → Broker
  | frame c f => after (dispatch env c f) b
  | start c =>
      if (b.trackers c).parserState = .waitingProtocolHeader then after (greet c) b else b
  | lost c => after (close c) b
  | http op => after (op.run env) b

namespace Server

def init (env : Env) (draws : Nat → Draw) : Server where
  broker := Broker.init env draws
  buffers := fun _ => []

/-- The event loop delivers nothing after `transport.close()`. -/
def step (env : Env) (s : Server) : Action → Server
  | .dataReceived c data =>
      if s.broker.isClosing c then s
      else
        let r := after (dataReceived env c data) (s.buffers c, s.broker)
        { broker := r.2, buffers := Function.update s.buffers c r.1 }
  | .connectionLost c => { s with broker := after (close c) s.broker }
  | .http op => { s with broker := after (op.run env) s.broker }

/-- The turns that one action consists of. -/
def turns (env : Env) (s : Server) : Action → List Turn
  | .dataReceived c data =>
      let buffer := s.buffers c ++ data
      if s.broker.isClosing c then []
      else if (s.broker.trackers c).parserState = .waitingProtocolHeader then
        if buffer.length < PROTOCOL_HEADER.length then []
        else if buffer ≠ PROTOCOL_HEADER then [.lost c]
        else [.start c]
      else (Framing.taken frameReader (dispatch env c) buffer.length (buffer, s.broker)).map
        (.frame c)
  | .connectionLost c => [.lost c]
  | .http op => [.http op]

def turnsOf (env : Env) : Server → List Action → List Turn
  | _, [] => []
  | s, a :: rest => turns env s a ++ turnsOf env (step env s a) rest

end Server

section
variable {env : Env}

theorem after_onBroker {α : Type} (x : OnBroker α) (r : Receiver) :
    after (onBroker x) r = (r.1, after x r.2) := after_zoom _ _ x r

theorem close_apply (c : ConnId) (b : Broker) :
    close c b = .ok () (after (close c) b) := rfl

theorem checkProtocolHeader_apply (c : ConnId) (buf : Bytes) (b : Broker) :
    checkProtocolHeader c (buf, b) =
      if buf.length < PROTOCOL_HEADER.length then .ok false (buf, b)
      else if buf ≠ PROTOCOL_HEADER then .ok false ([], after (close c) b)
      else .ok true ([], b) := by
  unfold checkProtocolHeader
  simp only [bind_apply, read_apply, Exec.ite_apply]
  split
  · rfl
  · split
    · simp only [onBroker, zoom, close_apply, update_apply, pure_apply]
    · rfl

theorem dataReceived_checked {c : ConnId} {data buf : Bytes} {b : Broker}
    (h : (b.trackers c).parserState = .waitingProtocolHeader) {ok : Bool} {r : Receiver}
    (check : checkProtocolHeader c (buf ++ data, b) = .ok ok r) :
    dataReceived env c data (buf, b) = if ok then onBroker (greet c) r else .ok () r := by
  unfold dataReceived
  rw [bind_apply, update_apply]
  simp only [bind_apply, read_apply]
  rw [if_pos h, bind_ok check]
  cases ok <;> rfl

/-- `data_received` before the protocol header is complete, by cases on the buffer. -/
theorem dataReceived_header {c : ConnId} {data buf : Bytes} {b : Broker}
    (h : (b.trackers c).parserState = .waitingProtocolHeader) :
    after (dataReceived env c data) (buf, b) =
      if (buf ++ data).length < PROTOCOL_HEADER.length then (buf ++ data, b)
      else if buf ++ data ≠ PROTOCOL_HEADER then ([], after (close c) b)
      else ([], after (greet c) b) := by
  have check := checkProtocolHeader_apply c (buf ++ data) b
  by_cases short : (buf ++ data).length < PROTOCOL_HEADER.length
  · rw [if_pos short] at check ⊢
    exact after_ok (dataReceived_checked h check)
  · rw [if_neg short] at check ⊢
    by_cases other : buf ++ data ≠ PROTOCOL_HEADER
    · rw [if_pos other] at check ⊢
      exact after_ok (dataReceived_checked h check)
    · rw [if_neg other] at check ⊢
      rw [← after_onBroker (greet c) ([], b)]
      exact after_congr ((dataReceived_checked h check).trans (if_pos rfl))

/-- After the protocol header, `data_received` is the loop over frames. -/
theorem dataReceived_frames {c : ConnId} {data buf : Bytes} {b : Broker}
    (h : (b.trackers c).parserState ≠ .waitingProtocolHeader) :
    dataReceived env c data (buf, b) =
      Framing.feed frameReader (dispatch env c) data (buf, b) := by
  unfold dataReceived Framing.feed
  simp [h]

theorem Turn.step_start {b : Broker} {c : ConnId}
    (h : (b.trackers c).parserState = .waitingProtocolHeader) :
    Turn.step env b (.start c) = after (greet c) b := if_pos h

theorem greet_within {R : Broker → Broker → Prop} {c : ConnId} (hp : Progress R)
    (reply : Within R (reply c .connectionStart))
    (parser : Within R (setParserState c .waitingStartOk)) : Within R (greet c) :=
  within_bind hp reply (fun _ => parser)

theorem Turn.start_state (env : Env) (b : Broker) (c : ConnId) :
    (Turn.step env b (.start c)).state = b.state := by
  by_cases h : (b.trackers c).parserState = .waitingProtocolHeader
  · rw [Turn.step_start h]
    exact greet_within sameState_progress (sameState_reply c _) (fun _ => rfl) b
  · exact congrArg Broker.state (if_neg h)

theorem Server.step_refines (s : Server) (a : Action) :
    (Server.step env s a).broker = Runs.run (Turn.step env) s.broker (Server.turns env s a) := by
  cases a with
  | connectionLost c => rfl
  | http op => rfl
  | dataReceived c data =>
      simp only [Server.step, Server.turns]
      by_cases hc : s.broker.isClosing c = true
      · rw [if_pos hc, if_pos hc]
        rfl
      · rw [if_neg hc, if_neg hc]
        by_cases hp : (s.broker.trackers c).parserState = .waitingProtocolHeader
        · rw [dataReceived_header hp, if_pos hp]
          by_cases short : (s.buffers c ++ data).length < PROTOCOL_HEADER.length
          · rw [if_pos short, if_pos short]
            rfl
          · rw [if_neg short, if_neg short]
            by_cases other : s.buffers c ++ data ≠ PROTOCOL_HEADER
            · rw [if_pos other, if_pos other]
              rfl
            · rw [if_neg other, if_neg other]
              rw [Runs.run_cons, Runs.run_nil, Turn.step_start hp]
        · have loop : after (dataReceived env c data) (s.buffers c, s.broker) =
              after (Framing.drain frameReader (dispatch env c) (s.buffers c ++ data).length)
                (s.buffers c ++ data, s.broker) := by
            simp only [after, dataReceived_frames hp, Framing.feed]
          rw [if_neg hp, loop, Framing.after_drain]
          simp only [Runs.run, List.foldl_map]
          rfl

theorem Server.run_refines (s : Server) (actions : List Action) :
    (Runs.run (Server.step env) s actions).broker =
      Runs.run (Turn.step env) s.broker (Server.turnsOf env s actions) := by
  induction actions generalizing s with
  | nil => rfl
  | cons a rest ih =>
      rw [Runs.run_cons, ih, Server.step_refines]
      exact (Runs.run_append _ _ _ _).symm

/-- The brokers of the states that the server can reach. -/
def Reachable (env : Env) (b : Broker) : Prop :=
  ∃ draws actions, b = (Runs.run (Server.step env) (Server.init env draws) actions).broker

theorem Reachable.invariant {I : Broker → Prop} (start : ∀ draws, I (Broker.init env draws))
    (keep : ∀ b t, I b → I (Turn.step env b t)) {b : Broker} (h : Reachable env b) : I b := by
  obtain ⟨draws, actions, rfl⟩ := h
  rw [Server.run_refines]
  exact Runs.invariant keep (start draws) _

end

/-- A connection that starts leaves the reply and the new parser state in the trace. -/
theorem Turn.start_byConn (env : Env) (b : Broker) (c : ConnId) :
    ByConn c (fun e => e = .reply c .connectionStart ∨ e = .parser c .waitingStartOk) b
      (Turn.step env b (.start c)) := by
  have hp := byConn_progress c
    fun e => e = .reply c .connectionStart ∨ e = .parser c .waitingStartOk
  by_cases h : (b.trackers c).parserState = .waitingProtocolHeader
  · rw [Turn.step_start h]
    exact greet_within hp (byConn_reply (.inl rfl)) (byConn_setParserState (.inr rfl)) b
  · have same : Turn.step env b (.start c) = b := if_neg h
    rw [same]
    exact hp.refl b

/-! ## Sessions of a client -/

/-- The default account of the server, and sets iterated as they were filled. -/
def guestEnv : Env where
  defaultUser := str "guest"
  defaultPassword := str "guest"
  setOrder := id
  setOrder_perm := fun _ => List.Perm.refl _

/-- The bytes of a method frame, empty when a value does not fit its format. -/
def methodBytes (n classId methodId : Nat) (format : String) (values : List Val) : Bytes :=
  match dumps format.toList values with
  | .ok arguments => [1, 0, UInt8.ofNat n] ++ beBytes 4 (4 + arguments.length) ++
      [0, UInt8.ofNat classId, 0, UInt8.ofNat methodId] ++ arguments ++ [0xCE]
  | .error _ => []

/-- A login as the default user, and the opening of channel 1. -/
def logIn (c : ConnId) : List Action :=
  [.dataReceived c PROTOCOL_HEADER,
    .dataReceived c (methodBytes 0 10 11 "FsSs"
      [.dict [], .str (str "PLAIN"), .str (str "\x00guest\x00guest"), .str (str "en_US")]),
    .dataReceived c (methodBytes 0 10 31 "BlB" [.int 0, .int 131072, .int 10]),
    .dataReceived c (methodBytes 0 10 40 "ssb" [.str (str "/"), .str [], .bool false]),
    .dataReceived c (methodBytes 1 20 10 "s" [.str []])]

def consume (c : ConnId) (queueName consumerTag : String) : List Action :=
  [.dataReceived c (methodBytes 1 60 20 "BssbbbbF"
    [.int 0, .str (str queueName), .str (str consumerTag), .bool false, .bool false, .bool false,
      .bool false, .dict []])]

def session (actions : List Action) : Server :=
  Runs.run (Server.step guestEnv) (Server.init guestEnv fun _ => ⟨7, by decide⟩) actions

theorem session_reachable (actions : List Action) : Reachable guestEnv (session actions).broker :=
  ⟨_, actions, rfl⟩

end MockAmqp
