import MockAmqp.Answers

/-!
# What comes out of a run

Everything on a transport is in the trace, and what the trace records as sent is determined by the
frames treated and the requests made.
-/

namespace MockAmqp
open Exec

/-! ## Senders do not look at what was written before -/

/-- What is written, and how it ends, is the same on every transport. -/
def Appends {α : Type} (x : Send α) : Prop :=
  ∃ (result : Except PyError α) (bytes : Bytes), ∀ t, x t = attempt result (t.put bytes)

section
variable {α β : Type}

theorem Transport.put_nil (t : Transport) : t.put [] = t := by simp [Transport.put]

theorem appends_attempt (x : Except PyError α) : Appends (attempt x : Send α) :=
  ⟨x, [], fun t => by rw [t.put_nil]⟩

theorem appends_write (b : Bytes) : Appends (write b) := ⟨.ok (), b, fun _ => rfl⟩

theorem appends_bind {x : Send α} {f : α → Send β} (hx : Appends x) (hf : ∀ a, Appends (f a)) :
    Appends (x >>= f) := by
  obtain ⟨result, bytes, ran⟩ := hx
  cases result with
  | error e => exact ⟨.error e, bytes, fun t => by rw [bind_apply, ran]; rfl⟩
  | ok a =>
      obtain ⟨later, more, rest⟩ := hf a
      refine ⟨later, bytes ++ more, fun t => ?_⟩
      rw [bind_ok (ran t), rest, Transport.put_put]

theorem Appends.after {x : Send α} (h : Appends x) (t : Transport) :
    after x t = t.put (Exec.after x { written := [], closing := false }).written := by
  obtain ⟨result, bytes, ran⟩ := h
  have ended : ∀ t, Exec.after x t = t.put bytes := by
    intro t
    cases result with
    | ok a => exact after_ok (ran t)
    | error e => exact after_error (ran t)
  rw [ended, ended, Transport.put_written, List.nil_append]

end

theorem appends_writeAttempt (x : Except PyError Bytes) {f : Unit → Send Unit}
    (hf : Appends (f ())) : Appends (do f (← write (← attempt x))) :=
  appends_bind (appends_attempt x) fun b => appends_bind (appends_write b) fun _ => hf

theorem appends_sendBasicDeliver (n : Nat) (tag : Str) (deliveryTag : Nat) (redelivered : Bool)
    (exchangeName routingKey : Str) :
    Appends (sendBasicDeliver n tag deliveryTag redelivered exchangeName routingKey) := by
  refine appends_bind (appends_attempt _) fun arguments => ?_
  refine appends_writeAttempt _ (appends_writeAttempt _ ?_)
  refine appends_bind (appends_write _) fun _ => ?_
  exact appends_bind (appends_write _) fun _ => appends_write _

theorem appends_sendContentHeader (n : Nat) (properties : Val) (bodySize : Nat) :
    Appends (sendContentHeader n properties bodySize) := by
  refine appends_writeAttempt _ ?_
  refine appends_bind (appends_attempt _) fun _ => appends_bind (appends_attempt _) fun _ => ?_
  exact appends_writeAttempt _ (appends_bind (appends_write _) fun _ => appends_write _)

theorem appends_sendContentBody (n : Nat) (body : Val) : Appends (sendContentBody n body) := by
  refine appends_writeAttempt _ (appends_bind (appends_attempt _) fun _ => ?_)
  exact appends_writeAttempt _ (appends_writeAttempt _ (appends_write _))

/-- The bytes that a push writes, up to where it fails. -/
def Push.written (p : Push) : Bytes := (after p.send { written := [], closing := false }).written

theorem appends_content (p : Push) : Appends p.content :=
  appends_bind (appends_attempt _) fun _ =>
    appends_bind (appends_sendContentHeader _ _ _) fun _ => appends_sendContentBody _ _

theorem Push.after_send (p : Push) (t : Transport) : after p.send t = t.put p.written := by
  have appends : Appends p.send :=
    appends_bind (appends_sendBasicDeliver _ _ _ _ _ _) fun _ => appends_content p
  exact appends.after t

/-! ## The trace accounts for the wire -/

/-- What an event puts on the transport of `c`. -/
def Event.bytesTo (c : ConnId) : Event → Bytes
  | .reply c' r => if c' = c then r.encoded.getD [] else []
  | .push p => if p.protocol = c then p.written else []
  | _ => []

/-- The events that have been added account for what has been written, and no reply among them
was left unwritten. -/
def Ledger (b b' : Broker) : Prop :=
  ∃ new, b'.trace = b.trace ++ new ∧
    (∀ c, (b'.trackers c).transport.written =
      (b.trackers c).transport.written ++ new.flatMap (Event.bytesTo c)) ∧
    ∀ c r, .reply c r ∈ new → ∃ raw : RawFrame, r.encoded = some raw.bytes

section
variable {env : Env} {c : ConnId} {f : FrameValue} {b b' : Broker}

theorem ledger_progress : Progress Ledger where
  refl := fun b => ⟨[], by simp, by simp, by simp⟩
  trans := by
    rintro b b' b'' ⟨new, trace, written, whole⟩ ⟨new', trace', written', whole'⟩
    refine ⟨new ++ new', by rw [trace', trace, List.append_assoc], fun c => ?_, fun c r mem => ?_⟩
    · rw [written', written, List.flatMap_append, List.append_assoc]
    · rcases List.mem_append.mp mem with old | recent
      · exact whole c r old
      · exact whole' c r recent

/-- Neither the wire nor the trace changes. -/
theorem ledger_of_same (trace : b'.trace = b.trace)
    (same : ∀ c, (b'.trackers c).transport.written = (b.trackers c).transport.written) :
    Ledger b b' := ⟨[], by simp [trace], by simp [same], by simp⟩

theorem ledger_update {g : Broker → Tracker}
    (same : ∀ b, (g b).transport.written = (b.trackers c).transport.written) :
    Within Ledger (update fun b => b.setTracker c (g b) : OnBroker Unit) := by
  intro b
  refine ledger_of_same rfl fun c' => ?_
  show ((b.setTracker c (g b)).trackers c').transport.written = _
  by_cases h : c' = c
  · rw [h, Broker.setTracker_self, same]
  · rw [Broker.setTracker_ne _ h]

/-- An event that nothing is sent for. -/
theorem ledger_log {e : Event} (silent : ∀ c, e.bytesTo c = []) (other : ∀ c r, e ≠ .reply c r) :
    Within Ledger (log e) := by
  intro b
  refine ⟨[e], rfl, fun c => ?_, fun c r mem => ?_⟩
  · show _ = _ ++ (e.bytesTo c ++ [])
    rw [silent]
    exact (List.append_nil _).symm
  · exact absurd (List.mem_singleton.mp mem).symm (other c r)

theorem ledger_close : Within Ledger (close c) := by
  intro b
  rw [close, onTransport_apply_tracker]
  exact ledger_update (c := c) (g := fun b => { b.trackers c with
    transport := { (b.trackers c).transport with closing := true } }) (fun _ => rfl) b

theorem ledger_reply (r : Reply) : Within Ledger (reply c r) := by
  intro b
  obtain ⟨_, ⟨e, failed⟩ | ⟨raw, _, sent⟩⟩ := r.send_whole
  · rw [after_error (reply_error (failed _))]
    exact ledger_update (c := c) (g := fun b => b.trackers c) (fun _ => rfl) b
  · have encoded : r.encoded = some raw.bytes := by
      simp only [Reply.encoded, sent, Transport.put_written, List.nil_append]
    rw [after_ok (reply_ok (sent _))]
    refine ⟨[.reply c r], rfl, fun c' => ?_, fun c' r' mem => ?_⟩
    · simp only [List.flatMap_cons, List.flatMap_nil, List.append_nil, Event.bytesTo, encoded,
        Option.getD_some]
      by_cases h : c' = c
      · rw [h, Broker.setTracker_self, if_pos rfl, Transport.put_written]
      · rw [Broker.setTracker_ne _ h, if_neg (Ne.symm h), List.append_nil]
    · cases List.mem_singleton.mp mem
      exact ⟨raw, encoded⟩

theorem ledger_setParserState (s : ConnectionState) : Within Ledger (setParserState c s) :=
  within_bind ledger_progress
    (ledger_update (g := fun b => { b.trackers c with parserState := s }) fun _ => rfl)
    (fun _ => ledger_log (fun _ => rfl) (fun _ _ no => by cases no))

theorem ledger_call (op : Call) : Within Ledger (call env c op) := by
  intro b
  have logged := ledger_log (e := .call c op (op.result env b.state)) (fun _ => rfl)
    (fun _ _ no => by cases no) b
  rw [after_call]
  exact logged

theorem ledger_respects (c : ConnId) (f : FrameValue) : RespectsChannel c f Ledger where
  toProgress := ledger_progress
  reply := fun r _ => ledger_reply r
  close := ledger_close
  setChannel := fun channel => ledger_update (g := fun b => { b.trackers c with
    channels := (b.trackers c).channels.insert f.channelNumber channel }) fun _ => rfl
  deleteChannel := ledger_update (g := fun b => { b.trackers c with
    channels := (b.trackers c).channels.erase f.channelNumber }) fun _ => rfl
  channelOpened := fun _ => ledger_log (fun _ => rfl) (fun _ _ no => by cases no)

variable (env c f) in
theorem dispatch_ledger : Within Ledger (dispatch env c f) := by
  intro b
  have frame : ∀ s, Within Ledger (log (.frame c s f)) :=
    fun s => ledger_log (fun _ => rfl) (fun _ _ no => by cases no)
  have called : ∀ s t, Called env c f s t → Ledger s t := by
    rintro s t ⟨op, _, rfl⟩
    exact ledger_call op s
  by_cases hn : f.channelNumber = 0
  · have steps : RespectsHandshake c f Ledger :=
      { toRespects := (ledger_respects c f).toRespects
        parser := fun b _ s' _ _ _ => ledger_setParserState s' b }
    exact (dispatch_handshake_once env steps frame hn b).within ledger_progress called
  · exact (dispatch_channel_once env (ledger_respects c f) frame hn b).within ledger_progress
      called

theorem PushesJust.ledger {o : Option Push} (just : PushesJust o b b') : Ledger b b' := by
  refine ⟨o.toList.map .push, just.trace, fun c => ?_, fun c r mem => ?_⟩
  · cases o with
    | none =>
        rcases just.written c with same | ⟨_, no, _⟩
        · rw [same]
          exact (List.append_nil _).symm
        · cases no
    | some p =>
        by_cases h : p.protocol = c
        · have sent := just.sent p rfl
          rw [h, p.after_send] at sent
          simp [sent, Event.bytesTo, h]
        · rcases just.written c with same | ⟨_, mem, here⟩
          · simp [same, Event.bytesTo, h]
          · cases mem
            exact absurd here h
  · obtain ⟨_, _, no⟩ := List.mem_map.mp mem
    cases no

theorem turn_ledger (env : Env) (b : Broker) (t : Turn) : Ledger b (Turn.step env b t) := by
  cases t with
  | frame c f => exact dispatch_ledger env c f b
  | lost c => exact ledger_close b
  | http op => exact (http_pushesJust env b op).ledger
  | start c =>
      by_cases waiting : (b.trackers c).parserState = .waitingProtocolHeader
      · rw [Turn.step_start waiting]
        exact greet_within ledger_progress (ledger_reply _) (ledger_setParserState _) b
      · have same : Turn.step env b (.start c) = b := if_neg waiting
        rw [same]
        exact ledger_progress.refl b

end

theorem run_ledger (env : Env) (draws : Nat → Draw) (actions : List Action) :
    Ledger (Broker.init env draws)
      (Runs.run (Server.step env) (Server.init env draws) actions).broker := by
  rw [Server.run_refines]
  exact Runs.invariant (fun b t h => ledger_progress.trans h (turn_ledger env b t))
    (ledger_progress.refl _) _

theorem run_written (env : Env) (draws : Nat → Draw) (actions : List Action) (c : ConnId) :
    ((Runs.run (Server.step env) (Server.init env draws) actions).broker.trackers c).transport.written
      = (Runs.run (Server.step env) (Server.init env draws) actions).broker.trace.flatMap
        (Event.bytesTo c) := by
  obtain ⟨new, trace, written, _⟩ := run_ledger env draws actions
  rw [trace, written c]
  rfl

/-- In every reachable state the bytes on a transport are those of the replies and pushes to it
in the trace, in order, and every reply in the trace was written as one whole frame. -/
theorem wire_is_recorded {env : Env} {b : Broker} (reachable : Reachable env b) (c : ConnId) :
    (b.trackers c).transport.written = b.trace.flatMap (Event.bytesTo c) ∧
      ∀ r, .reply c r ∈ b.trace → ∃ raw : RawFrame, r.encoded = some raw.bytes := by
  obtain ⟨draws, actions, rfl⟩ := reachable
  refine ⟨run_written env draws actions c, ?_⟩
  obtain ⟨new, trace, _, whole⟩ := run_ledger env draws actions
  rw [trace]
  exact whole c

theorem login_is_recorded : ((session (logIn 0)).broker.trackers 0).transport.written =
      (session (logIn 0)).broker.trace.flatMap (Event.bytesTo 0) ∧
    ∀ r, .reply 0 r ∈ (session (logIn 0)).broker.trace →
      ∃ raw : RawFrame, r.encoded = some raw.bytes :=
  wire_is_recorded (session_reachable (logIn 0)) 0

/-! ## What is sent, turn by turn -/

/-- The event records a reply or a push. -/
def Event.sent : Event → Bool
  | .reply _ _ | .push _ => true
  | _ => false

/-- What a turn sends: the answer to a frame if it can be encoded, the start of a connection whose
protocol header is complete, the push of a publication. -/
def Turn.sends (env : Env) (b : Broker) : Turn → List Event
  | .frame c f => (((b.answer env c f).filter (·.encoded.isSome)).map (Event.reply c)).toList
  | .start c =>
      if (b.trackers c).parserState = .waitingProtocolHeader then [.reply c .connectionStart]
      else []
  | .lost _ => []
  | .http op => (((Turn.http op).pushing env b).map Event.push).toList

section
variable {env : Env} {c : ConnId} {f : FrameValue} {b : Broker}

theorem sent_opening (c : ConnId) (n : Nat) (r : Reply) :
    (r.opening c n).filter Event.sent = [] := by
  cases r <;> rfl

theorem sent_answered (n : Nat) (v : View) (o : Option Reply) :
    (v.answered c n o).trace.filter Event.sent = v.trace.filter Event.sent ++
      ((o.filter (·.encoded.isSome)).map (Event.reply c)).toList := by
  cases o with
  | none => exact (List.append_nil _).symm
  | some r =>
      cases encoded : r.encoded with
      | none => simp [View.answered, encoded]
      | some bytes =>
          have kept : (Event.reply c r :: r.opening c n).filter Event.sent = [.reply c r] := by
            rw [List.filter_cons_of_pos rfl, sent_opening]
          simp [View.answered, encoded, kept, Option.filter]

theorem sent_served (b : Broker) :
    (b.view.served env c f.channelNumber (b.asks c f) (b.acknowledges c f)).trace.filter
        Event.sent = b.view.trace.filter Event.sent ++ Turn.sends env b (.frame c f) := by
  simp only [View.served, Turn.sends, Broker.answer]
  cases b.asks c f with
  | none => exact sent_answered _ _ _
  | some op => exact sent_answered _ _ _

/-- Among events without a push, those that are sent are visible. -/
theorem sent_of_visible {l : List Event} (unpushed : ∀ p, .push p ∉ l) :
    l.filter Event.sent = (l.filter Event.visible).filter Event.sent := by
  rw [List.filter_filter]
  apply List.filter_congr
  intro e mem
  cases e with
  | push p => exact absurd mem (unpushed p)
  | _ => rfl

theorem sent_dispatch (env : Env) (c : ConnId) (f : FrameValue) (b : Broker) :
    (after (dispatch env c f) b).trace.filter Event.sent =
      b.trace.filter Event.sent ++ Turn.sends env b (.frame c f) := by
  obtain ⟨new, trace, own⟩ := (dispatch_byConn env c f b).events
  have unpushed : ∀ p, Event.push p ∉ new := fun p mem => own _ mem
  have seen : (after (dispatch env c f) b).view.trace.filter Event.sent =
      b.view.trace.filter Event.sent ++ Turn.sends env b (.frame c f) := by
    rw [dispatch_view]
    exact sent_served b
  have split : (after (dispatch env c f) b).view.trace = b.view.trace ++ new.filter Event.visible := by
    show (after (dispatch env c f) b).trace.filter Event.visible = _
    rw [trace, List.filter_append]
    rfl
  rw [split, List.filter_append] at seen
  rw [trace, List.filter_append, sent_of_visible unpushed, List.append_cancel_left seen]

theorem sent_turn (env : Env) (b : Broker) (t : Turn) : (Turn.step env b t).trace.filter Event.sent =
    b.trace.filter Event.sent ++ Turn.sends env b t := by
  cases t with
  | frame c f => exact sent_dispatch env c f b
  | lost c => exact (List.append_nil _).symm
  | http op =>
      rw [(http_pushesJust env b op).trace, List.filter_append]
      cases h : (Turn.http op).pushing env b <;> simp [Turn.sends, h, Event.sent]
  | start c =>
      simp only [Turn.sends]
      by_cases waiting : (b.trackers c).parserState = .waitingProtocolHeader
      · obtain ⟨t, sent⟩ := connectionStart_sent (b.trackers c).transport
        rw [Turn.step_start waiting, if_pos waiting]
        unfold greet
        rw [after_congr (bind_ok (reply_ok sent))]
        show ((b.trace ++ [Event.reply c .connectionStart]) ++
          [Event.parser c .waitingStartOk]).filter Event.sent = _
        rw [List.filter_append, List.filter_append]
        exact List.append_nil _
      · have same : Turn.step env b (.start c) = b := if_neg waiting
        rw [same, if_neg waiting, List.append_nil]

end

/-- Nothing is put on a transport but what is sent. -/
theorem bytesTo_sent (c : ConnId) (l : List Event) :
    (l.filter Event.sent).flatMap (Event.bytesTo c) = l.flatMap (Event.bytesTo c) := by
  induction l with
  | nil => rfl
  | cons e rest ih =>
      cases e with
      | reply c' r => rw [List.filter_cons_of_pos rfl, List.flatMap_cons, List.flatMap_cons, ih]
      | push p => rw [List.filter_cons_of_pos rfl, List.flatMap_cons, List.flatMap_cons, ih]
      | _ =>
          rw [List.filter_cons_of_neg (by simp [Event.sent]), List.flatMap_cons, ih]
          rfl

/-- What a run sends, to all connections together and in order, is what its turns send: each frame
is answered at once and at most once, and each publication makes at most its one push. Nothing
else is ever written. -/
theorem sent_in_turn (env : Env) (draws : Nat → Draw) (actions : List Action) :
    let b := (Runs.run (Server.step env) (Server.init env draws) actions).broker
    let sent := Runs.trail (Turn.step env) (Turn.sends env) (Broker.init env draws)
      (Server.turnsOf env (Server.init env draws) actions)
    b.trace.filter Event.sent = sent ∧
      ∀ c, (b.trackers c).transport.written = sent.flatMap (Event.bytesTo c) := by
  intro b sent
  have recorded : b.trace.filter Event.sent = sent := by
    have same : b = Runs.run (Turn.step env) (Broker.init env draws)
        (Server.turnsOf env (Server.init env draws) actions) := Server.run_refines _ _
    rw [same]
    exact Runs.accumulates (fun b : Broker => b.trace.filter Event.sent) (sent_turn env)
      (Broker.init env draws) _
  refine ⟨recorded, fun c => ?_⟩
  rw [← recorded, bytesTo_sent]
  exact run_written env draws actions c

end MockAmqp
