import MockAmqp.Access
import MockAmqp.Segmentation

/-!
# The order of the handshake

The methods start, tune and open-ok that the server writes on a connection, in the order of the
states that the connection goes through.
-/

namespace MockAmqp
open Exec

/-! ## Frames that carry a mechanism -/

theorem get?_ofList {κ ν : Type} [DecidableEq κ] {l : List (κ × ν)} {k : κ} {v : ν}
    (h : (OrderedDict.ofList l).get? k = some v) : (k, v) ∈ l := by
  unfold OrderedDict.ofList at h
  induction l using List.reverseRecOn with
  | nil => cases h
  | append_singleton l p ih =>
      rw [List.foldl_append] at h
      simp only [List.foldl_cons, List.foldl_nil, OrderedDict.get?_insert] at h
      by_cases same : k = p.1
      · rw [if_pos same] at h
        cases h
        rw [same]
        exact List.mem_append_right _ List.mem_cons_self
      · rw [if_neg same] at h
        exact List.mem_append_left _ (ih h)

theorem decodeArgs_names {format : String} {names : List (ArgName × Nat)} {payload : Bytes}
    {args : Args} (h : decodeArgs format names payload = .ok args) {name : ArgName} {v : Val}
    (found : args.get? name = some v) : name ∈ names.map Prod.fst := by
  unfold decodeArgs at h
  obtain ⟨⟨values, _⟩, _, h⟩ := except_bind_eq_ok.mp h
  obtain ⟨entries, mapped, h⟩ := except_bind_eq_ok.mp h
  cases h
  have member := get?_ofList found
  have keys : ∀ (read : ArgName × Nat → Except PyError (ArgName × Val)),
      (∀ p e, read p = .ok e → e.1 = p.1) →
        ∀ (names : List (ArgName × Nat)) (entries : List (ArgName × Val)),
          names.mapM read = .ok entries → ∀ e ∈ entries, e.1 ∈ names.map Prod.fst := by
    intro read key names
    induction names with
    | nil =>
        intro entries ended e he
        cases ended
        cases he
    | cons p rest ih =>
        intro entries ended e he
        rw [List.mapM_cons] at ended
        obtain ⟨first, here, ended⟩ := except_bind_eq_ok.mp ended
        obtain ⟨others, later, ended⟩ := except_bind_eq_ok.mp ended
        cases ended
        rcases List.mem_cons.mp he with rfl | he
        · rw [key p e here]
          exact List.mem_cons_self
        · exact List.mem_cons_of_mem _ (ih others later e he)
  refine keys _ (fun p e here => ?_) names entries mapped _ member
  split at here
  · cases here
    rfl
  · cases here

/-- The arguments of a method frame come from the decoder of its method. -/
theorem readFrame_method {data : Bytes} {m : Method}
    (decoded : readFrame data = .ok (some (.method m))) :
    ∃ payload, m.methodId.decoder payload = .ok m.properties := by
  have payload : ∀ {frameType n size payload},
      decodePayload frameType n size payload = .ok (some (.method m)) →
        m.methodId.decoder payload = .ok m.properties := by
    intro frameType n size payload h
    unfold decodePayload at h
    split at h
    · obtain ⟨code, _, h⟩ := except_bind_eq_ok.mp h
      obtain ⟨made, make, h⟩ := except_bind_eq_ok.mp h
      cases h
      unfold Method.make at make
      obtain ⟨methodId, _, make⟩ := except_bind_eq_ok.mp make
      obtain ⟨properties, decoder, make⟩ := except_bind_eq_ok.mp make
      cases make
      exact decoder
    · split at h
      · cases h
      · split at h
        · obtain ⟨_, _, h⟩ := except_bind_eq_ok.mp h
          obtain ⟨_, _, h⟩ := except_bind_eq_ok.mp h
          obtain ⟨_, _, h⟩ := except_bind_eq_ok.mp h
          obtain ⟨_, _, h⟩ := except_bind_eq_ok.mp h
          cases h
        · split at h
          · cases h
          · cases h
  unfold readFrame at decoded
  split at decoded
  · cases decoded
  · dsimp only at decoded
    split at decoded
    · cases decoded
    · split at decoded
      · cases decoded
      · exact ⟨_, payload decoded⟩

/-- Only a start-ok has a mechanism among its arguments. -/
theorem startOk_of_mechanism {data : Bytes} {f : FrameValue} {v : Val}
    (decoded : readFrame data = .ok (some f)) (found : f.arg .mechanism = .ok v) :
    f.methodId = some .startOk := by
  cases f with
  | method m =>
      obtain ⟨payload, decoder⟩ := readFrame_method decoded
      simp only [FrameValue.arg] at found
      split at found
      · rename_i w got
        cases hm : m.methodId with
        | startOk => exact congrArg some hm
        | connectionClose =>
            rw [hm] at decoder
            rw [← Except.ok.inj decoder] at got
            cases got
        | _ =>
            rw [hm] at decoder
            exact absurd (decodeArgs_names decoder got) (by decide)
      · cases found
  | _ => cases found

/-- The turn does not treat a frame that cannot be read off a byte stream. -/
def Turn.Decoded : Turn → Prop
  | .frame _ f => ∃ data, readFrame data = .ok (some f)
  | _ => True

theorem Server.turns_decoded (env : Env) (s : Server) (a : Action) :
    ∀ t ∈ Server.turns env s a, t.Decoded := by
  intro t ht
  cases a with
  | connectionLost c =>
      rw [List.mem_singleton.mp ht]
      trivial
  | http op =>
      rw [List.mem_singleton.mp ht]
      trivial
  | dataReceived c data =>
      simp only [Server.turns] at ht
      split at ht
      · cases ht
      · split at ht
        · split at ht
          · cases ht
          · split at ht
            · rw [List.mem_singleton.mp ht]
              trivial
            · rw [List.mem_singleton.mp ht]
              trivial
        · obtain ⟨f, hf, rfl⟩ := List.mem_map.mp ht
          exact Framing.mem_taken hf

/-! ## Handshake methods -/

def Reply.isHandshake : Reply → Bool
  | connectionStart | connectionTune | connectionOk => true
  | _ => false

/-- The handshake methods written on a connection. -/
def handshakes (c : ConnId) (trace : List Event) : List Reply :=
  trace.filterMap fun e => match e with
    | .reply c' r => if c' = c ∧ r.isHandshake then some r else none
    | _ => none

/-- The handshake methods written by the time a state is reached. -/
def ConnectionState.greeted : ConnectionState → List Reply
  | waitingProtocolHeader | waitingOther => []
  | waitingStartOk => [.connectionStart]
  | waitingTuneOk | waitingOpen => [.connectionStart, .connectionTune]
  | opened => [.connectionStart, .connectionTune, .connectionOk]

/-- The value of the state in its `IntEnum`. -/
def ConnectionState.value : ConnectionState → Nat
  | waitingProtocolHeader => 1
  | waitingStartOk => 2
  | waitingTuneOk => 3
  | waitingOpen => 4
  | opened => 5
  | waitingOther => 999

namespace Event

/-- A method is received on channel 0 in a state of the connection. -/
def receives (c : ConnId) (s : ConnectionState) (m : MethodId) (e : Event) : Prop :=
  ∃ f, e = .frame c s f ∧ f.methodId = some m ∧ f.channelNumber = 0

/-- Credentials are checked, with any result. -/
def checks (c : ConnId) (e : Event) : Prop :=
  ∃ username password result, e = .call c (.checkCredentials username password) result

/-- The event is neither a handshake method written nor a step towards one. -/
structure Idle (c : ConnId) (e : Event) : Prop where
  handshake : ∀ r, r.isHandshake = true → e ≠ .reply c r
  checks : ¬ e.checks c
  opening : ¬ e.receives c .waitingOpen .connectionOpen

end Event

/-- What was written and received on a connection agrees with its state. -/
structure HandshakeInvariant (c : ConnId) (b : Broker) : Prop where
  written : handshakes c b.trace = (b.trackers c).parserState.greeted
  login : History.PrecededBy (Event.accepts c) (· = .reply c .connectionTune) b.trace
  asked : History.PrecededBy (Event.receives c .waitingStartOk .startOk) (Event.checks c) b.trace
  confirmed : History.PrecededBy (Event.receives c .waitingOpen .connectionOpen)
    (· = .reply c .connectionOk) b.trace
  opening : History.PrecededBy (Event.receives c .waitingTuneOk .tuneOk)
    (Event.receives c .waitingOpen .connectionOpen) b.trace
  tuned : (b.trackers c).parserState = .waitingOpen →
    ∃ e ∈ b.trace, Event.receives c .waitingTuneOk .tuneOk e

theorem handshakes_append (c : ConnId) (l r : List Event) :
    handshakes c (l ++ r) = handshakes c l ++ handshakes c r := List.filterMap_append

section
variable {env : Env} {c : ConnId} {f : FrameValue} {b b' : Broker}

theorem handshakes_idle {new : List Event} (idle : ∀ e ∈ new, e.Idle c) :
    handshakes c new = [] := by
  unfold handshakes
  rw [List.filterMap_eq_nil_iff]
  intro e he
  cases e with
  | reply c' r =>
      have quiet := (idle _ he).handshake r
      simp only [ite_eq_right_iff, reduceCtorEq, imp_false, not_and, Bool.not_eq_true]
      rintro rfl
      by_contra handshake
      exact quiet (by simpa using handshake) rfl
  | _ => rfl

theorem HandshakeInvariant.of_idle (h : HandshakeInvariant c b) {new : List Event}
    (trace : b'.trace = b.trace ++ new) (idle : ∀ e ∈ new, e.Idle c)
    (state : (b'.trackers c).parserState = (b.trackers c).parserState) :
    HandshakeInvariant c b' where
  written := by rw [trace, handshakes_append, handshakes_idle idle, List.append_nil, state, h.written]
  login := by
    rw [trace]
    exact h.login.append_idle fun e he => (idle e he).handshake _ rfl
  asked := by
    rw [trace]
    exact h.asked.append_idle fun e he => (idle e he).checks
  confirmed := by
    rw [trace]
    exact h.confirmed.append_idle fun e he => (idle e he).handshake _ rfl
  opening := by
    rw [trace]
    exact h.opening.append_idle fun e he => (idle e he).opening
  tuned := by
    rw [state, trace]
    intro waiting
    obtain ⟨e, he, received⟩ := h.tuned waiting
    exact ⟨e, List.mem_append_left _ he, received⟩

theorem Event.idle_of_conn {e : Event} (h : e.conn ≠ some c) : e.Idle c where
  handshake := by
    rintro r _ rfl
    exact h rfl
  checks := by
    rintro ⟨_, _, _, rfl⟩
    exact h rfl
  opening := by
    rintro ⟨_, rfl, _⟩
    exact h rfl

/-- What a frame leaves in the trace besides a handshake method and a step towards one. -/
theorem Event.idle_of_reply {r : Reply} (h : r.isHandshake = false) :
    (Event.reply c r).Idle c where
  handshake := by
    intro r' hr' same
    cases same
    rw [h] at hr'
    cases hr'
  checks := by
    rintro ⟨_, _, _, no⟩
    cases no
  opening := by
    rintro ⟨_, no, _⟩
    cases no

/-! ### Frames -/

/-- A frame is recorded in the state it is read in. -/
theorem HandshakeInvariant.framed (h : HandshakeInvariant c b) {s : ConnectionState}
    (state : (b.trackers c).parserState = s) :
    HandshakeInvariant c { b with trace := b.trace ++ [.frame c s f] } := by
  have quiet : handshakes c [.frame c s f] = [] := rfl
  refine ⟨?_, ?_, ?_, ?_, ?_, ?_⟩
  · simp only [handshakes_append, quiet, List.append_nil, h.written]
  · exact h.login.append_idle (by simp)
  · exact h.asked.append_idle (by simp [Event.checks])
  · exact h.confirmed.append_idle (by simp)
  · refine h.opening.append_gated fun e he received => ?_
    rw [List.mem_singleton.mp he] at received
    obtain ⟨f', same, _⟩ := received
    cases same
    exact h.tuned state
  · intro waiting
    obtain ⟨e, he, received⟩ := h.tuned waiting
    exact ⟨e, List.mem_append_left _ he, received⟩

/-- The connection moves to another state, with the handshake methods that were missing. -/
theorem HandshakeInvariant.moved (h : HandshakeInvariant c b) {new : List Event}
    {s' : ConnectionState} (trace : b'.trace = b.trace ++ (new ++ [.parser c s']))
    (state : (b'.trackers c).parserState = s')
    (written : (b.trackers c).parserState.greeted ++ handshakes c new = s'.greeted)
    (only : ∀ e ∈ new, ∃ r, e = .reply c r)
    (login : .reply c .connectionTune ∈ new → ∃ e ∈ b.trace, Event.accepts c e)
    (confirmed : .reply c .connectionOk ∈ new →
      ∃ e ∈ b.trace, Event.receives c .waitingOpen .connectionOpen e)
    (tuned : s' = .waitingOpen → ∃ e ∈ b.trace, Event.receives c .waitingTuneOk .tuneOk e) :
    HandshakeInvariant c b' := by
  have quiet : handshakes c [.parser c s'] = [] := rfl
  have member : ∀ {e r}, e ∈ new ++ [.parser c s'] → e = .reply c r → .reply c r ∈ new := by
    intro e r he same
    subst same
    simpa using he
  refine ⟨?_, ?_, ?_, ?_, ?_, ?_⟩
  · rw [trace, state, handshakes_append, handshakes_append, quiet, List.append_nil, h.written,
      written]
  · rw [trace]
    exact h.login.append_gated fun e he same => login (member he same)
  · rw [trace]
    refine h.asked.append_idle fun e he => ?_
    rintro ⟨username, password, result, rfl⟩
    rcases List.mem_append.mp he with reply | parser
    · obtain ⟨r, no⟩ := only _ reply
      cases no
    · cases List.mem_singleton.mp parser
  · rw [trace]
    exact h.confirmed.append_gated fun e he same => confirmed (member he same)
  · rw [trace]
    refine h.opening.append_idle fun e he => ?_
    rintro ⟨f, rfl, _⟩
    rcases List.mem_append.mp he with reply | parser
    · obtain ⟨r, no⟩ := only _ reply
      cases no
    · cases List.mem_singleton.mp parser
  · rw [state, trace]
    intro waiting
    obtain ⟨e, he, received⟩ := tuned waiting
    exact ⟨e, List.mem_append_left _ he, received⟩

theorem HandshakeInvariant.unchanged (h : HandshakeInvariant c b) (trace : b'.trace = b.trace)
    (state : (b'.trackers c).parserState = (b.trackers c).parserState) :
    HandshakeInvariant c b' :=
  h.of_idle (trace.trans (List.append_nil _).symm) (by simp) state

theorem HandshakeInvariant.close (h : HandshakeInvariant c b) :
    HandshakeInvariant c (after (close c) b) :=
  h.unchanged rfl (sameParser_onTransport c _ b)

theorem HandshakeInvariant.reply (h : HandshakeInvariant c b) {r : Reply}
    (other : r.isHandshake = false) : HandshakeInvariant c (after (reply c r) b) := by
  obtain ⟨new, trace, only⟩ := (byConn_reply (E := fun e => e = .reply c r) rfl b).events
  refine h.of_idle trace (fun e he => ?_) (sameParser_reply c r b)
  rw [only e he]
  exact Event.idle_of_reply other

theorem setParserState_tracker (c : ConnId) (s : ConnectionState) (b : Broker) :
    (after (setParserState c s) b).trackers c = { b.trackers c with parserState := s } :=
  b.setTracker_self c _

/-- A handshake method is written, and the connection moves to the next state. -/
theorem HandshakeInvariant.advance (h : HandshakeInvariant c b) {s s' : ConnectionState}
    {r : Reply} (state : (b.trackers c).parserState = s) (handshake : r.isHandshake = true)
    (written : s'.greeted = s.greeted ++ [r]) (other : s' ≠ .waitingOpen)
    (login : r = .connectionTune → ∃ e ∈ b.trace, Event.accepts c e)
    (confirmed : r = .connectionOk →
      ∃ e ∈ b.trace, Event.receives c .waitingOpen .connectionOpen e) :
    HandshakeInvariant c (after (do MockAmqp.reply c r; setParserState c s') b) := by
  cases sent : r.send (b.trackers c).transport with
  | error e t =>
      have failed := reply_error (c := c) sent
      rcases after_bind_cases (MockAmqp.reply c r) (fun _ => setParserState c s') b with
        ⟨_, _, replied, _⟩ | ended
      · rw [failed] at replied
        cases replied
      · rw [ended, after_error failed]
        exact h.unchanged rfl (by simp)
  | ok _ t =>
      rw [after_congr (bind_ok (reply_ok sent))]
      have trace : (b.trace ++ [.reply c r]) ++ [.parser c s'] =
          b.trace ++ ([.reply c r] ++ [.parser c s']) := List.append_assoc _ _ _
      refine h.moved trace ?_ ?_ (by simp) (fun mem => ?_) (fun mem => ?_)
        (fun same => absurd same other)
      · rw [setParserState_tracker]
      · have one : handshakes c [.reply c r] = [r] := by simp [handshakes, handshake]
        rw [state, one, written]
      · cases List.mem_singleton.mp mem
        exact login rfl
      · cases List.mem_singleton.mp mem
        exact confirmed rfl

/-- What `_check_start_ok` does: nothing, or one check of credentials. -/
theorem checkStartOk_cases (env : Env) (c : ConnId) (f : FrameValue) (b : Broker) :
    after (checkStartOk env c f) b = b ∨ ∃ v username password, f.arg .mechanism = .ok v ∧
      after (checkStartOk env c f) b = after (call env c (.checkCredentials username password)) b := by
  have login : ∀ credentials, after (checkLogin env c credentials) b = b ∨
      ∃ username password, after (checkLogin env c credentials) b =
        after (call env c (.checkCredentials username password)) b := by
    intro credentials
    cases credentials with
    | error e => exact .inl rfl
    | ok pair => exact .inr ⟨pair.1, pair.2, rfl⟩
  rw [checkStartOk_eq]
  cases hm : f.argStr .mechanism with
  | error e => exact .inl rfl
  | ok mechanism =>
      rw [attempt_bind_ok]
      have found : ∃ v, f.arg .mechanism = .ok v := by
        unfold FrameValue.argStr at hm
        obtain ⟨v, arg, _⟩ := except_bind_eq_ok.mp hm
        exact ⟨v, arg⟩
      obtain ⟨v, found⟩ := found
      split
      · rcases login (f.argStr .response >>= plainCredentials) with
          same | ⟨username, password, called⟩
        · exact .inl same
        · exact .inr ⟨v, username, password, found, called⟩
      · split
        · rcases login (f.argStr .response >>= amqplainCredentials) with
            same | ⟨username, password, called⟩
          · exact .inl same
          · exact .inr ⟨v, username, password, found, called⟩
        · exact .inl rfl

/-- After the credentials of a start-ok have been checked. -/
theorem HandshakeInvariant.checked (h : HandshakeInvariant c b)
    (username password : Str)
    (asked : ∃ e ∈ b.trace, Event.receives c .waitingStartOk .startOk e) :
    HandshakeInvariant c (after (call env c (.checkCredentials username password)) b) := by
  have called := after_call env c (.checkCredentials username password) b
  have trace := congrArg Broker.trace called
  have state : (after (call env c (.checkCredentials username password)) b).trackers c =
      b.trackers c := by rw [called]
  refine ⟨?_, ?_, ?_, ?_, ?_, ?_⟩
  · rw [trace, state, handshakes_append, h.written]
    exact List.append_nil _
  · rw [trace]
    exact h.login.append_idle (by simp)
  · rw [trace]
    refine h.asked.append_gated fun e he _ => asked
  · rw [trace]
    exact h.confirmed.append_idle (by simp)
  · rw [trace]
    refine h.opening.append_idle fun e he => ?_
    rintro ⟨f, rfl, _⟩
    cases List.mem_singleton.mp he
  · rw [state, trace]
    intro waiting
    obtain ⟨e, he, received⟩ := h.tuned waiting
    exact ⟨e, List.mem_append_left _ he, received⟩

theorem after_bind_setParserState (x : OnBroker Unit) (s : ConnectionState) (r : Bool) :
    after (do x; setParserState c s; return r : OnBroker Bool) b =
      after (do x; setParserState c s : OnBroker Unit) b := by
  rcases after_bind_cases x (fun _ => setParserState c s) b with ⟨_, t, ran, ended⟩ | ended
  · rw [ended, after_congr (bind_ok ran)]
    exact after_bind_pure _ (fun _ => r) t
  · cases h : x b with
    | ok a t => rw [after_congr (bind_ok h), after_congr (bind_ok h)]; exact after_bind_pure _ (fun _ => r) t
    | error e t => simp only [after, bind_apply, h]

theorem handshakeInvariant_handshake (hn : f.channelNumber = 0)
    (decoded : ∃ data, readFrame data = .ok (some f)) (h : HandshakeInvariant c b) :
    HandshakeInvariant c (after (dispatch env c f) b) := by
  obtain ⟨s, hs⟩ : ∃ s, (b.trackers c).parserState = s := ⟨_, rfl⟩
  let b1 : Broker := { b with trace := b.trace ++ [.frame c s f] }
  have h1 : HandshakeInvariant c b1 := h.framed hs
  have here : ∀ {m}, f.methodId = some m → ∃ e ∈ b1.trace, Event.receives c s m e := fun hm =>
    ⟨_, List.mem_append_right _ List.mem_cons_self, f, rfl, hm, hn⟩
  have refuse : ∀ {b2 : Broker}, HandshakeInvariant c b2 →
      HandshakeInvariant c (after (do close c; return false : OnBroker Bool) b2) := by
    intro b2 h2
    rw [after_bind_pure]
    exact h2.close
  by_cases beat : ∃ size, f = .heartBeat size
  · obtain ⟨size, rfl⟩ := beat
    have ended : after (dispatch env c (.heartBeat size)) b =
        after (do reply c .heartbeat; return true : OnBroker Bool) b1 := by
      simp only [b1, ← hs]
      rfl
    rw [ended, after_bind_pure]
    exact h1.reply rfl
  · rw [after_congr (dispatch_of_connection hn (fun size same => beat ⟨size, same⟩) b), hs]
    by_cases hc : f.methodId = some .connectionClose
    · rw [if_pos hc]
      rcases after_bind_cases (reply c .connectionCloseOk) (fun _ => do close c; return false) b1
        with ⟨_, t, replied, last⟩ | last
      · have h2 := h1.reply (r := .connectionCloseOk) rfl
        rw [after_ok replied] at h2
        rw [last]
        exact refuse h2
      · rw [last]
        exact h1.reply rfl
    · rw [if_neg hc]
      have state1 : (b1.trackers c).parserState = s := hs
      cases s with
      | waitingStartOk =>
          have h2 : HandshakeInvariant c (after (checkStartOk env c f) b1) ∧
              ((after (checkStartOk env c f) b1).trackers c).parserState = .waitingStartOk := by
            refine ⟨?_, (sameParser_checkStartOk env hn b1).trans state1⟩
            rcases checkStartOk_cases env c f b1 with same | ⟨v, username, password, found, called⟩
            · rw [same]
              exact h1
            · rw [called]
              obtain ⟨data, hdata⟩ := decoded
              exact h1.checked username password
                (here (startOk_of_mechanism hdata found))
          rcases after_bind_cases (checkStartOk env c f) _ b1 with ⟨ok, b2, hok, hb2⟩ | hb2
          · rw [after_ok hok] at h2
            rw [hb2]
            by_cases accepted : ok = true
            · obtain ⟨username, password, login⟩ := checkStartOk_accepted (accepted ▸ hok)
              rw [if_neg (not_not_intro accepted), after_bind_setParserState]
              refine h2.1.advance h2.2 rfl rfl (by simp) (fun _ => ?_) (by simp)
              exact ⟨_, login, username, password, rfl⟩
            · rw [if_pos accepted]
              exact refuse h2.1
          · rw [hb2]
            exact h2.1
      | waitingTuneOk =>
          by_cases hm : f.methodId = some .tuneOk
          · simp only [hm, ne_eq, not_true_eq_false, if_false]
            rw [after_bind_pure]
            have trace : (after (setParserState c .waitingOpen) b1).trace =
                b1.trace ++ ([] ++ [.parser c .waitingOpen]) := rfl
            refine h1.moved trace ?_ ?_ (by simp) (by simp) (by simp) (fun _ => here hm)
            · rw [setParserState_tracker]
            · rw [state1]
              rfl
          · simp only [ne_eq, hm, not_false_eq_true, if_true]
            exact refuse h1
      | waitingOpen =>
          by_cases hm : f.methodId = some .connectionOpen
          · simp only [hm, ne_eq, not_true_eq_false, if_false]
            rw [after_bind_setParserState]
            exact h1.advance state1 rfl rfl (by simp) (by simp) (fun _ => here hm)
          · simp only [ne_eq, hm, not_false_eq_true, if_true]
            exact refuse h1
      | _ => exact h1

/-- A frame of a channel leaves the parser state alone. -/
theorem dispatch_channel_sameParser (hn : f.channelNumber ≠ 0) :
    SameParser c b (after (dispatch env c f) b) := by
  have steps : RespectsChannel c f (SameParser c) := {
    toProgress := sameParser_progress c
    reply := fun r _ => sameParser_reply c r
    close := sameParser_onTransport c _
    setChannel := fun channel => sameParser_setTracker (g := fun b => { b.trackers c with
      channels := (b.trackers c).channels.insert f.channelNumber channel }) fun _ => rfl
    deleteChannel := sameParser_setTracker (g := fun b => { b.trackers c with
      channels := (b.trackers c).channels.erase f.channelNumber }) fun _ => rfl
    channelOpened := fun _ _ => rfl }
  refine (dispatch_channel_once env steps (fun _ _ => rfl) hn b).within (sameParser_progress c) ?_
  rintro b1 b2 ⟨op, _, rfl⟩
  exact sameParser_call env c op b1

theorem handshakeInvariant_channel (hn : f.channelNumber ≠ 0) (h : HandshakeInvariant c b) :
    HandshakeInvariant c (after (dispatch env c f) b) := by
  obtain ⟨new, trace, events⟩ := (dispatch_byConn env c f b).events
  refine h.of_idle trace (fun e he => ?_) (dispatch_channel_sameParser hn)
  have own := events e he
  cases e with
  | frame c' s f' =>
      obtain ⟨rfl, rfl⟩ := own
      refine ⟨by simp, by simp [Event.checks], ?_⟩
      rintro ⟨f, same, _, zero⟩
      cases same
      exact hn zero
  | parser c' s => exact absurd own.2 hn
  | channelOpened c' n =>
      exact ⟨by simp, by simp [Event.checks], by simp [Event.receives]⟩
  | push p => exact own.elim
  | call c' op result =>
      refine ⟨by simp, ?_, by simp [Event.receives]⟩
      rintro ⟨username, password, result', same⟩
      cases same
      exact hn own.2
  | reply c' r =>
      obtain ⟨rfl, answers⟩ := own
      refine Event.idle_of_reply ?_
      cases r with
      | connectionStart => exact answers.elim
      | connectionTune => exact absurd answers hn
      | connectionOk => exact absurd answers.2 hn
      | _ => rfl

/-! ### Turns -/

theorem HandshakeInvariant.of_other (h : HandshakeInvariant c b) {c' : ConnId} (hne : c ≠ c')
    {E : Event → Prop} (conn : ∀ e, E e → e.conn = some c') (moved : ByConn c' E b b') :
    HandshakeInvariant c b' := by
  obtain ⟨new, trace, events⟩ := moved.events
  refine h.of_idle trace (fun e he => Event.idle_of_conn ?_) (by rw [moved.others c hne])
  rw [conn e (events e he)]
  exact fun same => hne (Option.some.inj same).symm

theorem handshakeInvariant_turn (env : Env) (b : Broker) (t : Turn) (h : HandshakeInvariant c b)
    (decoded : t.Decoded) : HandshakeInvariant c (Turn.step env b t) := by
  cases t with
  | frame c' f =>
      by_cases same : c = c'
      · subst same
        by_cases hn : f.channelNumber = 0
        · exact handshakeInvariant_handshake hn decoded h
        · exact handshakeInvariant_channel hn h
      · exact h.of_other same (fun _ he => he.conn) (dispatch_byConn env c' f b)
  | start c' =>
      by_cases same : c = c'
      · subst same
        by_cases state : (b.trackers c).parserState = .waitingProtocolHeader
        · rw [Turn.step_start state]
          exact h.advance state rfl rfl (by simp) (by simp) (by simp)
        · have unchanged : Turn.step env b (.start c) = b := if_neg state
          rw [unchanged]
          exact h
      · refine h.of_other same ?_ (Turn.start_byConn env b c')
        rintro e (rfl | rfl) <;> rfl
  | lost c' =>
      by_cases same : c = c'
      · subst same
        exact h.close
      · have closed : ByConn c' (fun _ => False) b (after (close c') b) :=
          byConn_onTransport (fun _ _ => rfl) b
        exact h.of_other same (fun _ no => no.elim) closed
  | http op =>
      obtain ⟨conns, ⟨new, trace, pushes⟩, _, _⟩ := http_after env op b
      refine h.of_idle trace (fun e he => ?_) (conns c).1
      obtain ⟨p, rfl, _⟩ := pushes e he
      exact Event.idle_of_conn (by simp [Event.conn])

/-- The parser state never moves backwards. -/
theorem turn_value_le (env : Env) (b : Broker) (t : Turn) (c : ConnId) :
    (b.trackers c).parserState.value ≤ ((Turn.step env b t).trackers c).parserState.value := by
  have same_le : ∀ {b' : Broker}, SameParser c b b' →
      (b.trackers c).parserState.value ≤ (b'.trackers c).parserState.value := by
    intro b' same
    rw [same]
  cases t with
  | http op => exact same_le ((http_after env op b).connections c).1
  | frame c' f =>
      by_cases same : c = c'
      · subst same
        have next : ∀ s s' : ConnectionState, s.next = some s' →
            (b.trackers c).parserState.value ≤ s.value →
            (b.trackers c).parserState.value ≤ s'.value := by
          intro s s' hs le
          refine le.trans ?_
          cases s <;> cases hs <;> decide
        exact dispatch_keepsParser env
          (P := fun s => (b.trackers c).parserState.value ≤ s.value) next f b (le_refl _)
      · exact same_le (congrArg Tracker.parserState ((dispatch_byConn env c' f b).others c same))
  | start c' =>
      by_cases same : c = c'
      · subst same
        by_cases state : (b.trackers c).parserState = .waitingProtocolHeader
        · rw [state]
          cases ((Turn.step env b (.start c)).trackers c).parserState <;> decide
        · have unchanged : Turn.step env b (.start c) = b := if_neg state
          rw [unchanged]
      · exact same_le (congrArg Tracker.parserState ((Turn.start_byConn env b c').others c same))
  | lost c' =>
      by_cases same : c = c'
      · subst same
        have kept : SameParser c b (after (close c) b) := sameParser_onTransport c _ b
        exact same_le kept
      · have kept : (Turn.step env b (.lost c')).trackers c = b.trackers c := b.setTracker_ne same _
        exact same_le (congrArg Tracker.parserState kept)

end

theorem run_value_le (env : Env) (b : Broker) (turns : List Turn) (c : ConnId) :
    (b.trackers c).parserState.value ≤
      ((Runs.run (Turn.step env) b turns).trackers c).parserState.value := by
  induction turns generalizing b with
  | nil => exact le_refl _
  | cons t rest ih => exact (turn_value_le env b t c).trans (ih (Turn.step env b t))

/-! ## Byte streams -/

/-- The bytes that reach the connection: the event loop delivers none after
`transport.close()`. -/
def Server.arrives (c : ConnId) (s : Server) : Action → Bytes
  | .dataReceived c' data => if c' = c ∧ s.broker.isClosing c = false then data else []
  | _ => []

def Server.received (env : Env) (c : ConnId) : Server → List Action → Bytes
  | _, [] => []
  | s, a :: rest => Server.arrives c s a ++ received env c (Server.step env s a) rest

section
variable {env : Env} {c : ConnId} {s : Server}

variable (env c) in
theorem Server.received_snoc (s : Server) (actions : List Action) (a : Action) :
    Server.received env c s (actions ++ [a]) = Server.received env c s actions ++
      Server.received env c (Runs.run (Server.step env) s actions) [a] := by
  induction actions generalizing s with
  | nil => rfl
  | cons b rest ih =>
      simp only [List.cons_append, Server.received, Runs.run_cons, List.append_assoc, ih]

/-- The action is no concern of the connection. -/
theorem Server.step_other {a : Action} (h : ∀ data, a ≠ .dataReceived c data)
    (lost : a ≠ .connectionLost c) :
    (Server.step env s a).buffers c = s.buffers c ∧
      SameParser c s.broker (Server.step env s a).broker ∧
      (Server.step env s a).broker.isClosing c = s.broker.isClosing c := by
  cases a with
  | http op =>
      have same := (http_after env op s.broker).connections c
      exact ⟨rfl, same.1, same.2.2⟩
  | connectionLost c' =>
      have hne : c ≠ c' := by
        rintro rfl
        exact lost rfl
      have kept : (after (close c') s.broker).trackers c = s.broker.trackers c :=
        s.broker.setTracker_ne hne _
      exact ⟨rfl, congrArg Tracker.parserState kept,
        congrArg (fun t : Tracker => t.transport.closing) kept⟩
  | dataReceived c' data =>
      have hne : c ≠ c' := by
        rintro rfl
        exact h data rfl
      have own : ∀ t ∈ Server.turns env s (.dataReceived c' data),
          ∀ b : Broker, (Turn.step env b t).trackers c = b.trackers c := by
        intro t ht b
        simp only [Server.turns] at ht
        split at ht
        · cases ht
        · split at ht
          · split at ht
            · cases ht
            · split at ht
              · rw [List.mem_singleton.mp ht]
                exact b.setTracker_ne hne _
              · rw [List.mem_singleton.mp ht]
                exact (Turn.start_byConn env b c').others c hne
          · obtain ⟨f, _, rfl⟩ := List.mem_map.mp ht
            exact (dispatch_byConn env c' f b).others c hne
      have run : ∀ (turns : List Turn), (∀ t ∈ turns, ∀ b : Broker,
          (Turn.step env b t).trackers c = b.trackers c) → ∀ b : Broker,
          (Runs.run (Turn.step env) b turns).trackers c = b.trackers c := by
        intro turns
        induction turns with
        | nil => exact fun _ _ => rfl
        | cons t rest ih =>
            intro each b
            rw [Runs.run_cons, ih (fun t ht => each t (List.mem_cons_of_mem _ ht)),
              each t List.mem_cons_self]
      have kept : (Server.step env s (.dataReceived c' data)).broker.trackers c =
          s.broker.trackers c := by
        rw [Server.step_refines]
        exact run _ own s.broker
      refine ⟨?_, congrArg Tracker.parserState kept,
        congrArg (fun t : Tracker => t.transport.closing) kept⟩
      simp only [Server.step]
      split
      · rfl
      · exact Function.update_of_ne hne _ _

/-- Until the protocol header is complete, the buffer is all that was received. -/
theorem header_buffer (env : Env) (draws : Nat → Draw) (actions : List Action) (c : ConnId) :
    let s := Runs.run (Server.step env) (Server.init env draws) actions
    (s.broker.trackers c).parserState = .waitingProtocolHeader → s.broker.isClosing c = false →
      s.buffers c = Server.received env c (Server.init env draws) actions := by
  induction actions using List.reverseRecOn with
  | nil => exact fun _ _ => rfl
  | append_singleton actions a ih =>
      rw [Runs.run_append, Server.received_snoc]
      let s := Runs.run (Server.step env) (Server.init env draws) actions
      change (((Server.step env s a).broker.trackers c).parserState = .waitingProtocolHeader →
        (Server.step env s a).broker.isClosing c = false → (Server.step env s a).buffers c =
          Server.received env c (Server.init env draws) actions ++ Server.received env c s [a])
      intro state live
      have before : (s.broker.trackers c).parserState = .waitingProtocolHeader := by
        have le := run_value_le env s.broker (Server.turns env s a) c
        rw [← Server.step_refines, state] at le
        revert le
        cases (s.broker.trackers c).parserState <;> decide
      by_cases own : ∃ data, a = .dataReceived c data
      · obtain ⟨data, rfl⟩ := own
        by_cases closing : s.broker.isClosing c = true
        · have stuck : Server.step env s (.dataReceived c data) = s := if_pos closing
          rw [stuck, closing] at live
          cases live
        · have open_ : s.broker.isClosing c = false := by simpa using closing
          have arrived : Server.received env c s [.dataReceived c data] = data := by
            simp [Server.received, Server.arrives, open_]
          rw [arrived, ← ih before open_]
          rw [step_header open_ before] at state live ⊢
          by_cases short : (s.buffers c ++ data).length < PROTOCOL_HEADER.length
          · rw [if_pos short]
            exact Function.update_self _ _ _
          · rw [if_neg short] at state live ⊢
            by_cases other : s.buffers c ++ data ≠ PROTOCOL_HEADER
            · rw [if_pos other] at live
              have closed := isClosing_close (c := c) s.broker
              rw [closed] at live
              cases live
            · rw [if_neg other] at state
              have started := greet_started (c := c) s.broker
              dsimp only at state
              rw [started] at state
              cases state
      · have notData : ∀ data, a ≠ .dataReceived c data := fun data same => own ⟨data, same⟩
        have nothing : Server.received env c s [a] = [] := by
          cases a with
          | dataReceived c' data =>
              have hne : c' ≠ c := by
                rintro rfl
                exact notData data rfl
              simp [Server.received, Server.arrives, hne]
          | _ => rfl
        rw [nothing, List.append_nil]
        by_cases lost : a = .connectionLost c
        · subst lost
          have closed : (after (close c) s.broker).trackers c = _ := s.broker.setTracker_self c _
          have closing : (Server.step env s (.connectionLost c)).broker.isClosing c = true := by
            simp only [Server.step, Broker.isClosing, closed]
          rw [closing] at live
          cases live
        · obtain ⟨buffer, _, closing⟩ : (Server.step env s a).buffers c = s.buffers c ∧ _ ∧
              (Server.step env s a).broker.isClosing c = s.broker.isClosing c :=
            Server.step_other notData lost
          rw [buffer]
          exact ih before (closing ▸ live)

end

/-! ## The states that a connection goes through -/

/-- The values assigned to the parser state of a connection. -/
def assigned (c : ConnId) (trace : List Event) : List ConnectionState :=
  trace.filterMap fun e => match e with
    | .parser c' s => if c' = c then some s else none
    | _ => none

/-- The states entered on the way to a state. -/
def ConnectionState.path : ConnectionState → List ConnectionState
  | waitingProtocolHeader | waitingOther => []
  | waitingStartOk => [waitingStartOk]
  | waitingTuneOk => [waitingStartOk, waitingTuneOk]
  | waitingOpen => [waitingStartOk, waitingTuneOk, waitingOpen]
  | opened => [waitingStartOk, waitingTuneOk, waitingOpen, opened]

def OnPath (c : ConnId) (b : Broker) : Prop :=
  assigned c b.trace = (b.trackers c).parserState.path

/-- The parser state of `c` stays, and is not assigned. -/
def Unassigned (c : ConnId) (b b' : Broker) : Prop :=
  SameParser c b b' ∧ assigned c b'.trace = assigned c b.trace

section
variable {env : Env} {c : ConnId} {f : FrameValue} {b b' : Broker}

theorem unassigned_progress (c : ConnId) : Progress (Unassigned c) where
  refl := fun _ => ⟨rfl, rfl⟩
  trans := fun h k => ⟨(sameParser_progress c).trans h.1 k.1, k.2.trans h.2⟩

theorem Unassigned.onPath (h : Unassigned c b b') (path : OnPath c b) : OnPath c b' := by
  unfold OnPath
  rw [h.1, h.2]
  exact path

theorem unassigned_log {e : Event} (h : ∀ s, e ≠ .parser c s) : Within (Unassigned c) (log e) := by
  intro b
  refine ⟨rfl, ?_⟩
  have trace : (after (log e) b).trace = b.trace ++ [e] := rfl
  have quiet : assigned c [e] = [] := by
    cases e with
    | parser c' s =>
        have other : c' ≠ c := by
          rintro rfl
          exact h s rfl
        simp [assigned, other]
    | _ => rfl
  rw [trace, assigned, List.filterMap_append]
  exact (congrArg (assigned c b.trace ++ ·) quiet).trans (List.append_nil _)

theorem unassigned_onTransport (x : Send Unit) : Within (Unassigned c) (onTransport c x) := by
  intro b
  have trace : (after (onTransport c x) b).trace = b.trace := by
    rw [onTransport_apply_tracker]
    rfl
  exact ⟨sameParser_onTransport c x b, by rw [trace]⟩

theorem unassigned_reply (r : Reply) : Within (Unassigned c) (reply c r) :=
  within_bind (unassigned_progress c) (unassigned_onTransport r.send)
    (fun _ => unassigned_log (by simp))

theorem unassigned_setTracker {g : Broker → Tracker}
    (h : ∀ b, (g b).parserState = (b.trackers c).parserState) :
    Within (Unassigned c) (update fun b => b.setTracker c (g b) : OnBroker Unit) :=
  fun b => ⟨sameParser_setTracker h b, rfl⟩

theorem unassigned_call (op : Call) : Within (Unassigned c) (call env c op) := by
  intro b
  refine ⟨sameParser_call env c op b, ?_⟩
  rw [after_call]
  exact (unassigned_log (e := .call c op _) (by simp) b).2

theorem assigned_setParserState (c : ConnId) (s : ConnectionState) (b : Broker) :
    assigned c (after (setParserState c s) b).trace = assigned c b.trace ++ [s] := by
  have trace : (after (setParserState c s) b).trace = b.trace ++ [.parser c s] := rfl
  simp [trace, assigned]

theorem onPath_setParserState {s : ConnectionState}
    (next : s.path = (b.trackers c).parserState.path ++ [s]) (h : OnPath c b) :
    OnPath c (after (setParserState c s) b) := by
  unfold OnPath at h ⊢
  rw [assigned_setParserState, setParserState_tracker, h]
  exact next.symm

variable (env) in
theorem dispatch_onPath (f : FrameValue) (b : Broker) (h : OnPath c b) :
    OnPath c (after (dispatch env c f) b) := by
  let R : Broker → Broker → Prop := fun b b' => OnPath c b → OnPath c b'
  have hp : Progress R := ⟨fun _ => id, fun h k path => k (h path)⟩
  have quiet : ∀ {x : OnBroker Unit}, Within (Unassigned c) x → Within R x :=
    fun hx => hx.mono fun _ _ kept => kept.onPath
  have called : ∀ b1 b2, Called env c f b1 b2 → R b1 b2 := by
    rintro b1 b2 ⟨op, _, rfl⟩
    exact (unassigned_call op b1).onPath
  have framed : ∀ s, Within R (log (.frame c s f)) := fun _ => quiet (unassigned_log (by simp))
  have respects : Respects c f R := {
    toProgress := hp
    reply := fun r _ => quiet (unassigned_reply r)
    close := quiet (unassigned_onTransport _) }
  by_cases hn : f.channelNumber = 0
  · have steps : RespectsHandshake c f R := {
      toRespects := respects
      parser := fun b s s' state hs _ => by
        refine onPath_setParserState ?_
        rw [state]
        cases s <;> cases hs <;> rfl }
    exact (dispatch_handshake_once env steps framed hn b).within hp called h
  · have steps : RespectsChannel c f R := {
      toRespects := respects
      setChannel := fun channel => quiet (unassigned_setTracker (g := fun b => { b.trackers c with
        channels := (b.trackers c).channels.insert f.channelNumber channel }) fun _ => rfl)
      deleteChannel := quiet (unassigned_setTracker (g := fun b => { b.trackers c with
        channels := (b.trackers c).channels.erase f.channelNumber }) fun _ => rfl)
      channelOpened := fun _ => quiet (unassigned_log (by simp)) }
    exact (dispatch_channel_once env steps framed hn b).within hp called h

theorem onPath_of_other {c' : ConnId} (hne : c ≠ c') {E : Event → Prop}
    (conn : ∀ e, E e → e.conn = some c') (moved : ByConn c' E b b') (h : OnPath c b) :
    OnPath c b' := by
  obtain ⟨new, trace, events⟩ := moved.events
  have quiet : assigned c new = [] := by
    refine List.filterMap_eq_nil_iff.mpr fun e he => ?_
    have own := conn e (events e he)
    cases e with
    | parser c'' s =>
        cases own
        simp [hne.symm]
    | _ => rfl
  unfold OnPath at h ⊢
  rw [trace, assigned, List.filterMap_append, moved.others c hne, ← h]
  exact (congrArg (assigned c b.trace ++ ·) quiet).trans (List.append_nil _)

theorem onPath_turn (b : Broker) (t : Turn) (h : OnPath c b) : OnPath c (Turn.step env b t) := by
  cases t with
  | frame c' f =>
      by_cases same : c = c'
      · subst same
        exact dispatch_onPath env f b h
      · exact onPath_of_other same (fun _ he => he.conn) (dispatch_byConn env c' f b) h
  | start c' =>
      by_cases same : c = c'
      · subst same
        by_cases state : (b.trackers c).parserState = .waitingProtocolHeader
        · rw [Turn.step_start state]
          obtain ⟨t, sent⟩ := connectionStart_sent (b.trackers c).transport
          have replied := unassigned_reply (c := c) .connectionStart b
          rw [after_ok (reply_ok sent)] at replied
          unfold greet
          rw [after_congr (bind_ok (reply_ok sent))]
          refine onPath_setParserState ?_ (replied.onPath h)
          rw [replied.1, state]
          rfl
        · have unchanged : Turn.step env b (.start c) = b := if_neg state
          rw [unchanged]
          exact h
      · refine onPath_of_other same ?_ (Turn.start_byConn env b c') h
        rintro e (rfl | rfl) <;> rfl
  | lost c' =>
      by_cases same : c = c'
      · subst same
        exact (unassigned_onTransport _ b).onPath h
      · have closed : ByConn c' (fun _ => False) b (after (close c') b) :=
          byConn_onTransport (fun _ _ => rfl) b
        exact onPath_of_other same (fun _ no => no.elim) closed h
  | http op =>
      obtain ⟨conns, ⟨new, trace, pushes⟩, _, _⟩ := http_after env op b
      unfold OnPath at h ⊢
      have quiet : assigned c new = [] := by
        refine List.filterMap_eq_nil_iff.mpr fun e he => ?_
        obtain ⟨p, rfl, _⟩ := pushes e he
        rfl
      have parser : SameParser c b (Turn.step env b (.http op)) := (conns c).1
      have added : (Turn.step env b (.http op)).trace = b.trace ++ new := trace
      rw [added, assigned, List.filterMap_append, parser, ← h]
      exact (congrArg (assigned c b.trace ++ ·) quiet).trans (List.append_nil _)

end

/-! ## Runs -/

theorem Server.turnsOf_decoded (env : Env) (s : Server) (actions : List Action) :
    ∀ t ∈ Server.turnsOf env s actions, t.Decoded := by
  induction actions generalizing s with
  | nil => simp [Server.turnsOf]
  | cons a rest ih =>
      intro t ht
      rcases List.mem_append.mp ht with now | later
      · exact Server.turns_decoded env s a t now
      · exact ih (Server.step env s a) t later

theorem handshakeInvariant_init (c : ConnId) (env : Env) (draws : Nat → Draw) :
    HandshakeInvariant c (Broker.init env draws) where
  written := rfl
  login := History.precededBy_nil _ _
  asked := History.precededBy_nil _ _
  confirmed := History.precededBy_nil _ _
  opening := History.precededBy_nil _ _
  tuned := fun no => by cases no

theorem handshakeInvariant_run (env : Env) (draws : Nat → Draw) (actions : List Action)
    (c : ConnId) : HandshakeInvariant c
      (Runs.run (Server.step env) (Server.init env draws) actions).broker := by
  rw [Server.run_refines]
  have decoded := Server.turnsOf_decoded env (Server.init env draws) actions
  have start : HandshakeInvariant c (Server.init env draws).broker :=
    handshakeInvariant_init c env draws
  revert decoded start
  generalize Server.turnsOf env (Server.init env draws) actions = turns
  generalize (Server.init env draws).broker = b
  induction turns generalizing b with
  | nil => exact fun _ start => start
  | cons t rest ih =>
      intro decoded start
      exact ih (Turn.step env b t) (fun t' ht' => decoded t' (List.mem_cons_of_mem t ht'))
        (handshakeInvariant_turn env b t start (decoded t List.mem_cons_self))

theorem onPath_run (env : Env) (draws : Nat → Draw) (actions : List Action) (c : ConnId) :
    OnPath c (Runs.run (Server.step env) (Server.init env draws) actions).broker := by
  rw [Server.run_refines]
  have start : OnPath c (Server.init env draws).broker := rfl
  exact Runs.invariant (fun b t h => onPath_turn b t h) start _

theorem mem_handshakes {c : ConnId} {r : Reply} (h : r.isHandshake = true) (trace : List Event) :
    r ∈ handshakes c trace ↔ .reply c r ∈ trace := by
  unfold handshakes
  rw [List.mem_filterMap]
  constructor
  · rintro ⟨e, he, found⟩
    cases e with
    | reply c' r' =>
        simp only [Option.ite_none_right_eq_some, Option.some.injEq] at found
        obtain ⟨⟨rfl, _⟩, rfl⟩ := found
        exact he
    | _ => cases found
  · intro he
    exact ⟨_, he, by simp [h]⟩

/-- The bytes received when start is written are the protocol header. -/
theorem start_after_header (env : Env) (draws : Nat → Draw) (actions : List Action) (a : Action)
    (c : ConnId) :
    let s := Runs.run (Server.step env) (Server.init env draws) actions
    .reply c .connectionStart ∉ s.broker.trace →
      .reply c .connectionStart ∈ (Server.step env s a).broker.trace →
      Server.received env c (Server.init env draws) (actions ++ [a]) = PROTOCOL_HEADER := by
  intro s before written
  have old : HandshakeInvariant c s.broker := handshakeInvariant_run env draws actions c
  have new : HandshakeInvariant c (Server.step env s a).broker := by
    have later := handshakeInvariant_run env draws (actions ++ [a]) c
    rwa [Runs.run_append] at later
  rw [← mem_handshakes rfl, old.written] at before
  rw [← mem_handshakes rfl, new.written] at written
  have le := run_value_le env s.broker (Server.turns env s a) c
  rw [← Server.step_refines] at le
  have waiting : (s.broker.trackers c).parserState = .waitingProtocolHeader := by
    revert before written le
    cases (s.broker.trackers c).parserState <;>
      cases ((Server.step env s a).broker.trackers c).parserState <;>
      simp [ConnectionState.greeted, ConnectionState.value]
  have moved : ¬ SameParser c s.broker (Server.step env s a).broker := by
    intro same
    rw [same, waiting] at written
    cases written
  have closed : SameParser c s.broker (after (close c) s.broker) :=
    sameParser_onTransport c _ s.broker
  by_cases lost : a = .connectionLost c
  · subst lost
    exact absurd closed moved
  by_cases own : ∃ data, a = .dataReceived c data
  · obtain ⟨data, rfl⟩ := own
    by_cases closing : s.broker.isClosing c = true
    · have stuck : Server.step env s (.dataReceived c data) = s := if_pos closing
      rw [stuck] at moved
      exact absurd rfl moved
    · have live : s.broker.isClosing c = false := by simpa using closing
      have arrived : Server.received env c s [.dataReceived c data] = data := by
        simp [Server.received, Server.arrives, live]
      rw [Server.received_snoc, arrived, ← header_buffer env draws actions c waiting live]
      rw [step_header live waiting] at moved
      by_cases short : (s.buffers c ++ data).length < PROTOCOL_HEADER.length
      · rw [if_pos short] at moved
        exact absurd rfl moved
      · rw [if_neg short] at moved
        by_contra other
        rw [if_pos other] at moved
        exact moved closed
  · have notData : ∀ data, a ≠ .dataReceived c data := fun data same => own ⟨data, same⟩
    exact absurd (Server.step_other notData lost).2.1 moved

/-- The handshake methods are written in their order, each after what it answers, and the parser
state only moves forward. -/
theorem handshake_in_order (env : Env) (draws : Nat → Draw) (actions : List Action) (c : ConnId) :
    let s := Runs.run (Server.step env) (Server.init env draws) actions
    handshakes c s.broker.trace <+: [.connectionStart, .connectionTune, .connectionOk] ∧
      (∀ a, .reply c .connectionStart ∉ s.broker.trace →
        .reply c .connectionStart ∈ (Server.step env s a).broker.trace →
        Server.received env c (Server.init env draws) (actions ++ [a]) = PROTOCOL_HEADER) ∧
      History.PrecededBy (Event.receives c .waitingStartOk .startOk) (Event.checks c)
        s.broker.trace ∧
      History.PrecededBy (Event.accepts c) (· = .reply c .connectionTune) s.broker.trace ∧
      History.PrecededBy (Event.receives c .waitingTuneOk .tuneOk)
        (Event.receives c .waitingOpen .connectionOpen) s.broker.trace ∧
      History.PrecededBy (Event.receives c .waitingOpen .connectionOpen)
        (· = .reply c .connectionOk) s.broker.trace ∧
      (assigned c s.broker.trace).Pairwise (fun s s' => s.value < s'.value) ∧
      ∀ a, (s.broker.trackers c).parserState.value ≤
        ((Server.step env s a).broker.trackers c).parserState.value := by
  intro s
  have run : HandshakeInvariant c s.broker := handshakeInvariant_run env draws actions c
  have path : OnPath c s.broker := onPath_run env draws actions c
  refine ⟨?_, fun a => start_after_header env draws actions a c, run.asked, run.login,
    run.opening, run.confirmed, ?_, fun a => ?_⟩
  · rw [run.written]
    cases (s.broker.trackers c).parserState <;> decide
  · rw [show assigned c s.broker.trace = _ from path]
    cases (s.broker.trackers c).parserState <;> decide
  · rw [Server.step_refines]
    exact run_value_le env s.broker _ c

end MockAmqp
