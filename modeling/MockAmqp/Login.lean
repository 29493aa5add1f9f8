import MockAmqp.Acknowledgements
import MockAmqp.Clients
import MockAmqp.Mechanisms
import MockAmqp.Output
import MockAmqp.Replies

/-!
# Logging in

Nobody is sent connection.tune who has not presented the default account, and a client that
presents it gets through the handshake whatever others do meanwhile, and however its bytes are cut
as long as nothing comes in one piece with the end of the protocol header or of the start-ok.
-/

namespace MockAmqp
open Exec

/-! ## The accounts -/

/-- The default account is the only one. -/
def DefaultUsers (env : Env) (b : Broker) : Prop := b.state.users = (State.init env).users

section
variable {env : Env} {b : Broker}

theorem init_users {username password : Str} :
    (State.init env).users.get? username = some password ↔
      (username, password) = (env.defaultUser, env.defaultPassword) := by
  have one : (State.init env).users.get? username =
      if username = env.defaultUser then some env.defaultPassword else none := by
    rw [State.init, OrderedDict.ofList, List.foldl_cons, List.foldl_nil, OrderedDict.get?_insert]
    rfl
  rw [one, Prod.mk.injEq]
  split_ifs with same
  · simp [same, eq_comm]
  · simp [same]

theorem DefaultUsers.check (h : DefaultUsers env b) (username password : Str) :
    (b.state.checkCredentials username password).1 = true ↔
      (username, password) = (env.defaultUser, env.defaultPassword) := by
  rw [← init_users, ← h]
  exact decide_eq_true_iff

theorem call_users (op : Call) (s : State) : (after (op.run env) s).users = s.users := by
  by_cases quiet : op.records = false
  · exact (State.sameRecords_call env quiet s).users
  · cases op with
    | checkCredentials username password => rfl
    | messageAck tag => rfl
    | messageNack tag requeue =>
        cases requeue <;> rfl
    | _ => exact absurd rfl quiet

/-- No turn changes the accounts. -/
theorem turn_users (t : Turn) (h : DefaultUsers env b) : DefaultUsers env (Turn.step env b t) := by
  cases t with
  | lost c => exact h
  | start c => rwa [DefaultUsers, Turn.start_state]
  | frame c f =>
      rw [DefaultUsers, Turn.step]
      rcases dispatch_state_cases env c f b with same | ⟨op, _, called⟩
      · rw [same, h]
      · rw [called, call_users, h]
  | http op =>
      by_cases reset : op = .reset
      · subst reset
        rfl
      · exact (sameRecords_http reset b).users.trans h

theorem step_users {s : Server} (a : Action) (h : DefaultUsers env s.broker) :
    DefaultUsers env (Server.step env s a).broker := by
  rw [Server.step_refines]
  exact Runs.invariant (fun _ t => turn_users t) h _

variable (env) in
theorem run_users (draws : Nat → Draw) (actions : List Action) :
    DefaultUsers env (Runs.run (Server.step env) (Server.init env draws) actions).broker :=
  Runs.invariant (I := fun s : Server => DefaultUsers env s.broker) (fun _ a => step_users a)
    (show DefaultUsers env (Broker.init env draws) from rfl) actions

end

/-! ## Who is sent connection.tune -/

/-- The connection has presented the default account. -/
def Presented (env : Env) (c : ConnId) (b : Broker) : Prop :=
  ∃ f ∈ b.treatedOn c, f.channelNumber = 0 ∧ f.methodId = some .startOk ∧
    f.credentials = .ok (env.defaultUser, env.defaultPassword)

section
variable {env : Env} {b : Broker} {c : ConnId} {f : FrameValue}

theorem startOk_of_credentials {data : Bytes} {login : Str × Str}
    (decoded : readFrame data = .ok (some f)) (read : f.credentials = .ok login) :
    f.methodId = some .startOk := by
  obtain ⟨mechanism, named, _⟩ := except_bind_eq_ok.mp read
  obtain ⟨v, found, _⟩ := except_bind_eq_ok.mp named
  exact startOk_of_mechanism decoded found

theorem mem_sent {r : Reply} {l : List Event} :
    .reply c r ∈ l ↔ .reply c r ∈ l.filter Event.sent := by
  simp [Event.sent]

theorem asks_login {username password : Str}
    (asked : b.asks c f = some (.checkCredentials username password)) :
    f.channelNumber = 0 ∧ f.credentials = .ok (username, password) := by
  unfold Broker.asks at asked
  split at asked
  · rcases Channel.asks_cases asked with read | ⟨_, _, _, no⟩
    · exact (request_own read).elim
    · cases no
  · next hn =>
      obtain ⟨login, read, same⟩ : ∃ login, f.credentials = .ok login ∧
          Call.checkCredentials login.1 login.2 = .checkCredentials username password := by
        split at asked
        · cases read : f.credentials with
          | error e =>
              rw [read] at asked
              cases asked
          | ok login =>
              rw [read] at asked
              exact ⟨login, rfl, Option.some.inj asked⟩
        · cases asked
      cases same
      exact ⟨not_not.mp hn, read⟩

theorem Channel.acknowledges_plain (channel : Channel) :
    channel.acknowledges f ≠ some .connectionTune := by
  unfold Channel.acknowledges FrameValue.acknowledged
  split_ifs
  · simp
  · simp
  · simp
  · split
    · simp
    · simp
    · simp
  · simp

theorem acknowledges_plain : b.acknowledges c f ≠ some .connectionTune := by
  unfold Broker.acknowledges
  split
  · simp
  · split_ifs
    · exact Channel.acknowledges_plain _
    · simp
    · simp
    · simp

/-- Connection.tune answers a start-ok with accepted credentials and nothing else. -/
theorem answer_tune (answered : b.answer env c f = some .connectionTune) :
    f.channelNumber = 0 ∧ ∃ login, f.credentials = .ok login ∧
      (b.state.checkCredentials login.1 login.2).1 = true := by
  unfold Broker.answer at answered
  cases asked : b.asks c f with
  | none =>
      rw [asked] at answered
      exact absurd answered acknowledges_plain
  | some op =>
      rw [asked] at answered
      obtain ⟨ok, result, tune⟩ := Option.bind_eq_some_iff.mp answered
      cases op with
      | checkCredentials username password =>
          obtain ⟨hn, read⟩ := asks_login asked
          refine ⟨hn, (username, password), read, ?_⟩
          cases ok with
          | true => exact Option.some.inj result
          | false => cases tune
      | bindQueue => cases ok <;> cases tune
      | _ => cases tune

theorem turn_tune {t : Turn} (sent : .reply c .connectionTune ∈ (Turn.step env b t).trace) :
    .reply c .connectionTune ∈ b.trace ∨
      ∃ f, t = .frame c f ∧ b.answer env c f = some .connectionTune := by
  rw [mem_sent, sent_turn, List.mem_append, ← mem_sent] at sent
  refine sent.imp_right fun recent => ?_
  cases t with
  | frame c' f =>
      simp only [Turn.sends, Option.mem_toList, Option.map_eq_some_iff, Option.filter_eq_some_iff,
        Event.reply.injEq] at recent
      obtain ⟨r, ⟨answered, _⟩, rfl, rfl⟩ := recent
      exact ⟨f, rfl, answered⟩
  | start c' =>
      simp only [Turn.sends] at recent
      split at recent <;> simp at recent
  | lost c' => cases recent
  | http op => simp [Turn.sends] at recent

theorem turn_presented (t : Turn) (h : Presented env c b) :
    Presented env c (Turn.step env b t) := by
  obtain ⟨f, treated, presents⟩ := h
  refine ⟨f, ?_, presents⟩
  have run := run_treatedOn env c b [t]
  rw [Runs.run_cons, Runs.run_nil] at run
  rw [run]
  exact List.mem_append_left _ treated

/-- Whoever is sent connection.tune has presented the default account. -/
def TuneEarned (env : Env) (c : ConnId) (b : Broker) : Prop :=
  DefaultUsers env b ∧ (.reply c .connectionTune ∈ b.trace → Presented env c b)

theorem turn_tuneEarned {t : Turn} (decoded : t.Decoded) (h : TuneEarned env c b) :
    TuneEarned env c (Turn.step env b t) := by
  obtain ⟨users, earned⟩ := h
  refine ⟨turn_users t users, fun sent => ?_⟩
  rcases turn_tune sent with old | ⟨f, rfl, answered⟩
  · exact turn_presented t (earned old)
  · obtain ⟨hn, login, read, accepted⟩ := answer_tune answered
    have default := (users.check login.1 login.2).mp accepted
    obtain ⟨data, read'⟩ := decoded
    refine ⟨f, ?_, hn, startOk_of_credentials read' read, read.trans (congrArg Except.ok default)⟩
    show f ∈ (after (dispatch env c f) b).treatedOn c
    rw [dispatch_treatedOn]
    exact List.mem_append_right _ List.mem_cons_self

end

/-- In every run, a connection that has been sent connection.tune has had a start-ok treated whose
credentials are those of the default account. -/
theorem tune_only_for_default (env : Env) (draws : Nat → Draw) (actions : List Action)
    (c : ConnId) : TuneEarned env c
      (Runs.run (Server.step env) (Server.init env draws) actions).broker := by
  rw [Server.run_refines]
  have start : TuneEarned env c (Broker.init env draws) := ⟨rfl, fun sent => by cases sent⟩
  exact Runs.invariant_on (fun _ _ => turn_tuneEarned)
    (Server.turnsOf_decoded env (Server.init env draws) actions) start

/-! ## The handshake of one client -/

/-- The frames lead from one state of the parser to another. A start-ok ends its delivery. -/
inductive Leads (env : Env) : ConnectionState → List FrameValue → ConnectionState → Prop
  | done (s : ConnectionState) : Leads env s [] s
  | heartBeat {s s' : ConnectionState} {todo : List FrameValue} (size : Nat) :
      Leads env s todo s' → Leads env s (.heartBeat size :: todo) s'
  | startOk {f : FrameValue} : f.channelNumber = 0 → f.methodId = some .startOk →
      f.credentials = .ok (env.defaultUser, env.defaultPassword) →
      Leads env .waitingStartOk [f] .waitingTuneOk
  | tuneOk {f : FrameValue} {todo : List FrameValue} {s : ConnectionState} :
      f.channelNumber = 0 → f.methodId = some .tuneOk → Leads env .waitingOpen todo s →
      Leads env .waitingTuneOk (f :: todo) s
  | connectionOpen {f : FrameValue} {todo : List FrameValue} {s : ConnectionState} :
      f.channelNumber = 0 → f.methodId = some .connectionOpen → Leads env .opened todo s →
      Leads env .waitingOpen (f :: todo) s

/-- A live connection with these frames still to come. -/
structure Handshaking (env : Env) (c : ConnId) (goal : ConnectionState) (todo : List FrameValue)
    (b : Broker) : Prop where
  live : b.isClosing c = false
  users : DefaultUsers env b
  leads : Leads env (b.trackers c).parserState todo goal

/-- What matters for the handshake of `c`. -/
structure SameStanding (c : ConnId) (b b' : Broker) : Prop where
  parser : SameParser c b b'
  closing : b'.isClosing c = b.isClosing c
  users : b'.state.users = b.state.users

section
variable {env : Env} {b b' : Broker} {c : ConnId} {f : FrameValue} {goal : ConnectionState}
variable {todo : List FrameValue}

theorem Handshaking.same (h : Handshaking env c goal todo b) (same : SameStanding c b b') :
    Handshaking env c goal todo b' where
  live := same.closing.trans h.live
  users := same.users.trans h.users
  leads := by
    rw [same.parser]
    exact h.leads

theorem Handshaking.enter (h : Handshaking env c goal todo b) {s : ConnectionState}
    {next : List FrameValue} (leads : Leads env s next goal) :
    Handshaking env c goal next (after (setParserState c s) b) where
  live := by
    rw [Broker.isClosing, setParserState_tracker]
    exact h.live
  users := h.users
  leads := by rwa [setParserState_tracker]

theorem reply_same {r : Reply} (encodes : r.encoded.isSome = true) (b : Broker) :
    ∃ b', reply c r b = .ok () b' ∧ SameStanding c b b' := by
  obtain ⟨_, ⟨e, failed⟩ | ⟨raw, _, sent⟩⟩ := r.send_whole
  · rw [Reply.encoded, failed] at encodes
    cases encodes
  · refine ⟨_, reply_ok (sent _), ?_, ?_, rfl⟩
    · simp [SameParser]
    · simp [Broker.isClosing, Transport.put]

theorem call_same (op : Call) : SameStanding c b (after (call env c op) b) where
  parser := by rw [SameParser, after_call]
  closing := by rw [Broker.isClosing, after_call]; rfl
  users := by
    rw [after_call]
    exact call_users op b.state

theorem call_default (users : DefaultUsers env b) :
    call env c (.checkCredentials env.defaultUser env.defaultPassword) b = .ok true
      (after (call env c (.checkCredentials env.defaultUser env.defaultPassword)) b) := by
  have known := (users.check env.defaultUser env.defaultPassword).mpr rfl
  obtain ⟨result, b', called, _⟩ :=
    call_checkCredentials env c env.defaultUser env.defaultPassword b
  have accepted : result = true := by
    rw [← known]
    have checked : EStateM.Result.ok _ _ = EStateM.Result.ok result b' := called
    exact (EStateM.Result.ok.inj checked).1.symm
  rw [after_ok called, called, accepted]

theorem handshaking_heartBeat {size : Nat} (h : Handshaking env c goal todo b) :
    ∃ b', dispatch env c (.heartBeat size) b = .ok true b' ∧ Handshaking env c goal todo b' := by
  have recorded : SameStanding c b (b.recorded c (.heartBeat size)) := ⟨rfl, rfl, rfl⟩
  obtain ⟨b', replied, same⟩ := reply_same (c := c) (r := .heartbeat) rfl
    (b.recorded c (.heartBeat size))
  refine ⟨b', ?_, (h.same recorded).same same⟩
  rw [dispatch_heartBeat, bind_ok replied]
  rfl

/-- The default account is let in. -/
theorem handshaking_startOk (h : Handshaking env c goal todo b)
    (waiting : (b.trackers c).parserState = .waitingStartOk) (hn : f.channelNumber = 0)
    (hm : f.methodId = some .startOk)
    (login : f.credentials = .ok (env.defaultUser, env.defaultPassword))
    {next : List FrameValue} (leads : Leads env .waitingTuneOk next goal) :
    ∃ b', dispatch env c f b = .ok false b' ∧ Handshaking env c goal next b' := by
  have beat : ∀ size, f ≠ .heartBeat size := by
    rintro size rfl
    cases hm
  have other : ¬ f.methodId = some .connectionClose := by simp [hm]
  obtain ⟨b1, first⟩ : ∃ b1, b1 = b.recorded c f := ⟨_, rfl⟩
  have recorded : SameStanding c b b1 := first ▸ ⟨rfl, rfl, rfl⟩
  have checked : checkStartOk env c f b1 = .ok true (after (call env c
      (.checkCredentials env.defaultUser env.defaultPassword)) b1) := by
    rcases checkStartOk_run env c f b1 with ⟨_, same, run⟩ | ⟨e, unread, _⟩
    · rw [login] at same
      cases same
      exact run.trans (call_default (h.same recorded).users)
    · rw [login] at unread
      cases unread
  obtain ⟨b', replied, same⟩ := reply_same (c := c) (r := .connectionTune) rfl
    (after (call env c (.checkCredentials env.defaultUser env.defaultPassword)) b1)
  refine ⟨after (setParserState c .waitingTuneOk) b', ?_,
    (((h.same recorded).same (call_same _)).same same).enter leads⟩
  rw [dispatch_of_connection hn beat, if_neg other]
  change (_ : OnBroker Bool) (b.recorded c f) = _
  rw [← first, waiting]
  show (checkStartOk env c f >>= _) b1 = _
  rw [bind_ok checked]
  show (reply c .connectionTune >>= _) _ = _
  rw [bind_ok replied]
  rfl

theorem handshaking_tuneOk (h : Handshaking env c goal todo b)
    (waiting : (b.trackers c).parserState = .waitingTuneOk) (hn : f.channelNumber = 0)
    (hm : f.methodId = some .tuneOk) {next : List FrameValue}
    (leads : Leads env .waitingOpen next goal) :
    ∃ b', dispatch env c f b = .ok true b' ∧ Handshaking env c goal next b' := by
  have beat : ∀ size, f ≠ .heartBeat size := by
    rintro size rfl
    cases hm
  have other : ¬ f.methodId = some .connectionClose := by simp [hm]
  obtain ⟨b1, first⟩ : ∃ b1, b1 = b.recorded c f := ⟨_, rfl⟩
  have recorded : SameStanding c b b1 := first ▸ ⟨rfl, rfl, rfl⟩
  refine ⟨after (setParserState c .waitingOpen) b1, ?_,
    (h.same recorded).enter leads⟩
  rw [dispatch_of_connection hn beat, if_neg other]
  change (_ : OnBroker Bool) (b.recorded c f) = _
  rw [← first, waiting]
  show (if f.methodId ≠ some .tuneOk then _ else _ : OnBroker Bool) b1 = _
  rw [if_neg (not_not_intro hm)]
  rfl

theorem handshaking_connectionOpen (h : Handshaking env c goal todo b)
    (waiting : (b.trackers c).parserState = .waitingOpen) (hn : f.channelNumber = 0)
    (hm : f.methodId = some .connectionOpen) {next : List FrameValue}
    (leads : Leads env .opened next goal) :
    ∃ b', dispatch env c f b = .ok true b' ∧ Handshaking env c goal next b' := by
  have beat : ∀ size, f ≠ .heartBeat size := by
    rintro size rfl
    cases hm
  have other : ¬ f.methodId = some .connectionClose := by simp [hm]
  obtain ⟨b1, first⟩ : ∃ b1, b1 = b.recorded c f := ⟨_, rfl⟩
  have recorded : SameStanding c b b1 := first ▸ ⟨rfl, rfl, rfl⟩
  obtain ⟨b', replied, same⟩ := reply_same (c := c) (r := .connectionOk) rfl b1
  refine ⟨after (setParserState c .opened) b', ?_,
    ((h.same recorded).same same).enter leads⟩
  rw [dispatch_of_connection hn beat, if_neg other]
  change (_ : OnBroker Bool) (b.recorded c f) = _
  rw [← first, waiting]
  show (if f.methodId ≠ some .connectionOpen then _ else _ : OnBroker Bool) b1 = _
  rw [if_neg (not_not_intro hm)]
  show (reply c .connectionOk >>= _) b1 = _
  rw [bind_ok replied]
  rfl

/-- Each frame of the handshake leads on. -/
theorem handshaking_plays : Framing.Plays (dispatch env c) (Handshaking env c goal) := by
  intro f todo b h
  obtain ⟨s, state⟩ : ∃ s, (b.trackers c).parserState = s := ⟨_, rfl⟩
  have leads := h.leads
  rw [state] at leads
  cases leads with
  | heartBeat size later =>
      obtain ⟨b', done, next⟩ := handshaking_heartBeat ⟨h.live, h.users, state ▸ later⟩
      exact ⟨true, b', done, .inl rfl, next⟩
  | startOk hn hm login =>
      obtain ⟨b', done, next⟩ := handshaking_startOk h state hn hm login (.done _)
      exact ⟨false, b', done, .inr rfl, next⟩
  | tuneOk hn hm later =>
      obtain ⟨b', done, next⟩ := handshaking_tuneOk h state hn hm later
      exact ⟨true, b', done, .inl rfl, next⟩
  | connectionOpen hn hm later =>
      obtain ⟨b', done, next⟩ := handshaking_connectionOpen h state hn hm later
      exact ⟨true, b', done, .inl rfl, next⟩

theorem Leads.started {s s' : ConnectionState} (leads : Leads env s todo s')
    (goal : s' ≠ .waitingProtocolHeader) : s ≠ .waitingProtocolHeader := by
  induction leads with
  | done s => exact goal
  | heartBeat size _ ih => exact ih goal
  | _ => simp

theorem Handshaking.reached (h : Handshaking env c goal [] b) :
    (b.trackers c).parserState = goal := by
  have leads := h.leads
  revert leads
  generalize (b.trackers c).parserState = s
  intro leads
  cases leads
  rfl

end

section
variable {env : Env} {c : ConnId} {s : Server}

theorem handshaking_script {goal : ConnectionState} (started : goal ≠ .waitingProtocolHeader) :
    Script env c (· ≠ .connectionLost c) (Handshaking env c goal) where
  kept := id
  plays := handshaking_plays
  live := Handshaking.live
  started := fun h => h.leads.started started
  others := by
    intro todo s a kept other h
    obtain ⟨_, parser, closing⟩ := @Server.step_other env c s a other kept
    exact ⟨closing.trans h.live, step_users a h.users, by rw [parser]; exact h.leads⟩

/-! ## The whole handshake -/

/-- A connection before the end of its protocol header, or right after it. -/
def Greeting (env : Env) (c : ConnId) (rest : Bytes) (s : Server) : Prop :=
  (rest ≠ [] ∧ s.broker.isClosing c = false ∧ DefaultUsers env s.broker ∧
    (s.broker.trackers c).parserState = .waitingProtocolHeader ∧
    s.buffers c ++ rest = PROTOCOL_HEADER) ∨
  Playing c (Handshaking env c .waitingStartOk) rest s

theorem greeted (live : s.broker.isClosing c = false) (users : DefaultUsers env s.broker) :
    Handshaking env c .waitingStartOk [] (after (greet c) s.broker) := by
  have encodes : Reply.connectionStart.encoded.isSome = true := by
    obtain ⟨t, sent⟩ := connectionStart_sent { written := [], closing := false }
    rw [Reply.encoded, sent]
    rfl
  obtain ⟨b', replied, same⟩ := reply_same (c := c) encodes s.broker
  have done : after (greet c) s.broker = after (setParserState c .waitingStartOk) b' :=
    after_congr (bind_ok replied)
  have live' : Handshaking env c (b'.trackers c).parserState [] b' :=
    ⟨same.closing.trans live, same.users.trans users, .done _⟩
  rw [done]
  refine ⟨?_, live'.users, ?_⟩
  · rw [Broker.isClosing, setParserState_tracker]
    exact live'.live
  · rw [setParserState_tracker]
    exact .done _

theorem Greeting.step {rest : Bytes} {a : Action} (kept : a ≠ .connectionLost c)
    (h : Greeting env c (a.sentTo c ++ rest) s) : Greeting env c rest (Server.step env s a) := by
  rcases h with ⟨more, live, users, waiting, split⟩ | playing
  · by_cases own : ∃ data, a = .dataReceived c data
    · obtain ⟨data, rfl⟩ := own
      rw [Action.sentTo, if_pos rfl, ← List.append_assoc] at split
      rw [step_header live waiting]
      by_cases ended : rest = []
      · subst ended
        rw [List.append_nil] at split
        have long : ¬ (s.buffers c ++ data).length < PROTOCOL_HEADER.length := by
          rw [split]
          exact Nat.lt_irrefl _
        rw [if_neg long, if_neg (not_not_intro split)]
        have started := greeted live users
        revert started
        generalize after (greet c) s.broker = b
        intro started
        refine .inr ⟨[], by simp, .inl (Function.update_self ..), ?_, started⟩
        simp
      · have length := congrArg List.length split
        have left : 0 < rest.length := List.length_pos_iff.mpr ended
        rw [List.length_append] at length
        have short : (s.buffers c ++ data).length < PROTOCOL_HEADER.length := by omega
        rw [if_pos short]
        exact .inl ⟨ended, live, users, waiting, by simpa using split⟩
    · have other : ∀ data, a ≠ .dataReceived c data := fun data same => own ⟨data, same⟩
      obtain ⟨buffer, parser, closing⟩ := @Server.step_other env c s a other kept
      rw [Action.sentTo_other other, List.nil_append] at more split
      exact .inl ⟨more, closing.trans live, step_users a users, parser.trans waiting,
        buffer ▸ split⟩
  · exact .inr ((handshaking_script (by simp)).step kept playing)

end

/-- A client sends the protocol header, its login and the rest of the handshake among actions of
others. The header and the start-ok each end a delivery. -/
structure LogsIn (env : Env) (c : ConnId) (hello login opening : List Action) : Prop where
  header : hello.flatMap (Action.sentTo c) = PROTOCOL_HEADER
  kept : ∀ a ∈ hello, a ≠ .connectionLost c
  presents : ∃ frames, Brings c (· ≠ .connectionLost c) frames login ∧
    Leads env .waitingStartOk (frames.map Prod.snd) .waitingTuneOk
  opens : ∃ frames, Brings c (· ≠ .connectionLost c) frames opening ∧
    Leads env .waitingTuneOk (frames.map Prod.snd) .opened

/-- The connection is opened, waits for a frame, and has been sent the three replies. -/
structure LoggedIn (c : ConnId) (s : Server) : Prop where
  opened : (s.broker.trackers c).parserState = .opened
  live : s.broker.isClosing c = false
  buffer : s.buffers c = []
  replies : handshakes c s.broker.trace = [.connectionStart, .connectionTune, .connectionOk]

/-- A client that presents the default account gets through the handshake: whatever other clients
and requests do meanwhile, and however its bytes are cut but behind the header and the start-ok,
its connection ends up opened. -/
theorem login_completes (env : Env) (draws : Nat → Draw) {c : ConnId}
    {before hello login opening : List Action}
    (fresh : (Runs.run (Server.step env) (Server.init env draws) before).Fresh c)
    (client : LogsIn env c hello login opening) :
    LoggedIn c (Runs.run (Server.step env) (Server.init env draws)
      (before ++ hello ++ login ++ opening)) := by
  have invariant := handshakeInvariant_run env draws (before ++ hello ++ login ++ opening) c
  have users := run_users env draws before
  revert invariant users fresh
  simp only [Runs.run_append]
  generalize Runs.run (Server.step env) (Server.init env draws) before = s
  intro fresh invariant users
  obtain ⟨first, login', presents⟩ := client.presents
  obtain ⟨second, opening', opens⟩ := client.opens
  have start : Greeting env c (hello.flatMap (Action.sentTo c)) s := by
    refine .inl ⟨?_, ?_, users, ?_, ?_⟩
    · rw [client.header]
      simp [PROTOCOL_HEADER]
    · rw [Broker.isClosing, fresh.tracker]
      rfl
    · rw [fresh.tracker]
      rfl
    · rw [fresh.buffer, client.header, List.nil_append]
  obtain ⟨no, _⟩ | playing := Runs.arrived (fun _ _ _ => Greeting.step) client.kept start
  · exact absurd rfl no
  obtain ⟨empty, greeted⟩ := playing.finished
  have waiting := greeted.reached
  revert empty greeted waiting invariant
  generalize Runs.run (Server.step env) s hello = s
  intro invariant empty greeted waiting
  have tuning : Script env c (· ≠ .connectionLost c) (Handshaking env c .waitingTuneOk) := handshaking_script (by simp)
  obtain ⟨empty, tuned⟩ := tuning.completes login' empty
    ⟨greeted.live, greeted.users, by rw [waiting]; exact presents⟩
  have waiting := tuned.reached
  revert empty tuned waiting invariant
  generalize Runs.run (Server.step env) s login = s
  intro invariant empty tuned waiting
  have ending : Script env c (· ≠ .connectionLost c) (Handshaking env c .opened) := handshaking_script (by simp)
  obtain ⟨empty, opened⟩ := ending.completes opening' empty
    ⟨tuned.live, tuned.users, by rw [waiting]; exact opens⟩
  refine ⟨opened.reached, opened.live, empty, ?_⟩
  rw [invariant.written, opened.reached]
  rfl

/-! ## A login between the actions of another client -/

/-- A PLAIN start-ok with the default account. -/
theorem plain_presents (env : Env) {username password : Credential}
    (m : StartOk "PLAIN" (plainResponse username password)) (zero : m.raw.channelNumber = 0)
    (default : (username.val, password.val) = (env.defaultUser, env.defaultPassword)) :
    ∃ f, m.raw.Decodes f ∧ Leads env .waitingStartOk [f] .waitingTuneOk := by
  have text : bytesToStr (plainResponse username password) =
      .ok (0 :: username.val ++ 0 :: password.val) := bytesToStr_encodePass _
  have read := m.read []
  rw [m.raw.readFrame_bytes, text] at read
  refine ⟨_, read, .startOk ?_ rfl ?_⟩
  · exact congrArg UInt16.toNat zero
  · rw [← default]
    exact plainCredentials_response username password

theorem plain_named : (encodePass (str "PLAIN")).length < 256 := by decide

theorem guest_room : (plainResponse guest guest).length < 2 ^ 31 := by decide +kernel

def guestStartOk : StartOk "PLAIN" (plainResponse guest guest) := .bare _ _ plain_named guest_room

/-- A tune-ok, a heartbeat and a connection.open, with their bytes. -/
def openingFrames : List (RawFrame × FrameValue) :=
  [(⟨1, 0, [0, 10, 0, 31, 0, 0, 0, 2, 0, 0, 0, 10], by decide⟩,
      .method { channelNumber := 0, size := 20, methodId := .tuneOk,
                properties := .ofList [(.channelMax, .int 0), (.frameMax, .int 131072),
                  (.heartbeat, .int 10)] }),
    (⟨8, 0, [], empty_fits⟩, .heartBeat 8),
    (⟨1, 0, [0, 10, 0, 40, 1, 0x2F, 0, 0], by decide⟩,
      .method { channelNumber := 0, size := 16, methodId := .connectionOpen,
                properties := .ofList [(.vhost, .str (str "/")), (.capabilities, .str []),
                  (.insist, .bool false)] })]

/-- Another client connects before the header is whole, a request comes before the start-ok is, and
the other client leaves before the rest of the handshake is. -/
def guestHello : List Action :=
  [.dataReceived 0 (PROTOCOL_HEADER.take 3), .dataReceived 1 PROTOCOL_HEADER,
    .dataReceived 0 (PROTOCOL_HEADER.drop 3)]

def guestLogin : List Action :=
  [.dataReceived 0 (guestStartOk.raw.bytes.take 20), .http .reset,
    .dataReceived 0 (guestStartOk.raw.bytes.drop 20)]

def guestOpening : List Action :=
  [.dataReceived 0 ((openingFrames.map fun p => p.1.bytes).flatten.take 30), .connectionLost 1,
    .dataReceived 0 ((openingFrames.map fun p => p.1.bytes).flatten.drop 30)]

set_option maxRecDepth 4000 in
theorem guest_client : LogsIn guestEnv 0 guestHello guestLogin guestOpening where
  header := rfl
  kept := by simp [guestHello]
  presents := by
    obtain ⟨f, decodes, leads⟩ := plain_presents guestEnv guestStartOk rfl rfl
    refine ⟨[(guestStartOk.raw, f)], ⟨by simpa using decodes, ?_, by simp [guestLogin]⟩, leads⟩
    simp [guestLogin, Action.sentTo]
  opens := by
    refine ⟨openingFrames, ⟨?_, ?_, by simp [guestOpening]⟩, ?_⟩
    · simp only [openingFrames, List.forall_mem_cons, List.not_mem_nil, false_implies,
        implies_true, and_true]
      exact ⟨rfl, rfl, rfl⟩
    · simp [guestOpening, Action.sentTo]
    · exact .tuneOk rfl rfl (.heartBeat _ (.connectionOpen rfl rfl (.done _)))

theorem guest_logs_in :
    LoggedIn 0 (session ([] ++ guestHello ++ guestLogin ++ guestOpening)) := by
  have fresh : (session []).Fresh 0 := ⟨rfl, rfl⟩
  exact login_completes guestEnv _ fresh guest_client

end MockAmqp
