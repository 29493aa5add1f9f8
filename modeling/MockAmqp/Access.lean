import MockAmqp.Consumers

/-!
# Access before authentication

When a connection may open channels and call operations of the shared state.
-/

namespace MockAmqp
open Exec

namespace Event

/-- Credentials were checked and accepted. -/
def accepts (c : ConnId) (e : Event) : Prop :=
  ∃ username password, e = .call c (.checkCredentials username password) (some true)

/-- The connection reaches OPENED. -/
def opens (c : ConnId) (e : Event) : Prop := e = .parser c .opened

/-- A channel is opened, or an operation other than `check_credentials` is called. -/
def accesses (c : ConnId) (e : Event) : Prop :=
  (∃ n, e = .channelOpened c n) ∨
    ∃ op result, e = .call c op result ∧ ∀ username password, op ≠ .checkCredentials username password

instance (c : ConnId) : DecidablePred (opens c)
  | .parser c' s => decidable_of_iff (c' = c ∧ s = .opened) (by simp [opens])
  | .frame .. | .channelOpened .. | .call .. | .reply .. | .push _ => isFalse (by simp [opens])

instance (c : ConnId) : DecidablePred (accesses c)
  | .channelOpened c' _ => decidable_of_iff (c' = c) (by simp [accesses])
  | .call c' (.checkCredentials ..) _ => isFalse (by simp [accesses])
  | .call c' (.declareExchange ..) _ | .call c' (.declareQueue _) _ | .call c' (.bindQueue ..) _
  | .call c' (.registerConsumer ..) _ | .call c' (.storeMessage ..) _
  | .call c' (.messageAck _) _ | .call c' (.messageNack ..) _ =>
      decidable_of_iff (c' = c) (by simp [accesses])
  | .frame .. | .parser .. | .reply .. | .push _ => isFalse (by simp [accesses])

theorem accesses_conn {c : ConnId} {e : Event} (h : e.accesses c) : e.conn = some c := by
  rcases h with ⟨n, rfl⟩ | ⟨op, result, rfl, _⟩ <;> rfl

theorem opens_conn {c : ConnId} {e : Event} (h : e.opens c) : e.conn = some c := by
  rw [h]
  rfl

end Event

/-- OPENED is reached after accepted credentials, and what needs it comes later. -/
def Guarded (c : ConnId) (trace : List Event) : Prop :=
  History.PrecededBy (Event.accepts c) (Event.opens c) trace ∧
    History.PrecededBy (Event.opens c) (Event.accesses c) trace

/-- The turn is not a channel.open on a channel number below 256 that reaches the connection
before OPENED. -/
def OpensLate (c : ConnId) (b : Broker) : Turn → Prop
  | .frame c' f => c' = c → f.methodId = some .channelOpen → 0 < f.channelNumber →
      f.channelNumber < 256 → (b.trackers c).parserState = .opened
  | _ => True

structure AccessInvariant (c : ConnId) (b : Broker) : Prop where
  guarded : Guarded c b.trace
  accepted : (b.trackers c).parserState = .waitingTuneOk ∨
    (b.trackers c).parserState = .waitingOpen → b.Accepted c
  opened : (b.trackers c).parserState = .opened ↔ ∃ e ∈ b.trace, Event.opens c e
  channels : (b.trackers c).parserState ≠ .opened →
    ∀ n channel, (b.trackers c).channels.get? n = some channel → channel = newChannel n

/-- The invariant, in a connection that is OPENED. -/
structure AccessOpened (c : ConnId) (b : Broker) : Prop where
  state : (b.trackers c).parserState = .opened
  gate : ∃ e ∈ b.trace, Event.opens c e
  guarded : Guarded c b.trace

theorem AccessOpened.invariant {c : ConnId} {b : Broker} (h : AccessOpened c b) :
    AccessInvariant c b where
  guarded := h.guarded
  accepted := fun no => by
    rw [h.state] at no
    rcases no with no | no <;> cases no
  opened := iff_of_true h.state h.gate
  channels := fun no => absurd h.state no

theorem AccessInvariant.isOpened {c : ConnId} {b : Broker} (h : AccessInvariant c b)
    (state : (b.trackers c).parserState = .opened) : AccessOpened c b :=
  ⟨state, h.opened.mp state, h.guarded⟩

section
variable {env : Env} {c : ConnId} {f : FrameValue} {b b' : Broker}

/-- Any event may follow OPENED. -/
theorem AccessOpened.of_trace {e : Event} (h : AccessOpened c b)
    (trace : b'.trace = b.trace ++ [e])
    (state : (b'.trackers c).parserState = (b.trackers c).parserState)
    (once : ¬ Event.opens c e) : AccessOpened c b' := by
  obtain ⟨g, hg, passed⟩ := h.gate
  refine ⟨state.trans h.state, ⟨g, by rw [trace]; simp [hg], passed⟩, ?_⟩
  unfold Guarded
  rw [trace, History.precededBy_snoc, History.precededBy_snoc]
  exact ⟨⟨h.guarded.1, fun opens => absurd opens once⟩, h.guarded.2, fun _ => ⟨g, hg, passed⟩⟩

theorem AccessOpened.of_same (h : AccessOpened c b) (trace : b'.trace = b.trace)
    (state : (b'.trackers c).parserState = (b.trackers c).parserState) : AccessOpened c b' :=
  ⟨state.trans h.state, trace ▸ h.gate, trace ▸ h.guarded⟩

/-- Events that neither open nor access leave the invariant alone. -/
theorem AccessInvariant.of_idle (h : AccessInvariant c b) {new : List Event}
    (trace : b'.trace = b.trace ++ new)
    (idle : ∀ e ∈ new, ¬ Event.opens c e ∧ ¬ Event.accesses c e)
    (state : (b'.trackers c).parserState = (b.trackers c).parserState)
    (channels : ∀ n channel, (b'.trackers c).channels.get? n = some channel →
      (b.trackers c).channels.get? n = some channel ∨ channel = newChannel n) :
    AccessInvariant c b' := by
  have grows : Traced b b' := ⟨new, trace.symm⟩
  refine ⟨⟨?_, ?_⟩, ?_, ?_, ?_⟩
  · rw [trace]
    exact h.guarded.1.append_idle fun e he => (idle e he).1
  · rw [trace]
    exact h.guarded.2.append_idle fun e he => (idle e he).2
  · rw [state]
    exact fun late => (h.accepted late).mono grows
  · rw [state, h.opened, trace]
    constructor
    · rintro ⟨e, he, opens⟩
      exact ⟨e, List.mem_append_left _ he, opens⟩
    · rintro ⟨e, he, opens⟩
      rcases List.mem_append.mp he with old | new
      · exact ⟨e, old, opens⟩
      · exact absurd opens (idle e new).1
  · rw [state]
    intro early n channel hget
    rcases channels n channel hget with old | new
    · exact h.channels early n channel old
    · exact new

theorem not_opens_of_conn {e : Event} (h : e.conn ≠ some c) :
    ¬ Event.opens c e ∧ ¬ Event.accesses c e :=
  ⟨fun opens => h (Event.opens_conn opens), fun accesses => h (Event.accesses_conn accesses)⟩

/-! ### Frames on channel 0 -/

/-- The handshake moves to a next state. -/
theorem AccessInvariant.advance (h : AccessInvariant c b) {s s' : ConnectionState}
    (state : (b.trackers c).parserState = s) (next : s.next = some s')
    (accepted : s = .waitingStartOk → b.Accepted c) :
    AccessInvariant c (after (setParserState c s') b) := by
  have notYet : s ≠ .opened := by
    rintro rfl
    cases next
  have login : b.Accepted c := by
    cases s with
    | waitingStartOk => exact accepted rfl
    | waitingTuneOk => exact h.accepted (.inl state)
    | waitingOpen => exact h.accepted (.inr state)
    | _ => cases next
  have here : ((after (setParserState c s') b).trackers c).parserState = s' := by
    have moved : (after (setParserState c s') b).trackers c =
        { b.trackers c with parserState := s' } := b.setTracker_self c _
    rw [moved]
  have shut : ¬ ∃ e ∈ b.trace, Event.opens c e := by
    rw [← h.opened, state]
    exact notYet
  have trace : (after (setParserState c s') b).trace = b.trace ++ [.parser c s'] := rfl
  have fresh : ((after (setParserState c s') b).trackers c).channels =
      (b.trackers c).channels := by
    have moved : (after (setParserState c s') b).trackers c =
        { b.trackers c with parserState := s' } := b.setTracker_self c _
    rw [moved]
  refine ⟨?_, ?_, ?_, ?_⟩
  · unfold Guarded
    rw [trace, History.precededBy_snoc, History.precededBy_snoc]
    refine ⟨⟨h.guarded.1, fun _ => ?_⟩, h.guarded.2, ?_⟩
    · obtain ⟨username, password, member⟩ := login
      exact ⟨_, member, username, password, rfl⟩
    · rintro (⟨n, no⟩ | ⟨op, result, no, _⟩) <;> cases no
  · exact fun _ => login.mono ⟨_, trace.symm⟩
  · rw [here, trace]
    constructor
    · rintro rfl
      exact ⟨_, List.mem_append_right _ List.mem_cons_self, rfl⟩
    · rintro ⟨e, he, opens⟩
      rcases List.mem_append.mp he with old | new
      · exact absurd ⟨e, old, opens⟩ shut
      · rw [List.mem_singleton.mp new] at opens
        cases opens
        rfl
  · rw [fresh]
    exact fun _ => h.channels (state ▸ notYet)

theorem AccessInvariant.reply (h : AccessInvariant c b) (r : Reply) :
    AccessInvariant c (after (reply c r) b) := by
  obtain ⟨new, trace, only⟩ := (byConn_reply (E := fun e => e = .reply c r) rfl b).events
  refine h.of_idle trace (fun e he => ?_) (sameParser_reply c r b)
    (fun _ _ hget => .inl (sameChannels_reply c r b ▸ hget))
  rw [only e he]
  exact ⟨by simp [Event.opens], by simp [Event.accesses]⟩

theorem AccessInvariant.close (h : AccessInvariant c b) :
    AccessInvariant c (after (close c) b) := by
  have trace : (after (MockAmqp.close c) b).trace = b.trace ++ [] := (List.append_nil _).symm
  exact h.of_idle trace (by simp) (sameParser_onTransport c _ b)
    (fun _ _ hget => .inl (sameChannels_onTransport c _ b ▸ hget))

theorem AccessInvariant.call (h : AccessInvariant c b) (username password : Str) :
    AccessInvariant c (after (call env c (.checkCredentials username password)) b) := by
  have called := after_call env c (.checkCredentials username password) b
  refine h.of_idle (congrArg Broker.trace called) ?_ (by rw [called])
    (fun _ _ hget => .inl (by rwa [called] at hget))
  intro e he
  rw [List.mem_singleton.mp he]
  exact ⟨by simp [Event.opens], by simp [Event.accesses]⟩

theorem accessInvariant_handshake (hn : f.channelNumber = 0) (h : AccessInvariant c b) :
    AccessInvariant c (after (dispatch env c f) b) := by
  have hp : Progress fun b b' : Broker => AccessInvariant c b → AccessInvariant c b' :=
    ⟨fun _ => id, fun h k hb => k (h hb)⟩
  have frame : ∀ s, Within (fun b b' => AccessInvariant c b → AccessInvariant c b')
      (log (.frame c s f)) := by
    intro s b hb
    have trace : (after (log (.frame c s f)) b).trace = b.trace ++ [.frame c s f] := rfl
    refine hb.of_idle trace (fun e he => ?_) rfl (fun _ _ => .inl)
    rw [List.mem_singleton.mp he]
    exact ⟨by simp [Event.opens], by simp [Event.accesses]⟩
  have steps : RespectsHandshake c f fun b b' => AccessInvariant c b → AccessInvariant c b' := {
    toProgress := hp
    reply := fun r _ b hb => hb.reply r
    close := fun b hb => hb.close
    parser := fun b s s' state next accepted hb => hb.advance state next accepted }
  refine (dispatch_handshake_once env steps frame hn b).within hp ?_ h
  rintro b1 b2 ⟨op, asked, rfl⟩ hb
  cases op with
  | checkCredentials username password => exact hb.call username password
  | storeMessage => exact absurd hn asked.1
  | registerConsumer =>
      have request := asked.2.1
      exact absurd (request.channel.trans hn) request.nonzero
  | declareExchange | declareQueue | bindQueue | messageAck | messageNack =>
      exact absurd hn asked.1.nonzero

/-! ### Frames of channels -/

theorem accessOpened_channel (hn : f.channelNumber ≠ 0) (h : AccessOpened c b) :
    AccessOpened c (after (dispatch env c f) b) := by
  have hp : Progress fun b b' : Broker => AccessOpened c b → AccessOpened c b' :=
    ⟨fun _ => id, fun h k hb => k (h hb)⟩
  have recorded : ∀ {e : Event}, ¬ Event.opens c e →
      Within (fun b b' => AccessOpened c b → AccessOpened c b') (log e) :=
    fun once _ hb => hb.of_trace rfl rfl once
  have stored : ∀ {g : Broker → Tracker}, (∀ b, (g b).parserState = (b.trackers c).parserState) →
      Within (fun b b' => AccessOpened c b → AccessOpened c b')
        (update fun b => b.setTracker c (g b) : OnBroker Unit) := by
    intro g hg b hb
    refine hb.of_same rfl ?_
    have self : ((b.setTracker c (g b)).trackers c) = g b := b.setTracker_self c _
    exact (congrArg Tracker.parserState self).trans (hg b)
  have sent : ∀ x : Send Unit, Within (fun b b' => AccessOpened c b → AccessOpened c b')
      (onTransport c x) := by
    intro x b hb
    refine hb.of_same ?_ (sameParser_onTransport c x b)
    rw [onTransport_apply_tracker]
    rfl
  have steps : RespectsChannel c f fun b b' => AccessOpened c b → AccessOpened c b' := {
    toProgress := hp
    reply := fun r _ => within_reply hp (fun x _ => sent x)
      (fun r => recorded (by simp [Event.opens])) r
    close := sent _
    setChannel := fun channel => stored (g := fun b => { b.trackers c with
      channels := (b.trackers c).channels.insert f.channelNumber channel }) (fun _ => rfl)
    deleteChannel := stored (g := fun b => { b.trackers c with
      channels := (b.trackers c).channels.erase f.channelNumber }) (fun _ => rfl)
    channelOpened := fun _ => recorded (by simp [Event.opens]) }
  refine (dispatch_channel_once env steps (fun _ => recorded (by simp [Event.opens])) hn b).within hp ?_ h
  rintro b1 b2 ⟨op, asked, rfl⟩ hb
  have called := after_call env c op b1
  exact hb.of_trace (by rw [called]) (by rw [called]) (by simp [Event.opens])

/-- Before OPENED every channel is as it was created, known or not. -/
theorem AccessInvariant.channel (h : AccessInvariant c b)
    (early : (b.trackers c).parserState ≠ .opened) (n : Nat) : b.channel c n = newChannel n := by
  unfold Broker.channel
  cases hget : (b.trackers c).channels.get? n with
  | none => rfl
  | some channel => exact h.channels early n channel hget

theorem AccessInvariant.received (h : AccessInvariant c b)
    (early : (b.trackers c).parserState ≠ .opened) : AccessInvariant c (b.received c f) := by
  refine h.of_idle (b.received_trace (c := c) (f := f)) ?_ Broker.received_parserState ?_
  · intro e he
    rw [List.mem_singleton.mp he]
    exact ⟨by simp [Event.opens], by simp [Event.accesses]⟩
  · intro n channel hget
    rw [Broker.received_get?, h.channel early] at hget
    by_cases hn : n = f.channelNumber
    · rw [if_pos hn, ← hn] at hget
      exact .inr (Option.some.inj hget).symm
    · rw [if_neg hn] at hget
      exact .inl hget

/-- The reply to a channel.open fails exactly on a channel number that does not fit one byte. -/
theorem channelOpenOk_large {n : Nat} (h : 256 ≤ n) (t : Transport) :
    ∃ e, (Reply.channelOpenOk n).send t = .error e t := sendMethodArgs_large h _ _ _ _ t

theorem channelOpenOk_small {n : Nat} (h : n < 256) (t : Transport) :
    ∃ t', (Reply.channelOpenOk n).send t = .ok () t' := by
  have encoded : dumps "S".toList [.str (str "42")] = .ok [0, 0, 0, 2, 0x34, 0x32] := rfl
  exact sendMethodArgs_small h encoded (by decide) t

/-- What a channel.open does on a channel that waits for it. -/
theorem treatFrameOn_channelOpen {channel : Channel} (h : channel.state = .waitingOpen)
    (hm : f.methodId = some .channelOpen) : treatFrameOn env c channel f = (do
      reply c (.channelOpenOk channel.number)
      setChannel c f.channelNumber { channel with state := .opened }
      log (.channelOpened c f.channelNumber)) := by
  unfold treatFrameOn
  rw [if_pos h, if_neg (not_not_intro hm), if_neg (by simp [checkChannelOpen])]

theorem accessInvariant_early (hn : f.channelNumber ≠ 0) (h : AccessInvariant c b)
    (early : (b.trackers c).parserState ≠ .opened)
    (allowed : f.methodId = some .channelOpen → 256 ≤ f.channelNumber) :
    AccessInvariant c (after (dispatch env c f) b) := by
  have start := h.received early (f := f)
  rw [after_dispatch_channel hn, h.channel early]
  by_cases hm : f.methodId = some .channelOpen
  · have raises : after (treatFrameOn env c (newChannel f.channelNumber) f) (b.received c f) =
        after (reply c (.channelOpenOk f.channelNumber)) (b.received c f) := by
      rw [treatFrameOn_channelOpen rfl hm]
      rcases after_bind_cases (reply c (.channelOpenOk f.channelNumber)) _ (b.received c f) with
        ⟨_, t, sent, _⟩ | ended
      · obtain ⟨e, failed⟩ := channelOpenOk_large (allowed hm)
          ((b.received c f).trackers c).transport
        rw [reply_error failed] at sent
        cases sent
      · exact ended
    rw [raises]
    exact start.reply _
  · rw [treatFrameOn_waitingOpen rfl hm]
    exact start.close

/-- An early channel.open on a small channel number is answered and recorded. -/
theorem dispatch_early_open (hn : f.channelNumber ≠ 0) (h : AccessInvariant c b)
    (early : (b.trackers c).parserState ≠ .opened) (hm : f.methodId = some .channelOpen)
    (small : f.channelNumber < 256) : ¬ Guarded c (after (dispatch env c f) b).trace := by
  obtain ⟨t, sent⟩ := channelOpenOk_small small ((b.received c f).trackers c).transport
  have replied : reply c (.channelOpenOk (newChannel f.channelNumber).number) (b.received c f) =
      .ok () _ := reply_ok sent
  have trace : (after (dispatch env c f) b).trace =
      (b.trace ++ [.frame c (b.trackers c).parserState f] ++
        [.reply c (.channelOpenOk f.channelNumber)]) ++ [.channelOpened c f.channelNumber] := by
    rw [after_dispatch_channel hn, h.channel early, treatFrameOn_channelOpen rfl hm,
      after_congr (bind_ok replied), ← b.received_trace (c := c) (f := f)]
    rfl
  rintro ⟨_, guarded⟩
  rw [trace, History.precededBy_snoc] at guarded
  obtain ⟨e, he, opens⟩ := guarded.2 (.inl ⟨_, rfl⟩)
  have shut := mt h.opened.mpr early
  rcases List.mem_append.mp he with before | replied
  · rcases List.mem_append.mp before with old | frame
    · exact shut ⟨e, old, opens⟩
    · rw [List.mem_singleton.mp frame] at opens
      cases opens
  · rw [List.mem_singleton.mp replied] at opens
    cases opens

/-! ### Turns -/

/-- The first state after the protocol header. -/
theorem accessInvariant_start (h : AccessInvariant c b)
    (state : (b.trackers c).parserState = .waitingProtocolHeader) :
    AccessInvariant c (after (greet c) b) := by
  have shut : ∀ {b1 : Broker}, AccessInvariant c b1 →
      (b1.trackers c).parserState = .waitingProtocolHeader →
      AccessInvariant c (after (setParserState c .waitingStartOk) b1) := by
    intro b1 h1 state1
    have self : (after (setParserState c .waitingStartOk) b1).trackers c =
        { b1.trackers c with parserState := .waitingStartOk } := b1.setTracker_self c _
    have early : (b1.trackers c).parserState ≠ .opened := by simp [state1]
    have trace : (after (setParserState c .waitingStartOk) b1).trace =
        b1.trace ++ [.parser c .waitingStartOk] := rfl
    refine ⟨?_, ?_, ?_, ?_⟩
    · unfold Guarded
      rw [trace]
      exact ⟨h1.guarded.1.append_idle (by simp [Event.opens]),
        h1.guarded.2.append_idle (by simp [Event.accesses])⟩
    · rw [self]
      rintro (no | no) <;> cases no
    · rw [self, trace]
      refine iff_of_false (by simp) ?_
      rintro ⟨e, he, opens⟩
      rcases List.mem_append.mp he with old | new
      · exact early (h1.opened.mpr ⟨e, old, opens⟩)
      · rw [List.mem_singleton.mp new] at opens
        cases opens
    · rw [self]
      exact fun _ => h1.channels early
  rcases after_bind_cases (reply c .connectionStart) (fun _ => setParserState c .waitingStartOk) b
    with ⟨_, t, replied, ended⟩ | ended
  · have h1 := h.reply .connectionStart
    have same := sameParser_reply c .connectionStart b
    rw [after_ok replied] at h1 same
    unfold greet
    rw [ended]
    exact shut h1 (same.trans state)
  · unfold greet
    rw [ended]
    exact h.reply _

/-- What another connection does leaves the invariant alone. -/
theorem AccessInvariant.of_other (h : AccessInvariant c b) {c' : ConnId} (hne : c ≠ c')
    {E : Event → Prop} (conn : ∀ e, E e → e.conn = some c') (moved : ByConn c' E b b') :
    AccessInvariant c b' := by
  obtain ⟨new, trace, events⟩ := moved.events
  have same := moved.others c hne
  refine h.of_idle trace (fun e he => not_opens_of_conn ?_) (by rw [same])
    (fun _ _ hget => .inl (same ▸ hget))
  rw [conn e (events e he)]
  exact fun eq => hne (Option.some.inj eq).symm

theorem accessInvariant_turn (t : Turn) (h : AccessInvariant c b) (allowed : OpensLate c b t) :
    AccessInvariant c (Turn.step env b t) := by
  cases t with
  | frame c' f =>
      by_cases same : c = c'
      · subst same
        by_cases hn : f.channelNumber = 0
        · exact accessInvariant_handshake hn h
        · by_cases state : (b.trackers c).parserState = .opened
          · exact (accessOpened_channel hn (h.isOpened state)).invariant
          · refine accessInvariant_early hn h state (fun hm => ?_)
            by_contra small
            exact state (allowed rfl hm (Nat.pos_of_ne_zero hn) (by omega))
      · exact h.of_other same (fun _ he => he.conn) (dispatch_byConn env c' f b)
  | start c' =>
      by_cases same : c = c'
      · subst same
        by_cases state : (b.trackers c).parserState = .waitingProtocolHeader
        · rw [Turn.step_start state]
          exact accessInvariant_start h state
        · have unchanged : Turn.step env b (.start c) = b := if_neg state
          rw [unchanged]
          exact h
      · refine h.of_other same ?_ (Turn.start_byConn env b c')
        rintro e (rfl | rfl) <;> rfl
  | lost c' =>
      by_cases same : c = c'
      · subst same
        exact h.close
      · have closed : ByConn c' (fun _ => False) b (after (close c') b) :=
          byConn_onTransport (fun _ _ => rfl) b
        exact h.of_other same (fun _ no => no.elim) closed
  | http op =>
      obtain ⟨conns, ⟨new, trace, pushes⟩, _, _⟩ := http_after env op b
      refine h.of_idle trace (fun e he => ?_) (conns c).1 (fun _ _ hget => .inl ((conns c).2.1 ▸ hget))
      obtain ⟨p, rfl, _⟩ := pushes e he
      exact not_opens_of_conn (by simp [Event.conn])

/-- A turn that is not allowed breaks the guard. -/
theorem unguarded_of_early (t : Turn) (h : AccessInvariant c b) (early : ¬ OpensLate c b t) :
    ¬ Guarded c (Turn.step env b t).trace := by
  cases t with
  | frame c' f =>
      simp only [OpensLate, Classical.not_imp] at early
      obtain ⟨rfl, hm, positive, small, state⟩ := early
      exact dispatch_early_open (Nat.pos_iff_ne_zero.mp positive) h state hm small
  | _ => exact absurd trivial early

theorem turn_traced (env : Env) (b : Broker) (t : Turn) : Traced b (Turn.step env b t) := by
  cases t with
  | frame c f =>
      obtain ⟨new, trace, _⟩ := (dispatch_byConn env c f b).events
      exact ⟨new, trace.symm⟩
  | start c =>
      obtain ⟨new, trace, _⟩ := (Turn.start_byConn env b c).events
      exact ⟨new, trace.symm⟩
  | lost c => exact List.prefix_rfl
  | http op =>
      obtain ⟨new, trace, _⟩ := (http_after env op b).pushes
      exact ⟨new, trace.symm⟩

theorem Guarded.of_traced (h : Guarded c b'.trace) (k : Traced b b') : Guarded c b.trace := by
  obtain ⟨new, trace⟩ := k
  rw [← trace] at h
  exact ⟨h.1.of_append, h.2.of_append⟩

end

theorem accessInvariant_init (c : ConnId) (env : Env) (draws : Nat → Draw) :
    AccessInvariant c (Broker.init env draws) where
  guarded := ⟨History.precededBy_nil _ _, History.precededBy_nil _ _⟩
  accepted := by
    rintro (no | no) <;> cases no
  opened := iff_of_false (by simp [Broker.init, Tracker.init]) (by simp [Broker.init])
  channels := fun _ n channel no => by cases no

/-- In every run, a connection opens no channel and calls nothing but `check_credentials` before
it is OPENED, exactly if it never sends a channel.open on a channel number below 256 before that;
and OPENED always comes after accepted credentials. -/
theorem guarded_iff_opensLate (env : Env) (draws : Nat → Draw) (actions : List Action)
    (c : ConnId) :
    Guarded c (Runs.run (Server.step env) (Server.init env draws) actions).broker.trace ↔
      Runs.Along (Turn.step env) (OpensLate c) (Broker.init env draws)
        (Server.turnsOf env (Server.init env draws) actions) := by
  rw [Server.run_refines]
  exact Runs.run_iff_along (Q := fun b : Broker => Guarded c b.trace)
    (fun _ t h allowed => accessInvariant_turn t h allowed) (fun _ h => h.guarded)
    (fun _ t h early => unguarded_of_early t h early)
    (fun b t unguarded guarded => unguarded (guarded.of_traced (turn_traced env b t)))
    (accessInvariant_init c env draws) _

/-- A client that sends nothing but the protocol header and a channel.open. -/
theorem channel_opened_without_login :
    ¬ Guarded 0 (session [.dataReceived 0 PROTOCOL_HEADER,
      .dataReceived 0 (methodBytes 1 20 10 "s" [.str []])]).broker.trace := by
  rintro ⟨_, guarded⟩
  revert guarded
  decide +kernel

end MockAmqp
