import MockAmqp.Protocol

/-!
# What the treatment of a frame can touch

The treatment of a frame, whether it returns or raises, consists of a few primitive steps
that answer the frame, with at most one operation of the shared state among them. A relation
between brokers that these steps respect is respected by the whole treatment.
-/

namespace MockAmqp
open Exec

theorem Reply.send_within (r : Reply) : Within Wrote r.send := by
  cases r
  case heartbeat => exact sendHeartbeat_within
  case connectionCloseOk | channelCloseOk | exchangeDeclareOk | queueBindOk | basicQosOk =>
    exact sendMethod_within _ _ _ _
  all_goals exact sendMethodArgs_within _ _ _ _ _

/-- The frame is the method `m` on channel `n`, which is not channel 0. -/
structure FrameValue.Requests (f : FrameValue) (m : MethodId) (n : Nat) : Prop where
  method : f.methodId = some m
  channel : n = f.channelNumber
  nonzero : n ≠ 0

/-- The replies that a frame can be given. -/
def Reply.answers (f : FrameValue) : Reply → Prop
  | heartbeat => ∃ size, f = .heartBeat size
  | connectionStart => False
  | connectionCloseOk => f.methodId = some .connectionClose ∧ f.channelNumber = 0
  | connectionTune => f.channelNumber = 0
  | connectionOk => f.methodId = some .connectionOpen ∧ f.channelNumber = 0
  | channelOpenOk _ => f.Requests .channelOpen f.channelNumber
  | channelCloseOk n => f.Requests .channelClose n
  | exchangeDeclareOk n => f.Requests .exchangeDeclare n
  | queueDeclareOk n queueName _ _ =>
      f.Requests .queueDeclare n ∧ f.argStr .queueName = .ok queueName
  | queueBindOk n => f.Requests .queueBind n
  | basicQosOk n => f.Requests .basicQos n
  | basicConsumeOk n consumerTag =>
      f.Requests .basicConsume n ∧ f.argStr .consumerTag = .ok consumerTag
  | basicCancelOk n consumerTag =>
      f.Requests .basicCancel n ∧ f.argStr .consumerTag = .ok consumerTag

/-- The operations that a frame of connection `c` can ask for. -/
def Call.asked (c : ConnId) (f : FrameValue) : Call → Prop
  | checkCredentials _ _ => f.channelNumber = 0
  | declareExchange name type => f.Requests .exchangeDeclare f.channelNumber ∧
      f.argStr .exchangeName = .ok name ∧ f.argStr .type = .ok type
  | declareQueue name => f.Requests .queueDeclare f.channelNumber ∧ f.argStr .queueName = .ok name
  | bindQueue queue withExchange => f.Requests .queueBind f.channelNumber ∧
      f.argStr .queueName = .ok queue ∧ f.argStr .exchangeName = .ok withExchange
  | registerConsumer consumer tag queueName n => consumer = c ∧ f.Requests .basicConsume n ∧
      f.argStr .consumerTag = .ok tag ∧ f.argStr .queueName = .ok queueName
  | storeMessage _ _ _ => f.channelNumber ≠ 0 ∧ f.methodId = none
  | messageAck tag => f.Requests .basicAck f.channelNumber ∧ f.argInt .deliveryTag = .ok tag
  | messageNack tag _ => f.Requests .basicNack f.channelNumber ∧ f.argInt .deliveryTag = .ok tag

/-- What follows each state of the handshake. -/
def ConnectionState.next : ConnectionState → Option ConnectionState
  | waitingStartOk => some waitingTuneOk
  | waitingTuneOk => some waitingOpen
  | waitingOpen => some opened
  | _ => none

/-- The steps made for any frame. -/
structure Respects (c : ConnId) (f : FrameValue) (R : Broker → Broker → Prop) : Prop
    extends Progress R where
  reply : ∀ r : Reply, r.answers f → Within R (reply c r)
  close : Within R (close c)

/-- The further steps made for a frame of a channel. -/
structure RespectsChannel (c : ConnId) (f : FrameValue) (R : Broker → Broker → Prop) : Prop
    extends Respects c f R where
  setChannel : ∀ channel, Within R (setChannel c f.channelNumber channel)
  deleteChannel : Within R (deleteChannel c f.channelNumber)
  channelOpened : f.methodId = some .channelOpen →
    Within R (log (.channelOpened c f.channelNumber))

/-- The credentials of a start-ok have been accepted. -/
def Broker.Accepted (b : Broker) (c : ConnId) : Prop :=
  ∃ username password, .call c (.checkCredentials username password) (some true) ∈ b.trace

/-- The further steps made for a frame on channel 0. -/
structure RespectsHandshake (c : ConnId) (f : FrameValue) (R : Broker → Broker → Prop) : Prop
    extends Respects c f R where
  parser : ∀ b s s', (b.trackers c).parserState = s → s.next = some s' →
    (s = .waitingStartOk → b.Accepted c) → R b (after (setParserState c s') b)

/-- One operation of the shared state that the frame asks for. -/
def Called (env : Env) (c : ConnId) (f : FrameValue) (b b' : Broker) : Prop :=
  ∃ op : Call, op.asked c f ∧ b' = after (call env c op) b

theorem called_within {env : Env} {c : ConnId} {f : FrameValue} {op : Call}
    (h : op.asked c f) : Within (Called env c f) (call env c op) := fun _ => ⟨op, h, rfl⟩

/-- A login with the credentials of a start-ok, if they can be read. -/
def checkLogin (env : Env) (c : ConnId) (credentials : Except PyError (Str × Str)) :
    OnBroker Bool :=
  attempt credentials >>= fun login => call env c (.checkCredentials login.1 login.2)

theorem checkStartOk_eq (env : Env) (c : ConnId) (f : FrameValue) : checkStartOk env c f =
    attempt (f.argStr .mechanism) >>= fun mechanism =>
      if mechanism = str "PLAIN" then
        checkLogin env c (f.argStr .response >>= plainCredentials)
      else if mechanism = str "AMQPLAIN" then
        checkLogin env c (f.argStr .response >>= amqplainCredentials)
      else pure false := by
  unfold checkLogin
  simp only [attempt_bind, bind_assoc]
  rfl
section
variable {env : Env} {c : ConnId} {f : FrameValue} {R : Broker → Broker → Prop}

theorem within_getChannel (hp : Progress R) (n : Nat) : Within R (getChannel c n) := by
  intro b
  unfold after getChannel
  cases (b.trackers c).channels.get? n <;> exact hp.refl b

theorem upsertChannel_within (h : RespectsChannel c f R) :
    Within R (upsertChannel c f.channelNumber) := by
  unfold upsertChannel
  refine within_bind h.toProgress (within_read h.toProgress _) (fun present => ?_)
  exact within_ite (h.setChannel _) (within_pure h.toProgress _)

theorem treatOpenedChannelFrame_once (h : RespectsChannel c f R) (hn : f.channelNumber ≠ 0)
    (channel : Channel) : WithinOnce R (Called env c f)
      (treatOpenedChannelFrame env c f.channelNumber channel f) := by
  have hp := h.toProgress
  have asks : ∀ {op : Call} {g : Bool → OnBroker Unit}, op.asked c f →
      (∀ ok, Within R (g ok)) → WithinOnce R (Called env c f) (call env c op >>= g) :=
    fun hop hg => withinOnce_then hp (withinOnce_step hp (called_within hop)) hg
  unfold treatOpenedChannelFrame
  split
  · rename_i hm
    refine withinOnce_attempt hp (fun name hname => withinOnce_attempt hp (fun type htype => ?_))
    have answer := h.reply (.exchangeDeclareOk f.channelNumber) ⟨hm, rfl, hn⟩
    refine asks ⟨⟨hm, rfl, hn⟩, hname, htype⟩ (fun ok => within_ite ?_ answer)
    exact within_bind hp h.close (fun _ => answer)
  · rename_i hm
    refine withinOnce_attempt hp (fun name hname => ?_)
    have answer := h.reply (.queueDeclareOk f.channelNumber name 0 0) ⟨⟨hm, rfl, hn⟩, hname⟩
    refine asks ⟨⟨hm, rfl, hn⟩, hname⟩ (fun ok => within_ite ?_ answer)
    exact within_bind hp h.close (fun _ => answer)
  · rename_i hm
    refine withinOnce_attempt hp (fun queue hqueue => withinOnce_attempt hp (fun ex hex => ?_))
    exact asks ⟨⟨hm, rfl, hn⟩, hqueue, hex⟩
      (fun ok => within_ite h.close (h.reply (.queueBindOk _) ⟨hm, rfl, hn⟩))
  · rename_i hm
    exact withinOnce_of_within (h.reply (.basicQosOk _) ⟨hm, rfl, hn⟩)
  · apply withinOnce_of_within
    refine within_bind hp (h.setChannel _) (fun _ => ?_)
    refine within_bind hp (within_attempt hp _) (fun _ => within_bind hp (h.setChannel _) ?_)
    intro _
    exact within_bind hp (within_attempt hp _) (fun _ => h.setChannel _)
  · rename_i hm
    refine withinOnce_attempt hp (fun tag htag => withinOnce_attempt hp (fun queue hqueue => ?_))
    exact asks ⟨rfl, ⟨hm, rfl, hn⟩, htag, hqueue⟩
      (fun _ => h.reply (.basicConsumeOk _ _) ⟨⟨hm, rfl, hn⟩, htag⟩)
  · rename_i hm
    refine withinOnce_attempt hp (fun tag htag => ?_)
    exact asks ⟨⟨hm, rfl, hn⟩, htag⟩ (fun _ => within_pure hp _)
  · rename_i hm
    refine withinOnce_attempt hp (fun tag htag => withinOnce_attempt hp (fun requeue _ => ?_))
    exact asks ⟨⟨hm, rfl, hn⟩, htag⟩ (fun _ => within_pure hp _)
  · rename_i hm
    exact withinOnce_attempt hp (fun tag htag =>
      withinOnce_of_within (h.reply (.basicCancelOk _ _) ⟨⟨hm, rfl, hn⟩, htag⟩))
  · exact withinOnce_of_within (within_pure hp _)

theorem treatBodyFrame_once (h : RespectsChannel c f R) (hn : f.channelNumber ≠ 0)
    (channel : Channel) : WithinOnce R (Called env c f)
      (treatBodyFrame env c f.channelNumber channel f) := by
  have hp := h.toProgress
  cases f with
  | body b =>
      unfold treatBodyFrame
      cases channel.onGoingMessage with
      | none => exact withinOnce_of_within (within_raise hp _)
      | some message =>
          refine withinOnce_bind hp (h.setChannel _) (fun _ => withinOnce_ite ?_
            (withinOnce_of_within (within_pure hp _)))
          cases channel.exchange with
          | none => exact withinOnce_of_within (within_raise hp _)
          | some exchange =>
              refine withinOnce_then hp
                (withinOnce_step hp (called_within ⟨hn, rfl⟩)) (fun ok => ?_)
              exact within_ite h.close (h.setChannel _)
  | _ => exact withinOnce_of_within (within_pure hp _)

theorem treatFrameOn_once (h : RespectsChannel c f R) (hn : f.channelNumber ≠ 0)
    (channel : Channel) : WithinOnce R (Called env c f) (treatFrameOn env c channel f) := by
  have hp := h.toProgress
  unfold treatFrameOn
  refine withinOnce_ite ?_ ?_
  · apply withinOnce_of_within
    by_cases hm : f.methodId = some .channelOpen
    · rw [if_neg (not_not_intro hm)]
      refine within_ite h.close ?_
      refine within_bind hp (h.reply (.channelOpenOk _) ⟨hm, rfl, hn⟩)
        (fun _ => within_bind hp (h.setChannel _) ?_)
      intro _
      exact h.channelOpened hm
    · rw [if_pos hm]
      exact h.close
  · by_cases hm : f.methodId = some .channelClose
    · rw [if_pos hm]
      apply withinOnce_of_within
      refine within_bind hp h.deleteChannel (fun _ => ?_)
      exact within_bind hp (h.reply (.channelCloseOk _) ⟨hm, rfl, hn⟩) (fun _ => h.close)
    · rw [if_neg hm]
      split
      · exact withinOnce_of_within (within_pure hp _)
      · exact treatOpenedChannelFrame_once h hn channel
      · split
        · exact withinOnce_bind hp (h.setChannel _) (fun _ => treatBodyFrame_once h hn _)
        · exact withinOnce_of_within (within_pure hp _)
      · exact treatBodyFrame_once h hn channel

theorem treatChannelFrame_once (h : RespectsChannel c f R) (hn : f.channelNumber ≠ 0) :
    WithinOnce R (Called env c f) (treatChannelFrame env c f) :=
  withinOnce_bind h.toProgress (within_getChannel h.toProgress _)
    (fun channel => treatFrameOn_once h hn channel)

theorem checkStartOk_once (hp : Progress R) (hn : f.channelNumber = 0) :
    WithinOnce R (Called env c f) (checkStartOk env c f) := by
  have login : ∀ credentials, WithinOnce R (Called env c f) (checkLogin env c credentials) :=
    fun _ => withinOnce_attempt hp (fun _ _ => withinOnce_step hp (called_within hn))
  rw [checkStartOk_eq]
  refine withinOnce_attempt hp (fun mechanism _ => ?_)
  exact withinOnce_ite (login _)
    (withinOnce_ite (login _) (withinOnce_of_within (within_pure hp _)))

/-- A frame of a channel is treated alike in every state of the connection. -/
theorem dispatch_of_channel (hn : f.channelNumber ≠ 0) (b : Broker) :
    dispatch env c f b = (do
      log (.frame c (b.trackers c).parserState f)
      upsertChannel c f.channelNumber
      treatChannelFrame env c f
      return true : OnBroker Bool) b := by
  cases f with
  | heartBeat => exact absurd rfl hn
  | _ => simp only [dispatch, bind_apply, read_apply, if_pos hn]

/-- A frame of the connection itself, other than a heartbeat. -/
theorem dispatch_of_connection (hn : f.channelNumber = 0) (beat : ∀ size, f ≠ .heartBeat size)
    (b : Broker) :
    dispatch env c f b = (do
      if f.methodId = some .connectionClose then
        reply c .connectionCloseOk
        close c
        return false
      else match (b.trackers c).parserState with
        | .waitingStartOk =>
            if ¬ (← checkStartOk env c f) then
              close c
              return false
            else
              reply c .connectionTune
              setParserState c .waitingTuneOk
              return false
        | .waitingTuneOk =>
            if f.methodId ≠ some .tuneOk then
              close c
              return false
            else
              setParserState c .waitingOpen
              return true
        | .waitingOpen =>
            if f.methodId ≠ some .connectionOpen then
              close c
              return false
            else
              reply c .connectionOk
              setParserState c .opened
              return true
        | _ => return true : OnBroker Bool)
      { b with trace := b.trace ++ [.frame c (b.trackers c).parserState f] } := by
  cases f with
  | heartBeat size => exact absurd rfl (beat size)
  | _ =>
      simp only [dispatch, bind_apply, read_apply, log, update_apply, if_neg (not_not_intro hn)]
      rfl

variable (env) in
theorem dispatch_channel_once (h : RespectsChannel c f R)
    (frame : ∀ s, Within R (log (.frame c s f))) (hn : f.channelNumber ≠ 0) :
    WithinOnce R (Called env c f) (dispatch env c f) := by
  have hp := h.toProgress
  intro b
  have split : after (dispatch env c f) b = after (do
      log (.frame c (b.trackers c).parserState f)
      upsertChannel c f.channelNumber
      treatChannelFrame env c f
      return true : OnBroker Bool) b := by
    simp only [after, dispatch_of_channel hn]
  rw [split]
  refine withinOnce_bind hp (frame _) (fun _ => ?_) b
  refine withinOnce_bind hp (upsertChannel_within h) (fun _ => ?_)
  exact withinOnce_then hp (treatChannelFrame_once h hn) (fun _ => within_pure hp _)

theorem within_reply (hp : Progress R)
    (write : ∀ x : Send Unit, Within Wrote x → Within R (onTransport c x))
    (logged : ∀ r, Within R (log (.reply c r))) (r : Reply) : Within R (reply c r) :=
  within_bind hp (write _ r.send_within) (fun _ => logged r)

end

/-! ## The parser state of a connection -/

/-- The parser state of `c` stays. -/
def SameParser (c : ConnId) (b b' : Broker) : Prop :=
  (b'.trackers c).parserState = (b.trackers c).parserState

theorem sameParser_progress (c : ConnId) : Progress (SameParser c) where
  refl := fun _ => rfl
  trans := fun h k => k.trans h

theorem onTransport_apply_tracker (c : ConnId) (x : Send Unit) (b : Broker) :
    after (onTransport c x) b = b.setTracker c
      { b.trackers c with transport := after x (b.trackers c).transport } := after_zoom _ _ x b

@[simp] theorem Broker.setTracker_self (b : Broker) (c : ConnId) (t : Tracker) :
    (b.setTracker c t).trackers c = t := Function.update_self ..

theorem Broker.setTracker_ne (b : Broker) {c c' : ConnId} (h : c' ≠ c) (t : Tracker) :
    (b.setTracker c t).trackers c' = b.trackers c' := Function.update_of_ne h ..

theorem reply_ok {c : ConnId} {r : Reply} {b : Broker} {t : Transport}
    (sent : r.send (b.trackers c).transport = .ok () t) :
    reply c r b = .ok () { b.setTracker c { b.trackers c with transport := t } with
      trace := b.trace ++ [.reply c r] } := by
  simp only [reply, bind_apply, onTransport, zoom, sent, log, update_apply]
  rfl

theorem reply_error {c : ConnId} {r : Reply} {b : Broker} {e : PyError} {t : Transport}
    (failed : r.send (b.trackers c).transport = .error e t) :
    reply c r b = .error e (b.setTracker c { b.trackers c with transport := t }) := by
  simp only [reply, bind_apply, onTransport, zoom, failed]

theorem sameParser_onTransport (c : ConnId) (x : Send Unit) :
    Within (SameParser c) (onTransport c x) := by
  intro b
  rw [onTransport_apply_tracker]
  simp only [SameParser, Broker.setTracker_self]

theorem sameParser_reply (c : ConnId) (r : Reply) : Within (SameParser c) (reply c r) :=
  within_reply (sameParser_progress c) (fun x _ => sameParser_onTransport c x)
    (fun _ _ => rfl) r

/-- The channels of `c` stay. -/
def SameChannels (c : ConnId) (b b' : Broker) : Prop :=
  (b'.trackers c).channels = (b.trackers c).channels

theorem sameChannels_progress (c : ConnId) : Progress (SameChannels c) where
  refl := fun _ => rfl
  trans := fun h k => k.trans h

theorem sameChannels_onTransport (c : ConnId) (x : Send Unit) :
    Within (SameChannels c) (onTransport c x) := by
  intro b
  rw [onTransport_apply_tracker]
  simp only [SameChannels, Broker.setTracker_self]

theorem sameChannels_reply (c : ConnId) (r : Reply) : Within (SameChannels c) (reply c r) :=
  within_reply (sameChannels_progress c) (fun x _ => sameChannels_onTransport c x)
    (fun _ _ => rfl) r

theorem after_call (env : Env) (c : ConnId) (op : Call) (b : Broker) :
    after (call env c op) b = { b with
      state := after (op.run env) b.state
      trace := b.trace ++ [.call c op (match op.run env b.state with
        | .ok result _ => some result
        | .error _ _ => none)] } := by
  unfold after call
  cases op.run env b.state <;> rfl

theorem sameParser_call (env : Env) (c : ConnId) (op : Call) :
    Within (SameParser c) (call env c op) := by
  intro b
  rw [after_call]
  rfl

theorem sameParser_checkStartOk (env : Env) {c : ConnId} {f : FrameValue}
    (hn : f.channelNumber = 0) : Within (SameParser c) (checkStartOk env c f) := fun b =>
  (checkStartOk_once (sameParser_progress c) hn b).within (sameParser_progress c) (by
    rintro s t ⟨op, _, rfl⟩
    exact sameParser_call env c op s)

/-- The trace only grows. -/
def Traced (b b' : Broker) : Prop := b.trace <+: b'.trace

theorem traced_progress : Progress Traced where
  refl := fun _ => List.prefix_rfl
  trans := List.IsPrefix.trans

theorem traced_log (e : Event) : Within Traced (log e) := fun b => List.prefix_append b.trace [e]

theorem traced_reply (c : ConnId) (r : Reply) : Within Traced (reply c r) :=
  within_reply traced_progress
    (fun x _ b => by
      rw [onTransport_apply_tracker]
      exact List.prefix_rfl)
    (fun r => traced_log (.reply c r)) r

theorem Broker.Accepted.mono {b b' : Broker} {c : ConnId} (h : b.Accepted c) (k : Traced b b') :
    b'.Accepted c := by
  obtain ⟨username, password, member⟩ := h
  exact ⟨username, password, k.subset member⟩

theorem checkStartOk_accepted {env : Env} {c : ConnId} {f : FrameValue} {b b' : Broker}
    (h : checkStartOk env c f b = .ok true b') : b'.Accepted c := by
  have called : ∀ username password, call env c (.checkCredentials username password) b =
      .ok true b' → b'.Accepted c := by
    intro username password done
    refine ⟨username, password, ?_⟩
    have recorded := after_call env c (.checkCredentials username password) b
    rw [after_ok done] at recorded
    have result : (b.state.checkCredentials username password).1 = true := by
      simp only [call, Call.run] at done
      exact (EStateM.Result.ok.inj done).1
    rw [recorded]
    simp only [Call.run, result]
    exact List.mem_append_right _ List.mem_cons_self
  unfold checkStartOk at h
  obtain ⟨mechanism, b1, hm, h⟩ := bind_eq_ok.mp h
  cases attempt_eq_ok hm
  split at h
  · obtain ⟨response, b2, hr, h⟩ := bind_eq_ok.mp h
    cases attempt_eq_ok hr
    obtain ⟨⟨username, password⟩, b3, hc, h⟩ := bind_eq_ok.mp h
    cases attempt_eq_ok hc
    exact called username password h
  · split at h
    · obtain ⟨response, b2, hr, h⟩ := bind_eq_ok.mp h
      cases attempt_eq_ok hr
      obtain ⟨⟨username, password⟩, b3, hc, h⟩ := bind_eq_ok.mp h
      cases attempt_eq_ok hc
      exact called username password h
    · cases h

section
variable {env : Env} {c : ConnId} {f : FrameValue} {R : Broker → Broker → Prop}

variable (env) in
theorem dispatch_handshake_once (h : RespectsHandshake c f R)
    (frame : ∀ s, Within R (log (.frame c s f))) (hn : f.channelNumber = 0) :
    WithinOnce R (Called env c f) (dispatch env c f) := by
  have hp := h.toProgress
  have refuse : Within R (do close c; return false : OnBroker Bool) :=
    within_bind hp h.close (fun _ => within_pure hp _)
  have enter : ∀ {b b' : Broker} {s s' : ConnectionState} {r : Bool},
      (b.trackers c).parserState = s → SameParser c b b' → s.next = some s' →
      (s = .waitingStartOk → b'.Accepted c) →
      R b' (after (do setParserState c s'; return r : OnBroker Bool) b') := by
    intro b b' s s' r hs same hnext accepted
    refine after_bind hp (h.parser b' s s' (same.trans hs) hnext accepted) (fun _ t _ => ?_)
    exact hp.refl t
  intro b
  obtain ⟨s, hs⟩ : ∃ s, (b.trackers c).parserState = s := ⟨_, rfl⟩
  unfold dispatch
  refine once_after_bind hp (hp.refl b) (fun s' b0 hread => ?_)
  obtain ⟨rfl, rfl⟩ : s = s' ∧ b = b0 := by
    rw [← hs]
    simpa using hread
  refine once_after_bind hp (frame _ b) (fun _ b1 logged => ?_)
  have same1 : SameParser c b b1 := by cases logged; rfl
  split
  · exact .inl (within_bind hp (h.reply .heartbeat ⟨_, rfl⟩) (fun _ => within_pure hp _) b1)
  · rw [if_neg (not_not_intro hn)]
    by_cases hc : f.methodId = some .connectionClose
    · rw [if_pos hc]
      exact .inl (within_bind hp (h.reply .connectionCloseOk ⟨hc, hn⟩) (fun _ => refuse) b1)
    · rw [if_neg hc]
      cases s with
      | waitingStartOk =>
          have hcheck := sameParser_checkStartOk env (c := c) hn b1
          rcases after_bind_cases (checkStartOk env c f) _ b1 with ⟨ok, b2, hok, hb2⟩ | hb2
          · have once : Once R (Called env c f) b1 (after (checkStartOk env c f) b1) :=
              checkStartOk_once hp hn b1
            rw [after_ok hok] at once hcheck
            rw [hb2]
            refine once.then_move hp ?_
            by_cases accepted : ok = true
            · rw [if_neg (not_not_intro accepted)]
              refine after_bind hp (h.reply .connectionTune hn b2) (fun _ b3 replied => ?_)
              have same3 := sameParser_reply c .connectionTune b2
              have traced := traced_reply c .connectionTune b2
              rw [after_ok replied] at same3 traced
              have login : b2.Accepted c := checkStartOk_accepted (accepted ▸ hok)
              exact enter hs ((sameParser_progress c).trans same1
                ((sameParser_progress c).trans hcheck same3)) rfl (fun _ => login.mono traced)
            · rw [if_pos accepted]
              exact refuse b2
          · rw [hb2]
            exact checkStartOk_once hp hn b1
      | waitingTuneOk =>
          left
          by_cases hm : f.methodId = some .tuneOk
          · rw [if_neg (not_not_intro hm)]
            exact enter hs same1 rfl (fun no => by cases no)
          · rw [if_pos hm]
            exact refuse b1
      | waitingOpen =>
          left
          by_cases hm : f.methodId = some .connectionOpen
          · rw [if_neg (not_not_intro hm), if_neg (show ¬ ¬ checkOpen f = true from not_not_intro rfl)]
            refine after_bind hp (h.reply .connectionOk ⟨hm, hn⟩ b1) (fun _ b2 replied => ?_)
            have same2 := sameParser_reply c .connectionOk b1
            rw [after_ok replied] at same2
            exact enter hs ((sameParser_progress c).trans same1 same2) rfl (fun no => by cases no)
          · rw [if_pos hm]
            exact refuse b1
      | _ => exact .inl (hp.refl b1)

end

/-! ## The shared state -/

/-- The state stays. -/
def SameState (b b' : Broker) : Prop := b'.state = b.state

theorem sameState_progress : Progress SameState where
  refl := fun _ => rfl
  trans := fun h k => k.trans h

theorem sameState_onTransport (c : ConnId) (x : Send Unit) :
    Within SameState (onTransport c x) := by
  intro b
  rw [onTransport_apply_tracker]
  rfl

theorem sameState_reply (c : ConnId) (r : Reply) : Within SameState (reply c r) :=
  within_reply sameState_progress (fun x _ => sameState_onTransport c x) (fun _ _ => rfl) r

/-! ## One connection at a time -/

def Event.conn : Event → Option ConnId
  | frame c _ _ | parser c _ | channelOpened c _ | call c _ _ | reply c _ => some c
  | push _ => none

/-- The events that the treatment of a frame can leave. -/
def Event.ofFrame (c : ConnId) (f : FrameValue) : Event → Prop
  | frame c' _ f' => c' = c ∧ f' = f
  | parser c' _ => c' = c ∧ f.channelNumber = 0
  | channelOpened c' n => c' = c ∧ f.methodId = some .channelOpen ∧ n = f.channelNumber
  | call c' op _ => c' = c ∧ op.asked c f
  | reply c' r => c' = c ∧ r.answers f
  | push _ => False

theorem Event.ofFrame.conn {c : ConnId} {f : FrameValue} {e : Event} (h : e.ofFrame c f) :
    e.conn = some c := by
  cases e with
  | push => exact h.elim
  | _ => exact congrArg some h.1

/-- Only the connection itself, the shared state and the trace change, and the trace grows by
events that `E` allows. -/
structure ByConn (c : ConnId) (E : Event → Prop) (b b' : Broker) : Prop where
  events : ∃ new, b'.trace = b.trace ++ new ∧ ∀ e ∈ new, E e
  others : ∀ c', c' ≠ c → b'.trackers c' = b.trackers c'
  closing : b.isClosing c = true → b'.isClosing c = true
  draws : b'.draws = b.draws

theorem byConn_progress (c : ConnId) (E : Event → Prop) : Progress (ByConn c E) where
  refl := fun b => ⟨⟨[], by simp, by simp⟩, fun _ _ => rfl, id, rfl⟩
  trans := by
    rintro b b' b'' ⟨⟨new, ht, hn⟩, ho, hc, hd⟩ ⟨⟨new', ht', hn'⟩, ho', hc', hd'⟩
    refine ⟨⟨new ++ new', by rw [ht', ht, List.append_assoc], ?_⟩, ?_, fun h => hc' (hc h),
      hd'.trans hd⟩
    · intro e he
      rcases List.mem_append.mp he with h | h
      · exact hn e h
      · exact hn' e h
    · intro c' hne
      rw [ho' c' hne, ho c' hne]

section
variable {c : ConnId} {E : Event → Prop}

theorem byConn_log {e : Event} (h : E e) : Within (ByConn c E) (log e) :=
  within_update fun _ => ⟨⟨[e], rfl, by simpa using h⟩, fun _ _ => rfl, id, rfl⟩

/-- Changing the record of `c` without reopening its transport. -/
theorem byConn_setTracker {f : Broker → Tracker}
    (h : ∀ b, b.isClosing c = true → (f b).transport.closing = true) :
    Within (ByConn c E) (update fun b => b.setTracker c (f b) : OnBroker Unit) := by
  refine within_update fun b => ⟨⟨[], by simp [Broker.setTracker], by simp⟩, ?_, ?_, rfl⟩
  · intro c' hne
    exact b.setTracker_ne hne _
  · intro hb
    simpa [Broker.isClosing] using h b hb

theorem byConn_onTransport {x : Send Unit}
    (h : ∀ t, t.closing = true → (after x t).closing = true) :
    Within (ByConn c E) (onTransport c x) := by
  intro b
  rw [onTransport_apply_tracker]
  exact byConn_setTracker (f := fun b => { b.trackers c with
    transport := after x (b.trackers c).transport }) (fun b hb => h _ hb) b

theorem byConn_reply {r : Reply} (h : E (.reply c r)) : Within (ByConn c E) (reply c r) := by
  have hp := byConn_progress c E
  have sent : Within (ByConn c E) (onTransport c r.send) :=
    byConn_onTransport fun t ht => (r.send_within t).2.trans ht
  exact within_bind hp sent (fun _ => byConn_log h)

theorem byConn_call (env : Env) {op : Call} (h : ∀ result, E (.call c op result)) :
    Within (ByConn c E) (call env c op) := by
  intro b
  rw [after_call]
  exact ⟨⟨[_], rfl, by simpa using h _⟩, fun _ _ => rfl, id, rfl⟩

theorem byConn_setParserState {s : ConnectionState} (h : E (.parser c s)) :
    Within (ByConn c E) (setParserState c s) :=
  within_bind (byConn_progress c E)
    (byConn_setTracker (f := fun b => { b.trackers c with parserState := s }) fun _ hb => hb)
    (fun _ => byConn_log h)

end

theorem byConn_respects {c : ConnId} {f : FrameValue} {E : Event → Prop}
    (replied : ∀ r : Reply, r.answers f → E (.reply c r))
    (opened : f.methodId = some .channelOpen → E (.channelOpened c f.channelNumber)) :
    RespectsChannel c f (ByConn c E) where
  toProgress := byConn_progress c E
  reply := fun r h => byConn_reply (replied r h)
  close := byConn_onTransport fun _ _ => rfl
  setChannel := fun channel => byConn_setTracker (f := fun b => { b.trackers c with
    channels := (b.trackers c).channels.insert f.channelNumber channel }) fun _ hb => hb
  deleteChannel := byConn_setTracker (f := fun b => { b.trackers c with
    channels := (b.trackers c).channels.erase f.channelNumber }) fun _ hb => hb
  channelOpened := fun h => byConn_log (opened h)

/-- The steps of a frame besides its operation. -/
def Quiet (c : ConnId) (f : FrameValue) (b b' : Broker) : Prop :=
  SameState b b' ∧ ByConn c (Event.ofFrame c f) b b'

theorem quiet_progress (c : ConnId) (f : FrameValue) : Progress (Quiet c f) where
  refl := fun b => ⟨rfl, (byConn_progress c _).refl b⟩
  trans := fun h k => ⟨sameState_progress.trans h.1 k.1, (byConn_progress c _).trans h.2 k.2⟩

theorem quiet_respects (c : ConnId) (f : FrameValue) : RespectsChannel c f (Quiet c f) :=
  have only : RespectsChannel c f (ByConn c (Event.ofFrame c f)) :=
    byConn_respects (fun _ h => ⟨rfl, h⟩) (fun h => ⟨rfl, h, rfl⟩)
  { toProgress := quiet_progress c f
    reply := fun r h b => ⟨sameState_reply c r b, only.reply r h b⟩
    close := fun b => ⟨rfl, only.close b⟩
    setChannel := fun channel b => ⟨rfl, only.setChannel channel b⟩
    deleteChannel := fun b => ⟨rfl, only.deleteChannel b⟩
    channelOpened := fun h b => ⟨rfl, only.channelOpened h b⟩ }

/-- All that the treatment of a frame can do to the state and to the trace. -/
theorem dispatch_cases (env : Env) (c : ConnId) (f : FrameValue) (b : Broker) :
    Quiet c f b (after (dispatch env c f) b) ∨ ∃ op m, op.asked c f ∧ Quiet c f b m ∧
      Quiet c f (after (call env c op) m) (after (dispatch env c f) b) := by
  have frame : ∀ s, Within (Quiet c f) (log (.frame c s f)) := by
    intro s b
    have own : Event.ofFrame c f (.frame c s f) := ⟨rfl, rfl⟩
    exact ⟨rfl, byConn_log own b⟩
  have handshake : f.channelNumber = 0 → RespectsHandshake c f (Quiet c f) := fun hn =>
    { toRespects := (quiet_respects c f).toRespects
      parser := fun b _ s' _ _ _ => ⟨rfl, byConn_setParserState (E := Event.ofFrame c f)
        ⟨rfl, hn⟩ b⟩ }
  have once : Once (Quiet c f) (Called env c f) b (after (dispatch env c f) b) := by
    by_cases hn : f.channelNumber = 0
    · exact dispatch_handshake_once env (handshake hn) frame hn b
    · exact dispatch_channel_once env (quiet_respects c f) frame hn b
  rcases once with quiet | ⟨m, n, before, ⟨op, asked, rfl⟩, later⟩
  · exact .inl quiet
  · exact .inr ⟨op, m, asked, before, later⟩

/-- The state after a frame is the one before, or what one operation made of it. -/
theorem dispatch_state_cases (env : Env) (c : ConnId) (f : FrameValue) (b : Broker) :
    (after (dispatch env c f) b).state = b.state ∨ ∃ op : Call, op.asked c f ∧
      (after (dispatch env c f) b).state = after (op.run env) b.state := by
  rcases dispatch_cases env c f b with quiet | ⟨op, m, asked, before, later⟩
  · exact .inl quiet.1
  · refine .inr ⟨op, asked, ?_⟩
    have called : (after (call env c op) m).state = after (op.run env) m.state := by
      rw [after_call]
    rw [later.1, called, before.1]

theorem dispatch_byConn (env : Env) (c : ConnId) (f : FrameValue) :
    Within (ByConn c (Event.ofFrame c f)) (dispatch env c f) := by
  have hp := byConn_progress c (Event.ofFrame c f)
  intro b
  rcases dispatch_cases env c f b with quiet | ⟨op, m, asked, before, later⟩
  · exact quiet.2
  · have called : Within (ByConn c (Event.ofFrame c f)) (call env c op) :=
      byConn_call env fun _ => ⟨rfl, asked⟩
    exact hp.trans before.2 (hp.trans (called m) later.2)

/-! ## What holds of the parser state -/

/-- `P` of the parser state of `c` is kept. -/
def KeepsParser (c : ConnId) (P : ConnectionState → Prop) (b b' : Broker) : Prop :=
  P (b.trackers c).parserState → P (b'.trackers c).parserState

theorem SameParser.keeps {c : ConnId} {b b' : Broker} (h : SameParser c b b')
    (P : ConnectionState → Prop) : KeepsParser c P b b' := fun start => by rwa [h]

theorem sameParser_setTracker {c : ConnId} {g : Broker → Tracker}
    (h : ∀ b, (g b).parserState = (b.trackers c).parserState) :
    Within (SameParser c) (update fun b => b.setTracker c (g b) : OnBroker Unit) := by
  intro b
  have self : (b.setTracker c (g b)).trackers c = g b := b.setTracker_self c _
  exact (congrArg Tracker.parserState self).trans (h b)

/-- What the handshake keeps, every frame keeps. -/
theorem dispatch_keepsParser (env : Env) {c : ConnId} {P : ConnectionState → Prop}
    (next : ∀ s s', s.next = some s' → P s → P s') (f : FrameValue) :
    Within (KeepsParser c P) (dispatch env c f) := by
  intro b
  have hp : Progress (KeepsParser c P) := ⟨fun _ => id, fun h k start => k (h start)⟩
  have same : ∀ {x : OnBroker Unit}, Within (SameParser c) x → Within (KeepsParser c P) x :=
    fun hx => hx.mono fun _ _ kept => kept.keeps P
  have called : ∀ b1 b2, Called env c f b1 b2 → KeepsParser c P b1 b2 := by
    rintro b1 b2 ⟨op, _, rfl⟩
    exact (sameParser_call env c op b1).keeps P
  have respects : Respects c f (KeepsParser c P) := {
    toProgress := hp
    reply := fun r _ => same (sameParser_reply c r)
    close := same (sameParser_onTransport c _) }
  by_cases hn : f.channelNumber = 0
  · have steps : RespectsHandshake c f (KeepsParser c P) := {
      toRespects := respects
      parser := fun b s s' state hs _ start => by
        have self : (after (setParserState c s') b).trackers c =
            { b.trackers c with parserState := s' } := b.setTracker_self c _
        rw [self]
        exact next s s' hs (state ▸ start) }
    exact (dispatch_handshake_once env steps (fun _ _ => id) hn b).within hp called
  · have steps : RespectsChannel c f (KeepsParser c P) := {
      toRespects := respects
      setChannel := fun channel => same (sameParser_setTracker (g := fun b => { b.trackers c with
        channels := (b.trackers c).channels.insert f.channelNumber channel }) fun _ => rfl)
      deleteChannel := same (sameParser_setTracker (g := fun b => { b.trackers c with
        channels := (b.trackers c).channels.erase f.channelNumber }) fun _ => rfl)
      channelOpened := fun _ _ => id }
    exact (dispatch_channel_once env steps (fun _ _ => id) hn b).within hp called

end MockAmqp
