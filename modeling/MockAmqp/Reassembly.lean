import MockAmqp.Lib.Assembly
import MockAmqp.Access
import MockAmqp.Integrity

/-!
# Published messages put together

The frames of a channel drive the reassembly of messages, whatever else happens between them.
-/

namespace MockAmqp
open Exec

/-! ## Ongoing messages -/

/-- A message is ongoing only while its body is awaited. -/
def Channel.Tidy (channel : Channel) : Prop :=
  channel.state ≠ .waitingBody → channel.onGoingMessage = none

def Broker.Tidy (b : Broker) : Prop :=
  ∀ c n channel, (b.trackers c).channels.get? n = some channel → channel.Tidy

/-- Tidy channels stay tidy. -/
def KeepsTidy (b b' : Broker) : Prop := b.Tidy → b'.Tidy

theorem keepsTidy_progress : Progress KeepsTidy where
  refl := fun _ => id
  trans := fun h k hb => k (h hb)

theorem tidy_newChannel (n : Nat) : (newChannel n).Tidy := fun _ => rfl

theorem Broker.Tidy.channel {b : Broker} (h : b.Tidy) (c : ConnId) (n : Nat) :
    (b.channel c n).Tidy := by
  unfold Broker.channel
  cases hget : (b.trackers c).channels.get? n with
  | none => exact tidy_newChannel n
  | some channel => exact h c n channel hget

theorem keepsTidy_of_same {b b' : Broker}
    (same : ∀ c, (b'.trackers c).channels = (b.trackers c).channels) : KeepsTidy b b' :=
  fun hb c n channel hget => hb c n channel (same c ▸ hget)

theorem keepsTidy_setTracker {b : Broker} {c : ConnId} {t : Tracker}
    (kept : ∀ n channel, t.channels.get? n = some channel →
      (b.trackers c).channels.get? n = some channel ∨ channel.Tidy) :
    KeepsTidy b (b.setTracker c t) := by
  intro hb c' n channel hget
  by_cases hc : c' = c
  · subst hc
    rw [Broker.setTracker_self] at hget
    rcases kept n channel hget with old | tidy
    · exact hb c' n channel old
    · exact tidy
  · rw [Broker.setTracker_ne _ hc] at hget
    exact hb c' n channel hget

section
variable {env : Env} {c : ConnId} {n : Nat}

theorem keepsTidy_onTransport (x : Send Unit) : Within KeepsTidy (onTransport c x) := by
  intro b
  rw [onTransport_apply_tracker]
  exact keepsTidy_setTracker fun _ _ => .inl

theorem keepsTidy_log (e : Event) : Within KeepsTidy (log e) := fun _ hb => hb

theorem keepsTidy_reply (r : Reply) : Within KeepsTidy (reply c r) :=
  within_reply keepsTidy_progress (fun x _ => keepsTidy_onTransport x)
    (fun _ => keepsTidy_log _) r

theorem keepsTidy_call (op : Call) : Within KeepsTidy (call env c op) := by
  intro b
  rw [after_call]
  exact fun hb => hb

theorem keepsTidy_setChannel {channel : Channel} (h : channel.Tidy) :
    Within KeepsTidy (setChannel c n channel) := by
  intro b
  refine keepsTidy_setTracker (b := b) fun m found hget => ?_
  rw [OrderedDict.get?_insert] at hget
  by_cases hm : m = n
  · rw [if_pos hm] at hget
    exact .inr (Option.some.inj hget ▸ h)
  · rw [if_neg hm] at hget
    exact .inl hget

theorem keepsTidy_deleteChannel : Within KeepsTidy (deleteChannel c n) := by
  intro b
  refine keepsTidy_setTracker (b := b) fun m found hget => ?_
  rw [OrderedDict.get?_erase] at hget
  by_cases hm : m = n
  · rw [if_pos hm] at hget
    cases hget
  · rw [if_neg hm] at hget
    exact .inl hget

theorem keepsTidy_opened (channel : Channel) (f : FrameValue) (h : channel.state = .opened)
    (tidy : channel.Tidy) : Within KeepsTidy (treatOpenedChannelFrame env c n channel f) := by
  have hp := keepsTidy_progress
  have none : channel.onGoingMessage = none := tidy (by simp [h])
  have asks : ∀ {op : Call} {g : Bool → OnBroker Unit}, (∀ ok, Within KeepsTidy (g ok)) →
      Within KeepsTidy (call env c op >>= g) :=
    fun hg => within_bind hp (keepsTidy_call _) hg
  have arg : ∀ {α : Type} {x : Except PyError α} {g : α → OnBroker Unit},
      (∀ a, Within KeepsTidy (g a)) → Within KeepsTidy (attempt x >>= g) :=
    fun hg => within_bind hp (within_attempt hp _) hg
  have closed : Within KeepsTidy (close c) := keepsTidy_onTransport _
  unfold treatOpenedChannelFrame
  split
  · refine arg fun _ => arg fun _ => asks fun _ => within_ite ?_ (keepsTidy_reply _)
    exact within_bind hp closed fun _ => keepsTidy_reply _
  · refine arg fun _ => asks fun _ => within_ite ?_ (keepsTidy_reply _)
    exact within_bind hp closed fun _ => keepsTidy_reply _
  · exact arg fun _ => arg fun _ => asks fun _ => within_ite closed (keepsTidy_reply _)
  · exact keepsTidy_reply _
  · refine within_bind hp (keepsTidy_setChannel fun _ => none) fun _ => arg fun _ => ?_
    refine within_bind hp (keepsTidy_setChannel fun _ => none) fun _ => arg fun _ => ?_
    exact keepsTidy_setChannel fun _ => none
  · exact arg fun _ => arg fun _ => asks fun _ => keepsTidy_reply _
  · exact arg fun _ => asks fun _ => within_pure hp _
  · exact arg fun _ => arg fun _ => asks fun _ => within_pure hp _
  · exact arg fun _ => keepsTidy_reply _
  · exact within_pure hp _

theorem keepsTidy_body (channel : Channel) (f : FrameValue) (h : channel.state = .waitingBody) :
    Within KeepsTidy (treatBodyFrame env c n channel f) := by
  have hp := keepsTidy_progress
  cases f with
  | body body =>
      unfold treatBodyFrame
      cases channel.onGoingMessage with
      | none => exact within_raise hp _
      | some message =>
          refine within_bind hp (keepsTidy_setChannel fun no => absurd h no) fun _ => ?_
          refine within_ite ?_ (within_pure hp _)
          cases channel.exchange with
          | none => exact within_raise hp _
          | some exchange =>
              refine within_bind hp (keepsTidy_call _) fun ok => ?_
              exact within_ite (keepsTidy_onTransport _) (keepsTidy_setChannel fun _ => rfl)
  | _ => exact within_pure hp _

theorem keepsTidy_frameOn (channel : Channel) (f : FrameValue) (tidy : channel.Tidy) :
    Within KeepsTidy (treatFrameOn env c channel f) := by
  have hp := keepsTidy_progress
  have closed : Within KeepsTidy (close c) := keepsTidy_onTransport _
  unfold treatFrameOn
  by_cases waiting : channel.state = .waitingOpen
  · rw [if_pos waiting]
    have none : channel.onGoingMessage = none := tidy (by simp [waiting])
    refine within_ite closed (within_ite closed ?_)
    refine within_bind hp (keepsTidy_reply _) fun _ => ?_
    exact within_bind hp (keepsTidy_setChannel fun _ => none) fun _ => keepsTidy_log _
  · rw [if_neg waiting]
    refine within_ite ?_ ?_
    · refine within_bind hp keepsTidy_deleteChannel fun _ => ?_
      exact within_bind hp (keepsTidy_reply _) fun _ => closed
    · cases state : channel.state with
      | waitingOpen => exact within_pure hp _
      | opened => exact keepsTidy_opened channel f state tidy
      | waitingBody => exact keepsTidy_body channel f state
      | waitingHeader =>
          cases f with
          | header h =>
              refine within_bind hp (keepsTidy_setChannel fun no => absurd rfl no) fun _ => ?_
              exact keepsTidy_body _ _ rfl
          | _ => exact within_pure hp _

theorem tidy_received {b : Broker} (h : b.Tidy) (c : ConnId) (f : FrameValue) :
    (b.received c f).Tidy := by
  intro c' m channel hget
  by_cases hc : c' = c
  · subst hc
    rw [Broker.received_get?] at hget
    by_cases hm : m = f.channelNumber
    · rw [if_pos hm] at hget
      exact Option.some.inj hget ▸ h.channel c' _
    · rw [if_neg hm] at hget
      exact h c' m channel hget
  · rw [Broker.received_ne hc] at hget
    exact h c' m channel hget

end

/-! ## Turns that leave a channel alone -/

section
variable {env : Env} {c : ConnId} {f : FrameValue} {b : Broker}

theorem handshake_sameChannels (hn : f.channelNumber = 0) (c' : ConnId) :
    SameChannels c' b (after (dispatch env c f) b) := by
  by_cases hc : c' = c
  · subst hc
    have hp := sameChannels_progress c'
    have steps : RespectsHandshake c' f (SameChannels c') := {
      toProgress := hp
      reply := fun r _ => sameChannels_reply c' r
      close := sameChannels_onTransport c' _
      parser := fun b _ s' _ _ _ => by
        have moved : (after (setParserState c' s') b).trackers c' =
            { b.trackers c' with parserState := s' } := b.setTracker_self c' _
        rw [SameChannels, moved] }
    refine (dispatch_handshake_once env steps (fun _ _ => rfl) hn b).within hp ?_
    rintro b1 b2 ⟨op, _, rfl⟩
    rw [after_call]
    rfl
  · rw [SameChannels, (dispatch_byConn env c f b).others c' hc]

/-- Only the frames of channels change the channels of any connection. -/
theorem turn_sameChannels (t : Turn) (h : ∀ c f, t = .frame c f → f.channelNumber = 0)
    (c : ConnId) : SameChannels c b (Turn.step env b t) := by
  cases t with
  | frame c' f => exact handshake_sameChannels (h c' f rfl) c
  | start c' =>
      by_cases hc : c = c'
      · subst hc
        by_cases state : (b.trackers c).parserState = .waitingProtocolHeader
        · rw [Turn.step_start state]
          have moved : ∀ b1, SameChannels c b1 (after (setParserState c .waitingStartOk) b1) := by
            intro b1
            have self : (after (setParserState c .waitingStartOk) b1).trackers c =
                { b1.trackers c with parserState := .waitingStartOk } := b1.setTracker_self c _
            rw [SameChannels, self]
          exact greet_within (sameChannels_progress c) (sameChannels_reply c _) moved b
        · have unchanged : Turn.step env b (.start c) = b := if_neg state
          rw [unchanged]
          rfl
      · rw [SameChannels, (Turn.start_byConn env b c').others c hc]
  | lost c' =>
      by_cases hc : c = c'
      · subst hc
        exact sameChannels_onTransport c (update fun t => { t with closing := true }) b
      · have kept : (Turn.step env b (.lost c')).trackers c = b.trackers c :=
          b.setTracker_ne hc _
        rw [SameChannels, kept]
  | http op => exact ((http_after env op b).connections c).2.1

/-- The frame of channel `n` of connection `c` that the turn treats. -/
def Turn.frameOn (c : ConnId) (n : Nat) : Turn → Option FrameValue
  | .frame c' f => if c' = c ∧ f.channelNumber = n then some f else none
  | _ => none

theorem Turn.frameOn_eq_some {n : Nat} {t : Turn} (h : t.frameOn c n = some f) :
    t = .frame c f ∧ f.channelNumber = n := by
  cases t with
  | frame c' f' =>
      by_cases on : c' = c ∧ f'.channelNumber = n
      · rw [Turn.frameOn, if_pos on] at h
        cases h
        exact ⟨by rw [on.1], on.2⟩
      · rw [Turn.frameOn, if_neg on] at h
        cases h
  | _ => cases h

/-- The entry of channel `n` stays. -/
def SameChannel (c : ConnId) (n : Nat) (b b' : Broker) : Prop :=
  (b'.trackers c).channels.get? n = (b.trackers c).channels.get? n

theorem SameChannels.at {b' : Broker} (h : SameChannels c b b') (n : Nat) :
    SameChannel c n b b' := congrArg (OrderedDict.get? · n) h

theorem dispatch_sameChannel {n : Nat} (hn : f.channelNumber ≠ 0) (hne : n ≠ f.channelNumber) :
    SameChannel c n b (after (dispatch env c f) b) := by
  have hp : Progress (SameChannel c n) := ⟨fun _ => rfl, fun h k => k.trans h⟩
  have sent : ∀ {x : OnBroker Unit}, Within (SameChannels c) x → Within (SameChannel c n) x :=
    fun hx => hx.mono fun _ _ same => same.at n
  have steps : RespectsChannel c f (SameChannel c n) := {
    toProgress := hp
    reply := fun r _ => sent (sameChannels_reply c r)
    close := sent (sameChannels_onTransport c _)
    setChannel := fun channel b => by
      have moved : (after (setChannel c f.channelNumber channel) b).trackers c = _ :=
        b.setTracker_self c _
      simp only [SameChannel, moved, OrderedDict.get?_insert, if_neg hne]
    deleteChannel := fun b => by
      have moved : (after (deleteChannel c f.channelNumber) b).trackers c = _ :=
        b.setTracker_self c _
      simp only [SameChannel, moved, OrderedDict.get?_erase, if_neg hne]
    channelOpened := fun _ _ => rfl }
  refine (dispatch_channel_once env steps (fun _ _ => rfl) hn b).within hp ?_
  rintro b1 b2 ⟨op, _, rfl⟩
  rw [after_call]
  rfl

/-- Other turns leave the channel as it is. -/
theorem turn_channel {n : Nat} {t : Turn} (other : t.frameOn c n = none) :
    (Turn.step env b t).channel c n = b.channel c n := by
  have found : SameChannel c n b (Turn.step env b t) := by
    by_cases on : ∃ c f, t = .frame c f ∧ f.channelNumber ≠ 0
    · obtain ⟨c', f, rfl, hf⟩ := on
      by_cases hc : c = c'
      · subst hc
        refine dispatch_sameChannel hf ?_
        rintro rfl
        simp [Turn.frameOn] at other
      · have kept : (Turn.step env b (.frame c' f)).trackers c = b.trackers c :=
          (dispatch_byConn env c' f b).others c hc
        rw [SameChannel, kept]
    · refine (turn_sameChannels t (fun c f ht => ?_) c).at n
      by_contra hn
      exact on ⟨c, f, ht, hn⟩
  unfold Broker.channel
  rw [found]

end

theorem tidy_turn (env : Env) (b : Broker) (t : Turn) (h : b.Tidy) :
    (Turn.step env b t).Tidy := by
  by_cases on : ∃ c f, t = .frame c f ∧ f.channelNumber ≠ 0
  · obtain ⟨c, f, rfl, hn⟩ := on
    rw [Turn.step, after_dispatch_channel hn]
    exact keepsTidy_frameOn _ f (h.channel c _) _ (tidy_received h c f)
  · refine keepsTidy_of_same (fun c => turn_sameChannels t (fun c f ht => ?_) c) h
    by_contra hn
    exact on ⟨c, f, ht, hn⟩

theorem reachable_tidy {env : Env} {b : Broker} (h : Reachable env b) : b.Tidy :=
  h.invariant (I := Broker.Tidy) (fun _ _ _ _ no => by cases no) (tidy_turn env)

/-! ## Calls made for a channel -/

def Event.called : Event → Option (Call × Option Bool)
  | .call _ op result => some (op, result)
  | _ => none

/-- The operations called in a turn, with their results. -/
def Turn.calls (env : Env) (b : Broker) (t : Turn) : List (Call × Option Bool) :=
  ((Turn.step env b t).trace.drop b.trace.length).filterMap Event.called

theorem Turn.calls_of_trace {env : Env} {b : Broker} {t : Turn} {new : List Event}
    (h : (Turn.step env b t).trace = b.trace ++ new) :
    t.calls env b = new.filterMap Event.called := by
  rw [Turn.calls, h, List.drop_left]

/-- The frames of channel `n` of connection `c`, in order. -/
def framesOn (c : ConnId) (n : Nat) (turns : List Turn) : List FrameValue :=
  turns.filterMap (Turn.frameOn c n)

/-- The operations called while frames of channel `n` of connection `c` are treated. -/
def callsOn (env : Env) (c : ConnId) (n : Nat) : Broker → List Turn → List (Call × Option Bool)
  | _, [] => []
  | b, t :: rest => (if (t.frameOn c n).isSome then t.calls env b else []) ++
      callsOn env c n (Turn.step env b t) rest

/-! ## The stages of a publish -/

/-- The frame carries a part of a published message on channel `n`. -/
inductive Carries (n : Nat) : FrameValue → Assembly.Part Str Header UInt8 → Prop
  | publish {m : Method} {exchange routingKey : Str} (channel : m.channelNumber = n)
      (method : m.methodId = .basicPublish)
      (named : m.properties.get? .exchangeName = some (.str exchange))
      (routed : m.properties.get? .routingKey = some (.str routingKey)) :
      Carries n (.method m) (.start exchange)
  | header {h : Header} (channel : h.channelNumber = n) :
      Carries n (.header h) (.header h h.bodySize)
  | body {p : Body} (channel : p.channelNumber = n) : Carries n (.body p) (.piece p.content)

/-- How far the channel has come with a message. -/
inductive Channel.Stands (channel : Channel) : Assembly.Stage Str Header UInt8 → Prop
  | idle (state : channel.state = .opened) (none : channel.onGoingMessage = none) :
      Stands channel .idle
  | announced {exchange : Str} (state : channel.state = .waitingHeader)
      (named : channel.exchange = some exchange) : Stands channel (.announced exchange)
  | collecting {exchange : Str} {message : Message} (state : channel.state = .waitingBody)
      (named : channel.exchange = some exchange)
      (ongoing : channel.onGoingMessage = some message) :
      Stands channel
        (.collecting exchange message.headers message.headers.bodySize message.content)

/-- The call that stores a complete message. -/
def stored (item : Assembly.Item Str Header UInt8) : Call :=
  .storeMessage item.destination (.dict item.header.properties.entries) (.bytes item.content)

section
variable {env : Env} {c : ConnId} {f : FrameValue} {b : Broker}

theorem received_channel : (b.received c f).channel c f.channelNumber =
    b.channel c f.channelNumber := by
  rw [Broker.channel, Broker.received_get?, if_pos rfl]
  rfl

variable (env) in
/-- A frame that is passed over leaves the channel, and calls nothing. -/
theorem frame_ignored {n : Nat} (hf : f.channelNumber = n) (hn : n ≠ 0)
    (ignored : treatFrameOn env c (b.channel c n) f = pure ()) :
    (Turn.step env b (.frame c f)).channel c n = b.channel c n ∧
      (Turn.frame c f).calls env b = [] := by
  subst hf
  have done : Turn.step env b (.frame c f) = b.received c f := by
    rw [Turn.step, after_dispatch_channel hn, ignored]
    rfl
  refine ⟨by rw [done, received_channel], ?_⟩
  have trace : (Turn.step env b (.frame c f)).trace =
      b.trace ++ [.frame c (b.trackers c).parserState f] := by rw [done, b.received_trace]
  rw [Turn.calls_of_trace trace]
  rfl

/-- A frame that ends by storing its channel. -/
theorem frame_stored {n : Nat} (hf : f.channelNumber = n) (hn : n ≠ 0) (b' : Broker)
    (channel : Channel) (events : List Event)
    (done : after (treatFrameOn env c (b.channel c n) f) (b.received c f) =
      after (setChannel c n channel) b')
    (grown : b'.trace = (b.received c f).trace ++ events) :
    (Turn.step env b (.frame c f)).channel c n = channel ∧
      (Turn.frame c f).calls env b = events.filterMap Event.called := by
  subst hf
  rw [← after_dispatch_channel hn] at done
  constructor
  · have self : (after (setChannel c f.channelNumber channel) b').trackers c = _ :=
      b'.setTracker_self c _
    rw [Turn.step, done, Broker.channel, self, OrderedDict.get?_insert_self]
    rfl
  · have trace : (Turn.step env b (.frame c f)).trace =
        b.trace ++ ([.frame c (b.trackers c).parserState f] ++ events) := by
      rw [Turn.step, done, ← List.append_assoc, ← b.received_trace (c := c) (f := f), ← grown]
      rfl
    rw [Turn.calls_of_trace trace]
    rfl

theorem treatFrameOn_waitingBody {channel : Channel} (h : channel.state = .waitingBody)
    (hm : f.methodId = none) : treatFrameOn env c channel f =
      treatBodyFrame env c f.channelNumber channel f := by
  unfold treatFrameOn
  rw [if_neg (by simp [h]), if_neg (by simp [hm])]
  simp only [h]

theorem treatFrameOn_waitingHeader {channel : Channel} {h : Header}
    (state : channel.state = .waitingHeader) : treatFrameOn env c channel (.header h) =
      setChannel c h.channelNumber { channel with
        state := .waitingBody, onGoingMessage := some (Message.make h) } := by
  unfold treatFrameOn
  rw [if_neg (by simp [state]), if_neg (by simp [FrameValue.methodId])]
  simp only [state]
  rfl

theorem treatFrameOn_more {channel : Channel} {p : Body} {message : Message}
    (state : channel.state = .waitingBody) (ongoing : channel.onGoingMessage = some message)
    (more : (message.addContent p.content).isComplete = false) :
    treatFrameOn env c channel (.body p) = (do
      setChannel c p.channelNumber { channel with
        onGoingMessage := some (message.addContent p.content) }
      pure ()) := by
  rw [treatFrameOn_waitingBody state rfl]
  unfold treatBodyFrame
  simp only [ongoing, more, Bool.false_eq_true, if_false]
  rfl

theorem treatFrameOn_last {channel : Channel} {p : Body} {message : Message} {exchange : Str}
    (state : channel.state = .waitingBody) (named : channel.exchange = some exchange)
    (ongoing : channel.onGoingMessage = some message)
    (complete : (message.addContent p.content).isComplete = true) :
    treatFrameOn env c channel (.body p) = (do
      setChannel c p.channelNumber { channel with
        exchange := some exchange, onGoingMessage := some (message.addContent p.content) }
      let ok ← call env c (stored ⟨exchange, message.headers, message.content ++ p.content⟩)
      if ¬ ok then close c
      else setChannel c p.channelNumber { channel with
        state := .opened, exchange := some exchange, onGoingMessage := none }) := by
  rw [treatFrameOn_waitingBody state rfl]
  unfold treatBodyFrame
  simp only [ongoing, complete, named, if_true]
  rfl

theorem argStr_method {m : Method} {name : ArgName} {s : Str}
    (h : m.properties.get? name = some (.str s)) :
    (FrameValue.method m).argStr name = .ok s := by
  simp only [FrameValue.argStr, FrameValue.arg, h]
  rfl

variable (env) in
/-- A basic.publish begins a message. -/
theorem publish_step {m : Method} {exchange routingKey : Str} (hn : m.channelNumber ≠ 0)
    (method : m.methodId = .basicPublish)
    (named : m.properties.get? .exchangeName = some (.str exchange))
    (routed : m.properties.get? .routingKey = some (.str routingKey))
    (opened : (b.channel c m.channelNumber).state = .opened) :
    (Turn.step env b (.frame c (.method m))).channel c m.channelNumber =
        { b.channel c m.channelNumber with
          state := .waitingHeader, exchange := some exchange, routingKey := some routingKey } ∧
      (Turn.frame c (.method m)).calls env b = [] := by
  have id : (FrameValue.method m).methodId = some .basicPublish := congrArg some method
  have done : treatFrameOn env c (b.channel c m.channelNumber) (.method m) = (do
      setChannel c m.channelNumber { b.channel c m.channelNumber with state := .waitingHeader }
      setChannel c m.channelNumber { b.channel c m.channelNumber with
        state := .waitingHeader, exchange := some exchange }
      setChannel c m.channelNumber { b.channel c m.channelNumber with
        state := .waitingHeader, exchange := some exchange, routingKey := some routingKey }) := by
    rw [treatFrameOn_opened opened (by simp [id])]
    unfold treatOpenedChannelFrame
    simp only [id, argStr_method named, argStr_method routed]
    rfl
  let b1 := after (setChannel c m.channelNumber { b.channel c m.channelNumber with
    state := .waitingHeader }) (b.received c (.method m))
  let b2 := after (setChannel c m.channelNumber { b.channel c m.channelNumber with
    state := .waitingHeader, exchange := some exchange }) b1
  have hf : (FrameValue.method m).channelNumber = m.channelNumber := rfl
  refine frame_stored hf hn b2 _ [] ?_ (List.append_nil _).symm
  rw [done]
  rfl

variable (env) in
/-- A content header begins the body. -/
theorem header_step {h : Header} (hn : h.channelNumber ≠ 0)
    (state : (b.channel c h.channelNumber).state = .waitingHeader) :
    (Turn.step env b (.frame c (.header h))).channel c h.channelNumber =
        { b.channel c h.channelNumber with
          state := .waitingBody, onGoingMessage := some (Message.make h) } ∧
      (Turn.frame c (.header h)).calls env b = [] := by
  have hf : (FrameValue.header h).channelNumber = h.channelNumber := rfl
  refine frame_stored hf hn (b.received c (.header h)) _ [] ?_ (List.append_nil _).symm
  exact congrArg (fun x => after x (b.received c (.header h))) (treatFrameOn_waitingHeader state)

variable (env) in
theorem body_step {p : Body} {message : Message} (hn : p.channelNumber ≠ 0)
    (state : (b.channel c p.channelNumber).state = .waitingBody)
    (ongoing : (b.channel c p.channelNumber).onGoingMessage = some message)
    (more : (message.addContent p.content).isComplete = false) :
    (Turn.step env b (.frame c (.body p))).channel c p.channelNumber =
        { b.channel c p.channelNumber with
          onGoingMessage := some (message.addContent p.content) } ∧
      (Turn.frame c (.body p)).calls env b = [] := by
  have hf : (FrameValue.body p).channelNumber = p.channelNumber := rfl
  refine frame_stored hf hn (b.received c (.body p)) _ [] ?_ (List.append_nil _).symm
  exact (congrArg (fun x => after x (b.received c (.body p)))
    (treatFrameOn_more state ongoing more)).trans (after_bind_pure _ _ _)

variable (env) in
/-- The last piece of a body has the message stored. -/
theorem last_step {p : Body} {message : Message} {exchange : Str} (hn : p.channelNumber ≠ 0)
    (state : (b.channel c p.channelNumber).state = .waitingBody)
    (named : (b.channel c p.channelNumber).exchange = some exchange)
    (ongoing : (b.channel c p.channelNumber).onGoingMessage = some message)
    (complete : (message.addContent p.content).isComplete = true)
    (integral : b.state.Integral) (declared : b.state.exchanges.contains exchange = true) :
    (Turn.step env b (.frame c (.body p))).channel c p.channelNumber =
        { b.channel c p.channelNumber with
          state := .opened, exchange := some exchange, onGoingMessage := none } ∧
      (Turn.frame c (.body p)).calls env b =
        [(stored ⟨exchange, message.headers, message.content ++ p.content⟩, some true)] := by
  let item : Assembly.Item Str Header UInt8 :=
    ⟨exchange, message.headers, message.content ++ p.content⟩
  let collected : Channel := { b.channel c p.channelNumber with
    exchange := some exchange, onGoingMessage := some (message.addContent p.content) }
  let b1 := after (setChannel c p.channelNumber collected) (b.received c (.body p))
  have state1 : b1.state = b.state := b.received_state
  obtain ⟨s, ran⟩ : ∃ s, (stored item).run env b1.state = .ok true s := by
    rw [state1]
    exact State.storeMessage_ok env integral declared _ _
  have entered : setChannel c p.channelNumber collected (b.received c (.body p)) =
      .ok () b1 := rfl
  have called : call env c (stored item) b1 = .ok true { b1 with
      state := s, trace := b1.trace ++ [.call c (stored item) (some true)] } := by
    simp only [call, ran]
  have hf : (FrameValue.body p).channelNumber = p.channelNumber := rfl
  refine frame_stored hf hn { b1 with
    state := s, trace := b1.trace ++ [.call c (stored item) (some true)] } _ _ ?_ rfl
  rw [treatFrameOn_last state named ongoing complete, after_congr (bind_ok entered),
    after_congr (bind_ok called)]
  rfl

theorem Carries.channel {n : Nat} {part : Assembly.Part Str Header UInt8}
    (h : Carries n f part) : f.channelNumber = n := by
  cases h <;> assumption

open Assembly

/-- What a frame does to its channel, beside what its part does to the stage. -/
def Follows (env : Env) (c : ConnId) (n : Nat) (b : Broker) (f : FrameValue)
    (stage : Stage Str Header UInt8) (part : Part Str Header UInt8) : Prop :=
  ((Turn.step env b (.frame c f)).channel c n).Stands (next stage part) ∧
    (Turn.frame c f).calls env b =
      (completed stage part).toList.map fun item => (stored item, some true)

theorem follows_ignored {n : Nat} {stage : Stage Str Header UInt8} {part : Part Str Header UInt8}
    (hf : f.channelNumber = n) (hn : n ≠ 0) (stands : (b.channel c n).Stands stage)
    (ignored : treatFrameOn env c (b.channel c n) f = pure ()) (kept : next stage part = stage)
    (nothing : completed stage part = none) : Follows env c n b f stage part := by
  obtain ⟨same, calls⟩ := frame_ignored env hf hn ignored
  unfold Follows
  rw [same, calls, kept, nothing]
  exact ⟨stands, rfl⟩

/-- A frame of a published message does to its channel what its part does to the stage. -/
theorem part_step {n : Nat} {stage : Stage Str Header UInt8} {part : Part Str Header UInt8}
    (hn : n ≠ 0) (carries : Carries n f part) (stands : (b.channel c n).Stands stage)
    (integral : b.state.Integral)
    (declared : ∀ item, completed stage part = some item →
      b.state.exchanges.contains item.destination = true) : Follows env c n b f stage part := by
  have hf := carries.channel
  cases carries with
  | publish channel method named routed =>
      cases stands with
      | idle state none =>
          subst channel
          obtain ⟨moved, calls⟩ := publish_step env hn method named routed state
          exact ⟨.announced (by rw [moved]) (by rw [moved]), calls⟩
      | announced state stored =>
          exact follows_ignored hf hn (.announced state stored)
            (treatFrameOn_publishing (.inl state) (congrArg some method) (by decide)) rfl rfl
      | collecting state stored ongoing =>
          exact follows_ignored hf hn (.collecting state stored ongoing)
            (treatFrameOn_publishing (.inr state) (congrArg some method) (by decide)) rfl rfl
  | @header h channel =>
      cases stands with
      | idle state none =>
          have ignored : treatFrameOn env c (b.channel c n) (.header h) = pure () := by
            rw [treatFrameOn_opened state (by simp [FrameValue.methodId])]
            rfl
          exact follows_ignored hf hn (.idle state none) ignored rfl rfl
      | announced state stored =>
          subst channel
          obtain ⟨moved, calls⟩ := header_step env hn state
          have stands : ((Turn.step env b (.frame c (.header h))).channel c
              h.channelNumber).Stands (.collecting _ (Message.make h).headers
                (Message.make h).headers.bodySize (Message.make h).content) :=
            .collecting (by rw [moved]) (by rw [moved]; exact stored) (by rw [moved])
          exact ⟨stands, calls⟩
      | collecting state stored ongoing =>
          have ignored : treatFrameOn env c (b.channel c n) (.header h) = pure () := by
            rw [treatFrameOn_waitingBody state rfl]
            rfl
          exact follows_ignored hf hn (.collecting state stored ongoing) ignored rfl rfl
  | @body p channel =>
      cases stands with
      | idle state none =>
          have ignored : treatFrameOn env c (b.channel c n) (.body p) = pure () := by
            rw [treatFrameOn_opened state (by simp [FrameValue.methodId])]
            rfl
          exact follows_ignored hf hn (.idle state none) ignored rfl rfl
      | announced state stored =>
          have ignored : treatFrameOn env c (b.channel c n) (.body p) = pure () := by
            unfold treatFrameOn
            rw [if_neg (by simp [state]), if_neg (by simp [FrameValue.methodId])]
            simp only [state]
          exact follows_ignored hf hn (.announced state stored) ignored rfl rfl
      | @collecting exchange message state named ongoing =>
          subst channel
          by_cases whole : message.headers.bodySize = (message.content ++ p.content).length
          · have complete : (message.addContent p.content).isComplete = true :=
              decide_eq_true whole
            simp only [completed, if_pos whole, Option.some.injEq, forall_eq'] at declared
            obtain ⟨moved, calls⟩ := last_step env hn state named ongoing complete
              integral declared
            unfold Follows
            simp only [next, completed, if_pos whole]
            exact ⟨.idle (by rw [moved]) (by rw [moved]), calls⟩
          · have more : (message.addContent p.content).isComplete = false :=
              decide_eq_false whole
            obtain ⟨moved, calls⟩ := body_step env hn state ongoing more
            unfold Follows
            simp only [next, completed, if_neg whole]
            have ongoing' : ((Turn.step env b (.frame c (.body p))).channel c
                p.channelNumber).onGoingMessage = some (message.addContent p.content) := by
              rw [moved]
            exact ⟨.collecting (by rw [moved]; exact state) (by rw [moved]; exact named) ongoing',
              calls⟩

end

/-! ## Messages sent over a channel -/

section
variable {env : Env} {c : ConnId} {n : Nat}

open Assembly

/-- Along a run, the channel follows its frames. -/
theorem run_follows {turns : List Turn} {b : Broker} {stage : Stage Str Header UInt8}
    {parts : List (Part Str Header UInt8)} {messages : List (Parcel Str Header UInt8)}
    (hn : n ≠ 0)
    (integral : b.state.Integral) (stands : (b.channel c n).Stands stage)
    (carries : List.Forall₂ (Carries n) (framesOn c n turns) parts)
    (named : ∀ item ∈ assembled stage parts, ∃ m ∈ messages, m.destination = item.destination)
    (declared : Runs.Along (Turn.step env)
      (fun b _ => ∀ m ∈ messages, b.state.exchanges.contains m.destination = true) b turns) :
    ((Runs.run (Turn.step env) b turns).channel c n).Stands (Runs.run next stage parts) ∧
      callsOn env c n b turns =
        (assembled stage parts).map fun item => (stored item, some true) := by
  induction turns generalizing b stage parts with
  | nil =>
      cases carries
      exact ⟨stands, rfl⟩
  | cons t rest ih =>
      have integral' := integral_turn env b t integral
      cases on : t.frameOn c n with
      | none =>
          rw [framesOn, List.filterMap_cons_none on] at carries
          have same : (Turn.step env b t).channel c n = b.channel c n := turn_channel on
          obtain ⟨ended, calls⟩ := ih integral' (same ▸ stands) carries named declared.2
          refine ⟨ended, ?_⟩
          simp only [callsOn, on, Option.isSome_none, Bool.false_eq_true, if_false,
            List.nil_append]
          exact calls
      | some f =>
          rw [framesOn, List.filterMap_cons_some on] at carries
          obtain ⟨rfl, _⟩ := Turn.frameOn_eq_some on
          cases carries with
          | @cons _ part _ parts carried carries =>
              have exchange : ∀ item, completed stage part = some item →
                  b.state.exchanges.contains item.destination = true := by
                intro item complete
                obtain ⟨m, hm, to_item⟩ := named item (by simp [assembled, complete])
                rw [← to_item]
                exact declared.1 m hm
              have followed : Follows env c n b f stage part :=
                part_step hn carried stands integral exchange
              obtain ⟨moved, called⟩ := followed
              obtain ⟨ended, calls⟩ := ih integral' moved carries
                (fun item hi => named item (by simp [assembled, hi])) declared.2
              refine ⟨ended, ?_⟩
              simp only [callsOn, on, Option.isSome_some, if_true]
              rw [called, calls, assembled, List.map_append]

/-- Every message is stored once, in order, and after its last frame the channel is ready for
the next one. -/
structure Reassembles (env : Env) (c : ConnId) (n : Nat) (b : Broker)
    (messages : List (Parcel Str Header UInt8)) (turns : List Turn) : Prop where
  calls : callsOn env c n b turns = messages.map fun m => (stored m.item, some true)
  ready : ∀ done m todo before later, messages = done ++ m :: todo → turns = before ++ later →
    List.Forall₂ (Carries n) (framesOn c n before) (stream (done ++ [m])) →
    ((Runs.run (Turn.step env) b before).channel c n).state = .opened ∧
      ((Runs.run (Turn.step env) b before).channel c n).onGoingMessage = none

theorem Channel.Stands.eq_idle {channel : Channel} {stage : Stage Str Header UInt8}
    (h : channel.Stands stage) (opened : channel.state = .opened) : stage = .idle := by
  cases h with
  | idle => rfl
  | announced state => simp [opened] at state
  | collecting state => simp [opened] at state

theorem Channel.Stands.of_idle {channel : Channel} (h : channel.Stands .idle) :
    channel.state = .opened ∧ channel.onGoingMessage = none := by
  cases h with
  | idle state none => exact ⟨state, none⟩

/-- Messages sent over an opened channel, with anything else happening between their frames, are
put together exactly if none of them has an empty body. -/
theorem reassembles_iff {b : Broker} (reachable : Reachable env b) (hn : n ≠ 0)
    (opened : (b.channel c n).state = .opened) (messages : List (Parcel Str Header UInt8))
    (turns : List Turn)
    (sent : List.Forall₂ (Carries n) (framesOn c n turns) (stream messages))
    (declared : Runs.Along (Turn.step env)
      (fun b _ => ∀ m ∈ messages, b.state.exchanges.contains m.destination = true) b turns) :
    Reassembles env c n b messages turns ↔ ∀ m ∈ messages, m.content ≠ [] := by
  have integral := reachable_integral reachable
  have stands : (b.channel c n).Stands .idle :=
    .idle opened ((reachable_tidy reachable).channel c n (by simp [opened]))
  have follows : ∀ before later first rest, turns = before ++ later →
      messages = first ++ rest →
      List.Forall₂ (Carries n) (framesOn c n before) (stream first) →
      ((Runs.run (Turn.step env) b before).channel c n).Stands
          (Runs.run next .idle (stream first)) ∧
        callsOn env c n b before =
          (assembled .idle (stream first)).map fun item => (stored item, some true) := by
    rintro before later first rest rfl rfl carries
    refine run_follows hn integral stands carries (fun item hi => ?_)
      (Runs.along_append.mp declared).1
    obtain ⟨m, hm, to_item⟩ := stream_destination hi
    exact ⟨m, List.mem_append_left _ hm, to_item⟩
  constructor
  · rintro ⟨_, ready⟩
    refine content_ne_nil fun done m todo split => ?_
    -- the turns up to the last frame of `m`
    have cut : stream messages = stream (done ++ [m]) ++ stream todo := by
      simp [split, stream]
    rw [cut] at sent
    have frames := (List.take_append_drop (stream (done ++ [m])).length (framesOn c n turns)).symm
    obtain ⟨before, later, both, first, _⟩ := List.filterMap_eq_append_iff.mp frames
    have carries : List.Forall₂ (Carries n) (framesOn c n before) (stream (done ++ [m])) := by
      rw [framesOn, first]
      exact List.forall₂_take_append _ _ _ sent
    obtain ⟨stage, _⟩ := follows before later (done ++ [m]) todo both (by simp [split]) carries
    exact stage.eq_idle (ready done m todo before later split both carries).1
  · intro nonempty
    constructor
    · rw [(follows turns [] messages [] (by simp) (by simp) sent).2, (run_stream nonempty).2,
        List.map_map]
      rfl
    · intro done m todo before later split both carries
      obtain ⟨stage, _⟩ := follows before later (done ++ [m]) todo both (by simp [split]) carries
      have idle : Runs.run next .idle (stream (done ++ [m])) = .idle := by
        refine (run_stream fun p hp => nonempty p ?_).1
        rw [split]
        rcases List.mem_append.mp hp with old | new
        · exact List.mem_append_left _ old
        · rw [List.mem_singleton.mp new]
          simp
      rw [idle] at stage
      exact stage.of_idle

end

/-- A basic.publish to the default exchange. -/
def publishFrame (n : Nat) : FrameValue :=
  .method {
    channelNumber := n
    size := 18
    methodId := .basicPublish
    properties := .ofList [(.reserved1, .int 0), (.exchangeName, .str []),
      (.routingKey, .str (str "q")), (.mandatory, .bool false), (.immediate, .bool false)] }

def headerOf (n bodySize : Nat) : Header :=
  { channelNumber := n, size := 22, classId := 60, bodySize, properties := .empty }

def bodyFrame (n : Nat) (content : Bytes) : FrameValue :=
  .body { channelNumber := n, size := 8 + content.length, content }

/-- A message for the default exchange in given pieces. -/
def parcelOf (n : Nat) (pieces : List Bytes) (nonempty : ∀ piece ∈ pieces, piece ≠ []) :
    Assembly.Parcel Str Header UInt8 :=
  { destination := [], header := headerOf n pieces.flatten.length, pieces, nonempty }

/-- Channel 1 after a login. -/
theorem logIn_opens : ((session (logIn 0)).broker.channel 0 1).state = .opened := by
  decide +kernel

theorem reassembles_two_pieces :
    Reassembles guestEnv 0 1 (session (logIn 0)).broker [parcelOf 1 [[1, 2], [3]] (by decide)]
      [.frame 0 (publishFrame 1), .http (.declareQueue (str "q")), .frame 0 (.header (headerOf 1 3)),
        .frame 0 (bodyFrame 1 [1, 2]), .lost 1, .frame 0 (bodyFrame 1 [3])] :=
  (reassembles_iff (session_reachable _) (by decide) logIn_opens _ _
    (.cons (.publish rfl rfl rfl rfl) (.cons (.header rfl)
      (.cons (.body rfl) (.cons (.body rfl) .nil))))
    (by decide +kernel)).mpr (by decide)

/-- An empty message is never complete, and the next message on the channel is lost with it. -/
theorem empty_message_not_reassembled :
    ((session (logIn 0)).broker.channel 0 1).state = .opened ∧ ∃ messages turns,
      List.Forall₂ (Carries 1) (framesOn 0 1 turns) (Assembly.stream messages) ∧
      Runs.Along (Turn.step guestEnv)
        (fun b _ => ∀ m ∈ messages, b.state.exchanges.contains m.destination = true)
        (session (logIn 0)).broker turns ∧
      ¬ Reassembles guestEnv 0 1 (session (logIn 0)).broker messages turns := by
  refine ⟨logIn_opens, [parcelOf 1 [] (by decide), parcelOf 1 [[7]] (by decide)],
    [.frame 0 (publishFrame 1), .frame 0 (.header (headerOf 1 0)), .frame 0 (publishFrame 1),
      .frame 0 (.header (headerOf 1 1)), .frame 0 (bodyFrame 1 [7])],
    .cons (.publish rfl rfl rfl rfl) (.cons (.header rfl) (.cons (.publish rfl rfl rfl rfl)
      (.cons (.header rfl) (.cons (.body rfl) .nil)))), by decide +kernel, ?_⟩
  rintro ⟨calls, _⟩
  have stored := congrArg List.length calls
  revert stored
  decide +kernel

end MockAmqp
