import MockAmqp.Reassembly
import MockAmqp.Routing

/-!
# Channels on their own

What becomes of a channel and of its messages is a matter of its own frames, whatever frames of
other channels arrive between them.
-/

namespace MockAmqp
open Exec

/-- The exchange, the properties and the body handed to `store_message`. -/
abbrev Storing := Str × Val × Val

def Call.storing : Call → Option Storing
  | storeMessage exchangeName headers messageData => some (exchangeName, headers, messageData)
  | _ => none

def Event.storing : Event → Option Storing
  | .call _ op _ => op.storing
  | _ => none

/-- What the frames of channel `n` of connection `c` hand to `store_message`, in order. -/
def storingsOn (env : Env) (c : ConnId) (n : Nat) (b : Broker) (turns : List Turn) :
    List Storing :=
  (callsOn env c n b turns).filterMap fun p => p.1.storing

/-- The exchange that a basic.publish names. -/
def FrameValue.publishesTo (f : FrameValue) : Option Str :=
  if f.methodId = some .basicPublish then (f.argStr .exchangeName).toOption else none

theorem named_publishesTo {f : FrameValue} {e : Str} (hm : f.methodId = some .basicPublish)
    (named : f.argStr .exchangeName = .ok e) : f.publishesTo = some e := by
  unfold FrameValue.publishesTo
  rw [if_pos hm, named]
  rfl

/-! ## A channel by itself -/

namespace Channel

/-- What a basic.publish writes, also one that lacks an argument. -/
def published (channel : Channel) (f : FrameValue) : Channel :=
  match f.argStr .exchangeName, f.argStr .routingKey with
  | .error _, _ => { channel with state := .waitingHeader }
  | .ok exchange, .error _ => { channel with state := .waitingHeader, exchange := some exchange }
  | .ok exchange, .ok routingKey => { channel with
      state := .waitingHeader, exchange := some exchange, routingKey := some routingKey }

/-- What a piece of a body makes of the channel, and what it has stored. -/
def collects (channel : Channel) (content : Bytes) : Channel × Option Storing :=
  match channel.onGoingMessage with
  | none => (channel, none)
  | some message =>
      let message := message.addContent content
      let collected := { channel with onGoingMessage := some message }
      if message.isComplete then
        match channel.exchange with
        | none => (collected, none)
        | some exchange =>
            ({ channel with state := .opened, onGoingMessage := none },
              some (exchange, .dict message.headers.properties.entries, .bytes message.content))
      else (collected, none)

/-- What a frame makes of the channel as long as messages can be stored. -/
def takes (n : Nat) (channel : Channel) (f : FrameValue) : Channel × Option Storing :=
  if channel.state = .waitingOpen then
    if f.methodId = some .channelOpen ∧ channel.number < 256 then
      ({ channel with state := .opened }, none)
    else (channel, none)
  else if f.methodId = some .channelClose then (newChannel n, none)
  else match channel.state, f with
    | .opened, f =>
        if f.methodId = some .basicPublish then (channel.published f, none) else (channel, none)
    | .waitingHeader, .header h => ({ channel with
        state := .waitingBody, onGoingMessage := some (Message.make h) }, none)
    | .waitingBody, .body p => channel.collects p.content
    | _, _ => (channel, none)

def takesAll (n : Nat) : Channel → List FrameValue → Channel
  | channel, [] => channel
  | channel, f :: rest => takesAll n (channel.takes n f).1 rest

def storings (n : Nat) : Channel → List FrameValue → List Storing
  | _, [] => []
  | channel, f :: rest => (channel.takes n f).2.toList ++ storings n (channel.takes n f).1 rest

section
variable {channel : Channel} {n : Nat}

theorem takes_header (state : channel.state = .waitingHeader) (h : Header) :
    channel.takes n (.header h) = ({ channel with
      state := .waitingBody, onGoingMessage := some (Message.make h) }, none) := by
  unfold takes
  rw [if_neg (by simp [state]), if_neg (by simp [FrameValue.methodId])]
  simp only [state]

theorem takes_body (state : channel.state = .waitingBody) (p : Body) :
    channel.takes n (.body p) = channel.collects p.content := by
  unfold takes
  rw [if_neg (by simp [state]), if_neg (by simp [FrameValue.methodId])]
  simp only [state]

theorem collects_more {message : Message} {content : Bytes}
    (ongoing : channel.onGoingMessage = some message)
    (more : (message.addContent content).isComplete = false) : channel.collects content =
      ({ channel with onGoingMessage := some (message.addContent content) }, none) := by
  unfold collects
  simp only [ongoing, more, Bool.false_eq_true, if_false]

theorem collects_last {message : Message} {content : Bytes} {exchange : Str}
    (ongoing : channel.onGoingMessage = some message)
    (complete : (message.addContent content).isComplete = true)
    (named : channel.exchange = some exchange) : channel.collects content =
      ({ channel with state := .opened, onGoingMessage := none },
        some (exchange, .dict message.headers.properties.entries,
          .bytes (message.content ++ content))) := by
  unfold collects
  simp only [ongoing, complete, named, if_true]
  rfl

/-- The frame is not the one that a channel in the middle of a publish waits for. -/
def Passes (channel : Channel) (f : FrameValue) : Prop :=
  channel.state = .waitingHeader ∧ (∀ h, f ≠ .header h) ∨
    channel.state = .waitingBody ∧ ∀ p, f ≠ .body p

theorem takes_passed {f : FrameValue} (passes : channel.Passes f)
    (hm : f.methodId ≠ some .channelClose) : channel.takes n f = (channel, none) := by
  unfold takes
  rcases passes with ⟨state, other⟩ | ⟨state, other⟩
  · rw [if_neg (by simp [state]), if_neg hm, state]
    cases f with
    | header h => exact absurd rfl (other h)
    | _ => rfl
  · rw [if_neg (by simp [state]), if_neg hm, state]
    cases f with
    | body p => exact absurd rfl (other p)
    | _ => rfl

end

/-- What is stored is the message that a body completes. -/
theorem takes_stores {channel : Channel} {n : Nat} {f : FrameValue} {e : Str} {headers data : Val}
    (h : (channel.takes n f).2 = some (e, headers, data)) :
    channel.state = .waitingBody ∧ channel.exchange = some e ∧ ∃ p message, f = .body p ∧
      channel.onGoingMessage = some message ∧
      (message.addContent p.content).isComplete = true := by
  unfold takes at h
  split at h
  · split at h <;> cases h
  · split at h
    · cases h
    · split at h
      · split at h <;> cases h
      · cases h
      · rename_i p state _
        unfold collects at h
        split at h
        · cases h
        · rename_i message ongoing
          dsimp only at h
          split at h
          · rename_i complete
            split at h
            · cases h
            · rename_i named
              cases h
              exact ⟨state, named, p, message, rfl, ongoing, complete⟩
          · cases h
      · cases h

/-- A channel comes to an exchange only through a basic.publish. -/
theorem takes_exchange {channel : Channel} {n : Nat} {f : FrameValue} {e : Str}
    (h : (channel.takes n f).1.exchange = some e) :
    channel.exchange = some e ∨ f.publishesTo = some e := by
  unfold takes at h
  split at h
  · split at h <;> exact .inl h
  · split at h
    · cases h
    · split at h
      · split at h
        · rename_i hm
          unfold published at h
          split at h
          · exact .inl h
          · rename_i named _
            cases h
            exact .inr (named_publishesTo hm named)
          · rename_i named _
            cases h
            exact .inr (named_publishesTo hm named)
        · exact .inl h
      · exact .inl h
      · unfold collects at h
        split at h
        · exact .inl h
        · dsimp only at h
          split at h
          · split at h <;> exact .inl h
          · exact .inl h
      · exact .inl h

end Channel

/-! ## Frames -/

/-- Channel `n` keeps its entry, and nothing is stored. -/
def Aside (c : ConnId) (n : Nat) (b b' : Broker) : Prop :=
  SameChannel c n b b' ∧
    ∃ new, b'.trace = b.trace ++ new ∧ new.filterMap Event.storing = []

section
variable {env : Env} {c : ConnId} {n : Nat} {f : FrameValue} {b b' : Broker}

theorem aside_progress (c : ConnId) (n : Nat) : Progress (Aside c n) where
  refl := fun _ => ⟨rfl, [], (List.append_nil _).symm, rfl⟩
  trans := by
    rintro b1 b2 b3 ⟨same, new, trace, quiet⟩ ⟨same', new', trace', quiet'⟩
    refine ⟨same'.trans same, new ++ new', ?_, ?_⟩
    · rw [trace', trace, List.append_assoc]
    · rw [List.filterMap_append, quiet, quiet', List.append_nil]

theorem aside_log {e : Event} (h : e.storing = none) : Within (Aside c n) (log e) :=
  fun _ => ⟨rfl, [e], rfl, by simp [h]⟩

theorem aside_onTransport (x : Send Unit) : Within (Aside c n) (onTransport c x) := by
  intro b
  refine ⟨(sameChannels_onTransport c x b).at n, [], ?_, rfl⟩
  rw [onTransport_apply_tracker, List.append_nil]
  rfl

theorem aside_reply (r : Reply) : Within (Aside c n) (reply c r) :=
  within_bind (aside_progress c n) (aside_onTransport _) fun _ => aside_log rfl

theorem aside_call {op : Call} (h : op.storing = none) : Within (Aside c n) (call env c op) := by
  intro b
  rw [after_call]
  exact ⟨rfl, _, rfl, by simp [Event.storing, h]⟩

/-- On an opened channel everything but a basic.publish leaves the record alone. -/
theorem aside_opened (channel : Channel) (hm : f.methodId ≠ some .basicPublish) :
    Within (Aside c n) (treatOpenedChannelFrame env c n channel f) := by
  have hp := aside_progress c n
  have closed : Within (Aside c n) (close c) := aside_onTransport _
  have arg : ∀ {α : Type} {x : Except PyError α} {g : α → OnBroker Unit},
      (∀ a, Within (Aside c n) (g a)) → Within (Aside c n) (attempt x >>= g) :=
    fun hg => within_bind hp (within_attempt hp _) hg
  have asks : ∀ {op : Call} {g : Bool → OnBroker Unit}, op.storing = none →
      (∀ ok, Within (Aside c n) (g ok)) → Within (Aside c n) (call env c op >>= g) :=
    fun quiet hg => within_bind hp (aside_call quiet) hg
  unfold treatOpenedChannelFrame
  split
  · refine arg fun _ => arg fun _ => asks rfl fun _ => within_ite ?_ (aside_reply _)
    exact within_bind hp closed fun _ => aside_reply _
  · refine arg fun _ => asks rfl fun _ => within_ite ?_ (aside_reply _)
    exact within_bind hp closed fun _ => aside_reply _
  · exact arg fun _ => arg fun _ => asks rfl fun _ => within_ite closed (aside_reply _)
  · exact aside_reply _
  · rename_i publish
    exact absurd publish hm
  · exact arg fun _ => arg fun _ => asks rfl fun _ => aside_reply _
  · exact arg fun _ => asks rfl fun _ => within_pure hp _
  · exact arg fun _ => arg fun _ => asks rfl fun _ => within_pure hp _
  · exact arg fun _ => aside_reply _
  · exact within_pure hp _

theorem SameChannel.channel (h : SameChannel c n b b') : b'.channel c n = b.channel c n := by
  unfold Broker.channel
  rw [h]

/-- What a frame made of its channel, and what it had stored. -/
def Takes (env : Env) (c : ConnId) (n : Nat) (b : Broker) (f : FrameValue)
    (result : Channel × Option Storing) : Prop :=
  (Turn.step env b (.frame c f)).channel c n = result.1 ∧
    ((Turn.frame c f).calls env b).filterMap (fun p => p.1.storing) = result.2.toList

theorem takes_of_trace {new : List Event} {channel : Channel} {storing : Option Storing}
    (trace : (Turn.step env b (.frame c f)).trace = b.trace ++ new)
    (stored : new.filterMap Event.storing = storing.toList)
    (moved : (Turn.step env b (.frame c f)).channel c n = channel) :
    Takes env c n b f (channel, storing) := by
  refine ⟨moved, ?_⟩
  rw [Turn.calls_of_trace trace, List.filterMap_filterMap, ← stored]
  congr 1
  funext e
  cases e <;> rfl

/-- The record after a frame that stores nothing. -/
theorem takes_quietly (hf : f.channelNumber = n) (hn : n ≠ 0) {channel : Channel}
    (m : Broker) (new : List Event) (before : m.trace = (b.received c f).trace ++ new)
    (quiet : new.filterMap Event.storing = []) (moved : m.channel c n = channel)
    (rest : Aside c n m (after (treatFrameOn env c (b.channel c n) f) (b.received c f))) :
    Takes env c n b f (channel, none) := by
  subst hf
  rw [← after_dispatch_channel hn] at rest
  obtain ⟨same, new', trace, quiet'⟩ := rest
  have whole : (Turn.step env b (.frame c f)).trace = b.trace ++
      ([.frame c (b.trackers c).parserState f] ++ new ++ new') := by
    have last : (Turn.step env b (.frame c f)).trace = m.trace ++ new' := trace
    rw [last, before, b.received_trace]
    simp only [List.append_assoc]
  refine takes_of_trace whole ?_ (same.channel.trans moved)
  simp only [List.filterMap_append, quiet, quiet', List.append_nil]
  rfl

/-- A frame that leaves the record. -/
theorem takes_aside (hf : f.channelNumber = n) (hn : n ≠ 0)
    (aside : Within (Aside c n) (treatFrameOn env c (b.channel c n) f)) :
    Takes env c n b f (b.channel c n, none) := by
  subst hf
  exact takes_quietly rfl hn _ [] (List.append_nil _).symm rfl received_channel
    (aside (b.received c f))

theorem setChannel_channel (channel : Channel) (b : Broker) :
    (after (setChannel c n channel) b).channel c n = channel := by
  have stored : (after (setChannel c n channel) b).trackers c = _ := b.setTracker_self c _
  rw [Broker.channel, stored, OrderedDict.get?_insert_self]
  rfl

/-- A channel that is not open is opened, unless its number cannot be written in the answer. -/
theorem takes_waitingOpen (hf : f.channelNumber = n) (hn : n ≠ 0)
    (state : (b.channel c n).state = .waitingOpen) :
    Takes env c n b f ((b.channel c n).takes n f) := by
  have opening : f.methodId = some .channelOpen → treatFrameOn env c (b.channel c n) f = (do
      reply c (.channelOpenOk (b.channel c n).number)
      setChannel c n { b.channel c n with state := .opened }
      log (.channelOpened c n)) := by
    intro hm
    unfold treatFrameOn
    rw [if_pos state, if_neg (not_not_intro hm), hf]
    rfl
  unfold Channel.takes
  rw [if_pos state]
  by_cases hm : f.methodId = some .channelOpen
  · by_cases small : (b.channel c n).number < 256
    · rw [if_pos ⟨hm, small⟩]
      obtain ⟨t, sent⟩ : ∃ t, sendMethodArgs (b.channel c n).number 20 11 "S" [.str (str "42")]
          ((b.received c f).trackers c).transport = .ok () t :=
        sendMethodArgs_small small rfl (by decide) _
      have replied := reply_ok (r := .channelOpenOk (b.channel c n).number) sent
      let b1 : Broker := { (b.received c f).setTracker c { (b.received c f).trackers c with
          transport := t } with
        trace := (b.received c f).trace ++ [.reply c (.channelOpenOk (b.channel c n).number)] }
      refine takes_quietly hf hn (after (setChannel c n { b.channel c n with state := .opened }) b1)
        [.reply c (.channelOpenOk (b.channel c n).number)] rfl rfl (setChannel_channel _ _) ?_
      rw [opening hm, after_congr (bind_ok replied)]
      exact aside_log (e := .channelOpened c n) rfl _
    · rw [if_neg (fun both => small both.2)]
      refine takes_aside hf hn fun b1 => ?_
      obtain ⟨e, failed⟩ := sendMethodArgs_large (Nat.not_lt.mp small) 20 11 "S"
        [.str (str "42")] (b1.trackers c).transport
      have refused := reply_error (r := .channelOpenOk (b.channel c n).number) failed
      rw [opening hm]
      rcases after_bind_cases (reply c (.channelOpenOk (b.channel c n).number)) (fun _ => do
          setChannel c n { b.channel c n with state := .opened }
          log (.channelOpened c n)) b1 with ⟨_, t, replied, _⟩ | ended
      · rw [refused] at replied
        cases replied
      · rw [ended]
        exact aside_reply _ b1
  · rw [if_neg (fun both => hm both.1)]
    refine takes_aside hf hn ?_
    rw [treatFrameOn_waitingOpen state hm]
    exact aside_onTransport _

theorem takes_close (hf : f.channelNumber = n) (hn : n ≠ 0)
    (state : (b.channel c n).state ≠ .waitingOpen) (hm : f.methodId = some .channelClose) :
    Takes env c n b f ((b.channel c n).takes n f) := by
  have hp := aside_progress c n
  have forgotten : (b.channel c n).takes n f = (newChannel n, none) := by
    unfold Channel.takes
    rw [if_neg state, if_pos hm]
  rw [forgotten]
  have done : treatFrameOn env c (b.channel c n) f = (do
      deleteChannel c n
      reply c (.channelCloseOk n)
      close c) := by
    unfold treatFrameOn
    rw [if_neg state, if_pos hm, hf]
  have deleted : (after (deleteChannel c n) (b.received c f)).trackers c = _ :=
    (b.received c f).setTracker_self c _
  refine takes_quietly hf hn (after (deleteChannel c n) (b.received c f)) []
    (List.append_nil _).symm rfl ?_ ?_
  · unfold Broker.channel
    rw [deleted, OrderedDict.get?_erase, if_pos rfl]
    rfl
  · have rest : Within (Aside c n) (do reply c (.channelCloseOk n); close c : OnBroker Unit) :=
      within_bind hp (aside_reply _) fun _ => aside_onTransport _
    rw [done]
    exact rest _

theorem takes_opened (hf : f.channelNumber = n) (hn : n ≠ 0)
    (state : (b.channel c n).state = .opened) (hm : f.methodId ≠ some .channelClose) :
    Takes env c n b f ((b.channel c n).takes n f) := by
  have same : (b.channel c n).takes n f = if f.methodId = some .basicPublish then
      ((b.channel c n).published f, none) else (b.channel c n, none) := by
    unfold Channel.takes
    rw [if_neg (by simp [state]), if_neg hm]
    simp only [state]
  rw [same]
  by_cases publish : f.methodId = some .basicPublish
  · rw [if_pos publish]
    have done : treatFrameOn env c (b.channel c n) f = (do
        setChannel c n { b.channel c n with state := .waitingHeader }
        let exchange ← attempt (f.argStr .exchangeName)
        setChannel c n { b.channel c n with state := .waitingHeader, exchange := some exchange }
        let routingKey ← attempt (f.argStr .routingKey)
        setChannel c n { b.channel c n with
          state := .waitingHeader, exchange := some exchange, routingKey := some routingKey }) := by
      rw [treatFrameOn_opened state hm, hf]
      unfold treatOpenedChannelFrame
      simp only [publish]
    have last : ∀ (channel : Channel) (m : Broker), m.trace = (b.received c f).trace →
        after (treatFrameOn env c (b.channel c n) f) (b.received c f) =
          after (setChannel c n channel) m → Takes env c n b f (channel, none) := by
      intro channel m trace ended
      refine takes_quietly hf hn (after (setChannel c n channel) m) []
        (trace.trans (List.append_nil _).symm) rfl (setChannel_channel channel m) ?_
      rw [ended]
      exact (aside_progress c n).refl _
    unfold Channel.published
    split
    · rename_i missing
      refine last _ (b.received c f) rfl ?_
      rw [done, missing]
      rfl
    · rename_i named missing
      refine last _ (after (setChannel c n { b.channel c n with state := .waitingHeader })
        (b.received c f)) rfl ?_
      rw [done, named, missing]
      rfl
    · rename_i exchange routingKey named routed
      refine last _ (after (setChannel c n { b.channel c n with
        state := .waitingHeader, exchange := some exchange }) (after (setChannel c n { b.channel c n with
        state := .waitingHeader }) (b.received c f))) rfl ?_
      rw [done, named, routed]
      rfl
  · rw [if_neg publish]
    refine takes_aside hf hn ?_
    rw [treatFrameOn_opened state hm, hf]
    exact aside_opened _ publish

theorem takes_passed (hf : f.channelNumber = n) (hn : n ≠ 0)
    (passes : (b.channel c n).Passes f) (hm : f.methodId ≠ some .channelClose) :
    Takes env c n b f ((b.channel c n).takes n f) := by
  rw [Channel.takes_passed passes hm]
  refine takes_aside hf hn ?_
  have idle : treatFrameOn env c (b.channel c n) f = pure () := by
    unfold treatFrameOn
    rcases passes with ⟨state, other⟩ | ⟨state, other⟩
    · rw [if_neg (by simp [state]), if_neg hm]
      simp only [state]
    · rw [if_neg (by simp [state]), if_neg hm]
      simp only [state]
      cases f with
      | body p => exact absurd rfl (other p)
      | _ => rfl
  rw [idle]
  exact within_pure (aside_progress c n) _

theorem takes_header (h : Header) (hn : h.channelNumber ≠ 0)
    (state : (b.channel c h.channelNumber).state = .waitingHeader) :
    Takes env c h.channelNumber b (.header h)
      ((b.channel c h.channelNumber).takes h.channelNumber (.header h)) := by
  obtain ⟨moved, calls⟩ := header_step env hn state
  rw [Channel.takes_header state]
  refine ⟨moved, ?_⟩
  rw [calls]
  rfl

theorem takes_body (p : Body) (hn : p.channelNumber ≠ 0)
    (state : (b.channel c p.channelNumber).state = .waitingBody) (integral : b.state.Integral)
    (declared : ∀ e headers data, ((b.channel c p.channelNumber).collects p.content).2 =
      some (e, headers, data) → b.state.exchanges.contains e = true) :
    Takes env c p.channelNumber b (.body p)
      ((b.channel c p.channelNumber).takes p.channelNumber (.body p)) := by
  have hf : (FrameValue.body p).channelNumber = p.channelNumber := rfl
  have done : treatFrameOn env c (b.channel c p.channelNumber) (.body p) =
      treatBodyFrame env c p.channelNumber (b.channel c p.channelNumber) (.body p) :=
    treatFrameOn_waitingBody state rfl
  rw [Channel.takes_body state]
  cases ongoing : (b.channel c p.channelNumber).onGoingMessage with
  | none =>
      have nothing : (b.channel c p.channelNumber).collects p.content =
          (b.channel c p.channelNumber, none) := by
        unfold Channel.collects
        simp only [ongoing]
      rw [nothing]
      refine takes_aside hf hn ?_
      have raised : treatBodyFrame env c p.channelNumber (b.channel c p.channelNumber) (.body p) =
          raise .keyError := by
        unfold treatBodyFrame
        simp only [ongoing]
      rw [done, raised]
      exact within_raise (aside_progress _ _) _
  | some message =>
      by_cases complete : (message.addContent p.content).isComplete = true
      · cases named : (b.channel c p.channelNumber).exchange with
        | none =>
            have collected : (b.channel c p.channelNumber).collects p.content =
                ({ b.channel c p.channelNumber with
                  onGoingMessage := some (message.addContent p.content) }, none) := by
              unfold Channel.collects
              simp only [ongoing, complete, named, if_true]
            rw [collected]
            refine takes_quietly hf hn (after (setChannel c p.channelNumber
                { b.channel c p.channelNumber with
                  onGoingMessage := some (message.addContent p.content) })
                (b.received c (.body p))) [] (List.append_nil _).symm rfl
              (setChannel_channel _ _) ?_
            have raised : treatBodyFrame env c p.channelNumber (b.channel c p.channelNumber)
                (.body p) = (do
                  setChannel c p.channelNumber { b.channel c p.channelNumber with
                    onGoingMessage := some (message.addContent p.content) }
                  raise .keyError) := by
              unfold treatBodyFrame
              simp only [ongoing, complete, named, if_true]
            rw [done, raised]
            exact (aside_progress _ _).refl _
        | some exchange =>
            have last := Channel.collects_last ongoing complete named
            have present : b.state.exchanges.contains exchange = true :=
              declared exchange _ _ (by rw [last])
            obtain ⟨moved, calls⟩ := last_step env hn state named ongoing complete integral present
            rw [last]
            refine ⟨?_, ?_⟩
            · rw [moved, ← named]
            · rw [calls]
              simp [stored, Call.storing]
      · have more : (message.addContent p.content).isComplete = false := by simpa using complete
        obtain ⟨moved, calls⟩ := body_step env hn state ongoing more
        rw [Channel.collects_more ongoing more]
        refine ⟨moved, ?_⟩
        rw [calls]
        rfl

variable (env) in
/-- A frame does to its channel what it does to that channel alone. -/
theorem frame_takes (hf : f.channelNumber = n) (hn : n ≠ 0) (integral : b.state.Integral)
    (declared : ∀ e headers data, ((b.channel c n).takes n f).2 = some (e, headers, data) →
      b.state.exchanges.contains e = true) :
    Takes env c n b f ((b.channel c n).takes n f) := by
  by_cases waiting : (b.channel c n).state = .waitingOpen
  · exact takes_waitingOpen hf hn waiting
  by_cases hm : f.methodId = some .channelClose
  · exact takes_close hf hn waiting hm
  cases state : (b.channel c n).state with
  | waitingOpen => exact absurd state waiting
  | opened => exact takes_opened hf hn state hm
  | waitingHeader =>
      cases f with
      | header h =>
          subst hf
          exact takes_header h hn state
      | _ => exact takes_passed hf hn (.inl ⟨state, by simp⟩) hm
  | waitingBody =>
      cases f with
      | body p =>
          subst hf
          exact takes_body p hn state integral (Channel.takes_body state p ▸ declared)
      | _ => exact takes_passed hf hn (.inr ⟨state, by simp⟩) hm

end

/-! ## Runs -/

/-- The exchanges that the frames of a channel name, and the one its pending message is for. -/
def namedOn (c : ConnId) (n : Nat) (b : Broker) (turns : List Turn) : List Str :=
  (b.channel c n).exchange.toList ++ (framesOn c n turns).filterMap FrameValue.publishesTo

/-- The frames of channel `n` of connection `c` alone. -/
def aloneOn (c : ConnId) (n : Nat) (turns : List Turn) : List Turn :=
  turns.filter fun t => (t.frameOn c n).isSome

section
variable {env : Env} {c : ConnId} {n : Nat} {b : Broker} {turns : List Turn}

theorem framesOn_alone (c : ConnId) (n : Nat) (turns : List Turn) :
    framesOn c n (aloneOn c n turns) = framesOn c n turns := by
  induction turns with
  | nil => rfl
  | cons t rest ih =>
      unfold framesOn aloneOn at ih ⊢
      cases on : t.frameOn c n with
      | none => rw [List.filter_cons_of_neg (by simp [on]), ih, List.filterMap_cons_none on]
      | some f =>
          rw [List.filter_cons_of_pos (by simp [on]), List.filterMap_cons_some on, ih,
            List.filterMap_cons_some on]

/-- In a run a channel does what its frames do to it alone, by induction on the turns. -/
theorem run_takes (hn : n ≠ 0) {named : Str → Prop} (integral : b.state.Integral)
    (pending : ∀ e, (b.channel c n).exchange = some e → named e)
    (published : ∀ f ∈ framesOn c n turns, ∀ e, f.publishesTo = some e → named e)
    (exist : Runs.Along (Turn.step env)
      (fun b _ => ∀ e, named e → b.state.exchanges.contains e = true) b turns) :
    (Runs.run (Turn.step env) b turns).channel c n =
        (b.channel c n).takesAll n (framesOn c n turns) ∧
      storingsOn env c n b turns = (b.channel c n).storings n (framesOn c n turns) := by
  induction turns generalizing b with
  | nil => exact ⟨rfl, rfl⟩
  | cons t rest ih =>
      obtain ⟨declared, later⟩ := exist
      have kept : (Turn.step env b t).state.Integral := integral_turn env b t integral
      cases on : t.frameOn c n with
      | none =>
          have frames : framesOn c n (t :: rest) = framesOn c n rest :=
            List.filterMap_cons_none on
          have same : (Turn.step env b t).channel c n = b.channel c n := turn_channel on
          rw [frames] at published ⊢
          obtain ⟨run, stored⟩ := ih kept (same ▸ pending) published later
          rw [same] at run stored
          refine ⟨run, ?_⟩
          rw [← stored]
          simp [storingsOn, callsOn, on]
      | some f =>
          obtain ⟨rfl, hf⟩ := Turn.frameOn_eq_some on
          have frames : framesOn c n (.frame c f :: rest) = f :: framesOn c n rest :=
            List.filterMap_cons_some on
          rw [frames] at published ⊢
          obtain ⟨moved, calls⟩ := frame_takes env hf hn integral fun e _ _ he =>
            declared e (pending e (Channel.takes_stores he).2.1)
          have next : ∀ e, ((Turn.step env b (.frame c f)).channel c n).exchange = some e →
              named e := by
            intro e he
            rw [moved] at he
            rcases Channel.takes_exchange he with old | given
            · exact pending e old
            · exact published f List.mem_cons_self e given
          obtain ⟨run, stored⟩ := ih kept next
            (fun g hg => published g (List.mem_cons_of_mem f hg)) later
          rw [moved] at run stored
          refine ⟨run, ?_⟩
          have first : storingsOn env c n b (.frame c f :: rest) =
              ((Turn.frame c f).calls env b).filterMap (fun p => p.1.storing) ++
                storingsOn env c n (Turn.step env b (.frame c f)) rest := by
            simp [storingsOn, callsOn, on, List.filterMap_append]
          rw [first, calls, stored]
          rfl

theorem dispatch_grows (f : FrameValue) (integral : b.state.Integral) :
    b.state.Grows (after (dispatch env c f) b).state := by
  rcases dispatch_state_cases env c f b with same | ⟨op, _, called⟩
  · have idle := Operation.step_grows env b (.lost c) integral rfl
    rwa [same]
  · have grown := Operation.step_grows env b (.call op) integral rfl
    have moved : (Operation.step env b (.call op)).state = after (op.run env) b.state := by
      rw [Operation.step, after_onState]
    rwa [called, ← moved]

variable (env c n) in
/-- Frames alone keep the exchanges. -/
theorem alone_along {named : Str → Prop} (integral : b.state.Integral)
    (declared : ∀ e, named e → b.state.exchanges.contains e = true) (turns : List Turn) :
    Runs.Along (Turn.step env)
      (fun b _ => ∀ e, named e → b.state.exchanges.contains e = true) b
      (aloneOn c n turns) := by
  induction turns generalizing b with
  | nil => trivial
  | cons t rest ih =>
      unfold aloneOn at ih ⊢
      cases on : t.frameOn c n with
      | none =>
          rw [List.filter_cons_of_neg (by simp [on])]
          exact ih integral declared
      | some f =>
          rw [List.filter_cons_of_pos (by simp [on])]
          obtain ⟨rfl, _⟩ := Turn.frameOn_eq_some on
          refine ⟨declared, ih (integral_turn env b _ integral) fun e he => ?_⟩
          obtain ⟨exchange, found⟩ := State.contains_iff.mp (declared e he)
          obtain ⟨exchange', kept, _⟩ := (dispatch_grows f integral).exchange e exchange found
          exact State.contains_iff.mpr ⟨exchange', kept⟩

end

/-- Whatever happens between the frames of a channel, it hands to `store_message` what it would
have handed over for its frames alone, and ends with the same record, as long as the exchanges it
names exist. -/
theorem channels_do_not_interfere {env : Env} {b : Broker} (reachable : Reachable env b)
    (c : ConnId) {n : Nat} (hn : n ≠ 0) (turns : List Turn)
    (exist : Runs.Along (Turn.step env)
      (fun b' _ => ∀ e ∈ namedOn c n b turns, b'.state.exchanges.contains e = true) b turns) :
    storingsOn env c n b turns = storingsOn env c n b (aloneOn c n turns) ∧
      (Runs.run (Turn.step env) b turns).channel c n =
        (Runs.run (Turn.step env) b (aloneOn c n turns)).channel c n := by
  have integral := reachable_integral reachable
  have pending : ∀ e, (b.channel c n).exchange = some e → e ∈ namedOn c n b turns :=
    fun e he => List.mem_append_left _ (by simp [he])
  have published : ∀ f ∈ framesOn c n turns, ∀ e, f.publishesTo = some e →
      e ∈ namedOn c n b turns :=
    fun f hf e he => List.mem_append_right _ (List.mem_filterMap.mpr ⟨f, hf, he⟩)
  obtain ⟨run, stored⟩ := run_takes hn integral pending published exist
  have declared : aloneOn c n turns ≠ [] →
      ∀ e ∈ namedOn c n b turns, b.state.exchanges.contains e = true := by
    intro some
    cases turns with
    | nil => exact absurd rfl some
    | cons t rest => exact exist.1
  by_cases none : aloneOn c n turns = []
  · have frames := framesOn_alone c n turns
    rw [none] at frames
    rw [none, run, stored, ← frames]
    exact ⟨rfl, rfl⟩
  · have kept := alone_along env c n integral (declared none) turns
    have alone := run_takes hn integral pending (by rwa [framesOn_alone]) kept
    rw [framesOn_alone] at alone
    exact ⟨stored.trans alone.2.symm, run.trans alone.1.symm⟩

/-- Two channels of one connection publish at the same time. -/
theorem two_channels_do_not_interfere :
    let b := (session (logIn 0 ++ [.dataReceived 0 (methodBytes 2 20 10 "s" [.str []])])).broker
    let turns : List Turn := [.frame 0 (publishFrame 1), .frame 0 (publishFrame 2),
      .frame 0 (.header (headerOf 2 1)), .frame 0 (.header (headerOf 1 2)),
      .frame 0 (bodyFrame 1 [7]), .frame 0 (bodyFrame 2 [8]), .frame 0 (bodyFrame 1 [9])]
    (storingsOn guestEnv 0 1 b turns).length = 1 ∧
      storingsOn guestEnv 0 1 b turns = storingsOn guestEnv 0 1 b (aloneOn 0 1 turns) ∧
      (Runs.run (Turn.step guestEnv) b turns).channel 0 1 =
        (Runs.run (Turn.step guestEnv) b (aloneOn 0 1 turns)).channel 0 1 := by
  refine ⟨by decide +kernel, channels_do_not_interfere (session_reachable _) 0 (by decide) _ ?_⟩
  decide +kernel

end MockAmqp
