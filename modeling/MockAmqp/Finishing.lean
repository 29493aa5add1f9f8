import MockAmqp.Independence
import MockAmqp.ShortStrings

/-!
# Channels in the middle of a message

A channel that waits for a body can finish its message as long as no header announces an empty
body and no body carries more than what is left of it.
-/

namespace MockAmqp
open Exec

namespace Channel

/-- More of the body is to come, and none of it has been too much. -/
structure CanFinish (channel : Channel) : Prop where
  more : channel.state = .waitingBody → ∃ message, channel.onGoingMessage = some message ∧
    message.content.length < message.headers.bodySize
  fits : ∀ message ∈ channel.onGoingMessage, message.content.length ≤ message.headers.bodySize

/-- The frame announces a body that is not empty, and carries no more than what is left of it. -/
def KeepsToSize (channel : Channel) : FrameValue → Prop
  | .header h => channel.state = .waitingHeader → 0 < h.bodySize
  | .body p => channel.state = .waitingBody → ∀ message ∈ channel.onGoingMessage,
      message.content.length + p.content.length ≤ message.headers.bodySize
  | _ => True

instance decidableKeepsToSize (channel : Channel) (f : FrameValue) :
    Decidable (channel.KeepsToSize f) :=
  match f with
  | .header h => inferInstanceAs (Decidable (channel.state = .waitingHeader → 0 < h.bodySize))
  | .body p => inferInstanceAs (Decidable (channel.state = .waitingBody →
      ∀ message ∈ channel.onGoingMessage,
        message.content.length + p.content.length ≤ message.headers.bodySize))
  | .method _ => isTrue trivial
  | .heartBeat _ => isTrue trivial

/-- In the middle of a publish the exchange is known. -/
def Destined (channel : Channel) : Prop :=
  channel.state = .waitingHeader ∨ channel.state = .waitingBody →
    ∃ exchange, channel.exchange = some exchange

section
variable {channel : Channel} {n : Nat} {f : FrameValue}

theorem canFinish_idle (state : channel.state ≠ .waitingBody) (none : channel.onGoingMessage = none) :
    channel.CanFinish where
  more := fun waiting => absurd waiting state
  fits := by simp [none]

theorem canFinish_newChannel (n : Nat) : (newChannel n).CanFinish :=
  canFinish_idle (by simp [newChannel]) rfl

theorem destined_newChannel (n : Nat) : (newChannel n).Destined := by
  intro state
  simp [newChannel] at state

/-- In state WAITING_BODY the second condition follows from the first. -/
theorem canFinish_collecting {message : Message} (state : channel.state = .waitingBody)
    (ongoing : channel.onGoingMessage = some message) :
    channel.CanFinish ↔ message.content.length < message.headers.bodySize := by
  constructor
  · intro can
    obtain ⟨message', ongoing', more⟩ := can.more state
    rw [ongoing] at ongoing'
    cases ongoing'
    exact more
  · intro more
    refine ⟨fun _ => ⟨message, ongoing, more⟩, fun message' ongoing' => ?_⟩
    rw [ongoing] at ongoing'
    cases ongoing'
    exact Nat.le_of_lt more

/-- What a body leaves behind can be finished exactly if the body is not too long. -/
theorem collects_canFinish (state : channel.state = .waitingBody) (can : channel.CanFinish)
    (destined : channel.Destined) (p : Body) :
    (channel.collects p.content).1.CanFinish ↔ channel.KeepsToSize (.body p) := by
  obtain ⟨message, ongoing, short⟩ := can.more state
  obtain ⟨exchange, named⟩ := destined (.inr state)
  have kept : channel.KeepsToSize (.body p) ↔
      message.content.length + p.content.length ≤ message.headers.bodySize := by
    simp [KeepsToSize, state, ongoing]
  have whole : (message.addContent p.content).content.length =
      message.content.length + p.content.length := List.length_append
  rw [kept]
  by_cases complete : (message.addContent p.content).isComplete = true
  · have size : message.headers.bodySize = (message.addContent p.content).content.length := by
      simpa [Message.isComplete, Message.addContent] using complete
    rw [collects_last ongoing complete named]
    exact iff_of_true (canFinish_idle (by simp) rfl) (by omega)
  · have more : (message.addContent p.content).isComplete = false := by simpa using complete
    have size : message.headers.bodySize ≠ (message.addContent p.content).content.length := by
      simpa [Message.isComplete, Message.addContent] using more
    rw [collects_more ongoing more]
    let collected : Channel :=
      { channel with onGoingMessage := some (message.addContent p.content) }
    have can' : collected.CanFinish ↔
        (message.addContent p.content).content.length < message.headers.bodySize :=
      canFinish_collecting state rfl
    refine can'.trans ?_
    omega

/-- A frame leaves a channel that can be finished exactly if it keeps to the announced size. -/
theorem takes_canFinish (tidy : channel.Tidy) (can : channel.CanFinish)
    (destined : channel.Destined) (f : FrameValue) :
    (channel.takes n f).1.CanFinish ↔ channel.KeepsToSize f := by
  have idle : ∀ {channel' : Channel}, channel.state ≠ .waitingHeader → channel.state ≠ .waitingBody →
      channel'.CanFinish → (channel'.CanFinish ↔ channel.KeepsToSize f) := by
    intro channel' header body can'
    refine iff_of_true can' ?_
    cases f with
    | header h => exact fun state => absurd state header
    | body p => exact fun state => absurd state body
    | _ => trivial
  by_cases closes : channel.state ≠ .waitingOpen ∧ f.methodId = some .channelClose
  · have closed : channel.takes n f = (newChannel n, none) := by
      unfold takes
      rw [if_neg closes.1, if_pos closes.2]
    rw [closed]
    refine iff_of_true (canFinish_newChannel n) ?_
    cases f with
    | method => trivial
    | _ => cases closes.2
  cases state : channel.state with
  | waitingOpen =>
      have none := tidy (by simp [state])
      refine idle (by simp [state]) (by simp [state]) ?_
      unfold takes
      rw [if_pos state]
      split
      · exact canFinish_idle (by simp) none
      · exact can
  | opened =>
      have none := tidy (by simp [state])
      refine idle (by simp [state]) (by simp [state]) ?_
      unfold takes
      rw [if_neg (by simp [state]), if_neg (fun close => closes ⟨by simp [state], close⟩)]
      simp only [state]
      split
      · unfold published
        split <;> exact canFinish_idle (by simp) none
      · exact can
  | waitingHeader =>
      cases f with
      | header h =>
          rw [takes_header state]
          let begun : Channel := { channel with
            state := .waitingBody, onGoingMessage := some (Message.make h) }
          have can' : begun.CanFinish ↔ (Message.make h).content.length < h.bodySize :=
            canFinish_collecting rfl rfl
          refine can'.trans ?_
          simp [KeepsToSize, state, Message.make]
      | _ =>
          rw [takes_passed (.inl ⟨state, by simp⟩) fun close => closes ⟨by simp [state], close⟩]
          exact iff_of_true can (by simp [KeepsToSize, state])
  | waitingBody =>
      cases f with
      | body p =>
          rw [takes_body state]
          exact collects_canFinish state can destined p
      | _ =>
          rw [takes_passed (.inr ⟨state, by simp⟩) fun close => closes ⟨by simp [state], close⟩]
          exact iff_of_true can (by simp [KeepsToSize, state])

end

end Channel

/-! ## Publishes read off the stream -/

/-- A basic.publish that has been read knows its exchange. -/
theorem publish_named {data : Bytes} {f : FrameValue} (decoded : readFrame data = .ok (some f))
    (publish : f.methodId = some .basicPublish) :
    ∃ exchange, f.argStr .exchangeName = .ok exchange := by
  obtain ⟨exchange, named, _⟩ := read_short decoded publish
    (show ArgName.exchangeName ∈ MethodId.basicPublish.shortFields by decide)
  exact ⟨exchange, named⟩

namespace Channel

section
variable {channel : Channel} {n : Nat} {f : FrameValue}

theorem published_exchange {exchange : Str} (known : f.argStr .exchangeName = .ok exchange) :
    (channel.published f).exchange = some exchange := by
  unfold published
  rw [known]
  cases f.argStr .routingKey <;> rfl

theorem takes_destined (destined : channel.Destined)
    (named : f.methodId = some .basicPublish → ∃ exchange, f.argStr .exchangeName = .ok exchange) :
    (channel.takes n f).1.Destined := by
  unfold takes
  split
  · split
    · intro state
      simp at state
    · exact destined
  · split
    · exact destined_newChannel n
    · split
      · split
        · rename_i publish
          obtain ⟨exchange, known⟩ := named publish
          exact fun _ => ⟨exchange, published_exchange known⟩
        · exact destined
      · rename_i state _
        exact fun _ => destined (.inl state)
      · rename_i state _
        have known := destined (.inr state)
        unfold collects
        split
        · exact destined
        · dsimp only
          split
          · split
            · exact fun _ => known
            · intro state
              simp at state
          · exact fun _ => known
      · exact destined

end

end Channel

/-! ## Frames -/

/-- On connections that have not been closed, every channel can finish its message. -/
def Broker.CanFinish (b : Broker) : Prop :=
  ∀ c n, b.isClosing c = false → (b.channel c n).CanFinish

/-- A frame of a channel of a connection that has not been closed keeps to the announced size. -/
def KeepsToSize (b : Broker) : Turn → Prop
  | .frame c f => b.isClosing c = false → f.channelNumber ≠ 0 →
      (b.channel c f.channelNumber).KeepsToSize f
  | _ => True

instance decidableKeepsToSize (b : Broker) (t : Turn) : Decidable (KeepsToSize b t) :=
  match t with
  | .frame c f => inferInstanceAs (Decidable (b.isClosing c = false → f.channelNumber ≠ 0 →
      (b.channel c f.channelNumber).KeepsToSize f))
  | .start _ => isTrue trivial
  | .lost _ => isTrue trivial
  | .http _ => isTrue trivial

/-- What a run keeps beside that. -/
structure Receiving (b : Broker) : Prop where
  integral : b.state.Integral
  tidy : b.Tidy
  destined : ∀ c n, b.isClosing c = false → (b.channel c n).Destined

section
variable {env : Env} {c : ConnId} {n : Nat} {f : FrameValue} {b : Broker}

theorem setChannel_closing (channel : Channel) (b : Broker) :
    (after (setChannel c n channel) b).isClosing c = b.isClosing c := by
  have moved : (after (setChannel c n channel) b).trackers c = _ := b.setTracker_self c _
  rw [Broker.isClosing, moved]
  rfl

theorem received_closing : (b.received c f).isClosing c = b.isClosing c := by
  unfold Broker.received
  split
  · rfl
  · rw [Broker.isClosing, Broker.setTracker_self]
    rfl

variable (env) in
/-- A message for an exchange that is not declared stays with its channel, and the connection is
closed. -/
theorem refused_turn {p : Body} {message : Message} {exchange : Str}
    (hn : p.channelNumber ≠ 0) (state : (b.channel c p.channelNumber).state = .waitingBody)
    (named : (b.channel c p.channelNumber).exchange = some exchange)
    (ongoing : (b.channel c p.channelNumber).onGoingMessage = some message)
    (complete : (message.addContent p.content).isComplete = true)
    (undeclared : b.state.exchanges.contains exchange = false) :
    ∃ b', Turn.step env b (.frame c (.body p)) = after (close c) b' ∧
      b'.channel c p.channelNumber = { b.channel c p.channelNumber with
        exchange := some exchange, onGoingMessage := some (message.addContent p.content) } := by
  let collected : Channel := { b.channel c p.channelNumber with
    exchange := some exchange, onGoingMessage := some (message.addContent p.content) }
  let b1 := after (setChannel c p.channelNumber collected) (b.received c (.body p))
  let op : Call := stored ⟨exchange, message.headers, message.content ++ p.content⟩
  have state1 : b1.state = b.state := b.received_state
  have ran : op.run env b1.state = .ok false b1.state := by
    rw [state1]
    exact State.storeMessage_refused env undeclared _ _
  have entered : setChannel c p.channelNumber collected (b.received c (.body p)) =
      .ok () b1 := rfl
  have called : call env c op b1 = .ok false { b1 with
      trace := b1.trace ++ [.call c op (some false)] } := by
    simp only [call, ran]
  have moved : after (dispatch env c (.body p)) b =
      after (treatFrameOn env c (b.channel c p.channelNumber) (.body p)) (b.received c (.body p)) :=
    after_dispatch_channel hn
  refine ⟨{ b1 with trace := b1.trace ++ [.call c op (some false)] }, ?_, setChannel_channel _ _⟩
  rw [Turn.step, moved, treatFrameOn_last state named ongoing complete,
    after_congr (bind_ok entered), after_congr (bind_ok called)]
  rfl

variable (env) in
/-- On a connection that is not closed by it, a frame does to its channel what it does to that
channel alone. -/
theorem frame_moves (hn : f.channelNumber ≠ 0) (integral : b.state.Integral) :
    (Turn.step env b (.frame c f)).isClosing c = true ∨
      (Turn.step env b (.frame c f)).channel c f.channelNumber =
        ((b.channel c f.channelNumber).takes f.channelNumber f).1 := by
  by_cases declared : ∀ e headers data,
      ((b.channel c f.channelNumber).takes f.channelNumber f).2 = some (e, headers, data) →
        b.state.exchanges.contains e = true
  · exact .inr (frame_takes env rfl hn integral declared).1
  · push Not at declared
    obtain ⟨e, headers, data, stores, undeclared⟩ := declared
    obtain ⟨state, named, p, message, rfl, ongoing, complete⟩ := Channel.takes_stores stores
    obtain ⟨b', closed, _⟩ := refused_turn env hn state named ongoing complete (by simpa using undeclared)
    rw [closed]
    exact .inl (isClosing_close _)

variable (env) in
/-- A frame that does not keep to the announced size leaves the connection as it is. -/
theorem exceeding_stays (hn : f.channelNumber ≠ 0) (live : b.isClosing c = false)
    (can : (b.channel c f.channelNumber).CanFinish)
    (exceeds : ¬ (b.channel c f.channelNumber).KeepsToSize f) :
    (Turn.step env b (.frame c f)).isClosing c = false := by
  cases f with
  | header h =>
      have state : (b.channel c h.channelNumber).state = .waitingHeader :=
        (Classical.not_imp.mp exceeds).1
      have moved : after (dispatch env c (.header h)) b =
          after (treatFrameOn env c (b.channel c h.channelNumber) (.header h))
            (b.received c (.header h)) := after_dispatch_channel hn
      rw [Turn.step, moved, treatFrameOn_waitingHeader state, setChannel_closing,
        received_closing]
      exact live
  | body p =>
      obtain ⟨state, long⟩ := Classical.not_imp.mp exceeds
      have state : (b.channel c p.channelNumber).state = .waitingBody := state
      obtain ⟨message, ongoing, short⟩ := can.more state
      have ongoing : (b.channel c p.channelNumber).onGoingMessage = some message := ongoing
      have more : (message.addContent p.content).isComplete = false := by
        have kept : ¬ message.content.length + p.content.length ≤ message.headers.bodySize := by
          intro kept
          refine long fun message' ongoing' => ?_
          cases Option.some.inj (ongoing.symm.trans ongoing')
          exact kept
        simp only [Message.isComplete, Message.addContent, List.length_append, decide_eq_false_iff_not]
        omega
      have moved : after (dispatch env c (.body p)) b =
          after (treatFrameOn env c (b.channel c p.channelNumber) (.body p))
            (b.received c (.body p)) := after_dispatch_channel hn
      rw [Turn.step, moved, treatFrameOn_more state ongoing more, after_bind_pure,
        setChannel_closing, received_closing]
      exact live
  | _ => exact absurd trivial exceeds

/-- In a turn nothing but the frame of a channel changes what there is to say about it. -/
theorem turn_channel_cases (env : Env) (b : Broker) (t : Turn) (integral : b.state.Integral)
    (c : ConnId) (n : Nat) (live : (Turn.step env b t).isClosing c = false) :
    (Turn.step env b t).channel c n = b.channel c n ∨
      ∃ f, t = .frame c f ∧ f.channelNumber = n ∧ n ≠ 0 ∧
        (Turn.step env b t).channel c n = ((b.channel c n).takes n f).1 := by
  cases on : t.frameOn c n with
  | none => exact .inl (turn_channel on)
  | some f =>
      obtain ⟨rfl, rfl⟩ := Turn.frameOn_eq_some on
      by_cases hn : f.channelNumber = 0
      · have same : SameChannels c b (Turn.step env b (.frame c f)) := handshake_sameChannels hn c
        left
        unfold Broker.channel
        rw [same]
      · rcases frame_moves env (c := c) hn integral with closed | moved
        · rw [closed] at live
          cases live
        · exact .inr ⟨f, rfl, rfl, hn, moved⟩

theorem turn_live {t : Turn} (live : (Turn.step env b t).isClosing c = false) :
    b.isClosing c = false := by
  by_contra closing
  rw [turn_closing env b t (by simpa using closing)] at live
  cases live

variable (env) in
theorem receiving_turn (t : Turn) (decoded : t.Decoded) (h : Receiving b) :
    Receiving (Turn.step env b t) where
  integral := integral_turn env b t h.integral
  tidy := tidy_turn env b t h.tidy
  destined := by
    intro c n live
    have before := h.destined c n (turn_live live)
    rcases turn_channel_cases env b t h.integral c n live with same | ⟨f, rfl, _, _, moved⟩
    · rw [same]
      exact before
    · obtain ⟨data, read⟩ := decoded
      rw [moved]
      exact Channel.takes_destined before (publish_named read)

variable (env) in
/-- A turn leaves every channel so that it can finish exactly if its frame keeps to the announced
size. -/
theorem turn_canFinish_iff (t : Turn) (h : Receiving b) (can : b.CanFinish) :
    (Turn.step env b t).CanFinish ↔ KeepsToSize b t := by
  constructor
  · intro after'
    cases t with
    | frame c f =>
        intro live hn
        by_contra exceeds
        have live' := exceeding_stays env hn live (can c _ live) exceeds
        rcases frame_moves env (c := c) hn h.integral with closed | moved
        · rw [live'] at closed
          cases closed
        · have can' := after' c f.channelNumber live'
          rw [moved] at can'
          exact exceeds ((Channel.takes_canFinish (h.tidy.channel c _) (can c _ live)
            (h.destined c _ live) f).mp can')
    | _ => trivial
  · intro keeps c n live
    have live' := turn_live live
    rcases turn_channel_cases env b t h.integral c n live with same | ⟨f, rfl, rfl, hn, moved⟩
    · rw [same]
      exact can c n live'
    · rw [moved]
      exact (Channel.takes_canFinish (h.tidy.channel c _) (can c _ live') (h.destined c _ live')
        f).mpr (keeps live' hn)

theorem receiving_init (draws : Nat → Draw) : Receiving (Broker.init env draws) where
  integral := State.integral_init env
  tidy := fun _ _ _ no => by cases no
  destined := fun _ n _ => Channel.destined_newChannel n

theorem canFinish_init (draws : Nat → Draw) : (Broker.init env draws).CanFinish :=
  fun _ n _ => Channel.canFinish_newChannel n

theorem run_canFinish_iff {turns : List Turn} (decoded : ∀ t ∈ turns, t.Decoded)
    (h : Receiving b) (can : b.CanFinish) :
    Runs.Along (Turn.step env) (fun b t => (Turn.step env b t).CanFinish) b turns ↔
      Runs.Along (Turn.step env) KeepsToSize b turns := by
  induction turns generalizing b with
  | nil => exact Iff.rfl
  | cons t rest ih =>
      have first := turn_canFinish_iff env t h can
      have kept := receiving_turn env t (decoded t List.mem_cons_self) h
      have later := ih (fun t' ht' => decoded t' (List.mem_cons_of_mem t ht')) kept
      constructor
      · intro along
        exact ⟨first.mp along.1, (later along.1).mp along.2⟩
      · intro along
        have here := first.mpr along.1
        exact ⟨here, (later here).mpr along.2⟩

end

/-- In every run, every channel of a connection that has not been closed can finish its message
in every state, exactly as long as no header announces an empty body and no body carries more
than what is left of it. -/
theorem channels_finish_iff (env : Env) (draws : Nat → Draw) (actions : List Action) :
    Runs.Along (Turn.step env) (fun b t => (Turn.step env b t).CanFinish)
        (Broker.init env draws) (Server.turnsOf env (Server.init env draws) actions) ↔
      Runs.Along (Turn.step env) KeepsToSize
        (Broker.init env draws) (Server.turnsOf env (Server.init env draws) actions) :=
  run_canFinish_iff (Server.turnsOf_decoded env _ _) (receiving_init draws) (canFinish_init draws)

/-- A publish to the default exchange and its content header. -/
def announce (bodySize : Nat) : Bytes :=
  methodBytes 1 60 40 "Bssbb" [.int 0, .str [], .str (str "q"), .bool false, .bool false] ++
    [2, 0, 1] ++ beBytes 4 14 ++ [0, 60, 0, 0] ++ beBytes 8 bodySize ++ [0, 0, 0xCE]

/-- A channel that waits for the body of an empty message, which no frame completes. -/
theorem empty_body_never_finishes :
    ¬ Runs.Along (Turn.step guestEnv) (fun b t => (Turn.step guestEnv b t).CanFinish)
      (Broker.init guestEnv fun _ => ⟨7, by decide⟩)
      (Server.turnsOf guestEnv (Server.init guestEnv fun _ => ⟨7, by decide⟩)
        (logIn 0 ++ [.dataReceived 0 (announce 0)])) := by
  rw [run_canFinish_iff (Server.turnsOf_decoded _ _ _) (receiving_init _) (canFinish_init _)]
  decide +kernel

end MockAmqp
