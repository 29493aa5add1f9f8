import MockAmqp.Finishing
import MockAmqp.Replies
import MockAmqp.Serving

/-!
# The channels of replies and deliveries

What is answered on a channel, and what is delivered to its consumers, goes out with the number of
that channel, as long as the number fits one byte.
-/

namespace MockAmqp
open Exec

/-! ## Replies -/

/-- The channel that a reply to a request on a channel is for. -/
def Reply.channel : Reply → Option Nat
  | channelOpenOk n => some n
  | channelCloseOk n => some n
  | exchangeDeclareOk n => some n
  | queueDeclareOk n _ _ _ => some n
  | queueBindOk n => some n
  | basicQosOk n => some n
  | basicConsumeOk n _ => some n
  | basicCancelOk n _ => some n
  | heartbeat | connectionStart | connectionCloseOk | connectionTune | connectionOk => none

/-- Its texts are short and its numbers fit. -/
def Reply.Fits : Reply → Prop
  | queueDeclareOk _ queueName messages consumers =>
      Short queueName ∧ messages < 2 ^ 32 ∧ consumers < 2 ^ 32
  | basicConsumeOk _ consumerTag => Short consumerTag
  | basicCancelOk _ consumerTag => Short consumerTag
  | _ => True

section
variable {r : Reply} {n : Nat}

theorem Reply.send_sendsOn (channel : r.channel = some n) (fits : r.Fits) (small : n < 256) :
    SendsOn n r.send := by
  have bare : ∀ classId methodId, SendsOn n (sendMethod n classId methodId []) :=
    fun _ _ => sendMethod_sendsOn small (by decide)
  cases r <;> cases channel
  case channelOpenOk =>
    have encoded : dumps "S".toList [.str (str "42")] = .ok [0, 0, 0, 2, 0x34, 0x32] := rfl
    show SendsOn n (sendMethodArgs n 20 11 "S" [.str (str "42")])
    unfold sendMethodArgs
    rw [encoded, attempt_bind_ok]
    exact sendMethod_sendsOn small (by decide)
  case queueDeclareOk queueName messages consumers =>
    exact sendMethodArgs_sendsOn small ⟨allShort rfl, by decide, by simp [BitsFit]⟩
      (.cons (.shortstr fits.1) (.cons (.long fits.2.1) (.cons (.long fits.2.2) .nil)))
  case basicConsumeOk | basicCancelOk =>
    exact sendMethodArgs_sendsOn small ⟨allShort rfl, by decide, by simp [BitsFit]⟩
      (.cons (.shortstr fits) .nil)
  all_goals exact bare _ _

/-- A reply on a channel with a larger number raises. -/
theorem Reply.send_large (channel : r.channel = some n) (large : 256 ≤ n) (t : Transport) :
    ∃ e, r.send t = .error e t := by
  have bare : ∀ classId methodId, ∃ e, sendMethod n classId methodId [] t = .error e t := by
    intro classId methodId
    unfold sendMethod
    rw [frameStart_large large]
    exact ⟨_, rfl⟩
  cases r <;> cases channel
  case channelOpenOk | queueDeclareOk | basicConsumeOk | basicCancelOk =>
    exact sendMethodArgs_large large _ _ _ _ t
  all_goals exact bare _ _

/-- A reply goes out on its channel exactly if the channel number fits one byte. -/
theorem Reply.sendsOn_iff (channel : r.channel = some n) (fits : r.Fits) :
    SendsOn n r.send ↔ n < 256 := by
  constructor
  · rintro ⟨raw, _, sent⟩
    by_contra large
    obtain ⟨e, failed⟩ := r.send_large channel (Nat.not_lt.mp large) { written := [], closing := false }
    rw [sent] at failed
    cases failed
  · exact Reply.send_sendsOn channel fits

end

/-! ## Answers -/

section
variable {env : Env} {b : Broker} {c : ConnId} {f : FrameValue} {r : Reply}

/-- An operation that is asked for on a channel is answered there. -/
theorem request_reply {data : Bytes} (decoded : readFrame data = .ok (some f)) {op : Call} {ok : Bool}
    (asked : f.request c = .ok op) (answer : op.reply f.channelNumber ok = some r) :
    r.channel = some f.channelNumber ∧ r.Fits := by
  unfold FrameValue.request at asked
  split at asked
  · obtain ⟨_, _, asked⟩ := except_bind_eq_ok.mp asked
    obtain ⟨_, _, asked⟩ := except_bind_eq_ok.mp asked
    cases asked
    cases answer
    exact ⟨rfl, trivial⟩
  · rename_i method
    obtain ⟨queueName, named, asked⟩ := except_bind_eq_ok.mp asked
    cases asked
    cases answer
    exact ⟨rfl, argStr_short decoded method (by decide) named, by decide, by decide⟩
  · obtain ⟨_, _, asked⟩ := except_bind_eq_ok.mp asked
    obtain ⟨_, _, asked⟩ := except_bind_eq_ok.mp asked
    cases asked
    cases ok <;> cases answer
    exact ⟨rfl, trivial⟩
  · rename_i method
    obtain ⟨consumerTag, named, asked⟩ := except_bind_eq_ok.mp asked
    obtain ⟨_, _, asked⟩ := except_bind_eq_ok.mp asked
    cases asked
    cases answer
    exact ⟨rfl, argStr_short decoded method (by decide) named⟩
  · obtain ⟨_, _, asked⟩ := except_bind_eq_ok.mp asked
    cases asked
    cases answer
  · obtain ⟨_, _, asked⟩ := except_bind_eq_ok.mp asked
    obtain ⟨_, _, asked⟩ := except_bind_eq_ok.mp asked
    cases asked
    cases answer
  · cases asked

theorem acknowledged_reply {data : Bytes} (decoded : readFrame data = .ok (some f))
    (answer : f.acknowledged = some r) : r.channel = some f.channelNumber ∧ r.Fits := by
  unfold FrameValue.acknowledged at answer
  split at answer
  · cases answer
    exact ⟨rfl, trivial⟩
  · rename_i method
    cases argued : f.argStr .consumerTag with
    | error e =>
        rw [argued] at answer
        cases answer
    | ok consumerTag =>
        rw [argued] at answer
        cases answer
        exact ⟨rfl, argStr_short decoded method (by decide) argued⟩
  · cases answer

/-- What is answered on a channel is for that channel, and fits. -/
theorem answer_channel {data : Bytes} (decoded : readFrame data = .ok (some f))
    (hn : f.channelNumber ≠ 0) (number : (b.channel c f.channelNumber).number = f.channelNumber)
    (answer : b.answer env c f = some r) : r.channel = some f.channelNumber ∧ r.Fits := by
  unfold Broker.answer at answer
  cases asks : b.asks c f with
  | some op =>
      rw [asks] at answer
      obtain ⟨ok, _, answer⟩ := Option.bind_eq_some_iff.mp answer
      have on : (b.channel c f.channelNumber).asks c f = some op := (if_pos hn).symm.trans asks
      rcases Channel.asks_cases on with asked | ⟨_, _, _, rfl⟩
      · exact request_reply decoded asked answer
      · cases answer
  | none =>
      rw [asks] at answer
      have on : (b.channel c f.channelNumber).acknowledges f = some r := by
        cases f with
        | heartBeat => exact absurd rfl hn
        | _ => exact (if_pos hn).symm.trans answer
      unfold Channel.acknowledges at on
      split at on
      · split at on
        · cases on
          exact ⟨congrArg some number, trivial⟩
        · cases on
      · split at on
        · cases on
          exact ⟨rfl, trivial⟩
        · split at on
          · exact acknowledged_reply decoded on
          · cases on

end

/-! ## Channel numbers -/

/-- Every channel has its own number. -/
def Broker.Numbered (b : Broker) : Prop := ∀ c n, (b.channel c n).number = n

theorem takes_number {channel : Channel} {n : Nat} (number : channel.number = n) (f : FrameValue) :
    (channel.takes n f).1.number = n := by
  unfold Channel.takes
  split
  · split
    · exact number
    · exact number
  · split
    · rfl
    · split
      · split
        · unfold Channel.published
          split <;> exact number
        · exact number
      · exact number
      · unfold Channel.collects
        split
        · exact number
        · dsimp only
          split
          · split
            · exact number
            · exact number
          · exact number
      · exact number

section
variable {env : Env} {b : Broker} {c : ConnId} {f : FrameValue}

theorem close_channel (b : Broker) (n : Nat) : (after (close c) b).channel c n = b.channel c n := by
  have same : SameChannels c b (after (close c) b) := sameChannels_onTransport c _ b
  unfold Broker.channel
  rw [same]

theorem numbered_frame (numbered : b.Numbered) (integral : b.state.Integral)
    (hn : f.channelNumber ≠ 0) :
    ((Turn.step env b (.frame c f)).channel c f.channelNumber).number = f.channelNumber := by
  have number := numbered c f.channelNumber
  by_cases declared : ∀ e headers data,
      ((b.channel c f.channelNumber).takes f.channelNumber f).2 = some (e, headers, data) →
        b.state.exchanges.contains e = true
  · rw [(frame_takes env rfl hn integral declared).1]
    exact takes_number number f
  · push Not at declared
    obtain ⟨e, headers, data, stores, undeclared⟩ := declared
    obtain ⟨state, named, p, message, rfl, ongoing, complete⟩ := Channel.takes_stores stores
    obtain ⟨b', closed, kept⟩ :=
      refused_turn env hn state named ongoing complete (by simpa using undeclared)
    rw [closed, close_channel]
    exact (congrArg Channel.number kept).trans number

variable (env) in
theorem numbered_turn (numbered : b.Numbered) (integral : b.state.Integral) (t : Turn) :
    (Turn.step env b t).Numbered := by
  intro c n
  cases on : t.frameOn c n with
  | none =>
      rw [turn_channel on]
      exact numbered c n
  | some f =>
      obtain ⟨rfl, rfl⟩ := Turn.frameOn_eq_some on
      by_cases hn : f.channelNumber = 0
      · have same : SameChannels c b (Turn.step env b (.frame c f)) := handshake_sameChannels hn c
        unfold Broker.channel
        rw [same]
        exact numbered c f.channelNumber
      · exact numbered_frame numbered integral hn

end

theorem numbered_init (env : Env) (draws : Nat → Draw) : (Broker.init env draws).Numbered :=
  fun _ _ => rfl

/-! ## What is written -/

/-- A request on a channel that is answered gets one frame with the number of the channel, and
writing it does not raise. -/
def AnsweredOnChannel (env : Env) (b : Broker) (c : ConnId) (f : FrameValue) : Prop :=
  f.channelNumber ≠ 0 → ∀ r, b.answer env c f = some r → ∃ raw : RawFrame,
    raw.channelNumber.toNat = f.channelNumber ∧ (∀ t, r.send t = .ok () (t.put raw.bytes)) ∧
    ((Turn.step env b (.frame c f)).trackers c).transport.written =
      (b.trackers c).transport.written ++ raw.bytes

/-- The frame registers the consumer that a push goes to. -/
structure FrameValue.Registers (f : FrameValue) (p : Push) : Prop where
  method : f.methodId = some .basicConsume
  channel : f.channelNumber = p.channelNumber
  tag : f.argStr .consumerTag = .ok p.consumerTag
  queue : f.argStr .queueName = .ok p.queue

/-- A delivery to a consumer registered in an earlier turn goes out in three frames, with the
number of the channel that the consumer was registered on, and writing them does not raise. -/
def DeliveredOnChannel (env : Env) (before : List Turn) (b : Broker) (t : Turn) (p : Push) : Prop :=
  (∃ f, .frame p.protocol f ∈ before ∧ f.Registers p) ∧ ∃ deliver header body : RawFrame,
    (deliver.channelNumber.toNat = p.channelNumber ∧ header.channelNumber.toNat = p.channelNumber ∧
      body.channelNumber.toNat = p.channelNumber) ∧
    (∀ t, p.send t = .ok () (t.put (deliver.bytes ++ header.bytes ++ body.bytes))) ∧
    ((Turn.step env b t).trackers p.protocol).transport.written =
      (b.trackers p.protocol).transport.written ++ (deliver.bytes ++ header.bytes ++ body.bytes)

/-- What a turn writes for the channels, after the turns `before`, goes out on the right one. -/
def RightChannel (env : Env) (before : List Turn) (b : Broker) (t : Turn) : Prop :=
  (∀ c f, t = .frame c f → AnsweredOnChannel env b c f) ∧
    ∀ p ∈ t.pushing env b, DeliveredOnChannel env before b t p

/-- Channel numbers fit one byte, and what is delivered can be encoded. -/
def FitsChannel (env : Env) (b : Broker) (t : Turn) : Prop :=
  (∀ c f, t = .frame c f → f.channelNumber ≠ 0 → (b.answer env c f).isSome = true →
    f.channelNumber < 256) ∧
    ∀ p ∈ t.pushing env b, p.channelNumber < 256 ∧ p.encodes = true

section
variable {env : Env} {b : Broker} {c : ConnId} {f : FrameValue} {r : Reply}

theorem answered_written {bytes : Bytes} (answer : b.answer env c f = some r)
    (encoded : r.encoded = some bytes) :
    ((Turn.step env b (.frame c f)).trackers c).transport.written =
      (b.trackers c).transport.written ++ bytes := by
  have put : ∀ v : View, (v.answered c f.channelNumber (some r)).written c = v.written c ++ bytes := by
    intro v
    simp only [View.answered, encoded, Function.update_self]
  have seen := congrArg (fun v : View => v.written c) (dispatch_view env c f b)
  refine seen.trans ?_
  unfold Broker.answer at answer
  unfold View.served
  cases asks : b.asks c f with
  | some op =>
      simp only [asks] at answer
      have same : (op.result env b.view.state).bind (fun ok => op.reply f.channelNumber ok) = some r :=
        answer
      simp only [same]
      exact put _
  | none =>
      simp only [asks] at answer
      simp only [answer]
      exact put _

theorem answeredOnChannel_iff {data : Bytes} (decoded : readFrame data = .ok (some f))
    (numbered : b.Numbered) : AnsweredOnChannel env b c f ↔ (f.channelNumber ≠ 0 →
      (b.answer env c f).isSome = true → f.channelNumber < 256) := by
  refine imp_congr_right fun hn => ?_
  have known : ∀ r, b.answer env c f = some r →
      (SendsOn f.channelNumber r.send ↔ f.channelNumber < 256) := by
    intro r answer
    obtain ⟨channel, fits⟩ := answer_channel decoded hn (numbered c _) answer
    exact Reply.sendsOn_iff channel fits
  constructor
  · intro answered some
    obtain ⟨r, answer⟩ := Option.isSome_iff_exists.mp some
    obtain ⟨raw, number, sent, _⟩ := answered r answer
    exact (known r answer).mp ⟨raw, number, sent⟩
  · intro small r answer
    obtain ⟨raw, number, sent⟩ := (known r answer).mpr (small (by rw [answer]; rfl))
    refine ⟨raw, number, sent, answered_written answer ?_⟩
    simp only [Reply.encoded, sent, Transport.put_written, List.nil_append]

end

/-! ## Deliveries -/

section
variable {env : Env} {b : Broker} {t : Turn} {p : Push} {queueName exchangeName : Str}
  {pub : Publication}

theorem nextPush_registered (next : b.nextPush queueName pub exchangeName = some p) :
    p.queue = queueName ∧ p.exchangeName = exchangeName ∧
      p.consumer ∈ b.state.consumersOf queueName ∧ p.deliveryTag < 2 ^ 64 := by
  unfold Broker.nextPush at next
  dsimp only at next
  split at next
  · rename_i consumer _ _ left _
    cases next
    have sub := (b.state.consumersOf queueName).dropWhile_sublist
      (p := fun p => b.isClosing p.2.protocol)
    exact ⟨rfl, rfl, sub.subset (left ▸ List.mem_cons_self), draw_lt _⟩
  · cases next

/-- The push of a turn goes to a registered consumer, and its names are short. -/
theorem pushing_registered (short : b.state.ShortNames) (pushing : t.pushing env b = some p) :
    p.consumer ∈ b.state.consumersOf p.queue ∧ Short p.exchangeName ∧ p.deliveryTag < 2 ^ 64 := by
  unfold Turn.pushing at pushing
  split at pushing
  · rename_i exchangeName pub
    split at pushing
    · split at pushing
      · cases pushing
      · rename_i queueName rest bound
        obtain ⟨queue, exchange, registered, drawn⟩ := nextPush_registered pushing
        have isBound : b.state.isBound exchangeName queueName = true := by
          rw [← State.mem_boundQueues_iff (e := exchangeName), bound]
          exact List.mem_cons_self
        rw [queue, exchange]
        exact ⟨registered, short.bound _ _ isBound, drawn⟩
    · cases pushing
  · split at pushing
    · obtain ⟨queue, exchange, registered, drawn⟩ := nextPush_registered pushing
      rw [queue, exchange]
      exact ⟨registered, dummy_short, drawn⟩
    · cases pushing
  · cases pushing

/-- The three frames of a push go out on its channel exactly if the channel number fits one byte
and the content can be encoded. -/
theorem Push.send_onChannel_iff (tag : Short p.consumerTag) (name : Short p.exchangeName)
    (drawn : p.deliveryTag < 2 ^ 64) :
    (∃ deliver header body : RawFrame, (deliver.channelNumber.toNat = p.channelNumber ∧
        header.channelNumber.toNat = p.channelNumber ∧ body.channelNumber.toNat = p.channelNumber) ∧
        ∀ t, p.send t = .ok () (t.put (deliver.bytes ++ header.bytes ++ body.bytes))) ↔
      p.channelNumber < 256 ∧ p.encodes = true := by
  constructor
  · rintro ⟨deliver, header, body, _, sent⟩
    have once := sent { written := [], closing := false }
    rw [p.send_eq] at once
    by_cases small : p.channelNumber < 256
    · refine ⟨small, ?_⟩
      obtain ⟨raw, _, delivered⟩ := Push.deliver_sendsOn small tag name drawn
      rw [bind_ok (delivered _)] at once
      cases encodes : p.encodes with
      | true => rfl
      | false =>
          obtain ⟨_, ⟨e, failed⟩, _⟩ := Push.content_cut small encodes
          rw [failed] at once
          cases once
    · rw [bind_apply, Push.deliver_refused (Nat.not_lt.mp small) tag name drawn] at once
      cases once
  · rintro ⟨small, encodes⟩
    obtain ⟨raw, number, delivered⟩ := Push.deliver_sendsOn small tag name drawn
    obtain ⟨data, arguments, bytes, fits, encoded, fits'⟩ := Push.encodes_iff.mp encodes
    let header := smallFrame 2 p.channelNumber arguments fits'
    let body := smallFrame 3 p.channelNumber data fits
    refine ⟨raw, header, body, ⟨number, smallFrame_number small, smallFrame_number small⟩, ?_⟩
    intro t
    rw [p.send_eq, bind_ok (delivered t), Push.content_sent small bytes fits encoded fits',
      Transport.put_put, List.append_assoc]

/-- The push of a turn is what the turn writes. -/
theorem pushing_written (pushing : t.pushing env b = some p) :
    ((Turn.step env b t).trackers p.protocol).transport =
      after p.send (b.trackers p.protocol).transport := by
  cases t with
  | http op => exact (http_pushesJust env b op).sent p pushing
  | _ => cases pushing

theorem consumer_added {q : Str} {consumer : Str × Consumer}
    (mem : consumer ∈ (Turn.step env b t).state.consumersOf q) : consumer ∈ b.state.consumersOf q ∨
      ∃ f, t = .frame consumer.2.protocol f ∧ f.methodId = some .basicConsume ∧
        f.channelNumber = consumer.2.channelNumber ∧ f.argStr .consumerTag = .ok consumer.1 ∧
        f.argStr .queueName = .ok q := by
  cases t with
  | start c =>
      rw [Turn.start_state] at mem
      exact .inl mem
  | lost c => exact .inl mem
  | http op => exact .inl ((http_after env op b).old q consumer mem)
  | frame c f =>
      rcases frame_consumers env c f b with same | ⟨n, tag, queue, consuming, state⟩
      · exact .inl (same q ▸ mem)
      · obtain ⟨_, method, _, tag', queue', named, asked, same⟩ := consuming_frame consuming
        cases same
        rw [Turn.step, state] at mem
        cases declared : b.state.queues.get? queue with
        | none =>
            have unchanged : (b.state.registerConsumer c tag queue f.channelNumber).2 = b.state := by
              simp only [State.registerConsumer, declared]
            rw [unchanged] at mem
            exact .inl mem
        | some q' =>
            rcases (State.mem_registerConsumer declared).mp mem with ⟨rfl, rfl⟩ | ⟨_, old⟩
            · exact .inr ⟨f, rfl, method, rfl, named, asked⟩
            · exact .inl old

end

/-- Every consumer was registered by a frame of its connection. -/
theorem consumer_registered (env : Env) (draws : Nat → Draw) {turns : List Turn} {p : Push}
    (mem : p.consumer ∈ (Runs.run (Turn.step env) (Broker.init env draws) turns).state.consumersOf
      p.queue) : ∃ f, .frame p.protocol f ∈ turns ∧ f.Registers p := by
  have one : ∀ b t, p.consumer ∈ (Turn.step env b t).state.consumersOf p.queue →
      p.consumer ∈ b.state.consumersOf p.queue ∨ ∃ f, t = .frame p.protocol f ∧ f.Registers p := by
    intro b t here
    rcases consumer_added here with old | ⟨f, rfl, method, channel, tag, queue⟩
    · exact .inl old
    · exact .inr ⟨f, rfl, method, channel, tag, queue⟩
  rcases Runs.provenance (Q := fun b : Broker => p.consumer ∈ b.state.consumersOf p.queue) one mem
    with no | ⟨t, member, f, rfl, registers⟩
  · cases no
  · exact ⟨f, member, registers⟩

/-- What runs keep: the channels have their own numbers, and names are short. -/
structure Broker.Addressed (b : Broker) : Prop where
  integral : b.state.Integral
  short : b.state.ShortNames
  numbered : b.Numbered

theorem addressed_run (env : Env) (draws : Nat → Draw) {turns : List Turn}
    (decoded : ∀ t ∈ turns, t.Decoded) :
    (Runs.run (Turn.step env) (Broker.init env draws) turns).Addressed := by
  induction turns using List.reverseRecOn with
  | nil => exact ⟨State.integral_init env, shortNames_init env, numbered_init env draws⟩
  | append_singleton turns t ih =>
      obtain ⟨integral, short, numbered⟩ := ih fun u hu => decoded u (List.mem_append_left _ hu)
      rw [Runs.run_append]
      have last := decoded t (List.mem_append_right _ List.mem_cons_self)
      exact ⟨integral_turn env _ t integral, shortNames_turn env integral short t last,
        numbered_turn env numbered integral t⟩

theorem rightChannel_iff {env : Env} {before : List Turn} {b : Broker} {t : Turn}
    (decoded : t.Decoded) (addressed : b.Addressed)
    (registered : ∀ p : Push, p.consumer ∈ b.state.consumersOf p.queue →
      ∃ f, .frame p.protocol f ∈ before ∧ f.Registers p) :
    RightChannel env before b t ↔ FitsChannel env b t := by
  refine and_congr ?_ ?_
  · refine forall_congr' fun c => forall_congr' fun f => forall_congr' fun same => ?_
    subst same
    obtain ⟨data, read⟩ := decoded
    exact answeredOnChannel_iff read addressed.numbered
  · refine forall_congr' fun p => forall_congr' fun pushing => ?_
    obtain ⟨member, name, drawn⟩ := pushing_registered addressed.short pushing
    have tag : Short p.consumerTag := addressed.short.tag p.queue p.consumer member
    rw [← Push.send_onChannel_iff tag name drawn]
    constructor
    · rintro ⟨_, deliver, header, body, numbers, sent, _⟩
      exact ⟨deliver, header, body, numbers, sent⟩
    · rintro ⟨deliver, header, body, numbers, sent⟩
      refine ⟨registered p member, deliver, header, body, numbers, sent, ?_⟩
      rw [pushing_written pushing, after_ok (sent _)]
      rfl

theorem run_rightChannel_iff (env : Env) (draws : Nat → Draw) {before later : List Turn} {t : Turn}
    (decoded : ∀ u ∈ before ++ t :: later, u.Decoded) :
    RightChannel env before (Runs.run (Turn.step env) (Broker.init env draws) before) t ↔
      FitsChannel env (Runs.run (Turn.step env) (Broker.init env draws) before) t := by
  have addressed := addressed_run env draws fun u hu => decoded u (List.mem_append_left _ hu)
  apply rightChannel_iff (decoded t (by simp)) addressed
  intro p member
  exact consumer_registered env draws member

/-- In every run, what is answered on a channel and what is delivered to its consumers goes out
with the number of that channel, exactly as long as the number fits one byte and what is delivered
can be encoded. -/
theorem right_channel_iff (env : Env) (draws : Nat → Draw) (actions : List Action) :
    let turns := Server.turnsOf env (Server.init env draws) actions
    (∀ before t later, turns = before ++ t :: later →
        RightChannel env before (Runs.run (Turn.step env) (Broker.init env draws) before) t) ↔
      ∀ before t later, turns = before ++ t :: later →
        FitsChannel env (Runs.run (Turn.step env) (Broker.init env draws) before) t := by
  intro turns
  refine forall_congr' fun before => forall_congr' fun t => forall_congr' fun later =>
    forall_congr' fun split => ?_
  apply run_rightChannel_iff
  rw [← split]
  exact Server.turnsOf_decoded env _ actions

/-- A channel.open on channel 256. -/
def openChannel256 : Bytes := [1, 1, 0, 0, 0, 0, 5, 0, 20, 0, 10, 0, 0xCE]

/-- The last turn of a run whose answers go out on the right channel is not a request on a channel
with a larger number. -/
theorem last_answer_fits {env : Env} {draws : Nat → Draw} {turns : List Turn}
    (decoded : ∀ t ∈ turns, t.Decoded)
    (right : ∀ before t later, turns = before ++ t :: later →
      RightChannel env before (Runs.run (Turn.step env) (Broker.init env draws) before) t)
    {c : ConnId} {n : Nat} (large : 256 ≤ n) :
    (turns.getLast?.bind fun t => t.frameOn c n).all (fun f =>
      !((Runs.run (Turn.step env) (Broker.init env draws) turns.dropLast).answer env c f).isSome) =
        true := by
  cases last : turns.getLast? with
  | none => rfl
  | some t =>
      rw [Option.bind_some]
      cases on : t.frameOn c n with
      | none => rfl
      | some f =>
          obtain ⟨rfl, number⟩ := Turn.frameOn_eq_some on
          have split : turns = turns.dropLast ++ [.frame c f] :=
            (List.dropLast_append_getLast? _ last).symm
          have fits := (run_rightChannel_iff env draws (split ▸ decoded)).mp (right _ _ [] split)
          rw [Option.all_some, Bool.not_eq_true', ← Bool.not_eq_true]
          intro answered
          have small := fits.1 c f rfl (by omega) answered
          omega

/-- A channel with a number of two bytes, whose open is not answered. -/
theorem channel_256_unanswered :
    ¬ ∀ before t later, Server.turnsOf guestEnv (Server.init guestEnv fun _ => ⟨7, by decide⟩)
        (logIn 0 ++ [.dataReceived 0 openChannel256]) = before ++ t :: later →
      RightChannel guestEnv before (Runs.run (Turn.step guestEnv)
        (Broker.init guestEnv fun _ => ⟨7, by decide⟩) before) t := by
  intro claimed
  have nothing := last_answer_fits (Server.turnsOf_decoded guestEnv _ _) claimed
    (c := 0) (Nat.le_refl 256)
  revert nothing
  decide +kernel

end MockAmqp
