import MockAmqp.Delivery

/-!
# Reported acknowledgements

What the three waits for a delivery tag report, compared with what the connection that received
the delivery has sent.
-/

namespace MockAmqp
open Exec

/-- The three things a consumer can say about a delivery. -/
inductive Verdict where
  | acknowledged
  | notAcknowledged
  | requeued
  deriving DecidableEq

namespace Verdict

/-- The tags that a kind of verdict is recorded for. -/
def recorded : Verdict → State → OrderedSet Int
  | acknowledged, s => s.messageAcknowledged
  | notAcknowledged, s => s.messageNotAcknowledged
  | requeued, s => s.messageRequeued

/-- The wait that reports a kind of verdict. -/
def wait : Verdict → Int → Wait
  | acknowledged => .messageAcknowledged
  | notAcknowledged => .messageNotAcknowledged
  | requeued => .messageRequeued

/-- The delivery tag in a basic.ack, or in a basic.nack without or with requeue. -/
def sentIn (k : Verdict) (f : FrameValue) : Option Int :=
  match k, f.methodId, f.argInt .deliveryTag, f.arg .requeue with
  | acknowledged, some .basicAck, .ok tag, _ => some tag
  | notAcknowledged, some .basicNack, .ok tag, .ok requeue =>
      if requeue.truthy then none else some tag
  | requeued, some .basicNack, .ok tag, .ok requeue => if requeue.truthy then some tag else none
  | _, _, _, _ => none

/-- The verdict that a turn has recorded: the connection and the tag. -/
def givenIn (k : Verdict) (b : Broker) : Turn → Option (ConnId × Int)
  | .frame c f =>
      if f.channelNumber ≠ 0 ∧ b.channelIsOpened c f.channelNumber = true then
        (k.sentIn f).map fun tag => (c, tag)
      else none
  | _ => none

theorem wait_result {k : Verdict} {tag : Int} {polls : List State} :
    (k.wait tag).result polls = .ok true ↔ ∃ s ∈ polls, tag ∈ (k.recorded s).elems := by
  induction polls with
  | nil => cases k <;> simp [Wait.result]
  | cons s rest ih =>
      have poll : (k.wait tag).poll s =
          .ok (if tag ∈ (k.recorded s).elems then some true else none) := by
        cases k <;> rfl
      have turn : (k.wait tag).result (s :: rest) = match (k.wait tag).poll s with
          | .ok (some r) => .ok r
          | .ok none => (k.wait tag).result rest
          | .error e => .error e := by
        rw [Wait.result]
        cases (k.wait tag).poll s with
        | error e => rfl
        | ok r => cases r <;> rfl
      rw [turn, poll]
      by_cases h : tag ∈ (k.recorded s).elems
      · simp [h]
      · simp [h, ih]

end Verdict

/-! ## What a turn records -/

/-- The recorded verdicts stay. -/
def State.SameVerdicts (s s' : State) : Prop := ∀ k : Verdict, k.recorded s' = k.recorded s

/-- The accounts, the logins tried and the recorded verdicts stay. -/
structure State.SameRecords (s s' : State) : Prop where
  users : s'.users = s.users
  tried : s'.authenticationTriedOn = s.authenticationTriedOn
  verdicts : State.SameVerdicts s s'

def SameRecords (b b' : Broker) : Prop := State.SameRecords b.state b'.state

/-- The call records a login or a verdict. -/
def Call.records : Call → Bool
  | checkCredentials .. | messageAck _ | messageNack .. => true
  | _ => false

namespace State

theorem sameRecords_progress : Progress SameRecords where
  refl := fun _ => ⟨rfl, rfl, fun _ => rfl⟩
  trans := fun h k => ⟨k.users.trans h.users, k.tried.trans h.tried,
    fun v => (k.verdicts v).trans (h.verdicts v)⟩

theorem sameRecords_setQueue (s : State) (n : Str) (q : Queue) :
    SameRecords s (s.setQueue n q) := by
  refine ⟨rfl, rfl, ?_⟩
  intro k
  cases k <;> rfl

theorem sameRecords_setExchange (s : State) (n : Str) (e : Exchange) :
    SameRecords s (s.setExchange n e) := by
  refine ⟨rfl, rfl, ?_⟩
  intro k
  cases k <;> rfl

theorem sameRecords_appendToQueue (n : Str) (m : StoredMessage) :
    Within SameRecords (appendToQueue n m) := by
  intro s
  unfold after appendToQueue
  cases s.queues.get? n with
  | none => exact sameRecords_progress.refl s
  | some q => exact sameRecords_setQueue s n _

theorem sameRecords_appendToExchange (n : Str) (m : StoredMessage) :
    Within SameRecords (appendToExchange n m) := by
  intro s
  unfold after appendToExchange
  cases s.exchanges.get? n with
  | none => exact sameRecords_progress.refl s
  | some e => exact sameRecords_setExchange s n _

theorem sameRecords_appendToQueues (m : StoredMessage) (queues : List Str) :
    Within SameRecords (appendToQueues m queues) := by
  induction queues with
  | nil => exact within_pure sameRecords_progress _
  | cons n rest ih =>
      exact within_bind sameRecords_progress (sameRecords_appendToQueue n m) fun _ => ih

theorem sameRecords_bindQueue (s : State) (queue exchange : Str) :
    SameRecords s (s.bindQueue queue exchange).2 := by
  unfold bindQueue
  split
  · exact sameRecords_progress.refl s
  · split
    · exact sameRecords_progress.refl s
    · refine ⟨rfl, rfl, ?_⟩
      intro k
      cases k <;> rfl

theorem sameRecords_declareExchange (s : State) (name type : Str) :
    SameRecords s (s.declareExchange name type).2 := by
  unfold declareExchange
  cases s.exchanges.get? name with
  | none => exact sameRecords_setExchange s name _
  | some e => exact sameRecords_progress.refl s

theorem sameRecords_declareQueue (s : State) (name : Str) :
    SameRecords s (s.declareQueue name).2 := by
  unfold declareQueue
  split
  · exact sameRecords_progress.refl s
  · exact sameRecords_progress.trans (sameRecords_setQueue s name _)
      (sameRecords_bindQueue _ name [])

theorem sameRecords_registerConsumer (s : State) (c : ConnId) (tag queue : Str) (n : Nat) :
    SameRecords s (s.registerConsumer c tag queue n).2 := by
  unfold registerConsumer
  cases s.queues.get? queue with
  | none => exact sameRecords_progress.refl s
  | some q => exact sameRecords_setQueue s queue _

/-- Calls that record nothing keep the records. -/
theorem sameRecords_call (env : Env) {op : Call} (quiet : op.records = false) :
    Within SameRecords (op.run env) := by
  intro s
  have hp := sameRecords_progress
  cases op with
  | declareExchange name type => exact sameRecords_declareExchange s name type
  | declareQueue name => exact sameRecords_declareQueue s name
  | bindQueue queue exchange => exact sameRecords_bindQueue s queue exchange
  | registerConsumer c tag queue n => exact sameRecords_registerConsumer s c tag queue n
  | storeMessage e headers data =>
      have stores : Within SameRecords (storeMessage env e headers data) := by
        refine within_bind hp (within_read hp _) fun _ => within_ite (within_pure hp _) ?_
        refine within_bind hp (sameRecords_appendToExchange e _) fun _ => ?_
        refine within_bind hp (within_read hp _) fun queues => ?_
        exact within_bind hp (sameRecords_appendToQueues _ queues) fun _ => within_pure hp _
      exact stores s
  | checkCredentials username password => cases quiet
  | messageAck tag => cases quiet
  | messageNack tag requeue => cases quiet

/-- Calls other than a verdict keep the verdicts. -/
theorem sameVerdicts_call (env : Env) {op : Call} (ack : ∀ tag, op ≠ .messageAck tag)
    (nack : ∀ tag requeue, op ≠ .messageNack tag requeue) (s : State) :
    SameVerdicts s (after (op.run env) s) := by
  cases op with
  | checkCredentials username password =>
      intro k
      cases k <;> rfl
  | messageAck tag => exact absurd rfl (ack tag)
  | messageNack tag requeue => exact absurd rfl (nack tag requeue)
  | _ => exact (sameRecords_call env rfl s).verdicts

theorem sameRecords_deleteConsumers (s : State) (queueName : Str) (dead : List Str) :
    SameRecords s (s.deleteConsumers queueName dead) := by
  unfold deleteConsumers
  cases s.queues.get? queueName with
  | none => exact sameRecords_progress.refl s
  | some q => exact sameRecords_setQueue s queueName _

end State

section
variable {env : Env} {b : Broker} {c : ConnId} {f : FrameValue}

theorem broker_sameRecords_progress : Progress SameRecords where
  refl := fun b => State.sameRecords_progress.refl b.state
  trans := fun h k => State.sameRecords_progress.trans h k

theorem sameRecords_serveQueue (queueName : Str) (pub : Publication) (exchangeName : Str) :
    Within SameRecords (serveQueue queueName pub exchangeName) := by
  have hp := broker_sameRecords_progress
  have table : Within SameRecords (getConsumers queueName) := by
    intro b
    have same : after (getConsumers queueName) b = b := by
      cases found : b.state.queues.get? queueName <;> simp only [after, getConsumers, found]
    rw [same]
    exact hp.refl b
  refine within_bind hp table fun consumers => within_bind hp ?_ fun r => ?_
  · intro b
    rw [SameRecords, (offer_after queueName exchangeName pub b consumers.entries).1]
    exact State.sameRecords_progress.refl b.state
  · have cleaned : Within SameRecords (update fun b : Broker =>
        { b with state := b.state.deleteConsumers queueName r.2 } : OnBroker Unit) :=
      fun b => State.sameRecords_deleteConsumers b.state queueName r.2
    exact within_bind hp cleaned fun _ => within_pure hp _

theorem sameRecords_onState {α : Type} {x : EStateM PyError State α}
    (hx : Within State.SameRecords x) : Within SameRecords (onState x) := by
  intro b
  have run : after (onState x) b = { b with state := after x b.state } := after_zoom _ _ x b
  rw [SameRecords, run]
  exact hx b.state

/-- Requests other than a reset keep the records. -/
theorem sameRecords_http {op : HttpOp} (noReset : op ≠ .reset) :
    Within SameRecords (op.run env) := by
  have hp := broker_sameRecords_progress
  cases op with
  | reset => exact absurd rfl noReset
  | declareExchange name type =>
      exact fun b => State.sameRecords_declareExchange b.state name type
  | declareQueue name => exact fun b => State.sameRecords_declareQueue b.state name
  | deleteMessagesOfQueue name =>
      intro b
      have done : (after ((HttpOp.deleteMessagesOfQueue name).run env) b).state =
          b.state.deleteMessagesOfQueue name := rfl
      rw [SameRecords, done]
      unfold State.deleteMessagesOfQueue
      cases b.state.queues.get? name with
      | none => exact hp.refl b
      | some q => exact State.sameRecords_setQueue b.state name _
  | deleteMessagesOfExchange name =>
      intro b
      have done : (after ((HttpOp.deleteMessagesOfExchange name).run env) b).state =
          b.state.deleteMessagesOfExchange name := rfl
      rw [SameRecords, done]
      unfold State.deleteMessagesOfExchange
      cases b.state.exchanges.get? name with
      | none => exact hp.refl b
      | some e => exact State.sameRecords_setExchange b.state name _
  | publishMessage name pub =>
      have publishes : Within SameRecords (publishMessage env name pub) := by
        refine within_bind hp (within_read hp _) fun _ => within_ite (within_pure hp _) ?_
        refine within_bind hp (sameRecords_onState (State.sameRecords_appendToExchange _ _))
          fun _ => within_bind hp (within_read hp _) fun queues => ?_
        cases queues with
        | nil => exact within_pure hp _
        | cons q _ => exact sameRecords_serveQueue q pub name
      exact within_bind hp publishes fun _ => within_pure hp _
  | publishMessageInQueue name pub =>
      have publishes : Within SameRecords (publishMessageInQueue name pub) := by
        refine within_bind hp (within_read hp _) fun _ => within_ite (within_pure hp _) ?_
        exact within_bind hp (sameRecords_onState (State.sameRecords_appendToQueue _ _))
          fun _ => sameRecords_serveQueue name pub _
      exact within_bind hp publishes fun _ => within_pure hp _

/-- A basic.ack on an opened channel. -/
theorem dispatch_ack (hn : f.channelNumber ≠ 0) (hm : f.methodId = some .basicAck)
    (isOpened : b.channelIsOpened c f.channelNumber = true) :
    (after (dispatch env c f) b).state = match f.argInt .deliveryTag with
      | .ok tag => b.state.messageAck tag
      | .error _ => b.state := by
  have state : (b.channel c f.channelNumber).state = .opened := by
    simpa [Broker.channelIsOpened] using isOpened
  have branch : treatOpenedChannelFrame env c f.channelNumber (b.channel c f.channelNumber) f = (do
      let _ ← call env c (.messageAck (← attempt (f.argInt .deliveryTag)))) := by
    simp only [treatOpenedChannelFrame, hm]
  rw [after_dispatch_channel hn, treatFrameOn_opened state (by simp [hm]), branch]
  cases f.argInt .deliveryTag with
  | error e => exact b.received_state
  | ok tag =>
      rw [attempt_bind_ok, after_bind_pure, after_call]
      exact congrArg (State.messageAck tag) b.received_state

theorem dispatch_nack (hn : f.channelNumber ≠ 0) (hm : f.methodId = some .basicNack)
    (isOpened : b.channelIsOpened c f.channelNumber = true) :
    (after (dispatch env c f) b).state = match f.argInt .deliveryTag, f.arg .requeue with
      | .ok tag, .ok requeue => b.state.messageNack tag requeue.truthy
      | _, _ => b.state := by
  have state : (b.channel c f.channelNumber).state = .opened := by
    simpa [Broker.channelIsOpened] using isOpened
  have branch : treatOpenedChannelFrame env c f.channelNumber (b.channel c f.channelNumber) f = (do
      let _ ← call env c (.messageNack (← attempt (f.argInt .deliveryTag))
        (← attempt (f.arg .requeue)).truthy)) := by
    simp only [treatOpenedChannelFrame, hm]
  rw [after_dispatch_channel hn, treatFrameOn_opened state (by simp [hm]), branch]
  cases f.argInt .deliveryTag with
  | error e => exact b.received_state
  | ok tag =>
      rw [attempt_bind_ok]
      cases f.arg .requeue with
      | error e => exact b.received_state
      | ok requeue =>
          rw [attempt_bind_ok, after_bind_pure, after_call]
          exact congrArg (State.messageNack tag requeue.truthy) b.received_state

theorem mem_messageAck {k : Verdict} {tag tag' : Int} {s : State} :
    tag ∈ (k.recorded (s.messageAck tag')).elems ↔
      tag ∈ (k.recorded s).elems ∨ k = .acknowledged ∧ tag' = tag := by
  cases k with
  | acknowledged =>
      simp only [State.messageAck, Verdict.recorded, OrderedSet.mem_add]
      tauto
  | _ => simp [State.messageAck, Verdict.recorded]

theorem mem_messageNack {k : Verdict} {tag tag' : Int} {requeue : Bool} {s : State} :
    tag ∈ (k.recorded (s.messageNack tag' requeue)).elems ↔ tag ∈ (k.recorded s).elems ∨
      k = (if requeue then .requeued else .notAcknowledged) ∧ tag' = tag := by
  cases requeue <;> cases k <;>
    simp only [State.messageNack, Verdict.recorded, OrderedSet.mem_add, if_true, if_false,
      Bool.false_eq_true, reduceCtorEq, false_and, or_false, true_and]
  all_goals tauto

/-- A verdict is recorded when its frame reaches an opened channel, and only then. -/
theorem frame_recorded {k : Verdict} {tag : Int} :
    tag ∈ (k.recorded (after (dispatch env c f) b).state).elems ↔
      tag ∈ (k.recorded b.state).elems ∨ k.givenIn b (.frame c f) = some (c, tag) := by
  have unrecorded : State.SameVerdicts b.state (after (dispatch env c f) b).state →
      k.givenIn b (.frame c f) = none →
      (tag ∈ (k.recorded (after (dispatch env c f) b).state).elems ↔
        tag ∈ (k.recorded b.state).elems ∨ k.givenIn b (.frame c f) = some (c, tag)) := by
    intro same none
    rw [same k, none]
    simp
  by_cases hears : f.channelNumber ≠ 0 ∧ b.channelIsOpened c f.channelNumber = true
  · have given : k.givenIn b (.frame c f) = (k.sentIn f).map fun tag => (c, tag) := if_pos hears
    obtain ⟨hn, isOpened⟩ := hears
    by_cases ack : f.methodId = some .basicAck
    · rw [dispatch_ack hn ack isOpened, given]
      cases argued : f.argInt .deliveryTag with
      | error e => cases k <;> simp [Verdict.sentIn, ack, argued]
      | ok tag' =>
          rw [mem_messageAck]
          cases k <;> simp [Verdict.sentIn, ack, argued]
    by_cases nack : f.methodId = some .basicNack
    · rw [dispatch_nack hn nack isOpened, given]
      cases argued : f.argInt .deliveryTag with
      | error e => cases k <;> simp [Verdict.sentIn, nack, argued]
      | ok tag' =>
          cases wanted : f.arg .requeue with
          | error e => cases k <;> simp [Verdict.sentIn, nack, argued, wanted]
          | ok requeue =>
              rw [mem_messageNack]
              cases again : requeue.truthy <;> cases k <;>
                simp [Verdict.sentIn, nack, argued, wanted, again]
    refine unrecorded ?_ (given.trans ?_)
    · rcases dispatch_state_cases env c f b with same | ⟨op, asked, state⟩
      · rw [same]
        exact fun _ => rfl
      · rw [state]
        refine State.sameVerdicts_call env ?_ ?_ b.state
        · rintro tag rfl
          exact ack asked.1.method
        · rintro tag requeue rfl
          exact nack asked.1.method
    · have none : k.sentIn f = none := by
        unfold Verdict.sentIn
        split
        · rename_i hm _
          exact absurd hm ack
        · rename_i hm _ _
          exact absurd hm nack
        · rename_i hm _ _
          exact absurd hm nack
        · rfl
      rw [none]
      rfl
  · refine unrecorded ?_ (if_neg hears)
    rcases dispatch_state_cases env c f b with same | ⟨op, asked, state⟩
    · rw [same]
      exact fun _ => rfl
    · have shut : f.channelNumber ≠ 0 → ∀ m, f.methodId = some m → m ≠ .channelOpen →
          m ≠ .channelClose → State.SameVerdicts b.state (after (dispatch env c f) b).state := by
        intro hn m hm hopen hclose
        have closed : b.channelIsOpened c f.channelNumber = false := by
          simpa using fun isOpened => hears ⟨hn, isOpened⟩
        rw [(dispatch_shut env hn hm hopen hclose closed).2]
        exact fun _ => rfl
      by_cases ack : ∃ tag, op = .messageAck tag
      · obtain ⟨tag, rfl⟩ := ack
        exact shut asked.1.nonzero _ asked.1.method (by decide) (by decide)
      by_cases nack : ∃ tag requeue, op = .messageNack tag requeue
      · obtain ⟨tag, requeue, rfl⟩ := nack
        exact shut asked.1.nonzero _ asked.1.method (by decide) (by decide)
      rw [state]
      exact State.sameVerdicts_call env (fun tag same => ack ⟨tag, same⟩)
        (fun tag requeue same => nack ⟨tag, requeue, same⟩) b.state

/-- A verdict is recorded when it is given, and none is forgotten but by a reset. -/
theorem turn_recorded {k : Verdict} {tag : Int} {t : Turn} (noReset : t ≠ .http .reset) :
    tag ∈ (k.recorded (Turn.step env b t).state).elems ↔
      tag ∈ (k.recorded b.state).elems ∨ ∃ c, k.givenIn b t = some (c, tag) := by
  cases t with
  | frame c f =>
      have own : (∃ c', k.givenIn b (.frame c f) = some (c', tag)) ↔
          k.givenIn b (.frame c f) = some (c, tag) := by
        refine ⟨?_, fun h => ⟨c, h⟩⟩
        rintro ⟨c', given⟩
        have same : c' = c := by
          simp only [Verdict.givenIn] at given
          split at given
          · obtain ⟨_, _, pair⟩ := Option.map_eq_some_iff.mp given
            cases pair
            rfl
          · cases given
        rw [given, same]
      rw [own]
      exact frame_recorded
  | start c =>
      have same : (Turn.step env b (.start c)).state = b.state := Turn.start_state env b c
      simp [same, Verdict.givenIn]
  | lost c =>
      have same : (Turn.step env b (.lost c)).state = b.state := rfl
      simp [same, Verdict.givenIn]
  | http op =>
      have kept : Within SameRecords (op.run env) := sameRecords_http fun h => noReset (by rw [h])
      have same := (kept b).verdicts k
      simp [Turn.step, same, Verdict.givenIn]

end

/-! ## Publications and waits -/

/-- The delivery tag that a publication returns. -/
def HttpOp.returned (env : Env) (b : Broker) : HttpOp → Option Nat
  | publishMessage name pub =>
      match MockAmqp.publishMessage env name pub b with
      | .ok tag _ => tag
      | .error _ _ => none
  | publishMessageInQueue name pub =>
      match MockAmqp.publishMessageInQueue name pub b with
      | .ok tag _ => tag
      | .error _ _ => none
  | _ => none

/-- The pushes of a publication that returned their delivery tag. -/
def Turn.published (env : Env) (b : Broker) : Turn → List Push
  | .http op => (pushes ((Turn.step env b (.http op)).trace.drop b.trace.length)).filter
      fun p => op.returned env b = some p.deliveryTag
  | _ => []

/-- The connection sends the verdict in one of the turns. -/
def Verdict.SentBy (k : Verdict) (c : ConnId) (tag : Int) (turns : List Turn) : Prop :=
  ∃ f, .frame c f ∈ turns ∧ k.sentIn f = some tag

/-- A wait for a verdict on a delivery returns `True` only if, after the publication, the
connection that received the delivery has sent it. The polls of the wait see any states. -/
def ReportsSound (k : Verdict) (env : Env) (b : Broker) (turns : List Turn) : Prop :=
  ∀ before t later p polls, turns = before ++ t :: later →
    p ∈ t.published env (Runs.run (Turn.step env) b before) →
    (∀ s ∈ polls, ∃ seen rest, turns = seen ++ rest ∧
      s = (Runs.run (Turn.step env) b seen).state) →
    (k.wait p.deliveryTag).result polls = .ok true → k.SentBy p.protocol p.deliveryTag later

/-- After the turns `before`, a publication draws a tag without a verdict, and a verdict comes
from the connection that received the delivery, unless that has already sent it. -/
structure Attributable (k : Verdict) (env : Env) (b : Broker) (before : List Turn) (t : Turn) :
    Prop where
  fresh : ∀ p ∈ t.published env (Runs.run (Turn.step env) b before),
    (p.deliveryTag : Int) ∉ (k.recorded (Runs.run (Turn.step env) b before).state).elems
  own : ∀ c tag, k.givenIn (Runs.run (Turn.step env) b before) t = some (c, tag) →
    ∀ first u rest p, before = first ++ u :: rest →
      p ∈ u.published env (Runs.run (Turn.step env) b first) → (p.deliveryTag : Int) = tag →
      p.protocol = c ∨ k.SentBy p.protocol tag rest

section
variable {k : Verdict} {env : Env} {b : Broker} {turns : List Turn} {t : Turn}

theorem Turn.published_http {p : Push} (h : p ∈ t.published env b) : ∃ op, t = .http op := by
  cases t with
  | http op => exact ⟨op, rfl⟩
  | _ => cases h

/-- What is recorded stays recorded. -/
theorem run_recorded (noReset : ∀ t ∈ turns, t ≠ .http .reset) {tag : Int}
    (h : tag ∈ (k.recorded b.state).elems) :
    tag ∈ (k.recorded (Runs.run (Turn.step env) b turns).state).elems := by
  induction turns generalizing b with
  | nil => exact h
  | cons t rest ih =>
      exact ih (fun u hu => noReset u (List.mem_cons_of_mem t hu))
        ((turn_recorded (noReset t List.mem_cons_self)).mpr (.inl h))

/-- All the polls of a run see is recorded at its end. -/
theorem recorded_of_polls (noReset : ∀ t ∈ turns, t ≠ .http .reset) {tag : Int}
    {polls : List State} (seen : ∀ s ∈ polls, ∃ seen rest, turns = seen ++ rest ∧
      s = (Runs.run (Turn.step env) b seen).state)
    (reported : (k.wait tag).result polls = .ok true) :
    tag ∈ (k.recorded (Runs.run (Turn.step env) b turns).state).elems := by
  obtain ⟨s, hs, h⟩ := Verdict.wait_result.mp reported
  obtain ⟨first, rest, rfl, rfl⟩ := seen s hs
  rw [Runs.run_append]
  exact run_recorded (fun t ht => noReset t (List.mem_append_right _ ht)) h

theorem Verdict.givenIn_frame {c : ConnId} {tag : Int} (h : k.givenIn b t = some (c, tag)) :
    ∃ f, t = .frame c f ∧ k.sentIn f = some tag := by
  cases t with
  | frame c' f =>
      simp only [Verdict.givenIn] at h
      split at h
      · obtain ⟨tag', sent, pair⟩ := Option.map_eq_some_iff.mp h
        cases pair
        exact ⟨f, rfl, sent⟩
      · cases h
  | _ => cases h

theorem Verdict.SentBy.mono {c : ConnId} {tag : Int} {some more : List Turn}
    (h : k.SentBy c tag some) (sub : some ⊆ more) : k.SentBy c tag more := by
  obtain ⟨f, hf, sent⟩ := h
  exact ⟨f, sub hf, sent⟩

/-- By induction on the run from its end: the last turn that records the verdict comes from the
connection that received the delivery, or that has sent it before. -/
theorem sent_of_recorded (noReset : ∀ t ∈ turns, t ≠ .http .reset)
    (attributable : ∀ before t later, turns = before ++ t :: later →
      Attributable k env b before t) {before later : List Turn} {p : Push}
    (split : turns = before ++ t :: later)
    (published : p ∈ t.published env (Runs.run (Turn.step env) b before))
    (recorded : (p.deliveryTag : Int) ∈ (k.recorded (Runs.run (Turn.step env) b turns).state).elems) :
    k.SentBy p.protocol p.deliveryTag later := by
  induction turns using List.reverseRecOn generalizing later with
  | nil => simp at split
  | append_singleton turns u ih =>
      rw [Runs.run_append, Runs.run_cons, Runs.run_nil] at recorded
      have last := attributable turns u [] rfl
      have known := (turn_recorded (noReset u (by simp))).mp recorded
      rcases History.snoc_eq_split split with ⟨rfl, rfl, rfl⟩ | ⟨later', rfl, rfl⟩
      · obtain ⟨op, rfl⟩ := Turn.published_http published
        rcases known with old | ⟨c, given⟩
        · exact absurd old (last.fresh p published)
        · cases given
      · have sub : later' ⊆ later' ++ [u] := List.subset_append_left _ _
        rcases known with old | ⟨c, given⟩
        · have sent := ih (fun v hv => noReset v (List.mem_append_left _ hv))
            (fun first v rest eq => attributable first v (rest ++ [u]) (by rw [eq]; simp)) rfl old
          exact sent.mono sub
        · rcases last.own c _ given before t later' p rfl published rfl with same | sent
          · obtain ⟨f, rfl, sent⟩ := Verdict.givenIn_frame given
            exact ⟨f, by simp [same], sent⟩
          · exact sent.mono sub

end

/-- In a run without a reset, what the waits report comes from the connections that received the
deliveries, at every moment, exactly if every publication draws a tag that has no verdict yet and
every verdict on a delivery is first given by the connection that received it. -/
theorem reports_sound_iff (k : Verdict) (env : Env) (b : Broker) (turns : List Turn)
    (noReset : ∀ t ∈ turns, t ≠ .http .reset) :
    (∀ before later, turns = before ++ later → ReportsSound k env b before) ↔
      ∀ before t later, turns = before ++ t :: later → Attributable k env b before t := by
  constructor
  · intro sound before t later split
    have cut : turns = (before ++ [t]) ++ later := by rw [split, List.append_assoc]; rfl
    have here := sound (before ++ [t]) later cut
    let s := (Runs.run (Turn.step env) b (before ++ [t])).state
    have quiet : t ≠ .http .reset := noReset t (by rw [split]; simp)
    have final : ∀ s' ∈ [s], ∃ seen rest, before ++ [t] = seen ++ rest ∧
        s' = (Runs.run (Turn.step env) b seen).state := by
      intro s' hs'
      exact ⟨before ++ [t], [], (List.append_nil _).symm, List.mem_singleton.mp hs'⟩
    have after_t : s = (Turn.step env (Runs.run (Turn.step env) b before) t).state := by
      simp only [s, Runs.run_append, Runs.run_cons, Runs.run_nil]
    refine ⟨fun p published old => ?_, fun c tag given first u rest p eq published same => ?_⟩
    · have kept : (p.deliveryTag : Int) ∈ (k.recorded s).elems := by
        rw [after_t]
        exact (turn_recorded quiet).mpr (.inl old)
      obtain ⟨f, none, _⟩ := here before t [] p [s] rfl published final
        (Verdict.wait_result.mpr ⟨s, List.mem_singleton_self s, kept⟩)
      cases none
    · have new : (p.deliveryTag : Int) ∈ (k.recorded s).elems := by
        rw [after_t, same]
        exact (turn_recorded quiet).mpr (.inr ⟨c, given⟩)
      obtain ⟨f, hf, sent⟩ := here first u (rest ++ [t]) p [s] (by rw [eq]; simp) published final
        (Verdict.wait_result.mpr ⟨s, List.mem_singleton_self s, new⟩)
      rw [same] at sent
      rcases List.mem_append.mp hf with old | now
      · exact .inr ⟨f, old, sent⟩
      · obtain ⟨f', rfl, _⟩ := Verdict.givenIn_frame given
        cases List.mem_singleton.mp now
        exact .inl rfl
  · intro attributable before later cut
    have prefix_noReset : ∀ t ∈ before, t ≠ .http .reset :=
      fun t ht => noReset t (by rw [cut]; exact List.mem_append_left _ ht)
    intro first t rest p polls split published seen reported
    refine sent_of_recorded prefix_noReset (fun first t rest eq => ?_) split published
      (recorded_of_polls prefix_noReset seen reported)
    exact attributable first t (rest ++ later) (by rw [cut, eq]; simp)

/-- A basic.ack of one delivery. -/
def ackFrame (n : Nat) (tag : Int) : FrameValue :=
  .method {
    channelNumber := n
    size := 13
    methodId := .basicAck
    properties := .ofList [(.deliveryTag, .int tag), (.multiple, .bool false)] }

/-- The tag drawn for it is 7. -/
def publishGreeting : Turn := .http (.publishMessageInQueue (str "q") greeting)

/-- One publication, acknowledged by its consumer. -/
theorem reports_sound_once :
    ReportsSound .acknowledged guestEnv (session oneConsumer).broker
      [publishGreeting, .frame 0 (ackFrame 1 7)] := by
  have noReset : ∀ t ∈ [publishGreeting, .frame 0 (ackFrame 1 7)], t ≠ .http .reset := by
    simp [publishGreeting]
  have facts : (Verdict.acknowledged.recorded (session oneConsumer).broker.state).elems = [] ∧
      (publishGreeting.published guestEnv (session oneConsumer).broker).all (·.protocol = 0) =
        true := by decide +kernel
  obtain ⟨fresh, own⟩ := facts
  refine (reports_sound_iff .acknowledged guestEnv _ _ noReset).mpr ?_ _ []
    (List.append_nil _).symm
  intro before t later split
  rcases before with _ | ⟨x, _ | ⟨y, rest⟩⟩
  · cases split
    refine ⟨fun p _ old => ?_, fun c tag given => by cases given⟩
    rw [Runs.run_nil, fresh] at old
    cases old
  · cases split
    refine ⟨fun p published => (by cases published), fun c tag given first u rest p eq hp _ => ?_⟩
    obtain ⟨f, same, _⟩ := Verdict.givenIn_frame given
    cases same
    rcases first with _ | ⟨x, first⟩
    · cases eq
      exact .inl (of_decide_eq_true (List.all_eq_true.mp own p hp))
    · simp at eq
  · simp at split

/-- The second of two publications is drawn the tag of the first, which was acknowledged. -/
theorem stale_acknowledgement_reported :
    Reachable guestEnv (session oneConsumer).broker ∧
      ¬ ReportsSound .acknowledged guestEnv (session oneConsumer).broker
        [publishGreeting, .frame 0 (ackFrame 1 7), publishGreeting] := by
  refine ⟨session_reachable _, fun sound => ?_⟩
  let before : List Turn := [publishGreeting, .frame 0 (ackFrame 1 7)]
  let b := Runs.run (Turn.step guestEnv) (session oneConsumer).broker before
  have facts : (publishGreeting.published guestEnv b).any (·.deliveryTag = 7) = true ∧
      (7 : Int) ∈ (Verdict.acknowledged.recorded b.state).elems := by decide +kernel
  obtain ⟨pushed, reported⟩ := facts
  obtain ⟨p, hp, tag⟩ := List.any_eq_true.mp pushed
  have same : p.deliveryTag = 7 := of_decide_eq_true tag
  obtain ⟨f, none, _⟩ := sound before publishGreeting [] p [b.state] rfl hp
    (fun s hs => ⟨before, [publishGreeting], rfl, List.mem_singleton.mp hs⟩)
    (Verdict.wait_result.mpr ⟨b.state, List.mem_singleton_self _, by rw [same]; exact reported⟩)
  cases none

end MockAmqp
