import MockAmqp.Delivery

/-!
# Consumers over whole runs

Who is registered on which queue: a cancelled consumer, and consumers of several connections
on one queue.
-/

namespace MockAmqp
open Exec

namespace State

/-- Some queue has this consumer in its table. -/
def Registered (s : State) (c : ConnId) (n : Nat) (consumerTag : Str) : Prop :=
  ∃ q, (consumerTag, { protocol := c, channelNumber := n }) ∈ s.consumersOf q

theorem registered_iff {s : State} {c : ConnId} {n : Nat} {tag : Str} :
    s.Registered c n tag ↔ ∃ p ∈ s.queues.entries,
      (tag, { protocol := c, channelNumber := n }) ∈ p.2.consumers.entries := by
  constructor
  · rintro ⟨q, member⟩
    cases hq : s.queues.get? q with
    | none => simp [consumersOf, hq] at member
    | some queue =>
        rw [consumersOf_eq hq] at member
        exact ⟨(q, queue), (s.queues.get?_eq_some_iff q queue).mp hq, member⟩
  · rintro ⟨⟨q, queue⟩, hq, member⟩
    refine ⟨q, ?_⟩
    rw [consumersOf_eq ((s.queues.get?_eq_some_iff q queue).mpr hq)]
    exact member

instance (s : State) (c : ConnId) (n : Nat) (tag : Str) : Decidable (s.Registered c n tag) :=
  decidable_of_iff _ registered_iff.symm

/-- The same consumers in the same order. -/
def SameConsumers (s s' : State) : Prop := ∀ q, s'.consumersOf q = s.consumersOf q

theorem sameConsumers_progress : Progress SameConsumers where
  refl := fun _ _ => rfl
  trans := fun h k q => (k q).trans (h q)

theorem sameConsumers_setQueue {s : State} {n : Str} {q q' : Queue}
    (h : s.queues.get? n = some q) (same : q'.consumers = q.consumers) :
    SameConsumers s (s.setQueue n q') := by
  intro m
  rw [consumersOf_setQueue]
  by_cases hm : m = n
  · rw [if_pos hm, hm, consumersOf_eq h, same]
  · rw [if_neg hm]

theorem sameConsumers_storeMessage (env : Env) (e : Str) (headers data : Val) :
    Within SameConsumers (storeMessage env e headers data) := by
  have hp := sameConsumers_progress
  have one : ∀ q m, Within SameConsumers (appendToQueue q m) := by
    intro q m s
    rcases appendToQueue_cases q m s with raised | ⟨s', stored, _, consumers⟩
    · rw [after_error raised]
      exact hp.refl s
    · rw [after_ok stored]
      exact consumers
  have all : ∀ m queues, Within SameConsumers (appendToQueues m queues) := by
    intro m queues
    induction queues with
    | nil => exact within_pure hp _
    | cons q rest ih => exact within_bind hp (one q m) (fun _ => ih)
  have exchange : ∀ m, Within SameConsumers (appendToExchange e m) := by
    intro m s
    rcases appendToExchange_cases e m s with raised | ⟨s', stored, _, consumers⟩
    · rw [after_error raised]
      exact hp.refl s
    · rw [after_ok stored]
      exact consumers
  refine within_bind hp (within_read hp _) (fun _ => within_ite (within_pure hp _) ?_)
  refine within_bind hp (exchange _) (fun _ => within_bind hp (within_read hp _) ?_)
  exact fun queues => within_bind hp (all _ queues) (fun _ => within_pure hp _)

theorem sameConsumers_bindQueue (s : State) (queue exchange : Str) :
    SameConsumers s (s.bindQueue queue exchange).2 := by
  intro q
  unfold bindQueue
  split
  · rfl
  · split <;> rfl

theorem sameConsumers_declareQueue (s : State) (queue : Str) :
    SameConsumers s (s.declareQueue queue).2 := by
  unfold declareQueue
  by_cases hq : s.queues.contains queue = true
  · rw [if_pos hq]
    exact sameConsumers_progress.refl s
  · rw [if_neg hq]
    refine sameConsumers_progress.trans ?_ (sameConsumers_bindQueue _ queue [])
    intro q
    have none_before : s.queues.get? queue = none := by
      simpa [OrderedDict.contains] using hq
    rw [consumersOf_setQueue]
    by_cases same : q = queue
    · simp [same, consumersOf, none_before, OrderedDict.empty]
    · rw [if_neg same]

theorem sameConsumers_declareExchange (s : State) (name type : Str) :
    SameConsumers s (s.declareExchange name type).2 := by
  intro q
  unfold declareExchange
  cases s.exchanges.get? name <;> rfl

theorem sameConsumers_deleteMessagesOfQueue (s : State) (name : Str) :
    SameConsumers s (s.deleteMessagesOfQueue name) := by
  unfold deleteMessagesOfQueue
  cases hq : s.queues.get? name with
  | none => exact sameConsumers_progress.refl s
  | some queue => exact sameConsumers_setQueue hq rfl

theorem sameConsumers_deleteMessagesOfExchange (s : State) (name : Str) :
    SameConsumers s (s.deleteMessagesOfExchange name) := by
  unfold deleteMessagesOfExchange
  cases s.exchanges.get? name with
  | none => exact sameConsumers_progress.refl s
  | some e => exact fun _ => rfl

theorem mem_registerConsumer {s : State} {c : ConnId} {tag queue : Str} {n : Nat} {q : Str}
    {p : Str × Consumer} {queue' : Queue} (h : s.queues.get? queue = some queue') :
    p ∈ (s.registerConsumer c tag queue n).2.consumersOf q ↔
      (q = queue ∧ p = (tag, { protocol := c, channelNumber := n })) ∨
        ((q = queue → p.1 ≠ tag) ∧ p ∈ s.consumersOf q) := by
  obtain ⟨t, k⟩ := p
  simp only [registerConsumer, h, consumersOf_setQueue]
  by_cases hq : q = queue
  · rw [if_pos hq, OrderedDict.mem_insert, hq, consumersOf_eq h]
    simp
  · simp [hq]

/-- Only a registration touches the consumers. -/
theorem sameConsumers_call {env : Env} {op : Call} {s : State}
    (h : ∀ c tag q n, op ≠ .registerConsumer c tag q n) :
    SameConsumers s (after (op.run env) s) := by
  cases op with
  | checkCredentials => exact fun _ => rfl
  | declareExchange name type => exact sameConsumers_declareExchange s name type
  | declareQueue name => exact sameConsumers_declareQueue s name
  | bindQueue queue exchange => exact sameConsumers_bindQueue s queue exchange
  | storeMessage e headers data => exact sameConsumers_storeMessage env e headers data s
  | messageAck => exact fun _ => rfl
  | messageNack tag requeue =>
      intro q
      have same : (s.messageNack tag requeue).consumersOf q = s.consumersOf q := by
        unfold messageNack
        split <;> rfl
      exact same
  | registerConsumer c tag q n => exact absurd rfl (h c tag q n)

/-- Only a registration adds a consumer, and then it succeeded. -/
theorem registered_of_call {env : Env} {op : Call} {s : State} {c : ConnId} {n : Nat} {tag : Str}
    (h : (after (op.run env) s).Registered c n tag) : s.Registered c n tag ∨
      ∃ q s', op = .registerConsumer c tag q n ∧ op.run env s = .ok true s' := by
  obtain ⟨q, member⟩ := h
  by_cases registers : ∃ c tag q n, op = .registerConsumer c tag q n
  · obtain ⟨c', tag', queue, n', rfl⟩ := registers
    cases hq : s.queues.get? queue with
    | none =>
        have unchanged : (s.registerConsumer c' tag' queue n').2 = s := by
          simp only [registerConsumer, hq]
        exact .inl ⟨q, unchanged ▸ member⟩
    | some queue' =>
        rcases (mem_registerConsumer hq).mp member with ⟨_, new⟩ | ⟨_, old⟩
        · cases new
          refine .inr ⟨queue, (s.registerConsumer c tag queue n).2, rfl, ?_⟩
          simp only [Call.run, registerConsumer, hq]
        · exact .inl ⟨q, old⟩
  · have same : SameConsumers s (after (op.run env) s) :=
      sameConsumers_call fun c tag q n h => registers ⟨c, tag, q, n, h⟩
    exact .inl ⟨q, same q ▸ member⟩

end State

/-! ## Cancelled consumers -/

namespace Event

def cancels (c : ConnId) (n : Nat) (consumerTag : Str) (e : Event) : Prop :=
  e = .reply c (.basicCancelOk n consumerTag)

/-- A basic.consume that did register its consumer. -/
def registers (c : ConnId) (n : Nat) (consumerTag : Str) (e : Event) : Prop :=
  ∃ q, e = .call c (.registerConsumer c consumerTag q n) (some true)

def delivers (c : ConnId) (n : Nat) (consumerTag : Str) (e : Event) : Prop :=
  ∃ p : Push, e = .push p ∧ p.protocol = c ∧ p.channelNumber = n ∧ p.consumerTag = consumerTag

instance (c : ConnId) (n : Nat) (tag : Str) : DecidablePred (cancels c n tag)
  | .reply c' r => decidable_of_iff (c' = c ∧ r = .basicCancelOk n tag) (by simp [cancels])
  | .frame .. | .parser .. | .channelOpened .. | .call .. | .push _ =>
      isFalse (by simp [cancels])

instance (c : ConnId) (n : Nat) (tag : Str) : DecidablePred (registers c n tag)
  | .call c' (.registerConsumer c'' tag' _ n') (some true) =>
      decidable_of_iff (c' = c ∧ c'' = c ∧ tag' = tag ∧ n' = n) (by simp [registers])
  | .call _ (.registerConsumer ..) none | .call _ (.registerConsumer ..) (some false)
  | .call _ (.checkCredentials ..) _ | .call _ (.declareExchange ..) _
  | .call _ (.declareQueue _) _ | .call _ (.bindQueue ..) _ | .call _ (.storeMessage ..) _
  | .call _ (.messageAck _) _ | .call _ (.messageNack ..) _
  | .frame .. | .parser .. | .channelOpened .. | .reply .. | .push _ =>
      isFalse (by simp [registers])

instance (c : ConnId) (n : Nat) (tag : Str) : DecidablePred (delivers c n tag)
  | .push p => decidable_of_iff (p.protocol = c ∧ p.channelNumber = n ∧ p.consumerTag = tag)
      (by simp [delivers])
  | .frame .. | .parser .. | .channelOpened .. | .call .. | .reply .. =>
      isFalse (by simp [delivers])

end Event

/-- Nothing is pushed to a consumer between its cancellation and a new registration. -/
def CancelFinal (trace : List Event) : Prop :=
  ∀ c n tag, History.QuietAfter (Event.cancels c n tag) (Event.registers c n tag)
    (Event.delivers c n tag) trace

/-- The consumer that a turn is a basic.cancel of, on an opened channel. -/
def Broker.cancelled (b : Broker) : Turn → Option (ConnId × Nat × Str)
  | .frame c f =>
      if f.channelNumber ≠ 0 ∧ f.methodId = some .basicCancel ∧
          b.channelIsOpened c f.channelNumber = true then
        match f.argStr .consumerTag with
        | .ok tag => some (c, f.channelNumber, tag)
        | .error _ => none
      else none
  | _ => none

/-- No queue holds the consumer that the turn cancels, or its connection is closing. -/
def CancelsNobody (b : Broker) (t : Turn) : Prop :=
  ∀ k ∈ b.cancelled t, b.isClosing k.1 = false → ¬ b.state.Registered k.1 k.2.1 k.2.2

instance (b : Broker) (t : Turn) : Decidable (CancelsNobody b t) :=
  inferInstanceAs (Decidable (∀ k ∈ b.cancelled t, _ → ¬ _))

structure CancelInvariant (b : Broker) : Prop where
  final : CancelFinal b.trace
  gone : ∀ c n tag, History.Stopped (Event.cancels c n tag) (Event.registers c n tag) b.trace →
    b.isClosing c = false → ¬ b.state.Registered c n tag

section
variable {env : Env} {c : ConnId} {f : FrameValue} {b : Broker}

/-- Nothing is called for a basic.cancel. -/
theorem dispatch_cancel_state (hn : f.channelNumber ≠ 0)
    (hm : f.methodId = some .basicCancel) :
    (after (dispatch env c f) b).state = b.state := by
  rcases dispatch_state_cases env c f b with same | ⟨op, asked, _⟩
  · exact same
  · exfalso
    have only : ∀ {m n}, f.Requests m n → m = .basicCancel :=
      fun h => Option.some.inj (h.method.symm.trans hm)
    cases op with
    | checkCredentials => exact hn asked
    | storeMessage =>
        rw [asked.2] at hm
        cases hm
    | registerConsumer => cases only asked.2.1
    | declareExchange | declareQueue | bindQueue | messageAck | messageNack =>
        cases only asked.1

/-- What an HTTP request does to connections, trace and consumers. -/
structure HttpEffect (op : HttpOp) (b b' : Broker) : Prop where
  connections : SameConnections b b'
  pushes : PushesOnly b b'
  old : ∀ q p, p ∈ b'.state.consumersOf q → p ∈ b.state.consumersOf q
  kept : op ≠ .reset → ∀ q p, p ∈ b.state.consumersOf q → b.isClosing p.2.protocol = false →
    p ∈ b'.state.consumersOf q

theorem http_after (env : Env) (op : HttpOp) (b : Broker) :
    HttpEffect op b (after (op.run env) b) := by
  have only_state : ∀ s, State.SameConsumers b.state s → HttpEffect op b { b with state := s } :=
    fun s same => ⟨fun _ => ⟨rfl, rfl, rfl⟩, pushesOnly_of_trace rfl,
      fun q p hp => same q ▸ hp, fun _ q p hp _ => (same q).symm ▸ hp⟩
  have published : ∀ {b'}, Published b b' ∧ PushesOnly b b' → HttpEffect op b b' :=
    fun h => ⟨h.1.connections, h.2, h.1.old, fun _ => h.1.kept⟩
  cases op with
  | reset =>
      refine ⟨fun _ => ⟨rfl, rfl, rfl⟩, pushesOnly_of_trace rfl, ?_, fun no => absurd rfl no⟩
      intro q p hp
      cases hp
  | declareExchange name type =>
      exact only_state _ (State.sameConsumers_declareExchange b.state name type)
  | declareQueue name => exact only_state _ (State.sameConsumers_declareQueue b.state name)
  | deleteMessagesOfQueue name =>
      exact only_state _ (State.sameConsumers_deleteMessagesOfQueue b.state name)
  | deleteMessagesOfExchange name =>
      exact only_state _ (State.sameConsumers_deleteMessagesOfExchange b.state name)
  | publishMessage name pub =>
      have ended : after ((HttpOp.publishMessage name pub).run env) b =
          after (publishMessage env name pub) b := after_bind_pure _ _ b
      rw [ended]
      exact published (publishMessage_after env b)
  | publishMessageInQueue name pub =>
      have ended : after ((HttpOp.publishMessageInQueue name pub).run env) b =
          after (publishMessageInQueue name pub) b := after_bind_pure _ _ b
      rw [ended]
      exact published (publishMessageInQueue_after b)

/-- The events of a frame are about its own connection, and a cancel-ok answers a
basic.cancel of a consumer that is not registered. -/
theorem cancelInvariant_frame (h : CancelInvariant b) (allowed : CancelsNobody b (.frame c f)) :
    CancelInvariant (after (dispatch env c f) b) := by
  have moved := dispatch_byConn env c f b
  obtain ⟨new, trace, events⟩ := moved.events
  have conn : ∀ e ∈ new, e.conn = some c := fun e he => (events e he).conn
  constructor
  · intro c' n tag
    rw [trace]
    refine History.quietAfter_append_idle (h.final c' n tag) ?_
    rintro e he ⟨p, rfl, _⟩
    exact events _ he
  · intro c' n tag stopped live registered
    have before : b.isClosing c' = false := by
      by_cases same : c' = c
      · subst same
        cases hc : b.isClosing c' with
        | false => rfl
        | true =>
            rw [moved.closing hc] at live
            exact live
      · simpa only [Broker.isClosing, moved.others c' same] using live
    rw [trace] at stopped
    rcases History.stopped_append_cases stopped with ⟨e, he, rfl⟩ | ⟨earlier, quiet⟩
    · -- the frame is a basic.cancel of this consumer
      obtain ⟨rfl, ⟨hm, rfl, hn⟩, htag⟩ := events _ he
      have isOpened : b.channelIsOpened c' f.channelNumber = true := by
        by_contra shut
        have only := (dispatch_shut env hn hm (by decide) (by decide)
          (by simpa using shut)).1
        rw [trace] at only
        rw [List.append_cancel_left only] at he
        simp at he
      have named : b.cancelled (.frame c' f) = some (c', f.channelNumber, tag) := by
        simp only [Broker.cancelled, hn, hm, isOpened, htag, ne_eq, not_false_eq_true, and_self,
          if_true]
      rw [dispatch_cancel_state hn hm] at registered
      exact allowed _ named before registered
    · have old : b.state.Registered c' n tag := by
        rcases dispatch_cases env c f b with quietly | ⟨op, m, asked, first, later⟩
        · rwa [quietly.1] at registered
        · rw [later.1, after_call] at registered
          rcases State.registered_of_call registered with was | ⟨q, s, rfl, done⟩
          · rwa [first.1] at was
          · exfalso
            obtain ⟨pre, hpre, _⟩ := first.2.events
            obtain ⟨post, hpost, _⟩ := later.2.events
            rw [after_call, done, hpre] at hpost
            rw [trace] at hpost
            have split : new = pre ++ .call c (.registerConsumer c' tag q n) (some true) :: post := by
              simpa using hpost
            obtain ⟨rfl, _⟩ := asked
            exact quiet _ (by rw [split]; simp) ⟨q, rfl⟩
      exact h.gone c' n tag earlier before old

theorem cancelInvariant_http (h : CancelInvariant b) (op : HttpOp) :
    CancelInvariant (after (op.run env) b) := by
  obtain ⟨conns, ⟨new, trace, pushes⟩, old, _⟩ := http_after env op b
  have stopped_before : ∀ c n tag,
      History.Stopped (Event.cancels c n tag) (Event.registers c n tag) (b.trace ++ new) →
      History.Stopped (Event.cancels c n tag) (Event.registers c n tag) b.trace := by
    intro c n tag stopped
    rcases History.stopped_append_cases stopped with ⟨e, he, rfl⟩ | ⟨before, _⟩
    · obtain ⟨p, same, _⟩ := pushes _ he
      cases same
    · exact before
  constructor
  · intro c n tag
    rw [trace]
    refine History.quietAfter_append (h.final c n tag) ?_ ?_
    · rintro e he ⟨p, rfl, rfl, rfl, rfl⟩ stopped
      obtain ⟨p', same, receives⟩ := pushes _ he
      cases same
      exact h.gone _ _ _ stopped receives.live ⟨p.queue, receives.registered⟩
    · rintro e he rfl
      obtain ⟨p, same, _⟩ := pushes _ he
      cases same
  · intro c n tag stopped live registered
    rw [trace] at stopped
    rw [(conns c).2.2] at live
    obtain ⟨q, member⟩ := registered
    exact h.gone c n tag (stopped_before c n tag stopped) live ⟨q, old q _ member⟩

/-- A turn that neither calls nor pushes nor cancels. -/
theorem CancelInvariant.of_idle {b' : Broker} (h : CancelInvariant b) (state : b'.state = b.state)
    {E : Event → Prop} (idle : ∀ e, E e → ∀ c n tag, ¬ Event.cancels c n tag e ∧
      ¬ Event.delivers c n tag e) (moved : ByConn c E b b') : CancelInvariant b' := by
  obtain ⟨new, trace, events⟩ := moved.events
  constructor
  · intro c' n tag
    rw [trace]
    exact History.quietAfter_append_idle (h.final c' n tag)
      (fun e he => (idle e (events e he) c' n tag).2)
  · intro c' n tag stopped live
    rw [trace] at stopped
    rw [state]
    have before : b.isClosing c' = false := by
      by_cases same : c' = c
      · subst same
        cases hc : b.isClosing c' with
        | false => rfl
        | true =>
            rw [moved.closing hc] at live
            exact live
      · simpa only [Broker.isClosing, moved.others c' same] using live
    rcases History.stopped_append_cases stopped with ⟨e, he, cancels⟩ | ⟨earlier, _⟩
    · exact absurd cancels (idle e (events e he) c' n tag).1
    · exact h.gone c' n tag earlier before

theorem cancelInvariant_turn (t : Turn) (h : CancelInvariant b) (allowed : CancelsNobody b t) :
    CancelInvariant (Turn.step env b t) := by
  cases t with
  | frame c f => exact cancelInvariant_frame h allowed
  | http op => exact cancelInvariant_http h op
  | lost c =>
      have moved : ByConn c (fun _ => False) b (after (close c) b) :=
        byConn_onTransport (fun _ _ => rfl) b
      exact h.of_idle rfl (fun _ no => no.elim) moved
  | start c =>
      refine h.of_idle (Turn.start_state env b c) ?_ (Turn.start_byConn env b c)
      rintro e (rfl | rfl) c' n tag <;> exact ⟨by simp [Event.cancels], by simp [Event.delivers]⟩

end

/-- If every basic.cancel treated on an opened channel names a consumer that no queue holds, or
comes from a closing connection, then cancellation is final throughout the run. -/
theorem cancel_final (env : Env) (draws : Nat → Draw) (actions : List Action)
    (h : Runs.Along (Turn.step env) CancelsNobody (Broker.init env draws)
      (Server.turnsOf env (Server.init env draws) actions)) :
    CancelFinal (Runs.run (Server.step env) (Server.init env draws) actions).broker.trace := by
  have start : CancelInvariant (Broker.init env draws) :=
    ⟨fun _ _ _ => History.quietAfter_nil _ _ _,
      fun _ _ _ stopped => absurd stopped (History.not_stopped_nil _ _)⟩
  rw [Server.run_refines]
  exact (Runs.invariant_along (fun _ t hb allowed => cancelInvariant_turn t hb allowed) start
    h).final

def cancel (c : ConnId) (consumerTag : String) : List Action :=
  [.dataReceived c (methodBytes 1 60 30 "sb" [.str (str consumerTag), .bool false])]

def publishIn (queueName : String) : List Action :=
  [.http (.publishMessageInQueue (str queueName) greeting)]

/-- The consumer that is cancelled was never registered. -/
theorem cancel_final_of_stranger :
    CancelFinal (session (oneConsumer ++ cancel 0 "other" ++ publishIn "q")).broker.trace :=
  cancel_final guestEnv _ _ (by decide +kernel)

/-- A consumer is cancelled, the cancellation is confirmed, and the next message is pushed to
the consumer. -/
theorem cancelled_consumer_served :
    ¬ CancelFinal (session (oneConsumer ++ cancel 0 "t" ++ publishIn "q")).broker.trace := by
  intro final
  have quiet := final 0 1 (str "t")
  revert quiet
  decide +kernel

/-! ## Several consumers on one queue -/

/-- The registration that a turn is a basic.consume of, on an opened channel: connection,
channel, tag and queue. -/
def Broker.consuming (b : Broker) : Turn → Option (ConnId × Nat × Str × Str)
  | .frame c f =>
      if f.channelNumber ≠ 0 ∧ f.methodId = some .basicConsume ∧
          b.channelIsOpened c f.channelNumber = true then
        match f.argStr .consumerTag, f.argStr .queueName with
        | .ok tag, .ok q => some (c, f.channelNumber, tag, q)
        | _, _ => none
      else none
  | _ => none

/-- On its queue, the tag of the registration is free or the registering channel's own. -/
def EvictsNobody (b : Broker) (t : Turn) : Prop :=
  ∀ k ∈ b.consuming t, ∀ p ∈ b.state.consumersOf k.2.2.2, p.1 = k.2.2.1 →
    p.2 = { protocol := k.1, channelNumber := k.2.1 }

instance (b : Broker) (t : Turn) : Decidable (EvictsNobody b t) :=
  inferInstanceAs (Decidable (∀ k ∈ b.consuming t, ∀ p ∈ _, _ → _ = _))

/-- The consumers of other channels stay registered. -/
def KeepsOthers (c : ConnId) (n : Nat) (b b' : Broker) : Prop :=
  ∀ q, ∀ p ∈ b.state.consumersOf q, p.2 ≠ { protocol := c, channelNumber := n } →
    p ∈ b'.state.consumersOf q

section
variable {env : Env} {c : ConnId} {f : FrameValue} {b : Broker} {n : Nat} {tag q : Str}

theorem consuming_frame {k : ConnId × Nat × Str × Str} (h : b.consuming (.frame c f) = some k) :
    f.channelNumber ≠ 0 ∧ f.methodId = some .basicConsume ∧
      b.channelIsOpened c f.channelNumber = true ∧ ∃ tag q, f.argStr .consumerTag = .ok tag ∧
      f.argStr .queueName = .ok q ∧ k = (c, f.channelNumber, tag, q) := by
  simp only [Broker.consuming] at h
  split at h
  · rename_i guard
    split at h
    · rename_i tag q htag hq
      exact ⟨guard.1, guard.2.1, guard.2.2, tag, q, htag, hq, (Option.some.inj h).symm⟩
    · cases h
  · cases h

/-- A basic.consume on an opened channel does register. -/
theorem dispatch_consuming (h : b.consuming (.frame c f) = some (c, n, tag, q)) :
    (after (dispatch env c f) b).state = (b.state.registerConsumer c tag q n).2 := by
  obtain ⟨hn, hm, isOpened, tag', q', htag, hq, same⟩ := consuming_frame h
  cases same
  have state : (b.channel c f.channelNumber).state = .opened := by
    simpa [Broker.channelIsOpened] using isOpened
  have branch : treatOpenedChannelFrame env c f.channelNumber (b.channel c f.channelNumber) f =
      (call env c (.registerConsumer c tag q f.channelNumber) >>= fun _ =>
        reply c (.basicConsumeOk f.channelNumber tag)) := by
    simp only [treatOpenedChannelFrame, hm, htag, hq, attempt_bind_ok]
  rw [after_dispatch_channel hn, treatFrameOn_opened state (by simp [hm]), branch]
  let b1 := b.received c f
  have called : call env c (.registerConsumer c tag q f.channelNumber) b1 =
      .ok _ (after (call env c (.registerConsumer c tag q f.channelNumber)) b1) := rfl
  rw [after_congr (bind_ok called), sameState_reply c _ _, after_call]
  exact congrArg (fun s => (State.registerConsumer c tag q f.channelNumber s).2)
    (b.received_state (c := c) (f := f))

/-- A frame leaves the consumers alone or registers one. -/
theorem frame_consumers (env : Env) (c : ConnId) (f : FrameValue) (b : Broker) :
    State.SameConsumers b.state (after (dispatch env c f) b).state ∨
      ∃ n tag q, b.consuming (.frame c f) = some (c, n, tag, q) ∧
        (after (dispatch env c f) b).state = (b.state.registerConsumer c tag q n).2 := by
  rcases dispatch_state_cases env c f b with same | ⟨op, asked, state⟩
  · exact .inl fun _ => by rw [same]
  · by_cases registers : ∃ tag q n, op = .registerConsumer c tag q n
    · obtain ⟨tag, q, n, rfl⟩ := registers
      obtain ⟨_, ⟨hm, rfl, hn⟩, htag, hq⟩ := asked
      by_cases isOpened : b.channelIsOpened c f.channelNumber = true
      · refine .inr ⟨f.channelNumber, tag, q, ?_, state⟩
        simp only [Broker.consuming, hn, hm, isOpened, htag, hq, ne_eq, not_false_eq_true,
          and_self, if_true]
      · have kept := (dispatch_shut env hn hm (by decide) (by decide)
          (by simpa using isOpened)).2
        exact .inl fun _ => by rw [kept]
    · left
      rw [state]
      cases op with
      | registerConsumer c' tag q n =>
          exact absurd ⟨tag, q, n, by rw [asked.1]⟩ registers
      | _ => exact State.sameConsumers_call (by simp)

theorem keepsOthers_iff (h : b.consuming (.frame c f) = some (c, n, tag, q)) :
    KeepsOthers c n b (after (dispatch env c f) b) ↔ EvictsNobody b (.frame c f) := by
  have free : EvictsNobody b (.frame c f) ↔ ∀ p ∈ b.state.consumersOf q, p.1 = tag →
      p.2 = { protocol := c, channelNumber := n } := by
    simp [EvictsNobody, h]
  rw [free]
  unfold KeepsOthers
  rw [dispatch_consuming h]
  cases hq : b.state.queues.get? q with
  | none =>
      have empty : b.state.consumersOf q = [] := by simp only [State.consumersOf, hq]
      have unchanged : (b.state.registerConsumer c tag q n).2 = b.state := by
        simp only [State.registerConsumer, hq]
      rw [unchanged, empty]
      exact iff_of_true (fun _ _ hp _ => hp) (fun _ hp => by cases hp)
  | some queue =>
      constructor
      · intro kept p hp sameTag
        by_contra other
        rcases (State.mem_registerConsumer hq).mp (kept q p hp other) with ⟨_, rfl⟩ | ⟨ne, _⟩
        · exact other rfl
        · exact ne rfl sameTag
      · intro free q' p hp other
        refine (State.mem_registerConsumer hq).mpr (.inr ⟨?_, hp⟩)
        rintro rfl sameTag
        exact other (free p hp sameTag)

/-- A transport that is closing stays so. -/
theorem turn_closing (env : Env) (b : Broker) (t : Turn) {c : ConnId}
    (h : b.isClosing c = true) : (Turn.step env b t).isClosing c = true := by
  have moved : ∀ {c' E b'}, ByConn c' E b b' → b'.isClosing c = true := by
    intro c' E b' moved
    by_cases same : c = c'
    · subst same
      exact moved.closing h
    · simpa only [Broker.isClosing, moved.others c same] using h
  cases t with
  | frame c' f => exact moved (dispatch_byConn env c' f b)
  | start c' => exact moved (Turn.start_byConn env b c')
  | lost c' =>
      have closed : ByConn c' (fun _ => True) b (after (close c') b) :=
        byConn_onTransport (fun _ _ => rfl) b
      exact moved closed
  | http op => exact ((http_after env op b).connections c).2.2.trans h

/-- In a turn that evicts nobody, consumers on live transports stay registered. -/
theorem turn_keeps {t : Turn} (allowed : EvictsNobody b t) (noReset : t ≠ .http .reset)
    {p : Str × Consumer} (hp : p ∈ b.state.consumersOf q)
    (live : b.isClosing p.2.protocol = false) : p ∈ (Turn.step env b t).state.consumersOf q := by
  cases t with
  | frame c f =>
      rcases frame_consumers env c f b with same | ⟨n, tag, q', h, state⟩
      · exact (same q).symm ▸ hp
      · by_cases own : p.2 = { protocol := c, channelNumber := n }
        · -- the channel registers its own consumer anew, under this tag or another
          have after_eq : (Turn.step env b (.frame c f)).state =
              (b.state.registerConsumer c tag q' n).2 := state
          rw [after_eq]
          cases hq : b.state.queues.get? q' with
          | none =>
              have unchanged : (b.state.registerConsumer c tag q' n).2 = b.state := by
                simp only [State.registerConsumer, hq]
              rwa [unchanged]
          | some queue =>
              refine (State.mem_registerConsumer hq).mpr ?_
              by_cases here : q = q' ∧ p.1 = tag
              · exact .inl ⟨here.1, Prod.ext here.2 own⟩
              · exact .inr ⟨fun hqq ht => here ⟨hqq, ht⟩, hp⟩
        · exact (keepsOthers_iff h).mpr allowed q p hp own
  | start c => exact (Turn.start_state env b c).symm ▸ hp
  | lost c => exact hp
  | http op => exact (http_after env op b).kept (fun h => noReset (h ▸ rfl)) q p hp live

theorem run_keeps {turns : List Turn} (allowed : Runs.Along (Turn.step env) EvictsNobody b turns)
    (noReset : ∀ t ∈ turns, t ≠ .http .reset) {p : Str × Consumer}
    (hp : p ∈ b.state.consumersOf q)
    (live : (Runs.run (Turn.step env) b turns).isClosing p.2.protocol = false) :
    p ∈ (Runs.run (Turn.step env) b turns).state.consumersOf q := by
  have closing_run : ∀ (turns : List Turn) (b : Broker), b.isClosing p.2.protocol = true →
      (Runs.run (Turn.step env) b turns).isClosing p.2.protocol = true := by
    intro turns b
    exact fun h => Runs.invariant (I := fun b : Broker => b.isClosing p.2.protocol = true)
      (fun b t hb => turn_closing env b t hb) h turns
  induction turns generalizing b with
  | nil => exact hp
  | cons t rest ih =>
      have now : b.isClosing p.2.protocol = false := by
        by_contra closing
        have still := closing_run (t :: rest) b (by simpa using closing)
        rw [still] at live
        cases live
      exact ih allowed.2 (fun t' ht' => noReset t' (by simp [ht']))
        (turn_keeps allowed.1 (noReset t (by simp)) hp now) live

end

/-- A registration keeps the consumers of other channels exactly if its tag is not held by one of
them on that queue; and in a run of such registrations without a reset, every consumer whose
transport is not closing is still registered. -/
theorem consumers_kept_iff (env : Env) (b : Broker) :
    (∀ c f n tag q, b.consuming (.frame c f) = some (c, n, tag, q) →
      (KeepsOthers c n b (after (dispatch env c f) b) ↔ EvictsNobody b (.frame c f))) ∧
    ∀ turns, Runs.Along (Turn.step env) EvictsNobody b turns → (∀ t ∈ turns, t ≠ .http .reset) →
      ∀ q, ∀ p ∈ b.state.consumersOf q,
        (Runs.run (Turn.step env) b turns).isClosing p.2.protocol = false →
        p ∈ (Runs.run (Turn.step env) b turns).state.consumersOf q :=
  ⟨fun _ _ _ _ _ h => keepsOthers_iff h,
    fun _ allowed noReset _ _ hp live => run_keeps allowed noReset hp live⟩

/-- A basic.consume of queue `q` on channel 1. -/
def consumeFrame (consumerTag : String) : FrameValue :=
  .method { channelNumber := 1, size := 30, methodId := .basicConsume,
            properties := .ofList [(.queueName, .str (str "q")),
              (.consumerTag, .str (str consumerTag))] }

/-- The consumer that `oneConsumer` registers. -/
def firstConsumer : Str × Consumer := (str "t", { protocol := 0, channelNumber := 1 })

theorem consumers_kept_apart :
    let b := (session (oneConsumer ++ logIn 1)).broker
    KeepsOthers 1 1 b (after (dispatch guestEnv 1 (consumeFrame "u")) b) ∧
      firstConsumer ∈ (Runs.run (Turn.step guestEnv) b
        [.frame 1 (consumeFrame "u"), .lost 1]).state.consumersOf (str "q") := by
  intro b
  have facts : b.consuming (.frame 1 (consumeFrame "u")) = some (1, 1, str "u", str "q") ∧
      EvictsNobody b (.frame 1 (consumeFrame "u")) ∧
      firstConsumer ∈ b.state.consumersOf (str "q") ∧
      Runs.Along (Turn.step guestEnv) EvictsNobody b
        [.frame 1 (consumeFrame "u"), .lost 1] ∧
      (Runs.run (Turn.step guestEnv) b [.frame 1 (consumeFrame "u"), .lost 1]).isClosing 0 =
        false := by decide +kernel
  obtain ⟨consuming, evicts, first, along, live⟩ := facts
  have kept := consumers_kept_iff guestEnv b
  exact ⟨(kept.1 _ _ _ _ _ consuming).mpr evicts,
    kept.2 _ along (by simp) _ firstConsumer first live⟩

/-- A second connection consumes under the tag of the first, whose consumer is gone although its
transport is not closing. -/
theorem consumer_evicted_by_tag :
    firstConsumer ∈ (session (oneConsumer ++ logIn 1)).broker.state.consumersOf (str "q") ∧
      firstConsumer ∉
        (session (oneConsumer ++ logIn 1 ++ consume 1 "q" "t")).broker.state.consumersOf
          (str "q") ∧
      (session (oneConsumer ++ logIn 1 ++ consume 1 "q" "t")).broker.isClosing 0 = false := by
  decide +kernel

end MockAmqp
