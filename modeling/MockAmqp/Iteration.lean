import MockAmqp.Operations
import MockAmqp.Oblivious

/-!
# The order in which a set is iterated

Python leaves the order of a set of queue names open. The order decides which queue a publication
serves: to whom the message is pushed, which of the consumers that have gone are dropped, and what
an HTTP publication is answered. Nothing else that is stored or sent depends on it, and the
consumers whose transports are open are the same.
-/

namespace MockAmqp
open Exec

namespace State

/-- The states differ at most in who consumes from the queues. -/
structure SameStored (s s' : State) : Prop where
  rest : { s with queues := s'.queues } = s'
  queues : ∀ q, s.queues.contains q = s'.queues.contains q
  messages : ∀ q, s.messagesIn q = s'.messagesIn q

section
variable {s s' s'' : State}

theorem sameStored_refl (s : State) : SameStored s s := ⟨rfl, fun _ => rfl, fun _ => rfl⟩

theorem SameStored.symm (h : SameStored s s') : SameStored s' s where
  rest := by rw [← h.rest]
  queues := fun q => (h.queues q).symm
  messages := fun q => (h.messages q).symm

theorem SameStored.trans (h : SameStored s s') (k : SameStored s' s'') : SameStored s s'' where
  rest := by rw [← k.rest, ← h.rest]
  queues := fun q => (h.queues q).trans (k.queues q)
  messages := fun q => (h.messages q).trans (k.messages q)

theorem SameStored.exchanges (h : SameStored s s') : s.exchanges = s'.exchanges := by
  rw [← h.rest]

theorem SameStored.bound (h : SameStored s s') :
    s.queuesBoundExchanges = s'.queuesBoundExchanges := by
  rw [← h.rest]

theorem SameStored.setQueue (h : SameStored s s') (n : Str) {q q' : Queue}
    (messages : q.messages = q'.messages) :
    SameStored (s.setQueue n q) (s'.setQueue n q') where
  rest := by
    rw [← h.rest]
    rfl
  queues := fun m => by
    have same := h.queues m
    by_cases hm : m = n
    · simp [State.setQueue, OrderedDict.contains, hm]
    · simpa [State.setQueue, OrderedDict.contains, hm] using same
  messages := fun m => by
    rw [messagesIn_setQueue, messagesIn_setQueue, messages, h.messages]

/-- The same queues are declared, with the same messages. -/
theorem SameStored.get? (h : SameStored s s') (n : Str) :
    (s.queues.get? n = none ∧ s'.queues.get? n = none) ∨
      ∃ q q', s.queues.get? n = some q ∧ s'.queues.get? n = some q' ∧ q.messages = q'.messages := by
  have declared := h.queues n
  have messages := h.messages n
  cases left : s.queues.get? n with
  | none =>
      cases right : s'.queues.get? n with
      | none => exact .inl ⟨rfl, rfl⟩
      | some q' => simp [OrderedDict.contains, left, right] at declared
  | some q =>
      cases right : s'.queues.get? n with
      | none => simp [OrderedDict.contains, left, right] at declared
      | some q' =>
          rw [messagesIn_eq left, messagesIn_eq right] at messages
          exact .inr ⟨q, q', rfl, rfl, messages⟩

theorem SameStored.bindQueue (h : SameStored s s') (queue exchange : Str) :
    (s.bindQueue queue exchange).1 = (s'.bindQueue queue exchange).1 ∧
      SameStored (s.bindQueue queue exchange).2 (s'.bindQueue queue exchange).2 := by
  unfold State.bindQueue
  rw [h.exchanges, h.queues, h.bound]
  split
  · exact ⟨rfl, h⟩
  · split
    · exact ⟨rfl, h⟩
    · exact ⟨rfl, by rw [← h.rest], h.queues, h.messages⟩

theorem SameStored.checkCredentials (h : SameStored s s') (username password : Str) :
    (s.checkCredentials username password).1 = (s'.checkCredentials username password).1 ∧
      SameStored (s.checkCredentials username password).2
        (s'.checkCredentials username password).2 := by
  have users : s.users = s'.users := by rw [← h.rest]
  unfold State.checkCredentials
  rw [users]
  exact ⟨rfl, by rw [← h.rest], h.queues, h.messages⟩

theorem SameStored.setExchange (h : SameStored s s') (name : Str) (e : Exchange) :
    SameStored (s.setExchange name e) (s'.setExchange name e) :=
  ⟨by rw [← h.rest]; rfl, h.queues, h.messages⟩

theorem SameStored.declareExchange (h : SameStored s s') (name type : Str) :
    (s.declareExchange name type).1 = (s'.declareExchange name type).1 ∧
      SameStored (s.declareExchange name type).2 (s'.declareExchange name type).2 := by
  unfold State.declareExchange
  rw [h.exchanges]
  cases s'.exchanges.get? name with
  | none => exact ⟨rfl, h.setExchange name _⟩
  | some e => exact ⟨rfl, h⟩

theorem SameStored.declareQueue (h : SameStored s s') (name : Str) :
    (s.declareQueue name).1 = (s'.declareQueue name).1 ∧
      SameStored (s.declareQueue name).2 (s'.declareQueue name).2 := by
  unfold State.declareQueue
  rw [h.queues]
  split
  · exact ⟨rfl, h⟩
  · exact ⟨rfl, ((h.setQueue name rfl).bindQueue name []).2⟩

theorem SameStored.registerConsumer (h : SameStored s s') (c : ConnId) (tag name : Str) (n : Nat) :
    (s.registerConsumer c tag name n).1 = (s'.registerConsumer c tag name n).1 ∧
      SameStored (s.registerConsumer c tag name n).2 (s'.registerConsumer c tag name n).2 := by
  unfold State.registerConsumer
  rcases h.get? name with ⟨left, right⟩ | ⟨q, q', left, right, messages⟩
  · rw [left, right]
    exact ⟨rfl, h⟩
  · rw [left, right]
    exact ⟨rfl, h.setQueue name messages⟩

theorem SameStored.deleteMessagesOfQueue (h : SameStored s s') (name : Str) :
    SameStored (s.deleteMessagesOfQueue name) (s'.deleteMessagesOfQueue name) := by
  unfold State.deleteMessagesOfQueue
  rcases h.get? name with ⟨left, right⟩ | ⟨q, q', left, right, _⟩
  · rw [left, right]
    exact h
  · rw [left, right]
    exact h.setQueue name rfl

theorem SameStored.deleteMessagesOfExchange (h : SameStored s s') (name : Str) :
    SameStored (s.deleteMessagesOfExchange name) (s'.deleteMessagesOfExchange name) := by
  unfold State.deleteMessagesOfExchange
  rw [h.exchanges]
  cases s'.exchanges.get? name with
  | none => exact h
  | some e => exact h.setExchange name _

theorem SameStored.messageAck (h : SameStored s s') (tag : Int) :
    SameStored (s.messageAck tag) (s'.messageAck tag) :=
  ⟨by rw [← h.rest]; rfl, h.queues, h.messages⟩

theorem SameStored.messageNack (h : SameStored s s') (tag : Int) (requeue : Bool) :
    SameStored (s.messageNack tag requeue) (s'.messageNack tag requeue) := by
  cases requeue <;> exact ⟨by rw [← h.rest]; rfl, h.queues, h.messages⟩

/-- Whoever consumes from a queue is not stored. -/
theorem sameStored_deleteConsumers (s : State) (name : Str) (dead : List Str) :
    SameStored s (s.deleteConsumers name dead) := by
  have same := sameContents_deleteConsumers s name dead
  refine ⟨?_, fun q => (same.queues q).symm, fun q => ?_⟩
  · unfold deleteConsumers
    cases s.queues.get? name <;> rfl
  · rw [same.messagesIn, List.append_nil]

theorem SameStored.names (h : SameStored s s') : s.names = s'.names := by
  have queues : s.queues.contains = s'.queues.contains := funext h.queues
  have bound : s.isBound = s'.isBound := by
    funext e q
    unfold isBound
    rw [h.bound]
  unfold State.names State.declared
  rw [queues, bound, h.exchanges]

/-- Only queues are written to by the loop over the bound queues. -/
theorem appendToQueues_rest (m : StoredMessage) (queues : List Str) :
    Within (fun s s' : State => { s with queues := s'.queues } = s') (appendToQueues m queues) := by
  have progress : Progress fun s s' : State => { s with queues := s'.queues } = s' :=
    ⟨fun _ => rfl, fun h k => by rw [← k, ← h]⟩
  induction queues with
  | nil => exact within_pure progress _
  | cons n rest ih =>
      refine within_bind progress ?_ fun _ => ih
      intro s
      unfold after appendToQueue
      cases s.queues.get? n <;> rfl

theorem storeMessage_rest (env : Env) {e : Str} (headers data : Val) {exchange : Exchange}
    (declared : s.exchanges.get? e = some exchange) :
    { s.setExchange e { exchange with messages := exchange.messages ++ [{ headers, body := data }] }
      with queues := (after (storeMessage env e headers data) s).queues } =
        after (storeMessage env e headers data) s := by
  have present : s.exchanges.contains e = true := contains_iff.mpr ⟨exchange, declared⟩
  generalize moved : s.setExchange e
    { exchange with messages := exchange.messages ++ [{ headers, body := data }] } = s1
  have stored : appendToExchange e { headers, body := data } s = .ok () s1 := by
    simp only [appendToExchange, declared, moved]
  have run : storeMessage env e headers data s =
      (do appendToQueues { headers, body := data } (s1.boundQueues env e); return true :
        EStateM PyError State Bool) s1 := by
    unfold storeMessage
    rw [bind_apply, read_apply]
    simp only [present, not_true_eq_false, if_false]
    rw [bind_ok stored]
    rfl
  rw [after_congr run, after_bind_pure]
  exact appendToQueues_rest _ _ s1

/-- A message is stored in the same queues in whatever order they are visited. -/
theorem SameStored.storeMessage (h : SameStored s s') (integral : s.Integral)
    (integral' : s'.Integral) (env env' : Env) (e : Str) (headers data : Val) :
    ∃ ok t t', storeMessage env e headers data s = .ok ok t ∧
      State.storeMessage env' e headers data s' = .ok ok t' ∧ SameStored t t' := by
  cases declared : s.exchanges.get? e with
  | none =>
      have absent : s.exchanges.contains e = false := by simp [OrderedDict.contains, declared]
      exact ⟨false, s, s', storeMessage_refused env absent headers data,
        storeMessage_refused env' (h.exchanges ▸ absent) headers data, h⟩
  | some exchange =>
      have present : s.exchanges.contains e = true := contains_iff.mpr ⟨exchange, declared⟩
      obtain ⟨t, ran⟩ := storeMessage_ok env integral present headers data
      obtain ⟨t', ran'⟩ := storeMessage_ok env' integral' (h.exchanges ▸ present) headers data
      refine ⟨true, t, t', ran, ran', ?_⟩
      have names := sameNames_storeMessage env e headers data s
      have names' := sameNames_storeMessage env' e headers data s'
      have effect := (effect_storeMessage env integral e headers data).messagesIn
      have effect' := (effect_storeMessage env' integral' e headers data).messagesIn
      have rest := storeMessage_rest env headers data declared
      have rest' := storeMessage_rest env' headers data (h.exchanges ▸ declared)
      rw [after_ok ran] at names effect rest
      rw [after_ok ran'] at names' effect' rest'
      refine ⟨?_, fun q => ?_, fun q => ?_⟩
      · rw [← rest, ← rest', ← h.rest]
        rfl
      · rw [names.queues, names'.queues, h.queues]
      · rw [effect, effect', h.messages, h.names]

/-- What a frame calls is stored and answered alike. -/
theorem calls_iterated {env env' : Env} (op : Call) :
    Lockstep (fun s s' => SameStored s s' ∧ s.Integral ∧ s'.Integral) Eq (op.run env)
      (op.run env') := by
  rintro s s' ⟨h, integral, integral'⟩
  have kept := integral_call env op s integral
  have kept' := integral_call env' op s' integral'
  have both : ∀ {r r' : Bool × State}, r.1 = r'.1 ∧ SameStored r.2 r'.2 → r.2.Integral →
      r'.2.Integral → Alongside (fun s s' => SameStored s s' ∧ s.Integral ∧ s'.Integral) Eq
        (.ok r.1 r.2 : EStateM.Result PyError State Bool) (.ok r'.1 r'.2) :=
    fun same k k' => .ok same.1 ⟨same.2, k, k'⟩
  cases op with
  | checkCredentials username password =>
      exact both (h.checkCredentials username password) kept kept'
  | declareExchange name type => exact both (h.declareExchange name type) kept kept'
  | declareQueue name => exact both (h.declareQueue name) kept kept'
  | bindQueue queue exchange => exact both (h.bindQueue queue exchange) kept kept'
  | registerConsumer c tag name n => exact both (h.registerConsumer c tag name n) kept kept'
  | storeMessage e headers data =>
      obtain ⟨ok, t, t', ran, ran', same⟩ := h.storeMessage integral integral' env env' e headers data
      have left : t.Integral := by
        have ended : after (Call.run env (.storeMessage e headers data)) s = t := after_ok ran
        exact ended ▸ kept
      have right : t'.Integral := by
        have ended : after (Call.run env' (.storeMessage e headers data)) s' = t' := after_ok ran'
        exact ended ▸ kept'
      have called : Call.run env (.storeMessage e headers data) s = .ok ok t := ran
      have called' : Call.run env' (.storeMessage e headers data) s' = .ok ok t' := ran'
      rw [called, called']
      exact .ok rfl ⟨same, left, right⟩
  | messageAck tag => exact .ok rfl ⟨h.messageAck tag, kept, kept'⟩
  | messageNack tag requeue => exact .ok rfl ⟨h.messageNack tag requeue, kept, kept'⟩

/-- The queues have the same consumers on these connections. -/
def SameServed (live : ConnId → Prop) (s s' : State) : Prop :=
  ∀ q p, live p.2.protocol → (p ∈ s.consumersOf q ↔ p ∈ s'.consumersOf q)

/-- A consumer is registered alike, whatever has become of the others. -/
theorem SameServed.registerConsumer {live : ConnId → Prop} (h : SameServed live s s')
    (stored : SameStored s s') (c : ConnId) (tag name : Str) (n : Nat) :
    SameServed live (s.registerConsumer c tag name n).2 (s'.registerConsumer c tag name n).2 := by
  intro q p known
  rcases stored.get? name with ⟨left, right⟩ | ⟨_, _, left, right, _⟩
  · have unchanged : (s.registerConsumer c tag name n).2 = s := by
      simp only [State.registerConsumer, left]
    have unchanged' : (s'.registerConsumer c tag name n).2 = s' := by
      simp only [State.registerConsumer, right]
    rw [unchanged, unchanged']
    exact h q p known
  · rw [mem_registerConsumer left, mem_registerConsumer right, h q p known]

theorem SameServed.call {live : ConnId → Prop} (h : SameServed live s s')
    (stored : SameStored s s') (env env' : Env) (op : Call) :
    SameServed live (after (op.run env) s) (after (op.run env') s') := by
  by_cases registers : ∃ c tag q n, op = .registerConsumer c tag q n
  · obtain ⟨c, tag, q, n, rfl⟩ := registers
    exact h.registerConsumer stored c tag q n
  · have other : ∀ c tag q n, op ≠ .registerConsumer c tag q n :=
      fun c tag q n same => registers ⟨c, tag, q, n, same⟩
    intro q p known
    rw [sameConsumers_call other q, sameConsumers_call other q]
    exact h q p known

end

end State

/-! ## Publications -/

/-- Everything but the pushes. -/
def Event.unpushed : Event → Option Event
  | .push _ => none
  | e => some e

/-- Two brokers that have stored the same, whatever they have pushed, and to whom. -/
def pushless : Likeness Event where
  state := State.SameStored
  draw := fun _ _ => True
  sees := Event.unpushed

def SamePublished : Broker → Broker → Prop := Alike pushless

section
variable {b b' b'' : Broker}

theorem SamePublished.symm (h : SamePublished b b') : SamePublished b' b where
  state := h.state.symm
  draws := fun _ => trivial
  parser := fun c known => (h.parser c known).symm
  channels := fun c known => (h.channels c known).symm
  closing := fun c known => (h.closing c known).symm
  trace := h.trace.symm

theorem SamePublished.trans (h : SamePublished b b') (k : SamePublished b' b'') :
    SamePublished b b'' where
  state := h.state.trans k.state
  draws := fun _ => trivial
  parser := fun c known => (h.parser c known).trans (k.parser c known)
  channels := fun c known => (h.channels c known).trans (k.channels c known)
  closing := fun c known => (h.closing c known).trans (k.closing c known)
  trace := h.trace.trans k.trace

theorem samePublished_of_state (h : SamePublished b b') {s s' : State}
    (same : State.SameStored s s') :
    SamePublished { b with state := s } { b' with state := s' } :=
  ⟨same, h.draws, h.parser, h.channels, h.closing, h.trace⟩

theorem samePublished_of_pushes (connections : SameConnections b b') (pushed : PushesOnly b b')
    (same : State.SameStored b.state b'.state) : SamePublished b b' where
  state := same
  draws := fun _ => trivial
  parser := fun c _ => (connections c).1.symm
  channels := fun c _ => (connections c).2.1.symm
  closing := fun c _ => (connections c).2.2.symm
  trace := by
    obtain ⟨new, trace, only⟩ := pushed
    have forgotten : new.filterMap Event.unpushed = [] := by
      refine List.filterMap_eq_nil_iff.mpr fun e he => ?_
      obtain ⟨p, rfl, _⟩ := only e he
      rfl
    show b.trace.filterMap Event.unpushed = b'.trace.filterMap Event.unpushed
    rw [trace, List.filterMap_append, forgotten, List.append_nil]

theorem samePublished_refl (b : Broker) : SamePublished b b :=
  ⟨State.sameStored_refl _, fun _ => trivial, fun _ _ => rfl, fun _ _ => rfl, fun _ _ => rfl, rfl⟩

theorem serveQueue_samePublished (queueName : Str) (pub : Publication) (exchangeName : Str) :
    Within SamePublished (serveQueue queueName pub exchangeName) := by
  intro b
  obtain ⟨published, pushed⟩ :
      Published b (after (serveQueue queueName pub exchangeName) b) ∧
        PushesOnly b (after (serveQueue queueName pub exchangeName) b) := serveQueue_after b
  refine samePublished_of_pushes published.connections pushed ?_
  have progress : Progress fun b b' : Broker => State.SameStored b.state b'.state :=
    ⟨fun b => State.sameStored_refl b.state, fun h k => h.trans k⟩
  have table : Within (fun b b' : Broker => State.SameStored b.state b'.state)
      (getConsumers queueName) := by
    intro b
    unfold after getConsumers
    cases b.state.queues.get? queueName <;> exact State.sameStored_refl b.state
  refine within_bind progress table (fun consumers => within_bind progress ?_ fun r => ?_) b
  · intro b
    rw [(offer_after queueName exchangeName pub b consumers.entries).1]
    exact State.sameStored_refl b.state
  · have cleaned : Within (fun b b' : Broker => State.SameStored b.state b'.state)
        (update fun b : Broker =>
          { b with state := b.state.deleteConsumers queueName r.2 } : OnBroker Unit) :=
      fun b => State.sameStored_deleteConsumers b.state queueName r.2
    exact within_bind progress cleaned fun _ => within_pure progress _

/-- A publication stores the message; whom it is pushed to makes no other difference. -/
theorem publishMessage_samePublished (env : Env) (e : Str) (pub : Publication) (b : Broker) :
    SamePublished { b with state := after (State.appendToExchange e pub.stored) b.state }
      (after (publishMessage env e pub) b) := by
  cases declared : b.state.exchanges.get? e with
  | none =>
      have absent : b.state.exchanges.contains e = false := by
        simp [OrderedDict.contains, declared]
      rw [after_ok (publishMessage_undeclared absent)]
      have same : after (State.appendToExchange e pub.stored) b.state = b.state := by
        simp only [after, State.appendToExchange, declared]
      rw [same]
      exact samePublished_refl b
  | some exchange =>
      have same : after (State.appendToExchange e pub.stored) b.state = b.state.setExchange e
          { exchange with messages := exchange.messages ++ [pub.stored] } := by
        simp only [after, State.appendToExchange, declared]
      rw [after_congr (publishMessage_declared declared), same]
      cases b.state.boundQueues env e with
      | nil => exact samePublished_refl _
      | cons queueName _ => exact serveQueue_samePublished queueName pub e _

theorem publishMessageInQueue_samePublished (name : Str) (pub : Publication) (b : Broker) :
    SamePublished { b with state := after (State.appendToQueue name pub.stored) b.state }
      (after (publishMessageInQueue name pub) b) := by
  cases declared : b.state.queues.get? name with
  | none =>
      have absent : b.state.queues.contains name = false := by
        simp [OrderedDict.contains, declared]
      rw [after_ok (publishMessageInQueue_undeclared absent)]
      have same : after (State.appendToQueue name pub.stored) b.state = b.state := by
        simp only [after, State.appendToQueue, declared]
      rw [same]
      exact samePublished_refl b
  | some q =>
      have same : after (State.appendToQueue name pub.stored) b.state = b.state.setQueue name
          { q with messages := q.messages ++ [pub.stored] } := by
        simp only [after, State.appendToQueue, declared]
      rw [after_congr (publishMessageInQueue_declared declared), same]
      exact serveQueue_samePublished name pub _ _

/-- The same account, with sets iterated as `other` does. -/
def Env.iterating (env other : Env) : Env :=
  { env with setOrder := other.setOrder, setOrder_perm := other.setOrder_perm }

/-- Requests store alike in whatever order sets are iterated. -/
theorem http_samePublished (env other : Env) (op : HttpOp) (h : SamePublished b b') :
    SamePublished (after (op.run env) b) (after (op.run (env.iterating other)) b') := by
  have stored : ∀ x : State → State, State.SameStored (x b.state) (x b'.state) →
      SamePublished (after (updateState x) b) (after (updateState x) b') :=
    fun _ same => samePublished_of_state h same
  cases op with
  | reset => exact stored _ (State.sameStored_refl _)
  | declareExchange name type =>
      exact stored (fun s => (s.declareExchange name type).2) (h.state.declareExchange name type).2
  | declareQueue name =>
      exact stored (fun s => (s.declareQueue name).2) (h.state.declareQueue name).2
  | deleteMessagesOfQueue name => exact stored _ (h.state.deleteMessagesOfQueue name)
  | deleteMessagesOfExchange name => exact stored _ (h.state.deleteMessagesOfExchange name)
  | publishMessage e pub =>
      have appended : State.SameStored (after (State.appendToExchange e pub.stored) b.state)
          (after (State.appendToExchange e pub.stored) b'.state) := by
        unfold after State.appendToExchange
        rw [h.state.exchanges]
        cases b'.state.exchanges.get? e with
        | none => exact h.state
        | some exchange => exact h.state.setExchange e _
      have both := ((publishMessage_samePublished env e pub b).symm.trans
        (samePublished_of_state h appended)).trans
          (publishMessage_samePublished (env.iterating other) e pub b')
      unfold HttpOp.run
      rwa [after_bind_pure, after_bind_pure]
  | publishMessageInQueue name pub =>
      have appended : State.SameStored (after (State.appendToQueue name pub.stored) b.state)
          (after (State.appendToQueue name pub.stored) b'.state) := by
        unfold after State.appendToQueue
        rcases h.state.get? name with ⟨left, right⟩ | ⟨q, q', left, right, messages⟩
        · rw [left, right]
          exact h.state
        · rw [left, right]
          exact h.state.setQueue name (congrArg (· ++ [pub.stored]) messages)
      have both := ((publishMessageInQueue_samePublished name pub b).symm.trans
        (samePublished_of_state h appended)).trans (publishMessageInQueue_samePublished name pub b')
      unfold HttpOp.run
      rwa [after_bind_pure, after_bind_pure]

end

/-! ## Runs -/

/-- As above, with the same consumers on these connections, and with what is stored free of
dangling names on both sides. -/
def pushlessServing (live : ConnId → Prop) : Likeness Event :=
  { pushless with state := fun s s' =>
      (State.SameStored s s' ∧ s.Integral ∧ s'.Integral) ∧ State.SameServed live s s' }

section
variable {env other : Env} {live : ConnId → Prop} {b b' : Broker} {s s' : Server}

/-- A request drops none but consumers that have gone. -/
theorem http_served (op : HttpOp) (h : SamePublished b b')
    (served : State.SameServed live b.state b'.state)
    (opened : ∀ c, live c → b.isClosing c = false) :
    State.SameServed live (after (op.run env) b).state
      (after (op.run (env.iterating other)) b').state := by
  have effect := http_after env op b
  have effect' := http_after (env.iterating other) op b'
  intro q p known
  by_cases reset : op = .reset
  · subst reset
    exact Iff.rfl
  · have here : b.isClosing p.2.protocol = false := opened _ known
    have there : b'.isClosing p.2.protocol = false := (h.closing _ trivial).symm.trans here
    have kept : p ∈ (after (op.run env) b).state.consumersOf q ↔ p ∈ b.state.consumersOf q :=
      ⟨effect.old q p, fun member => effect.kept reset q p member here⟩
    have kept' : p ∈ (after (op.run (env.iterating other)) b').state.consumersOf q ↔
        p ∈ b'.state.consumersOf q :=
      ⟨effect'.old q p, fun member => effect'.kept reset q p member there⟩
    rw [kept, kept', served q p known]

theorem step_serving (h : AlikeServers (pushlessServing live) s s')
    (opened : ∀ c, live c → s.broker.isClosing c = false) (a : Action) :
    AlikeServers (pushlessServing live) (Server.step env s a)
      (Server.step (env.iterating other) s' a) := by
  refine step_alike_of (fun _ _ op _ => ?_) h (fun op _ => ?_) fun _ _ => trivial
  · exact (State.calls_iterated op).and fun _ _ stored served =>
      served.call stored.1 env (env.iterating other) op
  · obtain ⟨⟨stored, integral, integral'⟩, served⟩ := h.broker.state
    have same : SamePublished s.broker s'.broker := h.broker.stored stored
    have ended := http_samePublished env other op same
    exact ended.stored ⟨⟨ended.state, integral_http env op _ integral,
      integral_http (env.iterating other) op _ integral'⟩, http_served op same served opened⟩

theorem run_closing {c : ConnId} (closing : s.broker.isClosing c = true) (actions : List Action) :
    (Runs.run (Server.step env) s actions).broker.isClosing c = true := by
  rw [Server.run_refines]
  exact Runs.invariant (I := fun b : Broker => b.isClosing c = true)
    (fun b t sofar => turn_closing env b t sofar) closing _

variable (env other) in
/-- The connections whose consumers are compared have stayed open to the end of the run. -/
theorem run_serving (h : AlikeServers (pushlessServing live) s s') {actions : List Action}
    (opened : ∀ c, live c → (Runs.run (Server.step env) s actions).broker.isClosing c = false) :
    AlikeServers (pushlessServing live) (Runs.run (Server.step env) s actions)
      (Runs.run (Server.step (env.iterating other)) s' actions) := by
  induction actions generalizing s s' with
  | nil => exact h
  | cons a rest ih =>
      have before : ∀ c, live c → s.broker.isClosing c = false := by
        intro c known
        have after := opened c known
        by_contra closed
        rw [run_closing (by simpa using closed) (a :: rest)] at after
        cases after
      exact ih (step_serving h before a) opened

end

/-- Two runs that differ in the order in which sets are iterated and in the tags that are drawn
store the same and, apart from the pushes, do the same. Their queues have the same consumers, but
for those whose transports are closing. -/
theorem iteration_does_not_matter (env other : Env) (draws draws' : Nat → Draw)
    (actions : List Action) :
    let s := Runs.run (Server.step env) (Server.init env draws) actions
    let s' := Runs.run (Server.step (env.iterating other)) (Server.init (env.iterating other) draws')
      actions
    AlikeServers pushless s s' ∧ ∀ q p, s.broker.isClosing p.2.protocol = false →
      (p ∈ s.broker.state.consumersOf q ↔ p ∈ s'.broker.state.consumersOf q) := by
  intro s s'
  have start : AlikeServers (pushlessServing fun c => s.broker.isClosing c = false)
      (Server.init env draws) (Server.init (env.iterating other) draws') :=
    ⟨⟨⟨⟨State.sameStored_refl _, State.integral_init env, State.integral_init _⟩,
      fun _ _ _ => Iff.rfl⟩, fun _ => trivial, fun _ _ => rfl, fun _ _ => rfl, fun _ _ => rfl, rfl⟩,
      fun _ _ => rfl⟩
  have ended := run_serving env other start fun _ (known : s.broker.isClosing _ = false) => known
  exact ⟨⟨ended.broker.stored ended.broker.state.1.1, ended.buffers⟩, ended.broker.state.2⟩

end MockAmqp
