import MockAmqp.Operations

/-!
# Where messages are after a run

The operations carry out an account that is kept in the list of operations alone, and the names
that the operations rely on are always there.
-/

namespace MockAmqp
open Exec

/-- The state agrees with what the operations so far amount to. -/
structure Accounts (ops : List Operation) (s : State) : Prop where
  integral : s.Integral
  queue : ∀ q, s.queues.contains q = (namesAfter ops).queue q
  exchange : ∀ e, s.exchanges.contains e = (namesAfter ops).exchange e
  bound : ∀ e q, s.isBound e q = (namesAfter ops).bound e q
  messagesIn : ∀ q, s.messagesIn q = queueMessages q ops
  messagesOn : ∀ e, s.messagesOn e = exchangeMessages e ops

theorem Accounts.names {ops : List Operation} {s : State} (h : Accounts ops s) :
    s.names = namesAfter ops := by
  have queue : s.queues.contains = (namesAfter ops).queue := funext h.queue
  have exchange : s.exchanges.contains = (namesAfter ops).exchange := funext h.exchange
  have bound : s.isBound = (namesAfter ops).bound := by
    funext e q
    exact h.bound e q
  unfold State.names State.declared
  rw [queue, exchange, bound]

theorem accounts_init (env : Env) : Accounts [] (State.init env) where
  integral := State.integral_init env
  queue := fun _ => rfl
  exchange := fun e => by
    by_cases he : e = []
    · subst he
      rfl
    · simp [State.init, OrderedDict.contains, OrderedDict.ofList, namesAfter, declaredAfter, he]
  bound := fun _ _ => rfl
  messagesIn := fun _ => rfl
  messagesOn := fun e => by
    by_cases he : e = []
    · subst he
      rfl
    · simp [State.init, State.messagesOn, OrderedDict.ofList, exchangeMessages, he]

theorem accounts_step (env : Env) {ops : List Operation} {b : Broker} (h : Accounts ops b.state)
    (op : Operation) : Accounts (ops ++ [op]) (op.step env b).state := by
  have effect := op.step_effect env b h.integral
  have names := h.names
  have declared : b.state.declared = declaredAfter ops := congrArg Names.toDeclared names
  have integral := op.step_integral env b h.integral
  refine ⟨integral, fun q => ?_, fun e => ?_, fun e q => ?_, fun q => ?_, fun e => ?_⟩
  · have before : b.state.queues.contains q = _ := h.queue q
    rw [effect.queue, before]
    simp only [namesAfter, declaredAfter, History.holds_snoc]
  · by_cases he : e = []
    · subst he
      exact integral.defaultExchange
    · have before : b.state.exchanges.contains e = _ := h.exchange e
      rw [effect.exchange e he, before]
      simp only [namesAfter, declaredAfter, History.holds_snoc, he, decide_false, Bool.false_or]
  · rw [effect.bound, h.bound, declared]
    simp only [namesAfter, History.holds_snoc]
  · rw [effect.messagesIn, h.messagesIn, names]
    exact (History.kept_snoc _ _ _ _).symm
  · rw [effect.messagesOn, h.messagesOn, names]
    exact (History.kept_snoc _ _ _ _).symm

theorem accounts_run (env : Env) (draws : Nat → Draw) (ops : List Operation) :
    Accounts ops (Runs.run (Operation.step env) (Broker.init env draws) ops).state := by
  induction ops using List.reverseRecOn with
  | nil => exact accounts_init env
  | append_singleton ops op ih =>
      rw [Runs.run_append]
      exact accounts_step env ih op

/-- The operation neither stores nor publishes nor purges. -/
def Operation.KeepsMessages : Operation → Prop
  | call (.storeMessage ..) | storeMessageInQueue .. => False
  | http (.declareExchange ..) | http (.declareQueue _) => True
  | http _ => False
  | _ => True

/-- After any run of operations the messages of each queue and of each exchange are those sent to
it, in order and once each, while it was declared and since its last purge; the queue of a stored
message is one bound to its exchange at that moment. Operations of other kinds change none. -/
theorem routing_conserves (env : Env) (draws : Nat → Draw) (ops : List Operation) :
    let b := Runs.run (Operation.step env) (Broker.init env draws) ops
    (∀ q queue, b.state.queues.get? q = some queue → queue.messages = queueMessages q ops) ∧
      (∀ e exchange, b.state.exchanges.get? e = some exchange →
        exchange.messages = exchangeMessages e ops) ∧
      b.state.names = namesAfter ops ∧
      ∀ op : Operation, op.KeepsMessages →
        (∀ q, (op.step env b).state.messagesIn q = b.state.messagesIn q) ∧
          ∀ e, (op.step env b).state.messagesOn e = b.state.messagesOn e := by
  intro b
  have accounts := accounts_run env draws ops
  refine ⟨?_, ?_, accounts.names, ?_⟩
  · intro q queue found
    rw [← State.messagesIn_eq found]
    exact accounts.messagesIn q
  · intro e exchange found
    rw [← State.messagesOn_eq found]
    exact accounts.messagesOn e
  · intro op keeps
    have effect := op.step_effect env b accounts.integral
    have inert : (∀ q, op.purgesQueue q = false ∧ op.forQueue b.state.names q = []) ∧
        ∀ e, op.purgesExchange e = false ∧ op.forExchange b.state.names e = [] := by
      cases op with
      | call op => cases op <;> first | exact keeps.elim | exact ⟨fun _ => ⟨rfl, rfl⟩, fun _ => ⟨rfl, rfl⟩⟩
      | http op => cases op <;> first | exact keeps.elim | exact ⟨fun _ => ⟨rfl, rfl⟩, fun _ => ⟨rfl, rfl⟩⟩
      | storeMessageInQueue => exact keeps.elim
      | lost => exact ⟨fun _ => ⟨rfl, rfl⟩, fun _ => ⟨rfl, rfl⟩⟩
    constructor
    · intro q
      rw [effect.messagesIn, (inert.1 q).1, (inert.1 q).2]
      simp
    · intro e
      rw [effect.messagesOn, (inert.2 e).1, (inert.2 e).2]
      simp

/-! ## Referential integrity -/

namespace State

/-- The declared exchanges stay, with their types. -/
def KeepsTypes (s s' : State) : Prop :=
  ∀ e exchange, s.exchanges.get? e = some exchange →
    ∃ exchange', s'.exchanges.get? e = some exchange' ∧ exchange'.type = exchange.type

theorem keepsTypes_progress : Progress KeepsTypes where
  refl := fun _ _ exchange found => ⟨exchange, found, rfl⟩
  trans := by
    intro s t u h k e exchange found
    obtain ⟨exchange', found', type⟩ := h e exchange found
    obtain ⟨exchange'', found'', type'⟩ := k e exchange' found'
    exact ⟨exchange'', found'', type'.trans type⟩

theorem keepsTypes_of_eq {s t : State} (h : t.exchanges = s.exchanges) : KeepsTypes s t :=
  fun _ exchange found => ⟨exchange, h.symm ▸ found, rfl⟩

theorem keepsTypes_setExchange {s : State} {n : Str} {x x' : Exchange}
    (h : s.exchanges.get? n = some x) (type : x'.type = x.type) :
    KeepsTypes s (s.setExchange n x') := by
  intro e exchange found
  by_cases he : e = n
  · subst he
    rw [h] at found
    cases found
    exact ⟨x', OrderedDict.get?_insert_self _ _ _, type⟩
  · exact ⟨exchange, (OrderedDict.get?_insert_ne _ _ he).trans found, rfl⟩

theorem keepsTypes_appendToExchange (e : Str) (m : StoredMessage) :
    Within KeepsTypes (appendToExchange e m) := by
  intro s
  cases found : s.exchanges.get? e with
  | none =>
      have raised : after (appendToExchange e m) s = s := by
        simp only [after, appendToExchange, found]
      rw [raised]
      exact keepsTypes_progress.refl s
  | some x =>
      have stored : after (appendToExchange e m) s =
          s.setExchange e { x with messages := x.messages ++ [m] } := by
        simp only [after, appendToExchange, found]
      rw [stored]
      exact keepsTypes_setExchange found rfl

theorem keepsTypes_appendToQueue (q : Str) (m : StoredMessage) :
    Within KeepsTypes (appendToQueue q m) := by
  intro s
  cases found : s.queues.get? q <;> simp only [after, appendToQueue, found]
  · exact keepsTypes_progress.refl s
  · exact keepsTypes_of_eq rfl

theorem keepsTypes_appendToQueues (m : StoredMessage) (queues : List Str) :
    Within KeepsTypes (appendToQueues m queues) := by
  induction queues with
  | nil => exact within_pure keepsTypes_progress _
  | cons q rest ih =>
      exact within_bind keepsTypes_progress (keepsTypes_appendToQueue q m) fun _ => ih

theorem keepsTypes_storeMessage (env : Env) (e : Str) (headers data : Val) :
    Within KeepsTypes (storeMessage env e headers data) := by
  have hp := keepsTypes_progress
  refine within_bind hp (within_read hp _) fun _ => within_ite (within_pure hp _) ?_
  refine within_bind hp (keepsTypes_appendToExchange e _) fun _ => ?_
  refine within_bind hp (within_read hp _) fun queues => ?_
  exact within_bind hp (keepsTypes_appendToQueues _ queues) fun _ => within_pure hp _

theorem keepsTypes_declareExchange (s : State) (name type : Str) :
    KeepsTypes s (s.declareExchange name type).2 := by
  unfold declareExchange
  cases found : s.exchanges.get? name with
  | some x => exact keepsTypes_progress.refl s
  | none =>
      intro e exchange old
      have other : e ≠ name := by
        rintro rfl
        rw [found] at old
        cases old
      exact ⟨exchange, (OrderedDict.get?_insert_ne _ _ other).trans old, rfl⟩

theorem keepsTypes_declareQueue (s : State) (name : Str) :
    KeepsTypes s (s.declareQueue name).2 := by
  unfold declareQueue
  split
  · exact keepsTypes_progress.refl s
  · exact keepsTypes_of_eq (bindQueue_rest _ name []).2

theorem keepsTypes_call (env : Env) (op : Call) : Within KeepsTypes (op.run env) := by
  intro s
  cases op with
  | declareExchange name type => exact keepsTypes_declareExchange s name type
  | declareQueue name => exact keepsTypes_declareQueue s name
  | bindQueue queue exchange => exact keepsTypes_of_eq (bindQueue_rest s queue exchange).2
  | storeMessage e headers data => exact keepsTypes_storeMessage env e headers data s
  | registerConsumer c tag queue n =>
      refine keepsTypes_of_eq (s := s) (t := (s.registerConsumer c tag queue n).2) ?_
      unfold registerConsumer
      split <;> rfl
  | checkCredentials => exact keepsTypes_of_eq rfl
  | messageAck => exact keepsTypes_of_eq rfl
  | messageNack tag requeue => cases requeue <;> exact keepsTypes_of_eq rfl

/-- Nothing is removed, and the declared exchanges keep their types. -/
structure Grows (s s' : State) : Prop where
  queue : ∀ q, s.queues.contains q = true → s'.queues.contains q = true
  exchange : KeepsTypes s s'
  bound : ∀ e q, s.isBound e q = true → s'.isBound e q = true

end State

/-- The exchanges of the shared state stay, with their types. -/
def KeepsExchanges (b b' : Broker) : Prop := State.KeepsTypes b.state b'.state

theorem keepsExchanges_progress : Progress KeepsExchanges where
  refl := fun b => State.keepsTypes_progress.refl b.state
  trans := fun h k => State.keepsTypes_progress.trans h k

theorem keepsExchanges_onState {α : Type} {x : EStateM PyError State α}
    (h : Within State.KeepsTypes x) : Within KeepsExchanges (onState x) := by
  intro b
  rw [after_onState]
  exact h b.state

theorem keepsExchanges_serveQueue (queueName : Str) (pub : Publication) (exchangeName : Str) :
    Within KeepsExchanges (serveQueue queueName pub exchangeName) := by
  have hp := keepsExchanges_progress
  have table : Within KeepsExchanges (getConsumers queueName) := by
    intro b
    cases found : b.state.queues.get? queueName <;> simp only [after, getConsumers, found]
    · exact hp.refl b
    · exact hp.refl b
  refine within_bind hp table fun consumers => within_bind hp ?_ fun r => ?_
  · intro b
    rw [KeepsExchanges, (offer_after queueName exchangeName pub b consumers.entries).1]
    exact State.keepsTypes_progress.refl b.state
  · have cleaned : Within KeepsExchanges (update fun b : Broker =>
        { b with state := b.state.deleteConsumers queueName r.2 } : OnBroker Unit) := by
      intro b
      refine State.keepsTypes_of_eq (s := b.state) (t := b.state.deleteConsumers queueName r.2) ?_
      unfold State.deleteConsumers
      split <;> rfl
    exact within_bind hp cleaned fun _ => within_pure hp _

theorem keepsExchanges_http (env : Env) {op : HttpOp} (h : op ≠ .reset) :
    Within KeepsExchanges (op.run env) := by
  have hp := keepsExchanges_progress
  cases op with
  | reset => exact absurd rfl h
  | declareExchange name type =>
      exact fun b => State.keepsTypes_declareExchange b.state name type
  | declareQueue name => exact fun b => State.keepsTypes_declareQueue b.state name
  | deleteMessagesOfQueue n =>
      intro b
      refine State.keepsTypes_of_eq (s := b.state) (t := b.state.deleteMessagesOfQueue n) ?_
      unfold State.deleteMessagesOfQueue
      split <;> rfl
  | deleteMessagesOfExchange n =>
      intro b
      change State.KeepsTypes b.state (b.state.deleteMessagesOfExchange n)
      unfold State.deleteMessagesOfExchange
      cases found : b.state.exchanges.get? n with
      | none => exact State.keepsTypes_progress.refl b.state
      | some x => exact State.keepsTypes_setExchange found rfl
  | publishMessage e pub =>
      refine within_bind hp ?_ fun _ => within_pure hp _
      refine within_bind hp (within_read hp _) fun _ => within_ite (within_pure hp _) ?_
      refine within_bind hp (keepsExchanges_onState (State.keepsTypes_appendToExchange e _)) fun _ => ?_
      refine within_bind hp (within_read hp _) fun queues => ?_
      cases queues with
      | nil => exact within_pure hp _
      | cons q _ => exact keepsExchanges_serveQueue q pub e
  | publishMessageInQueue q pub =>
      refine within_bind hp ?_ fun _ => within_pure hp _
      refine within_bind hp (within_read hp _) fun _ => within_ite (within_pure hp _) ?_
      refine within_bind hp (keepsExchanges_onState (State.keepsTypes_appendToQueue q _)) fun _ => ?_
      exact keepsExchanges_serveQueue q pub _

theorem Operation.step_grows (env : Env) (b : Broker) (op : Operation) (h : b.state.Integral)
    (noReset : op.isReset = false) : b.state.Grows (op.step env b).state := by
  have effect := op.step_effect env b h
  refine ⟨fun q declared => ?_, ?_, fun e q bound => ?_⟩
  · simp [effect.queue, declared, noReset]
  · cases op with
    | call op => exact keepsExchanges_onState (State.keepsTypes_call env op) b
    | lost c => exact State.keepsTypes_progress.refl b.state
    | http op =>
        refine keepsExchanges_http env ?_ b
        rintro rfl
        cases noReset
    | storeMessageInQueue n headers data =>
        have hp := State.keepsTypes_progress
        refine keepsExchanges_onState ?_ b
        refine within_bind hp (within_read hp _) fun _ => within_ite (within_pure hp _) ?_
        exact within_bind hp (State.keepsTypes_appendToQueue n _) fun _ => within_pure hp _
  · simp [effect.bound, bound, noReset]

/-- In every state that operations lead to, bindings name declared exchanges and queues, every
queue is bound to the default exchange, so that the lookups of bound queues succeed; and only a
reset removes a queue, an exchange or a binding or changes the type of an exchange. -/
theorem referential_integrity (env : Env) (draws : Nat → Draw) (ops : List Operation) :
    let b := Runs.run (Operation.step env) (Broker.init env draws) ops
    b.state.Integral ∧
      (∀ e headers data, ∃ stored s, State.storeMessage env e headers data b.state = .ok stored s) ∧
      (∀ e (pub : Publication), b.state.exchanges.contains e = true →
        ∃ b', onState (State.appendToExchange e pub.stored) b = .ok () b' ∧
          ∀ q ∈ b'.state.boundQueues env e, ∃ consumers, getConsumers q b' = .ok consumers b') ∧
      ∀ op : Operation, op.isReset = false → b.state.Grows (op.step env b).state := by
  intro b
  have integral : b.state.Integral := (accounts_run env draws ops).integral
  refine ⟨integral, fun e headers data => ?_, fun e pub declared => ?_,
    fun op noReset => op.step_grows env b integral noReset⟩
  · by_cases he : b.state.exchanges.contains e = true
    · exact ⟨true, State.storeMessage_ok env integral he headers data⟩
    · exact ⟨false, b.state, State.storeMessage_refused env (by simpa using he) headers data⟩
  · obtain ⟨s, stored, adds, _⟩ := State.appendToExchange_adds declared pub.stored
    refine ⟨{ b with state := s }, by simp only [onState, zoom, stored], fun q hq => ?_⟩
    have bound : s.isBound e q = true := State.mem_boundQueues_iff.mp hq
    obtain ⟨queue, found⟩ := State.contains_iff.mp
      ((integral.of_sameNames adds.toSameNames).declared bound).2
    exact ⟨queue.consumers, by simp only [getConsumers, found]⟩

end MockAmqp
