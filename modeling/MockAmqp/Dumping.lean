import MockAmqp.Inspection

/-!
# The dump of the state

What `to_json` can write, and the runs in which it always can.
-/

namespace MockAmqp
open Exec

/-! ## Reading a document -/

namespace Doc

/-- `document[key]` -/
def get? : Doc → Str → Option Doc
  | dict entries, key => entries.lookup key
  | _, _ => none

/-- `document[group][key]` -/
def entry? (d : Doc) (group : String) (key : Str) : Option Doc :=
  (d.get? (str group)).bind fun entries => entries.get? key

def elements : Doc → List Doc
  | list items | deque items => items
  | set names => names.map fun name => .val (.str name)
  | _ => []

def ShowsMessage (m : StoredMessage) (d : Doc) : Prop :=
  d.get? (str "headers") = some (.val m.headers) ∧ d.get? (str "body") = some (.val m.body)

/-- The entry of a queue or an exchange has the messages in their order. -/
def ListsMessages (messages : List StoredMessage) (d : Doc) : Prop :=
  ∃ listed, d.get? (str "messages") = some listed ∧
    List.Forall₂ ShowsMessage messages listed.elements

def ListsTags (d : Doc) (name : String) (tags : OrderedSet Int) : Prop :=
  ∀ t ∈ tags.elems, ∃ listed, d.get? (str name) = some listed ∧ .val (.int t) ∈ listed.elements

/-- A table is looked up through what its values become. -/
theorem lookup_mapped {ν : Type} (f : ν → Doc) {d : OrderedDict Str ν} {k : Str} {v : ν}
    (found : d.get? k = some v) : (d.entries.map fun p => (p.1, f p.2)).lookup k = some (f v) := by
  have keys : ((d.entries.map fun p => (p.1, f p.2)).map Prod.fst).Nodup := by
    rw [List.map_map]
    exact d.nodup
  rw [OrderedDict.lookup_eq_some_iff keys]
  exact List.mem_map.mpr ⟨(k, v), (d.get?_eq_some_iff k v).mp found, rfl⟩

theorem entryDocs_mapped {ν : Type} (f : ν → Doc) (l : List (Str × ν)) :
    entryDocs (l.map fun p => (p.1, f p.2)) = true ↔ ∀ p ∈ l, (f p.2).isJson = true := by
  induction l with
  | nil => simp [entryDocs]
  | cons p rest ih => rw [List.map_cons, entryDocs, Bool.and_eq_true, ih, List.forall_mem_cons]

theorem allDocs_mapped {α : Type} (f : α → Doc) (l : List α) :
    allDocs (l.map f) = true ↔ ∀ a ∈ l, (f a).isJson = true := by
  induction l with
  | nil => simp [allDocs]
  | cons a rest ih => rw [List.map_cons, allDocs, Bool.and_eq_true, ih, List.forall_mem_cons]

end Doc

/-! ## Dumps -/

def StoredMessage.isJson (m : StoredMessage) : Bool := m.headers.isJson && m.body.isJson

namespace State

/-- `to_json`, with its document in place of the text. -/
def toJson (s : State) : Except PyError Doc :=
  if s.document.isJson then .ok s.document else .error .typeError

/-- The document lists what the state holds. -/
structure Lists (s : State) (d : Doc) : Prop where
  exchange : ∀ e exchange, s.exchanges.get? e = some exchange →
    ∃ entry, d.entry? "exchanges" e = some entry ∧
      entry.get? (str "type") = some (.val (.str exchange.type)) ∧
      entry.ListsMessages exchange.messages
  queue : ∀ q queue, s.queues.get? q = some queue →
    ∃ entry, d.entry? "queues" q = some entry ∧ entry.ListsMessages queue.messages
  bound : ∀ e q, s.isBound e q = true →
    ∃ names, d.entry? "queues_bound_exchanges" e = some names ∧ .val (.str q) ∈ names.elements
  acknowledged : d.ListsTags "messages_acknowledged" s.messageAcknowledged
  notAcknowledged : d.ListsTags "messages_not_acknowledged" s.messageNotAcknowledged
  requeued : d.ListsTags "messages_requeued" s.messageRequeued

/-- `to_json` returns, and what it returns is complete. -/
def Dumps (s : State) : Prop := ∃ d, s.toJson = .ok d ∧ s.Lists d

theorem shows_messageDoc (m : StoredMessage) : Doc.ShowsMessage m (messageDoc m) := ⟨rfl, rfl⟩

theorem shows_messages (messages : List StoredMessage) :
    List.Forall₂ Doc.ShowsMessage messages (messages.map messageDoc) := by
  induction messages with
  | nil => exact .nil
  | cons m rest ih => exact .cons (shows_messageDoc m) ih

theorem lists_tags {d : Doc} {name : String} {tags : OrderedSet Int}
    (found : d.get? (str name) = some (tagsDoc tags)) : d.ListsTags name tags := by
  intro t mem
  refine ⟨tagsDoc tags, found, ?_⟩
  exact List.mem_map.mpr ⟨t, mem, rfl⟩

/-- The document leaves nothing out; what can fail is to write it. -/
theorem lists_document (s : State) : s.Lists s.document where
  exchange := fun _ exchange found => ⟨exchangeDoc exchange, Doc.lookup_mapped exchangeDoc found,
    rfl, _, rfl, shows_messages exchange.messages⟩
  queue := fun _ queue found => ⟨queueDoc queue, Doc.lookup_mapped queueDoc found,
    _, rfl, shows_messages queue.messages⟩
  bound := by
    intro e q bound
    obtain ⟨set, found, member⟩ := isBound_iff.mp bound
    exact ⟨.set set.elems, Doc.lookup_mapped (fun set : OrderedSet Str => Doc.set set.elems) found,
      List.mem_map.mpr ⟨q, member, rfl⟩⟩
  acknowledged := lists_tags rfl
  notAcknowledged := lists_tags rfl
  requeued := lists_tags rfl

/-- A dictionary without entries, by its keys. -/
theorem entries_nil_iff {ν : Type} (d : OrderedDict Str ν) :
    (∀ p ∈ d.entries, False) ↔ ∀ k, d.contains k = false := by
  constructor
  · intro none k
    by_contra present
    obtain ⟨v, found⟩ := contains_iff.mp (Bool.of_not_eq_false present)
    exact none (k, v) ((d.get?_eq_some_iff k v).mp found)
  · intro absent p mem
    have found := (d.get?_eq_some_iff p.1 p.2).mpr mem
    have here := absent p.1
    rw [OrderedDict.contains, found] at here
    cases here

theorem messageDoc_isJson (m : StoredMessage) : (messageDoc m).isJson = m.isJson := by
  simp [messageDoc, Doc.isJson, entryDocs, StoredMessage.isJson]

theorem exchangeDoc_isJson (e : Exchange) :
    (exchangeDoc e).isJson = true ↔ ∀ m ∈ e.messages, m.isJson = true := by
  have listed := Doc.allDocs_mapped messageDoc e.messages
  simp only [messageDoc_isJson] at listed
  rw [← listed]
  simp [exchangeDoc, Doc.isJson, entryDocs, Val.isJson]

theorem queueDoc_isJson (q : Queue) : (queueDoc q).isJson = false := by
  simp [queueDoc, Doc.isJson, entryDocs]

theorem tagsDoc_isJson (tags : OrderedSet Int) : (tagsDoc tags).isJson = true := by
  rw [tagsDoc, Doc.isJson, Doc.allDocs_mapped]
  intro t _
  rfl

/-- No queue and no binding can be written. -/
theorem document_isJson_iff (s : State) : s.document.isJson = true ↔
    (∀ e, ∀ m ∈ s.messagesOn e, m.isJson = true) ∧ (∀ q, s.queues.contains q = false) ∧
      ∀ e, s.queuesBoundExchanges.contains e = false := by
  have users : entryDocs (s.users.entries.map fun p => (p.1, .val (.str p.2))) = true := by
    rw [Doc.entryDocs_mapped fun password : Str => .val (.str password)]
    intro p _
    rfl
  have tried : entryDocs (s.authenticationTriedOn.entries.map fun p => (p.1, .val (.bool p.2))) =
      true := by
    rw [Doc.entryDocs_mapped fun ok : Bool => .val (.bool ok)]
    intro p _
    rfl
  have exchanges : entryDocs (s.exchanges.entries.map fun p => (p.1, exchangeDoc p.2)) = true ↔
      ∀ e, ∀ m ∈ s.messagesOn e, m.isJson = true := by
    rw [Doc.entryDocs_mapped exchangeDoc]
    constructor
    · intro written e m member
      cases found : s.exchanges.get? e with
      | none => simp [messagesOn, found] at member
      | some exchange =>
          rw [messagesOn_eq found] at member
          have mem := (s.exchanges.get?_eq_some_iff e exchange).mp found
          exact (exchangeDoc_isJson exchange).mp (written _ mem) m member
    · intro json p mem
      have found := (s.exchanges.get?_eq_some_iff p.1 p.2).mpr mem
      rw [exchangeDoc_isJson, ← messagesOn_eq found]
      exact json p.1
  have queues : entryDocs (s.queues.entries.map fun p => (p.1, queueDoc p.2)) = true ↔
      ∀ q, s.queues.contains q = false := by
    rw [Doc.entryDocs_mapped queueDoc, ← entries_nil_iff]
    simp only [queueDoc_isJson, Bool.false_eq_true]
  have bound : entryDocs (s.queuesBoundExchanges.entries.map fun p => (p.1, .set p.2.elems)) =
      true ↔ ∀ e, s.queuesBoundExchanges.contains e = false := by
    rw [Doc.entryDocs_mapped fun set : OrderedSet Str => Doc.set set.elems, ← entries_nil_iff]
    simp only [Doc.isJson, Bool.false_eq_true]
  rw [← exchanges, ← queues, ← bound]
  simp only [document, Doc.isJson, entryDocs, users, tried, tagsDoc_isJson, Bool.and_eq_true,
    Bool.true_and, Bool.and_true]

theorem dumps_iff_document (s : State) : s.Dumps ↔ s.document.isJson = true := by
  unfold Dumps toJson
  constructor
  · rintro ⟨d, written, _⟩
    split at written
    · next json => exact json
    · cases written
  · intro json
    exact ⟨s.document, if_pos json, lists_document s⟩

end State

/-! ## What a turn adds -/

namespace State

/-- Without queues there are no bindings. -/
def Linked (s : State) : Prop :=
  (∀ q, s.queues.contains q = false) → ∀ e, s.queuesBoundExchanges.contains e = false

theorem Linked.dumps_iff {s : State} (linked : s.Linked) : s.Dumps ↔
    (∀ e, ∀ m ∈ s.messagesOn e, m.isJson = true) ∧ ∀ q, s.queues.contains q = false := by
  rw [dumps_iff_document, document_isJson_iff]
  constructor
  · rintro ⟨json, queues, _⟩
    exact ⟨json, queues⟩
  · rintro ⟨json, queues⟩
    exact ⟨json, queues, linked queues⟩

end State

namespace Operation

/-- The operation declares no queue, and what it stores in an exchange can be written. -/
structure Plain (op : Operation) (s : State) : Prop where
  queue : ∀ q, op.declaresQueue q = false
  message : ∀ e, ∀ m ∈ op.forExchange s.names e, m.isJson = true

section
variable {env : Env} {b : Broker} {op : Operation}

/-- Where no queue is declared, nothing can be bound. -/
theorem step_bindings (env : Env) (queues : ∀ q, b.state.queues.contains q = false)
    (resets : op.isReset = false) (declares : ∀ q, op.declaresQueue q = false) :
    (op.step env b).state.queuesBoundExchanges = b.state.queuesBoundExchanges := by
  cases op with
  | lost c => rfl
  | storeMessageInQueue n headers data =>
      rw [step, after_onState]
      have refused : State.storeMessageInQueue n headers data b.state = .ok false b.state := by
        rw [State.storeMessageInQueue, bind_apply, read_apply]
        simp only [queues]
        rfl
      rw [after_ok refused]
  | call op =>
      rw [step, after_onState]
      cases op with
      | declareExchange name type =>
          show (b.state.declareExchange name type).2.queuesBoundExchanges = _
          unfold State.declareExchange
          split <;> rfl
      | declareQueue name => simpa [declaresQueue] using declares name
      | bindQueue queue exchange =>
          show (b.state.bindQueue queue exchange).2.queuesBoundExchanges = _
          simp [State.bindQueue, queues]
      | storeMessage e headers data =>
          exact (State.sameNames_storeMessage env e headers data b.state).bound
      | registerConsumer c tag queue n =>
          exact (State.sameNames_registerConsumer b.state c tag queue n).bound
      | checkCredentials username password => rfl
      | messageAck tag => rfl
      | messageNack tag requeue => cases requeue <;> rfl
  | http op =>
      cases op with
      | reset => cases resets
      | declareExchange name type =>
          show (b.state.declareExchange name type).2.queuesBoundExchanges = _
          unfold State.declareExchange
          split <;> rfl
      | declareQueue name => simpa [declaresQueue] using declares name
      | deleteMessagesOfQueue n =>
          show (b.state.deleteMessagesOfQueue n).queuesBoundExchanges = _
          unfold State.deleteMessagesOfQueue
          split <;> rfl
      | deleteMessagesOfExchange n =>
          show (b.state.deleteMessagesOfExchange n).queuesBoundExchanges = _
          unfold State.deleteMessagesOfExchange
          split <;> rfl
      | publishMessage e pub =>
          have ended : after ((HttpOp.publishMessage e pub).run env) b =
              after (publishMessage env e pub) b := after_bind_pure _ _ b
          rw [step, ended]
          exact (publishMessage_after env b).1.names.bound
      | publishMessageInQueue n pub =>
          have ended : after ((HttpOp.publishMessageInQueue n pub).run env) b =
              after (publishMessageInQueue n pub) b := after_bind_pure _ _ b
          rw [step, ended]
          exact (publishMessageInQueue_after b).1.names.bound

theorem step_linked (env : Env) (op : Operation) (h : b.state.Integral ∧ b.state.Linked) :
    (op.step env b).state.Linked := by
  intro queues
  have effect := op.step_effect env b h.1
  by_cases resets : op.isReset = true
  · cases op with
    | http op =>
        cases op with
        | reset =>
            intro e
            rfl
        | _ => cases resets
    | _ => cases resets
  · have known : ∀ q, b.state.queues.contains q = false ∧ op.declaresQueue q = false := by
      intro q
      have none := effect.queue q
      rw [queues q, Bool.eq_false_of_not_eq_true resets, Bool.not_false, Bool.and_true] at none
      exact Bool.or_eq_false_iff.mp none.symm
    rw [step_bindings env (fun q => (known q).1) (Bool.of_not_eq_true resets) fun q => (known q).2]
    exact h.2 fun q => (known q).1

/-- A state that can be dumped stays so exactly if the operation is plain. -/
theorem step_dumps_iff (env : Env) (op : Operation) (h : b.state.Integral ∧ b.state.Linked)
    (dumps : b.state.Dumps) : (op.step env b).state.Dumps ↔ op.Plain b.state := by
  obtain ⟨json, queues⟩ := h.2.dumps_iff.mp dumps
  have effect := op.step_effect env b h.1
  rw [(step_linked env op h).dumps_iff]
  constructor
  · rintro ⟨json', queues'⟩
    constructor
    · intro q
      have none := effect.queue q
      rw [queues' q, queues q] at none
      exact none.symm
    · intro e m member
      apply json' e
      rw [effect.messagesOn]
      exact List.mem_append_right _ member
  · intro plain
    constructor
    · intro e m member
      rw [effect.messagesOn] at member
      rcases List.mem_append.mp member with old | new
      · split at old
        · cases old
        · exact json e m old
      · exact plain.message e m new
    · intro q
      rw [effect.queue, queues, plain.queue]
      rfl

/-- The message is stored in an exchange only if that is declared. -/
theorem plain_of_stores {e : Str} {m : StoredMessage} {s : State}
    (stores : ∀ names exchange, op.forExchange names exchange =
      if e = exchange ∧ names.exchange exchange then [m] else [])
    (declares : ∀ q, op.declaresQueue q = false) :
    op.Plain s ↔ s.exchanges.contains e = false ∨ m.isJson = true := by
  constructor
  · intro plain
    cases declared : s.exchanges.contains e with
    | false => exact .inl rfl
    | true =>
        right
        apply plain.message e
        rw [stores, if_pos ⟨rfl, declared⟩]
        exact List.mem_singleton_self m
  · intro fits
    refine ⟨declares, fun exchange m' member => ?_⟩
    rw [stores] at member
    split at member
    · next known =>
        obtain ⟨rfl, declared⟩ := known
        rw [List.mem_singleton.mp member]
        rcases fits with undeclared | json
        · cases declared.symm.trans undeclared
        · exact json
    · cases member

theorem plain_of_idle {s : State} (stores : ∀ names exchange, op.forExchange names exchange = [])
    (declares : ∀ q, op.declaresQueue q = false) : op.Plain s := by
  refine ⟨declares, fun exchange m member => ?_⟩
  rw [stores] at member
  cases member

end

end Operation

/-! ## Runs -/

/-- The turn declares no queue, and to a declared exchange it publishes only what can be written. A
message that comes over AMQP is bytes. -/
def KeepsDump (b : Broker) : Turn → Bool
  | .frame c f =>
      match b.asks c f with
      | some (.declareQueue _) => false
      | some (.storeMessage e _ _) => !b.state.exchanges.contains e
      | _ => true
  | .http (.declareQueue _) => false
  | .http (.publishMessage e pub) => !b.state.exchanges.contains e || pub.stored.isJson
  | _ => true

section
variable {env : Env} {b : Broker}

theorem asked_plain_iff {c : ConnId} {f : FrameValue} {op : Call} (asks : b.asks c f = some op) :
    KeepsDump b (.frame c f) = true ↔ (Operation.call op).Plain b.state := by
  rw [KeepsDump, asks]
  cases op with
  | declareQueue name =>
      refine iff_of_false Bool.false_ne_true fun plain => ?_
      simpa [Operation.declaresQueue] using plain.queue name
  | storeMessage e headers body =>
      obtain ⟨data, rfl⟩ := asked_bytes asks
      rw [Operation.plain_of_stores (fun _ _ => rfl) fun _ => rfl]
      simp [StoredMessage.isJson, Val.isJson]
  | _ => exact iff_of_true rfl (Operation.plain_of_idle (fun _ _ => rfl) fun _ => rfl)

theorem keepsDump_iff (b : Broker) (t : Turn) :
    KeepsDump b t = true ↔ ∀ op, t.operation b = some op → op.Plain b.state := by
  cases t with
  | frame c f =>
      cases asks : b.asks c f with
      | none => simp [KeepsDump, Turn.operation, asks]
      | some op => simp [asked_plain_iff asks, Turn.operation, asks]
  | start c => exact iff_of_true rfl fun op no => (by cases no)
  | lost c => exact iff_of_true rfl fun op no => (by cases no)
  | http op =>
      have only : (∀ op', Turn.operation b (.http op) = some op' → op'.Plain b.state) ↔
          (Operation.http op).Plain b.state := by simp [Turn.operation]
      rw [only]
      cases op with
      | declareQueue name =>
          refine iff_of_false Bool.false_ne_true fun plain => ?_
          simpa [Operation.declaresQueue] using plain.queue name
      | publishMessage e pub =>
          rw [Operation.plain_of_stores (fun _ _ => rfl) fun _ => rfl]
          simp [KeepsDump]
      | _ => exact iff_of_true rfl (Operation.plain_of_idle (fun _ _ => rfl) fun _ => rfl)

theorem turn_linked (env : Env) (t : Turn) (h : b.state.Integral ∧ b.state.Linked) :
    (Turn.step env b t).state.Integral ∧ (Turn.step env b t).state.Linked := by
  refine ⟨integral_turn env b t h.1, ?_⟩
  rw [turn_state]
  cases t.operation b with
  | none => exact h.2
  | some op => exact Operation.step_linked env op h

theorem turn_dumps_iff (env : Env) (t : Turn) (h : b.state.Integral ∧ b.state.Linked)
    (dumps : b.state.Dumps) : (Turn.step env b t).state.Dumps ↔ KeepsDump b t = true := by
  rw [turn_state, keepsDump_iff]
  cases t.operation b with
  | none => simp [dumps]
  | some op => simp [Operation.step_dumps_iff env op h dumps]

theorem init_linked (env : Env) : (State.init env).Linked := fun _ _ => rfl

theorem init_dumps (env : Env) : (State.init env).Dumps := by
  rw [(init_linked env).dumps_iff]
  refine ⟨fun e m member => ?_, fun q => rfl⟩
  rw [(accounts_init env).messagesOn] at member
  cases member

end

/-- The debug view answers with what `to_json` returns. -/
theorem Http.onGet_root (s : Http.HttpProtocol × Broker) : Http.onGet (ascii "/") s = (do
    let body ← attempt s.2.state.toJson
    Http.sendHttpResponseWithJsonBody 200 (.json body)) s := by
  unfold Http.onGet State.toJson
  rw [if_pos rfl, bind_apply, read_apply]
  dsimp only
  split <;> rfl

/-- In every state that the server reaches, the dump is complete, and it can be written exactly if
no queue is declared and every message in an exchange is made of JSON values. So every state of a
run can be dumped exactly if no turn of it declares a queue or publishes anything else to a declared
exchange. -/
theorem state_dumps_iff (env : Env) (draws : Nat → Draw) (actions : List Action) :
    let b := (Runs.run (Server.step env) (Server.init env draws) actions).broker
    let turns := Server.turnsOf env (Server.init env draws) actions
    (b.state.Dumps ↔ (∀ e, ∀ m ∈ b.state.messagesOn e, m.isJson = true) ∧
        ∀ q, b.state.queues.contains q = false) ∧
      (Runs.Along (Turn.step env) (fun b t => (Turn.step env b t).state.Dumps)
          (Broker.init env draws) turns ↔
        Runs.Along (Turn.step env) (fun b t => KeepsDump b t = true) (Broker.init env draws)
          turns) := by
  intro b turns
  have start : (Broker.init env draws).state.Integral ∧ (Broker.init env draws).state.Linked :=
    ⟨State.integral_init env, init_linked env⟩
  constructor
  · have run : b = Runs.run (Turn.step env) (Broker.init env draws) turns :=
      Server.run_refines (Server.init env draws) actions
    have linked := Runs.invariant (I := fun b : Broker => b.state.Integral ∧ b.state.Linked)
      (fun _ t => turn_linked env t) start turns
    rw [← run] at linked
    exact linked.2.dumps_iff
  · refine Runs.along_iff (I := fun b => (b.state.Integral ∧ b.state.Linked) ∧ b.state.Dumps)
      (fun b t h => turn_dumps_iff env t h.1 h.2) ?_ ⟨start, init_dumps env⟩ turns
    intro b t h dumps
    exact ⟨turn_linked env t h.1, dumps⟩

/-- A queue that is declared. -/
theorem declared_queue_not_dumped : ¬ ∀ env b, Reachable env b → b.state.Dumps := by
  intro always
  have dumps := always guestEnv _ (session_reachable [.http (.declareQueue (str "q"))])
  rw [State.dumps_iff_document] at dumps
  have failed : (session [.http (.declareQueue (str "q"))]).broker.state.document.isJson = false :=
    rfl
  rw [failed] at dumps
  cases dumps

end MockAmqp
