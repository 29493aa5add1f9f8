import MockAmqp.Delivery

/-!
# Runs of state operations

Every operation of `State`, called in any order and any number of times, with the transports of
consumers closing in between. What the names, the bindings and the stored messages are after a
run is read off the list of operations alone.
-/

namespace MockAmqp
open Exec

/-- The operations of `State`, and the closing of a transport, which a publication looks at. -/
inductive Operation where
  | call (op : Call)
  | http (op : HttpOp)
  | storeMessageInQueue (queueName : Str) (headers messageData : Val)
  | lost (c : ConnId)

namespace Operation

def step (env : Env) (b : Broker) : Operation → Broker
  | call op => after (onState (op.run env)) b
  | http op => after (op.run env) b
  | storeMessageInQueue queueName headers messageData =>
      after (onState (State.storeMessageInQueue queueName headers messageData)) b
  | lost c => after (close c) b

def isReset : Operation → Bool
  | http .reset => true
  | _ => false

def declaresQueue (q : Str) : Operation → Bool
  | call (.declareQueue name) | http (.declareQueue name) => name = q
  | _ => false

def declaresExchange (e : Str) : Operation → Bool
  | call (.declareExchange name _) | http (.declareExchange name _) => name = e
  | _ => false

def purgesQueue (q : Str) : Operation → Bool
  | http .reset => true
  | http (.deleteMessagesOfQueue name) => name = q
  | _ => false

def purgesExchange (e : Str) : Operation → Bool
  | http .reset => true
  | http (.deleteMessagesOfExchange name) => name = e
  | _ => false

end Operation

/-- Which queues and exchanges are declared. -/
structure Declared where
  queue : Str → Bool
  exchange : Str → Bool

/-- And which queues are bound to which exchange. -/
structure Names extends Declared where
  bound : Str → Str → Bool

namespace Operation

/-- The operation binds queue `q` to exchange `e`. -/
def binds (declared : Declared) (e q : Str) : Operation → Bool
  | call (.bindQueue queue exchange) =>
      queue = q && exchange = e && declared.exchange e && declared.queue q
  | call (.declareQueue name) | http (.declareQueue name) => e = [] && name = q
  | _ => false

/-- The message that the operation adds to queue `q`. -/
def forQueue (names : Names) (q : Str) : Operation → List StoredMessage
  | call (.storeMessage e headers data) =>
      if names.bound e q then [{ headers, body := data }] else []
  | storeMessageInQueue name headers data =>
      if name = q ∧ names.queue q then [{ headers, body := data }] else []
  | http (.publishMessageInQueue name pub) => if name = q ∧ names.queue q then [pub.stored] else []
  | _ => []

/-- The message that the operation adds to exchange `e`. -/
def forExchange (names : Names) (e : Str) : Operation → List StoredMessage
  | call (.storeMessage name headers data) =>
      if name = e ∧ names.exchange e then [{ headers, body := data }] else []
  | http (.publishMessage name pub) => if name = e ∧ names.exchange e then [pub.stored] else []
  | _ => []

end Operation

/-! ## What a list of operations amounts to -/

/-- Declared since the last reset; the default exchange always is. -/
def declaredAfter (ops : List Operation) : Declared where
  queue := fun q => History.holds (fun _ op => op.declaresQueue q) Operation.isReset ops
  exchange := fun e => e = [] ||
    History.holds (fun _ op => op.declaresExchange e) Operation.isReset ops

/-- Bound since the last reset, by a declaration of the queue or once both were declared. -/
def namesAfter (ops : List Operation) : Names where
  toDeclared := declaredAfter ops
  bound := fun e q =>
    History.holds (fun before op => op.binds (declaredAfter before) e q) Operation.isReset ops

/-- The messages sent to queue `q` while it was declared, in order, since its last purge. -/
def queueMessages (q : Str) (ops : List Operation) : List StoredMessage :=
  History.kept (fun before op => op.forQueue (namesAfter before) q) (Operation.purgesQueue q) ops

/-- The messages sent to exchange `e` while it was declared, in order, since its last purge. -/
def exchangeMessages (e : Str) (ops : List Operation) : List StoredMessage :=
  History.kept (fun before op => op.forExchange (namesAfter before) e)
    (Operation.purgesExchange e) ops

/-! ## What the state holds -/

namespace State

def isBound (s : State) (e q : Str) : Bool :=
  match s.queuesBoundExchanges.get? e with
  | some set => set.elems.contains q
  | none => false

def declared (s : State) : Declared where
  queue := s.queues.contains
  exchange := s.exchanges.contains

def names (s : State) : Names where
  toDeclared := s.declared
  bound := s.isBound

def messagesIn (s : State) (q : Str) : List StoredMessage :=
  match s.queues.get? q with
  | some queue => queue.messages
  | none => []

def messagesOn (s : State) (e : Str) : List StoredMessage :=
  match s.exchanges.get? e with
  | some exchange => exchange.messages
  | none => []

theorem isBound_iff {s : State} {e q : Str} : s.isBound e q = true ↔
    ∃ set, s.queuesBoundExchanges.get? e = some set ∧ q ∈ set.elems := by
  unfold isBound
  cases s.queuesBoundExchanges.get? e with
  | none => simp
  | some set => simp

@[simp] theorem messagesIn_setQueue (s : State) (n q : Str) (queue : Queue) :
    (s.setQueue n queue).messagesIn q = if q = n then queue.messages else s.messagesIn q := by
  by_cases h : q = n
  · simp [messagesIn, setQueue, h]
  · simp [messagesIn, setQueue, h]

@[simp] theorem messagesOn_setExchange (s : State) (n e : Str) (exchange : Exchange) :
    (s.setExchange n exchange).messagesOn e =
      if e = n then exchange.messages else s.messagesOn e := by
  by_cases h : e = n
  · simp [messagesOn, setExchange, h]
  · simp [messagesOn, setExchange, h]

@[simp] theorem messagesOn_setQueue (s : State) (n e : Str) (queue : Queue) :
    (s.setQueue n queue).messagesOn e = s.messagesOn e := rfl

@[simp] theorem messagesIn_setExchange (s : State) (n q : Str) (exchange : Exchange) :
    (s.setExchange n exchange).messagesIn q = s.messagesIn q := rfl

theorem messagesIn_eq {s : State} {q : Str} {queue : Queue} (h : s.queues.get? q = some queue) :
    s.messagesIn q = queue.messages := by simp only [messagesIn, h]

theorem messagesOn_eq {s : State} {e : Str} {exchange : Exchange}
    (h : s.exchanges.get? e = some exchange) : s.messagesOn e = exchange.messages := by
  simp only [messagesOn, h]

end State

/-- What an operation does to the names, the bindings and the messages. -/
structure Operation.Effect (op : Operation) (s s' : State) : Prop where
  queue : ∀ q, s'.queues.contains q = ((s.queues.contains q && !op.isReset) || op.declaresQueue q)
  exchange : ∀ e, e ≠ [] →
    s'.exchanges.contains e = ((s.exchanges.contains e && !op.isReset) || op.declaresExchange e)
  bound : ∀ e q, s'.isBound e q = ((s.isBound e q && !op.isReset) || op.binds s.declared e q)
  messagesIn : ∀ q, s'.messagesIn q =
    (if op.purgesQueue q then [] else s.messagesIn q) ++ op.forQueue s.names q
  messagesOn : ∀ e, s'.messagesOn e =
    (if op.purgesExchange e then [] else s.messagesOn e) ++ op.forExchange s.names e

/-- The operation declares, binds and purges nothing. -/
structure Operation.Fixed (op : Operation) : Prop where
  reset : op.isReset = false
  queue : ∀ q, op.declaresQueue q = false
  exchange : ∀ e, op.declaresExchange e = false
  bound : ∀ d e q, op.binds d e q = false
  purgesQueue : ∀ q, op.purgesQueue q = false
  purgesExchange : ∀ e, op.purgesExchange e = false

namespace State

/-- Messages come in at the ends of queues and exchanges, and names and bindings stay. -/
structure Adds (toQueue toExchange : Str → List StoredMessage) (s s' : State) : Prop
    extends SameNames s s' where
  messagesIn : ∀ q, s'.messagesIn q = s.messagesIn q ++ toQueue q
  messagesOn : ∀ e, s'.messagesOn e = s.messagesOn e ++ toExchange e

/-- The names, the bindings and the messages are the same. -/
def SameContents (s s' : State) : Prop := Adds (fun _ => []) (fun _ => []) s s'

theorem SameNames.isBound {s s' : State} (h : SameNames s s') (e q : Str) :
    s'.isBound e q = s.isBound e q := by
  unfold State.isBound
  rw [h.bound]

theorem Adds.effect {op : Operation} {s s' : State}
    (h : Adds (op.forQueue s.names) (op.forExchange s.names) s s') (fixed : op.Fixed) :
    op.Effect s s' where
  queue := fun q => by simp [h.queues, fixed.reset, fixed.queue]
  exchange := fun e _ => by simp [h.exchanges, fixed.reset, fixed.exchange]
  bound := fun e q => by simp [h.isBound, fixed.reset, fixed.bound]
  messagesIn := fun q => by simp [h.messagesIn, fixed.purgesQueue]
  messagesOn := fun e => by simp [h.messagesOn, fixed.purgesExchange]

theorem Adds.trans {f g f' g' : Str → List StoredMessage} {s s' s'' : State} (h : Adds f g s s')
    (k : Adds f' g' s' s'') : Adds (fun q => f q ++ f' q) (fun e => g e ++ g' e) s s'' where
  toSameNames := sameNames_progress.trans h.toSameNames k.toSameNames
  messagesIn := fun q => by rw [k.messagesIn, h.messagesIn, List.append_assoc]
  messagesOn := fun e => by rw [k.messagesOn, h.messagesOn, List.append_assoc]

theorem Adds.then_same {f g : Str → List StoredMessage} {s s' s'' : State} (h : Adds f g s s')
    (k : SameContents s' s'') : Adds f g s s'' := by
  have both := h.trans k
  simpa only [List.append_nil] using both

theorem sameContents_refl (s : State) : SameContents s s :=
  ⟨sameNames_progress.refl s, fun _ => (List.append_nil _).symm,
    fun _ => (List.append_nil _).symm⟩

/-- A queue keeps its messages, whatever becomes of its consumers. -/
theorem sameContents_setQueue {s : State} {n : Str} {q q' : Queue}
    (h : s.queues.get? n = some q) (messages : q'.messages = q.messages) :
    SameContents s (s.setQueue n q') := by
  refine ⟨sameNames_setQueue h, fun m => ?_, fun _ => (List.append_nil _).symm⟩
  rw [messagesIn_setQueue, List.append_nil]
  by_cases hm : m = n
  · rw [if_pos hm, hm, messagesIn_eq h, messages]
  · rw [if_neg hm]

theorem sameContents_registerConsumer (s : State) (c : ConnId) (tag queue : Str) (n : Nat) :
    SameContents s (s.registerConsumer c tag queue n).2 := by
  unfold registerConsumer
  cases hq : s.queues.get? queue with
  | none => exact sameContents_refl s
  | some q => exact sameContents_setQueue hq rfl

theorem sameContents_deleteConsumers (s : State) (queue : Str) (dead : List Str) :
    SameContents s (s.deleteConsumers queue dead) := by
  unfold deleteConsumers
  cases hq : s.queues.get? queue with
  | none => exact sameContents_refl s
  | some q => exact sameContents_setQueue hq rfl

/-! ### Declarations and bindings -/

theorem effect_declareExchange (s : State) (name type : Str) {op : Operation}
    (h : op = .call (.declareExchange name type) ∨ op = .http (.declareExchange name type)) :
    op.Effect s (s.declareExchange name type).2 := by
  have flags : op.isReset = false ∧ (∀ e, op.declaresExchange e = decide (name = e)) ∧
      (∀ q, op.declaresQueue q = false) ∧ (∀ d e q, op.binds d e q = false) ∧
      (∀ q, op.purgesQueue q = false) ∧ (∀ e, op.purgesExchange e = false) ∧
      (∀ n q, op.forQueue n q = []) ∧ ∀ n e, op.forExchange n e = [] := by
    rcases h with rfl | rfl <;> simp [Operation.isReset, Operation.declaresExchange,
      Operation.declaresQueue, Operation.binds, Operation.purgesQueue, Operation.purgesExchange,
      Operation.forQueue, Operation.forExchange]
  obtain ⟨reset, declares, queue, bound, purgesQueue, purgesExchange, forQueue, forExchange⟩ := flags
  unfold declareExchange
  cases he : s.exchanges.get? name with
  | some exchange =>
      refine ⟨fun q => by simp [reset, queue], fun e _ => ?_, fun e q => by simp [reset, bound],
        fun q => by simp [purgesQueue, forQueue], fun e => by simp [purgesExchange, forExchange]⟩
      by_cases hn : name = e
      · simp [← hn, OrderedDict.contains, he, reset]
      · simp [reset, declares, hn]
  | none =>
      refine ⟨fun q => ?_, fun e _ => ?_, fun e q => ?_, fun q => ?_, fun e => ?_⟩
      · simp [setExchange, reset, queue]
      · by_cases hn : e = name
        · simp [setExchange, OrderedDict.contains, hn, declares]
        · simp [setExchange, OrderedDict.contains, hn, declares, reset, Ne.symm hn]
      · simp [isBound, setExchange, reset, bound]
      · simp [purgesQueue, forQueue]
      · rw [messagesOn_setExchange]
        by_cases hn : e = name
        · simp [hn, messagesOn, he, purgesExchange, forExchange]
        · simp [hn, purgesExchange, forExchange]

theorem isBound_bindQueue (s : State) (queue exchange e q : Str) :
    (s.bindQueue queue exchange).2.isBound e q = (s.isBound e q ||
      (queue = q && exchange = e && s.exchanges.contains e && s.queues.contains q)) := by
  unfold bindQueue
  by_cases he : s.exchanges.contains exchange = true
  · by_cases hq : s.queues.contains queue = true
    · rw [if_neg (not_not_intro he), if_neg (not_not_intro hq), Bool.eq_iff_iff]
      simp only [isBound_iff, OrderedDict.get?_insert, Bool.or_eq_true, Bool.and_eq_true,
        decide_eq_true_eq]
      by_cases same : e = exchange
      · subst same
        simp only [if_true, Option.some.injEq, exists_eq_left', OrderedSet.mem_add, he]
        constructor
        · rintro (old | rfl)
          · cases hb : s.queuesBoundExchanges.get? e with
            | none =>
                rw [hb] at old
                cases old
            | some set =>
                rw [hb] at old
                exact .inl ⟨set, rfl, old⟩
          · exact .inr ⟨⟨⟨rfl, trivial⟩, trivial⟩, hq⟩
        · rintro (⟨set, hb, member⟩ | ⟨⟨⟨rfl, _⟩, _⟩, _⟩)
          · rw [hb]
            exact .inl member
          · exact .inr rfl
      · simp [same, Ne.symm same]
    · rw [if_neg (not_not_intro he), if_pos hq]
      by_cases same : queue = q
      · simp [← same, hq]
      · simp [same]
  · rw [if_pos he]
    by_cases same : exchange = e
    · simp [← same, he]
    · simp [same]

theorem bindQueue_rest (s : State) (queue exchange : Str) :
    (s.bindQueue queue exchange).2.queues = s.queues ∧
      (s.bindQueue queue exchange).2.exchanges = s.exchanges := by
  unfold bindQueue
  split
  · exact ⟨rfl, rfl⟩
  · split <;> exact ⟨rfl, rfl⟩

theorem effect_bindQueue (s : State) (queue exchange : Str) :
    (Operation.call (.bindQueue queue exchange)).Effect s (s.bindQueue queue exchange).2 := by
  obtain ⟨queues, exchanges⟩ := bindQueue_rest s queue exchange
  refine ⟨fun q => ?_, fun e _ => ?_, fun e q => ?_, fun q => ?_, fun e => ?_⟩
  · simp [queues, Operation.isReset, Operation.declaresQueue]
  · simp [exchanges, Operation.isReset, Operation.declaresExchange]
  · rw [isBound_bindQueue]
    simp [Operation.isReset, Operation.binds, declared]
  · simp [messagesIn, queues, Operation.purgesQueue, Operation.forQueue]
  · simp [messagesOn, exchanges, Operation.purgesExchange, Operation.forExchange]

theorem effect_declareQueue {s : State} (integral : s.Integral) (name : Str) {op : Operation}
    (h : op = .call (.declareQueue name) ∨ op = .http (.declareQueue name)) :
    op.Effect s (s.declareQueue name).2 := by
  have flags : op.isReset = false ∧ (∀ e, op.declaresExchange e = false) ∧
      (∀ q, op.declaresQueue q = decide (name = q)) ∧
      (∀ d e q, op.binds d e q = (decide (e = []) && decide (name = q))) ∧
      (∀ q, op.purgesQueue q = false) ∧ (∀ e, op.purgesExchange e = false) ∧
      (∀ n q, op.forQueue n q = []) ∧ ∀ n e, op.forExchange n e = [] := by
    rcases h with rfl | rfl <;> simp [Operation.isReset, Operation.declaresExchange,
      Operation.declaresQueue, Operation.binds, Operation.purgesQueue, Operation.purgesExchange,
      Operation.forQueue, Operation.forExchange]
  obtain ⟨reset, exchange, declares, binds, purgesQueue, purgesExchange, forQueue, forExchange⟩ := flags
  unfold declareQueue
  by_cases hq : s.queues.contains name = true
  · rw [if_pos hq]
    refine ⟨fun q => ?_, fun e _ => by simp [reset, exchange], fun e q => ?_,
      fun q => by simp [purgesQueue, forQueue], fun e => by simp [purgesExchange, forExchange]⟩
    · by_cases hn : name = q
      · simp [← hn, hq, reset]
      · simp [reset, declares, hn]
    · by_cases hn : e = [] ∧ name = q
      · obtain ⟨rfl, rfl⟩ := hn
        have already := isBound_iff.mpr (integral.defaultBound name hq)
        simp [already, reset]
      · have other : (decide (e = []) && decide (name = q)) = false := by simpa using hn
        simp [binds, reset, other]
  · rw [if_neg hq]
    obtain ⟨queues, exchanges⟩ := bindQueue_rest
      (s.setQueue name { messages := [], consumers := .empty }) name []
    refine ⟨fun q => ?_, fun e _ => ?_, fun e q => ?_, fun q => ?_, fun e => ?_⟩
    · rw [queues]
      by_cases hn : q = name
      · simp [setQueue, OrderedDict.contains, hn, declares]
      · simp [setQueue, OrderedDict.contains, hn, declares, reset, Ne.symm hn]
    · rw [exchanges]
      simp [setQueue, reset, exchange]
    · rw [isBound_bindQueue]
      have same : (s.setQueue name { messages := [], consumers := .empty }).isBound e q =
          s.isBound e q := rfl
      have default : (s.setQueue name { messages := [], consumers := .empty }).exchanges.contains []
          = true := integral.defaultExchange
      rw [same, binds, reset]
      by_cases hn : name = q
      · subst hn
        by_cases he : e = []
        · subst he
          simp [default]
          simp [setQueue, OrderedDict.contains]
        · simp [he, Ne.symm he]
      · simp [hn]
    · have moved : ((s.setQueue name { messages := [], consumers := .empty }).bindQueue name []).2.messagesIn
          q = (s.setQueue name { messages := [], consumers := .empty }).messagesIn q := by
        simp only [messagesIn, queues]
      rw [moved, messagesIn_setQueue, purgesQueue, forQueue]
      by_cases hn : q = name
      · have empty : s.messagesIn name = [] := by
          cases found : s.queues.get? name with
          | none => simp only [messagesIn, found]
          | some queue => simp [OrderedDict.contains, found] at hq
        simp [hn, empty]
      · simp [hn]
    · have moved : ((s.setQueue name { messages := [], consumers := .empty }).bindQueue name []).2.messagesOn
          e = s.messagesOn e := by
        simp only [messagesOn, exchanges]
        rfl
      simp [moved, purgesExchange, forExchange]

/-! ### Messages -/

theorem appendToQueue_adds {s : State} {n : Str} (h : s.queues.contains n = true)
    (m : StoredMessage) : ∃ s', appendToQueue n m s = .ok () s' ∧
      Adds (fun q => if n = q then [m] else []) (fun _ => []) s s' := by
  obtain ⟨queue, found⟩ := contains_iff.mp h
  refine ⟨s.setQueue n { queue with messages := queue.messages ++ [m] }, ?_,
    sameNames_setQueue found, fun q => ?_, fun e => (List.append_nil _).symm⟩
  · simp only [appendToQueue, found]
  · rw [messagesIn_setQueue]
    by_cases hq : q = n
    · simp [hq, messagesIn_eq found]
    · simp [hq, Ne.symm hq]

theorem appendToExchange_adds {s : State} {n : Str} (h : s.exchanges.contains n = true)
    (m : StoredMessage) : ∃ s', appendToExchange n m s = .ok () s' ∧
      Adds (fun _ => []) (fun e => if n = e then [m] else []) s s' ∧
      ∀ q, s'.consumersOf q = s.consumersOf q := by
  obtain ⟨exchange, found⟩ := contains_iff.mp h
  refine ⟨s.setExchange n { exchange with messages := exchange.messages ++ [m] }, ?_,
    ⟨sameNames_setExchange found, fun q => (List.append_nil _).symm, fun e => ?_⟩, fun _ => rfl⟩
  · simp only [appendToExchange, found]
  · rw [messagesOn_setExchange]
    by_cases he : e = n
    · simp [he, messagesOn_eq found]
    · simp [he, Ne.symm he]

/-- Every queue of the list gets the message once. -/
theorem appendToQueues_adds {queues : List Str} (m : StoredMessage) {s : State}
    (declared : ∀ q ∈ queues, s.queues.contains q = true) (once : queues.Nodup) :
    ∃ s', appendToQueues m queues s = .ok () s' ∧
      Adds (fun q => if q ∈ queues then [m] else []) (fun _ => []) s s' := by
  induction queues generalizing s with
  | nil => exact ⟨s, rfl, sameContents_refl s⟩
  | cons n rest ih =>
      obtain ⟨s1, stored, first⟩ := appendToQueue_adds (declared n List.mem_cons_self) m
      obtain ⟨s', ended, later⟩ := ih (s := s1)
        (fun q hq => (first.queues q).trans (declared q (List.mem_cons_of_mem _ hq)))
        (List.nodup_cons.mp once).2
      refine ⟨s', (bind_ok stored).trans ended, ?_⟩
      have both := first.trans later
      refine ⟨both.toSameNames, fun q => ?_, both.messagesOn⟩
      rw [both.messagesIn]
      by_cases hq : n = q
      · subst hq
        simp [(List.nodup_cons.mp once).1]
      · simp [hq, Ne.symm hq]

theorem Integral.declared {s : State} (h : s.Integral) {e q : Str} (bound : s.isBound e q = true) :
    s.exchanges.contains e = true ∧ s.queues.contains q = true := by
  obtain ⟨set, hset, member⟩ := isBound_iff.mp bound
  exact ⟨h.boundExchange e set hset, h.boundQueue e set hset q member⟩

theorem mem_boundQueues_iff {env : Env} {s : State} {e q : Str} :
    q ∈ s.boundQueues env e ↔ s.isBound e q = true := by
  rw [isBound_iff, mem_boundQueues]

theorem effect_storeMessage (env : Env) {s : State} (integral : s.Integral) (e : Str)
    (headers data : Val) : (Operation.call (.storeMessage e headers data)).Effect s
      (after (storeMessage env e headers data) s) := by
  have fixed : (Operation.call (.storeMessage e headers data)).Fixed :=
    ⟨rfl, fun _ => rfl, fun _ => rfl, fun _ _ _ => rfl, fun _ => rfl, fun _ => rfl⟩
  refine Adds.effect ?_ fixed
  by_cases he : s.exchanges.contains e = true
  · obtain ⟨s1, stored, first, _⟩ := appendToExchange_adds he { headers, body := data }
    have bound : ∀ q, q ∈ s1.boundQueues env e ↔ s.isBound e q = true := by
      intro q
      rw [mem_boundQueues_iff, first.isBound]
    obtain ⟨s2, appended, later⟩ := appendToQueues_adds { headers, body := data } (s := s1)
      (fun q hq => (first.queues q).trans (integral.declared ((bound q).mp hq)).2)
      (nodup_boundQueues env s1 e)
    have ended : storeMessage env e headers data s = .ok true s2 := by
      unfold storeMessage
      rw [bind_apply, read_apply]
      simp only [he, not_true_eq_false, if_false]
      rw [bind_ok stored, bind_apply, read_apply]
      exact bind_ok appended
    rw [after_ok ended]
    have both := first.trans later
    refine ⟨both.toSameNames, fun q => ?_, fun exchange => ?_⟩
    · rw [both.messagesIn]
      by_cases hq : s.isBound e q = true
      · simp [Operation.forQueue, names, bound, hq]
      · simp [Operation.forQueue, names, bound, hq]
    · rw [both.messagesOn]
      by_cases same : e = exchange
      · simp [Operation.forExchange, names, declared, ← same, he]
      · simp [Operation.forExchange, same]
  · have ended : storeMessage env e headers data s = .ok false s := by
      unfold storeMessage
      rw [bind_apply, read_apply]
      simp only [he]
      rfl
    rw [after_ok ended]
    refine ⟨sameNames_progress.refl s, fun q => ?_, fun exchange => ?_⟩
    · have unbound : ¬ s.isBound e q = true := fun bound => he (integral.declared bound).1
      simp [Operation.forQueue, names, unbound]
    · by_cases same : e = exchange
      · simp [Operation.forExchange, names, declared, ← same, he]
      · simp [Operation.forExchange, same]

theorem effect_storeMessageInQueue (s : State) (n : Str) (headers data : Val) :
    (Operation.storeMessageInQueue n headers data).Effect s
      (after (storeMessageInQueue n headers data) s) := by
  have fixed : (Operation.storeMessageInQueue n headers data).Fixed :=
    ⟨rfl, fun _ => rfl, fun _ => rfl, fun _ _ _ => rfl, fun _ => rfl, fun _ => rfl⟩
  refine Adds.effect ?_ fixed
  by_cases hn : s.queues.contains n = true
  · obtain ⟨s1, stored, adds⟩ := appendToQueue_adds hn { headers, body := data }
    have ended : storeMessageInQueue n headers data s = .ok true s1 := by
      unfold storeMessageInQueue
      rw [bind_apply, read_apply]
      simp only [hn, not_true_eq_false, if_false]
      exact bind_ok stored
    rw [after_ok ended]
    refine ⟨adds.toSameNames, fun q => ?_, adds.messagesOn⟩
    rw [adds.messagesIn]
    by_cases same : n = q
    · simp [Operation.forQueue, names, declared, ← same, hn]
    · simp [Operation.forQueue, same]
  · have ended : storeMessageInQueue n headers data s = .ok false s := by
      unfold storeMessageInQueue
      rw [bind_apply, read_apply]
      simp only [hn]
      rfl
    rw [after_ok ended]
    refine ⟨sameNames_progress.refl s, fun q => ?_, fun e => (List.append_nil _).symm⟩
    by_cases same : n = q
    · simp [Operation.forQueue, names, declared, ← same, hn]
    · simp [Operation.forQueue, same]

theorem effect_deleteMessagesOfQueue (s : State) (n : Str) :
    (Operation.http (.deleteMessagesOfQueue n)).Effect s (s.deleteMessagesOfQueue n) := by
  have same : SameNames s (s.deleteMessagesOfQueue n) := by
    unfold deleteMessagesOfQueue
    cases hn : s.queues.get? n with
    | none => exact sameNames_progress.refl s
    | some queue => exact sameNames_setQueue hn
  refine ⟨fun q => ?_, fun e _ => ?_, fun e q => ?_, fun q => ?_, fun e => ?_⟩
  · simp [same.queues, Operation.isReset, Operation.declaresQueue]
  · simp [same.exchanges, Operation.isReset, Operation.declaresExchange]
  · simp [same.isBound, Operation.isReset, Operation.binds]
  · by_cases hq : n = q
    · subst hq
      cases hn : s.queues.get? n with
      | none => simp [deleteMessagesOfQueue, messagesIn, hn, Operation.purgesQueue,
          Operation.forQueue]
      | some queue => simp [deleteMessagesOfQueue, hn, Operation.purgesQueue, Operation.forQueue]
    · cases hn : s.queues.get? n with
      | none => simp [deleteMessagesOfQueue, hn, Operation.purgesQueue, Operation.forQueue, hq]
      | some queue =>
          simp [deleteMessagesOfQueue, hn, Operation.purgesQueue, Operation.forQueue, hq,
            Ne.symm hq]
  · cases hn : s.queues.get? n with
    | none => simp [deleteMessagesOfQueue, hn, Operation.purgesExchange, Operation.forExchange]
    | some queue =>
        simp [deleteMessagesOfQueue, hn, Operation.purgesExchange, Operation.forExchange]

theorem effect_deleteMessagesOfExchange (s : State) (n : Str) :
    (Operation.http (.deleteMessagesOfExchange n)).Effect s (s.deleteMessagesOfExchange n) := by
  have same : SameNames s (s.deleteMessagesOfExchange n) := by
    unfold deleteMessagesOfExchange
    cases hn : s.exchanges.get? n with
    | none => exact sameNames_progress.refl s
    | some exchange => exact sameNames_setExchange hn
  refine ⟨fun q => ?_, fun e _ => ?_, fun e q => ?_, fun q => ?_, fun e => ?_⟩
  · simp [same.queues, Operation.isReset, Operation.declaresQueue]
  · simp [same.exchanges, Operation.isReset, Operation.declaresExchange]
  · simp [same.isBound, Operation.isReset, Operation.binds]
  · cases hn : s.exchanges.get? n with
    | none => simp [deleteMessagesOfExchange, hn, Operation.purgesQueue, Operation.forQueue]
    | some exchange =>
        simp [deleteMessagesOfExchange, hn, Operation.purgesQueue, Operation.forQueue]
  · by_cases he : n = e
    · subst he
      cases hn : s.exchanges.get? n with
      | none => simp [deleteMessagesOfExchange, messagesOn, hn, Operation.purgesExchange,
          Operation.forExchange]
      | some exchange =>
          simp [deleteMessagesOfExchange, hn, Operation.purgesExchange, Operation.forExchange]
    · cases hn : s.exchanges.get? n with
      | none =>
          simp [deleteMessagesOfExchange, hn, Operation.purgesExchange, Operation.forExchange, he]
      | some exchange =>
          simp [deleteMessagesOfExchange, hn, Operation.purgesExchange, Operation.forExchange, he,
            Ne.symm he]

end State

/-! ### Publications -/

/-- The names, the bindings and the messages of the shared state stay. -/
def KeepsContents (b b' : Broker) : Prop := State.SameContents b.state b'.state

theorem keepsContents_progress : Progress KeepsContents where
  refl := fun b => State.sameContents_refl b.state
  trans := fun h k => State.Adds.then_same h k

theorem keepsContents_serveQueue (queueName : Str) (pub : Publication) (exchangeName : Str) :
    Within KeepsContents (serveQueue queueName pub exchangeName) := by
  have hp := keepsContents_progress
  have table : Within KeepsContents (getConsumers queueName) := by
    intro b
    have same : after (getConsumers queueName) b = b := by
      cases found : b.state.queues.get? queueName <;> simp only [after, getConsumers, found]
    rw [same]
    exact hp.refl b
  refine within_bind hp table fun consumers => within_bind hp ?_ fun r => ?_
  · intro b
    rw [KeepsContents, (offer_after queueName exchangeName pub b consumers.entries).1]
    exact State.sameContents_refl b.state
  · have cleaned : Within KeepsContents (update fun b : Broker =>
        { b with state := b.state.deleteConsumers queueName r.2 } : OnBroker Unit) :=
      fun b => State.sameContents_deleteConsumers b.state queueName r.2
    exact within_bind hp cleaned fun _ => within_pure hp _

theorem keepsContents_serveBoundQueues (pub : Publication) (exchangeName : Str)
    (queues : List Str) : Within KeepsContents (serveBoundQueues pub exchangeName queues) := by
  cases queues with
  | nil => exact within_pure keepsContents_progress _
  | cons queueName _ => exact keepsContents_serveQueue queueName pub exchangeName

theorem effect_publishMessage (env : Env) (b : Broker) (e : Str) (pub : Publication) :
    (Operation.http (.publishMessage e pub)).Effect b.state
      (after (publishMessage env e pub) b).state := by
  have fixed : (Operation.http (.publishMessage e pub)).Fixed :=
    ⟨rfl, fun _ => rfl, fun _ => rfl, fun _ _ _ => rfl, fun _ => rfl, fun _ => rfl⟩
  refine State.Adds.effect ?_ fixed
  by_cases he : b.state.exchanges.contains e = true
  · obtain ⟨s, stored, adds, _⟩ := State.appendToExchange_adds he pub.stored
    have appended : onState (State.appendToExchange e pub.stored) b = .ok () { b with state := s } := by
      simp only [onState, zoom, stored]
    have start : publishMessage env e pub b = serveBoundQueues pub e (s.boundQueues env e)
        { b with state := s } := by
      simp only [publishMessage, bind_apply, read_apply, he, not_true_eq_false, if_false, appended]
    rw [after_congr start]
    have all := adds.then_same (keepsContents_serveBoundQueues pub e (s.boundQueues env e)
      { b with state := s })
    refine ⟨all.toSameNames, all.messagesIn, fun exchange => ?_⟩
    rw [all.messagesOn]
    by_cases same : e = exchange
    · simp [Operation.forExchange, State.names, State.declared, ← same, he]
    · simp [Operation.forExchange, same]
  · have ended : publishMessage env e pub b = .ok none b := by
      simp only [publishMessage, bind_apply, read_apply, he]
      rfl
    rw [after_ok ended]
    refine ⟨State.sameNames_progress.refl _, fun q => (List.append_nil _).symm, fun exchange => ?_⟩
    by_cases same : e = exchange
    · simp [Operation.forExchange, State.names, State.declared, ← same, he]
    · simp [Operation.forExchange, same]

theorem effect_publishMessageInQueue (b : Broker) (n : Str) (pub : Publication) :
    (Operation.http (.publishMessageInQueue n pub)).Effect b.state
      (after (publishMessageInQueue n pub) b).state := by
  have fixed : (Operation.http (.publishMessageInQueue n pub)).Fixed :=
    ⟨rfl, fun _ => rfl, fun _ => rfl, fun _ _ _ => rfl, fun _ => rfl, fun _ => rfl⟩
  refine State.Adds.effect ?_ fixed
  by_cases hn : b.state.queues.contains n = true
  · obtain ⟨s, stored, adds⟩ := State.appendToQueue_adds hn pub.stored
    have appended : onState (State.appendToQueue n pub.stored) b = .ok () { b with state := s } := by
      simp only [onState, zoom, stored]
    have start : publishMessageInQueue n pub b = serveQueue n pub (str "dummy-exchange")
        { b with state := s } := by
      simp only [publishMessageInQueue, bind_apply, read_apply, hn, not_true_eq_false, if_false,
        appended]
    rw [after_congr start]
    have all := adds.then_same (keepsContents_serveQueue n pub (str "dummy-exchange")
      { b with state := s })
    refine ⟨all.toSameNames, fun q => ?_, all.messagesOn⟩
    rw [all.messagesIn]
    by_cases same : n = q
    · simp [Operation.forQueue, State.names, State.declared, ← same, hn]
    · simp [Operation.forQueue, same]
  · have ended : publishMessageInQueue n pub b = .ok none b := by
      simp only [publishMessageInQueue, bind_apply, read_apply, hn]
      rfl
    rw [after_ok ended]
    refine ⟨State.sameNames_progress.refl _, fun q => ?_, fun e => (List.append_nil _).symm⟩
    by_cases same : n = q
    · simp [Operation.forQueue, State.names, State.declared, ← same, hn]
    · simp [Operation.forQueue, same]

/-! ## Every operation -/

theorem after_onState {α : Type} (x : EStateM PyError State α) (b : Broker) :
    after (onState x) b = { b with state := after x b.state } := after_zoom _ _ x b

theorem Operation.step_integral (env : Env) (b : Broker) (op : Operation)
    (h : b.state.Integral) : (op.step env b).state.Integral := by
  cases op with
  | call op =>
      rw [step, after_onState]
      exact State.integral_call env op b.state h
  | http op => exact integral_http env op b h
  | storeMessageInQueue n headers data =>
      rw [step, after_onState]
      have hp := State.sameNames_progress
      have same : Within State.SameNames (State.storeMessageInQueue n headers data) := by
        refine within_bind hp (within_read hp _) fun _ => within_ite (within_pure hp _) ?_
        exact within_bind hp (State.sameNames_appendToQueue n _) fun _ => within_pure hp _
      exact h.of_sameNames (same b.state)
  | lost c => exact h

theorem Operation.step_effect (env : Env) (b : Broker) (op : Operation) (h : b.state.Integral) :
    op.Effect b.state (op.step env b).state := by
  have idle : ∀ {s' : State}, op.Fixed → op.forQueue b.state.names = (fun _ => []) →
      op.forExchange b.state.names = (fun _ => []) → State.SameContents b.state s' →
      op.Effect b.state s' := by
    intro s' fixed forQueue forExchange same
    refine State.Adds.effect ?_ fixed
    rwa [forQueue, forExchange]
  cases op with
  | lost c =>
      refine idle ⟨rfl, fun _ => rfl, fun _ => rfl, fun _ _ _ => rfl, fun _ => rfl, fun _ => rfl⟩
        rfl rfl ?_
      exact State.sameContents_refl b.state
  | storeMessageInQueue n headers data =>
      rw [step, after_onState]
      exact State.effect_storeMessageInQueue b.state n headers data
  | call op =>
      rw [step, after_onState]
      have unchanged : ∀ {s' : State}, op.run env b.state = .ok true s' →
          State.SameContents b.state s' → State.SameContents b.state (after (op.run env) b.state) :=
        fun ran same => by rwa [after_ok ran]
      cases op with
      | declareExchange name type => exact State.effect_declareExchange b.state name type (.inl rfl)
      | declareQueue name => exact State.effect_declareQueue h name (.inl rfl)
      | bindQueue queue exchange => exact State.effect_bindQueue b.state queue exchange
      | storeMessage e headers data => exact State.effect_storeMessage env h e headers data
      | registerConsumer c tag queue n =>
          refine idle ⟨rfl, fun _ => rfl, fun _ => rfl, fun _ _ _ => rfl, fun _ => rfl,
            fun _ => rfl⟩ rfl rfl ?_
          exact State.sameContents_registerConsumer b.state c tag queue n
      | checkCredentials username password =>
          refine idle ⟨rfl, fun _ => rfl, fun _ => rfl, fun _ _ _ => rfl, fun _ => rfl,
            fun _ => rfl⟩ rfl rfl ?_
          have same := State.sameContents_refl b.state
          exact ⟨⟨same.exchanges, same.queues, same.bound⟩, same.messagesIn, same.messagesOn⟩
      | messageAck tag =>
          refine idle ⟨rfl, fun _ => rfl, fun _ => rfl, fun _ _ _ => rfl, fun _ => rfl,
            fun _ => rfl⟩ rfl rfl ?_
          have same := State.sameContents_refl b.state
          exact ⟨⟨same.exchanges, same.queues, same.bound⟩, same.messagesIn, same.messagesOn⟩
      | messageNack tag requeue =>
          refine idle ⟨rfl, fun _ => rfl, fun _ => rfl, fun _ _ _ => rfl, fun _ => rfl,
            fun _ => rfl⟩ rfl rfl ?_
          have same := State.sameContents_refl b.state
          cases requeue with
          | true => exact ⟨⟨same.exchanges, same.queues, same.bound⟩, same.messagesIn, same.messagesOn⟩
          | false => exact ⟨⟨same.exchanges, same.queues, same.bound⟩, same.messagesIn, same.messagesOn⟩
  | http op =>
      cases op with
      | declareExchange name type => exact State.effect_declareExchange b.state name type (.inr rfl)
      | declareQueue name => exact State.effect_declareQueue h name (.inr rfl)
      | deleteMessagesOfQueue n => exact State.effect_deleteMessagesOfQueue b.state n
      | deleteMessagesOfExchange n => exact State.effect_deleteMessagesOfExchange b.state n
      | publishMessage e pub =>
          have ended : after ((HttpOp.publishMessage e pub).run env) b =
              after (publishMessage env e pub) b := after_bind_pure _ _ b
          rw [step, ended]
          exact effect_publishMessage env b e pub
      | publishMessageInQueue n pub =>
          have ended : after ((HttpOp.publishMessageInQueue n pub).run env) b =
              after (publishMessageInQueue n pub) b := after_bind_pure _ _ b
          rw [step, ended]
          exact effect_publishMessageInQueue b n pub
      | reset =>
          have fresh : (step env b (.http .reset)).state = State.init env := rfl
          rw [fresh]
          refine ⟨fun q => ?_, fun e he => ?_, fun e q => ?_, fun q => ?_, fun e => ?_⟩
          · simp [isReset, declaresQueue, State.init, OrderedDict.contains]
          · simp [isReset, declaresExchange, State.init, OrderedDict.contains, OrderedDict.ofList, he]
          · simp [isReset, binds, State.init, State.isBound]
          · simp [purgesQueue, forQueue, State.init, State.messagesIn]
          · by_cases he : e = []
            · subst he
              rfl
            · simp [purgesExchange, forExchange, State.init, State.messagesOn, OrderedDict.ofList, he]

end MockAmqp
