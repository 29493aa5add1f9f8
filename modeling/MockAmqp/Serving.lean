import MockAmqp.ContentHeader
import MockAmqp.ShortStrings
import MockAmqp.Wire

/-!
# Who is served

A publication reaches the first consumer whose transport is not closing, and only those before it
are forgotten. The two publications agree on an exchange with one bound queue.
-/

namespace MockAmqp
open Exec

/-- The consumer that a push goes to, under its tag. -/
def Push.consumer (p : Push) : Str × Consumer :=
  (p.consumerTag, { protocol := p.protocol, channelNumber := p.channelNumber })

/-- The first consumer of the queue whose transport is not closing. -/
def Broker.firstLive (b : Broker) (queueName : Str) : Option (Str × Consumer) :=
  (b.state.consumersOf queueName).find? fun p => !b.isClosing p.2.protocol

/-- How many consumers come before it. -/
def Broker.passedOver (b : Broker) (queueName : Str) : Nat :=
  ((b.state.consumersOf queueName).takeWhile fun p => b.isClosing p.2.protocol).length

section
variable {b : Broker} {queueName : Str} {pub : Publication}

theorem firstLive_none
    (closing : ∀ p ∈ b.state.consumersOf queueName, b.isClosing p.2.protocol = true) :
    b.firstLive queueName = none := by
  refine List.find?_eq_none.mpr fun p mem => ?_
  simp [closing p mem]

variable {dead rest : List (Str × Consumer)} {p : Str × Consumer}

theorem firstLive_some (split : b.state.consumersOf queueName = dead ++ p :: rest)
    (closing : ∀ q ∈ dead, b.isClosing q.2.protocol = true)
    (live : b.isClosing p.2.protocol = false) : b.firstLive queueName = some p := by
  have passed : dead.find? (fun p => !b.isClosing p.2.protocol) = none :=
    List.find?_eq_none.mpr fun q mem => by simp [closing q mem]
  rw [Broker.firstLive, split, List.find?_append, passed, Option.none_or,
    List.find?_cons_of_pos (by simp [live])]

theorem passedOver_eq (split : b.state.consumersOf queueName = dead ++ p :: rest)
    (closing : ∀ q ∈ dead, b.isClosing q.2.protocol = true)
    (live : b.isClosing p.2.protocol = false) : b.passedOver queueName = dead.length := by
  rw [Broker.passedOver, split, List.takeWhile_append_of_pos closing,
    List.takeWhile_cons_of_neg (by simp [live]), List.append_nil]

theorem dropWhile_closing (split : b.state.consumersOf queueName = dead ++ p :: rest)
    (closing : ∀ q ∈ dead, b.isClosing q.2.protocol = true)
    (live : b.isClosing p.2.protocol = false) :
    (b.state.consumersOf queueName).dropWhile (fun p => b.isClosing p.2.protocol) = p :: rest := by
  rw [split, List.dropWhile_append_of_pos closing, List.dropWhile_cons_of_neg (by simp [live])]

/-! ## The table that is left -/

theorem consumersOf_append {q : Queue} (found : b.state.queues.get? queueName = some q)
    (m : StoredMessage) (n : Str) : (b.state.setQueue queueName
      { q with messages := q.messages ++ [m] }).consumersOf n = b.state.consumersOf n := by
  rw [State.consumersOf_setQueue]
  by_cases same : n = queueName
  · rw [if_pos same, same, State.consumersOf_eq found]
  · rw [if_neg same]

/-- Forgetting the first consumers leaves the others, and the other queues. -/
theorem consumersOf_forgotten {s : State} {front : List (Str × Consumer)}
    (split : s.consumersOf queueName = front ++ rest) (n : Str) :
    (s.deleteConsumers queueName (front.map Prod.fst)).consumersOf n =
      if n = queueName then rest else s.consumersOf n := by
  have distinct : ((front ++ rest).map Prod.fst).Nodup := by
    rw [← split]
    unfold State.consumersOf
    cases s.queues.get? queueName with
    | none => exact List.nodup_nil
    | some q => exact q.consumers.nodup
  rw [consumersOf_deleteConsumers]
  by_cases same : n = queueName
  · rw [if_pos same, if_pos same, split]
    exact (List.filter_congr fun _ _ => decide_eq_decide.mpr Iff.rfl).trans
      (OrderedDict.filter_front distinct)
  · rw [if_neg same, if_neg same]

end

/-- A publication to a queue whose push succeeds calls one push at most, on the first consumer
whose transport is not closing. The closing consumers before it are forgotten, all the others
stay in their order, and so do the consumers of other queues. -/
theorem first_live_served (b : Broker) {queueName : Str} (pub : Publication) {q : Queue}
    (found : b.state.queues.get? queueName = some q)
    (succeeds : ∀ p, b.firstLive queueName = some p → b.canPush pub (str "dummy-exchange") queueName p
      (b.draws (b.passedOver queueName)) = true) :
    ∃ tag b' called, publishMessageInQueue queueName pub b = .ok tag b' ∧
      b'.trace = b.trace ++ (Option.toList called).map .push ∧
      called.map Push.consumer = b.firstLive queueName ∧
      b'.state.consumersOf queueName =
        (b.state.consumersOf queueName).dropWhile (fun p => b.isClosing p.2.protocol) ∧
      ∀ n, n ≠ queueName → b'.state.consumersOf n = b.state.consumersOf n := by
  let q1 : Queue := { q with messages := q.messages ++ [pub.stored] }
  let b1 : Broker := { b with state := b.state.setQueue queueName q1 }
  have hq1 : b1.state.queues.get? queueName = some q1 := OrderedDict.get?_insert_self _ _ _
  have here := State.consumersOf_eq found
  have appended : ∀ n, b1.state.consumersOf n = b.state.consumersOf n :=
    consumersOf_append found pub.stored
  rw [publishMessageInQueue_declared found]
  rcases first_live b q.consumers.entries with all | ⟨dead, p, rest, split, closing, live⟩
  · have closing : ∀ p ∈ b.state.consumersOf queueName, b.isClosing p.2.protocol = true := by
      rwa [here]
    have whole : b1.state.consumersOf queueName = q.consumers.entries ++ [] := by
      rw [appended, here, List.append_nil]
    refine ⟨_, _, none, serveQueue_nobody hq1 all, by simp [Broker.drawn], ?_, ?_, ?_⟩
    · exact (firstLive_none closing).symm
    · rw [List.dropWhile_eq_nil_iff.mpr closing]
      exact (consumersOf_forgotten whole queueName).trans (if_pos rfl)
    · intro n other
      exact (consumersOf_forgotten whole n).trans ((if_neg other).trans (appended n))
  · rw [← here] at split
    obtain ⟨message, t, payload, sent⟩ := canPush_eq_true
      (succeeds p (firstLive_some split closing live))
    rw [passedOver_eq split closing live] at sent
    have whole : b1.state.consumersOf queueName = dead ++ p :: rest := (appended _).trans split
    refine ⟨_, _, some (pushTo queueName pub (str "dummy-exchange") p (b.draws dead.length) message),
      serveQueue_pushed (b := b1) hq1 (here.symm.trans split) closing live payload sent,
      ?_, ?_, ?_, ?_⟩
    · rw [after_pushMessage]
      rfl
    · exact (firstLive_some split closing live).symm
    · rw [dropWhile_closing split closing live]
      exact (consumersOf_forgotten whole queueName).trans (if_pos rfl)
    · intro n other
      exact (consumersOf_forgotten whole n).trans ((if_neg other).trans (appended n))

/-- Three consumers of one queue, the first of whom has gone. -/
def firstGone : List Action :=
  oneConsumer ++ logIn 1 ++ consume 1 "q" "u" ++ logIn 2 ++ consume 2 "q" "v" ++ [.connectionLost 0]

theorem first_live_served_one :
    let b := (session firstGone).broker
    ∃ tag b' called, publishMessageInQueue (str "q") greeting b = .ok tag b' ∧
      b'.trace = b.trace ++ (Option.toList called).map .push ∧
      called.map Push.consumer = b.firstLive (str "q") ∧
      b'.state.consumersOf (str "q") =
        (b.state.consumersOf (str "q")).dropWhile (fun p => b.isClosing p.2.protocol) ∧
      ∀ n, n ≠ str "q" → b'.state.consumersOf n = b.state.consumersOf n := by
  intro b
  have facts : b.state.queues.contains (str "q") = true ∧
      (b.firstLive (str "q")).all (fun p => b.canPush greeting (str "dummy-exchange") (str "q") p
        (b.draws (b.passedOver (str "q")))) = true := by decide +kernel
  obtain ⟨q, found⟩ := Option.isSome_iff_exists.mp facts.1
  refine first_live_served b greeting found ?_
  intro p first
  have each := facts.2
  rw [first] at each
  exact each

/-! ## Two publications that agree -/

/-- What a computation returned or raised, and the state it left. -/
def ended {σ α : Type} : EStateM.Result PyError σ α → Except PyError α × σ
  | .ok a s => (.ok a, s)
  | .error e s => (.error e, s)

/-- The two publications made the same push, if any, but for the exchange name. -/
def SamePush (old : List Event) (other : Str) (b b' : Broker) : Prop :=
  ∃ called : Option Push, b.trace = old ++ (Option.toList called).map .push ∧
    b'.trace = old ++ (Option.toList called).map fun p => .push { p with exchangeName := other }

/-- Two publications returned or raised the same, made the same push, if any, but for the
exchange name, which is `other` in the second, and left the same consumers. -/
structure Agree (old : List Event) (other : Str)
    (r r' : EStateM.Result PyError Broker (Option Nat)) : Prop where
  outcome : (ended r).1 = (ended r').1
  pushed : SamePush old other (ended r).2 (ended r').2
  consumers : ∀ n, (ended r).2.state.consumersOf n = (ended r').2.state.consumersOf n

section
variable {exchangeName other queueName : Str} {pub : Publication} {old : List Event} {s s' : Broker}

theorem agree_ok {tag : Option Nat} (pushed : SamePush old other s s')
    (consumers : ∀ n, s.state.consumersOf n = s'.state.consumersOf n) :
    Agree old other (.ok tag s) (.ok tag s') := ⟨rfl, pushed, consumers⟩

theorem agree_error {e : PyError} (pushed : SamePush old other s s')
    (consumers : ∀ n, s.state.consumersOf n = s'.state.consumersOf n) :
    Agree old other (.error e s) (.error e s') := ⟨rfl, pushed, consumers⟩

theorem samePush_none (same : s.trace = old) (same' : s'.trace = old) : SamePush old other s s' :=
  ⟨none, same.trans (List.append_nil _).symm, same'.trans (List.append_nil _).symm⟩

/-- The exchange name makes no difference to whether a push succeeds, if it is short. -/
theorem Push.send_agree {p : Push} (tag : Short p.consumerTag) (name : Short p.exchangeName)
    (name' : Short other) (drawn : p.deliveryTag < 2 ^ 64) (t : Transport) :
    (∃ u u', p.send t = .ok () u ∧ ({ p with exchangeName := other } : Push).send t = .ok () u') ∨
      ∃ e u u', p.send t = .error e u ∧
        ({ p with exchangeName := other } : Push).send t = .error e u' := by
  let p' : Push := { p with exchangeName := other }
  have content : p'.content = p.content := rfl
  by_cases small : p.channelNumber < 256
  · obtain ⟨raw, _, sent⟩ := Push.deliver_sendsOn small tag name drawn
    obtain ⟨raw', _, sent'⟩ := Push.deliver_sendsOn (p := p') small tag name' drawn
    rw [Push.send_eq, Push.send_eq, bind_ok (sent t), bind_ok (sent' t), content]
    cases encodes : p.encodes with
    | true =>
        obtain ⟨_, _, _, _, whole⟩ := Push.content_whole small encodes
        exact .inl ⟨_, _, whole _, whole _⟩
    | false =>
        obtain ⟨_, ⟨e, failed⟩, _⟩ := Push.content_cut small encodes
        exact .inr ⟨e, _, _, failed _, failed _⟩
  · have large := Nat.not_lt.mp small
    refine .inr ⟨.valueError, t, t, ?_, ?_⟩
    · rw [Push.send_eq, bind_apply, Push.deliver_refused large tag name drawn]
    · rw [Push.send_eq, bind_apply, Push.deliver_refused (p := p') large tag name' drawn]

theorem consumersOf_deleteConsumers_congr {s s' : State}
    (same : ∀ n, s.consumersOf n = s'.consumersOf n) (gone : List Str) (n : Str) :
    (s.deleteConsumers queueName gone).consumersOf n =
      (s'.deleteConsumers queueName gone).consumersOf n := by
  rw [consumersOf_deleteConsumers, consumersOf_deleteConsumers, same, same]

theorem pushMessage_trace (p : Push) (b : Broker) :
    (after (pushMessage p) b).trace = b.trace ++ [.push p] := by
  rw [after_pushMessage]
  rfl

theorem pushMessage_state (p : Push) (b : Broker) : (after (pushMessage p) b).state = b.state := by
  rw [after_pushMessage]
  rfl

theorem draw_lt (d : Draw) : d.val < 2 ^ 64 := by
  have bound := d.property.2
  omega

/-- From states with the same consumers, serving a queue under two exchange names agrees. -/
theorem serveQueue_agree {b : Broker} {s s' : State} {q q' : Queue}
    (hq : s.queues.get? queueName = some q) (hq' : s'.queues.get? queueName = some q')
    (same : ∀ n, s.consumersOf n = s'.consumersOf n)
    (tags : ∀ p ∈ s.consumersOf queueName, Short p.1) (name : Short exchangeName)
    (name' : Short other) : Agree b.trace other
      (serveQueue queueName pub exchangeName { b with state := s })
      (serveQueue queueName pub other { b with state := s' }) := by
  have table : q.consumers.entries = q'.consumers.entries := by
    rw [← State.consumersOf_eq hq, ← State.consumersOf_eq hq', same]
  let b1 : Broker := { b with state := s }
  let b2 : Broker := { b with state := s' }
  rcases first_live b1 q.consumers.entries with closing | ⟨dead, p, rest, split, closing, live⟩
  · have closing' : ∀ p ∈ q'.consumers.entries, b2.isClosing p.2.protocol = true := table ▸ closing
    rw [serveQueue_nobody (b := b1) hq closing, serveQueue_nobody (b := b2) hq' closing', ← table]
    exact agree_ok (samePush_none rfl rfl) (consumersOf_deleteConsumers_congr same _)
  · have split' : q'.consumers.entries = dead ++ p :: rest := table ▸ split
    have tag : Short p.1 := tags p (by rw [State.consumersOf_eq hq, split]; simp)
    cases payload : pub.payload with
    | error e =>
        rw [serveQueue_unencoded (b := b1) hq split closing live payload,
          serveQueue_unencoded (b := b2) hq' split' closing live payload]
        exact agree_error (samePush_none rfl rfl) same
    | ok message =>
        let push := pushTo queueName pub exchangeName p (b.draws dead.length) message
        rcases Push.send_agree (p := push) tag name name' (draw_lt _)
            (b.trackers p.2.protocol).transport with ⟨u, u', sent, sent'⟩ | ⟨e, u, u', failed, failed'⟩
        · rw [serveQueue_pushed (b := b1) hq split closing live payload sent,
            serveQueue_pushed (b := b2) hq' split' closing live payload sent']
          exact agree_ok ⟨some push, pushMessage_trace _ _, pushMessage_trace _ _⟩
            (consumersOf_deleteConsumers_congr same _)
        · rw [serveQueue_unsent (b := b1) hq split closing live payload failed,
            serveQueue_unsent (b := b2) hq' split' closing live payload failed']
          refine agree_error ⟨some push, pushMessage_trace _ _, pushMessage_trace _ _⟩ ?_
          intro n
          rw [pushMessage_state, pushMessage_state]
          exact same n

end

theorem dummy_short : Short (str "dummy-exchange") := by
  have length : (encodePass (str "dummy-exchange")).length = 14 := rfl
  unfold Short
  omega

/-- On an exchange with one bound queue, a publication to the exchange and one to the queue
agree. -/
theorem publications_agree (env : Env) {b : Broker} (h : Reachable env b) {exchangeName queueName : Str}
    (bound : ∀ n, b.state.isBound exchangeName n = true ↔ n = queueName) (pub : Publication) :
    Agree b.trace (str "dummy-exchange") (publishMessage env exchangeName pub b)
      (publishMessageInQueue queueName pub b) := by
  have integral := reachable_integral h
  have short := reachable_shortNames h
  have queues : b.state.boundQueues env exchangeName = [queueName] := by
    have nodup := State.nodup_boundQueues env b.state exchangeName
    refine List.perm_singleton.mp ((List.perm_ext_iff_of_nodup nodup (List.nodup_singleton _)).mpr ?_)
    intro n
    rw [State.mem_boundQueues_iff, bound, List.mem_singleton]
  have declared := integral.declared ((bound queueName).mpr rfl)
  obtain ⟨e, exchange⟩ := State.contains_iff.mp declared.1
  obtain ⟨q, queue⟩ := State.contains_iff.mp declared.2
  rw [publishMessage_declared exchange, publishMessageInQueue_declared queue, queues,
    serveBoundQueues]
  refine serveQueue_agree queue (OrderedDict.get?_insert_self _ _ _) ?_ (short.tag queueName)
    (short.bound _ _ ((bound queueName).mpr rfl)) dummy_short
  intro n
  rw [State.consumersOf_setExchange, consumersOf_append queue]

theorem publications_agree_one :
    Agree (session oneConsumer).broker.trace (str "dummy-exchange")
      (publishMessage guestEnv [] greeting (session oneConsumer).broker)
      (publishMessageInQueue (str "q") greeting (session oneConsumer).broker) := by
  have queues : (session oneConsumer).broker.state.boundQueues guestEnv [] = [str "q"] := by
    decide +kernel
  refine publications_agree guestEnv (session_reachable oneConsumer) ?_ greeting
  intro n
  have member : n ∈ (session oneConsumer).broker.state.boundQueues guestEnv [] ↔ n = str "q" := by
    rw [queues, List.mem_singleton]
  exact State.mem_boundQueues_iff.symm.trans member

end MockAmqp
