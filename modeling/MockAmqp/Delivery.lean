import MockAmqp.Integrity

/-!
# Delivery tags and bound queues

What a publication returns, compared with the consumers it reached, and which of the queues
bound to an exchange it serves.
-/

namespace MockAmqp
open Exec

/-- The pushes among some events. -/
def pushes (new : List Event) : List Push :=
  new.filterMap fun e => match e with
    | .push p => some p
    | _ => none

/-- The computation returns a tag and adds events to the trace that `P` accepts. -/
def Returns (x : OnBroker (Option Nat)) (b : Broker) (P : Option Nat → List Event → Prop) :
    Prop :=
  ∃ tag b' new, x b = .ok tag b' ∧ b'.trace = b.trace ++ new ∧ P tag new

/-- The queue has consumers, each on a closing transport. -/
def AllDead (b : Broker) (queueName : Str) : Prop :=
  b.state.consumersOf queueName ≠ [] ∧
    ∀ p ∈ b.state.consumersOf queueName, b.isClosing p.2.protocol = true

def HasLive (b : Broker) (queueName : Str) : Prop :=
  ∃ p ∈ b.state.consumersOf queueName, b.isClosing p.2.protocol = false

instance (b : Broker) (queueName : Str) : Decidable (AllDead b queueName) :=
  inferInstanceAs (Decidable (_ ∧ ∀ p ∈ _, _ = true))

instance (b : Broker) (queueName : Str) : Decidable (HasLive b queueName) :=
  inferInstanceAs (Decidable (∃ p ∈ _, _ = false))

/-- The returned tag is that of a push to a live consumer, and there is one only then. -/
def TagFaithful (b : Broker) (tag : Option Nat) (new : List Event) : Prop :=
  ∀ n, tag = some n ↔ ∃ p ∈ pushes new, p.deliveryTag = n ∧ b.Receives p

/-- Two accounts of one computation are both right. -/
theorem Returns.and {x : OnBroker (Option Nat)} {b : Broker}
    {P Q : Option Nat → List Event → Prop} (h : Returns x b P) (k : Returns x b Q) :
    Returns x b fun tag new => P tag new ∧ Q tag new := by
  obtain ⟨tag, b', new, returned, trace, hP⟩ := h
  obtain ⟨tag', b'', new', returned', trace', hQ⟩ := k
  rw [returned] at returned'
  cases returned'
  have same : new = new' := List.append_cancel_left (trace.symm.trans trace')
  exact ⟨tag, b', new, returned, trace, hP, same ▸ hQ⟩

namespace State

theorem mem_boundQueues {env : Env} {s : State} {e q : Str} :
    q ∈ s.boundQueues env e ↔ ∃ set, s.queuesBoundExchanges.get? e = some set ∧ q ∈ set.elems := by
  unfold boundQueues
  rw [(env.setOrder_perm _).mem_iff]
  cases h : s.queuesBoundExchanges.get? e with
  | none => simp [OrderedSet.empty]
  | some set => simp

theorem nodup_boundQueues (env : Env) (s : State) (e : Str) : (s.boundQueues env e).Nodup :=
  (env.setOrder_perm _).nodup_iff.mpr (OrderedSet.nodup _)

end State

section
variable {env : Env} {b : Broker} {pub : Publication} {exchangeName queueName : Str}

/-- A publication to an exchange serves the first bound queue of the iteration, if any. -/
theorem publishMessage_returns (h : b.state.Integral)
    (ok : ∀ q ∈ b.state.boundQueues env exchangeName, Deliverable b pub exchangeName q) :
    Returns (publishMessage env exchangeName pub) b fun tag new =>
      (b.state.boundQueues env exchangeName = [] ∧ tag = none ∧ new = []) ∨
      ∃ q rest, b.state.boundQueues env exchangeName = q :: rest ∧
        Served b pub exchangeName q (b.state.consumersOf q) tag new := by
  cases bound : b.state.boundQueues env exchangeName with
  | nil =>
      have result : ∃ b', publishMessage env exchangeName pub b = .ok none b' ∧
          b'.trace = b.trace := by
        by_cases he : b.state.exchanges.contains exchangeName = true
        · obtain ⟨e, hget⟩ := State.contains_iff.mp he
          let stored : Exchange := { e with messages := e.messages ++ [pub.stored] }
          let s := b.state.setExchange exchangeName stored
          have unbound : s.boundQueues env exchangeName = [] := bound
          have appended : onState (State.appendToExchange exchangeName pub.stored) b =
              .ok () { b with state := s } := by
            simp only [onState, zoom, State.appendToExchange, hget]
            rfl
          refine ⟨{ b with state := s }, ?_, rfl⟩
          simp only [publishMessage, bind_apply, read_apply, he, not_true_eq_false, if_false,
            appended, unbound, serveBoundQueues, pure_apply]
        · refine ⟨b, ?_, rfl⟩
          simp only [publishMessage, bind_apply, read_apply, he]
          rfl
      obtain ⟨b', returned, trace⟩ := result
      exact ⟨none, b', [], returned, by rw [trace, List.append_nil], .inl ⟨rfl, rfl, rfl⟩⟩
  | cons q rest =>
      have member : q ∈ b.state.boundQueues env exchangeName := by simp [bound]
      obtain ⟨set, hset, hq⟩ := State.mem_boundQueues.mp member
      obtain ⟨queue, hqueue⟩ := State.contains_iff.mp (h.boundQueue _ set hset q hq)
      obtain ⟨tag, b', new, returned, served, trace⟩ := publishMessage_served
        (h.boundExchange _ set hset) bound hqueue (ok q member)
      rw [← State.consumersOf_eq hqueue] at served
      exact ⟨tag, b', new, returned, trace, .inr ⟨q, rest, rfl, served⟩⟩

/-- A publication to a queue serves that queue, if it is declared. -/
theorem publishMessageInQueue_returns
    (ok : Deliverable b pub (str "dummy-exchange") queueName) :
    Returns (publishMessageInQueue queueName pub) b fun tag new =>
      Served b pub (str "dummy-exchange") queueName (b.state.consumersOf queueName) tag new := by
  cases hq : b.state.queues.get? queueName with
  | none =>
      have empty : b.state.consumersOf queueName = [] := by simp only [State.consumersOf, hq]
      have absent : b.state.queues.contains queueName = false := by
        simp only [OrderedDict.contains, hq, Option.isSome_none]
      refine ⟨none, b, [], ?_, by simp, ?_⟩
      · simp only [publishMessageInQueue, bind_apply, read_apply, absent]
        rfl
      · rw [empty]
        exact .passed (by simp)
  | some q =>
      obtain ⟨tag, b', new, returned, served, trace⟩ := publishMessageInQueue_served hq ok
      rw [← State.consumersOf_eq hq] at served
      exact ⟨tag, b', new, returned, trace, served⟩

theorem served_tagFaithful_iff {tag : Option Nat} {new : List Event}
    (h : Served b pub exchangeName queueName (b.state.consumersOf queueName) tag new) :
    TagFaithful b tag new ↔ ¬ AllDead b queueName := by
  generalize hentries : b.state.consumersOf queueName = entries at h
  cases h with
  | passed closing =>
      have unpushed : TagFaithful b (b.lastTag entries.length) [] ↔
          b.lastTag entries.length = none := by
        simp [TagFaithful, pushes, Option.eq_none_iff_forall_ne_some]
      rw [unpushed]
      cases entries with
      | nil => simp [AllDead, hentries, Broker.lastTag]
      | cons p rest =>
          have dead : AllDead b queueName := ⟨by simp [hentries], hentries ▸ closing⟩
          simp [dead, Broker.lastTag]
  | @pushed dead rest p message split closing live payload =>
      have member : p ∈ b.state.consumersOf queueName := by simp [hentries, split]
      have receives : b.Receives (pushTo queueName pub exchangeName p (b.draws dead.length)
          message) := ⟨member, live⟩
      have alive : ¬ AllDead b queueName := by
        rintro ⟨_, all⟩
        rw [all p member] at live
        cases live
      refine iff_of_true ?_ alive
      intro n
      constructor
      · intro same
        exact ⟨_, by simp [pushes], Option.some.inj same, receives⟩
      · rintro ⟨p', hp', rfl, _⟩
        have same : p' = pushTo queueName pub exchangeName p (b.draws dead.length) message := by
          simpa [pushes] using hp'
        rw [same]
        rfl

/-- A publication returns the tag of a delivery to a live consumer, and `None` without one,
exactly if the queue it serves is not one whose consumers are all on closing transports. -/
theorem publication_tagFaithful_iff (env : Env) (b : Broker) (h : Reachable env b)
    (pub : Publication) :
    (∀ exchangeName,
      (∀ q ∈ b.state.boundQueues env exchangeName, Deliverable b pub exchangeName q) →
      Returns (publishMessage env exchangeName pub) b fun tag new => (TagFaithful b tag new ↔
        ∀ q, (b.state.boundQueues env exchangeName).head? = some q → ¬ AllDead b q)) ∧
    ∀ queueName, Deliverable b pub (str "dummy-exchange") queueName →
      Returns (publishMessageInQueue queueName pub) b fun tag new =>
        (TagFaithful b tag new ↔ ¬ AllDead b queueName) := by
  constructor
  · intro exchangeName ok
    obtain ⟨tag, b', new, returned, trace, result⟩ :=
      publishMessage_returns (reachable_integral h) ok
    refine ⟨tag, b', new, returned, trace, ?_⟩
    rcases result with ⟨bound, rfl, rfl⟩ | ⟨q, rest, bound, served⟩
    · simp [bound, TagFaithful, pushes]
    · rw [served_tagFaithful_iff served, bound]
      simp
  · intro queueName ok
    obtain ⟨tag, b', new, returned, trace, served⟩ := publishMessageInQueue_returns ok
    exact ⟨tag, b', new, returned, trace, served_tagFaithful_iff served⟩

end

def greeting : Publication where
  headers := .dict []
  messageData := .str (str "hello")
  isBinary := false

/-- One queue with one consumer. -/
def oneConsumer : List Action :=
  logIn 0 ++ [.http (.declareQueue (str "q"))] ++ consume 0 "q" "t"

theorem publication_tagFaithful_live :
    Returns (publishMessage guestEnv [] greeting) (session oneConsumer).broker
      (TagFaithful (session oneConsumer).broker) ∧
    Returns (publishMessageInQueue (str "q") greeting) (session oneConsumer).broker
      (TagFaithful (session oneConsumer).broker) := by
  have facts : (session oneConsumer).broker.state.boundQueues guestEnv [] = [str "q"] ∧
      (∀ q ∈ (session oneConsumer).broker.state.boundQueues guestEnv [],
        Deliverable (session oneConsumer).broker greeting [] q) ∧
      Deliverable (session oneConsumer).broker greeting (str "dummy-exchange") (str "q") ∧
      ¬ AllDead (session oneConsumer).broker (str "q") := by decide +kernel
  obtain ⟨bound, ok, okInQueue, alive⟩ := facts
  have both := publication_tagFaithful_iff guestEnv _ (session_reachable oneConsumer) greeting
  obtain ⟨tag, b', new, returned, trace, faithful⟩ := both.1 [] ok
  obtain ⟨tag', b'', new', returned', trace', faithful'⟩ := both.2 (str "q") okInQueue
  refine ⟨⟨tag, b', new, returned, trace, faithful.mpr ?_⟩,
    ⟨tag', b'', new', returned', trace', faithful'.mpr alive⟩⟩
  rintro q hq
  rw [bound] at hq
  cases hq
  exact alive

/-- The consumer's connection is gone, and the publications return a tag all the same. -/
theorem publication_tag_of_the_dead :
    let b := (session (oneConsumer ++ [.connectionLost 0])).broker
    ¬ Returns (publishMessage guestEnv [] greeting) b (TagFaithful b) ∧
      ¬ Returns (publishMessageInQueue (str "q") greeting) b (TagFaithful b) := by
  intro b
  have facts : AllDead b (str "q") ∧ b.state.boundQueues guestEnv [] = [str "q"] ∧
      (∀ q ∈ b.state.boundQueues guestEnv [], Deliverable b greeting [] q) ∧
      Deliverable b greeting (str "dummy-exchange") (str "q") := by decide +kernel
  obtain ⟨dead, bound, ok, okInQueue⟩ := facts
  constructor
  · intro claimed
    obtain ⟨tag, b', new, _, _, faithful, result⟩ :=
      claimed.and (publishMessage_returns (reachable_integral (session_reachable _)) ok)
    rcases result with ⟨unbound, _⟩ | ⟨q, rest, cons, served⟩
    · rw [bound] at unbound
      cases unbound
    · rw [bound] at cons
      cases cons
      exact (served_tagFaithful_iff served).mp faithful dead
  · intro claimed
    obtain ⟨tag, b', new, _, _, faithful, served⟩ :=
      claimed.and (publishMessageInQueue_returns okInQueue)
    exact (served_tagFaithful_iff served).mp faithful dead

/-! ## Queues bound to one exchange -/

def pushesTo (queueName : Str) (new : List Event) : List Push :=
  (pushes new).filter fun p => p.queue = queueName

/-- One live consumer of each bound queue that has any gets the message, and nobody else. -/
structure ServesEach (env : Env) (b : Broker) (exchangeName : Str) (pub : Publication)
    (new : List Event) : Prop where
  each : ∀ q ∈ b.state.boundQueues env exchangeName, HasLive b q →
    ∃ p, pushesTo q new = [p] ∧ b.Receives p
  only : ∀ p ∈ pushes new, p.queue ∈ b.state.boundQueues env exchangeName ∧ b.Receives p ∧
    p.headers = pub.headers ∧ pub.payload = .ok p.message

section
variable {env : Env} {b : Broker} {pub : Publication} {exchangeName queueName : Str}

theorem served_servesEach_iff {tag : Option Nat} {new : List Event} {rest : List Str}
    (bound : b.state.boundQueues env exchangeName = queueName :: rest)
    (h : Served b pub exchangeName queueName (b.state.consumersOf queueName) tag new) :
    ServesEach env b exchangeName pub new ↔ ∀ q ∈ rest, ¬ HasLive b q := by
  have fresh : queueName ∉ rest := by
    have nodup := State.nodup_boundQueues env b.state exchangeName
    rw [bound] at nodup
    exact (List.nodup_cons.mp nodup).1
  generalize hentries : b.state.consumersOf queueName = entries at h
  cases h with
  | passed closing =>
      have deadFirst : ¬ HasLive b queueName := by
        rintro ⟨p, hp, live⟩
        rw [hentries] at hp
        rw [closing p hp] at live
        cases live
      constructor
      · intro serves q hq live
        obtain ⟨p, none, _⟩ := serves.each q (by simp [bound, hq]) live
        simp [pushesTo, pushes] at none
      · intro dead
        refine ⟨fun q hq live => ?_, by simp [pushes]⟩
        rw [bound] at hq
        rcases List.mem_cons.mp hq with rfl | later
        · exact absurd live deadFirst
        · exact absurd live (dead q later)
  | @pushed dead after p message split closing live payload =>
      let push := pushTo queueName pub exchangeName p (b.draws dead.length) message
      have receives : b.Receives push := by
        refine ⟨?_, live⟩
        have member : p ∈ b.state.consumersOf queueName := by simp [hentries, split]
        exact member
      have here : pushesTo queueName [.push push] = [push] := by
        simp [pushesTo, pushes, push, pushTo]
      have elsewhere : ∀ q, q ≠ queueName → pushesTo q [.push push] = [] := by
        intro q hne
        simp [pushesTo, pushes, push, pushTo, hne.symm]
      constructor
      · intro serves q hq alive
        obtain ⟨p', one, _⟩ := serves.each q (by simp [bound, hq]) alive
        have hne : q ≠ queueName := fun same => fresh (same ▸ hq)
        rw [elsewhere q hne] at one
        cases one
      · intro dead
        refine ⟨fun q hq alive => ?_, fun p' hp' => ?_⟩
        · rw [bound] at hq
          rcases List.mem_cons.mp hq with rfl | later
          · exact ⟨push, here, receives⟩
          · exact absurd alive (dead q later)
        · have same : p' = push := by simpa [pushes] using hp'
          subst same
          exact ⟨by simp [bound, push, pushTo], receives, rfl, payload⟩

/-- A publication reaches every bound queue with a live consumer exactly if no queue after the
first one of the iteration has a live consumer. -/
theorem publication_servesEach_iff (env : Env) (b : Broker) (h : Reachable env b)
    (exchangeName : Str) (pub : Publication)
    (ok : ∀ q ∈ b.state.boundQueues env exchangeName, Deliverable b pub exchangeName q) :
    Returns (publishMessage env exchangeName pub) b fun _ new =>
      (ServesEach env b exchangeName pub new ↔
        ∀ q ∈ (b.state.boundQueues env exchangeName).tail, ¬ HasLive b q) := by
  obtain ⟨tag, b', new, returned, trace, result⟩ :=
    publishMessage_returns (reachable_integral h) ok
  refine ⟨tag, b', new, returned, trace, ?_⟩
  rcases result with ⟨bound, rfl, rfl⟩ | ⟨q, rest, bound, served⟩
  · have nobody : ServesEach env b exchangeName pub [] :=
      ⟨by simp [bound], by simp [pushes]⟩
    simp [nobody, bound]
  · rw [served_servesEach_iff bound served, bound, List.tail_cons]

end

/-- A second queue, whose consumer is on a second connection. -/
def twoQueues : List Action :=
  oneConsumer ++ logIn 1 ++ [.http (.declareQueue (str "r"))] ++ consume 1 "r" "u"

/-- The consumer of the second queue has gone. -/
def secondGone : List Action := twoQueues ++ [.connectionLost 1]

theorem publication_servesEach_one_live :
    let b := (session secondGone).broker
    Returns (publishMessage guestEnv [] greeting) b fun _ new =>
      ServesEach guestEnv b [] greeting new := by
  intro b
  have facts : (∀ q ∈ b.state.boundQueues guestEnv [], Deliverable b greeting [] q) ∧
      ∀ q ∈ (b.state.boundQueues guestEnv []).tail, ¬ HasLive b q := by decide +kernel
  obtain ⟨tag, b', new, returned, trace, serves⟩ := publication_servesEach_iff guestEnv b
    (session_reachable secondGone) [] greeting facts.1
  exact ⟨tag, b', new, returned, trace, serves.mpr facts.2⟩

/-- Of two bound queues with a live consumer each, only one is served. -/
theorem publication_skips_second_queue :
    let b := (session twoQueues).broker
    ¬ Returns (publishMessage guestEnv [] greeting) b fun _ new =>
      ServesEach guestEnv b [] greeting new := by
  intro b claimed
  have facts : b.state.boundQueues guestEnv [] = [str "q", str "r"] ∧
      (∀ q ∈ b.state.boundQueues guestEnv [], Deliverable b greeting [] q) ∧
      HasLive b (str "r") := by decide +kernel
  obtain ⟨bound, ok, live⟩ := facts
  obtain ⟨tag, b', new, _, _, serves, result⟩ :=
    claimed.and (publishMessage_returns (reachable_integral (session_reachable _)) ok)
  rcases result with ⟨unbound, _⟩ | ⟨q, rest, cons, served⟩
  · rw [bound] at unbound
    cases unbound
  · rw [bound] at cons
    cases cons
    exact (served_servesEach_iff bound served).mp serves (str "r") (by simp) live

end MockAmqp
