import MockAmqp.Server

/-!
# What a publication does

The loop over the consumers of a queue passes over those whose transport is closing and
pushes to the first of the others.
-/

namespace MockAmqp
open Exec

/-- After `n` calls of `randint`. -/
def Broker.drawn (b : Broker) (n : Nat) : Broker := { b with draws := fun i => b.draws (n + i) }

@[simp] theorem Broker.drawn_zero (b : Broker) : b.drawn 0 = b := by
  simp [Broker.drawn]

theorem Broker.drawn_drawn (b : Broker) (m n : Nat) : (b.drawn m).drawn n = b.drawn (m + n) := by
  simp [Broker.drawn, Nat.add_assoc]

@[simp] theorem Broker.drawn_isClosing (b : Broker) (n : Nat) (c : ConnId) :
    (b.drawn n).isClosing c = b.isClosing c := rfl

/-- The tag drawn last when `n` consumers have been visited. -/
def Broker.lastTag (b : Broker) : Nat → Option Nat
  | 0 => none
  | n + 1 => some (b.draws n).val

section
variable {queueName exchangeName : Str} {pub : Publication}

theorem offer_passed {dead : List (Str × Consumer)} {b : Broker}
    (closing : ∀ p ∈ dead, b.isClosing p.2.protocol = true) (hne : dead ≠ [])
    (rest : List (Str × Consumer)) (tag : Option Nat) (gone : List Str) :
    offer queueName pub exchangeName (dead ++ rest) tag gone b =
      offer queueName pub exchangeName rest (b.lastTag dead.length)
        (gone ++ dead.map Prod.fst) (b.drawn dead.length) := by
  induction dead generalizing tag gone b with
  | nil => exact absurd rfl hne
  | cons p dead ih =>
      have first : b.isClosing p.2.protocol = true := closing p (by simp)
      have later : ∀ q ∈ dead, (b.drawn 1).isClosing q.2.protocol = true :=
        fun q hq => closing q (by simp [hq])
      have turn : offer queueName pub exchangeName (p :: (dead ++ rest)) tag gone b =
          offer queueName pub exchangeName (dead ++ rest) (some (b.draws 0).val)
            (gone ++ [p.1]) (b.drawn 1) := by
        have shifted : { b with draws := fun n => b.draws (n + 1) } = b.drawn 1 := by
          simp only [Broker.drawn, Nat.add_comm]
        have still : (b.drawn 1).isClosing p.2.protocol = true := first
        simp only [offer, bind_apply, randint, shifted, read_apply, still, if_true]
      rw [List.cons_append, turn]
      by_cases hd : dead = []
      · subst hd
        rfl
      · rw [ih later hd, Broker.drawn_drawn]
        have last : (b.drawn 1).lastTag dead.length = b.lastTag (dead.length + 1) := by
          obtain ⟨n, hn⟩ := Nat.exists_eq_succ_of_ne_zero (List.length_pos_iff.mpr hd).ne'
          simp [Broker.lastTag, Broker.drawn, hn, Nat.add_comm]
        simp [last, Nat.add_comm]

theorem offer_live {p : Str × Consumer} {b : Broker}
    (live : b.isClosing p.2.protocol = false) (rest : List (Str × Consumer))
    (tag : Option Nat) (gone : List Str) :
    offer queueName pub exchangeName (p :: rest) tag gone b = (do
      let message ← attempt pub.payload
      pushMessage (pushTo queueName pub exchangeName p (b.draws 0) message)
      return (some (b.draws 0).val, gone) : OnBroker _) (b.drawn 1) := by
  have shifted : { b with draws := fun n => b.draws (n + 1) } = b.drawn 1 := by
    simp only [Broker.drawn, Nat.add_comm]
  have still : (b.drawn 1).isClosing p.2.protocol = false := live
  simp only [offer, bind_apply, randint, shifted, read_apply, still]
  rfl

variable (queueName exchangeName pub) in
/-- The loop from its start, over consumers that are all closing and others after them. -/
theorem offer_dead {dead : List (Str × Consumer)} {b : Broker}
    (closing : ∀ p ∈ dead, b.isClosing p.2.protocol = true) (rest : List (Str × Consumer)) :
    offer queueName pub exchangeName (dead ++ rest) none [] b =
      offer queueName pub exchangeName rest (b.lastTag dead.length) (dead.map Prod.fst)
        (b.drawn dead.length) := by
  by_cases hne : dead = []
  · subst hne
    simp [Broker.lastTag]
  · rw [offer_passed closing hne, List.nil_append]

theorem first_live (b : Broker) (l : List (Str × Consumer)) :
    (∀ p ∈ l, b.isClosing p.2.protocol = true) ∨
      ∃ dead p rest, l = dead ++ p :: rest ∧
        (∀ q ∈ dead, b.isClosing q.2.protocol = true) ∧ b.isClosing p.2.protocol = false := by
  induction l with
  | nil => exact .inl (by simp)
  | cons p l ih =>
      cases hp : b.isClosing p.2.protocol with
      | false => exact .inr ⟨[], p, l, rfl, by simp, hp⟩
      | true =>
          rcases ih with all | ⟨dead, q, rest, rfl, closing, live⟩
          · exact .inl (by simpa [hp] using all)
          · exact .inr ⟨p :: dead, q, rest, rfl, by simpa [hp] using closing, live⟩

/-- A push leaves its record and writes to one transport. -/
theorem after_pushMessage (p : Push) (b : Broker) :
    after (pushMessage p) b =
      ({ b with trace := b.trace ++ [.push p] } : Broker).setTracker p.protocol
        { b.trackers p.protocol with
          transport := after p.send (b.trackers p.protocol).transport } := by
  have logged : after (pushMessage p) b =
      after (onTransport p.protocol p.send) { b with trace := b.trace ++ [.push p] } := rfl
  rw [logged, onTransport_apply_tracker]

theorem pushMessage_ok {p : Push} {b : Broker} {t : Transport}
    (sent : p.send (b.trackers p.protocol).transport = .ok () t) :
    pushMessage p b = .ok () (({ b with trace := b.trace ++ [.push p] } : Broker).setTracker
      p.protocol { b.trackers p.protocol with transport := t }) := by
  simp only [pushMessage, bind_apply, log, update_apply, onTransport, zoom, sent]

/-! ## Publications whose push succeeds -/

/-- A push to the consumer with this tag would not raise. -/
def Broker.canPush (b : Broker) (pub : Publication) (exchangeName queueName : Str)
    (p : Str × Consumer) (deliveryTag : Nat) : Bool :=
  match pub.payload with
  | .error _ => false
  | .ok message =>
      match (pushTo queueName pub exchangeName p deliveryTag message).send
          (b.trackers p.2.protocol).transport with
      | .ok _ _ => true
      | .error _ _ => false

/-- The message can be pushed to every live consumer of the queue, with any of the tags that
can be drawn for it. -/
def Deliverable (b : Broker) (pub : Publication) (exchangeName queueName : Str) : Prop :=
  ∀ p ∈ b.state.consumersOf queueName, b.isClosing p.2.protocol = false →
    ∀ i < (b.state.consumersOf queueName).length,
      b.canPush pub exchangeName queueName p (b.draws i) = true

instance (b : Broker) (pub : Publication) (exchangeName queueName : Str) :
    Decidable (Deliverable b pub exchangeName queueName) :=
  inferInstanceAs (Decidable (∀ p ∈ _, _ → ∀ i < _, _ = true))

theorem canPush_eq_true {b : Broker} {pub : Publication} {exchangeName queueName : Str}
    {p : Str × Consumer} {tag : Nat} (h : b.canPush pub exchangeName queueName p tag = true) :
    ∃ message t, pub.payload = .ok message ∧
      (pushTo queueName pub exchangeName p tag message).send
        (b.trackers p.2.protocol).transport = .ok () t := by
  unfold Broker.canPush at h
  cases hm : pub.payload with
  | error e =>
      rw [hm] at h
      cases h
  | ok message =>
      simp only [hm] at h
      cases hs : (pushTo queueName pub exchangeName p tag message).send
          (b.trackers p.2.protocol).transport with
      | ok _ t => exact ⟨message, t, rfl, hs⟩
      | error e t =>
          rw [hs] at h
          cases h

/-- How the consumers of a queue were served when the loop over them ended with `tag`: the
events `new` were recorded. -/
inductive Served (b : Broker) (pub : Publication) (exchangeName queueName : Str)
    (entries : List (Str × Consumer)) : Option Nat → List Event → Prop where
  | passed (closing : ∀ p ∈ entries, b.isClosing p.2.protocol = true) :
      Served b pub exchangeName queueName entries (b.lastTag entries.length) []
  | pushed {dead rest : List (Str × Consumer)} {p : Str × Consumer} {message : Val}
      (split : entries = dead ++ p :: rest)
      (closing : ∀ q ∈ dead, b.isClosing q.2.protocol = true)
      (live : b.isClosing p.2.protocol = false) (payload : pub.payload = .ok message) :
      Served b pub exchangeName queueName entries (some (b.draws dead.length).val)
        [.push (pushTo queueName pub exchangeName p (b.draws dead.length) message)]

theorem offer_served {b : Broker} {q : Queue} (hq : b.state.queues.get? queueName = some q)
    (ok : Deliverable b pub exchangeName queueName) :
    ∃ tag gone b' new, offer queueName pub exchangeName q.consumers.entries none [] b =
        .ok (tag, gone) b' ∧
      Served b pub exchangeName queueName q.consumers.entries tag new ∧
      b'.trace = b.trace ++ new ∧ b'.state = b.state := by
  rcases first_live b q.consumers.entries with all | ⟨dead, p, rest, split, closing, live⟩
  · have ended := offer_dead queueName exchangeName pub all []
    rw [List.append_nil] at ended
    exact ⟨_, _, _, [], ended, .passed all, by simp [Broker.drawn], rfl⟩
  · have here := State.consumersOf_eq hq
    have tags : dead.length < q.consumers.entries.length := by simp [split]
    obtain ⟨message, t, payload, sent⟩ := canPush_eq_true
      (ok p (by simp [here, split]) live dead.length (by rwa [here]))
    have still : (b.drawn dead.length).isClosing p.2.protocol = false := live
    have reached := offer_dead queueName exchangeName pub closing (p :: rest)
    rw [offer_live still, payload] at reached
    have pushed := pushMessage_ok (b := (b.drawn dead.length).drawn 1) sent
    rw [attempt_bind_ok] at reached
    have ended := reached.trans (bind_ok pushed)
    rw [← split] at ended
    exact ⟨_, _, _, _, ended, .pushed split closing live payload, rfl, rfl⟩

theorem Served.of_state {b : Broker} {s : State} {entries : List (Str × Consumer)}
    {tag : Option Nat} {new : List Event}
    (h : Served { b with state := s } pub exchangeName queueName entries tag new) :
    Served b pub exchangeName queueName entries tag new := by
  cases h with
  | passed closing => exact .passed closing
  | pushed split closing live payload => exact .pushed split closing live payload

theorem serveQueue_served {b : Broker} {q : Queue} (hq : b.state.queues.get? queueName = some q)
    (ok : Deliverable b pub exchangeName queueName) :
    ∃ tag b' new, serveQueue queueName pub exchangeName b = .ok tag b' ∧
      Served b pub exchangeName queueName q.consumers.entries tag new ∧
      b'.trace = b.trace ++ new := by
  obtain ⟨tag, gone, b', new, offered, served, trace, _⟩ := offer_served hq ok
  have table : getConsumers queueName b = .ok q.consumers b := by simp only [getConsumers, hq]
  refine ⟨tag, { b' with state := b'.state.deleteConsumers queueName gone }, new, ?_, served,
    trace⟩
  unfold serveQueue
  rw [bind_ok table, bind_ok offered]
  rfl

theorem publishMessage_served {env : Env} {b : Broker} {q : Queue} {rest : List Str}
    (he : b.state.exchanges.contains exchangeName = true)
    (bound : b.state.boundQueues env exchangeName = queueName :: rest)
    (hq : b.state.queues.get? queueName = some q)
    (ok : Deliverable b pub exchangeName queueName) :
    ∃ tag b' new, publishMessage env exchangeName pub b = .ok tag b' ∧
      Served b pub exchangeName queueName q.consumers.entries tag new ∧
      b'.trace = b.trace ++ new := by
  obtain ⟨ex, hex⟩ := Option.isSome_iff_exists.mp he
  let s := b.state.setExchange exchangeName { ex with messages := ex.messages ++ [pub.stored] }
  have stored : onState (State.appendToExchange exchangeName pub.stored) b =
      .ok () { b with state := s } := by
    simp only [onState, zoom, State.appendToExchange, hex]
    rfl
  obtain ⟨tag, b', new, result, served, trace⟩ :=
    serveQueue_served (b := { b with state := s }) hq ok
  refine ⟨tag, b', new, ?_, served.of_state, trace⟩
  have same : s.boundQueues env exchangeName = queueName :: rest := bound
  simp only [publishMessage, bind_apply, read_apply, he, not_true_eq_false, if_false, stored,
    same, serveBoundQueues]
  exact result

theorem publishMessageInQueue_served {b : Broker} {q : Queue}
    (hq : b.state.queues.get? queueName = some q)
    (ok : Deliverable b pub (str "dummy-exchange") queueName) :
    ∃ tag b' new, publishMessageInQueue queueName pub b = .ok tag b' ∧
      Served b pub (str "dummy-exchange") queueName q.consumers.entries tag new ∧
      b'.trace = b.trace ++ new := by
  have present : b.state.queues.contains queueName = true := by
    simp only [OrderedDict.contains, hq, Option.isSome_some]
  let q1 : Queue := { q with messages := q.messages ++ [pub.stored] }
  let s := b.state.setQueue queueName q1
  have stored : onState (State.appendToQueue queueName pub.stored) b =
      .ok () { b with state := s } := by
    simp only [onState, zoom, State.appendToQueue, hq]
    rfl
  have hq1 : s.queues.get? queueName = some q1 := OrderedDict.get?_insert_self _ _ _
  have ok1 : Deliverable { b with state := s } pub (str "dummy-exchange") queueName := by
    have same : s.consumersOf queueName = b.state.consumersOf queueName := by
      rw [State.consumersOf_eq hq1, State.consumersOf_eq hq]
    intro p hp live i hi
    rw [same] at hp hi
    exact ok p hp live i hi
  obtain ⟨tag, b', new, result, served, trace⟩ := serveQueue_served hq1 ok1
  refine ⟨tag, b', new, ?_, served.of_state, trace⟩
  simp only [publishMessageInQueue, bind_apply, read_apply, present, not_true_eq_false, if_false,
    stored]
  exact result

end

/-! ## Every publication -/

theorem Push.send_within (p : Push) : Within Wrote p.send := by
  unfold Push.send
  refine within_bind wrote_progress (sendMethodArgs_within _ _ _ _ _) (fun _ => ?_)
  refine within_bind wrote_progress (within_attempt wrote_progress _) (fun size => ?_)
  exact within_bind wrote_progress (sendContentHeader_within _ _ _)
    (fun _ => sendContentBody_within _ _)

/-- Transports may be written to, and nothing else happens to the connections. -/
def SameConnections (b b' : Broker) : Prop :=
  ∀ c, (b'.trackers c).parserState = (b.trackers c).parserState ∧
    (b'.trackers c).channels = (b.trackers c).channels ∧ b'.isClosing c = b.isClosing c

theorem sameConnections_progress : Progress SameConnections where
  refl := fun _ _ => ⟨rfl, rfl, rfl⟩
  trans := fun h k c => ⟨(k c).1.trans (h c).1, (k c).2.1.trans (h c).2.1,
    (k c).2.2.trans (h c).2.2⟩

theorem sameConnections_pushMessage (p : Push) (b : Broker) :
    SameConnections b (after (pushMessage p) b) := by
  intro c
  rw [after_pushMessage]
  by_cases h : c = p.protocol
  · subst h
    have closing := (p.send_within (b.trackers p.protocol).transport).2
    simpa [Broker.isClosing] using closing
  · have other := Broker.setTracker_ne ({ b with trace := b.trace ++ [.push p] } : Broker) h
      { b.trackers p.protocol with transport := after p.send (b.trackers p.protocol).transport }
    simp only [Broker.isClosing, other, and_self]

/-- The push goes to a consumer that is registered and whose transport is not closing. -/
structure Broker.Receives (b : Broker) (p : Push) : Prop where
  registered : (p.consumerTag, { protocol := p.protocol, channelNumber := p.channelNumber }) ∈
    b.state.consumersOf p.queue
  live : b.isClosing p.protocol = false

/-- The events of a publication are pushes to live consumers. -/
def PushesOnly (b b' : Broker) : Prop :=
  ∃ new, b'.trace = b.trace ++ new ∧ ∀ e ∈ new, ∃ p, e = .push p ∧ b.Receives p

/-- What a publication leaves behind: names and connections stay, and of the consumers only
those on closing transports can go. -/
structure Published (b b' : Broker) : Prop where
  names : State.SameNames b.state b'.state
  connections : SameConnections b b'
  kept : ∀ q p, p ∈ b.state.consumersOf q → b.isClosing p.2.protocol = false →
    p ∈ b'.state.consumersOf q
  old : ∀ q p, p ∈ b'.state.consumersOf q → p ∈ b.state.consumersOf q

theorem published_progress : Progress Published where
  refl := fun b => ⟨State.sameNames_progress.refl _, sameConnections_progress.refl b,
    fun _ _ h _ => h, fun _ _ h => h⟩
  trans := fun h k => ⟨State.sameNames_progress.trans h.names k.names,
    sameConnections_progress.trans h.connections k.connections,
    fun q p hp hl => k.kept q p (h.kept q p hp hl) (((h.connections _).2.2).trans hl),
    fun q p hp => h.old q p (k.old q p hp)⟩

section
variable {queueName exchangeName : Str} {pub : Publication}

variable (queueName exchangeName pub) in
/-- The whole loop, whatever its outcome. -/
theorem offer_after (b : Broker) (entries : List (Str × Consumer)) :
    let b' := after (offer queueName pub exchangeName entries none []) b
    b'.state = b.state ∧ SameConnections b b' ∧
      (b'.trace = b.trace ∨ ∃ p ∈ entries, b.isClosing p.2.protocol = false ∧ ∃ tag message,
        b'.trace = b.trace ++ [.push (pushTo queueName pub exchangeName p tag message)]) := by
  rcases first_live b entries with all | ⟨dead, p, rest, rfl, closing, live⟩
  · have ended := offer_dead queueName exchangeName pub all []
    rw [List.append_nil] at ended
    rw [after_ok ended]
    exact ⟨rfl, fun _ => ⟨rfl, rfl, rfl⟩, .inl rfl⟩
  · have here : (b.drawn dead.length).isClosing p.2.protocol = false := live
    have reached := offer_dead queueName exchangeName pub closing (p :: rest)
    rw [offer_live here] at reached
    rw [after_congr reached]
    cases pub.payload with
    | error e => exact ⟨rfl, fun _ => ⟨rfl, rfl, rfl⟩, .inl rfl⟩
    | ok message =>
        rw [attempt_bind_ok, after_bind_pure]
        refine ⟨?_, sameConnections_pushMessage _ _, .inr ⟨p, by simp, live,
          (b.draws dead.length).val, message, ?_⟩⟩
        · rw [after_pushMessage]
          rfl
        · rw [after_pushMessage]
          rfl

/-- Only tags of consumers whose transport is closing are given up. -/
theorem offer_gone {b b' : Broker} {entries : List (Str × Consumer)} {tag : Option Nat}
    {gone : List Str} (h : offer queueName pub exchangeName entries none [] b = .ok (tag, gone) b') :
    ∀ t ∈ gone, ∃ k, (t, k) ∈ entries ∧ b.isClosing k.protocol = true := by
  have given : ∃ dead : List (Str × Consumer), gone = dead.map Prod.fst ∧
      ∀ p ∈ dead, p ∈ entries ∧ b.isClosing p.2.protocol = true := by
    rcases first_live b entries with all | ⟨dead, p, rest, rfl, closing, live⟩
    · have ended := offer_dead queueName exchangeName pub all []
      rw [List.append_nil, h] at ended
      cases ended
      exact ⟨entries, rfl, fun p hp => ⟨hp, all p hp⟩⟩
    · have here : (b.drawn dead.length).isClosing p.2.protocol = false := live
      have reached := offer_dead queueName exchangeName pub closing (p :: rest)
      rw [offer_live here, h] at reached
      refine ⟨dead, ?_, fun q hq => ⟨by simp [hq], closing q hq⟩⟩
      obtain ⟨message, t, _, sent⟩ := bind_eq_ok.mp reached.symm
      obtain ⟨_, u, _, ended⟩ := bind_eq_ok.mp sent
      cases ended
      rfl
  obtain ⟨dead, rfl, hdead⟩ := given
  intro t ht
  obtain ⟨p, hp, rfl⟩ := List.mem_map.mp ht
  exact ⟨p.2, (hdead p hp).1, (hdead p hp).2⟩

theorem consumersOf_deleteConsumers (s : State) (gone : List Str) (n : Str) :
    (s.deleteConsumers queueName gone).consumersOf n =
      if n = queueName then (s.consumersOf queueName).filter (fun p => p.1 ∉ gone)
      else s.consumersOf n := by
  unfold State.deleteConsumers
  cases hq : s.queues.get? queueName with
  | none =>
      have empty : s.consumersOf queueName = [] := by simp only [State.consumersOf, hq]
      by_cases same : n = queueName
      · simp [same, empty]
      · simp [same]
  | some q =>
      rw [State.consumersOf_setQueue, OrderedDict.entries_foldl_erase, State.consumersOf_eq hq]
      by_cases same : n = queueName
      · rw [if_pos same, if_pos same]
        exact List.filter_congr fun _ _ => decide_eq_decide.mpr Iff.rfl
      · rw [if_neg same, if_neg same]

theorem mem_deleteConsumers {s : State} {gone : List Str} {n : Str} {p : Str × Consumer} :
    p ∈ (s.deleteConsumers queueName gone).consumersOf n ↔
      p ∈ s.consumersOf n ∧ (n = queueName → p.1 ∉ gone) := by
  rw [consumersOf_deleteConsumers]
  by_cases same : n = queueName
  · simp [same]
  · simp [same]

theorem sameNames_deleteConsumers (s : State) (gone : List Str) :
    State.SameNames s (s.deleteConsumers queueName gone) := by
  unfold State.deleteConsumers
  cases hq : s.queues.get? queueName with
  | none => exact State.sameNames_progress.refl s
  | some q => exact State.sameNames_setQueue hq

/-- Serving a queue, whatever the outcome. -/
theorem serveQueue_after (b : Broker) :
    Published b (after (serveQueue queueName pub exchangeName) b) ∧
      PushesOnly b (after (serveQueue queueName pub exchangeName) b) := by
  cases hq : b.state.queues.get? queueName with
  | none =>
      have raised : after (serveQueue queueName pub exchangeName) b = b := by
        simp only [after, serveQueue, bind_apply, getConsumers, hq]
      rw [raised]
      exact ⟨published_progress.refl b, [], by simp, by simp⟩
  | some q =>
      have table : getConsumers queueName b = .ok q.consumers b := by
        simp only [getConsumers, hq]
      obtain ⟨state, conns, trace⟩ := offer_after queueName exchangeName pub b q.consumers.entries
      have here := State.consumersOf_eq hq
      have pushes : ∀ b', b'.trace = (after (offer queueName pub exchangeName q.consumers.entries
          none []) b).trace → PushesOnly b b' := by
        intro b' hb'
        rcases trace with same | ⟨p, hp, live, tag, message, pushed⟩
        · exact ⟨[], by simp [hb', same], by simp⟩
        · refine ⟨_, hb'.trans pushed, ?_⟩
          intro e he
          rw [List.mem_singleton.mp he]
          refine ⟨_, rfl, ?_, live⟩
          rw [show (pushTo queueName pub exchangeName p tag message).queue = queueName from rfl,
            here]
          exact hp
      have start : after (serveQueue queueName pub exchangeName) b =
          after (offer queueName pub exchangeName q.consumers.entries none [] >>= fun r => do
            update fun b : Broker => { b with state := b.state.deleteConsumers queueName r.2 }
            return r.1) b := after_congr (bind_ok table)
      cases h : offer queueName pub exchangeName q.consumers.entries none [] b with
      | error e b' =>
          rw [after_error h] at state conns pushes
          have ended : after (serveQueue queueName pub exchangeName) b = b' := by
            rw [start]
            simp only [after, bind_apply, h]
          rw [ended]
          refine ⟨⟨?_, conns, ?_, ?_⟩, pushes b' rfl⟩
          · rw [state]
            exact State.sameNames_progress.refl _
          · rw [state]
            exact fun _ _ hp _ => hp
          · rw [state]
            exact fun _ _ hp => hp
      | ok r b' =>
          obtain ⟨tag, gone⟩ := r
          rw [after_ok h] at state conns pushes
          have ended : after (serveQueue queueName pub exchangeName) b =
              { b' with state := b.state.deleteConsumers queueName gone } := by
            rw [start, ← state]
            exact after_ok (bind_ok h)
          rw [ended]
          refine ⟨⟨sameNames_deleteConsumers _ _, conns, ?_, ?_⟩, pushes _ rfl⟩
          · intro n p hp live
            refine mem_deleteConsumers.mpr ⟨hp, ?_⟩
            rintro rfl hgone
            obtain ⟨k, hk, closing⟩ := offer_gone h p.1 hgone
            rw [here] at hp
            have same : p.2 = k := by
              have found := (q.consumers.get?_eq_some_iff p.1 p.2).mpr hp
              rw [(q.consumers.get?_eq_some_iff p.1 k).mpr hk] at found
              exact (Option.some.inj found).symm
            rw [← same, live] at closing
            cases closing
          · exact fun n p hp => (mem_deleteConsumers.mp hp).1

theorem published_of_state {b : Broker} {s : State} (names : State.SameNames b.state s)
    (consumers : ∀ q, s.consumersOf q = b.state.consumersOf q) :
    Published b { b with state := s } :=
  ⟨names, fun _ => ⟨rfl, rfl, rfl⟩, fun q _ hp _ => (consumers q).symm ▸ hp,
    fun q _ hp => (consumers q) ▸ hp⟩

theorem PushesOnly.of_state {b b' : Broker} {s : State}
    (consumers : ∀ q, s.consumersOf q = b.state.consumersOf q)
    (h : PushesOnly { b with state := s } b') : PushesOnly b b' := by
  obtain ⟨new, trace, pushes⟩ := h
  refine ⟨new, trace, fun e he => ?_⟩
  obtain ⟨p, rfl, registered, live⟩ := pushes e he
  exact ⟨p, rfl, consumers p.queue ▸ registered, live⟩

theorem pushesOnly_of_trace {b b' : Broker} (h : b'.trace = b.trace) : PushesOnly b b' :=
  ⟨[], by simp [h], by simp⟩

theorem pushesOnly_refl (b : Broker) : PushesOnly b b := pushesOnly_of_trace rfl

theorem appendToExchange_cases (exchangeName : Str) (message : StoredMessage) (s : State) :
    State.appendToExchange exchangeName message s = .error .keyError s ∨
      ∃ s', State.appendToExchange exchangeName message s = .ok () s' ∧
        State.SameNames s s' ∧ ∀ q, s'.consumersOf q = s.consumersOf q := by
  unfold State.appendToExchange
  cases he : s.exchanges.get? exchangeName with
  | none => exact .inl rfl
  | some e => exact .inr ⟨_, rfl, State.sameNames_setExchange he, fun _ => rfl⟩

theorem appendToQueue_cases (queueName : Str) (message : StoredMessage) (s : State) :
    State.appendToQueue queueName message s = .error .keyError s ∨
      ∃ s', State.appendToQueue queueName message s = .ok () s' ∧
        State.SameNames s s' ∧ ∀ q, s'.consumersOf q = s.consumersOf q := by
  unfold State.appendToQueue
  cases hq : s.queues.get? queueName with
  | none => exact .inl rfl
  | some q =>
      refine .inr ⟨_, rfl, State.sameNames_setQueue hq, fun n => ?_⟩
      rw [State.consumersOf_setQueue]
      by_cases hn : n = queueName
      · rw [if_pos hn, hn, State.consumersOf_eq hq]
      · rw [if_neg hn]

/-- A step on the state that keeps the consumers, followed by serving a queue or by nothing. -/
theorem stored_then_after {b : Broker} {x : EStateM PyError State Unit}
    (hx : x b.state = .error .keyError b.state ∨ ∃ s, x b.state = .ok () s ∧
      State.SameNames b.state s ∧ ∀ q, s.consumersOf q = b.state.consumersOf q)
    {k : OnBroker (Option Nat)}
    (hk : ∀ b, Published b (after k b) ∧ PushesOnly b (after k b)) :
    let b' := after (onState x >>= fun _ => k) b
    Published b b' ∧ PushesOnly b b' := by
  rcases hx with raised | ⟨s, stored, names, consumers⟩
  · have ended : after (onState x >>= fun _ => k) b = b := by
      simp only [after, bind_apply, onState, zoom, raised]
    rw [ended]
    exact ⟨published_progress.refl b, pushesOnly_refl b⟩
  · have run : onState x b = .ok () { b with state := s } := by
      simp only [onState, zoom, stored]
    have ended : after (onState x >>= fun _ => k) b = after k { b with state := s } :=
      after_congr (bind_ok run)
    rw [ended]
    obtain ⟨published, pushes⟩ := hk { b with state := s }
    exact ⟨published_progress.trans (published_of_state names consumers) published,
      pushes.of_state consumers⟩

theorem publishMessage_after (env : Env) (b : Broker) :
    Published b (after (publishMessage env exchangeName pub) b) ∧
      PushesOnly b (after (publishMessage env exchangeName pub) b) := by
  by_cases he : b.state.exchanges.contains exchangeName = true
  · have start : after (publishMessage env exchangeName pub) b =
        after (onState (State.appendToExchange exchangeName pub.stored) >>= fun _ =>
          read (fun b : Broker => b.state.boundQueues env exchangeName) >>=
            serveBoundQueues pub exchangeName) b := by
      simp only [after, publishMessage, bind_apply, read_apply, he, not_true_eq_false, if_false]
    rw [start]
    refine stored_then_after (appendToExchange_cases _ _ _) (fun b1 => ?_)
    have loop : after (read (fun b : Broker => b.state.boundQueues env exchangeName) >>=
        serveBoundQueues pub exchangeName) b1 =
        after (serveBoundQueues pub exchangeName (b1.state.boundQueues env exchangeName)) b1 := rfl
    rw [loop]
    cases b1.state.boundQueues env exchangeName with
    | nil => exact ⟨published_progress.refl b1, pushesOnly_refl b1⟩
    | cons queueName rest => exact serveQueue_after b1
  · have ended : after (publishMessage env exchangeName pub) b = b := by
      simp only [after, publishMessage, bind_apply, read_apply, he]
      rfl
    rw [ended]
    exact ⟨published_progress.refl b, pushesOnly_refl b⟩

theorem publishMessageInQueue_after (b : Broker) :
    Published b (after (publishMessageInQueue queueName pub) b) ∧
      PushesOnly b (after (publishMessageInQueue queueName pub) b) := by
  by_cases hq : b.state.queues.contains queueName = true
  · have start : after (publishMessageInQueue queueName pub) b =
        after (onState (State.appendToQueue queueName pub.stored) >>= fun _ =>
          serveQueue queueName pub (str "dummy-exchange")) b := by
      simp only [after, publishMessageInQueue, bind_apply, read_apply, hq, not_true_eq_false,
        if_false]
    rw [start]
    exact stored_then_after (appendToQueue_cases _ _ _) serveQueue_after
  · have ended : after (publishMessageInQueue queueName pub) b = b := by
      simp only [after, publishMessageInQueue, bind_apply, read_apply, hq]
      rfl
    rw [ended]
    exact ⟨published_progress.refl b, pushesOnly_refl b⟩

end

/-! ## The ways a publication ends -/

/-- How the loop over the consumers of a queue ends: with nobody to push to, with a body that
cannot be encoded, or with a push that is made or fails. -/
inductive Serves (b : Broker) (queueName : Str) (pub : Publication) (exchangeName : Str)
    (entries : List (Str × Consumer)) : EStateM.Result PyError Broker (Option Nat) → Prop
  | nobody (closing : ∀ p ∈ entries, b.isClosing p.2.protocol = true) :
      Serves b queueName pub exchangeName entries (.ok (b.lastTag entries.length)
        { b.drawn entries.length with
          state := b.state.deleteConsumers queueName (entries.map Prod.fst) })
  | unencoded {dead rest : List (Str × Consumer)} {p : Str × Consumer} {e : PyError}
      (split : entries = dead ++ p :: rest)
      (closing : ∀ q ∈ dead, b.isClosing q.2.protocol = true)
      (live : b.isClosing p.2.protocol = false) (failed : pub.payload = .error e) :
      Serves b queueName pub exchangeName entries (.error e (b.drawn (dead.length + 1)))
  | pushed {dead rest : List (Str × Consumer)} {p : Str × Consumer} {message : Val}
      {t : Transport} (split : entries = dead ++ p :: rest)
      (closing : ∀ q ∈ dead, b.isClosing q.2.protocol = true)
      (live : b.isClosing p.2.protocol = false) (payload : pub.payload = .ok message)
      (sent : (pushTo queueName pub exchangeName p (b.draws dead.length) message).send
        (b.trackers p.2.protocol).transport = .ok () t) :
      Serves b queueName pub exchangeName entries (.ok (some (b.draws dead.length).val)
        { after (pushMessage (pushTo queueName pub exchangeName p (b.draws dead.length) message))
            (b.drawn (dead.length + 1)) with
          state := b.state.deleteConsumers queueName (dead.map Prod.fst) })
  | unsent {dead rest : List (Str × Consumer)} {p : Str × Consumer} {message : Val}
      {e : PyError} {t : Transport} (split : entries = dead ++ p :: rest)
      (closing : ∀ q ∈ dead, b.isClosing q.2.protocol = true)
      (live : b.isClosing p.2.protocol = false) (payload : pub.payload = .ok message)
      (failed : (pushTo queueName pub exchangeName p (b.draws dead.length) message).send
        (b.trackers p.2.protocol).transport = .error e t) :
      Serves b queueName pub exchangeName entries (.error e
        (after (pushMessage (pushTo queueName pub exchangeName p (b.draws dead.length) message))
          (b.drawn (dead.length + 1))))

section
variable {queueName exchangeName : Str} {pub : Publication}

theorem pushMessage_error {p : Push} {b : Broker} {e : PyError} {t : Transport}
    (failed : p.send (b.trackers p.protocol).transport = .error e t) :
    pushMessage p b = .error e (after (pushMessage p) b) := by
  have run : pushMessage p b = .error e (({ b with trace := b.trace ++ [.push p] } :
      Broker).setTracker p.protocol { b.trackers p.protocol with transport := t }) := by
    simp only [pushMessage, bind_apply, log, update_apply, onTransport, zoom, failed]
  rw [run, after_error run]

/-- Serving a declared queue offers the message to its consumers in order. -/
theorem serveQueue_offers {b : Broker} {q : Queue} (hq : b.state.queues.get? queueName = some q) :
    serveQueue queueName pub exchangeName b =
      (offer queueName pub exchangeName q.consumers.entries none [] >>= fun r => do
        update fun b : Broker => { b with state := b.state.deleteConsumers queueName r.2 }
        return r.1) b := by
  have table : getConsumers queueName b = .ok q.consumers b := by simp only [getConsumers, hq]
  exact bind_ok table

theorem serveQueue_nobody {b : Broker} {q : Queue} (hq : b.state.queues.get? queueName = some q)
    (closing : ∀ p ∈ q.consumers.entries, b.isClosing p.2.protocol = true) :
    serveQueue queueName pub exchangeName b = .ok (b.lastTag q.consumers.entries.length)
      { b.drawn q.consumers.entries.length with
        state := b.state.deleteConsumers queueName (q.consumers.entries.map Prod.fst) } := by
  have ended := offer_dead queueName exchangeName pub closing []
  rw [List.append_nil] at ended
  rw [serveQueue_offers hq, bind_ok ended]
  rfl

section
variable {b : Broker} {q : Queue} {dead rest : List (Str × Consumer)} {p : Str × Consumer}

/-- Serving a queue with a live consumer, when the loop has come to it. -/
theorem serveQueue_live (hq : b.state.queues.get? queueName = some q)
    (split : q.consumers.entries = dead ++ p :: rest)
    (closing : ∀ q ∈ dead, b.isClosing q.2.protocol = true)
    (live : b.isClosing p.2.protocol = false) :
    serveQueue queueName pub exchangeName b = (do
      let message ← attempt pub.payload
      pushMessage (pushTo queueName pub exchangeName p (b.draws dead.length) message)
      update fun b : Broker =>
        { b with state := b.state.deleteConsumers queueName (dead.map Prod.fst) }
      return some (b.draws dead.length).val : OnBroker _) (b.drawn (dead.length + 1)) := by
  have still : (b.drawn dead.length).isClosing p.2.protocol = false := live
  have reached := offer_dead queueName exchangeName pub closing (p :: rest)
  rw [offer_live still, ← split, Broker.drawn_drawn] at reached
  rw [serveQueue_offers hq, bind_apply, reached]
  cases pub.payload with
  | error e => rfl
  | ok message =>
      rw [attempt_bind_ok, attempt_bind_ok, bind_apply, bind_apply]
      have same : (b.drawn dead.length).draws 0 = b.draws dead.length := rfl
      rw [same]
      cases pushMessage (pushTo queueName pub exchangeName p (b.draws dead.length) message)
        (b.drawn (dead.length + 1)) <;> rfl

theorem serveQueue_unencoded {e : PyError} (hq : b.state.queues.get? queueName = some q)
    (split : q.consumers.entries = dead ++ p :: rest)
    (closing : ∀ q ∈ dead, b.isClosing q.2.protocol = true)
    (live : b.isClosing p.2.protocol = false) (failed : pub.payload = .error e) :
    serveQueue queueName pub exchangeName b = .error e (b.drawn (dead.length + 1)) := by
  rw [serveQueue_live hq split closing live, failed]
  rfl

theorem serveQueue_pushed {message : Val} {t : Transport}
    (hq : b.state.queues.get? queueName = some q)
    (split : q.consumers.entries = dead ++ p :: rest)
    (closing : ∀ q ∈ dead, b.isClosing q.2.protocol = true)
    (live : b.isClosing p.2.protocol = false) (payload : pub.payload = .ok message)
    (sent : (pushTo queueName pub exchangeName p (b.draws dead.length) message).send
      (b.trackers p.2.protocol).transport = .ok () t) :
    serveQueue queueName pub exchangeName b = .ok (some (b.draws dead.length).val)
      { after (pushMessage (pushTo queueName pub exchangeName p (b.draws dead.length) message))
          (b.drawn (dead.length + 1)) with
        state := b.state.deleteConsumers queueName (dead.map Prod.fst) } := by
  have made := pushMessage_ok (b := b.drawn (dead.length + 1)) sent
  rw [serveQueue_live hq split closing live, payload, attempt_bind_ok, bind_ok made, after_ok made]
  rfl

theorem serveQueue_unsent {message : Val} {e : PyError} {t : Transport}
    (hq : b.state.queues.get? queueName = some q)
    (split : q.consumers.entries = dead ++ p :: rest)
    (closing : ∀ q ∈ dead, b.isClosing q.2.protocol = true)
    (live : b.isClosing p.2.protocol = false) (payload : pub.payload = .ok message)
    (failed : (pushTo queueName pub exchangeName p (b.draws dead.length) message).send
      (b.trackers p.2.protocol).transport = .error e t) :
    serveQueue queueName pub exchangeName b = .error e
      (after (pushMessage (pushTo queueName pub exchangeName p (b.draws dead.length) message))
        (b.drawn (dead.length + 1))) := by
  have raised := pushMessage_error (b := b.drawn (dead.length + 1)) failed
  rw [serveQueue_live hq split closing live, payload, attempt_bind_ok, bind_apply, raised]

end

/-- Serving a queue ends in one of the four ways. -/
theorem serveQueue_serves {b : Broker} {q : Queue} (hq : b.state.queues.get? queueName = some q) :
    Serves b queueName pub exchangeName q.consumers.entries
      (serveQueue queueName pub exchangeName b) := by
  rcases first_live b q.consumers.entries with all | ⟨dead, p, rest, split, closing, live⟩
  · rw [serveQueue_nobody hq all]
    exact .nobody all
  · cases payload : pub.payload with
    | error e =>
        rw [serveQueue_unencoded hq split closing live payload]
        exact .unencoded split closing live payload
    | ok message =>
        cases sent : (pushTo queueName pub exchangeName p (b.draws dead.length) message).send
            (b.trackers p.2.protocol).transport with
        | ok u t =>
            rw [serveQueue_pushed hq split closing live payload sent]
            exact .pushed split closing live payload sent
        | error e t =>
            rw [serveQueue_unsent hq split closing live payload sent]
            exact .unsent split closing live payload sent

variable {env : Env} {b : Broker}

theorem publishMessage_undeclared (h : b.state.exchanges.contains exchangeName = false) :
    publishMessage env exchangeName pub b = .ok none b := by
  simp only [publishMessage, bind_apply, read_apply, h]
  rfl

/-- The message is stored on the exchange, then the bound queues are served. -/
theorem publishMessage_declared {e : Exchange}
    (h : b.state.exchanges.get? exchangeName = some e) :
    publishMessage env exchangeName pub b =
      serveBoundQueues pub exchangeName (b.state.boundQueues env exchangeName) { b with
        state := b.state.setExchange exchangeName
          { e with messages := e.messages ++ [pub.stored] } } := by
  have present : b.state.exchanges.contains exchangeName = true := by
    simp only [OrderedDict.contains, h, Option.isSome_some]
  have stored : onState (State.appendToExchange exchangeName pub.stored) b = .ok () { b with
      state := b.state.setExchange exchangeName
        { e with messages := e.messages ++ [pub.stored] } } := by
    simp only [onState, zoom, State.appendToExchange, h]
  simp only [publishMessage, bind_apply, read_apply, present, not_true_eq_false, if_false, stored]
  rfl

theorem publishMessageInQueue_undeclared (h : b.state.queues.contains queueName = false) :
    publishMessageInQueue queueName pub b = .ok none b := by
  simp only [publishMessageInQueue, bind_apply, read_apply, h]
  rfl

/-- The message is stored in the queue, then the queue is served. -/
theorem publishMessageInQueue_declared {q : Queue}
    (h : b.state.queues.get? queueName = some q) :
    publishMessageInQueue queueName pub b =
      serveQueue queueName pub (str "dummy-exchange") { b with
        state := b.state.setQueue queueName { q with messages := q.messages ++ [pub.stored] } } := by
  have present : b.state.queues.contains queueName = true := by
    simp only [OrderedDict.contains, h, Option.isSome_some]
  have stored : onState (State.appendToQueue queueName pub.stored) b = .ok () { b with
      state := b.state.setQueue queueName { q with messages := q.messages ++ [pub.stored] } } := by
    simp only [onState, zoom, State.appendToQueue, h]
  simp only [publishMessageInQueue, bind_apply, read_apply, present, not_true_eq_false, if_false,
    stored]

end

end MockAmqp
