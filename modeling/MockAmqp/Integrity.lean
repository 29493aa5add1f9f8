import MockAmqp.Publish

/-!
# Integrity of the shared state

Bindings name declared exchanges and declared queues, and every declared queue is bound to
the default exchange.
-/

namespace MockAmqp
open Exec

structure State.Integral (s : State) : Prop where
  defaultExchange : s.exchanges.contains [] = true
  boundExchange : ∀ e set, s.queuesBoundExchanges.get? e = some set →
    s.exchanges.contains e = true
  boundQueue : ∀ e set, s.queuesBoundExchanges.get? e = some set →
    ∀ q ∈ set.elems, s.queues.contains q = true
  defaultBound : ∀ q, s.queues.contains q = true →
    ∃ set, s.queuesBoundExchanges.get? [] = some set ∧ q ∈ set.elems

namespace State

theorem contains_iff {κ ν : Type} [DecidableEq κ] {d : OrderedDict κ ν} {k : κ} :
    d.contains k = true ↔ ∃ v, d.get? k = some v := Option.isSome_iff_exists

theorem integral_init (env : Env) : (State.init env).Integral where
  defaultExchange := rfl
  boundExchange := fun _ _ h => by cases h
  boundQueue := fun _ _ h => by cases h
  defaultBound := fun _ h => by cases h

theorem Integral.of_sameNames {s s' : State} (h : s.Integral) (same : SameNames s s') :
    s'.Integral where
  defaultExchange := (same.exchanges []).trans h.defaultExchange
  boundExchange := fun e set he => by
    rw [same.bound] at he
    exact (same.exchanges e).trans (h.boundExchange e set he)
  boundQueue := fun e set he q hq => by
    rw [same.bound] at he
    exact (same.queues q).trans (h.boundQueue e set he q hq)
  defaultBound := fun q hq => by
    rw [same.bound]
    exact h.defaultBound q ((same.queues q).symm.trans hq)

theorem integral_declareExchange {s : State} (h : s.Integral) (name type : Str) :
    (s.declareExchange name type).2.Integral := by
  unfold declareExchange
  cases he : s.exchanges.get? name with
  | some e => exact h
  | none =>
      have more : ∀ e, s.exchanges.contains e = true →
          (s.setExchange name { type := type, messages := [] }).exchanges.contains e = true := by
        intro e he
        by_cases hn : e = name
        · simp [setExchange, OrderedDict.contains, hn]
        · simpa [setExchange, OrderedDict.contains, hn] using he
      exact ⟨more _ h.defaultExchange, fun e set hb => more e (h.boundExchange e set hb),
        h.boundQueue, h.defaultBound⟩

/-- Adding a declared queue to the bindings of a declared exchange keeps all but the demand
that every queue is bound by default. -/
theorem integral_bind {s : State} {queue exchange : Str}
    (default : s.exchanges.contains [] = true)
    (boundExchange : ∀ e set, s.queuesBoundExchanges.get? e = some set →
      s.exchanges.contains e = true)
    (boundQueue : ∀ e set, s.queuesBoundExchanges.get? e = some set →
      ∀ q ∈ set.elems, s.queues.contains q = true)
    (defaultBound : ∀ q, s.queues.contains q = true → (q = queue ∧ exchange = []) ∨
      ∃ set, s.queuesBoundExchanges.get? [] = some set ∧ q ∈ set.elems)
    (he : s.exchanges.contains exchange = true) (hq : s.queues.contains queue = true) :
    (s.bindQueue queue exchange).2.Integral := by
  unfold bindQueue
  rw [if_neg (not_not_intro he), if_neg (not_not_intro hq)]
  have old : ∀ q ∈ ((s.queuesBoundExchanges.get? exchange).getD .empty).elems,
      s.queues.contains q = true := by
    intro q hmem
    cases hb : s.queuesBoundExchanges.get? exchange with
    | none =>
        rw [hb] at hmem
        cases hmem
    | some set =>
        rw [hb] at hmem
        exact boundQueue exchange set hb q hmem
  refine ⟨default, ?_, ?_, ?_⟩
  · intro e set hb
    rw [OrderedDict.get?_insert] at hb
    by_cases same : e = exchange
    · rw [same]
      exact he
    · rw [if_neg same] at hb
      exact boundExchange e set hb
  · intro e set hb q hmem
    rw [OrderedDict.get?_insert] at hb
    by_cases same : e = exchange
    · rw [if_pos same] at hb
      cases hb
      rcases (OrderedSet.mem_add _ _ _).mp hmem with before | rfl
      · exact old q before
      · exact hq
    · rw [if_neg same] at hb
      exact boundQueue e set hb q hmem
  · intro q declared
    rw [OrderedDict.get?_insert]
    rcases defaultBound q declared with ⟨rfl, rfl⟩ | ⟨set, hb, hmem⟩
    · exact ⟨_, if_pos rfl, (OrderedSet.mem_add _ _ _).mpr (.inr rfl)⟩
    · by_cases same : ([] : Str) = exchange
      · subst same
        refine ⟨_, if_pos rfl, (OrderedSet.mem_add _ _ _).mpr (.inl ?_)⟩
        rw [hb]
        exact hmem
      · exact ⟨set, by rw [if_neg same, hb], hmem⟩

theorem integral_bindQueue {s : State} (h : s.Integral) (queue exchange : Str) :
    (s.bindQueue queue exchange).2.Integral := by
  by_cases he : s.exchanges.contains exchange = true
  · by_cases hq : s.queues.contains queue = true
    · exact integral_bind h.defaultExchange h.boundExchange h.boundQueue
        (fun q declared => .inr (h.defaultBound q declared)) he hq
    · unfold bindQueue
      rw [if_neg (not_not_intro he), if_pos hq]
      exact h
  · unfold bindQueue
    rw [if_pos he]
    exact h

theorem integral_declareQueue {s : State} (h : s.Integral) (queue : Str) :
    (s.declareQueue queue).2.Integral := by
  unfold declareQueue
  by_cases hq : s.queues.contains queue = true
  · rw [if_pos hq]
    exact h
  · rw [if_neg hq]
    have more : ∀ q, (s.setQueue queue { messages := [], consumers := .empty }).queues.contains q
        = true ↔ q = queue ∨ s.queues.contains q = true := by
      intro q
      by_cases same : q = queue
      · simp [setQueue, OrderedDict.contains, same]
      · simp [setQueue, OrderedDict.contains, same]
    refine integral_bind h.defaultExchange h.boundExchange ?_ ?_ h.defaultExchange
      ((more queue).mpr (.inl rfl))
    · exact fun e set hb q hmem => (more q).mpr (.inr (h.boundQueue e set hb q hmem))
    · intro q declared
      rcases (more q).mp declared with same | before
      · exact .inl ⟨same, rfl⟩
      · exact .inr (h.defaultBound q before)

theorem sameNames_registerConsumer (s : State) (c : ConnId) (tag queue : Str) (n : Nat) :
    SameNames s (s.registerConsumer c tag queue n).2 := by
  unfold registerConsumer
  cases hq : s.queues.get? queue with
  | none => exact sameNames_progress.refl s
  | some q => exact sameNames_setQueue hq

theorem sameNames_appendToQueue (queue : Str) (m : StoredMessage) :
    Within SameNames (appendToQueue queue m) := by
  intro s
  rcases appendToQueue_cases queue m s with raised | ⟨s', stored, names, _⟩
  · rw [after_error raised]
    exact sameNames_progress.refl s
  · rw [after_ok stored]
    exact names

theorem sameNames_appendToExchange (e : Str) (m : StoredMessage) :
    Within SameNames (appendToExchange e m) := by
  intro s
  rcases appendToExchange_cases e m s with raised | ⟨s', stored, names, _⟩
  · rw [after_error raised]
    exact sameNames_progress.refl s
  · rw [after_ok stored]
    exact names

theorem sameNames_appendToQueues (m : StoredMessage) (queues : List Str) :
    Within SameNames (appendToQueues m queues) := by
  induction queues with
  | nil => exact within_pure sameNames_progress _
  | cons q rest ih =>
      exact within_bind sameNames_progress (sameNames_appendToQueue q m) (fun _ => ih)

theorem sameNames_storeMessage (env : Env) (e : Str) (headers data : Val) :
    Within SameNames (storeMessage env e headers data) := by
  have hp := sameNames_progress
  refine within_bind hp (within_read hp _) (fun _ => within_ite (within_pure hp _) ?_)
  refine within_bind hp (sameNames_appendToExchange e _) (fun _ => ?_)
  refine within_bind hp (within_read hp _) (fun queues => ?_)
  exact within_bind hp (sameNames_appendToQueues _ queues) (fun _ => within_pure hp _)

theorem appendToQueues_ok (m : StoredMessage) {queues : List Str} {s : State}
    (declared : ∀ q ∈ queues, s.queues.contains q = true) :
    ∃ s', appendToQueues m queues s = .ok () s' := by
  induction queues generalizing s with
  | nil => exact ⟨s, rfl⟩
  | cons q rest ih =>
      rcases appendToQueue_cases q m s with raised | ⟨s1, stored, names, _⟩
      · obtain ⟨queue, found⟩ := contains_iff.mp (declared q List.mem_cons_self)
        simp [appendToQueue, found] at raised
      · obtain ⟨s', ended⟩ := ih (s := s1) fun p hp =>
          (names.queues p).trans (declared p (List.mem_cons_of_mem _ hp))
        exact ⟨s', (bind_ok stored).trans ended⟩

/-- A message for a declared exchange is stored without an exception. -/
theorem storeMessage_ok (env : Env) {s : State} (h : s.Integral) {e : Str}
    (declared : s.exchanges.contains e = true) (headers data : Val) :
    ∃ s', storeMessage env e headers data s = .ok true s' := by
  rcases appendToExchange_cases e { headers, body := data } s with raised | ⟨s1, stored, names, _⟩
  · obtain ⟨exchange, found⟩ := contains_iff.mp declared
    simp [appendToExchange, found] at raised
  · have bound : ∀ q ∈ s1.boundQueues env e, s1.queues.contains q = true := by
      intro q hq
      have member := (env.setOrder_perm _).mem_iff.mp hq
      cases hset : s1.queuesBoundExchanges.get? e with
      | none =>
          rw [hset] at member
          cases member
      | some set =>
          rw [hset] at member
          exact (h.of_sameNames names).boundQueue e set hset q member
    obtain ⟨s2, appended⟩ := appendToQueues_ok { headers, body := data } bound
    refine ⟨s2, ?_⟩
    unfold storeMessage
    rw [bind_apply, read_apply]
    simp only [declared, not_true_eq_false, if_false]
    rw [bind_ok stored, bind_apply, read_apply]
    exact bind_ok appended

/-- A message for an exchange that is not declared is refused. -/
theorem storeMessage_refused (env : Env) {s : State} {e : Str}
    (undeclared : s.exchanges.contains e = false) (headers data : Val) :
    storeMessage env e headers data s = .ok false s := by
  unfold storeMessage
  rw [bind_apply, read_apply]
  simp only [undeclared]
  rfl

theorem integral_call (env : Env) (op : Call) (s : State) (h : s.Integral) :
    (after (op.run env) s).Integral := by
  cases op with
  | checkCredentials => exact ⟨h.1, h.2, h.3, h.4⟩
  | declareExchange name type => exact integral_declareExchange h name type
  | declareQueue name => exact integral_declareQueue h name
  | bindQueue queue exchange => exact integral_bindQueue h queue exchange
  | registerConsumer c tag queue n =>
      exact h.of_sameNames (sameNames_registerConsumer s c tag queue n)
  | storeMessage e headers data => exact h.of_sameNames (sameNames_storeMessage env e headers data s)
  | messageAck => exact ⟨h.1, h.2, h.3, h.4⟩
  | messageNack tag requeue =>
      have same : SameNames s (s.messageNack tag requeue) := by
        unfold messageNack
        split <;> exact ⟨fun _ => rfl, fun _ => rfl, rfl⟩
      exact h.of_sameNames same

theorem integral_deleteMessagesOfQueue {s : State} (h : s.Integral) (queue : Str) :
    (s.deleteMessagesOfQueue queue).Integral := by
  unfold deleteMessagesOfQueue
  cases hq : s.queues.get? queue with
  | none => exact h
  | some q => exact h.of_sameNames (sameNames_setQueue hq)

theorem integral_deleteMessagesOfExchange {s : State} (h : s.Integral) (e : Str) :
    (s.deleteMessagesOfExchange e).Integral := by
  unfold deleteMessagesOfExchange
  cases he : s.exchanges.get? e with
  | none => exact h
  | some ex => exact h.of_sameNames (sameNames_setExchange he)

end State

theorem integral_http (env : Env) (op : HttpOp) (b : Broker) (h : b.state.Integral) :
    (after (op.run env) b).state.Integral := by
  cases op with
  | reset => exact State.integral_init env
  | declareExchange name type => exact State.integral_declareExchange h name type
  | declareQueue name => exact State.integral_declareQueue h name
  | deleteMessagesOfQueue name => exact State.integral_deleteMessagesOfQueue h name
  | deleteMessagesOfExchange name => exact State.integral_deleteMessagesOfExchange h name
  | publishMessage name pub =>
      have published : Published b (after (publishMessage env name pub) b) :=
        (publishMessage_after env b).1
      have ended : after ((HttpOp.publishMessage name pub).run env) b =
          after (publishMessage env name pub) b := after_bind_pure _ _ b
      rw [ended]
      exact h.of_sameNames published.names
  | publishMessageInQueue name pub =>
      have published : Published b (after (publishMessageInQueue name pub) b) :=
        (publishMessageInQueue_after b).1
      have ended : after ((HttpOp.publishMessageInQueue name pub).run env) b =
          after (publishMessageInQueue name pub) b := after_bind_pure _ _ b
      rw [ended]
      exact h.of_sameNames published.names

theorem integral_turn (env : Env) (b : Broker) (t : Turn) (h : b.state.Integral) :
    (Turn.step env b t).state.Integral := by
  cases t with
  | frame c f =>
      have cases := dispatch_state_cases env c f b
      rcases cases with same | ⟨op, _, state⟩
      · exact same ▸ h
      · exact state ▸ State.integral_call env op b.state h
  | start c => exact (Turn.start_state env b c) ▸ h
  | lost c => exact h
  | http op => exact integral_http env op b h

theorem reachable_integral {env : Env} {b : Broker} (h : Reachable env b) : b.state.Integral :=
  h.invariant (I := fun b => b.state.Integral) (fun _ => State.integral_init env)
    (fun b t => integral_turn env b t)

end MockAmqp
