import MockAmqp.Answers

/-!
# After a close

A frame of a channel that closes its connection does not end the loop over the frames in the
buffer. What the frames behind it still do is told here.
-/

namespace MockAmqp
open Exec

/-- Whether an operation changes the state it finds. -/
def Call.changes (s : State) : Call → Bool
  | checkCredentials username password =>
      s.authenticationTriedOn.get? username ≠
        some (decide (s.users.get? username = some password))
  | declareExchange exchangeName _ => !s.exchanges.contains exchangeName
  | declareQueue queueName => !s.queues.contains queueName
  | bindQueue queue withExchange =>
      s.exchanges.contains withExchange && s.queues.contains queue &&
        (match s.queuesBoundExchanges.get? withExchange with
          | some bound => decide (queue ∉ bound.elems)
          | none => true)
  | registerConsumer consumer consumerTag queueName channelNumber =>
      match s.queues.get? queueName with
      | some q => q.consumers.get? consumerTag ≠ some { protocol := consumer, channelNumber }
      | none => false
  | storeMessage exchangeName _ _ => s.exchanges.contains exchangeName
  | messageAck deliveryTag => deliveryTag ∉ s.messageAcknowledged.elems
  | messageNack deliveryTag requeue =>
      if requeue then deliveryTag ∉ s.messageRequeued.elems
      else deliveryTag ∉ s.messageNotAcknowledged.elems

/-- A frame is heeded: it asks for a change of the shared state or it gets a reply. -/
def Broker.heeds (env : Env) (b : Broker) (c : ConnId) (f : FrameValue) : Bool :=
  (b.asks c f).any (·.changes b.state) || (b.answer env c f).any (·.encoded.isSome)

/-- Once its transport is closing, a connection's frame changes nothing that others see. -/
def SilentOnceClosed (env : Env) (b : Broker) : Turn → Prop
  | .frame c f => b.isClosing c = true → (Turn.step env b (.frame c f)).view = b.view
  | _ => True

/-- A frame that is treated while its transport is closing is passed over. -/
def PassesOver (env : Env) (b : Broker) : Turn → Prop
  | .frame c f => b.isClosing c = true → b.heeds env c f = false
  | _ => True

instance (env : Env) (b : Broker) : ∀ t, Decidable (PassesOver env b t)
  | .frame c f => inferInstanceAs (Decidable (b.isClosing c = true → b.heeds env c f = false))
  | .start _ => inferInstanceAs (Decidable True)
  | .lost _ => inferInstanceAs (Decidable True)
  | .http _ => inferInstanceAs (Decidable True)

/-! ## Operations that change nothing -/

namespace State

variable {s : State}

theorem checkCredentials_same (username password : Str) :
    (s.checkCredentials username password).2 = s ↔ s.authenticationTriedOn.get? username =
      some (decide (s.users.get? username = some password)) := by
  rw [← OrderedDict.insert_eq_self_iff]
  constructor
  · exact congrArg authenticationTriedOn
  · intro kept
    dsimp only [checkCredentials]
    rw [kept]

theorem setExchange_same (name : Str) (e : Exchange) :
    s.setExchange name e = s ↔ s.exchanges.get? name = some e := by
  rw [← OrderedDict.insert_eq_self_iff]
  constructor
  · exact congrArg exchanges
  · intro kept
    unfold setExchange
    rw [kept]

theorem setQueue_same (name : Str) (q : Queue) :
    s.setQueue name q = s ↔ s.queues.get? name = some q := by
  rw [← OrderedDict.insert_eq_self_iff]
  constructor
  · exact congrArg queues
  · intro kept
    unfold setQueue
    rw [kept]

theorem declareExchange_same (name type : Str) :
    (s.declareExchange name type).2 = s ↔ s.exchanges.contains name = true := by
  unfold declareExchange OrderedDict.contains
  cases found : s.exchanges.get? name with
  | some e => exact iff_of_true rfl rfl
  | none =>
      refine iff_of_false ?_ (by simp)
      rw [setExchange_same, found]
      exact nofun

theorem bindQueue_queues (queue withExchange : Str) :
    (s.bindQueue queue withExchange).2.queues = s.queues := by
  unfold bindQueue
  split
  · rfl
  · split
    · rfl
    · rfl

theorem declareQueue_same (name : Str) :
    (s.declareQueue name).2 = s ↔ s.queues.contains name = true := by
  unfold declareQueue
  by_cases found : s.queues.contains name = true
  · rw [if_pos found]
    exact iff_of_true rfl found
  · rw [if_neg found]
    refine iff_of_false (fun same => found ?_) found
    have queues := congrArg State.queues same
    have kept : s.queues.insert name { messages := [], consumers := .empty } = s.queues :=
      (bindQueue_queues name []).symm.trans queues
    rw [OrderedDict.insert_eq_self_iff] at kept
    simp only [OrderedDict.contains, kept, Option.isSome_some]

theorem bindQueue_same (queue withExchange : Str) :
    (s.bindQueue queue withExchange).2 = s ↔ (s.exchanges.contains withExchange = true →
      s.queues.contains queue = true →
        ∃ bound ∈ s.queuesBoundExchanges.get? withExchange, queue ∈ bound.elems) := by
  unfold bindQueue
  by_cases exchange : s.exchanges.contains withExchange = true
  · rw [if_neg (not_not_intro exchange)]
    by_cases declared : s.queues.contains queue = true
    · rw [if_neg (not_not_intro declared)]
      let bound := ((s.queuesBoundExchanges.get? withExchange).getD .empty).add queue
      have same : ({ s with
          queuesBoundExchanges := s.queuesBoundExchanges.insert withExchange bound } : State) = s ↔
          s.queuesBoundExchanges.get? withExchange = some bound := by
        rw [← OrderedDict.insert_eq_self_iff]
        constructor
        · exact congrArg queuesBoundExchanges
        · intro kept
          rw [kept]
      refine same.trans ?_
      dsimp only [bound]
      cases s.queuesBoundExchanges.get? withExchange with
      | none => simp [exchange, declared]
      | some bound =>
          rw [Option.getD_some, Option.some_inj, eq_comm, OrderedSet.add_eq_self_iff]
          simp [exchange, declared]
    · rw [if_pos declared]
      exact iff_of_true rfl fun _ h => absurd h declared
  · rw [if_pos exchange]
    exact iff_of_true rfl fun h => absurd h exchange

theorem registerConsumer_same (consumer : ConnId) (tag name : Str) (n : Nat) :
    (s.registerConsumer consumer tag name n).2 = s ↔ ∀ q ∈ s.queues.get? name,
      q.consumers.get? tag = some { protocol := consumer, channelNumber := n } := by
  unfold registerConsumer
  cases found : s.queues.get? name with
  | none => simp
  | some q =>
      dsimp only
      rw [setQueue_same, found, Option.some_inj]
      constructor
      · intro same q' hq'
        cases hq'
        exact (OrderedDict.insert_eq_self_iff _ _ _).mp (congrArg Queue.consumers same.symm)
      · intro kept
        rw [(OrderedDict.insert_eq_self_iff _ _ _).mpr (kept q rfl)]

theorem messageAck_same (tag : Int) :
    s.messageAck tag = s ↔ tag ∈ s.messageAcknowledged.elems := by
  rw [← OrderedSet.add_eq_self_iff]
  constructor
  · exact congrArg messageAcknowledged
  · intro kept
    unfold messageAck
    rw [kept]

theorem messageNack_same (tag : Int) (requeue : Bool) :
    s.messageNack tag requeue = s ↔ if requeue then tag ∈ s.messageRequeued.elems
      else tag ∈ s.messageNotAcknowledged.elems := by
  rw [← OrderedSet.add_eq_self_iff, ← OrderedSet.add_eq_self_iff]
  cases requeue with
  | true =>
      constructor
      · exact congrArg messageRequeued
      · intro kept
        unfold messageNack
        rw [if_pos rfl, kept]
  | false =>
      constructor
      · exact congrArg messageNotAcknowledged
      · intro kept
        unfold messageNack
        rw [if_neg (by simp), kept]

theorem appendToQueues_exchanges (message : StoredMessage) (queues : List Str) :
    Within (fun s s' : State => s'.exchanges = s.exchanges) (appendToQueues message queues) := by
  have hp : Progress fun s s' : State => s'.exchanges = s.exchanges :=
    ⟨fun _ => rfl, fun h k => k.trans h⟩
  induction queues with
  | nil => exact within_pure hp _
  | cons n rest ih =>
      refine within_bind hp (fun s => ?_) fun _ => ih
      unfold after appendToQueue
      cases s.queues.get? n with
      | none => rfl
      | some q => rfl

theorem storeMessage_same (env : Env) (name : Str) (headers body : Val) :
    after (storeMessage env name headers body) s = s ↔ s.exchanges.contains name = false := by
  unfold OrderedDict.contains
  cases found : s.exchanges.get? name with
  | none =>
      refine iff_of_true ?_ rfl
      have absent : s.exchanges.contains name = false := by
        simp only [OrderedDict.contains, found, Option.isSome_none]
      simp only [after, storeMessage, bind_apply, read_apply, absent]
      rfl
  | some e =>
      have present : s.exchanges.contains name = true := by
        simp only [OrderedDict.contains, found, Option.isSome_some]
      let s1 := s.setExchange name { e with messages := e.messages ++ [{ headers, body }] }
      have stored : appendToExchange name { headers, body } s = .ok () s1 := by
        simp only [appendToExchange, found, s1]
      have run : after (storeMessage env name headers body) s =
          after (appendToQueues { headers, body } (s1.boundQueues env name) >>= fun _ =>
            (return true : EStateM PyError State Bool)) s1 := by
        simp only [after, storeMessage, bind_apply, read_apply, present, not_true_eq_false,
          if_false, stored]
      -- the exchange has one more message, whatever becomes of the queues
      have exchanges := appendToQueues_exchanges { headers, body } (s1.boundQueues env name) s1
      refine iff_of_false (fun same => ?_) (by simp)
      rw [run, after_bind_pure] at same
      rw [same] at exchanges
      have kept := (setExchange_same name _).mp (show s.setExchange name
        { e with messages := e.messages ++ [{ headers, body }] } = s by
          unfold setExchange
          rw [show s.exchanges.insert name _ = s.exchanges from exchanges.symm])
      rw [found] at kept
      have lengths := congrArg (fun e : Option Exchange => e.map (·.messages.length)) kept
      simp at lengths

end State

/-- An operation changes the state exactly in the cases listed. -/
theorem Call.changes_iff (env : Env) (op : Call) (s : State) :
    after (op.run env) s ≠ s ↔ op.changes s = true := by
  rw [ne_eq]
  cases op with
  | checkCredentials username password =>
      exact (not_congr (State.checkCredentials_same username password)).trans
        decide_eq_true_iff.symm
  | declareExchange name type =>
      exact (not_congr (State.declareExchange_same name type)).trans (by simp [changes])
  | declareQueue name =>
      exact (not_congr (State.declareQueue_same name)).trans (by simp [changes])
  | bindQueue queue withExchange =>
      refine (not_congr (State.bindQueue_same queue withExchange)).trans ?_
      dsimp only [changes]
      cases s.queuesBoundExchanges.get? withExchange with
      | none => simp
      | some bound => simp [and_assoc]
  | registerConsumer consumer tag name n =>
      refine (not_congr (State.registerConsumer_same consumer tag name n)).trans ?_
      dsimp only [changes]
      cases s.queues.get? name with
      | none => simp
      | some q => simp
  | storeMessage name headers data =>
      exact (not_congr (State.storeMessage_same env name headers data)).trans (by simp [changes])
  | messageAck tag =>
      exact (not_congr (State.messageAck_same tag)).trans decide_eq_true_iff.symm
  | messageNack tag requeue =>
      refine (not_congr (State.messageNack_same tag requeue)).trans ?_
      cases requeue with
      | true => exact decide_eq_true_iff.symm
      | false => exact decide_eq_true_iff.symm

/-! ## Frames behind a close -/

section
variable {env : Env} {c : ConnId} {f : FrameValue} {b : Broker}

theorem View.answered_trace (n : Nat) (v : View) (o : Option Reply) :
    (v.answered c n o).trace = v.trace ↔ o.any (·.encoded.isSome) = false := by
  cases o with
  | none => exact iff_of_true rfl rfl
  | some r =>
      unfold View.answered
      cases encoded : r.encoded with
      | none => simp [encoded]
      | some bytes => simp [encoded]

theorem View.answered_silent (n : Nat) (v : View) {o : Option Reply}
    (silent : o.any (·.encoded.isSome) = false) : v.answered c n o = v := by
  cases o with
  | none => rfl
  | some r =>
      have none : r.encoded = none := by simpa using silent
      simp only [View.answered, none]

/-- A frame changes what others see exactly if it is heeded. -/
theorem dispatch_view_same :
    (after (dispatch env c f) b).view = b.view ↔ b.heeds env c f = false := by
  rw [dispatch_view]
  unfold Broker.heeds Broker.answer View.served
  cases asks : b.asks c f with
  | none =>
      simp only [Option.any_none, Bool.false_or]
      constructor
      · intro same
        exact (View.answered_trace _ _ _).mp (congrArg View.trace same)
      · exact View.answered_silent _ _
  | some op =>
      simp only [Option.any_some, Bool.or_eq_false_iff]
      constructor
      · intro same
        have state := congrArg View.state same
        have trace := congrArg View.trace same
        rw [View.answered_state] at state
        refine ⟨?_, (View.answered_trace _ _ _).mp trace⟩
        by_contra changes
        exact (op.changes_iff env b.state).mpr (by simpa using changes) state
      · rintro ⟨unchanged, silent⟩
        have state : after (op.run env) b.state = b.state := by
          by_contra changed
          have changes := (op.changes_iff env b.state).mp changed
          rw [unchanged] at changes
          cases changes
        refine (View.answered_silent _ _ silent).trans ?_
        show { b.view with state := after (op.run env) b.state } = b.view
        rw [state]
        rfl

theorem silentOnceClosed_iff (t : Turn) :
    SilentOnceClosed env b t ↔ PassesOver env b t := by
  cases t with
  | frame c f => exact imp_congr_right fun _ => dispatch_view_same
  | _ => exact Iff.rfl

theorem run_silentOnceClosed_iff (turns : List Turn) :
    Runs.Along (Turn.step env) (SilentOnceClosed env) b turns ↔
      Runs.Along (Turn.step env) (PassesOver env) b turns :=
  Runs.along_iff (I := fun _ => True) (fun _ t _ => silentOnceClosed_iff t)
    (fun _ _ _ _ => trivial) trivial turns

end

/-- In every run, no frame does anything once its connection has been closed, exactly as long
as the frames behind a close are passed over. -/
theorem nothing_after_close_iff (env : Env) (draws : Nat → Draw) (actions : List Action) :
    Runs.Along (Turn.step env) (SilentOnceClosed env) (Broker.init env draws)
        (Server.turnsOf env (Server.init env draws) actions) ↔
      Runs.Along (Turn.step env) (PassesOver env) (Broker.init env draws)
        (Server.turnsOf env (Server.init env draws) actions) :=
  run_silentOnceClosed_iff _

/-- A queue.declare on channel 2, which is not open, and one on channel 1 right behind it. -/
def declareBehindClose : Bytes :=
  let queueDeclare := fun n => methodBytes n 50 10 "BsbbbbbF" [.int 0, .str (str "q"), .bool false,
    .bool false, .bool false, .bool false, .bool false, .dict []]
  queueDeclare 2 ++ queueDeclare 1

/-- The queue is declared although the connection has been closed. -/
theorem declared_after_close :
    ¬ Runs.Along (Turn.step guestEnv) (SilentOnceClosed guestEnv)
      (Broker.init guestEnv fun _ => ⟨7, by decide⟩)
      (Server.turnsOf guestEnv (Server.init guestEnv fun _ => ⟨7, by decide⟩)
        (logIn 0 ++ [.dataReceived 0 declareBehindClose])) := by
  rw [run_silentOnceClosed_iff]
  decide +kernel

end MockAmqp
